import Yardsort.Server.Postgres

/- What `PgRecords::rotate` commits, as `MemoryRecords` does it (`Tables.Commits.records`),
   and what a rotation that has the device's row still knows of the tables: others only
   mark credentials as used meanwhile (`Tables.Reads`, `Tables.Decides`). What it read of
   its successor is of the statement's start, before the wait (`Tables.sees`). -/
namespace Yardsort.Server.Credentials
open Yardsort.Lib

def RefreshRow.record (r : RefreshRow) : Refresh :=
  { expiresAt := r.expiresAt
    spentAt := r.spentAt
    successor := r.successorRefresh.bind fun refresh => r.successorAccess.map (refresh, ·)
    retried := r.retried }

def Tables.records (t : Tables) : State :=
  { device := t.device.device
    access := t.access
    refresh := Option.map RefreshRow.record ∘ t.refresh }

namespace Tables
variable {t t' : Tables} {refresh access : TokenHash} {issued : Issued} {now T : Int}
  {r : RefreshRow} {joined : Option (TokenHash × RefreshRow)} {f : Found} {retry : Bool}

theorem records_refresh (h : t.refresh refresh = some r) :
    t.records.refresh refresh = some r.record := by
  show Option.map RefreshRow.record (t.refresh refresh) = _
  rw [h, map_some]

def unusedAccess (t : Tables) (r : RefreshRow) : Bool :=
  (r.successorAccess.bind t.access).any (!·.used)

/-- Whether presenting it now is a retry, by the tables as they are. -/
def retries (t : Tables) (r : RefreshRow) (now : Int) : Bool :=
  (t.found r (t.successor r)).mayRetry now && t.unusedAccess r

/-- What the first statement joined decides as the tables do now, or decides nothing. -/
def sees (t : Tables) (r : RefreshRow) (joined : Option (TokenHash × RefreshRow)) (now : Int) :
    Bool :=
  (t.found r joined).mayRetry now == (t.found r (t.successor r)).mayRetry now ||
    !t.unusedAccess r

theorem retries_of_sees (h : t.sees r joined now = true) :
    t.retries r now = ((t.found r joined).mayRetry now && t.unusedAccess r) := by
  unfold sees at h
  unfold retries
  rw [Bool.or_eq_true, beq_iff_eq] at h
  obtain h | h := h
  · rw [h]
  · rw [Bool.not_eq_true'] at h
    rw [h, Bool.and_false, Bool.and_false]

theorem successorUnspent_eq : (t.found r (t.successor r)).successorUnspent =
    (r.successorRefresh.bind t.refresh).any (·.spentAt.isNone) := by
  unfold found successor
  cases hs : r.successorRefresh with
  | none => rfl
  | some hash =>
    rw [bind_some, bind_some]
    cases t.refresh hash with
    | none => rfl
    | some s => simp

theorem records_unused : t.records.unused r.record =
    ((t.found r (t.successor r)).successorUnspent && t.unusedAccess r) := by
  rw [successorUnspent_eq]
  unfold State.unused RefreshRow.record unusedAccess
  cases r.successorRefresh with
  | none => rfl
  | some hash =>
    cases r.successorAccess with
    | none => simp
    | some access =>
      show ((Option.map RefreshRow.record (t.refresh hash)).any _ && _) = _
      rw [Option.any_map]
      rfl

theorem records_retries (hlive : t.device.device.revoked = none) :
    t.records.retries r.record now = t.retries r now := by
  unfold retries Found.mayRetry State.retries
  rw [records_unused]
  show r.spentAt.any _ = _
  have hdevice : (t.found r (t.successor r)).device.revoked.isNone = true := by
    show t.device.device.revoked.isNone = true
    rw [hlive]
    rfl
  have hspent : (t.found r (t.successor r)).spentAt = r.spentAt := rfl
  have hretried : (t.found r (t.successor r)).retried = r.retried := rfl
  rw [hdevice, hspent, hretried, Bool.true_and]
  cases r.spentAt with
  | none => simp
  | some time =>
    rw [any_some, any_some]
    ac_rfl

theorem retries_successors (h : t.refresh refresh = some r) (hretry : t.retries r now = true) :
    t.device.device.revoked = none ∧ r.spentAt.isSome = true ∧
      ∃ successor s access a, r.successorRefresh = some successor ∧ t.refresh successor = some s ∧
        s.spentAt = none ∧ successor ≠ refresh ∧ r.successorAccess = some access ∧
        t.access access = some a ∧ a.used = false := by
  unfold retries Found.mayRetry at hretry
  rw [successorUnspent_eq] at hretry
  simp only [Bool.and_eq_true, any_eq_true, bind_eq_some_iff, unusedAccess] at hretry
  obtain ⟨⟨⟨hlive, s, ⟨successor, hs, hrow⟩, hunspent⟩, time, htime, -⟩, a, ⟨access, ha, harow⟩,
    hunused⟩ := hretry
  have hspent : r.spentAt = some time := htime
  refine ⟨isNone_iff_eq_none.mp hlive, by rw [hspent]; rfl, successor, s, access, a, hs,
    hrow, isNone_iff_eq_none.mp hunspent, ?_, ha, harow, by simpa using hunused⟩
  rintro rfl
  rw [h] at hrow
  cases hrow
  rw [hspent] at hunspent
  cases hunspent

theorem issue_eq (h : t.issue issued = some t') :
    t.access issued.access = none ∧ t.refresh issued.refresh = none ∧
      t' = { t with
        access := Function.update t.access issued.access (some ⟨issued.accessExpiresAt, false⟩)
        refresh := Function.update t.refresh issued.refresh
          (some ⟨issued.refreshExpiresAt, none, none, none, false⟩) } := by
  unfold issue at h
  split at h
  · cases h
  · rename_i hnew
    rw [not_or, isSome_iff_ne_none, not_not, isSome_iff_ne_none, not_not] at hnew
    exact ⟨hnew.1, hnew.2, (Option.some.inj h).symm⟩

def LastsTill (T : Int) (t : Tables) : Prop :=
  (∀ hash row, t.access hash = some row → T ≤ row.expiresAt) ∧
    ∀ hash row, t.refresh hash = some row → T ≤ row.expiresAt

theorem clean_eq (h : t.LastsTill T) (hnow : now < T) : t.clean now = t := by
  have haccess : (t.clean now).access = t.access := by
    funext hash
    show (t.access hash).filter _ = t.access hash
    cases hrow : t.access hash with
    | none => rfl
    | some row =>
      have hlasts := h.1 hash row hrow
      exact Option.filter_some_pos (by simp; omega)
  have hrefresh : (t.clean now).refresh = t.refresh := by
    funext hash
    show (t.refresh hash).filter _ = t.refresh hash
    cases hrow : t.refresh hash with
    | none => rfl
    | some row =>
      have hlasts := h.2 hash row hrow
      exact Option.filter_some_pos (by simp; omega)
  show Tables.mk t.device (t.clean now).access (t.clean now).refresh = t
  rw [haccess, hrefresh]

theorem issue_access {hash : TokenHash} {row : Access} (h : t.issue issued = some t')
    (hrow : t'.access hash = some row) :
    row = ⟨issued.accessExpiresAt, false⟩ ∨ t.access hash = some row := by
  obtain ⟨-, -, rfl⟩ := issue_eq h
  obtain ⟨-, hnew⟩ | ⟨-, hold⟩ := update_some hrow
  · exact .inl (Option.some.inj hnew).symm
  · exact .inr hold

theorem issue_refresh {hash : TokenHash} {row : RefreshRow} (h : t.issue issued = some t')
    (hrow : t'.refresh hash = some row) :
    (hash = issued.refresh ∧ row = ⟨issued.refreshExpiresAt, none, none, none, false⟩) ∨
      t.refresh hash = some row := by
  obtain ⟨-, -, rfl⟩ := issue_eq h
  obtain ⟨hhash, hnew⟩ | ⟨-, hold⟩ := update_some hrow
  · exact .inl ⟨hhash, (Option.some.inj hnew).symm⟩
  · exact .inr hold

theorem access_issue {hash : TokenHash} {row : Access} (h : t.issue issued = some t')
    (hrow : t.access hash = some row) : t'.access hash = some row := by
  obtain ⟨hnew, -, rfl⟩ := issue_eq h
  have hne : hash ≠ issued.access := fun heq => by rw [← heq, hrow] at hnew; cases hnew
  exact (update_of_ne hne ..).trans hrow

theorem refresh_issue {hash : TokenHash} {row : RefreshRow} (h : t.issue issued = some t')
    (hrow : t.refresh hash = some row) : t'.refresh hash = some row := by
  obtain ⟨-, hnew, rfl⟩ := issue_eq h
  have hne : hash ≠ issued.refresh := fun heq => by rw [← heq, hrow] at hnew; cases hnew
  exact (update_of_ne hne ..).trans hrow

theorem issue_lasts (h : t.LastsTill T) (haccess : T ≤ issued.accessExpiresAt)
    (hrefresh : T ≤ issued.refreshExpiresAt) (hissue : t.issue issued = some t') :
    t'.LastsTill T := by
  constructor
  · intro hash row hrow
    obtain rfl | hold := issue_access hissue hrow
    · exact haccess
    · exact h.1 hash row hold
  · intro hash row hrow
    obtain ⟨-, rfl⟩ | hold := issue_refresh hissue hrow
    · exact hrefresh
    · exact h.2 hash row hold

theorem records_issue (h : t.issue issued = some t') : t'.records = t.records.issue issued := by
  obtain ⟨-, -, rfl⟩ := issue_eq h
  unfold records State.issue
  rw [Function.comp_update]
  rfl

theorem records_modify (g : RefreshRow → RefreshRow) (g' : Refresh → Refresh)
    (h : ∀ row, (g row).record = g' row.record) :
    ({ t with refresh := modify t.refresh refresh g } : Tables).records =
      { t.records with refresh := modify t.records.refresh refresh g' } := by
  unfold records
  dsimp only
  unfold modify
  rw [Function.comp_update, Option.map_map]
  congr 2
  show _ = ((t.refresh refresh).map _).map _
  rw [Option.map_map]
  exact congrArg (fun k => (t.refresh refresh).map k) (funext h)

def retriedRow (issued : Issued) (row : RefreshRow) : RefreshRow :=
  { row with retried := true
             successorRefresh := some issued.refresh
             successorAccess := some issued.access }

def spentRow (issued : Issued) (now : Int) (row : RefreshRow) : RefreshRow :=
  { row with spentAt := some now
             successorRefresh := some issued.refresh
             successorAccess := some issued.access }

theorem spent_lasts (h : t.LastsTill T) :
    ({ t with refresh := modify t.refresh refresh (spentRow issued now) } : Tables).LastsTill
      T := by
  refine ⟨h.1, fun hash row hrow => ?_⟩
  obtain ⟨-, r, hr, rfl⟩ | ⟨-, hrow⟩ := modify_some hrow
  · exact h.2 hash r hr
  · exact h.2 hash row hrow

theorem spend_eq (h : t.LastsTill T) (hnow : now < T) (haccess : T ≤ issued.accessExpiresAt)
    (hrefresh : T ≤ issued.refreshExpiresAt) (hspend : t.spend refresh issued now = some t') :
    ({ t with refresh := modify t.refresh refresh (spentRow issued now) } : Tables).issue issued =
      some t' := by
  obtain ⟨u, hissue, rfl⟩ := map_eq_some_iff.mp hspend
  rw [clean_eq (issue_lasts (spent_lasts h) haccess hrefresh hissue) hnow]
  exact hissue

def dropped (t : Tables) (successor access : TokenHash) : Tables :=
  { t with
    access := Function.update t.access access none
    refresh := Function.update t.refresh successor none }

/-- The successors of a credential that is retried are there, its refresh unspent and so another
    row, its access unused; they are dropped, and new ones issued. -/
theorem retry_eq (h : t.refresh refresh = some r) (hretry : t.retries r now = true)
    (hwrite : t.retry refresh issued = some t') :
    ∃ successor s access a u, r.record.successor = some (successor, access) ∧
      (t.refresh successor = some s ∧ s.spentAt = none ∧ successor ≠ refresh) ∧
      (t.access access = some a ∧ a.used = false) ∧
      (t.dropped successor access).issue issued = some u ∧
      t' = { u with refresh := modify u.refresh refresh (retriedRow issued) } := by
  obtain ⟨-, -, successor, s, access, a, hs, hrow, hunspent, hne, ha, harow, hunused⟩ :=
    retries_successors h hretry
  unfold retry at hwrite
  rw [h, bind_some, hs] at hwrite
  have hkept : (t.deleteRefresh (some successor)).refresh refresh = some r :=
    (update_of_ne hne.symm ..).trans h
  dsimp only at hwrite
  rw [hkept, bind_some, ha] at hwrite
  obtain ⟨u, hissue, rfl⟩ := map_eq_some_iff.mp hwrite
  refine ⟨successor, s, access, a, u, ?_, ⟨hrow, hunspent, hne⟩, ⟨harow, hunused⟩, hissue, rfl⟩
  unfold RefreshRow.record
  rw [hs, ha]
  rfl

theorem records_retry (h : t.refresh refresh = some r) (hretry : t.retries r now = true)
    (hwrite : t.retry refresh issued = some t') :
    t'.records = t.records.retry refresh r.record issued := by
  obtain ⟨successor, s, access, a, u, hsuccessor, ⟨-, -, hne⟩, -, hissue, rfl⟩ :=
    retry_eq h hretry hwrite
  have hkept : (t.dropped successor access).refresh refresh = some r :=
    (update_of_ne hne.symm ..).trans h
  have hnew : refresh ≠ issued.refresh := by
    rintro rfl
    rw [(issue_eq hissue).2.1] at hkept
    cases hkept
  have hdropped : (t.dropped successor access).records =
      t.records.drop (some (successor, access)) := by
    unfold records dropped State.drop
    rw [Function.comp_update]
    rfl
  rw [records_modify (retriedRow issued)
    (fun row => { row with retried := true, successor := some (issued.refresh, issued.access) })
    (fun _ => rfl), records_issue hissue, hdropped, State.retry, hsuccessor]
  unfold State.issue modify
  dsimp only
  rw [update_of_ne hnew, Function.update_comm hnew]

theorem records_spend (h : t.LastsTill T) (hnow : now < T) (haccess : T ≤ issued.accessExpiresAt)
    (hrefresh : T ≤ issued.refreshExpiresAt) (hspend : t.spend refresh issued now = some t') :
    t'.records = t.records.spend refresh issued now := by
  rw [records_issue (spend_eq h hnow haccess hrefresh hspend),
    records_modify (spentRow issued now)
      (fun row =>
        { row with spentAt := some now, successor := some (issued.refresh, issued.access) })
      (fun _ => rfl)]
  rfl

/-! ### A rotation's commit -/

/-- How a rotation of the credential with this row ends. -/
inductive Commits (t : Tables) (refresh : TokenHash) (issued : Issued) (now : Int)
    (r : RefreshRow) : Rotation → Tables → Prop where
  | revoked (hrevoked : t.device.device.revoked.isSome = true) :
      Commits t refresh issued now r .revoked t
  | retried {t' : Tables} (hlive : t.device.device.revoked = none)
      (hretry : t.retries r now = true) (hwrite : t.retry refresh issued = some t') :
      Commits t refresh issued now r (.retried t.device.device) t'
  | reused (hlive : t.device.device.revoked = none) (hspent : r.spentAt.isSome = true)
      (hretry : t.retries r now = false) :
      Commits t refresh issued now r (.reused t.device.device.account) (t.revoke now)
  | expired (hlive : t.device.device.revoked = none) (hspent : r.spentAt = none)
      (hlapsed : r.expiresAt ≤ now) : Commits t refresh issued now r .expired t
  | rotated {t' : Tables} (hlive : t.device.device.revoked = none) (hspent : r.spentAt = none)
      (hcurrent : ¬ r.expiresAt ≤ now) (hwrite : t.spend refresh issued now = some t') :
      Commits t refresh issued now r (.rotated t.device.device) t'

theorem commits {outcome : Rotation}
    (h : t.commit refresh issued now (t.found r joined) (t.retries r now) = some (outcome, t')) :
    t.Commits refresh issued now r outcome t' := by
  unfold commit at h
  have hdevice : (t.found r joined).device = t.device.device := rfl
  have hspentAt : (t.found r joined).spentAt = r.spentAt := rfl
  have hexpires : (t.found r joined).expiresAt = r.expiresAt := rfl
  rw [hdevice, hspentAt, hexpires] at h
  split at h
  · rename_i hrevoked
    cases h
    exact .revoked hrevoked
  · rename_i hlive
    have hlive : t.device.device.revoked = none := Option.not_isSome_iff_eq_none.mp hlive
    split at h
    · rename_i hretry
      obtain ⟨u, hwrite, heq⟩ := map_eq_some_iff.mp h
      cases heq
      exact .retried hlive hretry hwrite
    · rename_i hretry
      split at h
      · rename_i hspent
        cases h
        exact .reused hlive hspent (Bool.eq_false_iff.mpr hretry)
      · rename_i hspent
        have hspent : r.spentAt = none := Option.not_isSome_iff_eq_none.mp hspent
        split at h
        · rename_i hlapsed
          cases h
          exact .expired hlive hspent hlapsed
        · rename_i hcurrent
          obtain ⟨u, hwrite, heq⟩ := map_eq_some_iff.mp h
          cases heq
          exact .rotated hlive hspent hcurrent hwrite

end Tables

/-- It is made before `T`, and what it would issue lasts till then. -/
def Call.LastsTill (T : Int) : Call → Prop
  | .access _ => True
  | .rotate _ issued now =>
    now < T ∧ T ≤ issued.accessExpiresAt ∧ T ≤ issued.refreshExpiresAt

/-- No two refresh credentials that could be traded in. -/
def Tables.OneUnspent (t : Tables) : Prop :=
  ∀ hash hash' row row', t.refresh hash = some row → row.spentAt = none →
    t.refresh hash' = some row' → row'.spentAt = none → hash = hash'

/-- The credential was traded in, and presented again since if `again`. -/
def Tables.Spent (t : Tables) (again : Bool) (hash : TokenHash) : Prop :=
  ∃ row, t.refresh hash = some row ∧ row.spentAt.isSome = true ∧
    (again = true → row.retried = true)

def Tables.Used (t : Tables) (hash : TokenHash) : Prop :=
  ∃ row, t.access hash = some row ∧ row.used = true

structure Tables.Keeps (T : Int) (t t' : Tables) : Prop where
  lasts : t.LastsTill T → t'.LastsTill T
  unspent : t.OneUnspent → t'.OneUnspent
  spent : ∀ again hash, t.Spent again hash → t'.Spent again hash
  used : ∀ hash, t.Used hash → t'.Used hash

namespace Tables
variable {t t' : Tables} {refresh access : TokenHash} {issued : Issued} {now T : Int}
  {r : RefreshRow} {outcome : Rotation}

theorem Keeps.refl (t : Tables) : Keeps T t t :=
  ⟨id, id, fun _ _ => id, fun _ => id⟩

section
variable (h : t.refresh refresh = some r)
include h

/-- **A commit is a call of `MemoryRecords`.** -/
theorem Commits.records (hcommit : t.Commits refresh issued now r outcome t')
    (hlasts : t.LastsTill T) (hcall : Call.LastsTill T (.rotate refresh issued now)) :
    t.records.rotate refresh issued now = (outcome, t'.records) := by
  have hr := records_refresh h
  cases hcommit with
  | revoked hrevoked => exact State.rotate_revoked hr hrevoked
  | retried hlive hretry hwrite =>
    rw [records_retry h hretry hwrite]
    exact State.rotate_retried hr hlive ((records_retries hlive).trans hretry)
  | reused hlive hspent hretry =>
    exact State.rotate_reused hr hlive hspent ((records_retries hlive).trans hretry)
  | expired hlive hspent hlapsed => exact State.rotate_expired hr hlive hspent hlapsed
  | rotated hlive hspent hcurrent hwrite =>
    rw [records_spend hlasts hcall.1 hcall.2.1 hcall.2.2 hwrite]
    exact State.rotate_rotated hr hlive hspent hcurrent

theorem retry_keeps (hcall : Call.LastsTill T (.rotate refresh issued now))
    (hretry : t.retries r now = true) (hwrite : t.retry refresh issued = some t') :
    Keeps T t t' ∧ t'.Spent true refresh := by
  obtain ⟨-, hspent, -⟩ := retries_successors h hretry
  obtain ⟨successor, s, access, a, u, -, ⟨hsrow, hunspent, hne⟩, ⟨harow, hunused⟩, hissue, rfl⟩ :=
    retry_eq h hretry hwrite
  have hkept : ∀ hash row, t.refresh hash = some row → hash ≠ successor →
      u.refresh hash = some row := fun hash row hrow hother =>
    refresh_issue hissue ((update_of_ne hother ..).trans hrow)
  refine ⟨⟨?_, ?_, ?_, ?_⟩, ?_⟩
  · intro hlasts
    have hdropped : (t.dropped successor access).LastsTill T := by
      constructor
      · intro hash row hrow
        obtain ⟨-, hnone⟩ | ⟨-, hrow⟩ := update_some hrow
        · cases hnone
        · exact hlasts.1 hash row hrow
      · intro hash row hrow
        obtain ⟨-, hnone⟩ | ⟨-, hrow⟩ := update_some hrow
        · cases hnone
        · exact hlasts.2 hash row hrow
    have hu := issue_lasts hdropped hcall.2.1 hcall.2.2 hissue
    refine ⟨hu.1, fun hash row hrow => ?_⟩
    obtain ⟨-, y, hy, rfl⟩ | ⟨-, hrow⟩ := modify_some hrow
    · exact hu.2 hash y hy
    · exact hu.2 hash row hrow
  -- the only one left is the one just issued
  · intro hone
    have honly : ∀ hash row, (modify u.refresh refresh (retriedRow issued)) hash = some row →
        row.spentAt = none → hash = issued.refresh := by
      intro hash row hrow hnone
      have hrow : ∃ y, u.refresh hash = some y ∧ y.spentAt = none := by
        obtain ⟨-, y, hy, rfl⟩ | ⟨-, hrow⟩ := modify_some hrow
        · exact ⟨y, hy, hnone⟩
        · exact ⟨row, hrow, hnone⟩
      obtain ⟨y, hy, hnone⟩ := hrow
      obtain ⟨hhash, -⟩ | hold := issue_refresh hissue hy
      · exact hhash
      · obtain ⟨-, hgone⟩ | ⟨hother, hold⟩ := update_some hold
        · cases hgone
        · exact absurd (hone hash successor y s hold hnone hsrow hunspent) hother
    intro hash hash' row row' hrow hnone hrow' hnone'
    rw [honly hash row hrow hnone, honly hash' row' hrow' hnone']
  · rintro again hash ⟨row, hrow, hrowSpent, hagain⟩
    have hother : hash ≠ successor := by
      rintro rfl
      rw [hsrow] at hrow
      cases hrow
      rw [hunspent] at hrowSpent
      cases hrowSpent
    refine ⟨_, some_modify (hkept hash row hrow hother), ?_, ?_⟩
    · split
      · exact hrowSpent
      · exact hrowSpent
    · intro htrue
      split
      · rfl
      · exact hagain htrue
  · rintro hash ⟨row, hrow, hused⟩
    have hother : hash ≠ access := by
      rintro rfl
      rw [harow] at hrow
      cases hrow
      rw [hunused] at hused
      cases hused
    have hstill : (t.dropped successor access).access hash = some row :=
      (update_of_ne hother ..).trans hrow
    have hthere : u.access hash = some row := access_issue hissue hstill
    exact ⟨row, hthere, hused⟩
  · refine ⟨_, some_modify (hkept refresh r h hne.symm), ?_⟩
    rw [if_pos rfl]
    exact ⟨hspent, fun _ => rfl⟩

theorem spend_keeps (hlasts : t.LastsTill T) (hcall : Call.LastsTill T (.rotate refresh issued now))
    (hspent : r.spentAt = none) (hwrite : t.spend refresh issued now = some t') :
    Keeps T t t' ∧ t'.Spent false refresh := by
  have hissue := spend_eq hlasts hcall.1 hcall.2.1 hcall.2.2 hwrite
  refine ⟨⟨?_, ?_, ?_, ?_⟩, ?_⟩
  · intro _
    exact issue_lasts (spent_lasts hlasts) hcall.2.1 hcall.2.2 hissue
  · intro hone
    have honly : ∀ hash row, t'.refresh hash = some row → row.spentAt = none →
        hash = issued.refresh := by
      intro hash row hrow hnone
      obtain ⟨hhash, -⟩ | hold := issue_refresh hissue hrow
      · exact hhash
      · obtain ⟨-, y, hy, rfl⟩ | ⟨hother, hold⟩ := modify_some hold
        · cases hnone
        · exact absurd (hone hash refresh row r hold hnone h hspent) hother
    intro hash hash' row row' hrow hnone hrow' hnone'
    rw [honly hash row hrow hnone, honly hash' row' hrow' hnone']
  · rintro again hash ⟨row, hrow, hrowSpent, hagain⟩
    refine ⟨_, refresh_issue hissue (some_modify hrow), ?_, ?_⟩
    · split
      · rfl
      · exact hrowSpent
    · intro htrue
      split
      · exact hagain htrue
      · exact hagain htrue
  · rintro hash ⟨row, hrow, hused⟩
    exact ⟨row, access_issue hissue hrow, hused⟩
  · refine ⟨_, refresh_issue hissue (some_modify h), ?_⟩
    rw [if_pos rfl]
    exact ⟨rfl, fun hfalse => absurd hfalse Bool.false_ne_true⟩

theorem Commits.keeps (hcommit : t.Commits refresh issued now r outcome t')
    (hlasts : t.LastsTill T) (hcall : Call.LastsTill T (.rotate refresh issued now)) :
    Keeps T t t' := by
  cases hcommit with
  | revoked | expired => exact .refl t
  | retried hlive hretry hwrite => exact (retry_keeps h hcall hretry hwrite).1
  | reused => exact ⟨id, id, fun _ _ => id, fun _ => id⟩
  | rotated hlive hspent hcurrent hwrite => exact (spend_keeps h hlasts hcall hspent hwrite).1

theorem Commits.device (hcommit : t.Commits refresh issued now r outcome t') :
    t'.device.device = t.device.device ∨
      t.device.device.revoked = none ∧ t'.device.device.revoked.isSome = true := by
  cases hcommit with
  | revoked | expired => exact .inl rfl
  | reused hlive => exact .inr ⟨hlive, rfl⟩
  | retried _ hretry hwrite =>
    obtain ⟨successor, s, access, a, u, -, -, -, hissue, rfl⟩ := retry_eq h hretry hwrite
    obtain ⟨-, -, rfl⟩ := issue_eq hissue
    exact .inl rfl
  | rotated _ _ _ hwrite =>
    obtain ⟨u, hissue, rfl⟩ := map_eq_some_iff.mp hwrite
    obtain ⟨-, -, rfl⟩ := issue_eq hissue
    exact .inl rfl

end

def mark (t : Tables) (access : TokenHash) : Tables :=
  { t with access := modify t.access access fun row => { row with used := true } }

theorem mark_keeps : Keeps T t (t.mark access) := by
  refine ⟨fun hlasts => ⟨fun hash row hrow => ?_, hlasts.2⟩, id, fun _ _ => id, ?_⟩
  · obtain ⟨-, y, hy, rfl⟩ | ⟨-, hrow⟩ := modify_some hrow
    · exact hlasts.1 hash y hy
    · exact hlasts.1 hash row hrow
  · rintro hash ⟨row, hrow, hused⟩
    refine ⟨_, some_modify hrow, ?_⟩
    split
    · rfl
    · exact hused

/-- What the first statement found is what is there, and its successor decides nothing else. -/
def Reads (t : Tables) (refresh : TokenHash) (now : Int) (f : Found) : Prop :=
  ∃ r joined, t.refresh refresh = some r ∧ f = t.found r joined ∧ t.sees r joined now = true

def Decides (t : Tables) (refresh : TokenHash) (now : Int) (f : Found) (retry : Bool)
    (locked : List RowKey) : Prop :=
  ∃ r joined, t.refresh refresh = some r ∧ f = t.found r joined ∧ retry = t.retries r now ∧
    (retry = true → ∃ access, r.successorAccess = some access ∧ RowKey.access access ∈ locked)

theorem mark_unusedAccess (h : (t.mark access).unusedAccess r = true) :
    t.unusedAccess r = true := by
  unfold unusedAccess at h ⊢
  cases ha : r.successorAccess with
  | none => rw [ha] at h; exact h
  | some b =>
    rw [ha, bind_some] at h
    rw [bind_some]
    obtain ⟨row, hrow, hunused⟩ := (any_eq_true _ _).mp h
    obtain ⟨-, y, -, rfl⟩ | ⟨-, hrow⟩ := modify_some hrow
    · exact absurd hunused Bool.false_ne_true
    · exact (any_eq_true _ _).mpr ⟨row, hrow, hunused⟩

theorem Reads.mark {f : Found} (h : t.Reads refresh now f) :
    (t.mark access).Reads refresh now f := by
  obtain ⟨r, joined, hr, rfl, hsees⟩ := h
  refine ⟨r, joined, hr, rfl, ?_⟩
  unfold sees at hsees ⊢
  rw [Bool.or_eq_true] at hsees ⊢
  refine hsees.imp id fun hunused => ?_
  rw [Bool.not_eq_true'] at hunused ⊢
  exact Bool.eq_false_iff.mpr fun hmarked =>
    Bool.eq_false_iff.mp hunused (mark_unusedAccess hmarked)

theorem Decides.mark {f : Found} {retry : Bool} {locked : List RowKey}
    (h : t.Decides refresh now f retry locked) (hfree : RowKey.access access ∉ locked) :
    (t.mark access).Decides refresh now f retry locked := by
  obtain ⟨r, joined, hr, rfl, hretry, hlocked⟩ := h
  refine ⟨r, joined, hr, rfl, ?_, hlocked⟩
  have hmarked : (t.mark access).retries r now =
      ((t.found r (t.successor r)).mayRetry now && (t.mark access).unusedAccess r) := rfl
  rw [hmarked]
  unfold retries at hretry
  cases retry with
  | true =>
    obtain ⟨b, hb, hin⟩ := hlocked rfl
    have hother : b ≠ access := fun heq => hfree (heq ▸ hin)
    have hsame : (t.mark access).unusedAccess r = t.unusedAccess r := by
      unfold unusedAccess
      rw [hb, bind_some, bind_some]
      exact congrArg (Option.any _) (modify_of_ne hother)
    rw [hsame]
    exact hretry
  | false =>
    refine (Bool.eq_false_iff.mpr fun htrue => Bool.eq_false_iff.mp hretry.symm ?_).symm
    rw [Bool.and_eq_true] at htrue ⊢
    exact ⟨htrue.1, mark_unusedAccess htrue.2⟩

end Tables

end Yardsort.Server.Credentials
