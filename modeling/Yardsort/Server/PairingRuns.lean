import Yardsort.Server.PairingKeeps

/- Runs of the pairing calls: the log of offers, grants on hosts that were removed, and the run
   theorem. -/
namespace Yardsort.Server.Pairings
open Yardsort.Lib Yardsort.Proto Yardsort.Server.Credentials

structure System.Good (s : System) : Prop where
  tables : s.tables.Good
  callers : ∀ c ∈ s.calls, s.tables.HasDevice c.caller.account c.caller.device
  calls : ∀ c ∈ s.calls, c.next.Sound s.tables c.caller.account

theorem empty_system_good : System.empty.Good :=
  ⟨Tables.empty_good, by simp [System.empty], by simp [System.empty]⟩

section
variable {s s' : System} {a : Act} {k : Nat}

theorem does_cases (h : step s (.does k) = some s') : ∃ caller now job,
    s.calls[k]? = some ⟨caller, now, .goes job⟩ ∧ job.Fresh s.tables ∧
      s' = ⟨(perform s.tables s.log.length caller now job).tables,
        s.calls.set k ⟨caller, now, (perform s.tables s.log.length caller now job).next⟩,
        (perform s.tables s.log.length caller now job).event.toList ++ s.log, s.clock⟩ := by
  dsimp only [step] at h
  split at h
  · rename_i caller now job hk
    split at h
    · rename_i hfresh
      exact ⟨caller, now, job, hk, hfresh, (Option.some.inj h).symm⟩
    · cases h
  · cases h

theorem step_good (h : step s a = some s') (hs : s.Good) :
    s'.Good ∧ s.tables.Grows s'.tables := by
  cases a with
  | signsIn device =>
    dsimp only [step] at h
    split at h
    · cases h
    rename_i hnot
    rw [not_or] at hnot
    cases h
    obtain ⟨hgood, hgrows⟩ := Tables.addDevice_keeps hs.tables hnot.1
    exact ⟨⟨hgood, fun c hc => hgrows.devices _ _ (hs.callers c hc),
      fun c hc => (hs.calls c hc).mono hgrows⟩, hgrows⟩
  | calls id request =>
    dsimp only [step] at h
    split at h
    · cases h
    rename_i device hdevice
    split at h
    · cases h
    cases h
    refine ⟨⟨hs.tables, fun c hc => ?_, fun c hc => ?_⟩, .refl _⟩
    · obtain hold | rfl := mem_snoc.mp hc
      · exact hs.callers c hold
      · exact ⟨device, mem_of_find?_eq_some hdevice, rfl, rfl⟩
    · obtain hold | rfl := mem_snoc.mp hc
      · exact hs.calls c hold
      · exact start_sound _ request
  | does k =>
    obtain ⟨caller, now, job, hk, hfresh, rfl⟩ := does_cases h
    have hmem := mem_of_getElem? hk
    obtain ⟨hgood, hgrows, hnext⟩ := @perform_keeps _ s.log.length _ now _ hs.tables
      (hs.calls _ hmem) hfresh (hs.callers _ hmem)
    refine ⟨⟨hgood, fun c hc => ?_, fun c hc => ?_⟩, hgrows⟩
    · obtain hold | rfl := mem_or_eq_of_mem_set hc
      · exact hgrows.devices _ _ (hs.callers c hold)
      · exact hgrows.devices _ _ (hs.callers ⟨caller, now, .goes job⟩ hmem)
    · obtain hold | rfl := mem_or_eq_of_mem_set hc
      · exact (hs.calls c hold).mono hgrows
      · exact hnext
  | clock now =>
    dsimp only [step] at h
    split at h
    · cases h
      exact ⟨⟨hs.tables, hs.callers, hs.calls⟩, .refl _⟩
    · cases h

theorem mapGrants_ids {t : Tables} {f : GrantRecord → GrantRecord} (hf : ∀ g, (f g).id = g.id) :
    (t.mapGrants f).grants.map (·.id) = t.grants.map (·.id) := by
  rw [Tables.mapGrants, map_map]
  exact map_congr_left fun g _ => hf g.toGrantRecord

theorem takenBack_id (g : GrantRecord) (now : Int) : (g.takenBack now).id = g.id := by
  unfold GrantRecord.takenBack
  split <;> rfl

theorem ifOwn_tables (t : Tables) (caller : Caller) (id : HostId) (next : HostRow → Next) :
    (ifOwn t caller id next).tables = t := by
  unfold ifOwn
  split <;> rfl

theorem revoke_same (t : Tables) (account : AccountId) (id : DeviceId) :
    (t.revoke account id).1.hosts = t.hosts ∧ (t.revoke account id).1.grants = t.grants ∧
      (t.revoke account id).1.offers = t.offers := by
  unfold Tables.revoke
  split
  · exact ⟨rfl, rfl, rfl⟩
  · split <;> exact ⟨rfl, rfl, rfl⟩

theorem perform_ids {t : Tables} {serial : Nat} {caller : Caller} {now : Int} {job : Job}
    (hjob : ∀ host scopes fresh, job ≠ .addGrant host scopes fresh) :
    (perform t serial caller now job).tables.grants.map (·.id) = t.grants.map (·.id) := by
  cases job with
  | addGrant host scopes fresh => exact absurd rfl (hjob host scopes fresh)
  | decide id decision =>
    dsimp only [perform]
    split
    · rfl
    rename_i t' heq
    obtain ⟨grant, -, rfl⟩ := map_eq_some_iff.mp heq
    refine mapGrants_ids fun g => ?_
    split
    · cases decision <;> rfl
    · split <;> rfl
  | revokeGrant id =>
    dsimp only [perform, reads, Tables.revokeGrant]
    split
    · rfl
    refine mapGrants_ids fun g => ?_
    split
    · exact takenBack_id g now
    · rfl
  | removeHost id =>
    dsimp only [perform, reads, Tables.removeHost]
    split
    · rfl
    refine mapGrants_ids (t := t) (f := fun g => if g.host = id then g.takenBack now else g)
      fun g => ?_
    split
    · exact takenBack_id g now
    · rfl
  | redeemOffer key scopes fresh =>
    dsimp only [perform, Tables.redeemOffer]
    split
    · rename_i heq
      split at heq <;> obtain ⟨rfl, -⟩ := Prod.mk.inj heq <;> rfl
    · rename_i heq
      split at heq <;> obtain ⟨rfl, -⟩ := Prod.mk.inj heq <;> rfl
  | rebindHost id name =>
    dsimp only [perform, Tables.rebindHost]
    split
    · rename_i heq
      split at heq <;> obtain ⟨rfl, -⟩ := Prod.mk.inj heq <;> rfl
    · rename_i heq
      split at heq <;> obtain ⟨rfl, -⟩ := Prod.mk.inj heq <;> rfl
  | revoke device =>
    have hsame := revoke_same t caller.account device
    dsimp only [perform]
    split <;> rename_i heq <;> rw [heq] at hsame <;> exact congrArg _ hsame.2.1
  | offerHost id secret code | grantHost view purpose | decideHost view decision | removeOwn id =>
    dsimp only [perform]
    rw [ifOwn_tables]
  | pairHost offer scopes fresh | grants id purpose =>
    dsimp only [perform]
    split
    · rfl
    · split <;> rfl
  | _ => rfl

theorem perform_grants {t : Tables} {serial : Nat} {caller : Caller} {now : Int} {job : Job}
    (ht : t.Good) (hjob : job.Sound t caller.account) (hfresh : job.Fresh t)
    (hcaller : t.HasDevice caller.account caller.device) {g' : GrantRow}
    (hg' : g' ∈ (perform t serial caller now job).tables.grants) :
    (∃ g ∈ t.grants, g.Becomes g') ∨
      ∃ host scopes fresh, job = .addGrant host scopes fresh ∧ g'.status = .pending ∧
        g'.host = host := by
  by_cases hadds : ∃ host scopes fresh, job = .addGrant host scopes fresh
  · obtain ⟨host, scopes, fresh, rfl⟩ := hadds
    obtain hold | rfl := mem_snoc.mp hg'
    · exact .inl ⟨g', hold, .refl g'⟩
    · exact .inr ⟨host, scopes, fresh, rfl, rfl, rfl⟩
  · obtain ⟨hgood, hgrows, -⟩ := @perform_keeps t serial caller now job ht hjob hfresh hcaller
    have hids := @perform_ids t serial caller now job fun host scopes fresh heq =>
      hadds ⟨host, scopes, fresh, heq⟩
    have hid : g'.id ∈ t.grants.map (·.id) := hids ▸ mem_map_of_mem hg'
    obtain ⟨g, hg, hsame⟩ := mem_map.mp hid
    obtain ⟨g'', hg'', hbecomes⟩ := hgrows.grants g hg
    obtain rfl := hgood.grant_eq hg'' hg' (hbecomes.id.trans hsame)
    exact .inl ⟨g, hg, hbecomes⟩

theorem step_grants (h : step s a = some s') (hs : s.Good) {g' : GrantRow}
    (hg' : g' ∈ s'.tables.grants) :
    (∃ g ∈ s.tables.grants, g.Becomes g') ∨ (g'.status = .pending ∧
      ∃ k caller now scopes fresh, a = .does k ∧
        s.calls[k]? = some ⟨caller, now, .goes (.addGrant g'.host scopes fresh)⟩) := by
  cases a with
  | signsIn device =>
    dsimp only [step] at h
    split at h
    · cases h
    · cases h
      exact .inl ⟨g', hg', .refl g'⟩
  | calls id request =>
    dsimp only [step] at h
    split at h
    · cases h
    split at h
    · cases h
    · cases h
      exact .inl ⟨g', hg', .refl g'⟩
  | does k =>
    obtain ⟨caller, now, job, hk, hfresh, rfl⟩ := does_cases h
    have hmem := mem_of_getElem? hk
    obtain hold | ⟨host, scopes, fresh, rfl, hpending, rfl⟩ :=
      perform_grants hs.tables (hs.calls _ hmem) hfresh (hs.callers _ hmem) hg'
    · exact .inl hold
    · exact .inr ⟨hpending, k, caller, now, scopes, fresh, rfl, hk⟩
  | clock now =>
    dsimp only [step] at h
    split at h
    · cases h
      exact .inl ⟨g', hg', .refl g'⟩
    · cases h

def Call.adds : Call → Option HostId
  | ⟨_, _, .goes (.addGrant host _ _)⟩ => some host
  | _ => none

/-- Where `pair` comes to add its request, the host has not been removed since it was found. -/
def Careful (s : System) : Act → Prop
  | .does k => ∀ host ∈ s.calls[k]?.bind Call.adds, ∀ h ∈ s.tables.hosts, h.id = host →
      h.removed = false
  | _ => True

instance (s : System) : (a : Act) → Decidable (Careful s a)
  | .does k => inferInstanceAs (Decidable (∀ host ∈ s.calls[k]?.bind Call.adds,
      ∀ h ∈ s.tables.hosts, h.id = host → h.removed = false))
  | .signsIn _ | .calls _ _ | .clock _ => isTrue trivial

theorem takenBack_over (g : GrantRecord) (now : Int) :
    (g.takenBack now).status ≠ .pending ∧ (g.takenBack now).status ≠ .approved := by
  unfold GrantRecord.takenBack
  split
  · exact ⟨GrantStatus.noConfusion, GrantStatus.noConfusion⟩
  · rename_i hnot
    exact not_or.mp hnot

/-- A host that is removed was so before, or it has just been, and none of its grants waits or is
    in force. -/
theorem perform_removed {t : Tables} {serial : Nat} {caller : Caller} {now : Int} {job : Job}
    {h' : HostRow} (hh' : h' ∈ (perform t serial caller now job).tables.hosts)
    (hremoved : h'.removed = true) :
    (∃ h ∈ t.hosts, h.id = h'.id ∧ h.removed = true) ∨
      ∀ g ∈ (perform t serial caller now job).tables.grants, g.host = h'.id →
        g.status ≠ .pending ∧ g.status ≠ .approved := by
  have hsame : (perform t serial caller now job).tables.hosts = t.hosts →
      ∃ h ∈ t.hosts, h.id = h'.id ∧ h.removed = true := fun hhosts =>
    ⟨h', hhosts ▸ hh', rfl, hremoved⟩
  cases job with
  | addHost name fresh =>
    obtain hold | rfl := mem_snoc.mp hh'
    · exact .inl ⟨h', hold, rfl, hremoved⟩
    · cases hremoved
  | rebindHost id name =>
    left
    dsimp only [perform, Tables.rebindHost] at hh'
    cases hfound : t.host caller.account id with
    | none =>
      rw [hfound] at hh'
      exact ⟨h', hh', rfl, hremoved⟩
    | some host =>
      rw [hfound] at hh'
      have hmapped : h' ∈ t.hosts.map fun h =>
          if h.id = id ∧ h.account = caller.account ∧ h.removed = false then
            { h with device := caller.device, name } else h := by
        dsimp only at hh'
        split at hh' <;> rename_i heq <;> obtain ⟨rfl, -⟩ := Prod.mk.inj heq <;> exact hh'
      obtain ⟨h, hmem, rfl⟩ := mem_map.mp hmapped
      refine ⟨h, hmem, ?_⟩
      split at hremoved <;> rename_i hcond
      · rw [if_pos hcond]
        exact ⟨rfl, hremoved⟩
      · rw [if_neg hcond]
        exact ⟨rfl, hremoved⟩
  | removeHost id =>
    dsimp only [perform, reads, Tables.removeHost] at hh' ⊢
    split at hh'
    · exact .inl ⟨h', hh', rfl, hremoved⟩
    rename_i host hfound
    obtain ⟨h, hmem, rfl⟩ := mem_map.mp hh'
    split at hremoved
    · rename_i hcond
      right
      intro g hg hhost
      rw [if_pos hcond] at hhost
      obtain ⟨g₀, -, rfl⟩ := mem_map.mp hg
      have hof : g₀.host = id := by
        have hhost' : (if g₀.host = id then g₀.takenBack now else g₀.toGrantRecord).host = h.id :=
          hhost
        split at hhost'
        · assumption
        · exact hhost'.trans hcond.1
      show (if g₀.host = id then g₀.takenBack now else g₀.toGrantRecord).status ≠ _ ∧
        (if g₀.host = id then g₀.takenBack now else g₀.toGrantRecord).status ≠ _
      rw [if_pos hof]
      exact takenBack_over _ now
    · rename_i hcond
      rw [if_neg hcond]
      exact .inl ⟨h, hmem, rfl, hremoved⟩
  | decide id decision =>
    left
    refine hsame ?_
    dsimp only [perform]
    split
    · rfl
    · rename_i t' heq
      obtain ⟨grant, -, rfl⟩ := map_eq_some_iff.mp heq
      rfl
  | revokeGrant id =>
    left
    refine hsame ?_
    dsimp only [perform, reads, Tables.revokeGrant]
    split <;> rfl
  | redeemOffer key scopes fresh =>
    left
    refine hsame ?_
    dsimp only [perform, Tables.redeemOffer]
    split <;> rename_i heq <;> split at heq <;> obtain ⟨rfl, -⟩ := Prod.mk.inj heq <;> rfl
  | revoke device =>
    left
    refine hsame ?_
    have hdevices := revoke_same t caller.account device
    dsimp only [perform]
    split <;> rename_i heq <;> rw [heq] at hdevices <;> exact hdevices.1
  | offerHost id secret code | grantHost view purpose | decideHost view decision
  | removeOwn id => exact .inl (hsame (congrArg Tables.hosts (ifOwn_tables ..)))
  | pairHost offer scopes fresh | grants id purpose =>
    left
    refine hsame ?_
    dsimp only [perform]
    split
    · rfl
    · split <;> rfl
  | putOffer host secret code | addGrant host scopes fresh => exact .inl (hsame rfl)

theorem step_cleared (h : step s a = some s') (hs : s.Good) (hcleared : s.tables.Cleared)
    (hcareful : Careful s a) : s'.tables.Cleared := by
  intro h' hh' hremoved g' hg' hhost
  have hold : (∃ h ∈ s.tables.hosts, h.id = h'.id ∧ h.removed = true) ∨
      (g'.status ≠ .pending ∧ g'.status ≠ .approved) := by
    cases a with
    | signsIn device =>
      dsimp only [step] at h
      split at h
      · cases h
      · cases h
        exact .inl ⟨h', hh', rfl, hremoved⟩
    | calls id request =>
      dsimp only [step] at h
      split at h
      · cases h
      split at h
      · cases h
      · cases h
        exact .inl ⟨h', hh', rfl, hremoved⟩
    | does k =>
      obtain ⟨caller, now, job, hk, hfresh, rfl⟩ := does_cases h
      exact (perform_removed hh' hremoved).imp_right fun hover => hover g' hg' hhost
    | clock now =>
      dsimp only [step] at h
      split at h
      · cases h
        exact .inl ⟨h', hh', rfl, hremoved⟩
      · cases h
  obtain ⟨h₀, hmem, hid, hwas⟩ | hover := hold
  · obtain ⟨g, hg, hbecomes⟩ | ⟨-, k, caller, now, scopes, fresh, rfl, hk⟩ := step_grants h hs hg'
    · obtain ⟨hpending, happroved⟩ := hcleared h₀ hmem hwas g hg
        (hbecomes.host.symm.trans (hhost.trans hid.symm))
      have hstatus := hbecomes.status
      cases hg_status : g.status with
      | pending => exact absurd hg_status hpending
      | approved => exact absurd hg_status happroved
      | denied =>
        rw [hg_status] at hstatus
        have hdenied : g'.status = .denied := hstatus
        simp [hdenied]
      | revoked =>
        rw [hg_status] at hstatus
        have hrevoked : g'.status = .revoked := hstatus
        simp [hrevoked]
    -- a request is added only while its host is there
    · have hthere : ∀ h ∈ s.tables.hosts, h.id = g'.host → h.removed = false :=
        hcareful g'.host (by simp [hk, Call.adds])
      rw [hthere h₀ hmem (hid.trans hhost.symm)] at hwas
      cases hwas
  · exact hover

/-! ## Offers, by the log -/

/-- The keys that missed since the offer was made, while it could be redeemed. The log is newest
    first. -/
def missesOf (offer : HostOffer) : List Event → Nat
  | [] => 0
  | .made serial :: log => if serial = offer.serial then 0 else missesOf offer log
  | .missed account now :: log =>
    missesOf offer log + if account = offer.account ∧ now < offer.expiresAt then 1 else 0
  | .taken _ _ :: log => missesOf offer log

/-- Each offer that was taken was open, was not missed too often before, and was not taken
    before. -/
def Redeems : List Event → Prop
  | [] => True
  | .made _ :: log => Redeems log
  | .missed _ _ :: log => Redeems log
  | .taken offer now :: log => Redeems log ∧ now < offer.expiresAt ∧
      missesOf offer log < MAX_OFFER_MISSES ∧
      ∀ other at', .taken other at' ∈ log → other.serial ≠ offer.serial

structure Logged (offers : List HostOffer) (log : List Event) : Prop where
  serials : (offers.map (·.serial)).Nodup
  before : ∀ o ∈ offers, o.serial < log.length
  takenBefore : ∀ o now, .taken o now ∈ log → o.serial < log.length
  untaken : ∀ o ∈ offers, ∀ o' now, .taken o' now ∈ log → o'.serial ≠ o.serial
  misses : ∀ o ∈ offers, o.misses = min (missesOf o log) MAX_OFFER_MISSES
  redeems : Redeems log

theorem missesOf_congr {o o' : HostOffer} (hserial : o'.serial = o.serial)
    (haccount : o'.account = o.account) (hexpires : o'.expiresAt = o.expiresAt)
    (log : List Event) : missesOf o' log = missesOf o log := by
  induction log with
  | nil => rfl
  | cons event log ih => cases event <;> simp only [missesOf, ih, hserial, haccount, hexpires]

section
variable {offers : List HostOffer} {log : List Event}

theorem Logged.made (h : Logged offers log) {offer : HostOffer} (hserial : offer.serial = log.length)
    (hmisses : offer.misses = 0) (p : HostOffer → Bool) :
    Logged (offers.filter p ++ [offer]) (.made log.length :: log) := by
  have hold : ∀ o ∈ offers.filter p, o ∈ offers := fun o ho => mem_of_mem_filter ho
  refine ⟨?_, fun o ho => ?_, fun o now ho => ?_, fun o ho o' now ho' => ?_, fun o ho => ?_,
    h.redeems⟩
  · refine nodup_snoc (h.serials.sublist (filter_sublist.map _)) fun hmem => ?_
    obtain ⟨o, ho, heq⟩ := mem_map.mp hmem
    have hlt := h.before o (hold o ho)
    omega
  · obtain hmem | rfl := mem_snoc.mp ho
    · exact Nat.lt_succ_of_lt (h.before o (hold o hmem))
    · simp [hserial]
  · obtain heq | hmem := mem_cons.mp ho
    · cases heq
    · exact Nat.lt_succ_of_lt (h.takenBefore o now hmem)
  · obtain heq | hmem' := mem_cons.mp ho'
    · cases heq
    · obtain hmem | rfl := mem_snoc.mp ho
      · exact h.untaken o (hold o hmem) o' now hmem'
      · have hlt := h.takenBefore o' now hmem'
        omega
  · obtain hmem | rfl := mem_snoc.mp ho
    · have hlt := h.before o (hold o hmem)
      have hother : log.length ≠ o.serial := by omega
      rw [h.misses o (hold o hmem)]
      simp [missesOf, hother]
    · simp [missesOf, hserial, hmisses]

theorem Logged.missed (h : Logged offers log) (account : AccountId) (now : Int) :
    Logged (offers.map (·.missed account now)) (.missed account now :: log) := by
  have hsame := fun o : HostOffer => Tables.missed_same o account now
  refine ⟨nodup_map h.serials fun o => (hsame o).1, fun o' ho' => ?_, fun o at' ho => ?_,
    fun o' ho' other at' hother => ?_, fun o' ho' => ?_, h.redeems⟩
  · obtain ⟨o, ho, rfl⟩ := mem_map.mp ho'
    rw [(hsame o).1]
    exact Nat.lt_succ_of_lt (h.before o ho)
  · obtain heq | hmem := mem_cons.mp ho
    · cases heq
    · exact Nat.lt_succ_of_lt (h.takenBefore o at' hmem)
  · obtain ⟨o, ho, rfl⟩ := mem_map.mp ho'
    obtain heq | hmem := mem_cons.mp hother
    · cases heq
    · rw [(hsame o).1]
      exact h.untaken o ho other at' hmem
  · obtain ⟨o, ho, rfl⟩ := mem_map.mp ho'
    rw [missesOf_congr (hsame o).1 (hsame o).2.2.1 (hsame o).2.2.2]
    have hwas := h.misses o ho
    simp only [missesOf]
    unfold HostOffer.missed HostOffer.open'
    by_cases hopen : o.account = account ∧ now < o.expiresAt
    · rw [if_pos (show account = o.account ∧ now < o.expiresAt from ⟨hopen.1.symm, hopen.2⟩)]
      by_cases hfew : o.misses < MAX_OFFER_MISSES
      · simp only [hopen.1, hopen.2, hfew, decide_true, Bool.and_true, if_true]
        omega
      · simp only [hopen.1, hopen.2, hfew, decide_true, decide_false, Bool.and_false]
        show o.misses = _
        omega
    · rw [if_neg fun hcond : account = o.account ∧ now < o.expiresAt =>
        hopen ⟨hcond.1.symm, hcond.2⟩]
      have hshut : (decide (o.account = account) && decide (now < o.expiresAt)) = false := by
        simpa using hopen
      simp only [hshut, Bool.false_and]
      exact hwas

theorem Logged.taken (h : Logged offers log) {offers' : List HostOffer} {offer : HostOffer}
    {account : AccountId} {i : Nat} {now : Int} (hi : offers[i]? = some offer)
    (hopen : offer.open' account now = true) (hperm : offers'.Perm (offers.eraseIdx i)) :
    Logged offers' (.taken offer now :: log) := by
  have hmem := mem_of_getElem? hi
  have hsub : ∀ o ∈ offers', o ∈ offers := fun o ho =>
    (eraseIdx_sublist ..).subset (hperm.subset ho)
  simp only [HostOffer.open', Bool.and_eq_true, decide_eq_true_eq] at hopen
  have hgone : ∀ o ∈ offers', o.serial ≠ offer.serial := by
    intro o ho heq
    have hin := hperm.subset ho
    rw [mem_eraseIdx_iff_getElem?] at hin
    obtain ⟨j, hne, hj⟩ := hin
    have hlt : j < (offers.map (·.serial)).length := by
      simpa using (List.getElem?_eq_some_iff.mp hj).1
    exact hne ((List.getElem?_inj hlt h.serials).mp (by simp [hj, hi, heq]))
  refine ⟨?_, fun o ho => Nat.lt_succ_of_lt (h.before o (hsub o ho)), fun o at' ho => ?_,
    fun o ho other at' hother => ?_, fun o ho => h.misses o (hsub o ho),
    h.redeems, hopen.1.2, ?_, h.untaken offer hmem⟩
  · exact (hperm.map _).nodup_iff.mpr (h.serials.sublist ((eraseIdx_sublist ..).map _))
  · obtain heq | hold := mem_cons.mp ho
    · obtain ⟨rfl, -⟩ := Event.taken.inj heq
      exact Nat.lt_succ_of_lt (h.before o hmem)
    · exact Nat.lt_succ_of_lt (h.takenBefore o at' hold)
  · obtain heq | hold := mem_cons.mp hother
    · cases heq
      exact (hgone o ho).symm
    · exact h.untaken o (hsub o ho) other at' hold
  · have hcount := h.misses offer hmem
    omega

theorem Logged.less (h : Logged offers log) (p : HostOffer → Bool) :
    Logged (offers.filter p) log := by
  have hold : ∀ o ∈ offers.filter p, o ∈ offers := fun o ho => mem_of_mem_filter ho
  exact ⟨h.serials.sublist (filter_sublist.map _), fun o ho => h.before o (hold o ho),
    h.takenBefore, fun o ho => h.untaken o (hold o ho), fun o ho => h.misses o (hold o ho),
    h.redeems⟩

end

theorem perform_logged {t : Tables} {log : List Event} {caller : Caller} {now : Int} {job : Job}
    (h : Logged t.offers log) :
    Logged (perform t log.length caller now job).tables.offers
      ((perform t log.length caller now job).event.toList ++ log) := by
  cases job with
  | putOffer host secret code =>
    exact @Logged.made _ _ h
      ⟨log.length, host, caller.account, secret, code, now + OFFER_TTL_MS, 0⟩ rfl rfl _
  | redeemOffer key scopes fresh =>
    dsimp only [perform]
    split
    · rename_i heq
      obtain ⟨offer, -, hfound, hopen, offers, rfl, i, hi, hperm⟩ | ⟨hnone, -⟩ :=
        Tables.redeemOffer_cases heq
      · cases hfound
        exact h.taken hi hopen hperm
      · cases hnone
    · rename_i heq
      obtain ⟨offer, -, hfound, -⟩ | ⟨-, rfl⟩ := Tables.redeemOffer_cases heq
      · cases hfound
      · exact h.missed caller.account now
  | removeHost id =>
    dsimp only [perform, reads, Tables.removeHost]
    split
    · exact h
    · exact h.less _
  | revoke device =>
    have hsame := revoke_same t caller.account device
    dsimp only [perform]
    split <;> rename_i heq <;> rw [heq] at hsame <;> dsimp only at hsame <;>
      simpa only [reads, toList_none, nil_append, hsame.2.2] using h
  | rebindHost id name =>
    dsimp only [perform, Tables.rebindHost]
    split <;> rename_i heq <;> split at heq <;> obtain ⟨rfl, -⟩ := Prod.mk.inj heq <;> exact h
  | decide id decision =>
    dsimp only [perform]
    split
    · exact h
    · rename_i t' heq
      obtain ⟨grant, -, rfl⟩ := map_eq_some_iff.mp heq
      exact h
  | revokeGrant id =>
    dsimp only [perform, reads, Tables.revokeGrant]
    split <;> exact h
  | pairHost offer scopes fresh | grants id purpose =>
    dsimp only [perform]
    split
    · exact h
    · split <;> exact h
  | offerHost id secret code | grantHost view purpose | decideHost view decision | removeOwn id =>
    dsimp only [perform, ifOwn]
    split <;> exact h
  | addHost name fresh => exact h
  | addGrant host scopes fresh => exact h

theorem step_logged (h : step s a = some s') (hs : Logged s.tables.offers s.log) :
    Logged s'.tables.offers s'.log := by
  cases a with
  | signsIn device =>
    dsimp only [step] at h
    split at h
    · cases h
    · cases h
      exact hs
  | calls id request =>
    dsimp only [step] at h
    split at h
    · cases h
    split at h
    · cases h
    · cases h
      exact hs
  | does k =>
    obtain ⟨caller, now, job, hk, hfresh, rfl⟩ := does_cases h
    exact perform_logged hs
  | clock now =>
    dsimp only [step] at h
    split at h
    · cases h
      exact hs
    · cases h

theorem empty_logged : Logged System.empty.tables.offers System.empty.log :=
  ⟨.nil, by simp [System.empty, Tables.empty], by simp [System.empty],
    by simp [System.empty, Tables.empty], by simp [System.empty, Tables.empty], trivial⟩

end

end Yardsort.Server.Pairings
