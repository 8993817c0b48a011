import Yardsort.Host.SignIn

/- What a run of the host's sign-in keeps. In every state reached the refresh credential
   in the store is unspent (`Current`), or spent on an answer that was lost and good for
   one more try (`Waiting`), or spent on an answer still on its way (`OnWay`). The
   fourth possibility, `Doomed`, is never left and never keeps anything again, so a run
   whose lost answers are all followed by one that is kept does not meet it. -/
namespace Yardsort.Server.Credentials.State

variable {s : State} {issued : Issued} {refresh : TokenHash} {old : Refresh} {now : Int}

theorem issue_refresh_self :
    (s.issue issued).refresh issued.refresh =
      some ⟨issued.refreshExpiresAt, none, none, false⟩ :=
  Function.update_self ..

theorem issue_refresh_of_ne (h : refresh ≠ issued.refresh) :
    (s.issue issued).refresh refresh = s.refresh refresh :=
  Function.update_of_ne h ..

theorem issue_access_self :
    (s.issue issued).access issued.access = some ⟨issued.accessExpiresAt, false⟩ :=
  Function.update_self ..

def Within (s : State) (drawn : List TokenHash) : Prop :=
  (∀ r, (s.refresh r).isSome = true → r ∈ drawn) ∧ ∀ a, (s.access a).isSome = true → a ∈ drawn

theorem Within.issue {drawn : List TokenHash} (h : s.Within drawn) :
    (s.issue issued).Within (issued.access :: issued.refresh :: drawn) := by
  obtain ⟨hrefresh, haccess⟩ := h
  constructor
  · intro r hr
    by_cases hself : r = issued.refresh
    · simp [hself]
    · rw [issue_refresh_of_ne hself] at hr
      simp [hrefresh r hr]
  · intro a ha
    by_cases hself : a = issued.access
    · simp [hself]
    · have hold : (s.issue issued).access a = s.access a := Function.update_of_ne hself ..
      rw [hold] at ha
      simp [haccess a ha]

theorem Within.mono {drawn drawn' : List TokenHash} (h : s.Within drawn)
    (hsub : ∀ x ∈ drawn, x ∈ drawn') : s.Within drawn' :=
  ⟨fun r hr => hsub r (h.1 r hr), fun a ha => hsub a (h.2 a ha)⟩

theorem isSome_modify {α : Type} {m : TokenHash → Option α} {key k : TokenHash} {f : α → α} :
    (modify m key f k).isSome = (m k).isSome := by
  by_cases h : k = key
  · subst h
    rw [modify_self, Option.isSome_map]
  · rw [modify_of_ne h]

theorem isSome_of_update {α : Type} {m : TokenHash → Option α} {key k : TokenHash}
    (h : (Function.update m key none k).isSome = true) : (m k).isSome = true := by
  by_cases hk : k = key
  · rw [hk, Function.update_self] at h
    cases h
  · rwa [Function.update_of_ne hk] at h

theorem Within.mark {drawn : List TokenHash} {a : TokenHash} (h : s.Within drawn) :
    (s.mark a).Within drawn :=
  ⟨h.1, fun b hb => h.2 b (isSome_modify ▸ hb)⟩

theorem Within.rotate {drawn : List TokenHash} (h : s.Within drawn) :
    (s.rotate refresh issued now).2.Within (issued.access :: issued.refresh :: drawn) := by
  have hsame : s.Within (issued.access :: issued.refresh :: drawn) :=
    h.mono fun x hx => by simp [hx]
  unfold State.rotate
  split
  · exact hsame
  rename_i old _
  split
  · exact hsame
  split
  · split
    · apply Within.issue
      have hdrop : (s.drop old.successor).Within drawn := by
        unfold drop
        split
        · exact h
        · exact ⟨fun r hr => h.1 r (isSome_of_update hr), fun a ha => h.2 a (isSome_of_update ha)⟩
      exact ⟨fun r hr => hdrop.1 r (isSome_modify ▸ hr), hdrop.2⟩
    · exact hsame
  · split
    · exact hsame
    · apply Within.issue
      exact ⟨fun r hr => h.1 r (isSome_modify ▸ hr), h.2⟩

end Yardsort.Server.Credentials.State

namespace Yardsort.Host.SignIn
open Yardsort.Lib Yardsort.Server.Credentials

variable {s s' : World} {a : Action}

/-- The session and the store have one refresh credential, but for the moment before a new
    one is kept; and everything anyone has was drawn before. -/
structure Held (s : World) : Prop where
  asked : ∀ r, s.call = some (.asked r) → r = s.kept
  session : ∀ session, s.slot = some session →
    session.access ∈ s.drawn ∧
      ((∀ issued, s.call ≠ some (.taken issued)) → session.refresh = s.kept)
  answered : ∀ issued outcome, s.call = some (.answered issued outcome) →
    issued.access ∈ s.drawn ∧ issued.refresh ∈ s.drawn
  taken : ∀ issued, s.call = some (.taken issued) →
    issued.access ∈ s.drawn ∧ issued.refresh ∈ s.drawn ∧
      ∀ session, s.slot = some session → session.refresh = issued.refresh
  kept : s.kept ∈ s.drawn
  handed : ∀ access ∈ s.handed, access ∈ s.drawn
  records : s.server.Within s.drawn

theorem held_signedIn {device : Device} {access refresh : TokenHash} {now : Int} {clock : Nat} :
    Held (signedIn device access refresh now clock) where
  asked := by simp [signedIn]
  session := by
    intro session h
    cases h
    exact ⟨by simp [signedIn, Session.new, issue], fun _ => rfl⟩
  answered := by simp [signedIn]
  taken := by simp [signedIn]
  kept := by simp [signedIn]
  handed := by simp [signedIn]
  records := by
    have hempty : State.Within ⟨{ device with revoked := none }, fun _ => none, fun _ => none⟩ [] :=
      ⟨fun r hr => by simp at hr, fun a ha => by simp at ha⟩
    exact hempty.issue

/-! ## What a step is -/

inductive Takes (s : World) : Action → World → Prop
  | resume (idle : s.call = none) (empty : s.slot = none) :
    Takes s .ask { s with call := some (.asked s.kept) }
  | refresh (session : Session) (idle : s.call = none) (slot : s.slot = some session) :
    Takes s .ask { s with call := some (.asked session.refresh) }
  | hand (session : Session) (idle : s.call = none) (slot : s.slot = some session) :
    Takes s .ask { s with handed := session.access :: s.handed }
  | serve (access refresh presented : TokenHash) (call : s.call = some (.asked presented))
      (hraccess : access ∉ s.drawn) (hrefresh : refresh ∉ s.drawn) :
    Takes s (.serve access refresh) (s.serve presented (issue access refresh s.now))
  | take (issued : Issued) (outcome : Rotation) (call : s.call = some (.answered issued outcome))
      (new : accepted outcome = true) :
    Takes s .receive
      { s with slot := some (.new issued s.clock), call := some (.taken issued) }
  | refused (issued : Issued) (outcome : Rotation)
      (call : s.call = some (.answered issued outcome)) (old : accepted outcome = false) :
    Takes s .receive { s with call := none }
  | keep (issued : Issued) (call : s.call = some (.taken issued)) : Takes s .keep (s.keep issued)
  | drop (call : ∀ issued, s.call ≠ some (.taken issued)) (busy : s.call ≠ none) :
    Takes s .drop { s with call := none }
  | crash : Takes s .crash { s with slot := none, call := none }
  | use (access : TokenHash) (handed : access ∈ s.handed) :
    Takes s (.use access) { s with server := s.server.mark access }
  | later (server process : Nat) :
    Takes s (.later server process)
      { s with now := s.now + server, clock := s.clock + process }

theorem present_state {s : State} {access : TokenHash} : (s.present access).2 = s.mark access := by
  rw [State.present_eq]

theorem takes_of_step (h : s.step a = some s') : Takes s a s' := by
  cases a with
  | ask =>
    simp only [World.step, ite_none_right_eq_some, Option.some.injEq] at h
    obtain ⟨hidle, rfl⟩ := h
    unfold World.ask
    split
    · rename_i hslot
      exact .resume hidle hslot
    · rename_i session hslot
      split
      · exact .refresh session hidle hslot
      · exact .hand session hidle hslot
  | serve access refresh =>
    simp only [World.step] at h
    split at h
    · rename_i presented hcall
      rw [ite_none_right_eq_some, Option.some.injEq] at h
      obtain ⟨⟨haccess, hrefresh⟩, rfl⟩ := h
      exact .serve access refresh presented hcall haccess hrefresh
    · cases h
  | receive =>
    simp only [World.step] at h
    split at h
    · rename_i issued outcome hcall
      cases h
      unfold World.receive
      split
      · exact .take issued outcome hcall ‹_›
      · exact .refused issued outcome hcall (Bool.eq_false_iff.mpr ‹_›)
    · cases h
  | keep =>
    simp only [World.step] at h
    split at h
    · rename_i issued hcall
      cases h
      exact .keep issued hcall
    · cases h
  | drop =>
    simp only [World.step] at h
    split at h
    · rename_i hcall
      cases h
      exact .drop (by simp [hcall]) (by simp [hcall])
    · rename_i hcall
      cases h
      exact .drop (by simp [hcall]) (by simp [hcall])
    · cases h
  | crash =>
    cases h
    exact .crash
  | use access =>
    simp only [World.step, ite_none_right_eq_some, Option.some.injEq, present_state] at h
    obtain ⟨hhanded, rfl⟩ := h
    exact .use access hhanded
  | later server process =>
    cases h
    exact .later server process

theorem held_step (h : Held s) (hs : Takes s a s') : Held s' := by
  cases hs with
  | resume hidle hslot =>
    exact { h with
      asked := by grind
      session := by grind
      answered := by grind
      taken := by grind }
  | refresh session hidle hslot =>
    have := h.session session hslot
    exact { h with
      asked := by grind
      session := by grind
      answered := by grind
      taken := by grind }
  | hand session hidle hslot =>
    have := h.session session hslot
    exact { h with handed := by simp; grind [Held] }
  | serve access refresh presented hcall haccess hrefresh =>
    exact
      { asked := by simp [World.serve]
        session := by simp [World.serve]; grind [Held]
        answered := by simp [World.serve]
        taken := by simp [World.serve]
        kept := by simp [World.serve, h.kept]
        handed := by simp [World.serve]; grind [Held]
        records := h.records.rotate }
  | take issued outcome hcall hnew =>
    exact { h with
      asked := by simp
      session := by simp [Session.new]; grind [Held]
      answered := by simp
      taken := by simp [Session.new]; exact h.answered issued outcome hcall }
  | refused issued outcome hcall hold | drop hcall hbusy =>
    exact { h with
      asked := by simp
      session := by simp; grind [Held]
      answered := by simp
      taken := by simp }
  | keep issued hcall =>
    exact
      { asked := by simp [World.keep]
        session := by simp [World.keep]; grind [Held]
        answered := by simp [World.keep]
        taken := by simp [World.keep]
        kept := (h.taken issued hcall).2.1
        handed := by simp [World.keep]; grind [Held]
        records := h.records }
  | crash =>
    exact { h with
      asked := by simp
      session := by simp
      answered := by simp
      taken := by simp }
  | use access hhanded =>
    exact { h with records := h.records.mark }
  | later server process =>
    exact ⟨h.asked, h.session, h.answered, h.taken, h.kept, h.handed, h.records⟩

/-- Nothing was done with these two, and nothing can be but by the call that has them. -/
structure Unused (s : World) (refresh access : TokenHash) : Prop where
  unspent : ∃ row, s.server.refresh refresh = some row ∧ row.spentAt = none
  unused : ∃ row, s.server.access access = some row ∧ row.used = false
  untold : access ∉ s.handed
  session : (∀ issued, s.call ≠ some (.taken issued)) →
    ∀ session, s.slot = some session → session.access ≠ access

/-- The credential in the store was traded in for these two. -/
structure Traded (s : World) (row : Refresh) (spentAt : Int) (refresh access : TokenHash) :
    Prop where
  entry : s.server.refresh s.kept = some row
  spent : row.spentAt = some spentAt
  successor : row.successor = some (refresh, access)
  unused : Unused s refresh access

structure Current (s : World) : Prop where
  live : s.server.device.revoked = none
  entry : ∃ row, s.server.refresh s.kept = some row ∧ row.spentAt = none
  idle : ∀ issued, s.call ≠ some (.taken issued)
  lapsed : ∀ issued outcome, s.call = some (.answered issued outcome) → outcome = .expired

/-- The answer was lost, and the credential may be presented once more. -/
structure Waiting (s : World) : Prop where
  live : s.server.device.revoked = none
  entry : ∃ row spentAt refresh access, Traded s row spentAt refresh access ∧
    row.retried = false ∧ s.now - spentAt < REFRESH_RETRY_MS
  idle : s.call = none ∨ ∃ presented, s.call = some (.asked presented)

structure OnWay (s : World) (issued : Issued) : Prop where
  live : s.server.device.revoked = none
  entry : ∃ row spentAt, Traded s row spentAt issued.refresh issued.access
  call : (∃ outcome, accepted outcome = true ∧ s.call = some (.answered issued outcome)) ∨
    s.call = some (.taken issued)

/-- Presenting what is in the store can only sign the host out. -/
structure Doomed (s : World) : Prop where
  idle : s.pending = false
  lost : s.server.device.revoked.isSome = true ∨
    ∃ row spentAt, s.server.refresh s.kept = some row ∧ row.spentAt = some spentAt ∧
      (row.retried = true ∨ REFRESH_RETRY_MS ≤ s.now - spentAt)

section
variable {issued : Issued} {row : Refresh}

theorem unused_issue {server : State} (h : Held s)
    (hserver : s'.server = server.issue issued) (hdrawn : issued.access ∉ s.drawn)
    (hhanded : s'.handed = s.handed) (hslot : s'.slot = s.slot) :
    Unused s' issued.refresh issued.access where
  unspent := ⟨_, by rw [hserver, State.issue_refresh_self], rfl⟩
  unused := ⟨_, by rw [hserver, State.issue_access_self], rfl⟩
  untold := fun hmem => hdrawn (h.handed _ (hhanded ▸ hmem))
  session := by
    intro _ session hsession heq
    exact hdrawn (heq ▸ (h.session session (hslot ▸ hsession)).1)

theorem current_serve (h : Held s) (hc : Current s) (haccess : issued.access ∉ s.drawn)
    (hrefresh : issued.refresh ∉ s.drawn) :
    Current (s.serve s.kept issued) ∨ OnWay (s.serve s.kept issued) issued := by
  obtain ⟨row, hrow, hspent⟩ := hc.entry
  have hne : s.kept ≠ issued.refresh := fun heq => hrefresh (heq ▸ h.kept)
  by_cases hlapsed : row.expiresAt ≤ s.now
  · left
    have hrotate : s.server.rotate s.kept issued s.now = (.expired, s.server) :=
      State.rotate_expired hrow hc.live hspent hlapsed
    exact
      { live := by simp only [World.serve, hrotate, hc.live]
        entry := ⟨row, by simp only [World.serve, hrotate, hrow], hspent⟩
        idle := by simp [World.serve]
        lapsed := by simp [World.serve, hrotate] }
  · right
    have hrotate : s.server.rotate s.kept issued s.now =
        (.rotated s.server.device, s.server.spend s.kept issued s.now) :=
      State.rotate_rotated hrow hc.live hspent hlapsed
    have htraded : Traded (s.serve s.kept issued)
        { row with spentAt := some s.now, successor := some (issued.refresh, issued.access) } s.now
        issued.refresh issued.access :=
      { entry := by
          simp only [World.serve, hrotate, State.spend, State.issue_refresh_of_ne hne, modify_self,
            hrow, map_some]
        spent := rfl
        successor := rfl
        unused := unused_issue h (by simp only [World.serve, hrotate]; rfl) haccess rfl rfl }
    exact
      { live := by simp only [World.serve, hrotate]; exact hc.live
        entry := ⟨_, _, htraded⟩
        call := .inl ⟨.rotated s.server.device, rfl, by simp only [World.serve, hrotate]⟩ }

theorem waiting_serve (h : Held s) (hw : Waiting s) (haccess : issued.access ∉ s.drawn)
    (hrefresh : issued.refresh ∉ s.drawn) : OnWay (s.serve s.kept issued) issued := by
  obtain ⟨row, spentAt, refresh, access, ht, hretried, hsoon⟩ := hw.entry
  have hne : s.kept ≠ issued.refresh := fun heq => hrefresh (heq ▸ h.kept)
  -- its successor is unspent, so it is another credential
  have hother : s.kept ≠ refresh := by
    intro heq
    obtain ⟨row', hrow', hunspent⟩ := ht.unused.unspent
    rw [← heq, ht.entry, Option.some.injEq] at hrow'
    rw [← hrow', ht.spent] at hunspent
    cases hunspent
  have hunused : s.server.unused row = true := by
    obtain ⟨row', hrow', hunspent⟩ := ht.unused.unspent
    obtain ⟨taken, htaken, hused⟩ := ht.unused.unused
    simp [State.unused, ht.successor, hrow', hunspent, htaken, hused]
  have hretries : s.server.retries row s.now = true := by
    simp [State.retries, ht.spent, hretried, hsoon, hunused]
  have hrotate : s.server.rotate s.kept issued s.now =
      (.retried s.server.device, s.server.retry s.kept row issued) :=
    State.rotate_retried ht.entry hw.live hretries
  have hrow : (s.server.drop row.successor).refresh s.kept = some row := by
    simp only [State.drop, ht.successor]
    rw [Function.update_of_ne hother, ht.entry]
  have htraded : Traded (s.serve s.kept issued)
      { row with retried := true, successor := some (issued.refresh, issued.access) } spentAt
      issued.refresh issued.access :=
    { entry := by
        simp only [World.serve, hrotate, State.retry, State.issue_refresh_of_ne hne, modify_self,
          hrow, map_some]
      spent := ht.spent
      successor := rfl
      unused := unused_issue h (by simp only [World.serve, hrotate]; rfl) haccess rfl rfl }
  exact
    { live := by
        simp only [World.serve, hrotate, State.retry, State.drop, ht.successor]
        exact hw.live
      entry := ⟨_, _, htraded⟩
      call := .inl ⟨.retried s.server.device, rfl, by simp only [World.serve, hrotate]⟩ }

theorem doomed_serve (hd : Doomed s) : Doomed (s.serve s.kept issued) := by
  -- nothing is issued, and the device is revoked or the records are as they were
  have hrefused : ∀ outcome server, s.server.rotate s.kept issued s.now = (outcome, server) →
      accepted outcome = false → server.device.revoked.isSome = true →
      Doomed (s.serve s.kept issued) := by
    intro outcome server hrotate hold hrevoked
    exact ⟨by simp only [World.pending, World.serve, hrotate, hold],
      .inl (by simp only [World.serve, hrotate, hrevoked])⟩
  cases hrevoked : s.server.device.revoked with
  | some revoked =>
    have hrevoked : s.server.device.revoked.isSome = true := by rw [hrevoked]; rfl
    cases hrow : s.server.refresh s.kept with
    | none => exact hrefused .unknown _ (State.rotate_unknown hrow) rfl hrevoked
    | some row => exact hrefused .revoked _ (State.rotate_revoked hrow hrevoked) rfl hrevoked
  | none =>
    obtain hgone | ⟨row, spentAt, hrow, hspent, hgone⟩ := hd.lost
    · rw [hrevoked] at hgone
      cases hgone
    · have hretries : s.server.retries row s.now = false := by
        obtain hretried | hlate := hgone
        · simp [State.retries, hspent, hretried]
        · have hnot : ¬ s.now - spentAt < REFRESH_RETRY_MS := by omega
          simp [State.retries, hspent, hnot]
      exact hrefused _ _
        (State.rotate_reused hrow hrevoked (by rw [hspent]; rfl) hretries) rfl rfl

end

/-! ### One step -/

theorem Unused.use {refresh access used : TokenHash} (h : Unused s refresh access)
    (hused : used ∈ s.handed) :
    Unused { s with server := s.server.mark used } refresh access where
  unspent := h.unspent
  unused := by
    have hne : access ≠ used := fun heq => h.untold (heq ▸ hused)
    show ∃ row, (s.server.mark used).access access = some row ∧ row.used = false
    rw [State.mark_access_of_ne hne]
    exact h.unused
  untold := h.untold
  session := h.session

theorem Traded.use {row : Refresh} {spentAt : Int} {refresh access used : TokenHash}
    (h : Traded s row spentAt refresh access) (hused : used ∈ s.handed) :
    Traded { s with server := s.server.mark used } row spentAt refresh access :=
  ⟨h.entry, h.spent, h.successor, h.unused.use hused⟩

theorem current_step (h : Held s) (hc : Current s) (ht : Takes s a s') :
    Current s' ∨ ∃ issued, OnWay s' issued := by
  cases ht with
  | resume hidle hslot | refresh session hidle hslot | refused issued outcome hcall hold
  | drop hcall hbusy | crash =>
    exact .inl { hc with idle := by simp, lapsed := by simp }
  | hand session hidle hslot | use access hhanded
  | later server process => exact .inl ⟨hc.live, hc.entry, hc.idle, hc.lapsed⟩
  | serve access refresh presented hcall haccess hrefresh =>
    obtain rfl := h.asked presented hcall
    exact (current_serve h hc haccess hrefresh).imp id fun hway => ⟨_, hway⟩
  | take issued outcome hcall hnew =>
    -- only a refusal can be on its way
    rw [hc.lapsed issued outcome hcall] at hnew
    cases hnew
  | keep issued hcall => exact absurd hcall (hc.idle issued)

/-- Without its call, an answer on its way is lost: the credential may be presented once more,
    or not at all. -/
theorem OnWay.lose {issued : Issued} (ho : OnWay s issued) {slot : Option Session}
    (hslot : slot = none ∨ slot = s.slot ∧ ∀ issued, s.call ≠ some (.taken issued)) :
    Waiting { s with slot := slot, call := none } ∨ Doomed { s with slot := slot, call := none } := by
  obtain ⟨row, spentAt, ht⟩ := ho.entry
  by_cases hgone : row.retried = true ∨ REFRESH_RETRY_MS ≤ s.now - spentAt
  · exact .inr ⟨rfl, .inr ⟨row, spentAt, ht.entry, ht.spent, hgone⟩⟩
  · rw [not_or, Bool.not_eq_true, Int.not_le] at hgone
    have hunused : Unused { s with slot := slot, call := none } issued.refresh issued.access :=
      { ht.unused with
        session := by
          intro _ session hsession
          obtain rfl | ⟨rfl, hnot⟩ := hslot
          · cases hsession
          · exact ht.unused.session hnot session hsession }
    exact .inl
      { live := ho.live
        entry := ⟨row, spentAt, _, _, ⟨ht.entry, ht.spent, ht.successor, hunused⟩, hgone⟩
        idle := .inl rfl }

theorem onWay_step {issued : Issued} (h : Held s) (ho : OnWay s issued) (ht : Takes s a s') :
    OnWay s' issued ∨ Current s' ∨ (Loses s a ∧ (Waiting s' ∨ Doomed s')) := by
  have hpending : s.pending = true := by
    unfold World.pending
    obtain ⟨outcome, hnew, hcall⟩ | hcall := ho.call
    · rw [hcall]
      exact hnew
    · rw [hcall]
  obtain ⟨row, spentAt, htraded⟩ := ho.entry
  cases ht with
  | resume hidle hslot | refresh session hidle hslot
  | hand session hidle hslot => simp [World.pending, hidle] at hpending
  | serve access refresh presented hcall haccess hrefresh =>
    simp [World.pending, hcall] at hpending
  | take new outcome hcall hnew =>
    left
    have hsame : new = issued := by
      obtain ⟨outcome', -, hcall'⟩ | hcall' := ho.call
      · rw [hcall, Option.some.injEq, Call.answered.injEq] at hcall'
        exact hcall'.1
      · rw [hcall] at hcall'
        cases hcall'
    subst hsame
    have hunused := htraded.unused
    exact
      { live := ho.live
        entry := ⟨row, spentAt, htraded.entry, htraded.spent, htraded.successor,
          { hunused with session := fun hnot => (hnot new rfl).elim }⟩
        call := .inr rfl }
  | refused new outcome hcall hold =>
    simp [World.pending, hcall, hold] at hpending
  | keep new hcall =>
    right; left
    have hsame : new = issued := by
      obtain ⟨outcome', -, hcall'⟩ | hcall' := ho.call
      · rw [hcall] at hcall'
        cases hcall'
      · rw [hcall, Option.some.injEq, Call.taken.injEq] at hcall'
        exact hcall'
    subst hsame
    exact
      { live := ho.live
        entry := htraded.unused.unspent
        idle := by simp [World.keep]
        lapsed := by simp [World.keep] }
  | drop hcall hbusy => exact .inr (.inr ⟨⟨hpending, .inl rfl⟩, ho.lose (.inr ⟨rfl, hcall⟩)⟩)
  | crash => exact .inr (.inr ⟨⟨hpending, .inr rfl⟩, ho.lose (.inl rfl)⟩)
  | use access hhanded =>
    exact .inl ⟨ho.live, ⟨row, spentAt, htraded.use hhanded⟩, ho.call⟩
  | later server process =>
    have hunused := htraded.unused
    exact .inl ⟨ho.live, ⟨row, spentAt, htraded.entry, htraded.spent, htraded.successor,
      hunused.unspent, hunused.unused, hunused.untold, hunused.session⟩, ho.call⟩

theorem waiting_step (h : Held s) (hw : Waiting s) (ht : Takes s a s') :
    a ≠ .keep ∧ (Waiting s' ∨ (∃ issued, OnWay s' issued) ∨ Doomed s') := by
  obtain ⟨row, spentAt, refresh, access, htraded, hretried, hsoon⟩ := hw.entry
  have hunused := htraded.unused
  have hnot : ∀ issued, s.call ≠ some (.taken issued) := by
    obtain hidle | ⟨presented, hidle⟩ := hw.idle <;> simp [hidle]
  have hno : ∀ issued outcome, s.call ≠ some (.answered issued outcome) := by
    obtain hidle | ⟨presented, hidle⟩ := hw.idle <;> simp [hidle]
  have hsession := hunused.session hnot
  have hentry {t : World} (hserver : t.server = s.server) (hkept : t.kept = s.kept)
      (hnow : t.now = s.now) (hunused : Unused t refresh access) :
      ∃ row spentAt refresh access, Traded t row spentAt refresh access ∧
        row.retried = false ∧ t.now - spentAt < REFRESH_RETRY_MS :=
    ⟨row, spentAt, refresh, access,
      ⟨by rw [hserver, hkept]; exact htraded.entry, htraded.spent, htraded.successor, hunused⟩,
      hretried, by rw [hnow]; exact hsoon⟩
  cases ht with
  | resume hidle hslot | refresh session hidle hslot =>
    refine ⟨by simp, .inl ⟨hw.live, hentry rfl rfl rfl ?_, .inr ⟨_, rfl⟩⟩⟩
    exact { hunused with session := fun _ => hsession }
  | hand session hidle hslot =>
    refine ⟨by simp, .inl ⟨hw.live, hentry rfl rfl rfl ?_, .inl hidle⟩⟩
    refine { hunused with untold := ?_, session := fun _ => hsession }
    -- the session's access is from before
    rintro (_ | ⟨_, hmem⟩)
    · exact hsession session hslot rfl
    · exact hunused.untold hmem
  | serve access refresh presented hcall haccess hrefresh =>
    obtain rfl := h.asked presented hcall
    exact ⟨by simp, .inr (.inl ⟨_, waiting_serve h hw haccess hrefresh⟩)⟩
  | take issued outcome hcall hnew
  | refused issued outcome hcall hold => exact absurd hcall (hno issued outcome)
  | keep issued hcall => exact absurd hcall (hnot issued)
  | drop hcall hbusy =>
    refine ⟨by simp, .inl ⟨hw.live, hentry rfl rfl rfl ?_, .inl rfl⟩⟩
    exact { hunused with session := fun _ => hsession }
  | crash =>
    refine ⟨by simp, .inl ⟨hw.live, hentry rfl rfl rfl ?_, .inl rfl⟩⟩
    exact { hunused with session := by simp }
  | use used hhanded =>
    exact ⟨by simp, .inl ⟨hw.live, ⟨row, spentAt, refresh, access, htraded.use hhanded, hretried,
      hsoon⟩, hw.idle⟩⟩
  | later server process =>
    refine ⟨by simp, ?_⟩
    have htraded' : Traded { s with now := s.now + server, clock := s.clock + process } row spentAt
        refresh access :=
      ⟨htraded.entry, htraded.spent, htraded.successor,
        hunused.unspent, hunused.unused, hunused.untold, hunused.session⟩
    by_cases hlate : REFRESH_RETRY_MS ≤ s.now + server - spentAt
    -- nobody asked in time
    · right; right
      refine ⟨?_, .inr ⟨row, spentAt, htraded.entry, htraded.spent, .inr hlate⟩⟩
      obtain hidle | ⟨presented, hidle⟩ := hw.idle <;> simp [World.pending, hidle]
    · left
      exact ⟨hw.live, ⟨row, spentAt, refresh, access, htraded', hretried, by
        show s.now + server - spentAt < REFRESH_RETRY_MS
        omega⟩, hw.idle⟩

theorem doomed_step (h : Held s) (hd : Doomed s) (ht : Takes s a s') :
    a ≠ .keep ∧ Doomed s' := by
  have hidle := hd.idle
  cases ht with
  | resume _ hslot | refresh session _ hslot | refused issued outcome hcall hold | drop hcall hbusy
  | crash => exact ⟨by simp, rfl, hd.lost⟩
  | hand session hcall hslot => exact ⟨by simp, by simp [World.pending, hcall], hd.lost⟩
  | serve access refresh presented hcall haccess hrefresh =>
    obtain rfl := h.asked presented hcall
    exact ⟨by simp, doomed_serve hd⟩
  | take issued outcome hcall hnew =>
    simp [World.pending, hcall, hnew] at hidle
  | keep issued hcall =>
    rw [World.pending, hcall] at hidle
    cases hidle
  | use used hhanded => exact ⟨by simp, hidle, hd.lost⟩
  | later server process =>
    refine ⟨by simp, hidle, ?_⟩
    obtain hrevoked | ⟨row, spentAt, hrow, hspent, hgone⟩ := hd.lost
    · exact .inl hrevoked
    · refine .inr ⟨row, spentAt, hrow, hspent, hgone.imp id fun hlate => ?_⟩
      show REFRESH_RETRY_MS ≤ s.now + server - spentAt
      omega

theorem Doomed.run {as : List Action} (h : Held s) (hd : Doomed s)
    (hr : run World.step s as = some s') : Action.keep ∉ as := by
  induction as generalizing s with
  | nil => exact not_mem_nil
  | cons a rest ih =>
    obtain ⟨s₁, hstep, hrest⟩ := run_cons.mp hr
    have ht := takes_of_step hstep
    obtain ⟨hne, hd₁⟩ := doomed_step h hd ht
    have hrest := ih (held_step h ht) hd₁ hrest
    simp [Ne.symm hne, hrest]

/-- Where the credential stands, when what is left of the run is `as`. -/
inductive Stands (s : World) (as : List Action) : Prop
  | current (current : Current s)
  | waiting (waiting : Waiting s) (followed : Action.keep ∈ as)
  | onWay (issued : Issued) (onWay : OnWay s issued)

theorem stands_step {as : List Action} (h : Held s) (hi : Stands s (a :: as))
    (hf : Followed s (a :: as)) (hstep : s.step a = some s') {t : World}
    (hr : run World.step s' as = some t) : Stands s' as := by
  have ht := takes_of_step hstep
  have hh := held_step h ht
  cases hi with
  | current hc =>
    obtain hc | ⟨issued, ho⟩ := current_step h hc ht
    · exact .current hc
    · exact .onWay issued ho
  | waiting hw hkeep =>
    obtain ⟨hne, hw | ⟨issued, ho⟩ | hd⟩ := waiting_step h hw ht
    · exact .waiting hw (by simpa [Ne.symm hne] using hkeep)
    · exact .onWay issued ho
    · exact absurd (by simpa [Ne.symm hne] using hkeep) (hd.run hh hr)
  | onWay issued ho =>
    obtain ho | hc | ⟨hloses, hw | hd⟩ := onWay_step h ho ht
    · exact .onWay issued ho
    · exact .current hc
    · exact .waiting hw (hf.1 hloses)
    · exact absurd (hf.1 hloses) (hd.run hh hr)

theorem stands_run {as rest : List Action} (h : Held s) (hi : Stands s (as ++ rest))
    (hf : Followed s (as ++ rest)) {t : World} (hr : run World.step s (as ++ rest) = some t)
    (hs : run World.step s as = some s') : Held s' ∧ Stands s' rest := by
  induction as generalizing s with
  | nil =>
    cases hs
    exact ⟨h, hi⟩
  | cons a as ih =>
    obtain ⟨s₁, hstep, hr⟩ := run_cons.mp hr
    obtain ⟨s₂, hstep', hs⟩ := run_cons.mp hs
    cases hstep.symm.trans hstep'
    exact ih (held_step h (takes_of_step hstep)) (stands_step h hi hf hstep hr) (hf.2 s₁ hstep) hr hs

theorem accepted_of_unspent {refresh : TokenHash} {row : Refresh}
    (hlive : s.server.device.revoked = none) (hrow : s.server.refresh refresh = some row)
    (hspent : row.spentAt = none) : Accepted s refresh := by
  by_cases hlapsed : row.expiresAt ≤ s.now
  · exact .inl ⟨row, hrow, hspent, hlapsed⟩
  · refine .inr fun issued => ?_
    rw [State.rotate_rotated hrow hlive hspent hlapsed]
    rfl

theorem Traded.accepted {row : Refresh} {spentAt : Int} {refresh access : TokenHash}
    (ht : Traded s row spentAt refresh access) (hlive : s.server.device.revoked = none)
    (hretried : row.retried = false) (hsoon : s.now - spentAt < REFRESH_RETRY_MS) :
    Accepted s s.kept := by
  obtain ⟨next, hnext, hunspent⟩ := ht.unused.unspent
  obtain ⟨taken, htaken, hused⟩ := ht.unused.unused
  have hretries : s.server.retries row s.now = true := by
    simp [State.retries, State.unused, ht.spent, ht.successor, hretried, hsoon, hnext, hunspent,
      htaken, hused]
  refine .inr fun issued => ?_
  rw [State.rotate_retried ht.entry hlive hretries]
  rfl

theorem Waiting.accepted (hw : Waiting s) : Accepted s s.kept := by
  obtain ⟨row, spentAt, refresh, access, ht, hretried, hsoon⟩ := hw.entry
  exact ht.accepted hw.live hretried hsoon

/-- **The store's credential works.** In a run whose lost answers are each followed by a refresh
    that is kept, the server never answers `reused`; while no new credentials are on their way
    the one in the store is accepted, unless it lapsed unspent; and while some are, the one they
    bring is. When the refresh that follows comes is not asked: too late, it is not kept. At every
    moment the one in the store, presented once and again soon after, is accepted. -/
theorem kept_accepted {device : Device} {access refresh : TokenHash} {now : Int} {clock : Nat}
    {as rest : List Action} {t : World}
    (hr : run World.step (signedIn device access refresh now clock) (as ++ rest) = some t)
    (hf : Followed (signedIn device access refresh now clock) (as ++ rest))
    (hs : run World.step (signedIn device access refresh now clock) as = some s) :
    (∀ issued account, s.call ≠ some (.answered issued (.reused account))) ∧
      (s.pending = false → Accepted s s.kept) ∧
      (s.pending = true → ∃ issued,
        ((∃ outcome, s.call = some (.answered issued outcome)) ∨ s.call = some (.taken issued)) ∧
          Accepted s issued.refresh) ∧
      ∀ row spentAt, s.server.refresh s.kept = some row → row.spentAt = some spentAt →
        row.retried = false → s.now - spentAt < REFRESH_RETRY_MS → Accepted s s.kept := by
  have hstart : Current (signedIn device access refresh now clock) :=
    { live := rfl
      entry := ⟨_, Function.update_self .., rfl⟩
      idle := by simp [signedIn]
      lapsed := by simp [signedIn] }
  obtain ⟨-, hstands⟩ := stands_run held_signedIn (.current hstart) hf hr hs
  cases hstands with
  | current hc =>
    have hidle : s.pending = false := by
      unfold World.pending
      split
      · rename_i issued outcome hcall
        rw [hc.lapsed issued outcome hcall]
        rfl
      · rename_i issued hcall
        exact absurd hcall (hc.idle issued)
      · rfl
      · rfl
    obtain ⟨row, hrow, hspent⟩ := hc.entry
    have hkept : Accepted s s.kept := accepted_of_unspent hc.live hrow hspent
    refine ⟨fun issued account hcall => (nomatch hc.lapsed issued _ hcall), fun _ => hkept, ?_,
      fun _ _ _ _ _ _ => hkept⟩
    rw [hidle]
    intro h
    cases h
  | waiting hw hkeep =>
    obtain hcall | ⟨presented, hcall⟩ := hw.idle
    · exact ⟨by simp [hcall], fun _ => hw.accepted, by simp [World.pending, hcall],
        fun _ _ _ _ _ _ => hw.accepted⟩
    · exact ⟨by simp [hcall], fun _ => hw.accepted, by simp [World.pending, hcall],
        fun _ _ _ _ _ _ => hw.accepted⟩
  | onWay issued ho =>
    obtain ⟨row, spentAt, ht⟩ := ho.entry
    obtain ⟨next, hnext, hunspent⟩ := ht.unused.unspent
    have hnew : Accepted s issued.refresh := accepted_of_unspent ho.live hnext hunspent
    have hretry : ∀ row' spentAt', s.server.refresh s.kept = some row' →
        row'.spentAt = some spentAt' → row'.retried = false →
        s.now - spentAt' < REFRESH_RETRY_MS → Accepted s s.kept := by
      intro row' spentAt' hrow hspent hretried hsoon
      cases ht.entry.symm.trans hrow
      cases ht.spent.symm.trans hspent
      exact ht.accepted ho.live hretried hsoon
    obtain ⟨outcome, haccepted, hcall⟩ | hcall := ho.call
    · refine ⟨?_, by simp [World.pending, hcall, haccepted], fun _ =>
        ⟨issued, .inl ⟨outcome, hcall⟩, hnew⟩, hretry⟩
      intro other account hother
      rw [hcall, Option.some.injEq, Call.answered.injEq] at hother
      rw [hother.2] at haccepted
      cases haccepted
    · exact ⟨by simp [hcall], by simp [World.pending, hcall], fun _ =>
        ⟨issued, .inr hcall, hnew⟩, hretry⟩

def followed : World → List Action → Bool
  | _, [] => true
  | s, a :: as =>
    (!(s.pending && (a = .drop || a = .crash)) || as.contains .keep) &&
      match s.step a with
      | none => true
      | some s' => followed s' as

theorem followed_iff {as : List Action} : followed s as = true ↔ Followed s as := by
  induction as generalizing s with
  | nil => simp [followed, Followed]
  | cons a as ih =>
    have hloses : (!(s.pending && (a = .drop || a = .crash)) || as.contains .keep) = true ↔
        (Loses s a → Action.keep ∈ as) := by
      simp only [Loses, Bool.or_eq_true, Bool.not_eq_true', Bool.and_eq_false_iff,
        List.contains_iff_mem]
      grind
    rw [followed, Followed, Bool.and_eq_true, hloses]
    cases h : s.step a with
    | none => simp
    | some s' => simp [ih]

def atZero : World :=
  signedIn ⟨"d1", "a1", "Desk", .host, .linux, 0, none, none⟩ 0 0 0 0

/-- Access is due; the first answer is lost and the second is kept. -/
def lostOnce : List Action :=
  [.later 900000 900000, .ask, .serve 1 1, .drop, .later 1000 1000, .ask, .serve 2 2, .receive,
    .keep]

theorem kept_accepted_lostOnce :
    ∃ s t, run World.step atZero (lostOnce ++ []) = some t ∧
      run World.step atZero lostOnce = some s ∧ (s.pending = false → Accepted s s.kept) := by
  have hrun : (run World.step atZero lostOnce).isSome = true := by decide +kernel
  obtain ⟨s, hs⟩ := isSome_iff_exists.mp hrun
  have hs' : run World.step atZero (lostOnce ++ []) = some s := by rw [append_nil]; exact hs
  have hf : Followed atZero (lostOnce ++ []) := followed_iff.mp (by decide +kernel)
  exact ⟨s, s, hs', hs, (kept_accepted hs' hf hs).2.1⟩

/-- The stored credential is not accepted at every moment: between the retry and its answer it
    was presented twice, and an idle host's lapses. -/
theorem not_always_accepted :
    (followed atZero lostOnce = true ∧ (run World.step atZero lostOnce).isSome = true ∧
      (run World.step atZero (lostOnce.take 7)).map (fun s =>
        (s.server.rotate s.kept (issue 9 9 s.now) s.now).1) = some (.reused "a1")) ∧
    (run World.step atZero [.later REFRESH_TTL_MS 0]).map (fun s =>
        (s.server.rotate s.kept (issue 9 9 s.now) s.now).1) = some .expired := by
  decide +kernel

end Yardsort.Host.SignIn
