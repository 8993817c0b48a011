import Yardsort.Lib.Run

/- A device's session on the JavaScript side (`Session`, `packages/remote-client/src/session.ts`):
   one refresh at a time, and no access handed out before the refresh credential that came with it
   is kept.

   Code between two awaits runs without interruption, so a step is a call of `access` or
   `accessAfterRefusal`, or what one settled promise sets off. `beforeRefresh`, the server and
   `keep` settle whenever they like, and each may fail. A call made from inside `beforeRefresh` as
   it is called would be within a step; no caller makes one, since it would wait for itself.

   Secrets are numbered in the order they were issued: the code compares them as objects, and every
   answer of the server is read into new ones. -/
namespace Yardsort.Client
open Yardsort.Lib

abbrev Secret := Nat

/-- An access credential is refreshed this long before it would lapse. -/
def REFRESH_MARGIN_MS : Int := 60000

structure Session where
  access : Secret
  refresh : Secret
  refreshAt : Int
  /-- The refresh under way that callers wait for. -/
  flight : Option Nat

def due (now expiresInMs : Int) : Int := now + max 0 (expiresInMs - REFRESH_MARGIN_MS)

/-- How far `#refreshNow` has come: what it waits for, or how it ended. -/
inductive Stage where
  | checking
  | stopped
  | asking (refresh : Secret)
  | failed (refresh : Secret)
  | keeping (refresh access : Secret)
  | kept (refresh access : Secret)
  | notKept (refresh access : Secret)

namespace Stage

def sent : Stage → Option Secret
  | checking | stopped => none
  | asking refresh | failed refresh => some refresh
  | keeping refresh _ | kept refresh _ | notKept refresh _ => some refresh

/-- The refresh credential the server answered for, with new ones. -/
def answered : Stage → Option Secret
  | checking | stopped | asking _ | failed _ => none
  | keeping refresh _ | kept refresh _ | notKept refresh _ => some refresh

def brought : Stage → Option Secret
  | checking | stopped | asking _ | failed _ => none
  | keeping _ access | kept _ access | notKept _ access => some access

def result : Stage → Option (Option Secret)
  | checking | asking _ | keeping _ _ => none
  | stopped | failed _ | notKept _ _ => some none
  | kept _ access => some (some access)

def underWay (stage : Stage) : Bool := stage.result.isNone

end Stage

structure Flight where
  /-- The access that was refused, where that made it start. -/
  cause : Option Secret
  stage : Stage
  cleared : Bool

inductive Caller where
  | given (access : Secret)
  | waits (flight : Nat)
  | told (flight : Nat) (result : Option Secret)

def Caller.got : Caller → Option Secret
  | given access => some access
  | waits _ => none
  | told _ result => result

structure System where
  session : Session
  /-- The access the session was made with. -/
  first : Secret
  flights : List Flight
  callers : List Caller
  next : Secret

def System.new (now expiresInMs : Int) : System :=
  { session := ⟨0, 1, due now expiresInMs, none⟩
    first := 0, flights := [], callers := [], next := 2 }

namespace System

def hands (s : System) (caller : Caller) : System := { s with callers := s.callers ++ [caller] }

def startRefresh (s : System) (cause : Option Secret) : System :=
  let i := s.flights.length
  { s with
    session := { s.session with flight := some i }
    flights := s.flights ++ [⟨cause, .checking, false⟩]
    callers := s.callers ++ [.waits i] }

def access (s : System) (now : Int) : System :=
  match s.session.flight with
  | some i => s.hands (.waits i)
  | none =>
    if now < s.session.refreshAt then s.hands (.given s.session.access) else s.startRefresh none

def accessAfterRefusal (s : System) (refused : Secret) : System :=
  match s.session.flight with
  | some i => s.hands (.waits i)
  | none =>
    if s.session.access ≠ refused then s.hands (.given s.session.access)
    else s.startRefresh (some refused)

def setFlight (s : System) (i : Nat) (flight : Flight) : System :=
  { s with flights := s.flights.set i flight }

end System

inductive Act where
  | access (now : Int)
  | accessAfterRefusal (refused : Secret)
  | checked (flight : Nat) (ok : Bool)
  | answered (flight : Nat) (credentials : Option (Int × Int))
  | kept (flight : Nat) (ok : Bool)
  | cleared (flight : Nat)
  | told (caller : Nat)

def step (s : System) : Act → Option System
  | .access now => some (s.access now)
  | .accessAfterRefusal refused => some (s.accessAfterRefusal refused)
  | .checked i ok =>
    match s.flights[i]? with
    | some ⟨cause, .checking, cleared⟩ =>
      some (s.setFlight i ⟨cause, if ok then .asking s.session.refresh else .stopped, cleared⟩)
    | _ => none
  | .answered i credentials =>
    match s.flights[i]? with
    | some ⟨cause, .asking refresh, cleared⟩ =>
      match credentials with
      | none => some (s.setFlight i ⟨cause, .failed refresh, cleared⟩)
      | some (expiresInMs, now) =>
        let session := { s.session with
          access := s.next, refresh := s.next + 1, refreshAt := due now expiresInMs }
        some { s.setFlight i ⟨cause, .keeping refresh s.next, cleared⟩ with
          session, next := s.next + 2 }
    | _ => none
  | .kept i ok =>
    match s.flights[i]? with
    | some ⟨cause, .keeping refresh access, cleared⟩ =>
      some (s.setFlight i ⟨cause, if ok then .kept refresh access else .notKept refresh access,
        cleared⟩)
    | _ => none
  | .cleared i =>
    match s.flights[i]? with
    | some ⟨cause, stage, false⟩ =>
      if stage.underWay then none
      else some { s.setFlight i ⟨cause, stage, true⟩ with
        session := { s.session with flight := none } }
    | _ => none
  | .told c =>
    match s.callers[c]? with
    | some (.waits i) =>
      match s.flights[i]? with
      | some ⟨_, stage, true⟩ =>
        stage.result.map fun result => { s with callers := s.callers.set c (.told i result) }
      | _ => none
    | _ => none

/-- The access is the first, or came with a refresh whose `keep` has settled. -/
def System.Kept (s : System) (access : Secret) : Prop :=
  access = s.first ∨ ∃ f ∈ s.flights, ∃ refresh,
    f.stage = .kept refresh access ∨ f.stage = .notKept refresh access

structure System.Orderly (s : System) : Prop where
  one : s.flights.countP (·.stage.underWay) ≤ 1
  /-- What the server answered for is not sent by any flight that came later. -/
  spent : ∀ (i j : Nat) (f g : Flight) refresh, s.flights[i]? = some f → s.flights[j]? = some g →
    f.stage.answered = some refresh → g.stage.sent = some refresh → j ≤ i
  handed : ∀ c ∈ s.callers, ∀ access, c.got = some access → s.Kept access
  /-- Whoever waited for a refresh is told of the access it brought once that is kept, and of an
      error where the refresh came to nothing or `keep` failed. -/
  told : ∀ i access, .told i (some access) ∈ s.callers →
    ∃ f refresh, s.flights[i]? = some f ∧ f.stage = .kept refresh access
  refused : ∀ i, .told i none ∈ s.callers → ∃ f, s.flights[i]? = some f ∧
    (f.stage = .stopped ∨ (∃ refresh, f.stage = .failed refresh) ∨
      ∃ refresh access, f.stage = .notKept refresh access)

/-- Callers refused the same access cause one refresh between them. -/
def System.SharesRefresh (s : System) : Prop :=
  ∀ (i j : Nat) (f g : Flight) access, s.flights[i]? = some f → s.flights[j]? = some g →
    f.cause = some access → g.cause = some access → i = j

/-- They cause one that is answered: before another, the earlier came to nothing. -/
def System.SharesAnswer (s : System) : Prop :=
  ∀ (i j : Nat) (f g : Flight) access, s.flights[i]? = some f → s.flights[j]? = some g →
    f.cause = some access → g.cause = some access → i < j → f.stage.answered = none ∧
      f.stage.underWay = false

/-! ## The flights, one after another -/

/-- `System.Kept`, by what the flight has come to. -/
def System.Settled (s : System) (access : Secret) : Prop :=
  access = s.first ∨ ∃ f ∈ s.flights, f.stage.brought = some access ∧ f.stage.underWay = false

theorem System.Settled.kept {s : System} {access : Secret} (h : s.Settled access) :
    s.Kept access := by
  refine h.imp_right ?_
  rintro ⟨f, hf, hbrought, hover⟩
  refine ⟨f, hf, ?_⟩
  cases hstage : f.stage with
  | kept refresh => exact ⟨refresh, .inl (by simp_all [Stage.brought])⟩
  | notKept refresh => exact ⟨refresh, .inr (by simp_all [Stage.brought])⟩
  | keeping => simp [hstage, Stage.underWay, Stage.result] at hover
  | _ => simp [hstage, Stage.brought] at hbrought

theorem Stage.result_some {stage : Stage} {access : Secret}
    (h : stage.result = some (some access)) : ∃ refresh, stage = .kept refresh access := by
  cases stage <;> cases h
  exact ⟨_, rfl⟩

theorem Stage.result_none {stage : Stage} (h : stage.result = some none) :
    stage = .stopped ∨ (∃ refresh, stage = .failed refresh) ∨
      ∃ refresh access, stage = .notKept refresh access := by
  cases stage with
  | stopped => exact .inl rfl
  | failed refresh => exact .inr (.inl ⟨refresh, rfl⟩)
  | notKept refresh access => exact .inr (.inr ⟨refresh, access, rfl⟩)
  | _ => cases h

structure Flight.Under (f : Flight) (session : Session) : Prop where
  sent : ∀ refresh, f.stage.sent = some refresh → refresh ≤ session.refresh
  answered : ∀ refresh, f.stage.answered = some refresh → refresh < session.refresh
  cause : ∀ access, f.cause = some access → access ≤ session.access
  replaced : ∀ access, f.cause = some access → f.stage.answered ≠ none → access < session.access

structure Flight.Before (f g : Flight) : Prop where
  spent : ∀ refresh refresh', f.stage.answered = some refresh → g.stage.sent = some refresh' →
    refresh < refresh'
  cause : ∀ access access', f.stage.answered ≠ none → f.cause = some access →
    g.cause = some access' → access < access'

/-- The flights that are over, and the one that callers wait for. -/
structure Flown (s : System) (past : List Flight) (current : Option Flight) : Prop where
  flights : s.flights = past ++ current.toList
  flight : s.session.flight = current.map fun _ => past.length
  settled : ∀ f ∈ past, f.cleared = true ∧ f.stage.underWay = false
  open' : ∀ f, current = some f → f.cleared = false
  under : ∀ f ∈ s.flights, f.Under s.session
  order : s.flights.Pairwise Flight.Before
  next : s.session.access < s.next ∧ s.session.refresh < s.next
  access : s.session.access = s.first ∨ ∃ f ∈ s.flights, f.stage.brought = some s.session.access
  handed : ∀ c ∈ s.callers, ∀ access, c.got = some access → s.Settled access
  told : ∀ i result, .told i result ∈ s.callers →
    ∃ f, s.flights[i]? = some f ∧ f.stage.result = some result

theorem new_flown (now expiresInMs : Int) : Flown (.new now expiresInMs) [] none :=
  ⟨rfl, rfl, by simp, by simp, by simp [System.new], .nil, by simp [System.new], .inl rfl,
    by simp [System.new], by simp [System.new]⟩

section
variable {s s' : System} {past : List Flight} {current : Option Flight} {f f' : Flight} {i : Nat}

theorem Flown.is_current (h : Flown s past current) (hi : s.flights[i]? = some f)
    (hopen : f.cleared = false ∨ f.stage.underWay = true) : current = some f ∧ i = past.length := by
  rw [h.flights] at hi
  by_cases hlt : i < past.length
  · rw [List.getElem?_append_left hlt] at hi
    obtain ⟨hcleared, hover⟩ := h.settled f (mem_of_getElem? hi)
    simp [hcleared, hover] at hopen
  · rw [List.getElem?_append_right (Nat.le_of_not_lt hlt)] at hi
    cases current with
    | none => simp at hi
    | some g =>
      obtain ⟨hzero, rfl⟩ : i - past.length = 0 ∧ f = g := by
        cases hk : i - past.length with
        | zero => simp_all
        | succ k => simp [hk] at hi
      exact ⟨rfl, by omega⟩

theorem Flown.set (h : Flown s past (some f)) (f' : Flight) :
    s.flights.set past.length f' = past ++ [f'] := by
  rw [h.flights]
  simp

theorem Flight.Under.mono {session session' : Session} (h : f.Under session)
    (haccess : session.access ≤ session'.access) (hrefresh : session.refresh ≤ session'.refresh) :
    f.Under session' where
  sent refresh hsent := Nat.le_trans (h.sent refresh hsent) hrefresh
  answered refresh hanswered := Nat.lt_of_lt_of_le (h.answered refresh hanswered) hrefresh
  cause access hcause := Nat.le_trans (h.cause access hcause) haccess
  replaced access hcause hanswered :=
    Nat.lt_of_lt_of_le (h.replaced access hcause hanswered) haccess

structure Flight.Goes (f f' : Flight) : Prop where
  cause : f'.cause = f.cause
  result : ∀ result, f.stage.result = some result → f'.stage.result = some result
  brought : ∀ access, f.stage.brought = some access → f'.stage.brought = some access

theorem Flight.Goes.atEnd (h : f.Goes f') (hover : f.stage.underWay = false) :
    f'.stage.underWay = false := by
  unfold Stage.underWay at hover ⊢
  cases hresult : f.stage.result with
  | none => simp [hresult] at hover
  | some result => simp [h.result result hresult]

/-- The current flight goes on: `s'` differs from `s` in it and in the credentials. -/
structure Follows (s s' : System) (past : List Flight) (f f' : Flight) : Prop where
  flights : s'.flights = past ++ [f']
  callers : s'.callers = s.callers
  first : s'.first = s.first
  goes : f.Goes f'
  access : s.session.access ≤ s'.session.access
  refresh : s.session.refresh ≤ s'.session.refresh

theorem Flown.mem_goes (h : Flown s past (some f)) (hf : Follows s s' past f f') {g : Flight}
    (hg : g ∈ s.flights) : ∃ g' ∈ s'.flights, g.Goes g' := by
  rw [h.flights] at hg
  rw [hf.flights]
  obtain hpast | hlast := mem_append.mp hg
  · exact ⟨g, mem_append_left _ hpast, rfl, fun _ h => h, fun _ h => h⟩
  · obtain rfl : g = f := by simpa using hlast
    exact ⟨f', by simp, hf.goes⟩

theorem Flown.kept (h : Flown s past (some f)) (hf : Follows s s' past f f') {access : Secret}
    (hkept : s.Settled access) : s'.Settled access := by
  obtain hfirst | ⟨g, hg, hbrought, hover⟩ := hkept
  · exact .inl (hfirst.trans hf.first.symm)
  · obtain ⟨g', hg', hgoes⟩ := h.mem_goes hf hg
    exact .inr ⟨g', hg', hgoes.brought access hbrought, hgoes.atEnd hover⟩

theorem Flown.follow (h : Flown s past (some f)) (hf : Follows s s' past f f')
    (hunder : f'.Under s'.session) (hbefore : ∀ g ∈ past, g.Before f')
    (haccess : s'.session.access = s.session.access ∨
      f'.stage.brought = some s'.session.access) :
    (∀ g ∈ s'.flights, g.Under s'.session) ∧ s'.flights.Pairwise Flight.Before ∧
      (s'.session.access = s'.first ∨
        ∃ g ∈ s'.flights, g.stage.brought = some s'.session.access) ∧
      (∀ c ∈ s'.callers, ∀ access, c.got = some access → s'.Settled access) ∧
      ∀ j result, .told j result ∈ s'.callers →
        ∃ g, s'.flights[j]? = some g ∧ g.stage.result = some result := by
  have hpast : ∀ g ∈ past, g ∈ s.flights := by
    intro g hg
    rw [h.flights]
    exact mem_append_left _ hg
  refine ⟨fun g hg => ?_, ?_, ?_, ?_, ?_⟩
  · rw [hf.flights] at hg
    obtain hold | rfl := mem_snoc.mp hg
    · exact (h.under g (hpast g hold)).mono hf.access hf.refresh
    · exact hunder
  · have hbefore_past := h.order
    rw [h.flights] at hbefore_past
    rw [hf.flights]
    refine pairwise_append.mpr ⟨(pairwise_append.mp hbefore_past).1, by simp, ?_⟩
    intro g hg g' hg'
    obtain rfl := mem_singleton.mp hg'
    exact hbefore g hg
  · obtain hsame | hbrought := haccess
    · rw [hsame, hf.first]
      refine h.access.imp_right ?_
      rintro ⟨g, hg, hbrought⟩
      obtain ⟨g', hg', hgoes⟩ := h.mem_goes hf hg
      exact ⟨g', hg', hgoes.brought _ hbrought⟩
    · exact .inr ⟨f', by simp [hf.flights], hbrought⟩
  · intro c hc access hgot
    rw [hf.callers] at hc
    exact h.kept hf (h.handed c hc access hgot)
  · intro j result hc
    rw [hf.callers] at hc
    obtain ⟨g, hg, hresult⟩ := h.told j result hc
    rw [h.flights] at hg
    rw [hf.flights]
    by_cases hlt : j < past.length
    · rw [List.getElem?_append_left hlt] at hg ⊢
      exact ⟨g, hg, hresult⟩
    · rw [List.getElem?_append_right (Nat.le_of_not_lt hlt)] at hg ⊢
      cases hk : j - past.length with
      | zero =>
        obtain rfl : f = g := by simpa [hk] using hg
        exact ⟨f', rfl, hf.goes.result result hresult⟩
      | succ k => simp [hk] at hg

theorem Flown.stay (h : Flown s past (some f)) (hf : Follows s s' past f f')
    (hflight : s'.session.flight = s.session.flight) (hopen : f'.cleared = false)
    (hunder : f'.Under s'.session) (hbefore : ∀ g ∈ past, g.Before f')
    (hnext : s'.session.access < s'.next ∧ s'.session.refresh < s'.next)
    (haccess : s'.session.access = s.session.access ∨
      f'.stage.brought = some s'.session.access) : Flown s' past (some f') := by
  obtain ⟨hunders, horder, hcame, hhanded, htold⟩ := h.follow hf hunder hbefore haccess
  exact ⟨hf.flights, hflight.trans h.flight, h.settled, by simpa using hopen, hunders, horder, hnext,
    hcame, hhanded, htold⟩

theorem Flown.hands (h : Flown s past current) {c : Caller}
    (hgot : ∀ access, c.got = some access → s.Settled access)
    (htold : ∀ i result, c ≠ .told i result) : Flown (s.hands c) past current := by
  refine ⟨h.flights, h.flight, h.settled, h.open', h.under, h.order, h.next, h.access, ?_, ?_⟩
  · intro c' hc' access hgot'
    obtain hold | rfl := mem_snoc.mp hc'
    · exact h.handed c' hold access hgot'
    · exact hgot access hgot'
  · intro i result hc'
    obtain hold | hnew := mem_snoc.mp hc'
    · exact h.told i result hold
    · exact absurd hnew.symm (htold i result)

theorem Flown.access_kept (h : Flown s past current) (hflight : s.session.flight = none) :
    s.Settled s.session.access := by
  refine h.access.imp_right ?_
  rintro ⟨f, hf, hbrought⟩
  have hnone : current = none := map_eq_none_iff.mp (h.flight.symm.trans hflight)
  rw [h.flights, hnone] at hf
  exact ⟨f, by simpa [h.flights, hnone] using hf, hbrought, (h.settled f (by simpa using hf)).2⟩

theorem Flown.start (h : Flown s past current) (hflight : s.session.flight = none)
    {cause : Option Secret} (hcause : ∀ access, cause = some access → s.session.access = access) :
    Flown (s.startRefresh cause) past (some ⟨cause, .checking, false⟩) := by
  have hnone : current = none := map_eq_none_iff.mp (h.flight.symm.trans hflight)
  subst hnone
  have hflights : s.flights = past := by simpa using h.flights
  have hbefore : ∀ g ∈ s.flights, g.Before ⟨cause, .checking, false⟩ := by
    intro g hg
    refine ⟨fun _ _ _ hsent => (nomatch hsent), fun access access' hanswered hold hnew => ?_⟩
    rw [← hcause access' hnew]
    exact (h.under g hg).replaced access hold hanswered
  refine ⟨?_, ?_, h.settled, by simp, ?_, ?_, h.next, ?_, ?_, ?_⟩
  · simp [System.startRefresh, hflights]
  · simp [System.startRefresh, hflights]
  · intro g hg
    obtain hold | hnew := mem_append.mp hg
    · have hunder := h.under g hold
      exact ⟨hunder.sent, hunder.answered, hunder.cause, hunder.replaced⟩
    · obtain rfl := mem_singleton.mp hnew
      exact ⟨fun _ hsent => (nomatch hsent), fun _ hanswered => (nomatch hanswered),
        fun access hnew => Nat.le_of_eq (hcause access hnew).symm,
        fun _ _ hanswered => absurd rfl hanswered⟩
  · refine pairwise_append.mpr ⟨h.order, by simp, fun g hg g' hg' => ?_⟩
    obtain rfl := mem_singleton.mp hg'
    exact hbefore g hg
  · refine h.access.imp_right ?_
    rintro ⟨g, hg, hbrought⟩
    exact ⟨g, mem_append_left _ hg, hbrought⟩
  · intro c hc access hgot
    obtain hold | rfl := mem_snoc.mp hc
    · refine (h.handed c hold access hgot).imp_right ?_
      rintro ⟨g, hg, hbrought, hover⟩
      exact ⟨g, mem_append_left _ hg, hbrought, hover⟩
    · cases hgot
  · intro i result hc
    obtain hold | hnew := mem_snoc.mp hc
    · obtain ⟨g, hg, hresult⟩ := h.told i result hold
      have hlt : i < s.flights.length := (List.getElem?_eq_some_iff.mp hg).1
      exact ⟨g, (List.getElem?_append_left hlt).trans hg, hresult⟩
    · exact nomatch hnew

theorem Flown.access_call (h : Flown s past current) (now : Int) :
    ∃ current', Flown (s.access now) past current' := by
  unfold System.access
  split
  · exact ⟨current, h.hands (fun _ hgot => nomatch hgot) fun _ _ heq => nomatch heq⟩
  rename_i hflight
  split
  · refine ⟨current, h.hands (fun access hgot => ?_) fun _ _ heq => nomatch heq⟩
    exact Option.some.inj hgot ▸ h.access_kept hflight
  · exact ⟨_, h.start hflight fun _ heq => nomatch heq⟩

theorem Flown.refusal_call (h : Flown s past current) (refused : Secret) :
    ∃ current', Flown (s.accessAfterRefusal refused) past current' := by
  unfold System.accessAfterRefusal
  split
  · exact ⟨current, h.hands (fun _ hgot => nomatch hgot) fun _ _ heq => nomatch heq⟩
  rename_i hflight
  split
  · refine ⟨current, h.hands (fun access hgot => ?_) fun _ _ heq => nomatch heq⟩
    exact Option.some.inj hgot ▸ h.access_kept hflight
  · rename_i hsame
    rw [ne_eq, Decidable.not_not] at hsame
    exact ⟨_, h.start hflight fun access hcause => Option.some.inj hcause ▸ hsame⟩

theorem Flown.before (h : Flown s past (some f)) : ∀ g ∈ past, g.Before f := by
  have horder := h.order
  rw [h.flights] at horder
  intro g hg
  exact (pairwise_append.mp horder).2.2 g hg f (by simp)

theorem Flown.mem (h : Flown s past (some f)) : f ∈ s.flights := by
  rw [h.flights]
  simp

theorem Flown.mem_past (h : Flown s past current) {g : Flight} (hg : g ∈ past) :
    g ∈ s.flights := by
  rw [h.flights]
  exact mem_append_left _ hg

end

/-- What is kept of the flights, whichever of them are over. -/
def System.Flies (s : System) : Prop := ∃ past current, Flown s past current

section
variable {s s' : System} {i : Nat} {ok : Bool}

theorem checked_flies (h : step s (.checked i ok) = some s') (hs : s.Flies) : s'.Flies := by
  obtain ⟨past, current, hs⟩ := hs
  dsimp only [step] at h
  split at h
  · rename_i cause cleared hi
    obtain ⟨rfl, rfl⟩ := hs.is_current hi (.inr rfl)
    cases h
    have hunder := hs.under _ hs.mem
    have hopen : cleared = false := hs.open' _ rfl
    refine ⟨past, _, hs.stay ⟨hs.set _, rfl, rfl, ⟨rfl, nofun, nofun⟩, Nat.le_refl _, Nat.le_refl _⟩
      rfl hopen ?_ (fun g hg => ?_) hs.next (.inl rfl)⟩
    -- the refresh credential that is sent is the one in force
    · cases ok with
      | true => exact ⟨fun _ hsent => Nat.le_of_eq (Option.some.inj hsent).symm, nofun,
          hunder.cause, fun _ _ hanswered => absurd rfl hanswered⟩
      | false => exact ⟨nofun, nofun, hunder.cause, fun _ _ hanswered => absurd rfl hanswered⟩
    · refine ⟨fun refresh refresh' hanswered hsent => ?_, (hs.before g hg).cause⟩
      cases ok with
      | true => exact Option.some.inj hsent ▸ (hs.under g (hs.mem_past hg)).answered _ hanswered
      | false => cases hsent
  · cases h

theorem answered_flies {credentials : Option (Int × Int)}
    (h : step s (.answered i credentials) = some s') (hs : s.Flies) : s'.Flies := by
  obtain ⟨past, current, hs⟩ := hs
  dsimp only [step] at h
  split at h
  · rename_i cause refresh cleared hi
    obtain ⟨rfl, rfl⟩ := hs.is_current hi (.inr rfl)
    have hunder := hs.under _ hs.mem
    have hopen : cleared = false := hs.open' _ rfl
    have hnext := hs.next
    have hsent : refresh ≤ s.next :=
      Nat.le_trans (hunder.sent refresh rfl) (Nat.le_of_lt hnext.2)
    split at h
    · cases h
      refine ⟨past, _, hs.stay ⟨hs.set _, rfl, rfl, ⟨rfl, nofun, nofun⟩, Nat.le_refl _,
        Nat.le_refl _⟩ rfl hopen ?_ (fun g hg => ?_) hs.next (.inl rfl)⟩
      · exact ⟨hunder.sent, nofun, hunder.cause, fun _ _ hanswered => absurd rfl hanswered⟩
      · exact ⟨(hs.before g hg).spent, (hs.before g hg).cause⟩
    -- both credentials are replaced, by ones issued after all that were sent or refused
    · cases h
      refine ⟨past, _, hs.stay ⟨hs.set _, rfl, rfl, ⟨rfl, nofun, nofun⟩, Nat.le_of_lt hnext.1, ?_⟩
        rfl hopen ⟨?_, ?_, ?_, ?_⟩ (fun g hg => ?_) ⟨?_, ?_⟩ (.inr rfl)⟩
      · exact Nat.le_succ_of_le (Nat.le_of_lt hnext.2)
      · rintro r hr
        cases hr
        exact Nat.le_succ_of_le hsent
      · rintro r hr
        cases hr
        exact Nat.lt_succ_of_le hsent
      · intro access hcause
        exact Nat.le_of_lt (Nat.lt_of_le_of_lt (hunder.cause access hcause) hnext.1)
      · intro access hcause _
        exact Nat.lt_of_le_of_lt (hunder.cause access hcause) hnext.1
      · exact ⟨(hs.before g hg).spent, (hs.before g hg).cause⟩
      · exact Nat.lt_succ_of_lt (Nat.lt_succ_self _)
      · exact Nat.lt_succ_self _
  · cases h

theorem kept_flies (h : step s (.kept i ok) = some s') (hs : s.Flies) : s'.Flies := by
  obtain ⟨past, current, hs⟩ := hs
  dsimp only [step] at h
  split at h
  · rename_i cause refresh access cleared hi
    obtain ⟨rfl, rfl⟩ := hs.is_current hi (.inr rfl)
    cases h
    have hunder := hs.under _ hs.mem
    have hopen : cleared = false := hs.open' _ rfl
    have hsame : ∀ stage : Stage, stage = .kept refresh access ∨ stage = .notKept refresh access →
        (stage.sent = some refresh ∧ stage.answered = some refresh) ∧
          stage.brought = some access := by
      rintro stage (rfl | rfl) <;> exact ⟨⟨rfl, rfl⟩, rfl⟩
    obtain ⟨⟨hsent, hanswered⟩, hbrought⟩ :=
      hsame (if ok then .kept refresh access else .notKept refresh access) (by cases ok <;> simp)
    refine ⟨past, _, hs.stay ⟨hs.set _, rfl, rfl, ⟨rfl, nofun, fun access' h' => ?_⟩,
      Nat.le_refl _, Nat.le_refl _⟩ rfl hopen ⟨?_, ?_, hunder.cause, ?_⟩
      (fun g hg => ⟨?_, (hs.before g hg).cause⟩) hs.next (.inl rfl)⟩
    · exact hbrought.trans h'
    · exact fun r hr => hunder.sent r (hsent.symm.trans hr)
    · exact fun r hr => hunder.answered r (hanswered.symm.trans hr)
    · exact fun access' hcause _ => hunder.replaced access' hcause nofun
    · exact fun r r' hr hr' => (hs.before g hg).spent r r' hr (hsent.symm.trans hr')
  · cases h

theorem cleared_flies (h : step s (.cleared i) = some s') (hs : s.Flies) : s'.Flies := by
  obtain ⟨past, current, hs⟩ := hs
  dsimp only [step] at h
  split at h
  · rename_i cause stage hi
    obtain ⟨rfl, rfl⟩ := hs.is_current hi (.inl rfl)
    split at h
    · cases h
    rename_i hover
    rw [Bool.not_eq_true] at hover
    cases h
    have hfollows : Follows s { s.setFlight past.length ⟨cause, stage, true⟩ with
        session := { s.session with flight := none } } past ⟨cause, stage, false⟩
        ⟨cause, stage, true⟩ :=
      ⟨hs.set _, rfl, rfl, ⟨rfl, fun _ h => h, fun _ h => h⟩, Nat.le_refl _, Nat.le_refl _⟩
    have hunder := hs.under _ hs.mem
    obtain ⟨hunders, horder, hcame, hhanded, htold⟩ := hs.follow hfollows
      ⟨hunder.sent, hunder.answered, hunder.cause, hunder.replaced⟩
      (fun g hg => ⟨(hs.before g hg).spent, (hs.before g hg).cause⟩) (.inl rfl)
    refine ⟨past ++ [⟨cause, stage, true⟩], none, ⟨?_, rfl, fun g hg => ?_, nofun, hunders, horder,
      hs.next, hcame, hhanded, htold⟩⟩
    · exact (hs.set _).trans (append_nil _).symm
    · obtain hold | rfl := mem_snoc.mp hg
      · exact hs.settled g hold
      · exact ⟨rfl, hover⟩
  · cases h

theorem told_flies {c : Nat} (h : step s (.told c) = some s') (hs : s.Flies) : s'.Flies := by
  obtain ⟨past, current, hs⟩ := hs
  dsimp only [step] at h
  split at h
  · split at h
    · rename_i cause stage hi
      obtain ⟨result, hresult, rfl⟩ := map_eq_some_iff.mp h
      refine ⟨past, current, hs.flights, hs.flight, hs.settled, hs.open', hs.under, hs.order, hs.next,
        hs.access, fun c' hc' access hgot => ?_, fun j result' hc' => ?_⟩
      · obtain hold | rfl := mem_or_eq_of_mem_set hc'
        · exact hs.handed c' hold access hgot
        -- told of access: the flight brought it, and its `keep` went well
        · obtain rfl : result = some access := hgot
          refine .inr ⟨_, mem_of_getElem? hi, ?_, ?_⟩
          · cases stage <;> simp [Stage.result] at hresult
            exact congrArg some hresult
          · simp [Stage.underWay, hresult]
      · obtain hold | heq := mem_or_eq_of_mem_set hc'
        · exact hs.told j result' hold
        · cases heq
          exact ⟨_, hi, hresult⟩
    · cases h
  · cases h

theorem step_flies {a : Act} (h : step s a = some s') (hs : s.Flies) : s'.Flies := by
  cases a with
  | access now =>
    cases h
    obtain ⟨past, current, hs⟩ := hs
    exact ⟨past, hs.access_call now⟩
  | accessAfterRefusal refused =>
    cases h
    obtain ⟨past, current, hs⟩ := hs
    exact ⟨past, hs.refusal_call refused⟩
  | checked i ok => exact checked_flies h hs
  | answered i credentials => exact answered_flies h hs
  | kept i ok => exact kept_flies h hs
  | cleared i => exact cleared_flies h hs
  | told c => exact told_flies h hs

theorem reached_flies {now expiresInMs : Int} {as : List Act}
    (h : Lib.run step (.new now expiresInMs) as = some s) : s.Flies := by
  have hstep : ∀ s₁ a s₂, System.Flies s₁ → step s₁ a = some s₂ → System.Flies s₂ :=
    fun _ _ _ hs hstep => step_flies hstep hs
  exact run_invariant hstep h ⟨[], none, new_flown now expiresInMs⟩

end

theorem pairwise_at {α : Type} {R : α → α → Prop} {l : List α} (h : l.Pairwise R)
    {i j : Nat} {a b : α} (ha : l[i]? = some a) (hb : l[j]? = some b) (hlt : i < j) : R a b := by
  obtain ⟨hi, rfl⟩ := List.getElem?_eq_some_iff.mp ha
  obtain ⟨hj, rfl⟩ := List.getElem?_eq_some_iff.mp hb
  exact List.pairwise_iff_getElem.mp h i j hi hj hlt

theorem System.Flies.orderly {s : System} (hs : s.Flies) : s.Orderly := by
  obtain ⟨past, current, hs⟩ := hs
  refine ⟨?_, fun i j f g refresh hf hg hanswered hsent => ?_,
    fun c hc access hgot => (hs.handed c hc access hgot).kept, fun i access hc => ?_,
    fun i hc => ?_⟩
  · have hnone : past.countP (·.stage.underWay) = 0 := by
      rw [countP_eq_zero]
      intro f hf
      simp [(hs.settled f hf).2]
    rw [hs.flights, countP_append, hnone, Nat.zero_add]
    refine Nat.le_trans List.countP_le_length ?_
    cases current <;> simp
  · by_contra hlt
    have hbefore := pairwise_at hs.order hf hg (Nat.lt_of_not_le hlt)
    exact Nat.lt_irrefl _ (hbefore.spent refresh refresh hanswered hsent)
  · obtain ⟨f, hf, hresult⟩ := hs.told i (some access) hc
    obtain ⟨refresh, hkept⟩ := Stage.result_some hresult
    exact ⟨f, refresh, hf, hkept⟩
  · obtain ⟨f, hf, hresult⟩ := hs.told i none hc
    exact ⟨f, hf, Stage.result_none hresult⟩

theorem System.Flies.shares {s : System} (hs : s.Flies) : s.SharesAnswer := by
  obtain ⟨past, current, hs⟩ := hs
  intro i j f g access hf hg hcause hcause' hlt
  constructor
  · by_contra hanswered
    have hbefore := pairwise_at hs.order hf hg hlt
    exact Nat.lt_irrefl _ (hbefore.cause access access hanswered hcause hcause')
  -- an earlier flight is not the current one
  · by_contra hopen
    obtain ⟨-, rfl⟩ := hs.is_current hf (.inr (by simpa using hopen))
    have hj := (List.getElem?_eq_some_iff.mp hg).1
    rw [hs.flights, length_append] at hj
    cases current <;> simp at hj <;> omega

/-- **One refresh at a time.** Whatever the callers, the clock, `beforeRefresh`, the server and
    `keep` do: one flight is under way at most, what the server answered for is not sent again,
    nobody is handed access before its `keep` settled nor by a flight whose `keep` failed, and of
    the flights that refusals of one access set off, all but the last came to nothing. -/
theorem session_orderly {now expiresInMs : Int} {as : List Act} {s : System}
    (h : Lib.run step (.new now expiresInMs) as = some s) : s.Orderly ∧ s.SharesAnswer :=
  ⟨(reached_flies h).orderly, (reached_flies h).shares⟩

/-- A caller refused its access gets a refresh going, which the server does not answer; so does
    the next, and this one is kept. -/
def refusedRun : List Act :=
  [.access 5, .accessAfterRefusal 0, .checked 0 true, .answered 0 none, .cleared 0, .told 1,
    .accessAfterRefusal 0, .accessAfterRefusal 0, .checked 1 true, .answered 1 (some (900000, 7)),
    .access 8, .kept 1 true, .cleared 1, .told 2, .told 3, .told 4]

theorem session_orderly_refused : ∃ s, Lib.run step (.new 0 900000) refusedRun = some s ∧
    s.Orderly ∧ s.SharesAnswer := by
  have hsome : (Lib.run step (.new 0 900000) refusedRun).isSome = true := by decide +kernel
  obtain ⟨s, hs⟩ := isSome_iff_exists.mp hsome
  exact ⟨s, hs, session_orderly hs⟩

/-- Callers refused the same access cause two refreshes where the first came to nothing. -/
theorem refusals_refresh_twice : ¬ ∀ now expiresInMs as s,
    Lib.run step (.new now expiresInMs) as = some s → s.Orderly ∧ s.SharesRefresh := by
  intro h
  have hstate : (Lib.run step (.new 0 900000) refusedRun).map (·.flights.map (·.cause)) =
      some [some 0, some 0] := by decide +kernel
  obtain ⟨s, hs, hcauses⟩ := map_eq_some_iff.mp hstate
  obtain ⟨f, g, hflights⟩ : ∃ f g, s.flights = [f, g] := by
    match hlist : s.flights with
    | [f, g] => exact ⟨f, g, rfl⟩
    | [] | [_] | _ :: _ :: _ :: _ => simp [hlist] at hcauses
  simp only [hflights, map_cons, map_nil, List.cons.injEq, and_true] at hcauses
  have hsame := (h 0 900000 refusedRun s hs).2 0 1 f g 0 (by simp [hflights]) (by simp [hflights])
    hcauses.1 hcauses.2
  cases hsame

end Yardsort.Client
