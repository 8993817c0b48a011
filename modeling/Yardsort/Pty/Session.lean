import Yardsort.Pty.Paste
import Yardsort.Pty.Queries
import Yardsort.Pty.ControlRuns

/- One session's input side, as `pty-host/src/session.rs` has it.

   A call takes the view lock to decide (`controlling`), lets go of it, and then
   writes to the program under another lock. The functions here are those two kinds
   of section; `Session.input` is a whole call, one section after the other.

   What is left out of the view is what viewers are shown: the screen but for
   whether the program asked for bracketed paste, and the viewers themselves.
   `history` is not in the source. It keeps what the program was written and when
   control was taken from a lease, for the properties to speak about. -/
namespace Yardsort.Pty
open Yardsort.Lib

structure TermSize where
  cols : Nat
  rows : Nat
  deriving DecidableEq

/-- A PTY with a zero dimension misbehaves on every platform. -/
def TermSize.sanitized (size : TermSize) : TermSize :=
  { cols := max size.cols 2, rows := max size.rows 1 }

inductive HostError where
  | leaseLost
  | inputOutOfOrder (expected got : Nat)
  | controlHeld (by_ : Controller)
  | invalidHolder
  | sessionExited
  | io
  deriving DecidableEq

def refused : Refusal → HostError
  | .lost => .leaseLost
  | .outOfOrder expected got => .inputOutOfOrder expected got
  | .held by_ => .controlHeld by_
  | .badHolder => .invalidHolder

inductive Origin where
  | person
  | leased (ref : LeaseRef) (seq : Nat)
  deriving DecidableEq

structure Chunk where
  origin : Origin
  given : Bytes
  written : Bytes
  deriving DecidableEq

inductive Event where
  | wrote (chunk : Chunk)
  /-- `localInput`, or another holder's `acquire`, took control from this lease. -/
  | taken (ref : LeaseRef)
  deriving DecidableEq

structure Session where
  control : Control
  size : TermSize
  /-- The size the person here last asked for. -/
  localSize : TermSize
  /-- Whether the program has bracketed paste on. -/
  bracketed : Bool
  /-- Until when the answer to the last query shown may arrive. -/
  answersUntil : Option Instant
  exited : Bool
  history : List Event

/-- How writing to the PTY goes: there is no writer any more, `write_all` fails after
    some bytes, only the flush fails, or nothing does. -/
inductive Outcome where
  | noWriter
  | cut (bytes : Nat)
  | unflushed
  | whole
  deriving DecidableEq

def Outcome.written (o : Outcome) (data : Bytes) : Bytes :=
  match o with
  | .noWriter => []
  | .cut n => data.take n
  | .unflushed | .whole => data

def Outcome.result : Outcome → Except HostError Unit
  | .noWriter => .error .sessionExited
  | .cut _ | .unflushed => .error .io
  | .whole => .ok ()

namespace Session

def new (holds : Holds) (size : TermSize) : Session :=
  { control := .new holds, size := size.sanitized, localSize := size.sanitized, bracketed := false,
    answersUntil := none, exited := false, history := [] }

/-- Resize the PTY and the terminal; `resized` says whether the PTY took it. -/
def applySize (s : Session) (size : TermSize) (resized : Bool) : Except HostError Unit × Session :=
  if s.size = size then (.ok (), s)
  else if resized then (.ok (), { s with size := size })
  else (.error .io, s)

/-- Do something that may change who controls the session, under the view lock. What
    ends it is `announce`, which notices a lapse too. -/
def controlling {α : Type} (s : Session) (now : Instant) (f : Session → α × Session) :
    α × Session :=
  let (result, s) := f s
  (result, { s with control := (s.control.controller now).2 })

/-- The lease that `localInput` would take control from. -/
def inPlace (s : Session) (now : Instant) : Option LeaseRef := (s.control.lapse now).current

/-- The lease that `acquire` would take control from for `name`: another holder's. -/
def inPlaceOfOther (s : Session) (name : String) (now : Instant) : Option LeaseRef :=
  if (s.control.lapse now).holder = .leased name then none else (s.control.lapse now).current

def note (s : Session) (taken : Option LeaseRef) : Session :=
  { s with history := s.history ++ taken.toList.map Event.taken }

def takeLocalControl (s : Session) (now : Instant) (resized : Bool) :
    Except HostError Unit × Session :=
  s.controlling now fun s =>
    let s := { s with control := (s.control.localInput now).2 }.note (s.inPlace now)
    s.applySize s.localSize resized

def acquire (s : Session) (fresh holder : String) (takeOver : Bool) (now : Instant) :
    Except HostError Lease × Session :=
  s.controlling now fun s =>
    if s.exited then (.error .sessionExited, s)
    else
      match s.control.acquire fresh holder takeOver now with
      | (.error e, control) => (.error (refused e), { s with control := control })
      | (.ok lease, control) =>
        (.ok lease, { s with control := control }.note (s.inPlaceOfOther holder now))

def renew (s : Session) (lease : LeaseRef) (now : Instant) : Except HostError Lease × Session :=
  s.controlling now fun s =>
    match s.control.renew lease now with
    | (.error e, control) => (.error (refused e), { s with control := control })
    | (.ok lease, control) => (.ok lease, { s with control := control })

def release (s : Session) (lease : LeaseRef) (now : Instant) (resized : Bool) :
    Except HostError Unit × Session :=
  s.controlling now fun s =>
    match s.control.release lease now with
    | (true, control) => { s with control := control }.applySize s.localSize resized
    | (false, control) => (.ok (), { s with control := control })

def resizeLeased (s : Session) (lease : LeaseRef) (size : TermSize) (now : Instant)
    (resized : Bool) : Except HostError Unit × Session :=
  s.controlling now fun s =>
    match s.control.check lease now with
    | (.error e, control) => (.error (refused e), { s with control := control })
    | (.ok (), control) => { s with control := control }.applySize size.sanitized resized

def payload (s : Session) (data : Bytes) (paste : Bool) : Bytes :=
  if paste then pasted data s.bracketed else data

/-- `input`'s section under the view lock: what is to be written, if anything. -/
def inputAccepted (s : Session) (lease : LeaseRef) (seq : Nat) (data : Bytes) (paste : Bool)
    (now : Instant) : Except HostError (Option Bytes) × Session :=
  s.controlling now fun s =>
    match s.control.input lease seq now with
    | (.error e, control) => (.error (refused e), { s with control := control })
    | (.ok .repeated, control) => (.ok none, { s with control := control })
    | (.ok .fresh, control) =>
      (.ok (some (s.payload data paste)), { s with control := control })

def write (s : Session) (origin : Origin) (data : Bytes) (outcome : Outcome) :
    Except HostError Unit × Session :=
  (outcome.result,
    { s with history := s.history ++ [.wrote ⟨origin, data, outcome.written data⟩] })

def input (s : Session) (lease : LeaseRef) (seq : Nat) (data : Bytes) (paste : Bool)
    (now : Instant) (outcome : Outcome) : Except HostError Unit × Session :=
  match s.inputAccepted lease seq data paste now with
  | (.error e, s) => (.error e, s)
  | (.ok none, s) => (.ok (), s)
  | (.ok (some payload), s) => s.write (.leased lease seq) payload outcome

/-- Where `localWrite` goes once it has looked at what was typed. -/
inductive Typed where
  /-- Written as it is, taking nothing. -/
  | written (data : Bytes)
  /-- Takes control first. -/
  | takes (data : Bytes)

/-- `local_write`'s first section: where the pointer and focus are, and answers to
    queries, are not typing. -/
def localTyped (s : Session) (data : Bytes) (now : Instant) : Typed × Session :=
  match presence data with
  | some focus =>
    let (leased, control) := s.control.leased now
    (.written (if leased then focus else data), { s with control := control })
  | none =>
    if s.answersUntil.any (fun until_ => now < until_) && isReply data then (.written data, s)
    else (.takes data, s)

def localWrite (s : Session) (data : Bytes) (resized : Bool) (outcome : Outcome)
    (now now' : Instant) : Except HostError Unit × Session :=
  match s.localTyped data now with
  | (.written data, s) => s.write .person data outcome
  | (.takes data, s) =>
    match s.takeLocalControl now' resized with
    | (.error e, s) => (.error e, s)
    | (.ok (), s) => s.write .person data outcome

end Session

/-! ## What a section does to the lease in force -/

namespace Control

/-- How control goes on when no input number is taken: the lease in force stays, or
    ends, or is one with a later generation than any before. -/
inductive Evolves (c c' : Control) : Prop where
  | kept (hg : c.generation ≤ c'.generation) (hc : c'.current = c.current)
      (ht : ∀ ref, c.current = some ref → c'.taken = c.taken)
  | ended (hg : c.generation ≤ c'.generation) (hc : c'.current = none)
  | handed (ref : LeaseRef) (hg : c.generation < c'.generation) (hc : c'.current = some ref)
      (ht : c'.taken = 0)

theorem current_generation {c : Control} {ref : LeaseRef} (h : c.current = some ref) :
    ref.generation = c.generation := by
  obtain ⟨_, _, _, hg⟩ := current_eq h
  exact hg.symm

theorem Evolves.refl (c : Control) : Evolves c c := .kept (Nat.le_refl _) rfl (fun _ _ => rfl)

theorem Evolves.generation {c c' : Control} (h : Evolves c c') :
    c.generation ≤ c'.generation := by
  cases h with
  | kept hg => exact hg
  | ended hg => exact hg
  | handed _ hg => exact Nat.le_of_lt hg

theorem Evolves.lapse {c c' : Control} (h : Evolves c c') (now : Instant) :
    Evolves c (c'.lapse now) := by
  have hgen := c'.lapse_generation now
  rcases c'.lapse_current now with ⟨h₁, h₂⟩ | h₁
  · cases h with
    | kept hg hc ht =>
      exact .kept (Nat.le_trans hg hgen) (h₁.trans hc) (fun ref hr => h₂.trans (ht ref hr))
    | ended hg hc => exact .ended (Nat.le_trans hg hgen) (h₁.trans hc)
    | handed ref hg hc ht =>
      exact .handed ref (Nat.lt_of_lt_of_le hg hgen) (h₁.trans hc) (h₂.trans ht)
  · exact .ended (Nat.le_trans h.generation hgen) h₁

theorem evolves_apply (c : Control) (op : Op) (hop : ∀ ref, op.freshNumber c ref = []) :
    Evolves c (op.apply c).2 := by
  obtain ⟨hm, hg, _⟩ := apply_cases c op
  cases hm with
  | kept hc ht => exact .kept hg hc (fun ref hr => by rw [ht ref hr, hop ref]; rfl)
  | ended hc => exact .ended hg hc
  | handed fresh _ hc hgen ht => exact .handed _ hgen hc ht

/-- A lease whose generation is not past the state's, and that is not in force, is not
    in force later. -/
theorem Evolves.stays_past {c c' : Control} (h : Evolves c c') {ref : LeaseRef}
    (hg : ref.generation ≤ c.generation) (hc : c.current ≠ some ref) : c'.current ≠ some ref := by
  cases h with
  | kept _ h => rw [h]; exact hc
  | ended _ h => rw [h]; simp
  | handed r hgen h =>
    intro heq
    have := current_generation heq
    omega

theorem Evolves.bound {c c' : Control} (h : Evolves c c') {ref : LeaseRef} {n : Nat}
    (hb : ref.generation ≤ c.generation ∧ (c.current = some ref → n ≤ c.taken)) :
    ref.generation ≤ c'.generation ∧ (c'.current = some ref → n ≤ c'.taken) := by
  refine ⟨Nat.le_trans hb.1 h.generation, fun hcur => ?_⟩
  cases h with
  | kept _ h ht =>
    rw [h] at hcur
    rw [ht ref hcur]
    exact hb.2 hcur
  | ended _ h => rw [h] at hcur; cases hcur
  | handed r hgen h =>
    have := current_generation hcur
    omega

end Control

namespace Session

@[simp] theorem note_control (s : Session) (t : Option LeaseRef) : (s.note t).control = s.control :=
  rfl

@[simp] theorem note_history (s : Session) (t : Option LeaseRef) :
    (s.note t).history = s.history ++ t.toList.map Event.taken := rfl

@[simp] theorem applySize_control (s : Session) (size : TermSize) (resized : Bool) :
    (s.applySize size resized).2.control = s.control := by
  unfold applySize
  split
  · rfl
  · split <;> rfl

@[simp] theorem applySize_history (s : Session) (size : TermSize) (resized : Bool) :
    (s.applySize size resized).2.history = s.history := by
  unfold applySize
  split
  · rfl
  · split <;> rfl

theorem takeLocalControl_control (s : Session) (now : Instant) (resized : Bool) :
    (s.takeLocalControl now resized).2.control = (s.control.localInput now).2.lapse now := by
  simp [takeLocalControl, controlling, Control.controller]

theorem takeLocalControl_history (s : Session) (now : Instant) (resized : Bool) :
    (s.takeLocalControl now resized).2.history =
      s.history ++ (s.inPlace now).toList.map Event.taken := by
  simp [takeLocalControl, controlling]

theorem takeLocalControl_evolves (s : Session) (now : Instant) (resized : Bool) :
    s.control.Evolves (s.takeLocalControl now resized).2.control := by
  rw [takeLocalControl_control]
  exact (s.control.evolves_apply (.localInput now) (fun _ => rfl)).lapse now

theorem takeLocalControl_current (s : Session) (now : Instant) (resized : Bool) :
    (s.takeLocalControl now resized).2.control.current = none := by
  have hnone : (s.control.localInput now).2.current = none := by
    simp only [Control.localInput]
    cases hs : (s.control.lapse now).state <;> rfl
  rw [takeLocalControl_control]
  rcases (s.control.localInput now).2.lapse_current now with ⟨h, _⟩ | h
  · rw [h, hnone]
  · exact h

theorem acquire_cases (s : Session) (fresh holder : String) (takeOver : Bool) (now : Instant) :
    s.control.Evolves (s.acquire fresh holder takeOver now).2.control ∧
      ((s.acquire fresh holder takeOver now).2.history = s.history ∨
        (s.acquire fresh holder takeOver now).2.history =
            s.history ++ (s.inPlaceOfOther holder now).toList.map Event.taken ∧
          (s.control.acquire fresh holder takeOver now).1.isOk ∧
          ∀ ref, ref.generation ≤ s.control.generation →
            (s.acquire fresh holder takeOver now).2.control.current ≠ some ref) := by
  have hev : s.control.Evolves ((s.control.acquire fresh holder takeOver now).2.lapse now) :=
    (s.control.evolves_apply (.acquire fresh holder takeOver now) (fun _ => rfl)).lapse now
  by_cases hx : s.exited = true
  · have hlapse : s.control.Evolves (s.control.lapse now) := (Control.Evolves.refl _).lapse now
    simp only [acquire, controlling, Control.controller, hx, if_true]
    exact ⟨hlapse, Or.inl trivial⟩
  · simp only [acquire, controlling, Control.controller, hx]
    cases s.control.acquire_cases fresh holder takeOver now with
    | inl h =>
      obtain ⟨e, he, _⟩ := h
      generalize s.control.acquire fresh holder takeOver now = r at *
      obtain ⟨r, c⟩ := r
      subst he
      exact ⟨hev, Or.inl rfl⟩
    | inr h =>
      obtain ⟨lease, hok, _, _, hc⟩ := h
      generalize s.control.acquire fresh holder takeOver now = r at *
      obtain ⟨r, c⟩ := r
      dsimp only at hok hc
      subst hok
      refine ⟨hev, Or.inr ⟨rfl, rfl, fun ref hg hcur => ?_⟩⟩
      -- a lease handed out now carries a later generation
      have hcur : (c.lapse now).current = some ref := hcur
      have hgen : c.generation = (s.control.lapse now).generation + 1 := by rw [hc]
      have := s.control.lapse_generation now
      have := c.lapse_generation now
      have := Control.current_generation hcur
      omega

theorem renew_evolves (s : Session) (ref : LeaseRef) (now : Instant) :
    s.control.Evolves (s.renew ref now).2.control ∧ (s.renew ref now).2.history = s.history := by
  have hev : s.control.Evolves ((s.control.renew ref now).2.lapse now) :=
    (s.control.evolves_apply (.renew ref now) (fun _ => rfl)).lapse now
  simp only [renew, controlling, Control.controller]
  generalize s.control.renew ref now = r at *
  obtain ⟨_ | lease, c⟩ := r <;> exact ⟨hev, rfl⟩

theorem release_evolves (s : Session) (ref : LeaseRef) (now : Instant) (resized : Bool) :
    s.control.Evolves (s.release ref now resized).2.control ∧
      (s.release ref now resized).2.history = s.history := by
  have hev : s.control.Evolves ((s.control.release ref now).2.lapse now) :=
    (s.control.evolves_apply (.release ref now) (fun _ => rfl)).lapse now
  simp only [release, controlling, Control.controller]
  generalize s.control.release ref now = r at *
  obtain ⟨_ | _, c⟩ := r
  · exact ⟨hev, rfl⟩
  · simp only [applySize_control, applySize_history, and_true]
    exact hev

theorem resizeLeased_evolves (s : Session) (ref : LeaseRef) (size : TermSize) (now : Instant)
    (resized : Bool) :
    s.control.Evolves (s.resizeLeased ref size now resized).2.control ∧
      (s.resizeLeased ref size now resized).2.history = s.history := by
  have hev : s.control.Evolves ((s.control.check ref now).2.lapse now) :=
    (s.control.evolves_apply (.check ref now) (fun _ => rfl)).lapse now
  simp only [resizeLeased, controlling, Control.controller]
  generalize s.control.check ref now = r at *
  obtain ⟨_ | _, c⟩ := r
  · exact ⟨hev, rfl⟩
  · simp only [applySize_control, applySize_history, and_true]
    exact hev

theorem localTyped_evolves (s : Session) (data : Bytes) (now : Instant) :
    s.control.Evolves (s.localTyped data now).2.control ∧
      (s.localTyped data now).2.history = s.history := by
  unfold localTyped
  cases presence data with
  | some focus => exact ⟨s.control.evolves_apply (.leased now) (fun _ => rfl), rfl⟩
  | none => dsimp only; split <;> exact ⟨.refl _, rfl⟩

/-- What `input`'s section can do: accept the next number under the lease in force, find
    a number it took before, or refuse. -/
inductive Accepted (s : Session) (ref : LeaseRef) (seq : Nat) (payload : Bytes) (now : Instant)
    (r : Except HostError (Option Bytes)) (c' : Control) : Prop where
  | fresh (hr : r = .ok (some payload)) (hcur : (s.control.lapse now).current = some ref)
      (hseq : seq = s.control.taken + 1) (hg : s.control.generation ≤ c'.generation)
      (hc : c'.current = none ∨ c'.current = some ref ∧ c'.taken = seq)
  | repeated (hr : r = .ok none) (hcur : (s.control.lapse now).current = some ref)
      (hseq : seq ≤ s.control.taken) (hev : s.control.Evolves c')
  | refused (e : HostError) (hr : r = .error e) (hev : s.control.Evolves c')
      (hwhy : (s.control.lapse now).current = some ref → s.control.taken + 1 < seq)

theorem inputAccepted_cases (s : Session) (ref : LeaseRef) (seq : Nat) (data : Bytes)
    (paste : Bool) (now : Instant) :
    Accepted s ref seq (s.payload data paste) now (s.inputAccepted ref seq data paste now).1
        (s.inputAccepted ref seq data paste now).2.control ∧
      (s.inputAccepted ref seq data paste now).2.history = s.history := by
  have hev : (s.control.input ref seq now).1 ≠ .ok .fresh →
      s.control.Evolves ((s.control.input ref seq now).2.lapse now) := by
    intro hf
    refine (s.control.evolves_apply (.input ref seq now) (fun r => ?_)).lapse now
    simp only [Op.freshNumber]
  simp only [inputAccepted, controlling, Control.controller]
  by_cases hc : (s.control.lapse now).current = some ref
  · obtain ⟨ha, h₁, h₂, h₃⟩ := @Control.input_current s.control ref seq now hc
    have ht : (s.control.lapse now).taken = s.control.taken := by
      rcases s.control.lapse_current now with ⟨_, h⟩ | h
      · exact h
      · rw [h] at hc; cases hc
    rw [ht] at ha h₃
    have hgen := s.control.lapse_generation now
    generalize s.control.input ref seq now = r at *
    obtain ⟨r, c⟩ := r
    dsimp only at ha h₁ h₂ h₃ hev
    subst ha
    by_cases hle : seq ≤ s.control.taken
    · rw [answerTo_repeat hle] at hev ⊢
      exact ⟨.repeated rfl hc hle (hev (by simp)), rfl⟩
    · by_cases hnext : seq = s.control.taken + 1
      · rw [hnext, answerTo_next]
        rw [if_pos hnext, hnext] at h₃
        have hgen' := c.lapse_generation now
        refine ⟨.fresh rfl hc rfl (show s.control.generation ≤ (c.lapse now).generation by omega)
          ?_, rfl⟩
        rcases c.lapse_current now with ⟨hl, hl'⟩ | hl
        · exact Or.inr ⟨hl.trans h₁, hl'.trans h₃⟩
        · exact Or.inl hl
      · rw [answerTo_gap hle hnext] at hev ⊢
        exact ⟨.refused _ rfl (hev (by simp)) (fun _ => by omega), rfl⟩
  · rw [Control.input_lost hc] at hev ⊢
    exact ⟨.refused _ rfl (hev (by simp)) (fun h => absurd h hc), rfl⟩

end Session

end Yardsort.Pty
