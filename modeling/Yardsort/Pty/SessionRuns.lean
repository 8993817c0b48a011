import Yardsort.Lib.Run
import Yardsort.Pty.Session

/- Calls on one session running at once: every interleaving of their sections.

   A call leaves the view lock before it writes, so between the two it is one of
   `calls`, waiting. Which section runs next, the time it reads and how the PTY
   behaves are in the action.

   An input that was accepted and still waits is written whatever happened to its
   lease meanwhile, and two that wait are written in either order. `clear` says
   when neither can come of a section, `Ordered` is what a run of clear sections
   keeps, and `inputs_orderly` reads off it what a lease holder is promised. -/
namespace Yardsort.Pty
open Yardsort.Lib

inductive Waiting where
  /-- `localWrite`, about to take control. -/
  | taking (data : Bytes)
  /-- About to write. -/
  | writing (origin : Origin) (data : Bytes)

structure Calls where
  session : Session
  waiting : List Waiting

def Calls.new (holds : Holds) (size : TermSize) : Calls := { session := .new holds size, waiting := [] }

/-- The next section to run: a call's first one, a waiting call's next one, or the pump
    noticing a lapse (`clock`), the program printing (`shown`) or ending. -/
inductive Act where
  | input (ref : LeaseRef) (seq : Nat) (data : Bytes) (paste : Bool) (now : Instant)
  | resizeLeased (ref : LeaseRef) (size : TermSize) (now : Instant) (resized : Bool)
  | localWrite (data : Bytes) (now : Instant)
  | take (call : Nat) (now : Instant) (resized : Bool)
  | write (call : Nat) (outcome : Outcome)
  | acquire (fresh holder : String) (takeOver : Bool) (now : Instant)
  | renew (ref : LeaseRef) (now : Instant)
  | release (ref : LeaseRef) (now : Instant) (resized : Bool)
  | clock (now : Instant)
  | shown (bracketed : Bool) (answersUntil : Option Instant)
  | ended

namespace Calls

def step (s : Calls) : Act → Option Calls
  | .input ref seq data paste now =>
    match s.session.inputAccepted ref seq data paste now with
    | (.ok (some payload), session) =>
      some ⟨session, s.waiting ++ [.writing (.leased ref seq) payload]⟩
    | (_, session) => some ⟨session, s.waiting⟩
  | .resizeLeased ref size now resized =>
    some ⟨(s.session.resizeLeased ref size now resized).2, s.waiting⟩
  | .localWrite data now =>
    match s.session.localTyped data now with
    | (.written data, session) => some ⟨session, s.waiting ++ [.writing .person data]⟩
    | (.takes data, session) => some ⟨session, s.waiting ++ [.taking data]⟩
  | .take call now resized =>
    match s.waiting[call]? with
    | some (.taking data) =>
      match s.session.takeLocalControl now resized with
      | (.ok (), session) => some ⟨session, s.waiting.eraseIdx call ++ [.writing .person data]⟩
      | (.error _, session) => some ⟨session, s.waiting.eraseIdx call⟩
    | _ => none
  | .write call outcome =>
    match s.waiting[call]? with
    | some (.writing origin data) =>
      some ⟨(s.session.write origin data outcome).2, s.waiting.eraseIdx call⟩
    | _ => none
  | .acquire fresh holder takeOver now =>
    some ⟨(s.session.acquire fresh holder takeOver now).2, s.waiting⟩
  | .renew ref now => some ⟨(s.session.renew ref now).2, s.waiting⟩
  | .release ref now resized => some ⟨(s.session.release ref now resized).2, s.waiting⟩
  | .clock now =>
    some ⟨{ s.session with control := (s.session.control.controller now).2 }, s.waiting⟩
  | .shown bracketed answersUntil =>
    some ⟨{ s.session with bracketed := bracketed, answersUntil := answersUntil }, s.waiting⟩
  | .ended => some ⟨{ s.session with exited := true }, s.waiting⟩

end Calls

def Event.under (ref : LeaseRef) : Event → Bool
  | .wrote ⟨.leased r _, _, _⟩ => r = ref
  | _ => false

def Event.number (ref : LeaseRef) : Event → Option Nat
  | .wrote ⟨.leased r seq, _, _⟩ => if r = ref then some seq else none
  | _ => none

def numbersWritten (history : List Event) (ref : LeaseRef) : List Nat :=
  history.filterMap (Event.number ref)

/-- A history in which a holder that lost control types no more, and its inputs are
    written in order. -/
structure Orderly (history : List Event) : Prop where
  /-- Once control was taken from a lease, nothing given under it is written. -/
  stops : ∀ ref, history.Pairwise (fun e e' => e = .taken ref → e'.under ref = false)
  /-- Inputs under one lease are written by their numbers. -/
  inOrder : ∀ ref, (numbersWritten history ref).Pairwise (· < ·)

def Waiting.number (ref : LeaseRef) : Waiting → Option Nat
  | .writing (.leased r seq) _ => if r = ref then some seq else none
  | _ => none

def numbersWaiting (waiting : List Waiting) (ref : LeaseRef) : List Nat :=
  waiting.filterMap (Waiting.number ref)

/-- **When a section keeps the promises.** Taking control from a lease, and accepting the
    next input under one, while no accepted input of that lease waits to be written. -/
def clear (s : Calls) (a : Act) : Bool :=
  match a with
  | .take _ now _ => (s.session.inPlace now).all (fun ref => numbersWaiting s.waiting ref == [])
  | .acquire fresh holder takeOver now =>
    (s.session.control.acquire fresh holder takeOver now).1.isOk = false ||
      (s.session.inPlaceOfOther holder now).all (fun ref => numbersWaiting s.waiting ref == [])
  | .input ref seq _ _ now =>
    s.session.inPlace now ≠ some ref || seq ≠ s.session.control.taken + 1 ||
      numbersWaiting s.waiting ref == []
  | _ => true

/-! ## What clear sections keep -/

/-- What is known of the lease `ref` after any run of clear sections. -/
structure Ordered (s : Calls) (ref : LeaseRef) : Prop where
  /-- One input at most waits, and it comes after all that were written. -/
  single : (numbersWaiting s.waiting ref).length ≤ 1
  sorted : (numbersWritten s.session.history ref ++ numbersWaiting s.waiting ref).Pairwise (· < ·)
  /-- No number is past the last one taken. -/
  bound : ∀ n ∈ numbersWritten s.session.history ref ++ numbersWaiting s.waiting ref,
    ref.generation ≤ s.session.control.generation ∧
      (s.session.control.current = some ref → n ≤ s.session.control.taken)
  /-- After control was taken from it nothing waits, and it is not in force. -/
  taken : .taken ref ∈ s.session.history → numbersWaiting s.waiting ref = [] ∧
    ref.generation ≤ s.session.control.generation ∧ s.session.control.current ≠ some ref
  stops : s.session.history.Pairwise (fun e e' => e = .taken ref → e'.under ref = false)

theorem ordered_new (holds : Holds) (size : TermSize) (ref : LeaseRef) :
    Ordered (Calls.new holds size) ref :=
  ⟨Nat.zero_le _, List.Pairwise.nil, (fun _ h => by cases h), (fun h => by cases h),
    List.Pairwise.nil⟩

theorem Ordered.frame {s s' : Calls} {ref : LeaseRef} (h : Ordered s ref)
    (hev : s.session.control.Evolves s'.session.control)
    (hh : s'.session.history = s.session.history)
    (hw : numbersWaiting s'.waiting ref = numbersWaiting s.waiting ref) : Ordered s' ref := by
  refine ⟨hw ▸ h.single, hh ▸ hw ▸ h.sorted, ?_, ?_, hh ▸ h.stops⟩
  · rw [hh, hw]
    exact fun n hn => hev.bound (h.bound n hn)
  · rw [hh, hw]
    intro ht
    obtain ⟨hnone, hgen, hcur⟩ := h.taken ht
    exact ⟨hnone, Nat.le_trans hgen hev.generation, hev.stays_past hgen hcur⟩

theorem numbersWritten_append (history events : List Event) (ref : LeaseRef) :
    numbersWritten (history ++ events) ref = numbersWritten history ref ++ numbersWritten events ref :=
  filterMap_append

theorem numbersWaiting_append (waiting more : List Waiting) (ref : LeaseRef) :
    numbersWaiting (waiting ++ more) ref = numbersWaiting waiting ref ++ numbersWaiting more ref :=
  filterMap_append

@[simp] theorem numbersWritten_taken (t : Option LeaseRef) (ref : LeaseRef) :
    numbersWritten (t.toList.map Event.taken) ref = [] := by
  cases t <;> rfl

theorem Ordered.lose {s s' : Calls} {ref : LeaseRef} {t : Option LeaseRef} (h : Ordered s ref)
    (hev : s.session.control.Evolves s'.session.control)
    (hh : s'.session.history = s.session.history ++ t.toList.map Event.taken)
    (hw : numbersWaiting s'.waiting ref = numbersWaiting s.waiting ref)
    (ht : t = some ref → numbersWaiting s.waiting ref = [] ∧
      ref.generation ≤ s'.session.control.generation ∧ s'.session.control.current ≠ some ref) :
    Ordered s' ref := by
  have hnum : numbersWritten s'.session.history ref = numbersWritten s.session.history ref := by
    rw [hh, numbersWritten_append, numbersWritten_taken, append_nil]
  refine ⟨hw ▸ h.single, hnum ▸ hw ▸ h.sorted, ?_, ?_, ?_⟩
  · rw [hnum, hw]
    exact fun n hn => hev.bound (h.bound n hn)
  · rw [hh, hw, mem_append]
    intro hm
    cases hm with
    | inl hm =>
      obtain ⟨hnone, hgen, hcur⟩ := h.taken hm
      exact ⟨hnone, Nat.le_trans hgen hev.generation, hev.stays_past hgen hcur⟩
    | inr hm =>
      cases t with
      | none => cases hm
      | some r =>
        have hr : ref = r := by simpa using hm
        exact ht (congrArg some hr.symm)
  · rw [hh, pairwise_append]
    refine ⟨h.stops, by cases t <;> simp, ?_⟩
    intro e _ e' he' _
    cases t with
    | none => cases he'
    | some r =>
      have he : e' = .taken r := by simpa using he'
      rw [he]
      rfl

theorem eraseIdx_split {α : Type} {l : List α} {i : Nat} {x : α} (h : l[i]? = some x) :
    ∃ pre post, l = pre ++ x :: post ∧ l.eraseIdx i = pre ++ post := by
  obtain ⟨hi, hx⟩ := List.getElem?_eq_some_iff.mp h
  refine ⟨l.take i, l.drop (i + 1), ?_, List.eraseIdx_eq_take_drop_succ l i⟩
  rw [← hx, ← List.drop_eq_getElem_cons hi, take_append_drop]

theorem numbersWaiting_erase {waiting : List Waiting} {i : Nat} {w : Waiting} {ref : LeaseRef}
    (h : waiting[i]? = some w) (hw : w.number ref = none) :
    numbersWaiting (waiting.eraseIdx i) ref = numbersWaiting waiting ref := by
  obtain ⟨pre, post, hl, he⟩ := eraseIdx_split h
  rw [he, hl, numbersWaiting_append, numbersWaiting_append]
  simp [numbersWaiting, hw]

/-- Taking the one call that writes number `n` under `ref` out of the list. -/
theorem numbersWaiting_only {waiting : List Waiting} {i : Nat} {w : Waiting} {ref : LeaseRef}
    {n : Nat} (h : waiting[i]? = some w) (hw : w.number ref = some n)
    (hone : (numbersWaiting waiting ref).length ≤ 1) :
    numbersWaiting waiting ref = [n] ∧ numbersWaiting (waiting.eraseIdx i) ref = [] := by
  obtain ⟨pre, post, hl, he⟩ := eraseIdx_split h
  have hall : numbersWaiting waiting ref =
      numbersWaiting pre ref ++ n :: numbersWaiting post ref := by
    rw [hl, numbersWaiting_append]
    simp [numbersWaiting, hw]
  rw [hall, length_append, length_cons] at hone
  have hpre : numbersWaiting pre ref = [] := length_eq_zero_iff.mp (by omega)
  have hpost : numbersWaiting post ref = [] := length_eq_zero_iff.mp (by omega)
  rw [he, numbersWaiting_append, hall, hpre, hpost]
  exact ⟨rfl, rfl⟩

theorem Ordered.wrote {s : Calls} {ref : LeaseRef} {i : Nat} {origin : Origin} {data : Bytes}
    (h : Ordered s ref) (hi : s.waiting[i]? = some (.writing origin data)) (outcome : Outcome) :
    Ordered ⟨(s.session.write origin data outcome).2, s.waiting.eraseIdx i⟩ ref := by
  let chunk : Chunk := ⟨origin, data, outcome.written data⟩
  cases hnum : (Waiting.writing origin data).number ref with
  | none =>
    have hev : (Event.wrote chunk).number ref = none ∧ (Event.wrote chunk).under ref = false := by
      cases origin with
      | person => exact ⟨rfl, rfl⟩
      | leased r seq =>
        simp only [Waiting.number] at hnum
        split at hnum
        · cases hnum
        · rename_i hr
          exact ⟨if_neg hr, decide_eq_false hr⟩
    have hwait := numbersWaiting_erase hi hnum
    have hwritten : numbersWritten (s.session.history ++ [Event.wrote chunk]) ref =
        numbersWritten s.session.history ref := by
      rw [numbersWritten_append]
      simp [numbersWritten, hev.1]
    refine ⟨hwait ▸ h.single, ?_, ?_, ?_, ?_⟩
    · show (numbersWritten (s.session.history ++ [Event.wrote chunk]) ref ++ _).Pairwise _
      rw [hwritten, hwait]
      exact h.sorted
    · show ∀ n ∈ numbersWritten (s.session.history ++ [Event.wrote chunk]) ref ++ _, _
      rw [hwritten, hwait]
      exact h.bound
    · intro ht
      rw [hwait]
      refine h.taken ?_
      simpa [Session.write] using ht
    · show (s.session.history ++ [Event.wrote chunk]).Pairwise _
      rw [pairwise_append]
      refine ⟨h.stops, pairwise_singleton _ _, ?_⟩
      intro e _ e' he' _
      rw [mem_singleton.mp he']
      exact hev.2
  | some n =>
    have hev : (Event.wrote chunk).number ref = some n := by
      cases origin with
      | person => cases hnum
      | leased r seq => exact hnum
    obtain ⟨hone, hnone⟩ := numbersWaiting_only hi hnum h.single
    have hwritten : numbersWritten (s.session.history ++ [Event.wrote chunk]) ref ++
        numbersWaiting (s.waiting.eraseIdx i) ref =
        numbersWritten s.session.history ref ++ numbersWaiting s.waiting ref := by
      rw [numbersWritten_append, hnone, hone]
      simp [numbersWritten, hev]
    -- control was not taken from this lease, or nothing would wait under it
    have hfree : .taken ref ∉ s.session.history := by
      intro ht
      rw [(h.taken ht).1] at hone
      cases hone
    refine ⟨by rw [hnone]; exact Nat.zero_le _, ?_, ?_, ?_, ?_⟩
    · show (numbersWritten (s.session.history ++ [Event.wrote chunk]) ref ++ _).Pairwise _
      rw [hwritten]
      exact h.sorted
    · show ∀ n ∈ numbersWritten (s.session.history ++ [Event.wrote chunk]) ref ++ _, _
      rw [hwritten]
      exact h.bound
    · intro ht
      refine absurd ?_ hfree
      simpa [Session.write] using ht
    · show (s.session.history ++ [Event.wrote chunk]).Pairwise _
      rw [pairwise_append]
      refine ⟨h.stops, pairwise_singleton _ _, ?_⟩
      intro e he e' _ heq
      exact absurd (heq ▸ he) hfree

theorem Ordered.accept {s : Calls} {ref r : LeaseRef} {seq : Nat} {payload : Bytes}
    {session : Session} (h : Ordered s ref) (hcur : s.session.control.current = some r)
    (hseq : seq = s.session.control.taken + 1)
    (hgen : s.session.control.generation ≤ session.control.generation)
    (hc : session.control.current = none ∨
      session.control.current = some r ∧ session.control.taken = seq)
    (hh : session.history = s.session.history) (hnone : numbersWaiting s.waiting r = []) :
    Ordered ⟨session, s.waiting ++ [Waiting.writing (.leased r seq) payload]⟩ ref := by
  have hlast := Control.current_generation hcur
  by_cases hr : r = ref
  · subst hr
    have hwait : numbersWaiting (s.waiting ++ [Waiting.writing (.leased r seq) payload]) r = [seq] := by
      rw [numbersWaiting_append, hnone]
      simp [numbersWaiting, Waiting.number]
    have hall : ∀ n ∈ numbersWritten s.session.history r, n < seq := by
      intro n hn
      have := (h.bound n (mem_append_left _ hn)).2 hcur
      omega
    refine ⟨by rw [hwait]; exact Nat.le_refl 1, ?_, ?_, ?_, hh ▸ h.stops⟩
    · show (numbersWritten session.history r ++ _).Pairwise _
      rw [hwait, hh, pairwise_append]
      refine ⟨(pairwise_append.mp h.sorted).1, pairwise_singleton _ _, ?_⟩
      intro n hn m hm
      rw [mem_singleton.mp hm]
      exact hall n hn
    · show ∀ n ∈ numbersWritten session.history r ++ _, _
      rw [hwait, hh]
      intro n hn
      refine ⟨show r.generation ≤ session.control.generation by omega, fun hcur' => ?_⟩
      have htaken : session.control.taken = seq := by
        cases hc with
        | inl hc => rw [hc] at hcur'; cases hcur'
        | inr hc => exact hc.2
      show n ≤ session.control.taken
      rw [htaken]
      cases mem_append.mp hn with
      | inl hn => exact Nat.le_of_lt (hall n hn)
      | inr hn => exact Nat.le_of_eq (mem_singleton.mp hn)
    · show .taken r ∈ session.history → _
      rw [hh]
      exact fun ht => absurd hcur (h.taken ht).2.2
  · have hwait : numbersWaiting (s.waiting ++ [Waiting.writing (.leased r seq) payload]) ref =
        numbersWaiting s.waiting ref := by
      rw [numbersWaiting_append]
      simp [numbersWaiting, Waiting.number, hr]
    have hother : session.control.current ≠ some ref := by
      cases hc with
      | inl hc => rw [hc]; simp
      | inr hc => rw [hc.1]; simp [hr]
    refine ⟨hwait ▸ h.single, hh ▸ hwait ▸ h.sorted, ?_, ?_, hh ▸ h.stops⟩
    · show ∀ n ∈ numbersWritten session.history ref ++ _, _
      rw [hwait, hh]
      exact fun n hn => ⟨Nat.le_trans (h.bound n hn).1 hgen, fun hcur' => absurd hcur' hother⟩
    · show .taken ref ∈ session.history → _
      rw [hwait, hh]
      exact fun ht => ⟨(h.taken ht).1, Nat.le_trans (h.taken ht).2.1 hgen, hother⟩

theorem current_of_lapse {c : Control} {now : Instant} {ref : LeaseRef}
    (h : (c.lapse now).current = some ref) : c.current = some ref := by
  rcases c.lapse_current now with ⟨hc, _⟩ | hc
  · rw [← hc]; exact h
  · rw [hc] at h; cases h

/-- **One clear section keeps what is known of every lease.** -/
theorem ordered_step {s s' : Calls} {a : Act} (h : ∀ ref, Ordered s ref)
    (hclear : clear s a = true) (hs : s.step a = some s') : ∀ ref, Ordered s' ref := by
  intro ref
  cases a with
  | input r seq data paste now =>
    obtain ⟨hacc, hh⟩ := s.session.inputAccepted_cases r seq data paste now
    simp only [Calls.step] at hs
    generalize s.session.inputAccepted r seq data paste now = res at *
    obtain ⟨res, session⟩ := res
    dsimp only at hacc hh
    cases hacc with
    | fresh hr hcur hseq hgen hc =>
      subst hr
      cases hs
      have hnone : numbersWaiting s.waiting r = [] := by
        simpa [clear, Session.inPlace, hcur, hseq] using hclear
      exact (h ref).accept (current_of_lapse hcur) hseq hgen hc hh hnone
    | repeated hr _ _ hev | refused e hr hev =>
      subst hr
      cases hs
      exact (h ref).frame hev hh rfl
  | resizeLeased r size now resized =>
    cases hs
    obtain ⟨hev, hh⟩ := s.session.resizeLeased_evolves r size now resized
    exact (h ref).frame hev hh rfl
  | localWrite data now =>
    obtain ⟨hev, hh⟩ := s.session.localTyped_evolves data now
    simp only [Calls.step] at hs
    generalize s.session.localTyped data now = res at *
    obtain ⟨_ | _, session⟩ := res
    all_goals
      cases hs
      refine (h ref).frame hev hh ?_
      rw [numbersWaiting_append]
      simp [numbersWaiting, Waiting.number]
  | take i now resized =>
    simp only [Calls.step] at hs
    split at hs
    · rename_i data hi
      have hwait : numbersWaiting (s.waiting.eraseIdx i) ref = numbersWaiting s.waiting ref :=
        numbersWaiting_erase hi rfl
      have hev := s.session.takeLocalControl_evolves now resized
      have hh := s.session.takeLocalControl_history now resized
      have hcur := s.session.takeLocalControl_current now resized
      have ht : s.session.inPlace now = some ref → numbersWaiting s.waiting ref = [] ∧
          ref.generation ≤ (s.session.takeLocalControl now resized).2.control.generation ∧
          (s.session.takeLocalControl now resized).2.control.current ≠ some ref := by
        intro hp
        refine ⟨by simpa [clear, hp] using hclear, ?_, by rw [hcur]; simp⟩
        rw [Control.current_generation (current_of_lapse hp)]
        exact hev.generation
      generalize s.session.takeLocalControl now resized = res at *
      obtain ⟨_ | _, session⟩ := res
      · cases hs
        exact (h ref).lose hev hh hwait ht
      · cases hs
        refine (h ref).lose hev hh ?_ ht
        rw [numbersWaiting_append, hwait]
        simp [numbersWaiting, Waiting.number]
    · cases hs
  | write i outcome =>
    simp only [Calls.step] at hs
    split at hs
    · rename_i origin data hi
      cases hs
      exact (h ref).wrote hi outcome
    · cases hs
  | acquire fresh holder takeOver now =>
    cases hs
    obtain ⟨hev, hh⟩ := s.session.acquire_cases fresh holder takeOver now
    cases hh with
    | inl hh => exact (h ref).frame hev hh rfl
    | inr hh =>
      obtain ⟨hh, hok, hpast⟩ := hh
      refine (h ref).lose hev hh rfl (fun hp => ?_)
      have hgen : ref.generation = s.session.control.generation := by
        unfold Session.inPlaceOfOther at hp
        split at hp
        · cases hp
        · exact Control.current_generation (current_of_lapse hp)
      refine ⟨by simpa [clear, hok, hp] using hclear, ?_, hpast ref (Nat.le_of_eq hgen)⟩
      rw [hgen]
      exact hev.generation
  | renew r now =>
    cases hs
    obtain ⟨hev, hh⟩ := s.session.renew_evolves r now
    exact (h ref).frame hev hh rfl
  | release r now resized =>
    cases hs
    obtain ⟨hev, hh⟩ := s.session.release_evolves r now resized
    exact (h ref).frame hev hh rfl
  | clock now =>
    cases hs
    exact (h ref).frame ((Control.Evolves.refl _).lapse now) rfl rfl
  | shown bracketed answersUntil | ended =>
    cases hs
    exact (h ref).frame (.refl _) rfl rfl

/-- **A holder that lost control types no more, and inputs are written in order, in every
    run whose sections are clear.** -/
theorem inputs_orderly {holds : Holds} {size : TermSize} {acts : List Act} {s : Calls}
    (hm : Meets Calls.step (fun s a => clear s a = true) (Calls.new holds size) acts)
    (hr : run Calls.step (Calls.new holds size) acts = some s) : Orderly s.session.history := by
  have h : ∀ ref, Ordered s ref :=
    hm.invariant (fun _ _ _ hi hc hs => ordered_step hi hc hs) hr (ordered_new holds size)
  exact ⟨fun ref => (h ref).stops, fun ref => (pairwise_append.mp (h ref).sorted).1⟩

/-- A phone's input is written before the person here types, and its next one is refused. -/
def inTurn : List Act :=
  [ .acquire "a" "phone" false 0, .input ⟨"a", 1⟩ 1 [0x6c] false 1, .write 0 .whole,
    .localWrite [0x78] 2, .take 0 2 true, .write 0 .whole, .input ⟨"a", 1⟩ 2 [0x73] false 3 ]

theorem inTurn_orderly :
    ∃ s, run Calls.step (Calls.new Holds.default ⟨80, 24⟩) inTurn = some s ∧
      s.session.history.length = 3 ∧ Orderly s.session.history :=
  have hclear : meets Calls.step clear (Calls.new Holds.default ⟨80, 24⟩) inTurn = true := by decide
  ⟨_, rfl, rfl, inputs_orderly (meets_iff.mp hclear) rfl⟩

/-- The phone's input is accepted, the person here takes control and types, and then the
    phone's input is written. -/
def afterTakeover : List Act :=
  [ .acquire "a" "phone" false 0, .input ⟨"a", 1⟩ 1 [0x6c] false 1, .localWrite [0x78] 2,
    .take 1 2 true, .write 1 .whole, .write 0 .whole ]

/-- Two inputs are accepted before either is written, and the second is written first. -/
def overtaken : List Act :=
  [ .acquire "a" "phone" false 0, .input ⟨"a", 1⟩ 1 [0x6c] false 1,
    .input ⟨"a", 1⟩ 2 [0x73] false 1, .write 1 .whole, .write 0 .whole ]

theorem late_and_overtaken_writes :
    (∃ s, run Calls.step (Calls.new Holds.default ⟨80, 24⟩) afterTakeover = some s ∧
      ¬ Orderly s.session.history) ∧
    (∃ s, run Calls.step (Calls.new Holds.default ⟨80, 24⟩) overtaken = some s ∧
      ¬ Orderly s.session.history) := by
  refine ⟨⟨_, rfl, fun h => ?_⟩, ⟨_, rfl, fun h => ?_⟩⟩
  · have := h.stops ⟨"a", 1⟩
    revert this
    decide
  · have := h.inOrder ⟨"a", 1⟩
    revert this
    decide

end Yardsort.Pty
