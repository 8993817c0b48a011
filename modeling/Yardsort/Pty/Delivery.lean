import Yardsort.Pty.SessionRuns

/- Whole calls on a session, one after another, with writes that may fail.

   A lease holder's input is answered `Ok` when its number was taken before, without
   asking whether it was ever written: the number is taken first. So a holder that
   sends a failed input again is told it arrived. `delivered_exactly_once_iff` says in
   which sequences of calls every `Ok` can be believed, whatever fails. -/
namespace Yardsort.Pty
open Yardsort.Lib

/-- A whole call on a session, with the times it reads and how the PTY behaves; or the
    pump noticing a lapse (`clock`), the program printing (`shown`) or ending. -/
inductive Call where
  | input (ref : LeaseRef) (seq : Nat) (data : Bytes) (paste : Bool) (now : Instant)
      (outcome : Outcome)
  | resizeLeased (ref : LeaseRef) (size : TermSize) (now : Instant) (resized : Bool)
  | localWrite (data : Bytes) (resized : Bool) (outcome : Outcome) (now now' : Instant)
  | acquire (fresh holder : String) (takeOver : Bool) (now : Instant)
  | renew (ref : LeaseRef) (now : Instant)
  | release (ref : LeaseRef) (now : Instant) (resized : Bool)
  | clock (now : Instant)
  | shown (bracketed : Bool) (answersUntil : Option Instant)
  | ended

def Call.after (s : Session) : Call → Session
  | .input ref seq data paste now outcome => (s.input ref seq data paste now outcome).2
  | .resizeLeased ref size now resized => (s.resizeLeased ref size now resized).2
  | .localWrite data resized outcome now now' => (s.localWrite data resized outcome now now').2
  | .acquire fresh holder takeOver now => (s.acquire fresh holder takeOver now).2
  | .renew ref now => (s.renew ref now).2
  | .release ref now resized => (s.release ref now resized).2
  | .clock now => { s with control := (s.control.controller now).2 }
  | .shown bracketed answersUntil =>
    { s with bracketed := bracketed, answersUntil := answersUntil }
  | .ended => { s with exited := true }

def Session.afterAll (s : Session) (calls : List Call) : Session := calls.foldl Call.after s

@[simp] theorem afterAll_cons (s : Session) (call : Call) (calls : List Call) :
    s.afterAll (call :: calls) = (call.after s).afterAll calls := rfl

theorem afterAll_append (s : Session) (calls calls' : List Call) :
    s.afterAll (calls ++ calls') = (s.afterAll calls).afterAll calls' := foldl_append ..

/-- Input `n` under `ref` was written in full and once, as `given`, after every input
    below it was written in full. -/
def Delivered (history : List Event) (ref : LeaseRef) (n : Nat) (given : Bytes) : Prop :=
  ∃ pre chunk post, history = pre ++ .wrote chunk :: post ∧
    chunk.origin = .leased ref n ∧ chunk.given = given ∧ chunk.written = given ∧
    n ∉ numbersWritten pre ref ∧ n ∉ numbersWritten post ref ∧
    ∀ m, 1 ≤ m → m < n → ∃ c, .wrote c ∈ pre ∧ c.origin = .leased ref m ∧ c.written = c.given

/-- Some call gave these bytes to be written as input `n` under `ref`. -/
def GivenFor (start : Session) (calls : List Call) (ref : LeaseRef) (n : Nat) (given : Bytes) :
    Prop :=
  ∃ pre data paste now outcome post,
    calls = pre ++ Call.input ref n data paste now outcome :: post ∧
      given = (start.afterAll pre).payload data paste

/-- Every `Ok` an input under `ref` is answered can be believed, when it is given and
    ever after: what was delivered is what a call gave for that number. -/
def ExactlyOnce (start : Session) (calls : List Call) (ref : LeaseRef) : Prop :=
  ∀ pre n data paste now outcome post,
    calls = pre ++ Call.input ref n data paste now outcome :: post →
    ((start.afterAll pre).input ref n data paste now outcome).1 = .ok () →
    ∃ given, GivenFor start calls ref n given ∧
      Delivered ((start.afterAll pre).input ref n data paste now outcome).2.history ref n given ∧
      Delivered (start.afterAll calls).history ref n given

def cutShort (history : List Event) (ref : LeaseRef) (n : Nat) : Prop :=
  ∃ chunk m, .wrote chunk ∈ history ∧ chunk.origin = .leased ref m ∧ m ≤ n ∧
    chunk.written ≠ chunk.given

/-- **When the `Ok` of a call can be believed.** Under a lease in force, an input is not
    numbered 0, and once an input up to its number was cut short it is not one that is
    answered `Ok`: a number taken before, or the next one with a write that succeeds. -/
def Believable (s : Session) (ref : LeaseRef) : Call → Prop
  | .input r n _ _ now outcome =>
    r = ref → (s.control.lapse now).current = some ref →
      n ≠ 0 ∧ (cutShort s.history ref n →
        ¬ (n ≤ s.control.taken ∨ n = s.control.taken + 1 ∧ outcome = .whole))
  | _ => True

/-- What is known of the lease `ref` after any calls: the inputs written under it, cut
    short or not, are `1, 2, …, k`, and it has taken `k` numbers if it is in force. -/
structure Counted (s : Session) (ref : LeaseRef) : Prop where
  inOrder : numbersWritten s.history ref =
    List.range' 1 (numbersWritten s.history ref).length
  past : numbersWritten s.history ref ≠ [] → ref.generation ≤ s.control.generation
  last : s.control.current = some ref →
    (numbersWritten s.history ref).length = s.control.taken

theorem counted_new (holds : Holds) (size : TermSize) (ref : LeaseRef) :
    Counted (Session.new holds size) ref :=
  ⟨rfl, (fun h => absurd rfl h), (fun h => by cases h)⟩

variable {ref : LeaseRef}

theorem Counted.frame {s s' : Session} (h : Counted s ref) (hev : s.control.Evolves s'.control)
    (hh : numbersWritten s'.history ref = numbersWritten s.history ref) : Counted s' ref := by
  refine ⟨by rw [hh]; exact h.inOrder, ?_, ?_⟩
  · rw [hh]
    exact fun hne => Nat.le_trans (h.past hne) hev.generation
  · rw [hh]
    intro hcur
    cases hev with
    | kept _ hc ht =>
      rw [hc] at hcur
      rw [ht ref hcur]
      exact h.last hcur
    | ended _ hc => rw [hc] at hcur; cases hcur
    | handed r hg hc ht =>
      -- a new lease has a later generation than any that was written under
      have hgen := Control.current_generation hcur
      have hnone : numbersWritten s.history ref = [] := by
        by_contra hne
        have := h.past hne
        omega
      rw [hnone, ht]
      rfl

theorem numbersWritten_wrote (history : List Event) (chunk : Chunk) (ref : LeaseRef) :
    numbersWritten (history ++ [Event.wrote chunk]) ref = numbersWritten history ref ++
      (match chunk.origin with
      | .leased r n => if r = ref then [n] else []
      | .person => []) := by
  rw [numbersWritten_append]
  obtain ⟨_ | ⟨r, n⟩, given, written⟩ := chunk
  · rfl
  · by_cases hr : r = ref <;> simp [numbersWritten, Event.number, hr]

theorem Session.input_cases (s : Session) (ref : LeaseRef) (n : Nat) (data : Bytes) (paste : Bool)
    (now : Instant) (outcome : Outcome) :
    (∃ c', (s.control.lapse now).current = some ref ∧ n = s.control.taken + 1 ∧
        s.control.generation ≤ c'.generation ∧
        (c'.current = none ∨ c'.current = some ref ∧ c'.taken = n) ∧
        (s.input ref n data paste now outcome).1 = outcome.result ∧
        (s.input ref n data paste now outcome).2.control = c' ∧
        (s.input ref n data paste now outcome).2.history = s.history ++
          [Event.wrote ⟨.leased ref n, s.payload data paste, outcome.written (s.payload data paste)⟩]) ∨
      (s.control.Evolves (s.input ref n data paste now outcome).2.control ∧
        (s.input ref n data paste now outcome).2.history = s.history ∧
        ((s.input ref n data paste now outcome).1 = .ok () ↔
          (s.control.lapse now).current = some ref ∧ n ≤ s.control.taken) ∧
        ((s.control.lapse now).current = some ref → n ≠ s.control.taken + 1)) := by
  obtain ⟨hacc, hh⟩ := s.inputAccepted_cases ref n data paste now
  unfold Session.input
  generalize s.inputAccepted ref n data paste now = res at *
  obtain ⟨res, session⟩ := res
  dsimp only at hacc hh
  cases hacc with
  | fresh hr hcur hseq hg hc =>
    subst hr
    refine Or.inl ⟨_, hcur, hseq, hg, hc, rfl, rfl, ?_⟩
    show session.history ++ _ = _
    rw [hh]
  | repeated hr hcur hseq hev =>
    subst hr
    refine Or.inr ⟨hev, hh, ?_, fun _ => by omega⟩
    simp [hcur, hseq]
  | refused e hr hev hwhy =>
    subst hr
    refine Or.inr ⟨hev, hh, ?_, fun hcur => by have := hwhy hcur; omega⟩
    constructor
    · intro h
      cases h
    · intro ⟨hcur, hle⟩
      have := hwhy hcur
      omega

theorem counted_after {s : Session} (h : Counted s ref) (call : Call) :
    Counted (call.after s) ref := by
  cases call with
  | input r n data paste now outcome =>
    simp only [Call.after]
    cases s.input_cases r n data paste now outcome with
    | inl hw =>
      obtain ⟨c', hcur, hseq, hg, hc, _, hc', hh⟩ := hw
      have hnum : numbersWritten (s.input r n data paste now outcome).2.history ref =
          numbersWritten s.history ref ++ (if r = ref then [n] else []) := by
        rw [hh, numbersWritten_wrote]
      have hgen := Control.current_generation (current_of_lapse hcur)
      by_cases hr : r = ref
      · subst hr
        rw [if_pos rfl] at hnum
        have hlen := h.last (current_of_lapse hcur)
        refine ⟨?_, fun _ => ?_, fun hcur' => ?_⟩
        · rw [hnum, length_append, length_singleton, List.range'_1_concat, ← h.inOrder,
            hlen, hseq, Nat.add_comm]
        · rw [hc', hgen]
          exact hg
        · rw [hnum, length_append, length_singleton, hlen, hc', ← hseq]
          rw [hc'] at hcur'
          cases hc with
          | inl hc => rw [hc] at hcur'; cases hcur'
          | inr hc => exact hc.2.symm
      · rw [if_neg hr, append_nil] at hnum
        refine ⟨by rw [hnum]; exact h.inOrder, fun hne => ?_, fun hcur' => ?_⟩
        · rw [hnum] at hne
          rw [hc']
          exact Nat.le_trans (h.past hne) hg
        · rw [hc'] at hcur'
          cases hc with
          | inl hc => rw [hc] at hcur'; cases hcur'
          | inr hc => exact absurd (Option.some.inj (hc.1.symm.trans hcur')) hr
    | inr hk => exact h.frame hk.1 (by rw [hk.2.1])
  | resizeLeased r size now resized =>
    obtain ⟨hev, hh⟩ := s.resizeLeased_evolves r size now resized
    exact h.frame hev (congrArg (numbersWritten · ref) hh)
  | localWrite data resized outcome now now' =>
    obtain ⟨hev, hh⟩ := s.localTyped_evolves data now
    simp only [Call.after, Session.localWrite]
    generalize s.localTyped data now = res at *
    obtain ⟨_ | data', session⟩ := res
    · refine h.frame hev ?_
      show numbersWritten (session.history ++ _) ref = _
      rw [numbersWritten_wrote, hh]
      exact append_nil _
    · have hev' := session.takeLocalControl_evolves now' resized
      have hh' := session.takeLocalControl_history now' resized
      have hnum : numbersWritten (session.takeLocalControl now' resized).2.history ref =
          numbersWritten s.history ref := by
        rw [hh', numbersWritten_append, numbersWritten_taken, append_nil, hh]
      have hc := (h.frame hev (congrArg (numbersWritten · ref) hh)).frame hev' (by rw [hnum, hh])
      dsimp only
      generalize session.takeLocalControl now' resized = res at *
      obtain ⟨_ | _, session'⟩ := res
      · exact hc
      · refine hc.frame (.refl _) ?_
        show numbersWritten (session'.history ++ _) ref = _
        rw [numbersWritten_wrote]
        exact append_nil _
  | acquire fresh holder takeOver now =>
    obtain ⟨hev, hh⟩ := s.acquire_cases fresh holder takeOver now
    refine h.frame hev ?_
    simp only [Call.after]
    cases hh with
    | inl hh => rw [hh]
    | inr hh => rw [hh.1, numbersWritten_append, numbersWritten_taken, append_nil]
  | renew r now =>
    obtain ⟨hev, hh⟩ := s.renew_evolves r now
    exact h.frame hev (congrArg (numbersWritten · ref) hh)
  | release r now resized =>
    obtain ⟨hev, hh⟩ := s.release_evolves r now resized
    exact h.frame hev (congrArg (numbersWritten · ref) hh)
  | clock now => exact h.frame ((Control.Evolves.refl _).lapse now) rfl
  | shown bracketed answersUntil | ended => exact h.frame (.refl _) rfl

theorem counted {s : Session} (h : Counted s ref) (calls : List Call) :
    Counted (s.afterAll calls) ref := by
  induction calls generalizing s with
  | nil => exact h
  | cons call calls ih => exact ih (counted_after h call)

/-! ## What is delivered -/

theorem number_eq_some {e : Event} {n : Nat} :
    e.number ref = some n ↔ ∃ chunk, e = .wrote chunk ∧ chunk.origin = .leased ref n := by
  constructor
  · intro h
    cases e with
    | taken r => cases h
    | wrote chunk =>
      obtain ⟨_ | ⟨r, m⟩, given, written⟩ := chunk
      · cases h
      · simp only [Event.number] at h
        split at h
        · rename_i hr
          cases h
          exact ⟨_, rfl, by rw [hr]⟩
        · cases h
  · intro ⟨chunk, he, ho⟩
    obtain ⟨o, given, written⟩ := chunk
    subst he ho
    simp [Event.number]

theorem mem_numbersWritten {history : List Event} {n : Nat} :
    n ∈ numbersWritten history ref ↔
      ∃ chunk, .wrote chunk ∈ history ∧ chunk.origin = .leased ref n := by
  rw [numbersWritten, mem_filterMap]
  constructor
  · rintro ⟨e, he, hn⟩
    obtain ⟨chunk, rfl, ho⟩ := number_eq_some.mp hn
    exact ⟨chunk, he, ho⟩
  · rintro ⟨chunk, hc, ho⟩
    exact ⟨_, hc, number_eq_some.mpr ⟨chunk, rfl, ho⟩⟩

theorem numbersWritten_split {pre post : List Event} {chunk : Chunk} {n : Nat}
    (ho : chunk.origin = .leased ref n) :
    numbersWritten (pre ++ .wrote chunk :: post) ref =
      numbersWritten pre ref ++ n :: numbersWritten post ref := by
  have hn : (Event.wrote chunk).number ref = some n := number_eq_some.mpr ⟨chunk, rfl, ho⟩
  rw [numbersWritten_append]
  simp [numbersWritten, hn]

theorem delivered_iff {history : List Event} {n k : Nat}
    (hk : numbersWritten history ref = List.range' 1 k) :
    (∃ given, Delivered history ref n given) ↔ 1 ≤ n ∧ n ≤ k ∧ ¬ cutShort history ref n := by
  have hsorted : (numbersWritten history ref).Pairwise (· < ·) := by
    rw [hk]
    exact List.pairwise_lt_range'
  have hmem : ∀ m, m ∈ numbersWritten history ref ↔ 1 ≤ m ∧ m ≤ k := by
    intro m
    rw [hk, List.mem_range'_1]
    omega
  constructor
  · intro ⟨given, pre, chunk, post, hh, ho, hgiven, hfull, hpre, hpost, hbelow⟩
    have hn : n ∈ numbersWritten history ref := by
      rw [hh, numbersWritten_split ho]
      exact mem_append_right _ mem_cons_self
    refine ⟨((hmem n).mp hn).1, ((hmem n).mp hn).2, ?_⟩
    intro ⟨c, m, hc, hco, hle, hcut⟩
    -- the input cut short is the one before `n` that was written in full, or `n` itself
    have hm : 1 ≤ m := ((hmem m).mp (mem_numbersWritten.mpr ⟨c, hc, hco⟩)).1
    rw [hh, mem_append, mem_cons] at hc
    rw [hh, numbersWritten_split ho, pairwise_append] at hsorted
    have hlast : ∀ m' ∈ numbersWritten post ref, n < m' :=
      (pairwise_cons.mp hsorted.2.1).1
    cases hc with
    | inl hc =>
      have hmpre := mem_numbersWritten.mpr ⟨c, hc, hco⟩
      have hlt : m < n := hsorted.2.2 m hmpre n mem_cons_self
      obtain ⟨c', hc', hco', hfull'⟩ := hbelow m hm hlt
      -- both are in `pre`, where each number is once
      obtain ⟨a, b, hab⟩ := append_of_mem hc
      rw [hab, numbersWritten_split hco, pairwise_append] at hsorted
      rw [hab, mem_append, mem_cons] at hc'
      cases hc' with
      | inl hc' =>
        have := hsorted.1.2.2 m (mem_numbersWritten.mpr ⟨c', hc', hco'⟩) m mem_cons_self
        omega
      | inr hc' =>
        cases hc' with
        | inl heq =>
          cases heq
          exact hcut hfull'
        | inr hc' =>
          have := (pairwise_cons.mp hsorted.1.2.1).1 m
            (mem_numbersWritten.mpr ⟨c', hc', hco'⟩)
          omega
    | inr hc =>
      cases hc with
      | inl heq =>
        cases heq
        exact hcut (hfull.trans hgiven.symm)
      | inr hc =>
        have := hlast m (mem_numbersWritten.mpr ⟨c, hc, hco⟩)
        omega
  · intro ⟨hn, hle, hwhole⟩
    have hfull : ∀ c m, Event.wrote c ∈ history → c.origin = .leased ref m → m ≤ n →
        c.written = c.given := by
      intro c m hc hco hm
      by_contra hcut
      exact hwhole ⟨c, m, hc, hco, hm, hcut⟩
    obtain ⟨chunk, hc, ho⟩ := mem_numbersWritten.mp ((hmem n).mpr ⟨hn, hle⟩)
    obtain ⟨pre, post, hh⟩ := append_of_mem hc
    have hsplit : numbersWritten history ref =
        numbersWritten pre ref ++ n :: numbersWritten post ref := by
      rw [hh, numbersWritten_split ho]
    rw [hsplit, pairwise_append] at hsorted
    have hafter : ∀ m ∈ numbersWritten post ref, n < m :=
      (pairwise_cons.mp hsorted.2.1).1
    refine ⟨chunk.given, pre, chunk, post, hh, ho, rfl, hfull chunk n hc ho (Nat.le_refl n),
      ?_, ?_, ?_⟩
    · intro hmem'
      exact Nat.lt_irrefl n (hsorted.2.2 n hmem' n mem_cons_self)
    · intro hmem'
      exact Nat.lt_irrefl n (hafter n hmem')
    · intro m hm hlt
      have hin : m ∈ numbersWritten history ref := (hmem m).mpr ⟨hm, by omega⟩
      rw [hsplit, mem_append, mem_cons] at hin
      cases hin with
      | inl hin =>
        obtain ⟨c, hc', hco⟩ := mem_numbersWritten.mp hin
        have hin' : Event.wrote c ∈ history := by
          rw [hh]
          exact mem_append_left _ hc'
        exact ⟨c, hc', hco, hfull c m hin' hco (Nat.le_of_lt hlt)⟩
      | inr hin =>
        cases hin with
        | inl heq => omega
        | inr hin =>
          have := hafter m hin
          omega

/-- Nothing is written as an input under a lease but what an input gave. -/
def NoInputs (more : List Event) : Prop :=
  ∀ chunk ref n, .wrote chunk ∈ more → chunk.origin ≠ .leased ref n

theorem noInputs_taken (t : Option LeaseRef) : NoInputs (t.toList.map Event.taken) := by
  intro chunk ref n hc
  cases t <;> simp at hc

theorem NoInputs.person {more : List Event} (h : NoInputs more) (data written : Bytes) :
    NoInputs (more ++ [Event.wrote ⟨.person, data, written⟩]) := by
  intro chunk ref n hc ho
  cases mem_append.mp hc with
  | inl hc => exact h chunk ref n hc ho
  | inr hc =>
    cases mem_singleton.mp hc
    cases ho

theorem history_after (s : Session) (call : Call) :
    ∃ more, (call.after s).history = s.history ++ more ∧
      (NoInputs more ∨ ∃ ref n data paste now outcome written,
        call = .input ref n data paste now outcome ∧
          more = [.wrote ⟨.leased ref n, s.payload data paste, written⟩]) := by
  have hnone : NoInputs [] := fun _ _ _ h => by cases h
  have hsame : ∀ {s' : Session}, s'.history = s.history →
      ∃ more, s'.history = s.history ++ more ∧ NoInputs more :=
    fun h => ⟨[], h.trans (append_nil _).symm, hnone⟩
  suffices h : (∃ more, (call.after s).history = s.history ++ more ∧ NoInputs more) ∨
      ∃ ref n data paste now outcome written, call = .input ref n data paste now outcome ∧
        (call.after s).history =
          s.history ++ [Event.wrote ⟨.leased ref n, s.payload data paste, written⟩] by
    cases h with
    | inl h =>
      obtain ⟨more, hh, hno⟩ := h
      exact ⟨more, hh, Or.inl hno⟩
    | inr h =>
      obtain ⟨ref, n, data, paste, now, outcome, written, hcall, hh⟩ := h
      exact ⟨_, hh, Or.inr ⟨ref, n, data, paste, now, outcome, written, hcall, rfl⟩⟩
  cases call with
  | input r n data paste now outcome =>
    cases s.input_cases r n data paste now outcome with
    | inl h =>
      obtain ⟨_, _, _, _, _, _, _, hh⟩ := h
      exact Or.inr ⟨r, n, data, paste, now, outcome, _, rfl, hh⟩
    | inr h => exact Or.inl (hsame h.2.1)
  | resizeLeased r size now resized => exact Or.inl (hsame (s.resizeLeased_evolves r size now resized).2)
  | localWrite data resized outcome now now' =>
    have hh := (s.localTyped_evolves data now).2
    refine Or.inl ?_
    simp only [Call.after, Session.localWrite]
    generalize s.localTyped data now = res at *
    obtain ⟨_ | data', session⟩ := res
    · exact ⟨_, congrArg (· ++ _) hh, hnone.person _ _⟩
    · have hh' := session.takeLocalControl_history now' resized
      rw [hh] at hh'
      dsimp only
      have htaken := noInputs_taken (session.inPlace now')
      generalize session.takeLocalControl now' resized = res at *
      obtain ⟨_ | _, session'⟩ := res
      · exact ⟨_, hh', htaken⟩
      · refine ⟨_, ?_, htaken.person data' (outcome.written data')⟩
        rw [← append_assoc, ← hh']
        rfl
  | acquire fresh holder takeOver now =>
    cases (s.acquire_cases fresh holder takeOver now).2 with
    | inl h => exact Or.inl (hsame h)
    | inr h => exact Or.inl ⟨_, h.1, noInputs_taken _⟩
  | renew r now => exact Or.inl (hsame (s.renew_evolves r now).2)
  | release r now resized => exact Or.inl (hsame (s.release_evolves r now resized).2)
  | clock now | shown bracketed answersUntil | ended => exact Or.inl (hsame rfl)

theorem given_for {s : Session} {calls : List Call} {chunk : Chunk} {n : Nat}
    (hc : .wrote chunk ∈ (s.afterAll calls).history) (ho : chunk.origin = .leased ref n) :
    .wrote chunk ∈ s.history ∨ GivenFor s calls ref n chunk.given := by
  induction calls generalizing s with
  | nil => exact Or.inl hc
  | cons call calls ih =>
    cases ih hc with
    | inl h =>
      obtain ⟨more, hh, hmore⟩ := history_after s call
      rw [hh, mem_append] at h
      cases h with
      | inl h => exact Or.inl h
      | inr h =>
        cases hmore with
        | inl hno => exact absurd ho (hno chunk ref n h)
        | inr hin =>
          obtain ⟨r, m, data, paste, now, outcome, written, hcall, rfl⟩ := hin
          cases mem_singleton.mp h
          cases ho
          exact Or.inr ⟨[], data, paste, now, outcome, calls, by rw [hcall]; rfl, rfl⟩
    | inr h =>
      obtain ⟨pre, data, paste, now, outcome, post, hcalls, hgiven⟩ := h
      exact Or.inr ⟨call :: pre, data, paste, now, outcome, post, by rw [hcalls]; rfl, hgiven⟩

theorem history_afterAll (s : Session) (calls : List Call) :
    ∃ more, (s.afterAll calls).history = s.history ++ more := by
  induction calls generalizing s with
  | nil => exact ⟨[], (append_nil _).symm⟩
  | cons call calls ih =>
    obtain ⟨more, h, _⟩ := history_after s call
    obtain ⟨more', h'⟩ := ih (call.after s)
    exact ⟨more ++ more', by rw [afterAll_cons, h', h, append_assoc]⟩

theorem Delivered.stays {history more : List Event} {n k : Nat} {given : Bytes}
    (h : Delivered history ref n given)
    (hk : numbersWritten (history ++ more) ref = List.range' 1 k) :
    Delivered (history ++ more) ref n given := by
  obtain ⟨pre, chunk, post, hh, ho, hgiven, hfull, hpre, hpost, hbelow⟩ := h
  have hsplit : history ++ more = pre ++ .wrote chunk :: (post ++ more) := by
    rw [hh, append_assoc, cons_append]
  have hsorted : (numbersWritten (history ++ more) ref).Pairwise (· < ·) := by
    rw [hk]
    exact List.pairwise_lt_range'
  refine ⟨pre, chunk, post ++ more, hsplit, ho, hgiven, hfull, hpre, ?_, hbelow⟩
  rw [hsplit, numbersWritten_split ho, pairwise_append] at hsorted
  intro hn
  exact Nat.lt_irrefl n ((pairwise_cons.mp hsorted.2.1).1 n hn)

theorem delivered_of_believable {s : Session} {n : Nat} {data : Bytes} {paste : Bool}
    {now : Instant} {outcome : Outcome} (h : Counted s ref)
    (hb : Believable s ref (.input ref n data paste now outcome))
    (hok : (s.input ref n data paste now outcome).1 = .ok ()) :
    ∃ given, Delivered (s.input ref n data paste now outcome).2.history ref n given := by
  have h' : Counted (s.input ref n data paste now outcome).2 ref :=
    counted_after h (.input ref n data paste now outcome)
  rw [delivered_iff h'.inOrder]
  cases s.input_cases ref n data paste now outcome with
  | inl hw =>
    obtain ⟨_, hcur, hseq, _, _, hres, _, hh⟩ := hw
    have hwhole : outcome = .whole := by
      rw [hres] at hok
      cases outcome <;> first | rfl | cases hok
    obtain ⟨hn, hcut⟩ := hb rfl hcur
    rw [hh, numbersWritten_wrote]
    refine ⟨by omega, ?_, ?_⟩
    · rw [length_append, h.last (current_of_lapse hcur)]
      simp [hseq]
    · intro ⟨c, m, hc, hco, hm, hshort⟩
      cases mem_append.mp hc with
      | inl hc => exact hcut ⟨c, m, hc, hco, hm, hshort⟩ (Or.inr ⟨hseq, hwhole⟩)
      | inr hc =>
        cases mem_singleton.mp hc
        rw [hwhole] at hshort
        exact hshort rfl
  | inr hk =>
    obtain ⟨_, hh, hiff, _⟩ := hk
    obtain ⟨hcur, hle⟩ := hiff.mp hok
    obtain ⟨hn, hcut⟩ := hb rfl hcur
    rw [hh, h.last (current_of_lapse hcur)]
    exact ⟨by omega, hle, fun hs => hcut hs (Or.inl hle)⟩

theorem not_delivered {s : Session} {n : Nat} {data : Bytes} {paste : Bool} {now : Instant}
    {outcome : Outcome} (h : Counted s ref)
    (hb : ¬ Believable s ref (.input ref n data paste now outcome)) :
    (s.input ref n data paste now outcome).1 = .ok () ∧
      ¬ ∃ given, Delivered (s.input ref n data paste now outcome).2.history ref n given := by
  simp only [Believable, true_implies, Classical.not_imp, not_and_or, not_not] at hb
  obtain ⟨hcur, hb⟩ := hb
  have h' : Counted (s.input ref n data paste now outcome).2 ref :=
    counted_after h (.input ref n data paste now outcome)
  rw [delivered_iff h'.inOrder]
  cases s.input_cases ref n data paste now outcome with
  | inl hw =>
    obtain ⟨_, _, hseq, _, _, hres, _, hh⟩ := hw
    cases hb with
    | inl h0 => omega
    | inr hb =>
      obtain ⟨⟨c, m, hc, hco, hm, hshort⟩, hanswered⟩ := hb
      have hwhole : outcome = .whole := by
        cases hanswered with
        | inl hle => omega
        | inr hw => exact hw.2
      refine ⟨by rw [hres, hwhole]; rfl, fun hd => hd.2.2 ⟨c, m, ?_, hco, hm, hshort⟩⟩
      rw [hh]
      exact mem_append_left _ hc
  | inr hk =>
    obtain ⟨_, hh, hiff, hnext⟩ := hk
    have hle : n ≤ s.control.taken := by
      cases hb with
      | inl h0 => omega
      | inr hb =>
        cases hb.2 with
        | inl hle => exact hle
        | inr hw => exact absurd hw.1 (hnext hcur)
    refine ⟨hiff.mpr ⟨hcur, hle⟩, fun hd => ?_⟩
    cases hb with
    | inl h0 => omega
    | inr hb => exact hd.2.2 (hh ▸ hb.1)

/-- **Every `Ok` under a lease can be believed exactly when every call was believable**,
    whatever writes fail. -/
theorem delivered_exactly_once_iff (holds : Holds) (size : TermSize) (calls : List Call)
    (ref : LeaseRef) :
    ExactlyOnce (Session.new holds size) calls ref ↔
      ∀ pre call post, calls = pre ++ call :: post →
        Believable ((Session.new holds size).afterAll pre) ref call := by
  have hcount := fun pre => counted (counted_new holds size ref) pre
  constructor
  · intro h pre call post hcalls
    cases call with
    | input r n data paste now outcome =>
      by_cases hr : r = ref
      · subst hr
        by_contra hb
        obtain ⟨hok, hnot⟩ := not_delivered (hcount pre) hb
        obtain ⟨given, _, hd, _⟩ := h pre n data paste now outcome post hcalls hok
        exact hnot ⟨given, hd⟩
      · exact fun heq => absurd heq hr
    | _ => trivial
  · intro hb pre n data paste now outcome post hcalls hok
    obtain ⟨given, hd⟩ := delivered_of_believable (hcount pre) (hb pre _ post hcalls) hok
    obtain ⟨more, hmore⟩ := history_afterAll
      ((Call.input ref n data paste now outcome).after ((Session.new holds size).afterAll pre)) post
    have hgrown : ((Session.new holds size).afterAll calls).history =
        (((Session.new holds size).afterAll pre).input ref n data paste now outcome).2.history ++
          more := by
      rw [hcalls, afterAll_append, afterAll_cons]
      exact hmore
    have hfinal := (hcount calls).inOrder
    rw [hgrown] at hfinal
    have hd' := hd.stays hfinal
    rw [← hgrown] at hd'
    have ⟨before, chunk, after', hh, ho, hgiven, _⟩ := hd'
    have hc : .wrote chunk ∈ ((Session.new holds size).afterAll calls).history := by
      rw [hh]
      exact mem_append_right _ mem_cons_self
    cases given_for hc ho with
    | inl h => cases h
    | inr hg => exact ⟨given, hgiven ▸ hg, hd, hd'⟩

/-- A phone's first input fails after one of its two bytes, and is sent again. -/
def resent : List Call :=
  [ .acquire "a" "phone" false 0, .input ⟨"a", 1⟩ 1 [0x6c, 0x73] false 1 (.cut 1),
    .input ⟨"a", 1⟩ 1 [0x6c, 0x73] false 2 .whole ]

theorem resent_input_is_not_delivered :
    ¬ ExactlyOnce (Session.new Holds.default ⟨80, 24⟩) resent ⟨"a", 1⟩ := by
  intro h
  obtain ⟨given, _, _, pre, chunk, post, hh, ho, hgiven, hfull, _⟩ :=
    h (resent.take 2) 1 [0x6c, 0x73] false 2 .whole [] rfl rfl
  have hmem : Event.wrote chunk ∈ [Event.wrote ⟨.leased ⟨"a", 1⟩ 1, [0x6c, 0x73], [0x6c]⟩] := by
    have : ((Session.new Holds.default ⟨80, 24⟩).afterAll resent).history =
        [Event.wrote ⟨.leased ⟨"a", 1⟩ 1, [0x6c, 0x73], [0x6c]⟩] := by decide
    rw [← this, hh]
    exact mem_append_right _ mem_cons_self
  cases mem_singleton.mp hmem
  cases hgiven
  cases hfull

end Yardsort.Pty
