import Yardsort.Pty.Queries

/- What a terminal does with a stream of bytes, read with `Unfinished.step`: the
   actions it completes, one after another.

   Where a query is taken out of the stream, what stood open before it meets what
   comes after it. In the stream as the program printed it the query's `ESC` ended
   what was open. `Mark` is a byte that stays or the place of a query that is gone;
   reading `gone` as that `ESC` does gives the program's own actions, and
   `seamless_iff` says when reading just the bytes that stay gives the same. -/
namespace Yardsort.Pty
open Yardsort.Lib Unfinished

/-- Something a terminal does, once it is complete. `heard` is a sequence's bytes
    without the `DEL`s it ignores, and a string's without what ended it. -/
inductive Action where
  | printed (bytes : Bytes)
  /-- A C0 control is carried out. -/
  | control (byte : UInt8)
  /-- An escape or control sequence is complete. -/
  | completed (bytes heard : Bytes)
  /-- A string is complete: `ESC` or `BEL` ended it. -/
  | string (bytes heard : Bytes)
  /-- A sequence, a string or a character is given up. -/
  | abandoned (bytes : Bytes)
  deriving DecidableEq

/-- Whether the action is one a terminal answers, as `Queries` recognises them. -/
def Action.query : Action → Bool
  | .completed _ heard | .string _ heard =>
    decide (heard.length ≤ MAX_QUERY) && (classify heard).isSome
  | _ => false

def Action.isControl : Action → Bool
  | .control _ => true
  | _ => false

def Action.bytes : Action → Bytes
  | .printed bytes | .completed bytes _ | .string bytes _ | .abandoned bytes => bytes
  | .control byte => [byte]

/-- A terminal between bytes: what is open, its bytes as `Unfinished` keeps them, and
    those among them a sequence hears. -/
structure Viewer where
  state : State
  bytes : Bytes
  heard : Bytes

namespace Viewer

def idle : Viewer := { state := .ground, bytes := [], heard := [] }

/-- What becomes of what is open when `byte` begins afresh: `ESC` completes a string, and
    everything else is given up. -/
def ends (v : Viewer) (byte : UInt8) : List Action :=
  match v.state with
  | .ground => []
  | .string _ => if byte = ESC then [.string v.bytes v.heard] else [.abandoned v.bytes]
  | _ => [.abandoned v.bytes]

/-- What `byte` does where nothing is open. `CAN` and `SUB` only end what is. -/
def begins (byte : UInt8) : Viewer × List Action :=
  if (step .ground byte).1 ≠ .ground then
    ({ state := (step .ground byte).1, bytes := [byte], heard := [byte] }, [])
  else if byte = CAN ∨ byte = SUB then (idle, [])
  else if isControl byte then (idle, [.control byte])
  else (idle, [.printed [byte]])

def finish (v : Viewer) (byte : UInt8) : Action :=
  match v.state with
  | .ground | .utf8 _ => .printed (v.bytes ++ [byte])
  | .string _ => .string (v.bytes ++ [byte]) v.heard
  | _ => .completed (v.bytes ++ [byte]) (v.heard ++ [byte])

def read (v : Viewer) (byte : UInt8) : Viewer × List Action :=
  let (next, restart) := step v.state byte
  if restart then ((begins byte).1, v.ends byte ++ (begins byte).2)
  else if next = .ground then (idle, [v.finish byte])
  else if v.state.inSequence && isControl byte then ({ v with state := next }, [.control byte])
  else
    ({ state := next
       bytes := v.bytes ++ [byte]
       heard := if v.state.inSequence && byte == DEL then v.heard else v.heard ++ [byte] }, [])

def readAll : Viewer → Bytes → Viewer × List Action
  | v, [] => (v, [])
  | v, byte :: rest =>
    (((v.read byte).1.readAll rest).1, (v.read byte).2 ++ ((v.read byte).1.readAll rest).2)

end Viewer

def actions (stream : Bytes) : List Action := (Viewer.idle.readAll stream).2

/-- A byte that stays in a copy without queries, or the place where a query is gone. -/
inductive Mark where
  | stay (byte : UInt8)
  | gone

def staying : List Mark → Bytes
  | [] => []
  | .stay byte :: marks => byte :: staying marks
  | .gone :: marks => staying marks

/-- Read the marks with each query's `ESC` in its place, ending what was open. -/
def Viewer.readMarks : Viewer → List Mark → Viewer × List Action
  | v, [] => (v, [])
  | v, .stay byte :: marks =>
    (((v.read byte).1.readMarks marks).1, (v.read byte).2 ++ ((v.read byte).1.readMarks marks).2)
  | v, .gone :: marks => ((idle.readMarks marks).1, v.ends ESC ++ (idle.readMarks marks).2)

/-- `byte` ends what is open in `state` as an `ESC` does. -/
def resumes (state : State) (byte : UInt8) : Bool :=
  (step state byte).2 &&
    match state with
    | .string _ => byte == ESC
    | _ => true

/-- Wherever a query is gone nothing was open, or the next byte that stays ends what was
    open as the query's `ESC` did. -/
def seamless : State → List Mark → Bool
  | _, [] => true
  | state, .stay byte :: marks => seamless (step state byte).1 marks
  | state, .gone :: marks =>
    (state = .ground || (staying marks).head?.any (resumes state)) && seamless .ground marks

theorem step_restart {s : State} {b : UInt8} (h : (step s b).2 = true) :
    step s b = step .ground b := by
  unfold step at h ⊢
  split
  · rfl
  split
  · rfl
  · cases s with
    | utf8 left =>
      dsimp only at h ⊢
      split
      · rename_i h₁ h₂ h₃
        simp [h₁, h₂, h₃] at h
      · rfl
    | ground => rfl
    | _ => simp_all

theorem step_ground_restart (b : UInt8) : (step .ground b).2 = true := by
  unfold step
  split
  · rfl
  · split <;> rfl

namespace Viewer

/-- A viewer with nothing open keeps nothing. -/
def Tidy (v : Viewer) : Prop := v.state = .ground → v = idle

@[simp] theorem idle_state : idle.state = .ground := rfl
@[simp] theorem idle_ends (b : UInt8) : idle.ends b = [] := rfl

theorem tidy_idle : idle.Tidy := fun _ => rfl

theorem begins_state (b : UInt8) : (begins b).1.state = (step .ground b).1 := by
  unfold begins
  split
  · rfl
  rename_i h
  rw [not_not.mp h]
  split
  · rfl
  · split <;> rfl

theorem begins_tidy (b : UInt8) : (begins b).1.Tidy := by
  unfold begins
  split
  · rename_i h
    exact fun heq => absurd heq h
  · split
    · exact tidy_idle
    · split <;> exact tidy_idle

theorem read_restart {v : Viewer} {b : UInt8} (h : (step v.state b).2 = true) :
    v.read b = ((begins b).1, v.ends b ++ (begins b).2) := by
  simp [read, h]

theorem read_finish {v : Viewer} {b : UInt8} (h : (step v.state b).2 = false)
    (hn : (step v.state b).1 = .ground) : v.read b = (idle, [v.finish b]) := by
  simp [read, h, hn]

theorem read_control {v : Viewer} {b : UInt8} (h : (step v.state b).2 = false)
    (hn : (step v.state b).1 ≠ .ground) (hc : (v.state.inSequence && isControl b) = true) :
    v.read b = ({ v with state := (step v.state b).1 }, [.control b]) := by
  simp [read, h, hn, hc]

theorem read_keep {v : Viewer} {b : UInt8} (h : (step v.state b).2 = false)
    (hn : (step v.state b).1 ≠ .ground) (hc : (v.state.inSequence && isControl b) = false) :
    v.read b =
      ({ state := (step v.state b).1
         bytes := v.bytes ++ [b]
         heard := if v.state.inSequence && b == DEL then v.heard else v.heard ++ [b] }, []) := by
  simp [read, h, hn, hc]

theorem read_idle (b : UInt8) : idle.read b = begins b := by
  rw [read_restart (step_ground_restart b)]
  rfl

@[simp] theorem read_state (v : Viewer) (b : UInt8) :
    (v.read b).1.state = (step v.state b).1 := by
  cases hr : (step v.state b).2 with
  | true => rw [read_restart hr, begins_state, step_restart hr]
  | false =>
    by_cases hn : (step v.state b).1 = .ground
    · rw [read_finish hr hn, hn]; rfl
    · cases hc : (v.state.inSequence && isControl b) with
      | true => rw [read_control hr hn hc]
      | false => rw [read_keep hr hn hc]

theorem read_tidy (v : Viewer) (b : UInt8) : (v.read b).1.Tidy := by
  cases hr : (step v.state b).2 with
  | true => rw [read_restart hr]; exact begins_tidy b
  | false =>
    by_cases hn : (step v.state b).1 = .ground
    · rw [read_finish hr hn]; exact tidy_idle
    · intro heq
      rw [read_state] at heq
      exact absurd heq hn

theorem readMarks_append (v : Viewer) (m m' : List Mark) :
    v.readMarks (m ++ m') =
      (((v.readMarks m).1.readMarks m').1,
        (v.readMarks m).2 ++ ((v.readMarks m).1.readMarks m').2) := by
  induction m generalizing v with
  | nil => rfl
  | cons mark m ih => cases mark <;> simp [readMarks, ih]

theorem readAll_append (v : Viewer) (l l' : Bytes) :
    v.readAll (l ++ l') =
      (((v.readAll l).1.readAll l').1, (v.readAll l).2 ++ ((v.readAll l).1.readAll l').2) := by
  induction l generalizing v with
  | nil => rfl
  | cons b l ih => simp [readAll, ih]

theorem ends_esc {v : Viewer} (h : v.state ≠ .ground) :
    ∃ a, v.ends ESC = [a] ∧ a.isControl = false ∧ a.bytes = v.bytes := by
  unfold ends
  cases hs : v.state with
  | ground => exact absurd hs h
  | string e => exact ⟨_, if_pos rfl, rfl, rfl⟩
  | _ => exact ⟨_, rfl, rfl, rfl⟩

theorem first_action {v : Viewer} {l : Bytes} {a : Action} (h : v.state ≠ .ground)
    (ha : (v.readAll l).2.head? = some a) :
    a.isControl = true ∨ v.bytes.length ≤ a.bytes.length := by
  induction l generalizing v with
  | nil => cases ha
  | cons b l ih =>
    rw [readAll] at ha
    dsimp only at ha
    cases hr : (step v.state b).2 with
    | true =>
      rw [read_restart hr] at ha
      cases hs : v.state with
      | ground => exact absurd hs h
      | string e =>
        refine Or.inr ?_
        rw [ends, hs] at ha
        by_cases hb : b = ESC
        · simp only [hb, if_true, cons_append, List.head?_cons, Option.some.injEq] at ha
          rw [← ha]
          exact Nat.le_refl _
        · simp only [hb, if_false, cons_append, List.head?_cons, Option.some.injEq] at ha
          rw [← ha]
          exact Nat.le_refl _
      | _ =>
        refine Or.inr ?_
        simp only [ends, hs, cons_append, List.head?_cons, Option.some.injEq] at ha
        rw [← ha]
        exact Nat.le_refl _
    | false =>
      by_cases hn : (step v.state b).1 = .ground
      · refine Or.inr ?_
        rw [read_finish hr hn] at ha
        simp only [cons_append, List.head?_cons, Option.some.injEq] at ha
        rw [← ha, finish]
        cases v.state <;> simp [Action.bytes]
      · cases hc : (v.state.inSequence && isControl b) with
        | true =>
          rw [read_control hr hn hc] at ha
          simp only [cons_append, List.head?_cons, Option.some.injEq] at ha
          rw [← ha]
          exact Or.inl rfl
        | false =>
          rw [read_keep hr hn hc] at ha
          cases ih hn ha with
          | inl h => exact Or.inl h
          | inr h =>
            refine Or.inr ?_
            simp only [length_append, length_singleton] at h
            omega

theorem read_resumes {v : Viewer} {b : UInt8} (h : resumes v.state b = true) :
    v.read b = ((idle.read b).1, v.ends ESC ++ (idle.read b).2) := by
  unfold resumes at h
  rw [Bool.and_eq_true] at h
  rw [read_restart h.1, read_idle]
  congr 2
  unfold ends
  cases hs : v.state with
  | string e =>
    rw [hs] at h
    have hb : b = ESC := by simpa using h.2
    simp [hb]
  | _ => rfl

theorem read_not_resumes {v : Viewer} {b : UInt8} {rest : Bytes} (h : v.state ≠ .ground)
    (hr : resumes v.state b = false) : (v.readAll (b :: rest)).2.head? ≠ (v.ends ESC).head? := by
  obtain ⟨x, hx, hxc, hxb⟩ := ends_esc h
  rw [hx, List.head?_cons, readAll]
  dsimp only
  cases hstep : (step v.state b).2 with
  | true =>
    -- a string that is given up, where `ESC` completes it
    rw [read_restart hstep]
    cases hs : v.state with
    | string e =>
      have hb : b ≠ ESC := by
        intro hb
        subst hb
        rw [hs] at hr hstep
        simp [resumes, hstep] at hr
      rw [ends, hs] at hx
      simp only [if_true] at hx
      simp only [ends, hs, hb, if_false, cons_append, List.head?_cons, ne_eq,
        Option.some.injEq]
      intro heq
      rw [← heq] at hx
      simp at hx
    | _ =>
      rw [hs] at hr hstep
      simp [resumes, hstep] at hr
  | false =>
    by_cases hn : (step v.state b).1 = .ground
    -- what is open is completed, with one byte more or as something else
    · rw [read_finish hstep hn]
      simp only [cons_append, List.head?_cons, ne_eq, Option.some.injEq]
      intro heq
      rw [← heq] at hxb
      unfold finish at hxb
      cases hs : v.state <;> rw [hs] at hxb <;> simp [Action.bytes] at hxb
    · cases hc : (v.state.inSequence && isControl b) with
      | true =>
        rw [read_control hstep hn hc]
        simp only [cons_append, List.head?_cons, ne_eq, Option.some.injEq]
        intro heq
        rw [← heq] at hxc
        cases hxc
      | false =>
        -- what is open goes on, and is never again just what it was
        rw [read_keep hstep hn hc, nil_append]
        intro heq
        cases first_action hn heq with
        | inl h => rw [hxc] at h; cases h
        | inr h =>
          rw [hxb, length_append, length_singleton] at h
          omega

/-- **The bytes that stay do what the program's did exactly when nothing they leave
    open goes on.** -/
theorem seamless_iff {v : Viewer} (ht : v.Tidy) (marks : List Mark) :
    (v.readAll (staying marks)).2 = (v.readMarks marks).2 ↔ seamless v.state marks = true := by
  induction marks generalizing v with
  | nil => simp [staying, readAll, readMarks, seamless]
  | cons mark marks ih =>
    cases mark with
    | stay b =>
      simp only [staying, readAll, readMarks, seamless, List.append_cancel_left_eq]
      rw [ih (v.read_tidy b), read_state]
    | gone =>
      simp only [staying, readMarks, seamless, Bool.and_eq_true, Bool.or_eq_true, decide_eq_true_eq]
      by_cases hs : v.state = .ground
      · rw [ht hs, idle_ends, nil_append, ih tidy_idle]
        simp
      · obtain ⟨x, hx, _⟩ := ends_esc hs
        cases hstay : staying marks with
        | nil => simp [readAll, hx, hs]
        | cons b rest =>
          cases hr : resumes v.state b with
          | true =>
            have hall : (v.readAll (b :: rest)).2 = v.ends ESC ++ (idle.readAll (b :: rest)).2 := by
              simp only [readAll, read_resumes hr, append_assoc]
            rw [hall, List.append_cancel_left_eq, ← hstay, ih tidy_idle]
            simp [hstay, hr]
          | false =>
            have hfirst : (v.readAll (b :: rest)).2.head? ≠ (v.ends ESC).head? :=
              read_not_resumes hs hr
            have hne : (v.readAll (b :: rest)).2 ≠ v.ends ESC ++ (idle.readMarks marks).2 := by
              intro heq
              refine hfirst ?_
              rw [heq, hx]
              rfl
            simp [hne, hs, hr]

end Viewer

end Yardsort.Pty
