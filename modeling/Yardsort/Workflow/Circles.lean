import Yardsort.Workflow.Parse
import Yardsort.Lib.Table

/- What is said of steps that wait for each other: exactly where some needs go in a circle, one
   of the circles is named, each step of it after one that needs it (`circle_reported`). -/
namespace Yardsort.Workflow.Checker
open Yardsort.Lib Yardsort.Yaml Relation List

def Waits (steps : List RawStep) (a b : String) : Prop :=
  b ≠ a ∧ b ∈ steps.map (·.id.value) ∧
    ∃ step ∈ steps, step.id.value = a ∧ b ∈ step.needs.map (·.value)

theorem mem_edgesOf {actions : List (String × String)} {id a b : String} {listed : List String}
    {needs : List (Spanned String)} :
    (a, b) ∈ (edgesOf actions id listed needs).value ↔
      a = id ∧ b ≠ id ∧ (actions.lookup b).isSome ∧ b ∉ listed ∧ b ∈ needs.map (·.value) := by
  induction needs generalizing listed with
  | nil => simp [edgesOf]
  | cons need needs ih =>
    rw [edgesOf, map_cons, mem_cons]
    split
    · rw [Checked.value_bind, ih]
      grind
    · split
      -- no such step
      · rename_i hnone
        rw [Option.isNone_iff_eq_none] at hnone
        rw [Checked.value_bind, ih]
        grind
      · rename_i hself hsome
        rw [Bool.not_eq_true, Option.isNone_eq_false_iff] at hsome
        split
        · rw [Checked.value_bind, ih]
          grind
        · rw [Checked.value_bind, Checked.value_pure, mem_cons, ih, Prod.mk.injEq]
          grind

def actionsOf (steps : List RawStep) : List (String × String) :=
  steps.map fun step => (step.id.value, step.action.value)

theorem isSome_lookup {steps : List RawStep} {b : String} :
    ((actionsOf steps).lookup b).isSome ↔ b ∈ steps.map (·.id.value) := by
  induction steps with
  | nil => simp [actionsOf]
  | cons step steps ih =>
    rw [actionsOf, map_cons, map_cons, mem_cons, ← ih, lookup_cons]
    by_cases hb : b = step.id.value
    · simp [hb]
    · rw [beq_false_of_ne hb]
      simp [hb, actionsOf]

theorem edge_iff {steps : List RawStep} {a b : String} :
    Graph.Edge (Checked.each (fun step => edgesOf (actionsOf steps) step.id.value [] step.needs)
      steps).value.flatten a b ↔ Waits steps a b := by
  simp only [Graph.Edge, Checked.value_each, mem_flatten, mem_map, exists_exists_and_eq_and,
    mem_edgesOf, isSome_lookup, Waits]
  grind

theorem graph_problems (steps : List RawStep) (actions : List (String × String)) :
    (graph steps actions).problems =
      (Checked.each (fun s => edgesOf actions s.id.value [] s.needs) steps).problems ++
        match Graph.circle (Checked.each (fun s => edgesOf actions s.id.value [] s.needs)
          steps).value.flatten (steps.map (·.id.value)) with
        | none => []
        | some circle => [problemAt (circleAt steps circle)
            ("These steps wait for each other, so none of them could ever start: " ++
              " → ".intercalate circle ++ ".")] := by
  refine congrArg (_ ++ ·) ?_
  dsimp only
  generalize Graph.circle (_ : List (String × String)) _ = found
  cases found <;> rfl

/-- **What is said of a circle.** Where no needs go in a circle, nothing is said; where some do, the
    steps of one are named, and the first of them is found by its id. -/
theorem circle_reported (steps : List RawStep) :
    let needs := Checked.each (fun s => edgesOf (actionsOf steps) s.id.value [] s.needs) steps
    let problems := (graph steps (actionsOf steps)).problems
    ((∀ v, ¬ TransGen (Waits steps) v v) → problems = needs.problems) ∧
      ((∃ v, TransGen (Waits steps) v v) → ∃ v between,
        (v :: (between ++ [v])).IsChain (Waits steps) ∧
          (steps.find? (·.id.value = v)).isSome ∧
            problems = needs.problems ++ [problemAt (circleAt steps (v :: (between ++ [v])))
              ("These steps wait for each other, so none of them could ever start: " ++
                " → ".intercalate (v :: (between ++ [v])) ++ ".")]) := by
  intro needs problems
  have hedge : Graph.Edge needs.value.flatten = Waits steps := by
    funext a b
    exact propext edge_iff
  have hfrom : ∀ e ∈ needs.value.flatten, e.1 ∈ steps.map (·.id.value) := by
    rintro ⟨a, b⟩ he
    obtain ⟨-, -, step, hstep, rfl, -⟩ := edge_iff.mp he
    exact mem_map_of_mem hstep
  have hto : ∀ e ∈ needs.value.flatten, e.2 ∈ steps.map (·.id.value) := by
    rintro ⟨a, b⟩ he
    exact (edge_iff.mp he).2.1
  have hproblems := graph_problems steps (actionsOf steps)
  cases hfound : Graph.circle needs.value.flatten (steps.map (·.id.value)) with
  | none =>
    have hnone := Graph.circle_none hfrom hfound
    rw [hfound] at hproblems
    rw [Graph.Acyclic, hedge] at hnone
    exact ⟨fun _ => hproblems.trans (append_nil _), fun hv => absurd hv (not_exists.mpr hnone)⟩
  | some circle =>
    obtain ⟨hchain, v, between, rfl⟩ := Graph.circle_isCircle hto hfound
    rw [hfound] at hproblems
    rw [hedge] at hchain
    -- The named circle is itself a walk from `v` to `v`, and its first step is one of the file.
    have hwalk : TransGen (Waits steps) v v :=
      (pairwise_cons.mp (hchain.imp fun _ _ => TransGen.single).pairwise).1 v
        (mem_append_right _ (mem_singleton_self v))
    refine ⟨fun hno => absurd hwalk (hno v), fun _ => ⟨v, between, hchain, ?_, hproblems⟩⟩
    obtain ⟨b, ⟨-, -, step, hstep, hid, -⟩, -⟩ := TransGen.head'_iff.mp hwalk
    exact find?_isSome.mpr ⟨step, hstep, decide_eq_true hid⟩

end Yardsort.Workflow.Checker
