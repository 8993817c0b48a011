import Mathlib.Algebra.Order.BigOperators.Group.List
import Mathlib.Algebra.Order.Group.Nat
import Yardsort.Workflow.Accepted
import Yardsort.Workflow.Engine

/- What `advance` decides.

   One look at a step is specified once (`decideStep_spec`): the move is for that step, from the
   status it has, to one it may go to, and it comes with one effect exactly when it goes to
   running. A plan is then `Planned` after any number of looks, and what the claims of a plan need
   is read off that: a move lowers the step's weight, so no step moves more than twice and the
   passes end; and where a whole pass decides nothing, the first pending step of the graph, which
   has one because the needs go in no circle, waits for a step that runs or waits itself. -/
namespace Yardsort.Workflow
open Yardsort.Lib Relation

def ways : StepStatus → List StepStatus
  | .pending => [.waiting, .running, .skipped, .failed]
  | .waiting => [.running, .succeeded, .failed, .skipped]
  | _ => []

def Allowed (s t : StepStatus) : Prop := t ∈ ways s

instance (s t : StepStatus) : Decidable (Allowed s t) := inferInstanceAs (Decidable (t ∈ ways s))

/-- The statuses after a move, applied where its step is still in one of those it is for. -/
def Move.apply (status : String → Option StepStatus) (m : Move) : String → Option StepStatus :=
  if (status m.step).any (· ∈ m.from_) then Function.update status m.step (some m.to_) else status

def after (status : String → Option StepStatus) (moves : List Move) : String → Option StepStatus :=
  moves.foldl Move.apply status

/-- A move of a plan: from the status the step has, to one it may go to; and a pending step is
    only begun, not skipped, when all its needs have succeeded. -/
def Legal (w : Workflow) (status : String → Option StepStatus) (m : Move) : Prop :=
  ∃ s, status m.step = some s ∧ m.from_ = [s] ∧ Allowed s m.to_ ∧
    (s = .pending → m.to_ ≠ .skipped →
      ∀ step ∈ w.steps, step.id = m.step → ∀ need ∈ step.needs, status need = some .succeeded)

/-- Every move is legal where the ones before it have been applied. -/
def AllLegal (w : Workflow) : (String → Option StepStatus) → List Move → Prop
  | _, [] => True
  | status, m :: moves => Legal w status m ∧ AllLegal w (m.apply status) moves

/-- How many moves a step may still make. -/
def weight : Option StepStatus → Nat
  | some .pending => 2
  | some .waiting => 1
  | _ => 0

theorem weight_le (s : Option StepStatus) : weight s ≤ 2 := by
  cases s with
  | none => exact Nat.zero_le 2
  | some s => cases s <;> decide

theorem after_append (status : String → Option StepStatus) (moves : List Move) (m : Move) :
    after status (moves ++ [m]) = m.apply (after status moves) := by
  rw [after, foldl_append]
  rfl

variable {w : Workflow} {status : String → Option StepStatus}

theorem AllLegal.append {moves : List Move} {m : Move} (h : AllLegal w status moves)
    (hm : Legal w (after status moves) m) :
    AllLegal w status (moves ++ [m]) := by
  induction moves generalizing status with
  | nil => exact ⟨hm, trivial⟩
  | cons m' moves ih => exact ⟨h.1, ih h.2 hm⟩

theorem AllLegal.mem {moves : List Move} (h : AllLegal w status moves) {m : Move} (hm : m ∈ moves) :
    ∃ s, m.from_ = [s] ∧ Allowed s m.to_ := by
  induction moves generalizing status with
  | nil => cases hm
  | cons m' moves ih =>
    obtain rfl | hm := mem_cons.mp hm
    · obtain ⟨s, -, hfrom, hallowed, -⟩ := h.1
      exact ⟨s, hfrom, hallowed⟩
    · exact ih h.2 hm

theorem Legal.apply {m : Move} (h : Legal w status m) :
    m.apply status = Function.update status m.step (some m.to_) := by
  obtain ⟨s, hs, hfrom, -, -⟩ := h
  rw [Move.apply, if_pos]
  rw [hs, hfrom]
  exact decide_eq_true (mem_singleton_self s)

theorem Legal.weight_lt {m : Move} (h : Legal w status m) :
    weight (some m.to_) < weight (status m.step) := by
  obtain ⟨s, hs, -, hallowed, -⟩ := h
  rw [hs]
  cases s <;> simp only [Allowed, ways, mem_cons, not_mem_nil, or_false] at hallowed
  · obtain h | h | h | h := hallowed <;> rw [h] <;> decide
  · obtain h | h | h | h := hallowed <;> rw [h] <;> decide

/-- **A step moves at most as often as its weight says.** -/
theorem AllLegal.count_le {moves : List Move} (h : AllLegal w status moves) (id : String) :
    (moves.filter (·.step = id)).length + weight (after status moves id) ≤ weight (status id) := by
  induction moves generalizing status with
  | nil => simp [after]
  | cons m moves ih =>
    obtain ⟨hm, hrest⟩ := h
    have hlt := hm.weight_lt
    have ih := ih hrest
    rw [hm.apply] at ih
    show ((m :: moves).filter (·.step = id)).length +
      weight (after (m.apply status) moves id) ≤ weight (status id)
    rw [hm.apply, filter_cons]
    by_cases hid : m.step = id
    · rw [if_pos (decide_eq_true hid), length_cons]
      rw [hid, update_self] at ih
      rw [hid] at hlt ⊢
      omega
    · rw [if_neg (by simpa using hid)]
      rw [update_of_ne (Ne.symm hid)] at ih
      exact ih

structure Moves (id : String) (s : StepStatus) (x : Move × List Effect) : Prop where
  step : x.1.step = id
  from_ : x.1.from_ = [s]
  allowed : Allowed s x.1.to_
  effects : x.2.map Effect.step = if x.1.to_ = .running then [id] else []

theorem moves_skip (id why : String) {s : StepStatus} (h : Allowed s .skipped) :
    Moves id s (skip id s why, []) := ⟨rfl, rfl, h, rfl⟩

theorem moves_fail (id why : String) {s : StepStatus} (h : Allowed s .failed) :
    Moves id s (fail id s why, []) := ⟨rfl, rfl, h, rfl⟩

theorem moves_begin (look : Look) (step : Step) : Moves step.id .pending (beginStep look step) := by
  have hfail : Allowed .pending .failed := by decide
  have hskip : Allowed .pending .skipped := by decide
  have hwait : Allowed .pending .waiting := by decide
  have hrun : Allowed .pending .running := by decide
  unfold beginStep
  dsimp only
  split
  · exact ⟨rfl, rfl, hrun, rfl⟩
  · exact ⟨rfl, rfl, hrun, rfl⟩
  · split
    · exact ⟨rfl, rfl, hwait, rfl⟩
    · exact moves_fail _ _ hfail
  · split
    · split <;> exact moves_skip _ _ hskip
    · split
      · exact moves_skip _ _ hskip
      · split
        · exact ⟨rfl, rfl, hwait, rfl⟩
        · exact ⟨rfl, rfl, hrun, rfl⟩
  · exact ⟨rfl, rfl, hwait, rfl⟩
  · exact ⟨rfl, rfl, hrun, rfl⟩

theorem moves_wait {look : Look} {step : Step} {since : Int} {x : Move × List Effect}
    (h : wait look step since = some x) : Moves step.id .waiting x := by
  have hfail : Allowed .waiting .failed := by decide
  have hskip : Allowed .waiting .skipped := by decide
  have hend : Allowed .waiting .succeeded := by decide
  have hrun : Allowed .waiting .running := by decide
  unfold wait at h
  dsimp only at h
  split at h
  · split at h
    · cases h
      exact ⟨rfl, rfl, hend, rfl⟩
    · split at h
      · cases h
        exact moves_fail _ _ hfail
      · cases h
  · split at h
    · split at h
      · cases h
        exact ⟨rfl, rfl, hend, rfl⟩
      · split at h
        · cases h
          exact moves_fail _ _ hfail
        · cases h
    · split at h
      · cases h
        exact moves_fail _ _ hfail
      · cases h
  · split at h
    · cases h
    · split at h
      · cases h
        exact moves_fail _ _ hfail
      · split at h
        · split at h
          · cases h
            exact moves_fail _ _ hfail
          · cases h
        · split at h <;> obtain rfl := Option.some.inj h
          · exact ⟨rfl, rfl, hend, rfl⟩
          · exact ⟨rfl, rfl, hfail, rfl⟩
  · split at h
    · cases h
    · split at h
      · cases h
        exact moves_skip _ _ hskip
      · split at h
        · cases h
          exact ⟨rfl, rfl, hrun, rfl⟩
        · split at h
          · cases h
            exact moves_fail _ _ hfail
          · cases h
  · cases h

variable {p : Planning}

section
variable {inputs : Inputs} {world : World} {started : String → Option Int}

/-- **What one look at a step decides**: a move for it, from the status it has; a pending step
    whose needs have not all succeeded is at most skipped. -/
theorem decideStep_spec {step : Step} {x : Move × List Effect}
    (h : decideStep inputs world started p step = some x) :
    ∃ s, p.status step.id = some s ∧ Moves step.id s x ∧
      (s = .pending → x.1.to_ ≠ .skipped → ∀ need ∈ step.needs, p.status need = some .succeeded) := by
  unfold decideStep at h
  dsimp only at h
  split at h
  · rename_i hs
    refine ⟨.pending, hs, ?_⟩
    split at h
    · cases h
      exact ⟨moves_skip _ _ (by decide), fun _ hne => absurd rfl hne⟩
    · split at h
      · rename_i hall
        cases h
        refine ⟨moves_begin _ _, fun _ _ need hneed => ?_⟩
        have hn := of_decide_eq_true (all_eq_true.mp hall need hneed)
        rw [Planning.needStatus] at hn
        cases hp : p.status need with
        | none => rw [hp] at hn; cases hn
        | some s => rw [hp] at hn; exact congrArg some hn
      · cases h
  · rename_i hs
    exact ⟨.waiting, hs, moves_wait h, nofun⟩
  · cases h

theorem decideStep_pending {step : Step} (hs : p.status step.id = some .pending)
    (hneeds : ∀ need ∈ step.needs, (p.needStatus need).isFinal = true) :
    decideStep inputs world started p step ≠ none := by
  unfold decideStep
  rw [hs]
  dsimp only
  split
  · nofun
  rename_i hfind
  rw [if_pos]
  · nofun
  · refine all_eq_true.mpr fun need hneed => ?_
    have := List.find?_eq_none.mp hfind need hneed
    simpa [hneeds need hneed] using this

/-! ## Passes -/

/-- The plan so far, from the rows: its moves are legal, its statuses are the rows' after them,
    and it has one effect for each move to running, in the same order. -/
structure Planned (w : Workflow) (status : String → Option StepStatus) (p : Planning) : Prop where
  within : ∀ m ∈ p.moves, m.step ∈ w.steps.map (·.id)
  legal : AllLegal w status p.moves
  status : p.status = after status p.moves
  effects : p.effects.map Effect.step = (p.moves.filter (·.to_ = .running)).map (·.step)

theorem Planned.add (hunique : (w.steps.map (·.id)).Nodup) {step : Step} (hp : Planned w status p)
    (hstep : step ∈ w.steps) {x : Move × List Effect}
    (h : decideStep inputs world started p step = some x) : Planned w status (p.add x.1 x.2) := by
  obtain ⟨s, hs, hm, hneeds⟩ := decideStep_spec h
  have hlegal : Legal w (after status p.moves) x.1 := by
    refine ⟨s, ?_, hm.from_, hm.allowed, ?_⟩
    · rw [← hp.status, hm.step, hs]
    · intro hpending hne other hother hid
      -- ids are unique, so the step of that id is the one looked at
      have : other = step := List.inj_on_of_nodup_map hunique hother hstep (hid.trans hm.step)
      rw [← hp.status, this]
      exact hneeds hpending hne
  refine ⟨?_, hp.legal.append hlegal, ?_, ?_⟩
  · intro m hin
    obtain hin | hin := mem_snoc.mp hin
    · exact hp.within m hin
    · rw [hin, hm.step]
      exact mem_map_of_mem hstep
  · show Function.update p.status x.1.step (some x.1.to_) = after status (p.moves ++ [x.1])
    rw [after_append, hlegal.apply, hp.status]
  · show (p.effects ++ x.2).map Effect.step =
      ((p.moves ++ [x.1]).filter (·.to_ = .running)).map (·.step)
    rw [map_append, filter_append, map_append, hp.effects, hm.effects]
    by_cases hrun : x.1.to_ = .running
    · rw [if_pos hrun, filter_cons_of_pos (by simpa using hrun)]
      simp [hm.step]
    · rw [if_neg hrun, filter_cons_of_neg (by simpa using hrun)]
      rfl

theorem Planned.pass (hunique : (w.steps.map (·.id)).Nodup) {steps : List Step}
    (hsteps : ∀ s ∈ steps, s ∈ w.steps) (hp : Planned w status p) :
    Planned w status (Workflow.pass inputs world started steps p) := by
  induction steps generalizing p with
  | nil => exact hp
  | cons step steps ih =>
    have hrest : ∀ s ∈ steps, s ∈ w.steps := fun s hs => hsteps s (mem_cons_of_mem _ hs)
    rw [Workflow.pass]
    split
    · rename_i change effects h
      exact ih hrest (hp.add hunique (hsteps step (mem_cons_self ..)) h)
    · exact ih hrest hp

theorem length_add (p : Planning) (change : Move) (effects : List Effect) :
    (p.add change effects).moves.length = p.moves.length + 1 := by
  simp [Planning.add]

theorem length_le_pass (steps : List Step) (p : Planning) :
    p.moves.length ≤ (pass inputs world started steps p).moves.length := by
  induction steps generalizing p with
  | nil => exact Nat.le_refl _
  | cons step steps ih =>
    rw [pass]
    split
    · rename_i change effects h
      have := ih (p.add change effects)
      rw [length_add] at this
      omega
    · exact ih p

theorem pass_fixed {steps : List Step}
    (h : (pass inputs world started steps p).moves.length = p.moves.length) :
    pass inputs world started steps p = p ∧
      ∀ step ∈ steps, decideStep inputs world started p step = none := by
  induction steps with
  | nil => exact ⟨rfl, forall_mem_nil _⟩
  | cons step steps ih =>
    rw [pass] at h ⊢
    split at h
    · rename_i change effects hd
      have hle : (p.add change effects).moves.length ≤
          (pass inputs world started steps (p.add change effects)).moves.length :=
        length_le_pass steps _
      rw [length_add] at hle
      omega
    · rename_i hd
      obtain ⟨heq, hall⟩ := ih h
      refine ⟨heq, fun s hs => ?_⟩
      obtain rfl | hs := mem_cons.mp hs
      · exact hd
      · exact hall s hs

def load (ids : List String) (status : String → Option StepStatus) : Nat :=
  (ids.map (fun id => weight (status id))).sum

theorem load_le (ids : List String) (status : String → Option StepStatus) :
    load ids status ≤ 2 * ids.length := by
  induction ids with
  | nil => exact Nat.le_refl 0
  | cons id ids ih =>
    have := weight_le (status id)
    rw [load] at ih
    rw [load, map_cons, sum_cons, length_cons]
    omega

theorem Legal.load_lt {m : Move} {ids : List String} (h : Legal w status m) (hin : m.step ∈ ids) :
    load ids (m.apply status) < load ids status := by
  have hlt := h.weight_lt
  rw [h.apply]
  apply List.sum_lt_sum
  · intro id _
    by_cases hid : id = m.step
    · subst hid
      rw [update_self]
      exact Nat.le_of_lt hlt
    · rw [update_of_ne hid]
  · exact ⟨m.step, hin, by rw [update_self]; exact hlt⟩

theorem AllLegal.length_le {moves : List Move} {ids : List String} (h : AllLegal w status moves)
    (hin : ∀ m ∈ moves, m.step ∈ ids) : moves.length ≤ load ids status := by
  induction moves generalizing status with
  | nil => exact Nat.zero_le _
  | cons m moves ih =>
    have hlt := h.1.load_lt (hin m (mem_cons_self ..))
    have := ih h.2 (fun m' hm' => hin m' (mem_cons_of_mem _ hm'))
    rw [length_cons]
    omega

theorem passes_end (hunique : (w.steps.map (·.id)).Nodup) {fuel : Nat} (hp : Planned w status p)
    (hfuel : load (w.steps.map (·.id)) status < fuel + p.moves.length) :
    ∃ p', passes inputs world started w.steps fuel p = some p' ∧ Planned w status p' ∧
      ∀ step ∈ w.steps, decideStep inputs world started p' step = none := by
  induction fuel generalizing p with
  | zero =>
    have := hp.legal.length_le hp.within
    omega
  | succ fuel ih =>
    rw [passes]
    have hp' : Planned w status (pass inputs world started w.steps p) :=
      hp.pass hunique (fun _ hs => hs)
    split
    · rename_i hlen
      obtain ⟨heq, hall⟩ := pass_fixed hlen
      refine ⟨_, rfl, hp', ?_⟩
      rw [heq]
      exact hall
    · rename_i hlen
      have hle : p.moves.length ≤ (pass inputs world started w.steps p).moves.length :=
        length_le_pass _ _
      exact ih hp' (by omega)

theorem passes_induct {P : Planning → Prop}
    (hadd : ∀ p step x, P p → step ∈ w.steps → decideStep inputs world started p step = some x →
        P (p.add x.1 x.2)) {fuel : Nat} {p' : Planning}
    (h : passes inputs world started w.steps fuel p = some p') (hp : P p) : P p' := by
  have hpass : ∀ steps p, (∀ step ∈ steps, step ∈ w.steps) → P p →
      P (pass inputs world started steps p) := by
    intro steps
    induction steps with
    | nil => exact fun p _ hp => hp
    | cons step steps ih =>
      intro p hin hp
      have hrest : ∀ s ∈ steps, s ∈ w.steps := fun s hs => hin s (mem_cons_of_mem _ hs)
      rw [pass]
      split
      · rename_i change effects hd
        exact ih _ hrest (hadd p step _ hp (hin step (mem_cons_self ..)) hd)
      · exact ih p hrest hp
  induction fuel generalizing p with
  | zero => cases h
  | succ fuel ih =>
    rw [passes] at h
    have hp' := hpass w.steps p (fun _ hs => hs) hp
    split at h
    · cases h
      exact hp'
    · exact ih h hp'

/-- **No run is left stuck.** Where nothing more is decided and some step has not ended, one is
    running or waiting: a pending step none of whose needs is pending waits for it. -/
theorem going_on (hneeds : ∀ s ∈ w.steps, ∀ need ∈ s.needs,
        need ≠ s.id ∧ ∃ t ∈ w.steps, t.id = need) (hacyclic : ∀ id, ¬ TransGen (Needs w) id id)
    (hsome : ∀ s ∈ w.steps, (p.status s.id).isSome)
    (hfix : ∀ step ∈ w.steps, decideStep inputs world started p step = none) {t : Step}
    (ht : t ∈ w.steps) (hopen : (p.status t.id).any StepStatus.isFinal = false) :
    ∃ s ∈ w.steps, p.status s.id = some .running ∨ p.status s.id = some .waiting := by
  by_contra hno
  push Not at hno
  have hpending : ∀ s ∈ w.steps, (p.status s.id).any StepStatus.isFinal = false →
      p.status s.id = some .pending := by
    intro s hs hfinal
    obtain ⟨status, hstatus⟩ := isSome_iff_exists.mp (hsome s hs)
    have hne := hno s hs
    rw [hstatus] at hfinal hne ⊢
    cases status with
    | pending => rfl
    | running => exact absurd rfl hne.1
    | waiting => exact absurd rfl hne.2
    | _ => cases hfinal
  let pending := (w.steps.filter (fun s => p.status s.id = some .pending)).map (·.id)
  have hmem : ∀ {s}, s ∈ w.steps → p.status s.id = some .pending → s.id ∈ pending := fun hs hp =>
    mem_map_of_mem (mem_filter.mpr ⟨hs, decide_eq_true hp⟩)
  have hne : pending ≠ [] := ne_nil_of_mem (hmem ht (hpending t ht hopen))
  obtain ⟨id, hid, hlast⟩ := Graph.exists_last hacyclic hne
  obtain ⟨s, hs, rfl⟩ := mem_map.mp hid
  obtain ⟨hs, hsp⟩ := mem_filter.mp hs
  refine decideStep_pending (of_decide_eq_true hsp) ?_ (hfix s hs)
  intro need hneed
  obtain ⟨-, u, hu, rfl⟩ := hneeds s hs need hneed
  by_contra hfinal
  have hup : p.status u.id = some .pending := by
    apply hpending u hu
    obtain ⟨status, hstatus⟩ := isSome_iff_exists.mp (hsome u hu)
    rw [Planning.needStatus, hstatus, getD_some] at hfinal
    rw [hstatus, any_some]
    exact Bool.eq_false_iff.mpr hfinal
  exact hlast u.id (hmem hu hup) ⟨s, hs, rfl, hneed⟩

end

/-- The rows a run of the workflow can have: as queued, with any moves since, or cancelled. -/
inductive Reached (w : Workflow) : List WorkflowStepRow → Prop
  | queued : Reached w (queuedSteps w)
  | moved {rows : List WorkflowStepRow} (change : Move) (now : Int) (h : Reached w rows) :
    Reached w (moveSteps change now rows)
  | cancelled {rows : List WorkflowStepRow} (now : Int) (h : Reached w rows) :
    Reached w (cancelSteps now rows)

def applyMoves (now : Int) (moves : List Move) (rows : List WorkflowStepRow) :
    List WorkflowStepRow :=
  moves.foldl (fun rows m => moveSteps m now rows) rows

theorem moveSteps_ids (change : Move) (now : Int) (rows : List WorkflowStepRow) :
    (moveSteps change now rows).map (·.stepId) = rows.map (·.stepId) := by
  rw [moveSteps, List.map_map]
  apply map_congr_left
  intro row _
  show (if row.stepId = change.step ∧ row.status ∈ change.from_ then
    row.moved change.to_ change.outputs change.note now else row).stepId = row.stepId
  split <;> rfl

theorem cancelSteps_ids (now : Int) (rows : List WorkflowStepRow) :
    (cancelSteps now rows).map (·.stepId) = rows.map (·.stepId) := by
  rw [cancelSteps, List.map_map]
  apply map_congr_left
  intro row _
  show (if row.status.isFinal then row else
    { row with status := .cancelled, endedAt := some now }).stepId = row.stepId
  split <;> rfl

theorem applyMoves_ids (now : Int) (moves : List Move) (rows : List WorkflowStepRow) :
    (applyMoves now moves rows).map (·.stepId) = rows.map (·.stepId) := by
  induction moves generalizing rows with
  | nil => rfl
  | cons m moves ih => exact (ih (moveSteps m now rows)).trans (moveSteps_ids m now rows)

variable {rows : List WorkflowStepRow}

theorem Reached.ids (h : Reached w rows) :
    rows.map (·.stepId) = w.steps.map (·.id) := by
  induction h with
  | queued => rw [queuedSteps, List.map_map]; rfl
  | moved change now _ ih => rw [moveSteps_ids, ih]
  | cancelled now _ ih => rw [cancelSteps_ids, ih]

theorem statusOf_moveSteps (change : Move) (now : Int) (rows : List WorkflowStepRow) :
    statusOf (moveSteps change now rows) = change.apply (statusOf rows) := by
  funext id
  have hsame : (fun row : WorkflowStepRow => decide (row.stepId = id)) ∘ (fun row =>
      if row.stepId = change.step ∧ row.status ∈ change.from_ then
        row.moved change.to_ change.outputs change.note now else row) =
      fun row => decide (row.stepId = id) := by
    funext row
    show decide ((if _ then _ else row : WorkflowStepRow).stepId = id) = _
    split <;> rfl
  have hfind : statusOf (moveSteps change now rows) id =
      (rows.find? (fun row => row.stepId = id)).map (fun row =>
        if row.stepId = change.step ∧ row.status ∈ change.from_ then change.to_ else row.status) := by
    rw [statusOf, moveSteps, List.find?_map, hsame, Option.map_map]
    congr 1
    funext row
    show (if row.stepId = change.step ∧ row.status ∈ change.from_ then
      row.moved change.to_ change.outputs change.note now else row).status = _
    split <;> rfl
  rw [hfind, Move.apply]
  by_cases hid : id = change.step
  · subst hid
    cases hrow : rows.find? (fun row => row.stepId = change.step) with
    | none => simp [statusOf, hrow]
    | some row =>
      have hrid : row.stepId = change.step := by simpa using List.find?_some hrow
      by_cases hfrom : row.status ∈ change.from_ <;> simp [statusOf, hrow, hrid, hfrom]
  · have hother : (if (statusOf rows change.step).any (· ∈ change.from_) then
        Function.update (statusOf rows) change.step (some change.to_) else statusOf rows) id =
        statusOf rows id := by
      split
      · exact update_of_ne hid ..
      · rfl
    rw [hother]
    cases hrow : rows.find? (fun row => row.stepId = id) with
    | none => simp [statusOf, hrow]
    | some row =>
      have hrid : row.stepId = id := by simpa using List.find?_some hrow
      simp [statusOf, hrow, hrid, hid]

theorem statusOf_applyMoves (now : Int) (moves : List Move) (rows : List WorkflowStepRow) :
    statusOf (applyMoves now moves rows) = after (statusOf rows) moves := by
  induction moves generalizing rows with
  | nil => rfl
  | cons m moves ih =>
    show statusOf (applyMoves now moves (moveSteps m now rows)) =
      after (m.apply (statusOf rows)) moves
    rw [ih, statusOf_moveSteps]

theorem statusOf_mem (hunique : (rows.map (·.stepId)).Nodup) {row : WorkflowStepRow}
    (h : row ∈ rows) : statusOf rows row.stepId = some row.status := by
  cases hfind : rows.find? (fun other => other.stepId = row.stepId) with
  | none =>
    have := List.find?_eq_none.mp hfind row h
    simp at this
  | some other =>
    have hid : other.stepId = row.stepId := by simpa using List.find?_some hfind
    obtain rfl := List.inj_on_of_nodup_map hunique (mem_of_find?_eq_some hfind) h hid
    rw [statusOf, hfind]
    rfl

/-- What `advance` decides for some rows: moves that are legal where the ones before have been
    applied, at most two for a step; one effect for each step moved to running, in order; and with
    the moves applied, the run is finished exactly when every step has ended, and otherwise some
    step is running or waiting. -/
structure Decides (w : Workflow) (rows : List WorkflowStepRow) (plan : Plan) : Prop where
  legal : AllLegal w (statusOf rows) plan.moves
  twice : ∀ id, (plan.moves.filter (·.step = id)).length ≤ 2
  effects : plan.effects.map Effect.step = (plan.moves.filter (·.to_ = .running)).map (·.step)
  once : (plan.effects.map Effect.step).Nodup
  finished : ∀ now, plan.finish.isSome ↔
    ∀ row ∈ applyMoves now plan.moves rows, row.status.isFinal = true
  going : ∀ now, plan.finish = none →
    ∃ row ∈ applyMoves now plan.moves rows, row.status = .running ∨ row.status = .waiting

theorem AllLegal.running_once {moves : List Move} (h : AllLegal w status moves) :
    ((moves.filter (·.to_ = .running)).map (·.step)).Nodup := by
  induction moves generalizing status with
  | nil => exact nodup_nil
  | cons m moves ih =>
    by_cases hrun : m.to_ = .running
    · rw [filter_cons_of_pos (by simpa using hrun), map_cons, nodup_cons]
      refine ⟨?_, ih h.2⟩
      intro hin
      obtain ⟨m', hm', hstep⟩ := mem_map.mp hin
      have hcount := h.2.count_le m.step
      rw [h.1.apply, update_self, hrun] at hcount
      have hmem : m' ∈ moves.filter (·.step = m.step) :=
        mem_filter.mpr ⟨(mem_filter.mp hm').1, decide_eq_true hstep⟩
      have := List.length_pos_of_mem hmem
      simp only [weight] at hcount
      omega
    · rw [filter_cons_of_neg (by simpa using hrun)]
      exact ih h.2

theorem planned_ofRows (w : Workflow) (rows : List WorkflowStepRow) :
    Planned w (statusOf rows) (.ofRows rows) :=
  ⟨forall_mem_nil _, trivial, rfl, rfl⟩

theorem advance_planned (hunique : (w.steps.map (·.id)).Nodup) (rows : List WorkflowStepRow)
    (inputs : Inputs) (world : World) :
    ∃ p, advance w inputs rows world = some (planOf w rows p) ∧ Planned w (statusOf rows) p ∧
      ∀ step ∈ w.steps, decideStep inputs world (startedOf rows) p step = none := by
  have hfuel : load (w.steps.map (·.id)) (statusOf rows) <
      2 * w.steps.length + 1 + (Planning.ofRows rows).moves.length := by
    have := load_le (w.steps.map (·.id)) (statusOf rows)
    rw [length_map] at this
    omega
  have hstart : Planned w (statusOf rows) (.ofRows rows) :=
    ⟨forall_mem_nil _, trivial, rfl, rfl⟩
  obtain ⟨p, hpasses, hp, hfix⟩ := passes_end hunique hstart hfuel
  exact ⟨p, by rw [advance, hpasses]; rfl, hp, hfix⟩

theorem advance_made {inputs : Inputs} {world : World} {plan : Plan} {P : Planning → Prop}
    (hadd : ∀ p step x, P p → step ∈ w.steps →
        decideStep inputs world (startedOf rows) p step = some x → P (p.add x.1 x.2))
    (h : advance w inputs rows world = some plan) (hstart : P (.ofRows rows)) :
    ∃ p, plan = planOf w rows p ∧ P p := by
  rw [advance] at h
  obtain ⟨p, hpasses, rfl⟩ := map_eq_some_iff.mp h
  exact ⟨p, rfl, passes_induct hadd hpasses hstart⟩

theorem Planned.status_row (hp : Planned w (statusOf rows) p)
    (hunique : (rows.map (·.stepId)).Nodup) {now : Int} {row : WorkflowStepRow}
    (h : row ∈ applyMoves now p.moves rows) :
    p.status row.stepId = some row.status := by
  have hids := applyMoves_ids now p.moves rows
  rw [hp.status, ← statusOf_applyMoves now p.moves rows]
  exact statusOf_mem (hids ▸ hunique) h

/-- A plan says a run is finished exactly when its moves leave every step ended. -/
theorem finish_iff (hp : Planned w (statusOf rows) p) (hunique : (rows.map (·.stepId)).Nodup)
    (now : Int) :
    (planOf w rows p).finish.isSome ↔
      ∀ row ∈ applyMoves now p.moves rows, row.status.isFinal = true := by
  have hids := applyMoves_ids now p.moves rows
  have hall : (planOf w rows p).finish.isSome ↔
      ∀ row ∈ rows, (p.status row.stepId).any StepStatus.isFinal = true := by
    rw [planOf]
    dsimp only
    split
    · rename_i hall
      exact iff_of_true rfl (all_eq_true.mp hall)
    · rename_i hall
      exact iff_of_false nofun fun h => hall (all_eq_true.mpr h)
  rw [hall]
  constructor
  · intro h row hrow
    have hin : row.stepId ∈ rows.map (·.stepId) := hids ▸ mem_map_of_mem hrow
    obtain ⟨old, hold, hid⟩ := mem_map.mp hin
    have := h old hold
    rwa [hid, hp.status_row hunique hrow] at this
  · intro h old hold
    have hin : old.stepId ∈ (applyMoves now p.moves rows).map (·.stepId) :=
      hids.symm ▸ mem_map_of_mem hold
    obtain ⟨row, hrow, hid⟩ := mem_map.mp hin
    rw [← hid, hp.status_row hunique hrow]
    exact h row hrow

/-- **A plan moves every run on or waits for something.** For the rows of a run of an accepted
    workflow, in any of the states they can be in, any inputs and any world: `advance` returns,
    and what it returns is legal, complete and leaves the run finished or going. -/
theorem advance_decides (reader : Reader) (text : String) (w : Workflow)
    (h : parse reader text = .ok w) (rows : List WorkflowStepRow) (hrows : Reached w rows)
    (inputs : Inputs) (world : World) :
    ∃ plan, advance w inputs rows world = some plan ∧ Decides w rows plan := by
  obtain ⟨check, raw, edges, hb⟩ := parse_built h
  have hids := hrows.ids
  have hunique : (rows.map (·.stepId)).Nodup := hids ▸ hb.ids_unique
  obtain ⟨p, hadvance, hp, hfix⟩ := advance_planned hb.ids_unique rows inputs world
  refine ⟨_, hadvance, ⟨hp.legal, ?_, hp.effects, ?_, finish_iff hp hunique, ?_⟩⟩
  · intro id
    have hcount := hp.legal.count_le id
    have hle := weight_le (statusOf rows id)
    show (p.moves.filter (·.step = id)).length ≤ 2
    omega
  · show (p.effects.map Effect.step).Nodup
    rw [hp.effects]
    exact hp.legal.running_once
  · intro now hnone
    have hnot : ¬ ∀ row ∈ applyMoves now p.moves rows, row.status.isFinal = true := by
      rw [← finish_iff hp hunique now, hnone]
      nofun
    have hids' := applyMoves_ids now p.moves rows
    -- the rows after the moves are those of the steps, and the other way round
    have hrow : ∀ step ∈ w.steps, ∃ row ∈ applyMoves now p.moves rows, row.stepId = step.id := by
      intro step hstep
      have : step.id ∈ (applyMoves now p.moves rows).map (·.stepId) := by
        rw [hids', hids]
        exact mem_map_of_mem hstep
      exact mem_map.mp this
    push Not at hnot
    obtain ⟨open', hin, hopen⟩ := hnot
    have : open'.stepId ∈ w.steps.map (·.id) := by
      rw [← hids, ← hids']
      exact mem_map_of_mem hin
    obtain ⟨t, ht, htid⟩ := mem_map.mp this
    have hsome : ∀ s ∈ w.steps, (p.status s.id).isSome := by
      intro s hs
      obtain ⟨row, hr, hid⟩ := hrow s hs
      rw [← hid, hp.status_row hunique hr]
      rfl
    have htopen : (p.status t.id).any StepStatus.isFinal = false := by
      rw [htid, hp.status_row hunique hin]
      exact Bool.eq_false_iff.mpr hopen
    obtain ⟨s, hs, hgoing⟩ := going_on hb.needs_named hb.needs_acyclic hsome hfix ht htopen
    obtain ⟨row, hr, hid⟩ := hrow s hs
    refine ⟨row, hr, ?_⟩
    rw [← hid, hp.status_row hunique hr] at hgoing
    exact hgoing.imp Option.some.inj Option.some.inj

def idleWorld : World where
  now := 1000
  session _ := .unknown
  var _ := none
  origin := none
  prActivity _ := none
  testRun _ := none

theorem review_decides :
    ∃ plan, advance review [("who", "claude")] (queuedSteps review) idleWorld = some plan ∧
      Decides review (queuedSteps review) plan :=
  advance_decides reviewReader "" review review_accepted (queuedSteps review) .queued
    [("who", "claude")] idleWorld

end Yardsort.Workflow
