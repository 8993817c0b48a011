import Mathlib.Data.List.Induction
import Yardsort.Pty.Control

/- Sequences of control operations, at any times.

   `apply_cases` says once what any operation can do to the lease in force: keep
   it, end it, or hand out a new one under a freshly generated identifier. The
   rest of the file is read off it: a reference that is not the one in force
   never is again (`not_current_after`), the numbers taken under a reference are
   `1, 2, …, n` (`Numbered`), and `control_disciplined` gathers what a session's
   control promises over a whole sequence.

   Times are whatever the caller passes, in any order. The one assumption is that
   a generated identifier is new: `FreshIds`. -/
namespace Yardsort.Pty

/-- One operation on a control state, with the time it reads. -/
inductive Op where
  | localInput (now : Instant)
  | acquire (fresh name : String) (takeOver : Bool) (now : Instant)
  | renew (ref : LeaseRef) (now : Instant)
  | release (ref : LeaseRef) (now : Instant)
  | input (ref : LeaseRef) (seq : Nat) (now : Instant)
  | check (ref : LeaseRef) (now : Instant)
  | controller (now : Instant)
  | leased (now : Instant)

inductive Answer where
  | took (t : Bool)
  | acquired (r : Except Refusal Lease)
  | renewed (r : Except Refusal Lease)
  | released (r : Bool)
  | delivered (r : Except Refusal Delivery)
  | checked (r : Except Refusal Unit)
  | controller (c : Controller)
  | leased (l : Bool)

def Op.apply (c : Control) : Op → Answer × Control
  | .localInput now => ((.took (c.localInput now).1), (c.localInput now).2)
  | .acquire fresh name takeOver now =>
    (.acquired (c.acquire fresh name takeOver now).1, (c.acquire fresh name takeOver now).2)
  | .renew ref now => (.renewed (c.renew ref now).1, (c.renew ref now).2)
  | .release ref now => (.released (c.release ref now).1, (c.release ref now).2)
  | .input ref seq now => (.delivered (c.input ref seq now).1, (c.input ref seq now).2)
  | .check ref now => (.checked (c.check ref now).1, (c.check ref now).2)
  | .controller now => (.controller (c.controller now).1, (c.controller now).2)
  | .leased now => (.leased (c.leased now).1, (c.leased now).2)

def after (c : Control) (ops : List Op) : Control := ops.foldl (fun c op => (op.apply c).2) c

def Op.presents : Op → Option LeaseRef
  | .renew ref _ | .release ref _ | .input ref _ _ | .check ref _ => some ref
  | _ => none

def Op.generates : Op → Option String
  | .acquire fresh _ _ _ => some fresh
  | _ => none

def Op.mentions (op : Op) : Option String :=
  match op.generates with
  | some id => some id
  | none => op.presents.map LeaseRef.id

/-- A generated identifier is none that was generated or presented before. -/
def FreshIds (ops : List Op) : Prop :=
  ops.Pairwise (fun earlier later => ∀ id, later.generates = some id → earlier.mentions ≠ some id)

def Op.lost (c : Control) (op : Op) : Bool :=
  match (op.apply c).1 with
  | .renewed (.error .lost) | .released false | .delivered (.error .lost)
  | .checked (.error .lost) => true
  | _ => false

/-- The number an operation is answered `Fresh` for, under `ref`. -/
def Op.freshNumber (c : Control) (ref : LeaseRef) (op : Op) : List Nat :=
  match op with
  | .input r seq now =>
    match (c.input r seq now).1 with
    | .ok .fresh => if r = ref then [seq] else []
    | _ => []
  | _ => []

/-- The numbers answered `Fresh` under `ref`, in order. -/
def freshNumbers (c : Control) (ref : LeaseRef) : List Op → List Nat
  | [] => []
  | op :: ops => op.freshNumber c ref ++ freshNumbers (op.apply c).2 ref ops

/-- What `input` answers under a lease in force that has taken `n` numbers. -/
def answerTo (n seq : Nat) : Except Refusal Delivery :=
  if seq ≤ n then .ok .repeated
  else if seq = n + 1 then .ok .fresh
  else .error (.outOfOrder (n + 1) seq)

theorem answerTo_repeat {n seq : Nat} (h : seq ≤ n) : answerTo n seq = .ok .repeated := if_pos h

@[simp] theorem answerTo_next (n : Nat) : answerTo n (n + 1) = .ok .fresh := by
  simp [answerTo]

theorem answerTo_gap {n seq : Nat} (h : ¬ seq ≤ n) (h' : seq ≠ n + 1) :
    answerTo n seq = .error (.outOfOrder (n + 1) seq) := by
  simp [answerTo, h, h']

@[simp] theorem after_nil (c : Control) : after c [] = c := rfl
@[simp] theorem after_cons (c : Control) (op : Op) (ops : List Op) :
    after c (op :: ops) = after (op.apply c).2 ops := rfl

theorem after_append (c : Control) (ops ops' : List Op) :
    after c (ops ++ ops') = after (after c ops) ops' := List.foldl_append ..

theorem freshNumbers_append (c : Control) (ref : LeaseRef) (ops ops' : List Op) :
    freshNumbers c ref (ops ++ ops') =
      freshNumbers c ref ops ++ freshNumbers (after c ops) ref ops' := by
  induction ops generalizing c with
  | nil => rfl
  | cons op ops ih => simp [freshNumbers, ih]

/-! ## What one operation can do -/

variable {c : Control}

namespace Control

def current (c : Control) : Option LeaseRef :=
  match c.state with
  | .leased _ id _ _ => some { id := id, generation := c.generation }
  | _ => none

/-- The last input number taken under the lease in force; 0 before any. -/
def taken (c : Control) : Nat :=
  match c.state with
  | .leased _ _ _ n => n
  | _ => 0

theorem inForce_iff {ref : LeaseRef} :
    c.inForce ref = true ↔ c.current = some ref := by
  cases hs : c.state with
  | leased h id e n => cases ref; simp [inForce, current, hs]
  | _ => simp [inForce, current, hs]

theorem lapse_cases (c : Control) (now : Instant) :
    c.lapse now = c ∨
      c.lapse now = { c with generation := c.generation + 1, state := .nobody } := by
  unfold lapse
  cases c.lapsed now
  · exact Or.inl rfl
  · exact Or.inr rfl

theorem lapse_current (c : Control) (now : Instant) :
    (c.lapse now).current = c.current ∧ (c.lapse now).taken = c.taken ∨
      (c.lapse now).current = none := by
  rcases c.lapse_cases now with h | h
  · rw [h]; exact Or.inl ⟨rfl, rfl⟩
  · rw [h]; exact Or.inr rfl

theorem lapse_generation (c : Control) (now : Instant) :
    c.generation ≤ (c.lapse now).generation := by
  rcases c.lapse_cases now with h | h
  · exact Nat.le_of_eq (by rw [h])
  · rw [h]; exact Nat.le_succ _

@[simp] theorem lapse_holds (c : Control) (now : Instant) : (c.lapse now).holds = c.holds := by
  rcases c.lapse_cases now with h | h <;> rw [h]

theorem lapse_eq {now : Instant} (h : c.lapsed now = false) : c.lapse now = c := by
  simp [lapse, h]

theorem check_cases (c : Control) (ref : LeaseRef) (now : Instant) :
    ((c.lapse now).current = some ref ∧ c.check ref now = (.ok (), c.lapse now)) ∨
      ((c.lapse now).current ≠ some ref ∧ c.check ref now = (.error .lost, c.lapse now)) := by
  unfold check
  by_cases h : (c.lapse now).inForce ref = true
  · exact Or.inl ⟨inForce_iff.mp h, by simp [h]⟩
  · exact Or.inr ⟨fun hc => h (inForce_iff.mpr hc), by simp [h]⟩

theorem current_eq {ref : LeaseRef} (h : c.current = some ref) :
    ∃ name expires, c.state = .leased name ref.id expires c.taken ∧
      c.generation = ref.generation := by
  unfold current at h
  cases hs : c.state with
  | leased name id expires n =>
    rw [hs] at h
    simp only [Option.some.injEq] at h
    subst h
    exact ⟨name, expires, by simp [taken, hs], rfl⟩
  | _ => rw [hs] at h; simp at h

theorem input_current {c : Control} {ref : LeaseRef} {seq : Nat} {now : Instant}
    (h : (c.lapse now).current = some ref) :
    (c.input ref seq now).1 = answerTo (c.lapse now).taken seq ∧
      (c.input ref seq now).2.current = some ref ∧
      (c.input ref seq now).2.generation = (c.lapse now).generation ∧
      (c.input ref seq now).2.taken =
        (if seq = (c.lapse now).taken + 1 then seq else (c.lapse now).taken) := by
  obtain ⟨name, expires, hs, hg⟩ := current_eq h
  rcases c.check_cases ref now with ⟨_, hc⟩ | ⟨hn, _⟩
  · unfold input
    rw [hc]
    generalize c.lapse now = d at *
    simp only [hs]
    by_cases h₁ : seq ≤ d.taken
    · have h₂ : seq ≠ d.taken + 1 := by omega
      rw [if_pos h₁, if_neg h₂]
      exact ⟨(answerTo_repeat h₁).symm, h, rfl, rfl⟩
    · by_cases h₂ : seq = d.taken + 1
      · rw [if_neg h₁, if_neg (not_not_intro h₂), if_pos h₂]
        exact ⟨by rw [h₂, answerTo_next], by simp [current, hg], rfl, rfl⟩
      · rw [if_neg h₁, if_pos h₂, if_neg h₂]
        exact ⟨(answerTo_gap h₁ h₂).symm, h, rfl, rfl⟩
  · exact absurd h hn

theorem input_lost {ref : LeaseRef} {seq : Nat} {now : Instant}
    (h : (c.lapse now).current ≠ some ref) :
    c.input ref seq now = (.error .lost, c.lapse now) := by
  rcases c.check_cases ref now with ⟨hc, _⟩ | ⟨_, hc⟩
  · exact absurd hc h
  · unfold input; rw [hc]

theorem extend_keeps (c : Control) (now : Instant) :
    (c.extend now).current = c.current ∧ (c.extend now).taken = c.taken ∧
      (c.extend now).generation = c.generation ∧ (c.extend now).holds = c.holds := by
  cases hs : c.state <;> simp [extend, current, taken, hs]

theorem acquire_cases (c : Control) (fresh name : String) (takeOver : Bool) (now : Instant) :
    (∃ e, (c.acquire fresh name takeOver now).1 = .error e ∧
        ((c.acquire fresh name takeOver now).2 = c ∨
          (c.acquire fresh name takeOver now).2 = c.lapse now)) ∨
      (∃ lease, (c.acquire fresh name takeOver now).1 = .ok lease ∧
        lease.id = fresh ∧ lease.generation = (c.lapse now).generation + 1 ∧
        (c.acquire fresh name takeOver now).2 =
          { c.lapse now with
            generation := (c.lapse now).generation + 1
            state := .leased name fresh (now + c.holds.lease) 0 }) := by
  unfold acquire
  by_cases hb : badHolder name = true
  · simp [hb]
  · simp only [hb, Bool.false_eq_true, if_false, controller]
    cases hh : (c.lapse now).holder with
    | here => exact Or.inl ⟨_, rfl, Or.inr rfl⟩
    | nobody => exact Or.inr ⟨_, rfl, rfl, rfl, by simp⟩
    | leased other =>
      by_cases ho : (other ≠ name && !takeOver) = true
      · dsimp only
        rw [if_pos ho]
        exact Or.inl ⟨_, rfl, Or.inr rfl⟩
      · dsimp only
        rw [if_neg ho]
        exact Or.inr ⟨_, rfl, rfl, rfl, by simp⟩

theorem input_holds (c : Control) (ref : LeaseRef) (seq : Nat) (now : Instant) :
    (c.input ref seq now).2.holds = c.holds := by
  by_cases hc : (c.lapse now).current = some ref
  · obtain ⟨name, expires, hs, _⟩ := current_eq hc
    rcases c.check_cases ref now with ⟨_, h⟩ | ⟨hn, _⟩
    · unfold input
      rw [h]
      simp only [hs]
      split
      · exact c.lapse_holds now
      · split <;> exact c.lapse_holds now
    · exact absurd hc hn
  · rw [input_lost hc]; exact c.lapse_holds now

end Control

theorem freshNumber_cases (c : Control) (op : Op) (ref : LeaseRef) :
    op.freshNumber c ref = [] ∨
      (∃ now, op = .input ref (c.taken + 1) now ∧ (c.lapse now).current = some ref ∧
        c.current = some ref ∧ op.freshNumber c ref = [c.taken + 1]) := by
  cases op with
  | input r seq now =>
    simp only [Op.freshNumber]
    by_cases hc : (c.lapse now).current = some r
    · have ht : c.current = some r ∧ (c.lapse now).taken = c.taken := by
        rcases c.lapse_current now with ⟨h₁, h₂⟩ | hn
        · exact ⟨h₁ ▸ hc, h₂⟩
        · rw [hn] at hc; cases hc
      rw [(Control.input_current hc).1, ht.2]
      by_cases h₁ : seq ≤ c.taken
      · rw [answerTo_repeat h₁]; exact Or.inl rfl
      · by_cases h₂ : seq = c.taken + 1
        · rw [h₂, answerTo_next]
          by_cases hr : r = ref
          · subst hr
            exact Or.inr ⟨now, rfl, hc, ht.1, by simp⟩
          · exact Or.inl (by simp [hr])
        · rw [answerTo_gap h₁ h₂]; exact Or.inl rfl
    · exact Or.inl (by rw [Control.input_lost hc])
  | _ => exact Or.inl rfl

/-- Nothing moved but the number taken, or the hold ended, or a new lease was
    handed out under the identifier the operation generated. -/
inductive Moved (c c' : Control) (op : Op) : Prop where
  | kept (hc : c'.current = c.current)
      (ht : ∀ ref, c.current = some ref → c'.taken = c.taken + (op.freshNumber c ref).length)
  | ended (hc : c'.current = none)
  | handed (fresh : String) (hg : op.generates = some fresh)
      (hc : c'.current = some { id := fresh, generation := c'.generation })
      (hgen : c.generation < c'.generation) (ht : c'.taken = 0)

theorem lapse_moved (c : Control) (now : Instant) (op : Op)
    (hf : ∀ ref, (c.lapse now).current = some ref → op.freshNumber c ref = []) :
    Moved c (c.lapse now) op := by
  rcases c.lapse_current now with ⟨hc, ht⟩ | hc
  · exact .kept hc (fun ref hr => by rw [hf ref (hc ▸ hr), ht]; rfl)
  · exact .ended hc

/-- **What any operation does to the lease in force.** -/
theorem apply_cases (c : Control) (op : Op) :
    Moved c (op.apply c).2 op ∧ c.generation ≤ (op.apply c).2.generation ∧
      (op.apply c).2.holds = c.holds := by
  have hlapse : ∀ now, (∀ ref, (c.lapse now).current = some ref → op.freshNumber c ref = []) →
      Moved c (c.lapse now) op ∧ c.generation ≤ (c.lapse now).generation ∧
      (c.lapse now).holds = c.holds :=
    fun now hf => ⟨lapse_moved c now op hf, c.lapse_generation now, c.lapse_holds now⟩
  cases op with
  | localInput now =>
    have hg := c.lapse_generation now
    simp only [Op.apply, Control.localInput]
    cases hs : (c.lapse now).state with
    | here last => exact ⟨.ended rfl, hg, c.lapse_holds now⟩
    | nobody
    | leased name id expires n => exact ⟨.ended rfl, Nat.le_succ_of_le hg, c.lapse_holds now⟩
  | acquire fresh name takeOver now =>
    simp only [Op.apply]
    rcases c.acquire_cases fresh name takeOver now with ⟨e, _, h | h⟩ | ⟨lease, _, _, _, h⟩
    · rw [h]
      exact ⟨.kept rfl (fun _ _ => rfl), Nat.le_refl _, rfl⟩
    · rw [h]; exact hlapse now (fun _ _ => rfl)
    · rw [h]
      exact ⟨.handed fresh rfl rfl (Nat.lt_succ_of_le (c.lapse_generation now)) rfl,
        Nat.le_succ_of_le (c.lapse_generation now), c.lapse_holds now⟩
  | renew ref now =>
    simp only [Op.apply, Control.renew]
    rcases c.check_cases ref now with ⟨hc, h⟩ | ⟨_, h⟩
    · rw [h]
      obtain ⟨hm, hgen, hholds⟩ := hlapse now (fun _ _ => rfl)
      obtain ⟨hx₁, hx₂, hx₃, hx₄⟩ := (c.lapse now).extend_keeps now
      refine ⟨?_, ?_, ?_⟩
      · cases hm with
        | kept h₁ h₂ => exact .kept (hx₁.trans h₁) (fun r hr => hx₂.trans (h₂ r hr))
        | ended h₁ => rw [h₁] at hc; cases hc
        | handed fresh h₁ => cases h₁
      · show c.generation ≤ ((c.lapse now).extend now).generation
        rw [hx₃]; exact hgen
      · show ((c.lapse now).extend now).holds = c.holds
        rw [hx₄]; exact hholds
    · rw [h]; exact hlapse now (fun _ _ => rfl)
  | release ref now =>
    simp only [Op.apply, Control.release]
    rcases c.check_cases ref now with ⟨_, h⟩ | ⟨_, h⟩
    · rw [h]
      exact ⟨.ended rfl, Nat.le_succ_of_le (c.lapse_generation now), c.lapse_holds now⟩
    · rw [h]; exact hlapse now (fun _ _ => rfl)
  | input ref seq now =>
    simp only [Op.apply]
    by_cases hc : (c.lapse now).current = some ref
    · obtain ⟨ha, h₁, h₂, h₃⟩ := @Control.input_current c ref seq now hc
      refine ⟨?_, h₂ ▸ c.lapse_generation now, c.input_holds ref seq now⟩
      rcases c.lapse_current now with ⟨hcc, htt⟩ | hn
      · refine .kept (by rw [h₁, ← hc, hcc]) (fun r hr => ?_)
        have hrr : r = ref := Option.some.inj (hr.symm.trans (hcc.symm.trans hc))
        subst hrr
        simp only [Op.freshNumber]
        rw [h₃, ha, htt]
        by_cases hle : seq ≤ c.taken
        · rw [answerTo_repeat hle, if_neg (by omega)]; rfl
        · by_cases hs : seq = c.taken + 1
          · rw [hs, answerTo_next]; simp
          · rw [answerTo_gap hle hs, if_neg hs]; rfl
      · rw [hn] at hc; cases hc
    · rw [Control.input_lost hc]
      refine hlapse now (fun r _ => ?_)
      simp only [Op.freshNumber]
      rw [Control.input_lost hc]
  | check ref now =>
    simp only [Op.apply]
    rcases c.check_cases ref now with ⟨_, h⟩ | ⟨_, h⟩ <;> rw [h] <;> exact hlapse now (fun _ _ => rfl)
  | controller now | leased now => exact hlapse now (fun _ _ => rfl)

theorem not_current_after {ref : LeaseRef} {ops : List Op} (hc : c.current ≠ some ref)
    (hg : ∀ op ∈ ops, op.generates ≠ some ref.id) :
    (after c ops).current ≠ some ref := by
  induction ops generalizing c with
  | nil => exact hc
  | cons op ops ih =>
    refine ih ?_ (fun o ho => hg o (List.mem_cons_of_mem op ho))
    cases (apply_cases c op).1 with
    | kept h => rw [h]; exact hc
    | ended h => rw [h]; simp
    | handed fresh h h' =>
      rw [h']
      intro heq
      apply hg op List.mem_cons_self
      rw [h, ← Option.some.inj heq]

/-- An operation under a reference is refused as lost exactly when, a lapsed hold
    ended, the reference is not the one in force; then nothing else changes. -/
theorem lost_iff {c : Control} {op : Op} {ref : LeaseRef} (hp : op.presents = some ref) :
    ∃ now, (op.lost c = true ↔ (c.lapse now).current ≠ some ref) ∧
      (op.lost c = true → (op.apply c).2 = c.lapse now) := by
  cases op with
  | localInput _ | acquire _ _ _ _ | controller _ | leased _ => cases hp
  | renew r now =>
    cases hp
    refine ⟨now, ?_⟩
    simp only [Op.lost, Op.apply, Control.renew]
    rcases c.check_cases ref now with ⟨hc, h⟩ | ⟨hc, h⟩ <;> rw [h] <;> simp [hc]
  | release r now =>
    cases hp
    refine ⟨now, ?_⟩
    simp only [Op.lost, Op.apply, Control.release]
    rcases c.check_cases ref now with ⟨hc, h⟩ | ⟨hc, h⟩ <;> rw [h] <;> simp [hc]
  | check r now =>
    cases hp
    refine ⟨now, ?_⟩
    simp only [Op.lost, Op.apply]
    rcases c.check_cases ref now with ⟨hc, h⟩ | ⟨hc, h⟩ <;> rw [h] <;> simp [hc]
  | input r seq now =>
    cases hp
    refine ⟨now, ?_⟩
    simp only [Op.lost, Op.apply]
    by_cases hc : (c.lapse now).current = some ref
    · rw [(Control.input_current hc).1]
      by_cases h₁ : seq ≤ (c.lapse now).taken
      · rw [answerTo_repeat h₁]; simp [hc]
      · by_cases h₂ : seq = (c.lapse now).taken + 1
        · rw [h₂, answerTo_next]; simp [hc]
        · rw [answerTo_gap h₁ h₂]; simp [hc]
    · rw [Control.input_lost hc]; simp [hc]

theorem lost_stays_lost {op op' : Op} {mid : List Op} {ref : LeaseRef} (hp : op.presents = some ref)
    (hl : op.lost c = true) (hg : ∀ o ∈ mid, o.generates ≠ some ref.id)
    (hp' : op'.presents = some ref) :
    op'.lost (after c (op :: mid)) = true := by
  obtain ⟨now, h, hafter⟩ := @lost_iff c op ref hp
  obtain ⟨now', h', _⟩ := @lost_iff (after c (op :: mid)) op' ref hp'
  have hnot : (after c (op :: mid)).current ≠ some ref := by
    rw [after_cons, hafter hl]
    exact not_current_after (h.mp hl) hg
  apply h'.mpr
  rcases (after c (op :: mid)).lapse_current now' with ⟨hc, _⟩ | hc
  · rw [hc]; exact hnot
  · rw [hc]; simp

/-- What is known of every lease after `ops`: its numbers are `1, 2, …, n`, the
    one in force has taken the last of them, and one nothing has named yet has
    taken none. -/
structure Numbered (c : Control) (ops : List Op) : Prop where
  inOrder : ∀ ref, freshNumbers c ref ops = List.range' 1 (freshNumbers c ref ops).length
  last : ∀ ref, (after c ops).current = some ref →
    (freshNumbers c ref ops).length = (after c ops).taken
  unnamed : ∀ ref, (∀ op ∈ ops, op.mentions ≠ some ref.id) → freshNumbers c ref ops = []

theorem FreshIds.append {ops : List Op} {op : Op} (h : FreshIds (ops ++ [op])) :
    FreshIds ops ∧ ∀ o ∈ ops, ∀ id, op.generates = some id → o.mentions ≠ some id := by
  unfold FreshIds at h ⊢
  rw [List.pairwise_append] at h
  exact ⟨h.1, fun o ho id hid => h.2.2 o ho op List.mem_cons_self id hid⟩

theorem numbered (holds : Holds) (ops : List Op) (hf : FreshIds ops) :
    Numbered (Control.new holds) ops := by
  induction ops using List.reverseRecOn with
  | nil =>
    refine ⟨fun _ => rfl, fun ref h => ?_, fun _ _ => rfl⟩
    simp [Control.current, Control.new] at h
  | append_singleton ops op ih =>
    obtain ⟨hf', hnew⟩ := hf.append
    have ih := ih hf'
    have hlast := ih.last
    generalize hc : after (Control.new holds) ops = c at hlast
    have hsnoc : ∀ ref, freshNumbers (Control.new holds) ref (ops ++ [op]) =
        freshNumbers (Control.new holds) ref ops ++ op.freshNumber c ref := by
      intro ref
      rw [freshNumbers_append, hc]
      simp [freshNumbers]
    have hafter : after (Control.new holds) (ops ++ [op]) = (op.apply c).2 := by
      rw [after_append, hc]; rfl
    refine ⟨?_, ?_, ?_⟩
    · intro ref
      rw [hsnoc]
      rcases freshNumber_cases c op ref with h | ⟨_, _, _, hcur, h⟩
      · rw [h, List.append_nil]; exact ih.inOrder ref
      · rw [h, List.length_append, List.length_singleton, List.range'_1_concat,
          ← ih.inOrder ref, hlast ref hcur, Nat.add_comm]
    · intro ref
      rw [hsnoc, hafter, List.length_append]
      cases (apply_cases c op).1 with
      | kept h ht =>
        intro hcur
        rw [h] at hcur
        rw [ht ref hcur, hlast ref hcur]
      | ended h => intro hcur; rw [h] at hcur; cases hcur
      | handed fresh hg h _ ht =>
        intro hcur
        rw [h, Option.some.injEq] at hcur
        subst hcur
        have hnone : op.freshNumber c ⟨fresh, (op.apply c).2.generation⟩ = [] := by
          cases op <;> first | rfl | cases hg
        rw [ht, hnone, ih.unnamed _ (fun o ho => hnew o ho fresh hg)]
        rfl
    · intro ref hn
      rw [hsnoc, ih.unnamed ref (fun o ho => hn o (List.mem_append_left _ ho))]
      rcases freshNumber_cases c op ref with h | ⟨now, hop, _⟩
      · exact h
      · subst hop
        exact absurd rfl (hn _ (List.mem_append_right _ List.mem_cons_self))

/-- The promises of a session's control over the operations `ops`, applied in
    order from a new state, each at whatever time it reads. -/
structure Disciplined (holds : Holds) (ops : List Op) : Prop where
  /-- The generation never decreases. -/
  generation : ∀ pre post, ops = pre ++ post →
    (after (Control.new holds) pre).generation ≤ (after (Control.new holds) ops).generation
  /-- One lease reference is accepted at a time. -/
  one : ∀ ref ref' now now',
    ((after (Control.new holds) ops).check ref now).1 = .ok () →
    ((after (Control.new holds) ops).check ref' now').1 = .ok () → ref = ref'
  /-- A reference once refused as lost is refused ever after. -/
  lost : ∀ (pre : List Op) (op : Op) (mid : List Op) (op' : Op) post ref,
    ops = pre ++ op :: (mid ++ op' :: post) →
    op.presents = some ref → op.lost (after (Control.new holds) pre) = true →
    op'.presents = some ref →
    op'.lost (after (Control.new holds) (pre ++ op :: mid)) = true
  /-- Nobody acquires while the person here holds control, take-over or not. -/
  personHolds : ∀ last fresh name takeOver now,
    (after (Control.new holds) ops).state = .here last → now - last < holds.here →
    ∃ e, (after (Control.new holds) ops).acquire fresh name takeOver now =
      (.error e, after (Control.new holds) ops)
  /-- Without take-over, a lease in force is not displaced by another holder. -/
  noDisplacing : ∀ other id expires n fresh name now,
    (after (Control.new holds) ops).state = .leased other id expires n → now < expires →
    name ≠ other →
    ∃ e, (after (Control.new holds) ops).acquire fresh name false now =
      (.error e, after (Control.new holds) ops)
  /-- The numbers answered `Fresh` under a lease are `1, 2, …, n`, each once. -/
  numbers : ∀ ref, ∃ n, freshNumbers (Control.new holds) ref ops = List.range' 1 n
  /-- Not refused as lost, an input is answered by its place after those. -/
  answers : ∀ pre ref seq now post, ops = pre ++ Op.input ref seq now :: post →
    (Op.input ref seq now).lost (after (Control.new holds) pre) = false →
    ((after (Control.new holds) pre).input ref seq now).1 =
      answerTo (freshNumbers (Control.new holds) ref pre).length seq

theorem generation_le_after (c : Control) (ops : List Op) :
    c.generation ≤ (after c ops).generation := by
  induction ops generalizing c with
  | nil => exact Nat.le_refl _
  | cons op ops ih => exact Nat.le_trans (apply_cases c op).2.1 (ih _)

theorem after_holds (c : Control) (ops : List Op) : (after c ops).holds = c.holds := by
  induction ops generalizing c with
  | nil => rfl
  | cons op ops ih => rw [after_cons, ih, (apply_cases c op).2.2]

theorem check_ok {ref : LeaseRef} {now : Instant} (h : (c.check ref now).1 = .ok ()) :
    c.current = some ref := by
  rcases c.check_cases ref now with ⟨hc, _⟩ | ⟨_, h'⟩
  · rcases c.lapse_current now with ⟨h₁, _⟩ | h₁
    · exact h₁ ▸ hc
    · rw [h₁] at hc; cases hc
  · rw [h'] at h; cases h

theorem acquire_here {last : Instant} {fresh name : String} {takeOver : Bool} {now : Instant}
    (hs : c.state = .here last) (hn : now - last < c.holds.here) :
    ∃ e, c.acquire fresh name takeOver now = (.error e, c) := by
  have hl : c.lapse now = c := Control.lapse_eq (by simp [Control.lapsed, hs, hn])
  unfold Control.acquire
  by_cases hb : Control.badHolder name = true
  · exact ⟨.badHolder, by simp [hb]⟩
  · exact ⟨.held .here, by simp [hb, Control.controller, hl, Control.holder, hs]⟩

theorem acquire_leased {other id : String} {expires now : Instant} {n : Nat} {fresh name : String}
    (hs : c.state = .leased other id expires n) (hn : now < expires) (hne : name ≠ other) :
    ∃ e, c.acquire fresh name false now = (.error e, c) := by
  have hl : c.lapse now = c := Control.lapse_eq (by simp [Control.lapsed, hs, hn])
  unfold Control.acquire
  by_cases hb : Control.badHolder name = true
  · exact ⟨.badHolder, by simp [hb]⟩
  · exact ⟨.held (.leased other),
      by simp [hb, Control.controller, hl, Control.holder, hs, hne.symm]⟩

/-- **A session's control keeps its promises over every sequence of operations.** -/
theorem control_disciplined (holds : Holds) (ops : List Op) (hf : FreshIds ops) :
    Disciplined holds ops := by
  have hholds : (after (Control.new holds) ops).holds = holds := after_holds _ _
  refine ⟨?_, ?_, ?_, ?_, ?_, ?_, ?_⟩
  · rintro pre post rfl
    rw [after_append]
    exact generation_le_after _ _
  · intro ref ref' now now' h h'
    exact Option.some.inj ((check_ok h).symm.trans (check_ok h'))
  · rintro pre op mid op' post ref rfl hp hl hp'
    rw [after_append]
    refine lost_stays_lost hp hl (fun o ho heq => ?_) hp'
    -- `op` presented the identifier, so nothing after it generates it
    unfold FreshIds at hf
    rw [List.pairwise_append, List.pairwise_cons] at hf
    have hm : op.mentions = some ref.id := by
      unfold Op.mentions
      cases op <;> cases hp <;> rfl
    exact hf.2.1.1 o (List.mem_append_left _ ho) ref.id heq hm
  · intro last fresh name takeOver now hs hn
    exact acquire_here hs (hholds.symm ▸ hn)
  · intro other id expires n fresh name now hs hn hne
    exact acquire_leased hs hn hne
  · intro ref
    exact ⟨_, (numbered holds ops hf).inOrder ref⟩
  · rintro pre ref seq now post rfl hl
    have hpre : FreshIds pre := (List.pairwise_append.mp hf).1
    generalize hc : after (Control.new holds) pre = c at *
    have hcur : (c.lapse now).current = some ref := by
      by_contra hn
      simp [Op.lost, Op.apply, Control.input_lost hn] at hl
    rcases c.lapse_current now with ⟨h₁, h₂⟩ | h₁
    · rw [(Control.input_current hcur).1, h₂, ← hc,
        (numbered holds pre hpre).last ref (by rw [hc, ← h₁]; exact hcur)]
    · rw [h₁] at hcur; cases hcur

/-- A phone types, a tablet takes over, the person here types, and the phone's
    first reference is tried once more. -/
def handover : List Op :=
  [ .acquire "a" "phone" false 0, .input ⟨"a", 1⟩ 1 1, .input ⟨"a", 1⟩ 1 2,
    .acquire "b" "tablet" true 3, .check ⟨"a", 1⟩ 4, .localInput 5, .renew ⟨"a", 1⟩ 6 ]

theorem handover_disciplined : FreshIds handover ∧ Disciplined Holds.default handover := by
  have hfresh : FreshIds handover := by
    simp [FreshIds, handover, Op.generates, Op.mentions, Op.presents]
  exact ⟨hfresh, control_disciplined Holds.default handover hfresh⟩

end Yardsort.Pty
