import Yardsort.Lib.Table
import Yardsort.Server.Commits

/- The calls of `PgRecords` against `MemoryRecords`, one at a time.

   A rotation is placed where its transaction commits, and a use where it is answered;
   one that joined the device's row just before the device was revoked, and took its own
   row just after, is placed before the call that revoked it (`State.Turned.insert`).
   One call at a time has the device's row, and what it read stays right until its commit
   (`Task.Good`), as long as the successor it joined is the one the tables have by then
   (`Task.seesSuccessor`). -/
namespace Yardsort.Server.Credentials
open Yardsort.Lib

/-! ## Calls under way -/

/-- What holds of a call that has the device's row. -/
def Task.Good (t : Tables) : Task → Prop
  | ⟨.rotate refresh _ now, .selected f⟩ => t.Reads refresh now f
  | ⟨.rotate refresh _ now, .wantsAccess f access⟩ =>
    t.Reads refresh now f ∧ f.successorAccess = some access ∧ f.mayRetry now = true
  | ⟨.rotate refresh _ now, .dropping f access⟩ =>
    t.Decides refresh now f true [.access access]
  | ⟨.rotate refresh _ now, .decided f retry locked⟩ => t.Decides refresh now f retry locked
  | _ => True

def Task.joined : Task → Option Device
  | ⟨_, .claiming device⟩ => some device
  | _ => none

/-- The successor that the call's first statement joined, before it waited, is the one the tables
    have when it has the rows, or decides nothing. -/
def Task.seesSuccessor (t : Tables) : Task → Bool
  | ⟨.rotate refresh _ now, .wantsDevice joined⟩ =>
    (t.refresh refresh).all fun r => t.sees r joined now
  | _ => true

namespace Task
variable {t t' : Tables} {free : RowKey → Bool} {task : Task} {access : TokenHash}

theorem good_of_unlocked (h : RowKey.device ∉ task.locks) : task.Good t := by
  unfold Good
  split
  · exact absurd (mem_cons_of_mem _ (mem_cons_self ..)) h
  · exact absurd (mem_cons_of_mem _ (mem_cons_self ..)) h
  · exact absurd (mem_cons_of_mem _ (mem_cons_self ..)) h
  · exact absurd (mem_cons_of_mem _ (mem_cons_self ..)) h
  · trivial

theorem Good.mark (h : task.Good t) (hfree : RowKey.access access ∉ task.locks) :
    task.Good (t.mark access) := by
  unfold Good at h ⊢
  split
  · exact h.mark
  · exact ⟨h.1.mark, h.2⟩
  · refine Tables.Decides.mark h fun hin => hfree ?_
    exact mem_cons_of_mem _ (mem_cons_of_mem _ hin)
  · exact Tables.Decides.mark h fun hin =>
      hfree (mem_cons_of_mem _ (mem_cons_of_mem _ hin))
  · trivial

/-- A call that goes on is still right, takes the device's row only where it is free, and joins
    it as it is. -/
structure Went (t : Tables) (free : RowKey → Bool) (task : Task) (phase : Phase) : Prop where
  good : Good t { task with phase }
  device : RowKey.device ∈ locks { task with phase } →
    RowKey.device ∈ task.locks ∨ free .device = true
  joined : ∀ device, Task.joined { task with phase } = some device → device = t.device.device

theorem went_access {phase phase' : Phase}
    (h : accessMove t free access phase = some (.goes phase')) :
    Went t free ⟨.access access, phase⟩ phase' := by
  unfold accessMove at h
  split at h
  · split at h
    · cases h
    · split at h
      · cases h
      · cases h
        exact ⟨trivial, fun hin => absurd hin not_mem_nil, fun _ hnone => nomatch hnone⟩
  · split at h
    · cases h
    · cases h
      exact ⟨trivial, fun hin => absurd hin not_mem_nil,
        fun _ hsome => (Option.some.inj hsome).symm⟩
  · split at h
    · split at h <;> cases h
    · cases h
  · cases h

theorem decides_of_reads {refresh : TokenHash} {now : Int} {f : Found} {locked : List RowKey}
    (h : t.Reads refresh now f)
    (hno : f.mayRetry now = false ∨ (f.successorAccess.bind t.access).any (!·.used) = false) :
    t.Decides refresh now f false locked := by
  obtain ⟨r, joined, hr, rfl, hsees⟩ := h
  refine ⟨r, joined, hr, rfl, ?_, fun hfalse => absurd hfalse Bool.false_ne_true⟩
  rw [Tables.retries_of_sees hsees]
  obtain hno | hno := hno
  · rw [hno, Bool.false_and]
  · have hunused : t.unusedAccess r = false := hno
    rw [hunused, Bool.and_false]

theorem went_rotate {refresh : TokenHash} {issued : Issued} {now : Int} {phase phase' : Phase}
    (hgood : Good t ⟨.rotate refresh issued now, phase⟩)
    (hsees : seesSuccessor t ⟨.rotate refresh issued now, phase⟩ = true)
    (h : rotateMove t free refresh issued now phase = some (.goes phase')) :
    Went t free ⟨.rotate refresh issued now, phase⟩ phase' := by
  have hhas : ∀ {l : List RowKey} {key : RowKey}, RowKey.device ∈ key :: .device :: l :=
    mem_cons_of_mem _ (mem_cons_self ..)
  unfold rotateMove at h
  split at h
  · split at h
    · cases h
    · cases h
      exact ⟨trivial, fun hin => absurd hin not_mem_nil, fun _ hnone => by cases hnone⟩
  · split at h
    · split at h
      · cases h
      · cases h
        exact ⟨trivial, (fun hin => by cases mem_singleton.mp hin),
          fun _ hnone => by cases hnone⟩
    · cases h
  · rename_i joined
    split at h
    · rename_i hfree
      split at h
      · cases h
      rename_i r hr
      cases h
      refine ⟨⟨r, joined, hr, rfl, ?_⟩, fun _ => .inr hfree, fun _ hnone => by cases hnone⟩
      unfold seesSuccessor at hsees
      dsimp only at hsees
      rwa [hr, all_some] at hsees
    · cases h
  · rename_i f
    split at h
    · rename_i hnone
      cases h
      refine ⟨decides_of_reads hgood ?_, fun _ => .inl hhas, fun _ hnone => by cases hnone⟩
      obtain hno | ⟨access, ha⟩ := Option.eq_none_or_eq_some f.successorAccess
      · exact .inr (by rw [hno]; rfl)
      · rw [ha, Option.filter_some] at hnone
        split at hnone
        · cases hnone
        · rename_i hmay
          exact .inl (Bool.eq_false_iff.mpr hmay)
    · rename_i access hsome
      obtain ⟨ha, hmay⟩ := filter_eq_some_iff.mp hsome
      split at h
      · cases h
        exact ⟨⟨hgood, ha, hmay⟩, fun _ => .inl hhas, fun _ hnone => by cases hnone⟩
      · rename_i habsent
        cases h
        refine ⟨decides_of_reads hgood (.inr ?_), fun _ => .inl hhas, fun _ hnone => by cases hnone⟩
        rw [ha, bind_some, Option.not_isSome_iff_eq_none.mp habsent]
        rfl
  · rename_i f access
    obtain ⟨hreads, ha, hmay⟩ := hgood
    split at h
    · split at h
      · rename_i habsent
        cases h
        refine ⟨decides_of_reads hreads (.inr ?_), fun _ => .inl hhas,
          fun _ hnone => by cases hnone⟩
        rw [ha, bind_some, habsent]
        rfl
      · rename_i row hrow
        split at h
        · rename_i hused
          cases h
          refine ⟨decides_of_reads hreads (.inr ?_), fun _ => .inl hhas,
            fun _ hnone => by cases hnone⟩
          rw [ha, bind_some, hrow, any_some, hused]
          rfl
        · rename_i hunused
          cases h
          refine ⟨?_, fun _ => .inl hhas, fun _ hnone => by cases hnone⟩
          obtain ⟨r, joined, hr, rfl, hjoined⟩ := hreads
          have ha : r.successorAccess = some access := ha
          refine ⟨r, joined, hr, rfl, ?_, fun _ => ⟨access, ha, mem_singleton_self _⟩⟩
          rw [Tables.retries_of_sees hjoined, hmay, Tables.unusedAccess, ha, bind_some, hrow,
            any_some, Bool.eq_false_iff.mpr hunused]
          rfl
    · cases h
  · have hmore : ∀ {locked : List RowKey} {refresh : TokenHash} {f : Found},
        t.Decides refresh now f true locked → ∀ {more : List RowKey}, locked ⊆ more →
        t.Decides refresh now f true more := by
      rintro _ _ _ ⟨r, joined, hr, hf, hretry, hlocked⟩ more hsub
      refine ⟨r, joined, hr, hf, hretry, fun htrue => ?_⟩
      obtain ⟨access, ha, hin⟩ := hlocked htrue
      exact ⟨access, ha, hsub hin⟩
    split at h
    · cases h
      exact ⟨hgood, fun _ => .inl hhas, fun _ hnone => by cases hnone⟩
    · split at h
      · cases h
        refine ⟨hmore hgood ?_, fun _ => .inl hhas, fun _ hnone => by cases hnone⟩
        exact List.cons_subset_cons _ (List.nil_subset _)
      · cases h
  · split at h <;> cases h
  · cases h

theorem move_goes {phase : Phase} (hgood : task.Good t) (hsees : task.seesSuccessor t = true)
    (h : task.move t free = some (.goes phase)) : Went t free task phase := by
  obtain ⟨call, at_⟩ := task
  cases call with
  | access access => exact went_access h
  | rotate refresh issued now => exact went_rotate hgood hsees h

inductive Answers (t : Tables) (free : RowKey → Bool) : Task → Answer → Tables → Prop where
  | absent {access : TokenHash} {phase : Phase} (h : t.access access = none) :
      Answers t free ⟨.access access, phase⟩ (.access none) t
  | used {access : TokenHash} {phase : Phase} {row : Access} (hrow : t.access access = some row)
      (hused : row.used = true) :
      Answers t free ⟨.access access, phase⟩ (.access (some (t.device.device, row.expiresAt))) t
  | claimed {access : TokenHash} {device : Device} {row : Access}
      (hfree : free (.access access) = true) (hrow : t.access access = some row) :
      Answers t free ⟨.access access, .claiming device⟩ (.access (some (device, row.expiresAt)))
        (t.mark access)
  | unknown {refresh : TokenHash} {issued : Issued} {now : Int} {phase : Phase}
      (h : t.refresh refresh = none) :
      Answers t free ⟨.rotate refresh issued now, phase⟩ (.rotation .unknown) t
  | committed {refresh : TokenHash} {issued : Issued} {now : Int} {f : Found} {retry : Bool}
      {locked : List RowKey} {outcome : Rotation} {t' : Tables}
      (h : t.commit refresh issued now f retry = some (outcome, t')) :
      Answers t free ⟨.rotate refresh issued now, .decided f retry locked⟩ (.rotation outcome) t'

theorem move_answers {answer : Answer} (h : task.move t free = some (.answers answer t')) :
    Answers t free task answer t' := by
  obtain ⟨call, phase⟩ := task
  cases call with
  | access access =>
    change accessMove t free access phase = _ at h
    unfold accessMove at h
    split at h
    · split at h
      · rename_i hnone
        cases h
        exact .absent hnone
      · rename_i row hrow
        split at h
        · rename_i hused
          cases h
          exact .used hrow hused
        · cases h
    · split at h
      · rename_i hnone
        cases h
        exact .absent hnone
      · cases h
    · split at h
      · rename_i hfree
        split at h
        · rename_i hnone
          cases h
          exact .absent hnone
        · rename_i row hrow
          cases h
          exact .claimed hfree hrow
      · cases h
    · cases h
  | rotate refresh issued now =>
    change rotateMove t free refresh issued now phase = _ at h
    unfold rotateMove at h
    split at h
    · split at h
      · rename_i hnone
        cases h
        exact .unknown hnone
      · cases h
    · split at h
      · split at h
        · rename_i hnone
          cases h
          exact .unknown hnone
        · cases h
      · cases h
    · split at h
      · split at h
        · rename_i hnone
          cases h
          exact .unknown hnone
        · cases h
      · cases h
    · split at h
      · cases h
      · split at h <;> cases h
    · split at h
      · split at h
        · cases h
        · split at h <;> cases h
      · cases h
    · split at h
      · cases h
      · split at h <;> cases h
    · split at h
      · cases h
      · rename_i outcome t'' hcommit
        cases h
        exact .committed hcommit
    · cases h

end Task

def Database.Act.LastsTill (T : Int) : Database.Act → Prop
  | .call made => made.LastsTill T
  | _ => True

namespace Database
variable {s s' : Database} {t₀ : Tables} {T : Int}

def seesSuccessor (s : Database) : Act → Bool
  | .go i => s.tasks[i]?.all (·.seesSuccessor s.tables)
  | _ => true

theorem free_elim {i : Nat} {row : RowKey} (h : s.free i row = true) {j : Nat} {task : Task}
    (hj : s.tasks[j]? = some task) (hlocked : row ∈ task.locks) : j = i := by
  have hmem : (task, j) ∈ s.tasks.zipIdx := mem_zipIdx_iff_getElem?.mpr hj
  have hone := all_eq_true.mp h _ hmem
  simpa [hlocked] using hone

inductive Took (s : Database) : Act → Database → Prop where
  | called (call : Call) : Took s (.call call) { s with tasks := s.tasks ++ [⟨call, .asked⟩] }
  | went {i : Nat} {task : Task} {phase : Phase} (hi : s.tasks[i]? = some task)
      (hmove : task.move s.tables (s.free i) = some (.goes phase)) :
      Took s (.go i) (s.apply i task (.goes phase))
  | answered {i : Nat} {task : Task} {answer : Answer} {tables : Tables}
      (hi : s.tasks[i]? = some task)
      (hmove : task.move s.tables (s.free i) = some (.answers answer tables)) :
      Took s (.go i) (s.apply i task (.answers answer tables))
  | ended {i : Nat} {task : Task} {act : Act} (hi : s.tasks[i]? = some task) :
      Took s act (s.apply i task .fails)

theorem step_took {act : Act} (h : s.step act = some s') : s.Took act s' := by
  cases act with
  | call call =>
    cases h
    exact .called call
  | go i =>
    obtain ⟨task, hi, hmoved⟩ := bind_eq_some_iff.mp h
    obtain ⟨move, hmove, rfl⟩ := map_eq_some_iff.mp hmoved
    cases move with
    | goes phase => exact .went hi hmove
    | answers answer tables => exact .answered hi hmove
    | fails => exact .ended hi
  | giveUp i =>
    obtain ⟨task, hi, hover⟩ := bind_eq_some_iff.mp h
    split at hover
    · cases hover
    · cases hover
      exact .ended hi

def Joined (s : Database) (device : Device) : Prop :=
  ∃ task ∈ s.tasks, task.joined = some device

/-- What was answered so far is what `MemoryRecords` answers in some order; and a use under way
    has seen the device as it is, or as it was until a call in that order revoked it. -/
def Ordered (m : State) (s : Database) : Prop :=
  ∃ order : List (Call × Answer), order.Perm s.answered ∧
    ((run State.answers m order = some s.tables.records ∧
        ∀ device, s.Joined device → device = s.tables.device.device) ∨
      ∃ old, State.Turned m order old s.tables.records ∧
        ∀ device, s.Joined device → device = s.tables.device.device ∨ device = old)

theorem ordered_start : (start t₀).Ordered t₀.records :=
  ⟨[], .refl _, .inl ⟨rfl, fun _ ⟨_, hin, _⟩ => nomatch hin⟩⟩

theorem Ordered.same {m : State} (h : s.Ordered m) (htables : s'.tables = s.tables)
    (hanswered : s'.answered = s.answered)
    (hjoined : ∀ device, s'.Joined device →
      s.Joined device ∨ device = s.tables.device.device) : s'.Ordered m := by
  obtain ⟨order, hperm, h⟩ := h
  refine ⟨order, hanswered ▸ hperm, ?_⟩
  rw [htables]
  obtain ⟨hrun, hnow⟩ | ⟨old, hturned, hnow⟩ := h
  · exact .inl ⟨hrun, fun device hd => (hjoined device hd).elim (hnow device) id⟩
  · exact .inr ⟨old, hturned, fun device hd => (hjoined device hd).elim (hnow device) .inl⟩

theorem Ordered.snoc {m : State} {entry : Call × Answer} (h : s.Ordered m)
    (hentry : s.tables.records.answers entry = some s'.tables.records)
    (hanswered : s'.answered = s.answered ++ [entry])
    (hdevice : s'.tables.device.device = s.tables.device.device ∨
      s.tables.device.device.revoked = none ∧ s'.tables.device.device.revoked.isSome = true)
    (hjoined : ∀ device, s'.Joined device → s.Joined device) : s'.Ordered m := by
  obtain ⟨order, hperm, h⟩ := h
  refine ⟨order ++ [entry], hanswered ▸ hperm.append_right [entry], ?_⟩
  obtain ⟨hrun, hnow⟩ | ⟨old, hturned, hnow⟩ := h
  · obtain hsame | ⟨hlive, hrevoked⟩ := hdevice
    · refine .inl ⟨run_append.mpr ⟨_, hrun, run_cons.mpr ⟨_, hentry, rfl⟩⟩, fun device hd => ?_⟩
      rw [hsame]
      exact hnow device (hjoined device hd)
    · refine .inr ⟨_, State.turned_of_answers hrun hlive hentry hrevoked, fun device hd => ?_⟩
      exact .inr (hnow device (hjoined device hd))
  · have hsame : s'.tables.device.device = s.tables.device.device :=
      (State.answers_revoked (a := 0) hturned.2.1 hentry).1
    refine .inr ⟨old, hturned.snoc hentry, fun device hd => ?_⟩
    rw [hsame]
    exact hnow device (hjoined device hd)

theorem Ordered.claim {m : State} {access : TokenHash} {device : Device} {row : Access}
    (h : s.Ordered m) (hrow : s.tables.access access = some row) (hseen : s.Joined device)
    (htables : s'.tables = s.tables.mark access)
    (hanswered : s'.answered =
      s.answered ++ [(.access access, .access (some (device, row.expiresAt)))])
    (hjoined : ∀ device, s'.Joined device → s.Joined device) : s'.Ordered m := by
  have hlast (heq : device = s.tables.device.device) : s'.Ordered m := by
    refine h.snoc (State.answers_access.mpr ?_) hanswered (.inl (by rw [htables]; rfl)) hjoined
    have hrow : s.tables.records.access access = some row := hrow
    rw [State.present, hrow, heq, htables]
    exact ⟨rfl, rfl⟩
  obtain ⟨order, hperm, h⟩ := h
  obtain ⟨-, hnow⟩ | ⟨old, hturned, hnow⟩ := h
  · exact hlast (hnow device hseen)
  · obtain heq | rfl := hnow device hseen
    · exact hlast heq
    · obtain ⟨order', hperm', hturned'⟩ := hturned.insert hrow
      refine ⟨order', ?_, .inr ⟨device, ?_, fun other hother => ?_⟩⟩
      · rw [hanswered]
        exact hperm'.trans ((hperm.cons _).trans (List.perm_append_singleton _ _).symm)
      · rw [htables]
        exact hturned'
      · rw [htables]
        exact hnow other (hjoined other hother)

/-! ### What every step keeps -/

/-- The refresh credential an answer says was traded in, and one it says was presented again. -/
def rotatedOf : Call × Answer → Option TokenHash
  | (.rotate refresh _ _, .rotation (.rotated _)) => some refresh
  | _ => none

def retriedOf : Call × Answer → Option TokenHash
  | (.rotate refresh _ _, .rotation (.retried _)) => some refresh
  | _ => none

def returnedOf : Call × Answer → Option TokenHash
  | (.access access, .access (some _)) => some access
  | _ => none

structure Says (t t' : Tables) (entry : Call × Answer) : Prop where
  rotated : ∀ hash, rotatedOf entry = some hash → ¬ t.Spent false hash ∧ t'.Spent false hash
  retried : ∀ hash, retriedOf entry = some hash → ¬ t.Spent true hash ∧ t'.Spent true hash
  returned : ∀ hash, returnedOf entry = some hash → t'.Used hash

theorem says_commits {t t' : Tables} {refresh : TokenHash} {issued : Issued} {now : Int}
    {r : RefreshRow} {outcome : Rotation} (h : t.refresh refresh = some r)
    (hlasts : t.LastsTill T) (hcall : Call.LastsTill T (.rotate refresh issued now))
    (hcommit : t.Commits refresh issued now r outcome t') :
    Says t t' (.rotate refresh issued now, .rotation outcome) := by
  cases hcommit with
  | revoked | reused | expired => exact ⟨nofun, nofun, nofun⟩
  | retried hlive hretry hwrite =>
    refine ⟨nofun, fun hash hhash => ?_, nofun⟩
    cases hhash
    refine ⟨?_, (Tables.retry_keeps h hcall hretry hwrite).2⟩
    rintro ⟨row, hrow, -, hagain⟩
    rw [h] at hrow
    cases hrow
    unfold Tables.retries Found.mayRetry at hretry
    have hretried : r.retried = true := hagain rfl
    simp [Tables.found, hretried] at hretry
  | rotated hlive hspent hcurrent hwrite =>
    refine ⟨fun hash hhash => ?_, nofun, nofun⟩
    cases hhash
    refine ⟨?_, (Tables.spend_keeps h hlasts hcall hspent hwrite).2⟩
    rintro ⟨row, hrow, hrowSpent, -⟩
    rw [h] at hrow
    cases hrow
    rw [hspent] at hrowSpent
    cases hrowSpent

/-- One call at a time has the device's row. -/
def Alone (s : Database) : Prop :=
  ∀ (i j : Nat) (x y : Task), s.tasks[i]? = some x → s.tasks[j]? = some y →
    RowKey.device ∈ x.locks → RowKey.device ∈ y.locks → i = j

/-- What holds of every state of a run that starts with these tables, before `T`. -/
structure Serial (t₀ : Tables) (T : Int) (s : Database) : Prop where
  lasts : s.tables.LastsTill T
  calls : ∀ task ∈ s.tasks, task.call.LastsTill T
  alone : s.Alone
  good : ∀ task ∈ s.tasks, task.Good s.tables
  order : s.Ordered t₀.records
  unspent : t₀.OneUnspent → s.tables.OneUnspent
  rotated : (s.answered.filterMap rotatedOf).Nodup
  rotatedSpent : ∀ hash ∈ s.answered.filterMap rotatedOf, s.tables.Spent false hash
  retried : (s.answered.filterMap retriedOf).Nodup
  retriedSpent : ∀ hash ∈ s.answered.filterMap retriedOf, s.tables.Spent true hash
  returned : ∀ hash ∈ s.answered.filterMap returnedOf, s.tables.Used hash

theorem serial_start (h : t₀.LastsTill T) : Serial t₀ T (start t₀) where
  lasts := h
  calls := fun _ hin => nomatch hin
  alone := fun _ _ _ _ hx => by cases hx
  good := fun _ hin => nomatch hin
  order := ordered_start
  unspent := id
  rotated := nodup_nil
  rotatedSpent := fun _ hin => nomatch hin
  retried := nodup_nil
  retriedSpent := fun _ hin => nomatch hin
  returned := fun _ hin => nomatch hin

section
variable {i : Nat} {task : Task}

theorem mem_set {phase : Phase} {x : Task} (hi : s.tasks[i]? = some task)
    (h : x ∈ s.tasks.set i { task with phase }) :
    x = { task with phase } ∨ ∃ j, j ≠ i ∧ s.tasks[j]? = some x := by
  obtain ⟨j, hj⟩ := mem_iff_getElem?.mp h
  obtain ⟨-, hx⟩ | ⟨hne, hx⟩ := get_set hi hj
  · exact .inl hx
  · exact .inr ⟨j, hne, hx⟩

theorem mem_of_get {j : Nat} {x : Task} (hj : s.tasks[j]? = some x) : x ∈ s.tasks :=
  mem_iff_getElem?.mpr ⟨j, hj⟩

theorem calls_set {phase : Phase} (h : ∀ task ∈ s.tasks, task.call.LastsTill T)
    (hi : s.tasks[i]? = some task) :
    ∀ x ∈ s.tasks.set i { task with phase }, x.call.LastsTill T := by
  intro x hx
  obtain rfl | ⟨j, -, hj⟩ := mem_set hi hx
  · exact h task (mem_of_get hi)
  · exact h x (mem_of_get hj)

theorem Alone.set {phase : Phase} {tables : Tables} {answered : List (Call × Answer)}
    (h : s.Alone) (hi : s.tasks[i]? = some task)
    (hlock : RowKey.device ∈ Task.locks { task with phase } →
      RowKey.device ∈ task.locks ∨ s.free i .device = true) :
    Alone ⟨tables, s.tasks.set i { task with phase }, answered⟩ := by
  have hother : ∀ j x, s.tasks[j]? = some x → RowKey.device ∈ x.locks →
      RowKey.device ∈ Task.locks { task with phase } → j = i := by
    intro j x hj hx hnew
    obtain hold | hfree := hlock hnew
    · exact h j i x task hj hi hx hold
    · exact free_elim hfree hj hx
  intro j k x y hj hk hx hy
  obtain ⟨rfl, rfl⟩ | ⟨-, hj'⟩ := get_set hi hj
  · obtain ⟨rfl, rfl⟩ | ⟨-, hk'⟩ := get_set hi hk
    · rfl
    · exact (hother k y hk' hy hx).symm
  · obtain ⟨rfl, rfl⟩ | ⟨-, hk'⟩ := get_set hi hk
    · exact hother j x hj' hx hy
    · exact h j k x y hj' hk' hx hy

theorem joined_set {phase : Phase} (hi : s.tasks[i]? = some task) {tables : Tables}
    {answered : List (Call × Answer)} {device : Device}
    (h : Joined ⟨tables, s.tasks.set i { task with phase }, answered⟩ device) :
    s.Joined device ∨ Task.joined { task with phase } = some device := by
  obtain ⟨x, hx, hd⟩ := h
  obtain rfl | ⟨j, -, hj⟩ := mem_set hi hx
  · exact .inr hd
  · exact .inl ⟨x, mem_of_get hj, hd⟩

theorem nodup_snoc {of : Call × Answer → Option TokenHash} {again : Bool} {t t' : Tables}
    {answered : List (Call × Answer)} {entry : Call × Answer}
    (hnodup : (answered.filterMap of).Nodup)
    (hspent : ∀ hash ∈ answered.filterMap of, t.Spent again hash)
    (hkeeps : ∀ hash, t.Spent again hash → t'.Spent again hash)
    (hentry : ∀ hash, of entry = some hash → ¬ t.Spent again hash ∧ t'.Spent again hash) :
    ((answered ++ [entry]).filterMap of).Nodup ∧
      ∀ hash ∈ (answered ++ [entry]).filterMap of, t'.Spent again hash := by
  rw [filterMap_append]
  cases hof : of entry with
  | none =>
    rw [filterMap_cons_none hof, filterMap_nil, append_nil]
    exact ⟨hnodup, fun hash hin => hkeeps hash (hspent hash hin)⟩
  | some hash =>
    rw [filterMap_cons_some hof, filterMap_nil]
    obtain ⟨hnew, hnow⟩ := hentry hash hof
    constructor
    · refine nodup_append.mpr ⟨hnodup, List.nodup_singleton hash, fun x hx y hy heq => ?_⟩
      rw [heq, mem_singleton.mp hy] at hx
      exact hnew (hspent hash hx)
    · intro x hx
      obtain hx | hx := mem_snoc.mp hx
      · exact hkeeps x (hspent x hx)
      · rw [hx]
        exact hnow

theorem over_locks : Task.locks { task with phase := .atEnd } = [] := by
  obtain ⟨call, -⟩ := task
  cases call <;> rfl

theorem over_good {t : Tables} : Task.Good t { task with phase := .atEnd } :=
  Task.good_of_unlocked (over_locks ▸ not_mem_nil)

end

theorem Serial.answered (hs : Serial t₀ T s) {i : Nat} {task : Task} {answer : Answer}
    {tables : Tables} (hi : s.tasks[i]? = some task) (hkeeps : s.tables.Keeps T tables)
    (hmeant : Says s.tables tables (task.call, answer))
    (hothers : ∀ j x, j ≠ i → s.tasks[j]? = some x → x.Good tables)
    (horder : (s.apply i task (.answers answer tables)).Ordered t₀.records) :
    Serial t₀ T (s.apply i task (.answers answer tables)) := by
  obtain ⟨hrotated, hrotatedSpent⟩ := nodup_snoc hs.rotated hs.rotatedSpent
    (fun hash => hkeeps.spent false hash) hmeant.rotated
  obtain ⟨hretried, hretriedSpent⟩ := nodup_snoc hs.retried hs.retriedSpent
    (fun hash => hkeeps.spent true hash) hmeant.retried
  refine ⟨hkeeps.lasts hs.lasts, calls_set hs.calls hi, hs.alone.set hi ?_, ?_, horder,
    fun h => hkeeps.unspent (hs.unspent h), hrotated, hrotatedSpent, hretried, hretriedSpent, ?_⟩
  · rw [over_locks]
    exact fun hin => absurd hin not_mem_nil
  · intro x hx
    obtain rfl | ⟨j, hne, hj⟩ := mem_set hi hx
    · exact over_good
    · exact hothers j x hne hj
  · intro hash hin
    have hin : hash ∈ (s.answered ++ [(task.call, answer)]).filterMap returnedOf := hin
    rw [filterMap_append] at hin
    obtain hin | hin := mem_append.mp hin
    · exact hkeeps.used hash (hs.returned hash hin)
    · obtain ⟨entry, hentry, hof⟩ := mem_filterMap.mp hin
      rw [mem_singleton.mp hentry] at hof
      exact hmeant.returned hash hof

theorem Serial.step (hs : Serial t₀ T s) {act : Act} (hlasts : act.LastsTill T)
    (hsees : s.seesSuccessor act = true) (h : s.step act = some s') : Serial t₀ T s' := by
  have hover {i : Nat} {task : Task} {tables : Tables} {answered : List (Call × Answer)}
      (hi : s.tasks[i]? = some task) (device : Device)
      (hd : Joined ⟨tables, s.tasks.set i { task with phase := .atEnd }, answered⟩ device) :
      s.Joined device := (joined_set hi hd).resolve_right nofun
  cases step_took h with
  | called call =>
    refine ⟨hs.lasts, ?_, ?_, ?_, hs.order.same rfl rfl ?_, hs.unspent, hs.rotated,
      hs.rotatedSpent, hs.retried, hs.retriedSpent, hs.returned⟩
    · intro x hx
      obtain hx | hx := mem_snoc.mp hx
      · exact hs.calls x hx
      · exact hx ▸ hlasts
    · have hnone : ∀ (j : Nat) (x : Task), (s.tasks ++ [⟨call, .asked⟩])[j]? = some x →
          RowKey.device ∈ x.locks → s.tasks[j]? = some x := by
        intro j x hj hx
        obtain hj | ⟨-, rfl⟩ := get_append hj
        · exact hj
        · cases call <;> exact absurd hx not_mem_nil
      intro j k x y hj hk hx hy
      exact hs.alone j k x y (hnone j x hj hx) (hnone k y hk hy) hx hy
    · intro x hx
      obtain hx | hx := mem_snoc.mp hx
      · exact hs.good x hx
      · rw [hx]
        cases call <;> trivial
    · rintro device ⟨x, hx, hd⟩
      obtain hx | hx := mem_snoc.mp hx
      · exact .inl ⟨x, hx, hd⟩
      · rw [hx] at hd
        cases hd
  | @went i task phase hi hmove =>
    have hsees : task.seesSuccessor s.tables = true := by
      have hall : s.tasks[i]?.all (·.seesSuccessor s.tables) = true := hsees
      rwa [hi, all_some] at hall
    have hwent := Task.move_goes (hs.good task (mem_of_get hi)) hsees hmove
    refine ⟨hs.lasts, calls_set hs.calls hi, hs.alone.set hi hwent.device, ?_,
      hs.order.same rfl rfl ?_, hs.unspent, hs.rotated, hs.rotatedSpent, hs.retried,
      hs.retriedSpent, hs.returned⟩
    · intro x hx
      obtain rfl | ⟨j, -, hj⟩ := mem_set hi hx
      · exact hwent.good
      · exact hs.good x (mem_of_get hj)
    · exact fun device hd => (joined_set hi hd).imp id (hwent.joined device)
  | @ended i task act hi =>
    refine ⟨hs.lasts, calls_set hs.calls hi, hs.alone.set hi ?_, ?_,
      hs.order.same rfl rfl fun device hd => .inl (hover hi device hd), hs.unspent, hs.rotated,
      hs.rotatedSpent, hs.retried, hs.retriedSpent, hs.returned⟩
    · rw [over_locks]
      exact fun hin => absurd hin not_mem_nil
    · intro x hx
      obtain rfl | ⟨j, -, hj⟩ := mem_set hi hx
      · exact over_good
      · exact hs.good x (mem_of_get hj)
  | @answered i task answer tables hi hmove =>
    have hgood : ∀ j x, j ≠ i → s.tasks[j]? = some x → x.Good s.tables :=
      fun j x _ hj => hs.good x (mem_of_get hj)
    cases Task.move_answers hmove with
    | @absent access phase hnone =>
      refine hs.answered hi (.refl _) ⟨nofun, nofun, nofun⟩ hgood
        (hs.order.snoc (State.answers_access.mpr ?_) rfl (.inl rfl) (hover hi))
      have hnone : s.tables.records.access access = none := hnone
      rw [State.present, hnone]
      exact ⟨rfl, rfl⟩
    | @used access phase row hrow hused =>
      refine hs.answered hi (.refl _) ⟨nofun, nofun, fun hash hhash => ?_⟩ hgood
        (hs.order.snoc (State.answers_access.mpr ?_) rfl (.inl rfl) (hover hi))
      · cases hhash
        exact ⟨row, hrow, hused⟩
      · have hrow : s.tables.records.access access = some row := hrow
        have hsame : s.tables.records.mark access = s.tables.records :=
          State.mark_eq_self fun row' hrow' => by
            rw [hrow] at hrow'
            exact Option.some.inj hrow' ▸ hused
        rw [State.present, hrow]
        exact ⟨rfl, hsame.symm⟩
    | @claimed access device row hfree hrow =>
      refine hs.answered hi Tables.mark_keeps ⟨nofun, nofun, fun hash hhash => ?_⟩ ?_
        (hs.order.claim hrow ⟨_, mem_of_get hi, rfl⟩ rfl rfl (hover hi))
      · cases hhash
        exact ⟨_, some_modify hrow, by rw [if_pos rfl]⟩
      · intro j x hne hj
        exact (hgood j x hne hj).mark fun hlocked => hne (free_elim hfree hj hlocked)
    | @unknown refresh issued now phase hnone =>
      refine hs.answered hi (.refl _) ⟨nofun, nofun, nofun⟩ hgood
        (hs.order.snoc (State.answers_rotate.mpr ?_) rfl (.inl rfl) (hover hi))
      have hnone : s.tables.records.refresh refresh = none := by
        show Option.map RefreshRow.record (s.tables.refresh refresh) = none
        rw [hnone]
        rfl
      rw [State.rotate_unknown hnone]
      exact ⟨rfl, rfl⟩
    | @committed refresh issued now f retry locked outcome tables hcommit =>
      obtain ⟨r, joined, hr, rfl, rfl, -⟩ := hs.good _ (mem_of_get hi)
      have hcall := hs.calls _ (mem_of_get hi)
      have hcommits := Tables.commits hcommit
      have hrotate := hcommits.records hr hs.lasts hcall
      refine hs.answered hi (hcommits.keeps hr hs.lasts hcall)
        (says_commits hr hs.lasts hcall hcommits) ?_
        (hs.order.snoc (State.answers_rotate.mpr ?_) rfl ?_ (hover hi))
      · intro j x hne hj
        refine Task.good_of_unlocked fun hlocked => hne ?_
        exact hs.alone j i x _ hj hi hlocked (mem_cons_of_mem _ (mem_cons_self ..))
      · rw [hrotate]
        exact ⟨rfl, rfl⟩
      · exact hcommits.device hr

/-- What was answered, and the tables, are those of `MemoryRecords` called in some order; no device
    comes to have two refresh credentials it could trade in; each is traded in once and presented
    again once at most; and an access credential that was returned is there from then on. -/
structure OneAtATime (t₀ : Tables) (s : Database) : Prop where
  order : ∃ order : List (Call × Answer), order.Perm s.answered ∧
    run State.answers t₀.records order = some s.tables.records
  unspent : t₀.OneUnspent → s.tables.OneUnspent
  rotated : (s.answered.filterMap rotatedOf).Nodup
  retried : (s.answered.filterMap retriedOf).Nodup
  returned : ∀ hash ∈ s.answered.filterMap returnedOf, s.tables.Used hash

theorem Ordered.order {m : State} (h : s.Ordered m) :
    ∃ order : List (Call × Answer), order.Perm s.answered ∧
      run State.answers m order = some s.tables.records := by
  obtain ⟨order, hperm, ⟨hrun, -⟩ | ⟨old, hturned, -⟩⟩ := h
  · exact ⟨order, hperm, hrun⟩
  · exact ⟨order, hperm, hturned.run⟩

/-- **The calls are served one at a time**, in every run where nothing lapses meanwhile and no
    rotation decides by a successor that has changed since its first statement began. -/
theorem served_one_at_a_time (t₀ : Tables) (T : Int) (acts : List Act) (s : Database)
    (h : run Database.step (start t₀) acts = some s) (hstart : t₀.LastsTill T)
    (hlasts : ∀ act ∈ acts, act.LastsTill T)
    (hsees : Meets Database.step (fun s act => s.seesSuccessor act = true) (start t₀) acts) :
    OneAtATime t₀ s := by
  have hs : Serial t₀ T s :=
    (hsees.and_forall hlasts).invariant (fun _ _ _ hs hc hstep => hs.step hc.2 hc.1 hstep) h
      (serial_start hstart)
  exact ⟨hs.order.order, hs.unspent, hs.rotated, hs.retried, hs.returned⟩

def phoneRow : DeviceRow :=
  { id := "phone"
    account := "alice"
    name := "Phone"
    kind := .phone
    platform := .ios
    createdAt := 0
    lastSeenAt := none
    revokedAt := none
    revokedReason := none }

def enrolled : Tables :=
  { device := phoneRow
    access := Function.update (fun _ => none) 2 (some ⟨1000000, false⟩)
    refresh := Function.update (fun _ => none) 1 (some ⟨1000000, none, none, none, false⟩) }

def trade (refresh refresh' access' : TokenHash) (now : Int) : Act :=
  .call (.rotate refresh ⟨access', 1000000, refresh', 1000000⟩ now)

theorem enrolled_lasts : enrolled.LastsTill 1000000 := by
  constructor
  · intro hash row hrow
    change Function.update (fun _ => none) 2 _ hash = _ at hrow
    obtain ⟨-, hnew⟩ | ⟨-, hnone⟩ := update_some hrow
    · cases hnew
      exact Int.le_refl _
    · cases hnone
  · intro hash row hrow
    change Function.update (fun _ => none) 1 _ hash = _ at hrow
    obtain ⟨-, hnew⟩ | ⟨-, hnone⟩ := update_some hrow
    · cases hnew
      exact Int.le_refl _
    · cases hnone

theorem enrolled_unspent : enrolled.OneUnspent := by
  have honly : ∀ hash row, enrolled.refresh hash = some row → hash = 1 := by
    intro hash row hrow
    change Function.update (fun _ => none) 1 _ hash = _ at hrow
    obtain ⟨hhash, -⟩ | ⟨-, hnone⟩ := update_some hrow
    · exact hhash
    · cases hnone
  intro hash hash' row row' hrow _ hrow' _
  rw [honly hash row hrow, honly hash' row' hrow']

/-- The phone uses its access while it trades in its refresh, and presents that again because the
    answer was lost; the access it never had is used meanwhile, and waits. -/
def lostAnswer : List Act :=
  [trade 1 3 4 10, .call (.access 2), .go 0, .go 1, .go 0, .go 1, .go 0, .go 1, .go 0, .go 0,
    trade 1 5 6 30, .call (.access 4), .go 2, .go 2, .go 2, .go 2, .go 2, .go 3, .go 3, .go 2,
    .go 2, .go 3]

theorem lost_answer_one_at_a_time :
    ∃ s, run Database.step (start enrolled) lostAnswer = some s ∧
      s.answered.map (·.2) =
        [.access (some (phoneRow.device, 1000000)), .rotation (.rotated phoneRow.device),
          .rotation (.retried phoneRow.device), .access none] ∧
      OneAtATime enrolled s := by
  have hrun : (run Database.step (start enrolled) lostAnswer).map (fun s => s.answered.map (·.2)) =
      some [.access (some (phoneRow.device, 1000000)), .rotation (.rotated phoneRow.device),
        .rotation (.retried phoneRow.device), .access none] := by decide +kernel
  have hsees : meets Database.step seesSuccessor (start enrolled) lostAnswer = true := by
    decide +kernel
  have hlasts : ∀ act ∈ lostAnswer, act.LastsTill 1000000 := by
    simp [lostAnswer, trade, Act.LastsTill, Call.LastsTill]
  obtain ⟨s, hs, hanswered⟩ := map_eq_some_iff.mp hrun
  exact ⟨s, hs, hanswered, served_one_at_a_time enrolled 1000000 lostAnswer s hs enrolled_lasts
    hlasts (meets_iff.mp hsees)⟩

/-- After a rotation, its successor is traded in while the first credential is presented again,
    whose first statement begins before the other commits, and waits for the device's row. -/
def crossed : List Act :=
  [trade 1 3 4 10, .go 0, .go 0, .go 0, .go 0, .go 0,
    trade 3 5 6 20, trade 1 7 8 30, .go 1, .go 1, .go 1, .go 2, .go 2, .go 1, .go 1,
    .go 2, .go 2, .go 2, .go 2, .go 2]

/-- Both go through, which no order of the calls explains, and both leave a credential that can be
    traded in. -/
theorem crossed_twice_unspent :
    ∃ s, run Database.step (start enrolled) crossed = some s ∧ enrolled.LastsTill 1000000 ∧
      (∀ act ∈ crossed, act.LastsTill 1000000) ∧ enrolled.OneUnspent ∧
      ¬ s.tables.OneUnspent ∧
      ¬ ∃ order : List (Call × Answer), order.Perm s.answered ∧
        run State.answers enrolled.records order = some s.tables.records := by
  have hrun : (run Database.step (start enrolled) crossed).map
      (fun s => (s.answered, s.tables.refresh 5, s.tables.refresh 7)) =
      some ([(.rotate 1 ⟨4, 1000000, 3, 1000000⟩ 10, .rotation (.rotated phoneRow.device)),
        (.rotate 3 ⟨6, 1000000, 5, 1000000⟩ 20, .rotation (.rotated phoneRow.device)),
        (.rotate 1 ⟨8, 1000000, 7, 1000000⟩ 30, .rotation (.retried phoneRow.device))],
        some ⟨1000000, none, none, none, false⟩, some ⟨1000000, none, none, none, false⟩) := by
    decide +kernel
  have hlasts : ∀ act ∈ crossed, act.LastsTill 1000000 := by
    simp [crossed, trade, Act.LastsTill, Call.LastsTill]
  obtain ⟨s, hs, hs'⟩ := map_eq_some_iff.mp hrun
  obtain ⟨hanswered, hrefresh⟩ := Prod.mk.inj hs'
  obtain ⟨hfive, hseven⟩ := Prod.mk.inj hrefresh
  refine ⟨s, hs, enrolled_lasts, hlasts, enrolled_unspent, ?_, ?_⟩
  · exact fun hone => absurd (hone 5 7 _ _ hfive rfl hseven rfl) (by decide)
  · rintro ⟨order, hperm, hserial⟩
    rw [hanswered] at hperm
    -- no three of these entries, in any order, are answers of `MemoryRecords`
    have hnone : ∀ x ∈ s.answered, ∀ y ∈ s.answered, ∀ z ∈ s.answered,
        (run State.answers enrolled.records [x, y, z]).isNone = true := by
      rw [hanswered]
      decide +kernel
    obtain ⟨x, y, z, rfl⟩ := List.length_eq_three.mp hperm.length_eq
    rw [← hanswered] at hperm
    have hin : ∀ e ∈ [x, y, z], e ∈ s.answered := fun e he => hperm.subset he
    have hnot := hnone x (hin x (by simp)) y (hin y (by simp)) z (hin z (by simp))
    rw [hserial] at hnot
    cases hnot

end Database

end Yardsort.Server.Credentials
