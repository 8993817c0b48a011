import Mathlib.Algebra.Order.Ring.Int
import Mathlib.Tactic.Ring
import Yardsort.Lib.I64
import Yardsort.Schedule.FireRuns

/- The times of an `every`: those at which a schedule comes due, tick after tick (`next_after`,
   `core/src/schedule/when.rs`, with the claims of `tick`, `core/src/schedule/fire.rs`), and those
   that are listed as its next (`upcoming`, `when.rs`).

   A claimed time is the anchor of the next, so all times that a schedule comes due are whole
   steps from its first. `upcoming` has no anchor to begin with and counts from the moment it is
   asked about, so it lists these times only where that moment is one of them. -/
namespace Yardsort.Schedule
open Yardsort.Lib

def stepOf (minutes : Nat) : Int := (max minutes 1 : Nat) * 60000

def OnGrid (step first t : Int) : Prop := ∃ k : Nat, t = first + k * step

section
variable {Z : Type} (c : Calendar Z)

/-- The loop of `upcoming`: each time found is the anchor of the one after it. -/
def upcomingFrom (spec : ScheduleSpec) : Nat → Moment Z → Option Int → Except String (List Int)
  | 0, _, _ => .ok []
  | count + 1, after, anchor =>
    match nextAfter c spec after anchor with
    | .error why => .error why
    | .ok none => .ok []
    | .ok (some next) => (upcomingFrom spec count ⟨next, after.zone⟩ (some next)).map (next :: ·)

def upcoming (spec : ScheduleSpec) (after : Moment Z) (count : Nat) : Except String (List Int) :=
  upcomingFrom c spec count after none

/-- What one tick does of a schedule's time: what it takes, if it has come, and what it leaves. -/
def tickTime (store : Store) (id : String) (now : Moment Z) : Option Int × Store :=
  match (store.dueSchedules now.ms).find? (·.id = id) with
  | none => (none, store)
  | some schedule =>
    match schedule.nextAt with
    | none => (none, store)
    | some dueAt =>
      match claim store schedule dueAt (nextOf c schedule now dueAt) with
      | (true, store) => (some dueAt, store)
      | (false, store) => (none, store)

def tickTimes (store : Store) (id : String) : List (Moment Z) → List (Moment Z × Int) × Store
  | [] => ([], store)
  | now :: nows =>
    match tickTime c store id now with
    | (taken, store) =>
      match tickTimes store id nows with
      | (rest, store) => (((taken.map fun due => (now, due)).toList) ++ rest, store)

end

def Representable (t : Int) : Prop := -8334601228800000 ≤ t ∧ t ≤ 8210266876799999

/-- `next_after` of an `every`, as it is computed. -/
def nextStepI64 (minutes : Nat) (now : Int) (anchor : Option Int) : Option Int :=
  (I64.mul (max minutes 1 : Nat) 60000).bind fun step =>
    match anchor.filter (· ≤ now) with
    | some anchor =>
      (I64.sub now anchor).bind fun since =>
      (I64.div since step).bind fun whole =>
      (I64.add whole 1).bind fun steps =>
      (I64.mul steps step).bind fun ahead => I64.add anchor ahead
    | none => I64.add now step

def lateI64 (now dueAt : Int) : Option Int := I64.sub now dueAt

section
variable {minutes : Nat} {now : Int} {anchor : Option Int}

theorem step_pos : 0 < stepOf minutes := by
  unfold stepOf
  omega

theorem step_lt (h : minutes < 2 ^ 32) : stepOf minutes < 257698037760001 := by
  unfold stepOf
  omega

theorem next_bounds {step anchor now : Int} (hstep : 0 < step) :
    now < anchor + ((now - anchor) / step + 1) * step ∧
      anchor + ((now - anchor) / step + 1) * step ≤ now + step := by
  have hdiv := Int.emod_add_mul_ediv (now - anchor) step
  have hmod := Int.emod_lt_of_pos (now - anchor) hstep
  have hpos := Int.emod_nonneg (now - anchor) (Int.ne_of_gt hstep)
  rw [Int.add_mul, Int.one_mul, Int.mul_comm ((now - anchor) / step)]
  omega

/-- **Nothing overflows** for the times chrono can represent. -/
theorem nextStepI64_eq (hm : minutes < 2 ^ 32) (hnow : Representable now)
    (hanchor : ∀ t ∈ anchor, Representable t) :
    nextStepI64 minutes now anchor = some (nextStep (stepOf minutes) now anchor) := by
  have hpos : 0 < stepOf minutes := step_pos
  have hlt := step_lt hm
  have hstep : I64.mul (max minutes 1 : Nat) 60000 = some (stepOf minutes) :=
    I64.checked_of_fits (I64.fits_iff.mpr (by unfold stepOf at *; omega))
  unfold Representable at hnow hanchor
  unfold nextStepI64 nextStep
  rw [hstep, bind_some]
  cases hfilter : anchor.filter (· ≤ now) with
  | none => exact I64.checked_of_fits (I64.fits_iff.mpr (by omega))
  | some t =>
    obtain ⟨hmem, hle⟩ := filter_eq_some_iff.mp hfilter
    have hle : t ≤ now := of_decide_eq_true hle
    have ht := hanchor t hmem
    have hquot : (now - t).tdiv (stepOf minutes) = (now - t) / stepOf minutes :=
      Int.tdiv_eq_ediv_of_nonneg (by omega)
    have hwhole : 0 ≤ (now - t) / stepOf minutes := Int.ediv_nonneg (by omega) (by omega)
    have hsmall : (now - t) / stepOf minutes ≤ now - t := Int.ediv_le_self _ (by omega)
    obtain ⟨hafter, hwithin⟩ := @next_bounds (stepOf minutes) t now hpos
    simp only [I64.sub, I64.div, I64.add, I64.mul]
    rw [I64.checked_of_fits (I64.fits_iff.mpr (by omega)), bind_some, hquot,
      I64.checked_of_fits (I64.fits_iff.mpr (by omega)), bind_some,
      I64.checked_of_fits (I64.fits_iff.mpr (by omega)), bind_some,
      I64.checked_of_fits (I64.fits_iff.mpr (by omega)), bind_some,
      I64.checked_of_fits (I64.fits_iff.mpr (by omega))]

theorem lateI64_eq {dueAt : Int} (hnow : Representable now) (hdue : Representable dueAt) :
    lateI64 now dueAt = some (now - dueAt) := by
  unfold Representable at hnow hdue
  exact I64.checked_of_fits (I64.fits_iff.mpr (by omega))

end

section
variable {Z : Type} {c : Calendar Z}

/-- An `every` of the store, and its next time. -/
structure Waits (store : Store) (id : String) (minutes : Nat) (due : Option Int) : Prop where
  ids : (store.schedules.map (·.id)).Nodup
  row : ∃ row ∈ store.schedules, row.id = id ∧ row.spec = some (.every minutes) ∧ row.nextAt = due

theorem Waits.updated {store : Store} {id : String} {minutes : Nat} {due due' : Option Int}
    (h : Waits store id minutes due) {when_ : ScheduleRow → Bool} {f : ScheduleRow → ScheduleRow}
    (hid : ∀ row, (f row).id = row.id) (hspec : ∀ row, (f row).spec = row.spec)
    (hnext : ∀ row, (f row).nextAt = due')
    (hwhen : ∀ row ∈ store.schedules, row.id = id → when_ row = true) :
    Waits (store.updateWhere id when_ f).2 id minutes due' := by
  obtain ⟨row, hrow, rfl, hevery, -⟩ := h.row
  constructor
  · have hids : ((store.schedules.map fun r => if r.id = row.id && when_ r then f r else r).map
        (·.id)) = store.schedules.map (·.id) := by
      rw [map_map]
      apply map_congr_left
      intro r _
      show (if _ then f r else r).id = r.id
      split
      · exact hid r
      · rfl
    exact hids ▸ h.ids
  · refine ⟨f row, mem_map.mpr ⟨row, hrow, ?_⟩, hid row, (hspec row).trans hevery, hnext row⟩
    simp [hwhen row hrow rfl]

/-- **One tick**: it leaves the schedule alone, or takes the time it waited for and moves it on. -/
theorem tickTime_waits {store : Store} {id : String} {minutes : Nat} {due : Option Int}
    (h : Waits store id minutes due) (now : Moment Z) :
    ((tickTime c store id now).1 = none ∧ Waits (tickTime c store id now).2 id minutes due) ∨
      ∃ d due', due = some d ∧ d ≤ now.ms ∧ (tickTime c store id now).1 = some d ∧
        Waits (tickTime c store id now).2 id minutes due' ∧
        ∀ next ∈ due', next = nextStep (stepOf minutes) now.ms (some d) := by
  unfold tickTime
  split
  · exact .inl ⟨rfl, h⟩
  rename_i schedule hfound
  have hdue := mem_of_find?_eq_some hfound
  have hid : schedule.id = id := by simpa using List.find?_some hfound
  rw [Store.dueSchedules, List.mem_insertionSort, mem_filter] at hdue
  obtain ⟨hmem, hready⟩ := hdue
  simp only [Bool.and_eq_true, decide_eq_true_eq] at hready
  obtain ⟨⟨henabled, hcome⟩, -⟩ := hready
  obtain ⟨row, hrow, hrowid, hspec, rfl⟩ := h.row
  have hsame : ∀ r ∈ store.schedules, r.id = id → r = row := fun r hr hrid =>
    List.inj_on_of_nodup_map h.ids hr hrow (hrid.trans hrowid.symm)
  obtain rfl := hsame schedule hmem hid
  cases hnext : schedule.nextAt with
  | none =>
    rw [hnext] at h
    exact .inl ⟨rfl, h⟩
  | some d =>
    rw [hnext] at hcome
    have hle : d ≤ now.ms := by simpa using hcome
    obtain rfl := hid
    have hwaits : ∀ r ∈ store.schedules, r.id = schedule.id →
        Store.waitsFor d r = true := by
      intro r hr hrid
      rw [hsame r hr hrid]
      simp [Store.waitsFor, henabled, hnext]
    have hany : store.schedules.any
        (fun r => r.id = schedule.id && Store.waitsFor d r) = true :=
      List.any_eq_true.mpr ⟨schedule, hmem, by simp [hwaits schedule hmem rfl]⟩
    refine .inr ?_
    dsimp only
    have hof : nextOf c schedule now d = nextAfter c (.every minutes) now (some d) := by
      rw [nextOf, hspec]
    rw [hof, nextAfter]
    by_cases hholds : c.holds (nextStep ((max minutes 1 : Nat) * 60000) now.ms (some d)) = true
    · rw [if_pos hholds, claim, Store.claimSchedule, Store.updateWhere, hany]
      refine ⟨d, _, rfl, hle, rfl, h.updated (fun _ => rfl) (fun _ => rfl) (fun _ => rfl) hwaits,
        ?_⟩
      intro next hn
      exact (Option.some.inj hn).symm
    · rw [if_neg hholds, claim, Store.stallSchedule, Store.updateWhere, hany]
      exact ⟨d, none, rfl, hle, rfl,
        h.updated (fun _ => rfl) (fun _ => rfl) (fun _ => rfl) hwaits, fun _ h => by cases h⟩

theorem nextStep_onGrid {step first now d : Int} (hstep : 0 < step) (hd : OnGrid step first d)
    (hle : d ≤ now) :
    OnGrid step first (nextStep step now (some d)) ∧ now < nextStep step now (some d) ∧
      nextStep step now (some d) ≤ now + step ∧
      ∃ k : Nat, nextStep step now (some d) = d + (k + 1) * step := by
  obtain ⟨k, hk⟩ := hd
  have hquot : 0 ≤ (now - d) / step := Int.ediv_nonneg (by omega) (by omega)
  have hnext : nextStep step now (some d) = d + ((now - d) / step + 1) * step := by
    simp [nextStep, Option.filter, hle]
  obtain ⟨hafter, hwithin⟩ := @next_bounds step d now hstep
  rw [hnext]
  refine ⟨⟨k + ((now - d) / step).toNat + 1, ?_⟩, hafter, hwithin, ((now - d) / step).toNat, ?_⟩
  · push_cast
    rw [Int.toNat_of_nonneg hquot, hk]
    ring
  · rw [Int.toNat_of_nonneg hquot]

/-- **Tick after tick**: the times that are taken are on the grid, each at the tick that takes it,
    in order, one for a tick, and the next is after them. -/
theorem tickTimes_onGrid {id : String} {minutes : Nat} {first : Int} (nows : List (Moment Z)) :
    ∀ {store : Store} {due : Option Int}, Waits store id minutes due →
      (∀ d ∈ due, OnGrid (stepOf minutes) first d) →
      (∀ entry ∈ (tickTimes c store id nows).1, OnGrid (stepOf minutes) first entry.2 ∧
        entry.2 ≤ entry.1.ms ∧ ∃ d ∈ due, d ≤ entry.2) ∧
      ((tickTimes c store id nows).1.map (·.2)).Pairwise (· < ·) ∧
      ((tickTimes c store id nows).1.map (·.1)).Sublist nows ∧
      ∃ due', Waits (tickTimes c store id nows).2 id minutes due' ∧
        ∀ next ∈ due', OnGrid (stepOf minutes) first next ∧ (∃ d ∈ due, d ≤ next) ∧
          ∀ entry ∈ (tickTimes c store id nows).1, entry.2 < next := by
  induction nows with
  | nil =>
    intro store due h hgrid
    exact ⟨nofun, List.Pairwise.nil, List.Sublist.refl _, due, h,
      fun d hd => ⟨hgrid d hd, ⟨d, hd, Int.le_refl d⟩, nofun⟩⟩
  | cons now nows ih =>
    intro store due h hgrid
    obtain ⟨hnone, hkept⟩ | ⟨d, due', rfl, hle, htaken, hmoved, hnext⟩ :=
      tickTime_waits (c := c) h now
    · obtain ⟨hentries, hpairs, hsub, hleft⟩ := ih hkept hgrid
      simp only [tickTimes, hnone, map_none, toList_none, nil_append]
      exact ⟨hentries, hpairs, hsub.cons _, hleft⟩
    · have hd := hgrid d rfl
      obtain ⟨honward, hafter, -, -⟩ := nextStep_onGrid step_pos hd hle
      have hgrid' : ∀ next ∈ due', OnGrid (stepOf minutes) first next :=
        fun next hn => (hnext next hn).symm ▸ honward
      have hlater : ∀ next ∈ due', d < next := by
        intro next hn
        rw [hnext next hn]
        omega
      obtain ⟨hentries, hpairs, hsub, due'', hwaits, hleft⟩ := ih hmoved hgrid'
      have hpast : ∀ entry ∈ (tickTimes c (tickTime c store id now).2 id nows).1, d < entry.2 := by
        intro entry he
        obtain ⟨-, -, next, hn, hnextle⟩ := hentries entry he
        have := hlater next hn
        omega
      simp only [tickTimes, htaken, map_some, toList_some, singleton_append,
        map_cons, pairwise_cons, mem_cons, List.forall_mem_map]
      refine ⟨?_, ⟨hpast, hpairs⟩, hsub.cons_cons _, due'', hwaits, ?_⟩
      · rintro entry (rfl | he)
        · exact ⟨hd, hle, d, rfl, Int.le_refl d⟩
        · obtain ⟨hon, hcome, -⟩ := hentries entry he
          exact ⟨hon, hcome, d, rfl, Int.le_of_lt (hpast entry he)⟩
      · intro next hn
        obtain ⟨hon, ⟨d', hd', hd'le⟩, hall⟩ := hleft next hn
        have := hlater d' hd'
        refine ⟨hon, ⟨d, rfl, by omega⟩, ?_⟩
        rintro entry (rfl | he)
        · show d < next
          omega
        · exact hall entry he

end

def gridAfter (step first t : Int) : Int := first + max 0 ((t - first) / step + 1) * step

def following (step first t : Int) (count : Nat) : List Int :=
  (List.range count).map fun k : Nat => gridAfter step first t + k * step

theorem gridAfter_spec {step first t : Int} (hstep : 0 < step) :
    OnGrid step first (gridAfter step first t) ∧ t < gridAfter step first t ∧
      ∀ u, OnGrid step first u → t < u → gridAfter step first t ≤ u := by
  unfold gridAfter
  by_cases hbefore : (t - first) / step + 1 ≤ 0
  -- the first of them is still to come
  · have hlt : t - first < 0 := by
      by_contra h
      have := Int.ediv_nonneg (not_lt.mp h) (Int.le_of_lt hstep)
      omega
    rw [max_eq_left hbefore, Int.zero_mul, Int.add_zero]
    refine ⟨⟨0, by simp⟩, by omega, ?_⟩
    rintro u ⟨k, rfl⟩ -
    have := Int.mul_nonneg (Int.natCast_nonneg k) (Int.le_of_lt hstep)
    omega
  · have hpos : 0 < (t - first) / step + 1 := by omega
    rw [max_eq_right (Int.le_of_lt hpos)]
    refine ⟨⟨((t - first) / step + 1).toNat, ?_⟩, (next_bounds hstep).1, ?_⟩
    · rw [Int.toNat_of_nonneg (Int.le_of_lt hpos)]
    · rintro u ⟨k, rfl⟩ hlt
      have hk : (t - first) / step < k := Int.ediv_lt_of_lt_mul hstep (by omega)
      have := Int.mul_le_mul_of_nonneg_right (show (t - first) / step + 1 ≤ k by omega)
        (Int.le_of_lt hstep)
      omega

theorem gridAfter_eq {step first t : Int} (hstep : 0 < step) :
    gridAfter step first t = t + step ↔ OnGrid step first (t + step) := by
  obtain ⟨hon, hlt, hleast⟩ := @gridAfter_spec step first t hstep
  constructor
  · intro h
    exact h ▸ hon
  · intro h
    have hle := hleast (t + step) h (by omega)
    obtain ⟨j, hj⟩ := hon
    obtain ⟨k, hk⟩ := h
    -- two times of the grid less than a step apart are one
    have hdiff : (k - j : Int) * step < 1 * step ∧ 0 ≤ (k - j : Int) * step := by
      rw [Int.sub_mul]
      omega
    have hupper : (k - j : Int) < 1 := lt_of_mul_lt_mul_right hdiff.1 (Int.le_of_lt hstep)
    have hlower : 0 ≤ (k - j : Int) := nonneg_of_mul_nonneg_left hdiff.2 hstep
    have hsame : (k : Int) = j := by omega
    rw [hj, hk, hsame]

section
variable {Z : Type} {c : Calendar Z}

theorem nextStep_self (step t : Int) : nextStep step t (some t) = t + step := by
  simp [nextStep, Option.filter]

theorem upcomingFrom_every {minutes : Nat} (count : Nat) :
    ∀ (after : Moment Z) (anchor : Option Int), anchor = none ∨ anchor = some after.ms →
      ∀ times, upcomingFrom c (.every minutes) count after anchor = .ok times ↔
        times = (List.range count).map
            (fun k : Nat => after.ms + stepOf minutes + k * stepOf minutes) ∧
          ∀ t ∈ times, c.holds t = true := by
  induction count with
  | zero =>
    intro after anchor _ times
    rw [upcomingFrom, List.range_zero, map_nil, Except.ok.injEq, eq_comm]
    constructor
    · rintro rfl
      exact ⟨rfl, fun _ h => by cases h⟩
    · exact fun h => h.1
  | succ count ih =>
    intro after anchor hanchor times
    have hnext : nextStep (stepOf minutes) after.ms anchor = after.ms + stepOf minutes := by
      obtain rfl | rfl := hanchor
      · rfl
      · exact nextStep_self _ _
    have hrange : (List.range (count + 1)).map
        (fun k : Nat => after.ms + stepOf minutes + k * stepOf minutes) =
        (after.ms + stepOf minutes) :: (List.range count).map (fun k : Nat =>
          after.ms + stepOf minutes + stepOf minutes + k * stepOf minutes) := by
      rw [List.range_succ_eq_map, map_cons, map_map]
      congr 1
      · simp
      · apply map_congr_left
        intro k _
        simp only [Function.comp, Nat.succ_eq_add_one]
        push_cast
        ring
    rw [upcomingFrom, nextAfter, ← stepOf, hnext, hrange]
    by_cases hholds : c.holds (after.ms + stepOf minutes) = true
    · rw [if_pos hholds]
      dsimp only
      have ih := ih ⟨after.ms + stepOf minutes, after.zone⟩ _ (.inr rfl)
      constructor
      · intro h
        cases hrest : upcomingFrom c (.every minutes) count
            ⟨after.ms + stepOf minutes, after.zone⟩ (some (after.ms + stepOf minutes)) with
        | error why =>
          rw [hrest] at h
          cases h
        | ok rest =>
          rw [hrest] at h
          obtain rfl := (Except.ok.inj h).symm
          obtain ⟨rfl, hall⟩ := (ih rest).mp hrest
          exact ⟨rfl, forall_mem_cons.mpr ⟨hholds, hall⟩⟩
      · rintro ⟨rfl, hall⟩
        rw [(ih _).mpr ⟨rfl, (forall_mem_cons.mp hall).2⟩]
        rfl
    · rw [if_neg hholds]
      refine iff_of_false (fun h => by cases h) ?_
      rintro ⟨rfl, hall⟩
      exact hholds (hall _ mem_cons_self)

theorem upcoming_follows {minutes : Nat} (first : Int) (after : Moment Z) (count : Nat) :
    upcoming c (.every minutes) after count =
        .ok (following (stepOf minutes) first after.ms count) ↔
      (∀ t ∈ following (stepOf minutes) first after.ms count, c.holds t = true) ∧
        (count = 0 ∨ OnGrid (stepOf minutes) first (after.ms + stepOf minutes)) := by
  unfold upcoming
  rw [upcomingFrom_every count after none (.inl rfl), ← gridAfter_eq step_pos, and_comm]
  refine and_congr_right fun _ => ?_
  constructor
  · intro h
    cases count with
    | zero => exact .inl rfl
    | succ count =>
      right
      have hhead := congrArg List.head? h
      simpa [following, List.range_succ_eq_map] using hhead
  · rintro (rfl | h)
    · rfl
    · rw [following, h]

variable (c)

/-- Firing and listing keep to one grid: each next time is after now, at most an interval after it
    and whole intervals after the one claimed; ticks take the times of the grid in order, at most
    one each; the following ones are listed; and nothing overflows on the way. -/
structure KeepsGrid (minutes : Nat) (first : Int) (after : Moment Z) (count : Nat) : Prop where
  next : ∀ (now : Moment Z) (due t : Int), due ≤ now.ms →
    nextAfter c (.every minutes) now (some due) = .ok (some t) →
      now.ms < t ∧ t ≤ now.ms + stepOf minutes ∧ ∃ k : Nat, t = due + (k + 1) * stepOf minutes
  fires : ∀ (store : Store) (id : String) (nows : List (Moment Z)),
    Waits store id minutes (some first) →
      (∀ entry ∈ (tickTimes c store id nows).1,
        OnGrid (stepOf minutes) first entry.2 ∧ entry.2 ≤ entry.1.ms) ∧
      ((tickTimes c store id nows).1.map (·.2)).Pairwise (· < ·) ∧
      ((tickTimes c store id nows).1.map (·.1)).Sublist nows ∧
      ∃ due, Waits (tickTimes c store id nows).2 id minutes due ∧
        ∀ t ∈ due, OnGrid (stepOf minutes) first t
  lists : upcoming c (.every minutes) after count =
    .ok (following (stepOf minutes) first after.ms count)
  fits : ∀ now anchor, Representable now → (∀ t ∈ anchor, Representable t) →
    nextStepI64 minutes now anchor = some (nextStep (stepOf minutes) now anchor) ∧
      ∀ t ∈ anchor, lateI64 now t = some (now - t)

theorem KeepsGrid.of_lists {minutes : Nat} (hm : minutes < 2 ^ 32) {first : Int}
    {after : Moment Z} {count : Nat}
    (h : upcoming c (.every minutes) after count =
      .ok (following (stepOf minutes) first after.ms count)) :
    KeepsGrid c minutes first after count where
  next now due t hle ht := by
    rw [nextAfter, ← stepOf] at ht
    split at ht
    · cases ht
      have hdue : OnGrid (stepOf minutes) due due := ⟨0, by simp⟩
      exact (nextStep_onGrid step_pos hdue hle).2
    · cases ht
  fires store id nows hwaits := by
    have hfirst : ∀ d ∈ some first, OnGrid (stepOf minutes) first d := by
      intro d hd
      cases hd
      exact ⟨0, by simp⟩
    obtain ⟨hentries, hpairs, hsub, due, hleft, hgrid⟩ := tickTimes_onGrid nows hwaits hfirst
    exact ⟨fun entry he => ⟨(hentries entry he).1, (hentries entry he).2.1⟩, hpairs, hsub, due,
      hleft, fun t ht => (hgrid t ht).1⟩
  lists := h
  fits now anchor hnow hanchor :=
    ⟨nextStepI64_eq hm hnow hanchor, fun t ht => lateI64_eq hnow (hanchor t ht)⟩

/-- **One grid** for the times that fire and those that are listed, if and only if what is listed
    can be represented and the moment it is listed at is a step before one of the schedule's times
    (or nothing is asked for). -/
theorem every_keeps_grid (minutes : Nat) (hm : minutes < 2 ^ 32) (first : Int) (after : Moment Z)
    (count : Nat) :
    KeepsGrid c minutes first after count ↔
      (∀ t ∈ following (stepOf minutes) first after.ms count, c.holds t = true) ∧
        (count = 0 ∨ OnGrid (stepOf minutes) first (after.ms + stepOf minutes)) := by
  rw [← upcoming_follows]
  exact ⟨fun h => h.lists, fun h => .of_lists c hm h⟩

end

/-- An hourly schedule next fires at the full hour; asked a minute before, its next time is said to
    be in an hour. -/
theorem listed_off_the_grid :
    ¬ KeepsGrid midnights 60 3600000 ⟨3540000, ()⟩ 1 ∧
      upcoming midnights (.every 60) ⟨3540000, ()⟩ 1 = .ok [7140000] := by
  refine ⟨fun h => ?_, rfl⟩
  have hlists := h.lists
  revert hlists
  decide

theorem every_keeps_grid_hourly :
    KeepsGrid midnights 60 3600000 ⟨0, ()⟩ 3 ↔
      (∀ t ∈ following (stepOf 60) 3600000 0 3, midnights.holds t = true) ∧
        (3 = 0 ∨ OnGrid (stepOf 60) 3600000 (0 + stepOf 60)) :=
  every_keeps_grid midnights 60 (by decide) 3600000 ⟨0, ()⟩ 3

end Yardsort.Schedule
