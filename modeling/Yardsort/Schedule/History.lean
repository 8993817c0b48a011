import Yardsort.Schedule.FireRuns

/- A schedule's history after a time was acted on (`record_schedule_run`,
   `core/src/store/schedules.rs`, and the end of `tick`, `core/src/schedule/fire.rs`).

   The line is inserted, the schedule's oldest are dropped and the line is read back, in one
   transaction. Which are the oldest goes by when they fired, so a line that fired before
   enough of those kept is dropped as it is written, and then nothing is: it is how many lines are
   newer that decides (`newer`). -/
namespace Yardsort.Schedule

/-! ## Where a new line comes among the others -/

theorem length_takeWhile_newer {lines : List ScheduleRunRow} (t : Int)
    (h : lines.Pairwise fun a b => b.firedAt ≤ a.firedAt) :
    (lines.takeWhile fun other => decide (t < other.firedAt)).length =
      lines.countP fun other => decide (t < other.firedAt) := by
  induction lines with
  | nil => rfl
  | cons first lines ih =>
    obtain ⟨hfirst, h⟩ := List.pairwise_cons.mp h
    by_cases hle : first.firedAt ≤ t
    · have hnone : lines.countP (fun other => decide (t < other.firedAt)) = 0 := by
        rw [List.countP_eq_zero]
        intro other ho
        have := hfirst other ho
        simp only [decide_eq_true_eq]
        omega
      have hnot : ¬ t < first.firedAt := by omega
      simp [hnone, hnot]
    · have hlt : t < first.firedAt := by omega
      simp [hlt, ih h]

namespace Store

def newer (s : Store) (line : ScheduleRunRow) : Nat :=
  s.lines.countP fun other => other.scheduleId = line.scheduleId && line.firedAt < other.firedAt

variable {s : Store} {line : ScheduleRunRow}

theorem newestFirst_written (lines : List ScheduleRunRow) (line : ScheduleRunRow) :
    ∃ before after, newestFirst (lines ++ [line]) = before ++ line :: after ∧
      before.length = lines.countP (fun other => decide (line.firedAt < other.firedAt)) ∧
      (before ++ after).Perm lines := by
  have hsorted : (newestFirst lines).Pairwise fun a b => b.firedAt ≤ a.firedAt := by
    apply List.pairwise_insertionSort
  have hperm : (newestFirst lines).Perm lines :=
    (List.perm_insertionSort _ _).trans (List.reverse_perm lines)
  refine ⟨(newestFirst lines).takeWhile fun other => decide (line.firedAt < other.firedAt),
    (newestFirst lines).dropWhile fun other => decide (line.firedAt < other.firedAt), ?_, ?_, ?_⟩
  · rw [newestFirst, List.reverse_append, List.reverse_singleton, List.singleton_append,
      List.insertionSort_cons, List.orderedInsert_eq_take_drop]
    simp [newestFirst]
  · rw [length_takeWhile_newer _ hsorted]
    exact hperm.countP_eq _
  · rw [List.takeWhile_append_dropWhile]
    exact hperm

/-- The ids that are kept for their times, once the line is written. -/
def keptIds (s : Store) (line : ScheduleRunRow) : List String :=
  (({ s with lines := s.lines ++ [line] } : Store).scheduleRuns line.scheduleId
    SCHEDULE_RUNS_KEPT).map (·.id)

/-- **The new line is kept for its time** if and only if fewer are newer than are kept. -/
theorem line_kept_iff (hnew : line.id ∉ s.lines.map (·.id)) :
    line.id ∈ s.keptIds line ↔ s.newer line < SCHEDULE_RUNS_KEPT := by
  obtain ⟨before, after, hsplit, hlength, hperm⟩ :=
    newestFirst_written (s.lines.filter (·.scheduleId = line.scheduleId)) line
  have hcount : before.length = s.newer line := by
    rw [hlength, newer, List.countP_filter]
    exact List.countP_congr fun other _ => by simp [and_comm]
  have hother : ∀ other ∈ before, other.id ≠ line.id := by
    intro other ho hid
    have hmem := hperm.mem_iff.mp (List.mem_append_left after ho)
    exact hnew (hid ▸ List.mem_map_of_mem (List.mem_of_mem_filter hmem))
  have hkept : s.keptIds line =
      ((before ++ line :: after).take SCHEDULE_RUNS_KEPT).map (·.id) := by
    rw [← hsplit]
    simp [keptIds, scheduleRuns]
  rw [hkept, ← hcount, List.take_append]
  constructor
  · intro hmem
    by_contra hle
    have hzero : SCHEDULE_RUNS_KEPT - before.length = 0 := by omega
    rw [hzero, List.take_zero, List.append_nil] at hmem
    obtain ⟨other, ho, hid⟩ := List.mem_map.mp hmem
    exact hother other (List.mem_of_mem_take ho) hid
  · intro hlt
    obtain ⟨n, hn⟩ : ∃ n, SCHEDULE_RUNS_KEPT - before.length = n + 1 :=
      ⟨SCHEDULE_RUNS_KEPT - before.length - 1, by omega⟩
    rw [hn, List.take_succ_cons]
    simp

theorem length_keptIds : (s.keptIds line).length ≤ SCHEDULE_RUNS_KEPT := by
  rw [keptIds, List.length_map]
  exact List.length_take_le _ _

/-- What is left of a line, once the new one is written. -/
def stays (s : Store) (line other : ScheduleRunRow) : Bool :=
  !(other.scheduleId = line.scheduleId && !unsettled other && other.id ∉ s.keptIds line)

theorem recordScheduleRun_eq (hnew : line.id ∉ s.lines.map (·.id)) :
    s.recordScheduleRun line =
      if (s.schedule line.scheduleId).isSome ∧ (unsettled line = true ∨
          s.newer line < SCHEDULE_RUNS_KEPT) then
        some (line, { s with lines := s.lines.filter (s.stays line) ++ [line] })
      else none := by
  have hrecord : s.recordScheduleRun line =
      if (s.schedule line.scheduleId).isNone then none
      else (((s.lines ++ [line]).filter (s.stays line)).find? (·.id = line.id)).map fun row =>
        (row, { s with lines := (s.lines ++ [line]).filter (s.stays line) }) := rfl
  rw [hrecord]
  cases hthere : s.schedule line.scheduleId with
  | none => simp
  | some row =>
    have hold : (s.lines.filter (s.stays line)).find? (·.id = line.id) = none := by
      rw [List.find?_eq_none]
      intro other ho hid
      exact hnew (of_decide_eq_true hid ▸ List.mem_map_of_mem (List.mem_of_mem_filter ho))
    have hstays : s.stays line line = true ↔
        unsettled line = true ∨ s.newer line < SCHEDULE_RUNS_KEPT := by
      rw [← line_kept_iff hnew]
      cases hopen : unsettled line <;> simp [stays, hopen]
    rw [List.filter_append, List.find?_append, hold, Option.none_or]
    by_cases hkeep : s.stays line line = true
    · simp [hkeep, hstays.mp hkeep]
    · have hnot := mt hstays.mpr hkeep
      simp [hkeep, hnot]

/-- What recording a line is to do: the line it returns is in the history, every line of a run that
    is not settled is still there, and at most so many of the schedule's others. -/
def Records (s : Store) (line : ScheduleRunRow) : Prop :=
  ∃ s', s.recordScheduleRun line = some (line, s') ∧ line ∈ s'.lines ∧
    (∀ other ∈ s.lines, unsettled other → other ∈ s'.lines) ∧
    (s'.lines.filter fun other => other.scheduleId = line.scheduleId && !unsettled other).length ≤
      SCHEDULE_RUNS_KEPT

/-- A line whose schedule is there, and that is of a run under way or new enough. -/
def Recordable (s : Store) (line : ScheduleRunRow) : Prop :=
  (s.schedule line.scheduleId).isSome ∧
    (line.outcome = .started ∨ s.newer line < SCHEDULE_RUNS_KEPT)

instance (s : Store) (line : ScheduleRunRow) : Decidable (s.Recordable line) :=
  inferInstanceAs (Decidable (_ ∧ _))

theorem recordScheduleRun_new (hnew : line.id ∉ s.lines.map (·.id)) (hresult : line.result = none) :
    s.recordScheduleRun line =
      if s.Recordable line then
        some (line, { s with lines := s.lines.filter (s.stays line) ++ [line] })
      else none := by
  have hunsettled : unsettled line = true ↔ line.outcome = .started := by
    simp [unsettled, hresult]
  rw [recordScheduleRun_eq hnew]
  exact if_congr (and_congr_right fun _ => or_congr_left hunsettled) rfl rfl

theorem records_iff (hids : (s.lines.map (·.id)).Nodup) (hnew : line.id ∉ s.lines.map (·.id))
    (hresult : line.result = none) : s.Records line ↔ s.Recordable line := by
  unfold Records
  rw [recordScheduleRun_new hnew hresult]
  constructor
  · rintro ⟨s', hrecorded, -⟩
    by_contra hnot
    rw [if_neg hnot] at hrecorded
    cases hrecorded
  · intro h
    rw [if_pos h]
    refine ⟨_, rfl, by simp, ?_, ?_⟩
    · intro other ho hopen
      refine List.mem_append_left _ (List.mem_filter.mpr ⟨ho, ?_⟩)
      simp [stays, hopen]
    -- those that are settled are among the kept, each once
    · have hsub : ∀ id ∈ ((s.lines.filter (s.stays line) ++ [line]).filter fun other =>
          other.scheduleId = line.scheduleId && !unsettled other).map (·.id),
          id ∈ s.keptIds line := by
        intro id hid
        obtain ⟨other, ho, rfl⟩ := List.mem_map.mp hid
        obtain ⟨ho, hother⟩ := List.mem_filter.mp ho
        simp only [Bool.and_eq_true, decide_eq_true_eq, Bool.not_eq_true'] at hother
        obtain ho | ho := List.mem_append.mp ho
        · have hstays := (List.mem_filter.mp ho).2
          simpa [stays, hother.1, hother.2] using hstays
        · obtain rfl := List.mem_singleton.mp ho
          rw [line_kept_iff hnew]
          refine h.2.resolve_left fun hstarted => ?_
          simp [unsettled, hstarted, hresult] at hother
      have hnodup : (((s.lines.filter (s.stays line) ++ [line]).filter fun other =>
          other.scheduleId = line.scheduleId && !unsettled other).map (·.id)).Nodup := by
        have hall : ((s.lines ++ [line]).map (·.id)).Nodup := by
          rw [List.map_append, List.nodup_append]
          refine ⟨hids, List.nodup_singleton _, ?_⟩
          intro id hid id' hid'
          rw [List.map_singleton, List.mem_singleton] at hid'
          rintro rfl
          exact hnew (hid' ▸ hid)
        refine hall.sublist (List.Sublist.map _ (List.filter_sublist.trans ?_))
        exact List.Sublist.append_right List.filter_sublist _
      have hle := (List.subperm_of_subset hnodup hsub).length_le
      rw [List.length_map] at hle
      exact hle.trans length_keptIds

end Store

section
variable {Z : Type} (c : Calendar Z)

/-- A caller that records a line leaves it in the history, and goes on. -/
def Leaves (s : System Z) (i : Nat) (caller : Caller Z) (taken : Taken Z)
    (line : ScheduleRunRow) : Prop :=
  ∃ s', s.step c (.record i line.id) = some s' ∧ line ∈ s'.store.lines ∧
    s'.callers[i]? = some { caller with job := afterLine taken }

theorem leaves_iff {s : System Z} {i : Nat} {caller : Caller Z} {taken : Taken Z} {id : String}
    {outcome : ScheduleOutcome} {runId note : Option String} {notice : Option Notice}
    (hcaller : s.callers[i]? = some caller)
    (hjob : caller.job = .recording taken outcome runId note notice) (hmade : id ∉ s.made)
    (hnew : id ∉ s.store.lines.map (·.id)) :
    Leaves c s i caller taken (lineOf taken id outcome runId note) ↔
      s.store.Recordable (lineOf taken id outcome runId note) := by
  have hi : i < s.callers.length := (List.getElem?_eq_some_iff.mp hcaller).1
  have hid : (lineOf taken id outcome runId note).id ∉ s.store.lines.map (·.id) := hnew
  have hfresh : (lineOf taken id outcome runId note).id ∉ s.made := hmade
  have hsame : lineOf taken (lineOf taken id outcome runId note).id outcome runId note =
      lineOf taken id outcome runId note := rfl
  unfold Leaves
  simp only [System.step, hcaller, Option.bind_some, hjob]
  rw [if_neg hfresh, hsame, Store.recordScheduleRun_new hid rfl]
  by_cases hcan : s.store.Recordable (lineOf taken id outcome runId note)
  · rw [if_pos hcan]
    refine iff_of_true ⟨_, rfl, by simp, ?_⟩ hcan
    simp [System.setJob, hi]
  · rw [if_neg hcan]
    refine iff_of_false ?_ hcan
    rintro ⟨s', hs, hmem, -⟩
    cases hs
    exact hnew (List.mem_map_of_mem (f := (·.id)) hmem)

/-- **Which times leave their line**: recording one does all it is to if and only if its schedule is
    there and it started a run or fewer lines of its schedule are newer than are kept; and so does
    the caller that took the time. -/
theorem times_leave_their_line (s : System Z) (hids : (s.store.lines.map (·.id)).Nodup) :
    (∀ line : ScheduleRunRow, line.id ∉ s.store.lines.map (·.id) → line.result = none →
      (s.store.Records line ↔ s.store.Recordable line)) ∧
    ∀ i caller taken id outcome runId note notice, s.callers[i]? = some caller →
      caller.job = .recording taken outcome runId note notice → id ∉ s.made →
      id ∉ s.store.lines.map (·.id) →
      (Leaves c s i caller taken (lineOf taken id outcome runId note) ↔
        s.store.Recordable (lineOf taken id outcome runId note)) :=
  ⟨fun _ hnew hresult => Store.records_iff hids hnew hresult,
    fun _ _ _ _ _ _ _ _ hcaller hjob hmade hnew => leaves_iff c hcaller hjob hmade hnew⟩

def skippedAt (id : String) (firedAt : Int) : ScheduleRunRow where
  id := id
  scheduleId := "review-1"
  dueAt := firedAt
  firedAt := firedAt
  outcome := .skipped
  manual := false
  runId := none
  note := none
  result := none
  notifiedAt := none
  toldWaiting := false

def reviewedTimes (n : Nat) : Store :=
  let store := (⟨[], [], ["project-1"]⟩ : Store).addSchedule "review-1" 0 (reviewFields (.every 60))
  let lines := (List.range n).map fun i => skippedAt (String.ofList (List.replicate i 'i')) 1000
  { store with lines }

/-- The clock was set back: the time that comes then is not recorded. -/
theorem set_back_is_not_recorded :
    ((reviewedTimes 200).lines.map (·.id)).Nodup ∧
    ¬ (reviewedTimes 200).Records (skippedAt "late" 999) := by
  constructor
  · simp only [reviewedTimes, List.map_map]
    refine List.nodup_range.map ?_
    intro i j hij
    have hlength := congrArg String.length hij
    simpa [skippedAt] using hlength
  have hnew : (skippedAt "late" 999).id ∉ (reviewedTimes 200).lines.map (·.id) := by
    decide +kernel
  rintro ⟨s', hrecorded, -⟩
  rw [Store.recordScheduleRun_new hnew rfl, if_neg (by decide +kernel)] at hrecorded
  cases hrecorded

theorem times_leave_their_line_three :
    (reviewedTimes 3).Records (skippedAt "late" 999) ↔
      (reviewedTimes 3).Recordable (skippedAt "late" 999) :=
  (times_leave_their_line midnights { System.start ⟨0, ()⟩ with store := reviewedTimes 3 }
    (by decide)).1 (skippedAt "late" 999) (by decide) rfl

end

end Yardsort.Schedule
