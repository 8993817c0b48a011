import Yardsort.Schedule.FireRuns
import Yardsort.Schedule.Settle

/- What is written of the runs that schedules started.

   A line keeps the id of the run it started and not the table it is in: `settle` looks it up
   in the table of what the schedule starts now. An edit that puts a test in a workflow's place
   while its run is going, or before its ending was copied, has the run looked up among the
   tests: it is written off as `gone` (`edited_away`). Where each run is looked up as what it
   was started as (`System.looksElsewhere`), a line is left alone while its run is going, is
   given that run's own ending once, and is `gone` only when the run is (`settles_own_ending`). -/
namespace Yardsort.Schedule
open Yardsort.Lib

section
variable {Z : Type}

/-- The ending that a line of this run may be given: the run's own, or `gone` where it is. -/
def System.IsEnding (s : System Z) (runId : Option String) (status : String) : Prop :=
  ∃ run kind, runId = some run ∧ (run, kind) ∈ s.started ∧
    ((kind, run, status) ∈ s.ended ∨ (status = "gone" ∧ s.runs.find kind run = none))

def System.Begun (s : System Z) (runId : Option String) : Prop :=
  ∃ run kind, runId = some run ∧ (run, kind) ∈ s.started

structure System.History (s : System Z) : Prop where
  book : Book s.runs s.made s.started s.ended
  ids : (s.store.lines.map (·.id)).Nodup
  known : ∀ line ∈ s.store.lines, line.id ∈ s.made
  there : ∀ line ∈ s.store.lines, line.scheduleId ∈ s.store.schedules.map (·.id)
  begun : ∀ line ∈ s.store.lines, line.outcome = .started → s.Begun line.runId
  given : ∀ line ∈ s.store.lines, line.outcome = .started → ∀ status ∈ line.result,
    s.IsEnding line.runId status

/-- A line that was read: it is one of a run that was started, and still the same. -/
structure System.Copied (s : System Z) (line : ScheduleRunRow) : Prop where
  known : line.id ∈ s.made
  outcome : line.outcome = .started
  begun : s.Begun line.runId
  same : ∀ other ∈ s.store.lines, other.id = line.id → LineOf other line

def Job.Holds (s : System Z) : Job Z → Prop
  | .settle lines => ∀ line ∈ lines.getD [], s.Copied line
  | .looking line _ runId rest =>
    line.runId = some runId ∧ ∀ other ∈ line :: rest, s.Copied other
  | .marking line _ rest => ∀ other ∈ line :: rest, s.Copied other
  | .ending line _ status _ rest =>
    s.IsEnding line.runId status ∧ ∀ other ∈ line :: rest, s.Copied other
  | .recording _ outcome runId _ _ => outcome = .started → s.Begun runId
  | _ => True

/-- Whether `settle` is about to look a run up that is there, in a table where it is not. -/
def System.looksElsewhere (s : System Z) : Act Z → Bool
  | .go i => s.callers[i]?.any fun caller =>
      match caller.job with
      | .looking _ schedule runId _ => s.started.any fun (id, kind) =>
          id = runId && kind ≠ schedule.targetKind && (s.runs.find kind runId).isSome
      | _ => false
  | _ => false

variable {c : Calendar Z} {s s' : System Z} {job job' : Job Z}

namespace System

theorem Begun.later {runId : Option String} (h : s.Begun runId) (hg : s.Grows s') :
    s'.Begun runId := by
  obtain ⟨run, kind, hrun, hmem⟩ := h
  exact ⟨run, kind, hrun, hg.started _ hmem⟩

theorem IsEnding.later {runId : Option String} {status : String} (h : s.IsEnding runId status)
    (hb : Book s.runs s.made s.started s.ended) (hg : s.Grows s') : s'.IsEnding runId status := by
  obtain ⟨run, kind, hrun, hmem, hend | ⟨hgone, hnone⟩⟩ := h
  · exact ⟨run, kind, hrun, hg.started _ hmem, .inl (hg.ended _ hend)⟩
  · exact ⟨run, kind, hrun, hg.started _ hmem,
      .inr ⟨hgone, hg.gone kind run (hb.startedKnown _ hmem) hnone⟩⟩

theorem Copied.later {line : ScheduleRunRow} (h : s.Copied line) (hg : s.Grows s') :
    s'.Copied line := by
  refine ⟨hg.made _ h.known, h.outcome, h.begun.later hg, ?_⟩
  intro other ho hid
  obtain ⟨old, hold, hsame⟩ := hg.lines other ho (hid ▸ h.known)
  exact hsame.trans (h.same old hold (hsame.id.symm.trans hid))

end System

theorem Job.Holds.later (h : job.Holds s) (hb : Book s.runs s.made s.started s.ended)
    (hg : s.Grows s') : job.Holds s' := by
  cases job with
  | settle lines => exact fun line hl => (h line hl).later hg
  | looking line schedule runId rest => exact ⟨h.1, fun other ho => (h.2 other ho).later hg⟩
  | marking line schedule rest => exact fun other ho => (h other ho).later hg
  | ending line schedule status reason rest =>
    exact ⟨h.1.later hb hg, fun other ho => (h.2 other ho).later hg⟩
  | recording taken outcome runId note notice => exact fun hs => (h hs).later hg
  | _ => trivial

theorem Touch.results {store : Store} (h : Touch s job store) (hj : job.Holds s) :
    ∀ line ∈ store.lines, ∀ status ∈ line.result,
      (∃ old ∈ s.store.lines, LineOf line old ∧ old.result = some status) ∨
        s.IsEnding line.runId status := by
  intro line hl status hs
  cases h with
  | schedules => exact .inl ⟨line, hl, .refl line, hs⟩
  | marks =>
    obtain hl | ⟨old, hold, -, -, rfl⟩ := mem_updateLine hl
    · exact .inl ⟨line, hl, .refl line, hs⟩
    · exact .inl ⟨old, hold, ⟨rfl, rfl, rfl, rfl, fun _ h => h⟩, hs⟩
  | gives =>
    obtain hl | ⟨old, hold, hid, -, rfl⟩ := mem_updateLine hl
    · exact .inl ⟨line, hl, .refl line, hs⟩
    · cases hs
      have hsame := (hj.2 _ (mem_cons_self ..)).same old hold hid
      exact .inr (hsame.runId ▸ hj.1)

theorem System.History.goOn (h : s.History) (hg : s.Grows s')
    (hbook : Book s'.runs s'.made s'.started s'.ended) (hids : (s'.store.lines.map (·.id)).Nodup)
    (hthere : ∀ line ∈ s'.store.lines, line.scheduleId ∈ s'.store.schedules.map (·.id))
    (hlines : ∀ line ∈ s'.store.lines, ∃ old ∈ s.store.lines, LineOf line old)
    (hresults : ∀ line ∈ s'.store.lines, ∀ status ∈ line.result,
      (∃ old ∈ s.store.lines, LineOf line old ∧ old.result = some status) ∨
        s.IsEnding line.runId status) : s'.History where
  book := hbook
  ids := hids
  known line hl := by
    obtain ⟨old, hold, hsame⟩ := hlines line hl
    exact hg.made _ (hsame.id ▸ h.known old hold)
  there := hthere
  begun line hl hstarted := by
    obtain ⟨old, hold, hsame⟩ := hlines line hl
    rw [hsame.runId]
    exact (h.begun old hold (hsame.outcome.symm.trans hstarted)).later hg
  given line hl hstarted status hs := by
    obtain ⟨old, hold, hsame, hres⟩ | hending := hresults line hl status hs
    · rw [hsame.runId]
      exact (h.given old hold (hsame.outcome.symm.trans hstarted) status hres).later h.book hg
    · exact hending.later h.book hg

theorem Touch.history {store : Store} {told : List Notice} {acted : List (String × Int)}
    {callers : List (Caller Z)} (h : Touch s job store) (hs : s.History) (hj : job.Holds s) :
    ({ s with store, told, acted, callers } : System Z).History := by
  refine hs.goOn h.grows hs.book ?_ ?_ h.lines (h.results hj)
  · exact (h.ids ▸ hs.ids : (store.lines.map (·.id)).Nodup)
  · intro line hl
    obtain ⟨old, hold, hsame⟩ := h.lines line hl
    rw [hsame.scheduleId]
    exact h.scheduleIds ▸ hs.there old hold

theorem afterRefusal_holds (taken : Taken Z) (error : IpcError) :
    (afterRefusal taken error).Holds s := by
  unfold afterRefusal
  split
  · trivial
  · split
    · exact nofun
    · split <;> trivial

theorem afterClaim_holds (taken : Taken Z) (next : Except String (Option Int)) :
    (afterClaim taken next).Holds s := by
  unfold afterClaim
  split
  · trivial
  · split
    · exact nofun
    · trivial

theorem afterLine_holds (taken : Taken Z) : (afterLine taken).Holds s := by
  unfold afterLine
  split <;> trivial

theorem unsettled_copied (h : s.History) : ∀ line ∈ s.store.unsettledScheduleRuns,
    s.Copied line := by
  intro line hl
  rw [Store.unsettledScheduleRuns, List.mem_insertionSort, mem_filter] at hl
  obtain ⟨hmem, hun⟩ := hl
  have hout : line.outcome = .started := of_decide_eq_true (Bool.and_eq_true_iff.mp hun).1
  refine ⟨h.known line hmem, hout, h.begun line hmem hout, ?_⟩
  intro other ho hid
  obtain rfl := List.inj_on_of_nodup_map h.ids ho hmem hid
  exact .refl other

theorem lookedUp_holds (hb : Book s.runs s.made s.started s.ended) {line : ScheduleRunRow}
    {schedule : ScheduleRow} {runId : String} {rest : List ScheduleRunRow}
    (hrun : line.runId = some runId) (hcopied : ∀ other ∈ line :: rest, s.Copied other)
    (hkind : ∀ kind, (runId, kind) ∈ s.started → kind ≠ schedule.targetKind →
      s.runs.find kind runId = none) :
    (lookedUp (Z := Z) s.runs line schedule runId rest).Holds s := by
  have hrest : ∀ other ∈ rest, s.Copied other :=
    fun other ho => hcopied other (mem_cons_of_mem _ ho)
  obtain ⟨run, kind, hsome, hstarted⟩ := (hcopied line (mem_cons_self ..)).begun
  obtain rfl := Option.some.inj (hsome.symm.trans hrun)
  rw [lookedUp]
  split
  · rename_i hnone
    refine ⟨⟨run, kind, hrun, hstarted, .inr ⟨rfl, ?_⟩⟩, hcopied⟩
    by_cases hsame : kind = schedule.targetKind
    · exact hsame ▸ hnone
    · exact hkind kind hstarted hsame
  · rename_i row hfound
    split
    · split
      · exact hrest
      · exact hcopied
    · split
      · exact hrest
      · rename_i hover
        have hown := hb.own _ _ _ _ hstarted hfound
        have hended := hb.atEnd _ _ _ hfound (Bool.not_eq_true _ ▸ hover)
        exact ⟨⟨run, kind, hrun, hstarted, .inl (hown ▸ hended)⟩, hcopied⟩

theorem goJob_holds (hs : s.History) (hj : job.Holds s)
    (hkind : ∀ line schedule runId rest, job = .looking line schedule runId rest →
      ∀ kind, (runId, kind) ∈ s.started → kind ≠ schedule.targetKind →
        s.runs.find kind runId = none)
    (h : s.goJob c job = some (job', s')) : job'.Holds s := by
  cases job with
  | tick now due =>
    obtain _ | _ | ⟨schedule, rest⟩ := due
    · cases h; trivial
    · cases h; trivial
    · rw [System.goJob] at h
      cases hdue : schedule.nextAt with
      | none => simp only [hdue] at h; cases h; trivial
      | some dueAt =>
        simp only [hdue] at h
        split at h
        · rw [← (Prod.mk.inj (Option.some.inj h)).1]
          exact afterClaim_holds ..
        · cases h; trivial
  | asking taken =>
    rw [System.goJob] at h
    split at h
    · rw [← (Prod.mk.inj (Option.some.inj h)).1]
      exact afterRefusal_holds ..
    · cases h
  | switchingOff taken note | change now id fields
  | enabling now id enabled nextAt => cases h; trivial
  | telling taken note => cases h; exact fun h => by cases h
  | recording => cases h
  | runNow now id | enable now id enabled =>
    rw [System.goJob] at h
    split at h
    · cases h; trivial
    · cases h; trivial
  | rezone now waiting =>
    obtain _ | _ | ⟨schedule, rest⟩ := waiting
    · cases h; trivial
    · cases h; trivial
    · rw [System.goJob] at h
      split at h
      · cases h; trivial
      · cases h; trivial
  | settle lines =>
    obtain _ | _ | ⟨line, rest⟩ := lines
    · cases h; exact unsettled_copied hs
    · cases h; trivial
    · have hrest : ∀ other ∈ rest, s.Copied other :=
        fun other ho => hj other (mem_cons_of_mem _ ho)
      rw [System.goJob] at h
      split at h
      · cases h; exact hrest
      split at h
      -- a line of a run that was started has the run's id
      · rename_i hnone
        obtain ⟨run, kind, hrun, -⟩ := (hj line (mem_cons_self ..)).begun
        rw [hnone] at hrun
        cases hrun
      · rename_i runId hrun
        cases h
        exact ⟨hrun, hj⟩
  | looking line schedule runId rest =>
    cases h
    exact lookedUp_holds hs.book hj.1 hj.2 (hkind _ _ _ _ rfl)
  | marking line schedule rest => cases h; exact fun other ho => hj other (mem_cons_of_mem _ ho)
  | ending line schedule status reason rest =>
    cases h
    exact fun other ho => hj.2 other (mem_cons_of_mem _ ho)
  | atEnd => cases h

/-! ## Runs of the whole -/

structure System.Agrees (s : System Z) : Prop where
  history : s.History
  callers : ∀ caller ∈ s.callers, caller.job.Holds s

namespace System.Agrees

theorem onward (h : s.Agrees) (hhistory : s'.History) (hg : s.Grows s')
    (hcallers : ∀ caller ∈ s'.callers, caller ∈ s.callers ∨ caller.job.Holds s') : s'.Agrees := by
  refine ⟨hhistory, fun caller hmem => ?_⟩
  obtain hold | hnew := hcallers caller hmem
  · exact (h.callers caller hold).later h.history.book hg
  · exact hnew

theorem begin_ (h : s.Agrees) {job : Job Z} (hj : job.Holds s) : (s.begin_ job).Agrees := by
  have hg : s.Grows (s.begin_ job) :=
    .of_lines rfl rfl rfl rfl fun line hl => ⟨line, hl, .refl line⟩
  refine h.onward ?_ hg ?_
  · exact h.history.goOn hg h.history.book h.history.ids h.history.there
      (fun line hl => ⟨line, hl, .refl line⟩) fun line hl status hs =>
        .inl ⟨line, hl, .refl line, hs⟩
  · intro caller hmem
    obtain hmem | hmem := mem_snoc.mp hmem
    · exact .inl hmem
    · rw [hmem]
      exact .inr (hj.later h.history.book hg)

end System.Agrees

theorem System.History.fewer (h : s.History) (hruns : Book s'.runs s'.made s'.started s'.ended)
    (hg : s.Grows s') (hsub : s'.store.lines.Sublist s.store.lines)
    (hthere : ∀ line ∈ s'.store.lines, line.scheduleId ∈ s.store.schedules.map (·.id) →
      line.scheduleId ∈ s'.store.schedules.map (·.id)) : s'.History := by
  refine h.goOn hg hruns (h.ids.sublist (hsub.map _)) ?_ ?_ ?_
  · exact fun line hl => hthere line hl (h.there line (hsub.subset hl))
  · exact fun line hl => ⟨line, hsub.subset hl, .refl line⟩
  · exact fun line hl status hs => .inl ⟨line, hsub.subset hl, .refl line, hs⟩

theorem System.Agrees.set_job (h : s.Agrees) (hhistory : s'.History) (hg : s.Grows s') {i : Nat}
    {caller : Caller Z} (hset : s'.callers = s.callers.set i { caller with job })
    (hj : job.Holds s') : s'.Agrees := by
  refine h.onward hhistory hg ?_
  intro other hmem
  rw [hset] at hmem
  obtain hmem | rfl := mem_or_eq_of_mem_set hmem
  · exact .inl hmem
  · exact .inr hj

theorem System.History.recorded (h : s.History) {line : ScheduleRunRow}
    {lines : List ScheduleRunRow} (hnew : line.id ∉ s.made)
    (hresult : line.result = none) (hthere : line.scheduleId ∈ s.store.schedules.map (·.id))
    (hbegun : line.outcome = .started → s.Begun line.runId) (hg : s.Grows s')
    (hbook : Book s'.runs s'.made s'.started s'.ended) (hmade : line.id ∈ s'.made)
    (hstore : s'.store = { s.store with lines })
    (hsub : lines.Sublist (s.store.lines ++ [line])) : s'.History := by
  have hmem : ∀ other ∈ s'.store.lines, other ∈ s.store.lines ∨ other = line := by
    intro other ho
    rw [hstore] at ho
    simpa using hsub.subset ho
  refine ⟨hbook, ?_, ?_, ?_, ?_, ?_⟩
  · rw [hstore]
    refine List.Nodup.sublist (hsub.map _) ?_
    rw [map_append, map_singleton, nodup_append]
    refine ⟨h.ids, List.nodup_singleton _, ?_⟩
    intro id hid id' hid'
    obtain ⟨other, ho, rfl⟩ := mem_map.mp hid
    rw [mem_singleton.mp hid']
    exact fun heq => hnew (heq ▸ h.known other ho)
  · intro other ho
    obtain ho | rfl := hmem other ho
    · exact hg.made _ (h.known other ho)
    · exact hmade
  · intro other ho
    have hschedules : s'.store.schedules = s.store.schedules := by rw [hstore]
    rw [hschedules]
    obtain ho | rfl := hmem other ho
    · exact h.there other ho
    · exact hthere
  · intro other ho hout
    obtain ho | rfl := hmem other ho
    · exact (h.begun other ho hout).later hg
    · exact (hbegun hout).later hg
  · intro other ho hout status hs
    obtain ho | rfl := hmem other ho
    · exact (h.given other ho hout status hs).later h.book hg
    · rw [hresult] at hs
      cases hs

theorem mem_ids_of_schedule {store : Store} {id : String} {row : ScheduleRow}
    (h : store.schedule id = some row) : id ∈ store.schedules.map (·.id) := by
  have hid : row.id = id := by simpa using List.find?_some h
  exact hid ▸ mem_map_of_mem (mem_of_find?_eq_some h)

theorem System.Agrees.step (h : s.Agrees) {a : Act Z} (hlook : s.looksElsewhere a = false)
    (hs : s.step c a = some s') : s'.Agrees := by
  have hg := step_grows hs
  have hbook := h.history.book
  cases a with
  | clock now =>
    rw [System.step] at hs
    split at hs
    · cases hs
      exact h.onward (h.history.fewer hbook hg (.refl _) fun _ _ ht => ht) hg
        fun _ hmem => .inl hmem
    · cases hs
  | tick | runNow id | rezone
  | enable id enabled => obtain rfl := Option.some.inj hs; exact h.begin_ trivial
  | change id fields =>
    rw [System.step] at hs
    split at hs
    · cases hs
      exact h.begin_ trivial
    · cases hs
  | settle =>
    cases hs
    exact h.begin_ fun line hl => (not_mem_nil hl).elim
  | go i =>
    obtain ⟨caller, hi, hs⟩ := bind_eq_some_iff.mp hs
    obtain ⟨⟨job', s₁⟩, hgo, rfl⟩ := map_eq_some_iff.mp hs
    have hj := h.callers caller (mem_of_getElem? hi)
    have hkind : ∀ line schedule runId rest, caller.job = .looking line schedule runId rest →
        ∀ kind, (runId, kind) ∈ s.started → kind ≠ schedule.targetKind →
          s.runs.find kind runId = none := by
      intro line schedule runId rest hjob kind hmem hne
      simp only [System.looksElsewhere, hi, any_some, hjob, any_eq_false] at hlook
      have hlook := hlook _ hmem
      by_contra hthere
      exact hlook (by simp [hne, isSome_iff_ne_none.mpr hthere])
    have hj' := goJob_holds h.history hj hkind hgo
    obtain ⟨store, told, acted, rfl, htouch⟩ := goJob_touch hgo
    exact h.set_job (htouch.history h.history hj) hg rfl (hj'.later hbook hg)
  | door i answer =>
    obtain ⟨caller, hi, hs⟩ := bind_eq_some_iff.mp hs
    split at hs
    · split at hs
      · cases hs
      · rename_i taken _ _
        cases answer with
        | error error =>
          cases hs
          exact h.set_job (h.history.fewer hbook hg (.refl _) fun _ _ ht => ht) hg rfl
            (afterRefusal_holds taken error)
        | ok begun =>
          obtain ⟨runId, run⟩ := begun
          rw [System.answerDoor] at hs
          simp only at hs
          split at hs
          · cases hs
          rename_i hfresh
          obtain ⟨hnew, hactive⟩ := not_or.mp hfresh
          cases hs
          exact h.set_job (h.history.fewer (hbook.begun hnew (not_not.mp hactive)) hg (.refl _)
            fun _ _ ht => ht) hg rfl fun _ => ⟨runId, _, rfl, mem_cons_self ..⟩
    · cases hs
  | record i id =>
    obtain ⟨caller, hi, hs⟩ := bind_eq_some_iff.mp hs
    have hj := h.callers caller (mem_of_getElem? hi)
    split at hs
    · rename_i taken outcome runId note notice hjob
      rw [hjob] at hj
      split at hs
      · cases hs
      rename_i hnew
      split at hs
      · cases hs
        exact h.set_job (h.history.fewer hbook hg (.refl _) fun _ _ ht => ht) hg rfl trivial
      · rename_i row store hrecorded
        obtain ⟨hthere, lines, rfl, hsub, -, -⟩ := Store.recordScheduleRun_some hrecorded
        cases hs
        obtain ⟨schedule, hschedule⟩ := isSome_iff_exists.mp hthere
        have hfresh : (lineOf taken id outcome runId note).id ∉ s.made := hnew
        have hhistory := h.history.recorded hfresh rfl
          (mem_ids_of_schedule hschedule) hj hg (hbook.more fun _ => mem_cons_of_mem _)
          (mem_cons_self ..) rfl hsub
        exact h.set_job hhistory hg rfl (afterLine_holds taken)
    · cases hs
  | add id fields =>
    rw [System.step] at hs
    split at hs
    · split at hs
      · cases hs
      · cases hs
        refine h.onward (h.history.fewer (hbook.more fun _ => mem_cons_of_mem _) hg (.refl _)
          ?_) hg fun _ hmem => .inl hmem
        intro line _ hthere
        rw [Store.addSchedule, map_append]
        exact mem_append_left _ hthere
    · cases hs
  | remove id =>
    cases hs
    refine h.onward (h.history.fewer hbook hg filter_sublist ?_) hg fun _ hmem => .inl hmem
    intro line hl hthere
    obtain ⟨row, hrow, hid⟩ := mem_map.mp hthere
    have hne : line.scheduleId ≠ id := of_decide_eq_true (mem_filter.mp hl).2
    exact mem_map.mpr
      ⟨row, mem_filter.mpr ⟨hrow, decide_eq_true (hid ▸ hne)⟩, hid⟩
  | forgetWorkspace id =>
    cases hs
    refine h.onward (h.history.fewer hbook hg (.refl _) ?_) hg fun _ hmem => .inl hmem
    intro line _ hthere
    obtain ⟨row, hrow, hid⟩ := mem_map.mp hthere
    refine mem_map.mpr ⟨_, mem_map_of_mem hrow, ?_⟩
    split <;> exact hid
  | setProjects live =>
    cases hs
    exact h.onward (h.history.fewer hbook hg (.refl _) fun _ _ ht => ht) hg
      fun _ hmem => .inl hmem
  | queueRun kind id run =>
    rw [System.step] at hs
    split at hs
    · cases hs
    rename_i hfresh
    obtain ⟨hnew, hactive⟩ := not_or.mp hfresh
    cases hs
    exact h.onward (h.history.fewer (hbook.queued hnew (not_not.mp hactive)) hg (.refl _)
      fun _ _ ht => ht) hg fun _ hmem => .inl hmem
  | moveRun kind id run =>
    rw [System.step] at hs
    split at hs
    · cases hs
    rename_i old hold
    split at hs
    · rename_i hcond
      obtain ⟨hwas, hstatus⟩ := hcond
      cases hs
      have hbook : Book (s.runs.update kind id run) s.made s.started
          (if run.active kind then s.ended else (kind, id, run.status) :: s.ended) := by
        split
        · rename_i hactive
          exact hbook.wentOn hold hwas hactive
        · rename_i hover
          exact hbook.endedNow hold hwas (Bool.not_eq_true _ ▸ hover) hstatus
      exact h.onward (h.history.fewer hbook hg (.refl _) fun _ _ ht => ht) hg
        fun _ hmem => .inl hmem
    · cases hs
  | pruneRun kind id =>
    cases hs
    exact h.onward (h.history.fewer (hbook.pruned kind id) hg (.refl _) fun _ _ ht => ht) hg
      fun _ hmem => .inl hmem

/-! ## A pass over the lines -/

/-- The lines that a caller of `settle` may still give an ending. -/
def Job.owed : Job Z → List ScheduleRunRow
  | .settle lines => lines.getD []
  | .looking line _ _ rest | .ending line _ _ _ rest => line :: rest
  | .marking _ _ rest => rest
  | _ => []

def Job.Owes (id : String) (job : Job Z) : Prop :=
  job = .settle none ∨ ∃ line ∈ job.owed, line.id = id

def System.RunOver (s : System Z) (runId : Option String) : Prop :=
  ∀ id kind run, runId = some id → (id, kind) ∈ s.started → s.runs.find kind id = some run →
    run.active kind = false

def System.Done (s : System Z) (id : String) : Prop :=
  ∀ line ∈ s.store.lines, line.id = id → line.result.isSome

theorem System.RunOver.later {runId : Option String} (h : s.RunOver runId) (hbegun : s.Begun runId)
    (hb : Book s.runs s.made s.started s.ended) (hb' : Book s'.runs s'.made s'.started s'.ended)
    (hg : s.Grows s') : s'.RunOver runId := by
  intro id kind run hid hstarted hfound
  obtain ⟨id', kind', hid', hstarted'⟩ := hbegun
  cases hid.symm.trans hid'
  obtain rfl := hb'.startedOnce _ _ _ (hg.started _ hstarted') hstarted
  cases hwas : s.runs.find kind id with
  | none =>
    rw [hg.gone kind id (hb.startedKnown _ hstarted') hwas] at hfound
    cases hfound
  | some old =>
    have hover := h id kind old hid hstarted' hwas
    exact (hb'.endedOver _ _ _ _ (hg.ended _ (hb.atEnd _ _ _ hwas hover)) hfound).1

theorem System.Done.later {id : String} (h : s.Done id) (hmade : id ∈ s.made) (hg : s.Grows s') :
    s'.Done id := by
  intro line hl hid
  obtain ⟨old, hold, hline⟩ := hg.lines line hl (hid ▸ hmade)
  obtain ⟨status, hs⟩ := isSome_iff_exists.mp (h old hold (hline.id ▸ hid))
  rw [hline.result status hs]
  rfl

theorem lookedUp_over (hb : Book s.runs s.made s.started s.ended) {line : ScheduleRunRow}
    {schedule : ScheduleRow} {runId : String} {rest : List ScheduleRunRow}
    (hrun : line.runId = some runId) (hbegun : s.Begun line.runId) (hover : s.RunOver line.runId) :
    ∃ status reason, lookedUp (Z := Z) s.runs line schedule runId rest =
      .ending line schedule status reason rest := by
  rw [lookedUp]
  split
  · exact ⟨_, _, rfl⟩
  rename_i run hfound
  obtain ⟨id, kind, hid, hstarted⟩ := hbegun
  obtain rfl := Option.some.inj (hid.symm.trans hrun)
  obtain rfl := hb.own _ _ _ _ hstarted hfound
  have hactive := hover id _ run hid hstarted hfound
  split
  -- one that waits for approval is going
  · rename_i hwaits
    rw [hwaits.1] at hactive
    simp [RunRow.active, hwaits.2] at hactive
  · rw [if_neg (by rw [hactive]; exact Bool.false_ne_true)]
    exact ⟨_, _, rfl⟩

theorem goJob_owes {id : String} (hs : s.History) (hj : job.Holds s)
    (hover : ∀ line ∈ s.store.lines, line.id = id → line.outcome = .started ∧ s.RunOver line.runId)
    (howes : job.Owes id) (h : s.goJob c job = some (job', s')) : s'.Done id ∨ job'.Owes id := by
  -- a line that is nowhere has nothing to be given
  have here : ∀ line, s.Copied line → line.id = id →
      s.Done id ∨ ∃ there ∈ s.store.lines, LineOf there line := by
    intro line hcopied hid
    by_cases hthere : ∃ there ∈ s.store.lines, there.id = id
    · obtain ⟨there, hmem, hid'⟩ := hthere
      exact .inr ⟨there, hmem, hcopied.same there hmem (hid'.trans hid.symm)⟩
    · exact .inl fun line hl hid => absurd ⟨line, hl, hid⟩ hthere
  obtain rfl | ⟨line, hline, hid⟩ := howes
  · cases h
    by_cases hleft : ∃ line ∈ s.store.lines, line.id = id ∧ line.result = none
    · obtain ⟨line, hl, hid, hnone⟩ := hleft
      refine .inr (.inr ⟨line, ?_, hid⟩)
      show line ∈ s.store.unsettledScheduleRuns
      rw [Store.unsettledScheduleRuns, List.mem_insertionSort, mem_filter]
      refine ⟨hl, ?_⟩
      rw [Store.unsettled, (hover line hl hid).1, hnone]
      rfl
    · left
      intro line hl hid
      rw [isSome_iff_ne_none]
      exact fun hnone => hleft ⟨line, hl, hid, hnone⟩
  · cases job with
    | settle lines =>
      match lines with
      | none | some [] => exact (not_mem_nil hline).elim
      | some (first :: rest) =>
        rw [System.goJob] at h
        split at h
        · rename_i hnone
          cases h
          obtain rfl | hrest := mem_cons.mp hline
          · obtain hdone | ⟨there, hmem, hof⟩ := here line (hj line hline) hid
            · exact .inl hdone
            -- a line is of a schedule that is there
            · obtain ⟨row, hrow, hrid⟩ := mem_map.mp (hof.scheduleId ▸ hs.there there hmem)
              have hnone := List.find?_eq_none.mp hnone row hrow
              exact absurd (decide_eq_true hrid) hnone
          · exact .inr (.inr ⟨line, hrest, hid⟩)
        · split at h
          · rename_i hnone
            obtain ⟨run, kind, hrun, -⟩ := (hj first (mem_cons_self ..)).begun
            rw [hnone] at hrun
            cases hrun
          · cases h
            exact .inr (.inr ⟨line, hline, hid⟩)
    | looking first schedule runId rest =>
      cases h
      obtain rfl | hrest := mem_cons.mp hline
      · obtain hdone | ⟨there, hmem, hof⟩ := here line (hj.2 line hline) hid
        · exact .inl hdone
        · have hrun := (hover there hmem (hof.id.trans hid)).2
          have hended : ∃ status reason, lookedUp (Z := Z) s.runs line schedule runId rest =
              .ending line schedule status reason rest :=
            lookedUp_over hs.book hj.1 (hj.2 line hline).begun (hof.runId ▸ hrun)
          obtain ⟨status, reason, heq⟩ := hended
          rw [heq]
          exact .inr (.inr ⟨line, hline, hid⟩)
      · right
        rw [lookedUp]
        split
        · exact .inr ⟨line, hline, hid⟩
        split
        · split <;> exact .inr ⟨line, hrest, hid⟩
        · split
          · exact .inr ⟨line, hrest, hid⟩
          · exact .inr ⟨line, hline, hid⟩
    | marking first schedule rest => cases h; exact .inr (.inr ⟨line, hline, hid⟩)
    | ending first schedule status reason rest =>
      cases h
      obtain rfl | hrest := mem_cons.mp hline
      · left
        intro other ho hoid
        obtain ⟨old, hold, rfl⟩ := mem_map.mp ho
        split
        · rfl
        rename_i hcond
        rw [if_neg hcond] at hoid
        rw [isSome_iff_ne_none]
        intro hnone
        exact hcond (by simp [hoid, hid, hnone])
      · exact .inr (.inr ⟨line, hrest, hid⟩)
    | _ => exact (not_mem_nil hline).elim

theorem step_owing {a : Act Z} {i : Nat} {caller : Caller Z} {id : String}
    (hi : s.callers[i]? = some caller) (howes : caller.job.Owes id) (hs : s.step c a = some s') :
    s'.callers[i]? = some caller ∨
      ∃ job' s₁, s.goJob c caller.job = some (job', s₁) ∧ s' = s₁.setJob i caller job' ∧
        s₁.callers = s.callers := by
  have idle : ∀ taken : Taken Z, ¬ (Job.asking taken).Owes id := by
    rintro taken (heq | ⟨line, hl, -⟩)
    · cases heq
    · exact not_mem_nil hl
  have unwritten : ∀ (taken : Taken Z) outcome runId note notice,
      ¬ (Job.recording taken outcome runId note notice).Owes id := by
    rintro taken outcome runId note notice (heq | ⟨line, hl, -⟩)
    · cases heq
    · exact not_mem_nil hl
  cases a with
  | go j =>
    obtain ⟨other, hj, hs⟩ := bind_eq_some_iff.mp hs
    obtain ⟨⟨job', s₁⟩, hgo, rfl⟩ := map_eq_some_iff.mp hs
    obtain ⟨store, told, acted, rfl, -⟩ := goJob_touch hgo
    by_cases hij : i = j
    · subst hij
      cases hj.symm.trans hi
      exact .inr ⟨job', _, hgo, rfl, rfl⟩
    · exact .inl ((get_set_ne hij).trans hi)
  | door j answer =>
    left
    obtain ⟨other, hj, hs⟩ := bind_eq_some_iff.mp hs
    have hij : ∀ taken, other.job = .asking taken → i ≠ j := by
      rintro taken hjob rfl
      cases hj.symm.trans hi
      exact idle taken (hjob ▸ howes)
    split at hs
    · rename_i taken hjob
      split at hs
      · cases hs
      cases answer with
      | error error =>
        cases hs
        exact (get_set_ne (hij taken hjob)).trans hi
      | ok begun =>
        rw [System.answerDoor] at hs
        simp only at hs
        split at hs
        · cases hs
        · cases hs
          exact (get_set_ne (hij taken hjob)).trans hi
    · cases hs
  | record j id' =>
    left
    obtain ⟨other, hj, hs⟩ := bind_eq_some_iff.mp hs
    split at hs
    · rename_i taken outcome runId note notice hjob
      have hij : i ≠ j := by
        rintro rfl
        cases hj.symm.trans hi
        exact unwritten taken _ _ _ _ (hjob ▸ howes)
      split at hs
      · cases hs
      split at hs
      · cases hs
        exact (get_set_ne hij).trans hi
      · cases hs
        exact (get_set_ne hij).trans hi
    · cases hs
  | tick | runNow id' | rezone | enable id' enabled
  | settle => obtain rfl := Option.some.inj hs; exact .inl (get_append_left hi)
  | change id' fields =>
    rw [System.step] at hs
    split at hs
    · cases hs
      exact .inl (get_append_left hi)
    · cases hs
  | clock now =>
    rw [System.step] at hs
    split at hs
    · cases hs
      exact .inl hi
    · cases hs
  | add id' fields =>
    rw [System.step] at hs
    split at hs
    · split at hs
      · cases hs
      · cases hs
        exact .inl hi
    · cases hs
  | remove id' | forgetWorkspace id' | setProjects live
  | pruneRun kind id' => obtain rfl := Option.some.inj hs; exact .inl hi
  | queueRun kind id' run =>
    rw [System.step] at hs
    split at hs
    · cases hs
    · cases hs
      exact .inl hi
  | moveRun kind id' run =>
    rw [System.step] at hs
    split at hs
    · cases hs
    split at hs
    · cases hs
      exact .inl hi
    · cases hs

/-- A caller is on its way to give a line its ending, or the line has it. -/
structure System.Owing (s : System Z) (i : Nat) (id : String) : Prop where
  agrees : s.Agrees
  made : id ∈ s.made
  atEnd : ∀ line ∈ s.store.lines, line.id = id → line.outcome = .started ∧ s.RunOver line.runId
  pass : s.Done id ∨ ∃ caller, s.callers[i]? = some caller ∧ caller.job.Owes id

theorem System.Owing.step {a : Act Z} {i : Nat} {id : String} (h : s.Owing i id)
    (hlook : s.looksElsewhere a = false) (hs : s.step c a = some s') : s'.Owing i id := by
  have hagrees := h.agrees.step hlook hs
  have hg := step_grows hs
  refine ⟨hagrees, hg.made id h.made, ?_, ?_⟩
  · intro line hl hid
    obtain ⟨old, hold, hline⟩ := hg.lines line hl (hid ▸ h.made)
    obtain ⟨hout, hover⟩ := h.atEnd old hold (hline.id ▸ hid)
    refine ⟨hline.outcome.trans hout, ?_⟩
    rw [hline.runId]
    exact hover.later (h.agrees.history.begun old hold hout) h.agrees.history.book
      hagrees.history.book hg
  · obtain hdone | ⟨caller, hi, howes⟩ := h.pass
    · exact .inl (hdone.later h.made hg)
    · obtain hstays | ⟨job', s₁, hgo, rfl, hcallers⟩ := step_owing hi howes hs
      · exact .inr ⟨caller, hstays, howes⟩
      · have hj := h.agrees.callers caller (mem_of_getElem? hi)
        obtain hdone | howes := goJob_owes h.agrees.history hj h.atEnd howes hgo
        · exact .inl hdone
        · refine .inr ⟨{ caller with job := job' }, ?_, howes⟩
          exact get_set_self (hcallers ▸ hi)

/-- **A pass carried to its end** leaves no line behind whose run was over when it began. -/
theorem pass_settles {acts : List (Act Z)} {i : Nat} {caller caller' : Caller Z}
    {line : ScheduleRunRow} (h : s.Agrees)
    (hm : Meets (System.step c) (fun s a => s.looksElsewhere a = false) s acts)
    (hr : run (System.step c) s acts = some s') (hi : s.callers[i]? = some caller)
    (hjob : caller.job = .settle none) (hi' : s'.callers[i]? = some caller')
    (hover' : caller'.job = .atEnd) (hl : line ∈ s.store.lines) (hout : line.outcome = .started)
    (hover : s.RunOver line.runId) : s'.Done line.id := by
  have hline : ∀ other ∈ s.store.lines, other.id = line.id →
      other.outcome = .started ∧ s.RunOver other.runId := by
    intro other ho hid
    obtain rfl := List.inj_on_of_nodup_map h.history.ids ho hl hid
    exact ⟨hout, hover⟩
  have howing : s.Owing i line.id :=
    ⟨h, h.history.known line hl, hline, .inr ⟨caller, hi, .inl hjob⟩⟩
  have hstep : ∀ (s₁ : System Z) a s₂, s₁.Owing i line.id → s₁.looksElsewhere a = false →
      s₁.step c a = some s₂ → s₂.Owing i line.id :=
    fun _ _ _ hinv hcond hs => hinv.step hcond hs
  have howing := hm.invariant hstep hr howing
  obtain hdone | ⟨other, ho, howes⟩ := howing.pass
  · exact hdone
  · cases ho.symm.trans hi'
    rw [hover'] at howes
    obtain heq | ⟨left, hleft, -⟩ := howes
    · cases heq
    · exact (not_mem_nil hleft).elim

/-- How many operations a pass has left at most. -/
def Job.toGo : Job Z → Nat
  | .settle (some lines) => 3 * lines.length + 1
  | .looking _ _ _ rest => 3 * rest.length + 3
  | .marking _ _ rest | .ending _ _ _ _ rest => 3 * rest.length + 2
  | _ => 0

theorem goJob_toGo (h : 0 < job.toGo) : ∃ job' s', s.goJob c job = some (job', s') ∧
    (job' = .atEnd ∨ (0 < job'.toGo ∧ job'.toGo < job.toGo)) := by
  cases job with
  | settle lines =>
    match lines with
    | none => exact absurd h (Nat.lt_irrefl 0)
    | some [] => exact ⟨.atEnd, s, rfl, .inl rfl⟩
    | some (line :: rest) =>
      rw [System.goJob]
      split
      · exact ⟨_, _, rfl, .inr ⟨by simp [Job.toGo], by simp [Job.toGo]⟩⟩
      · split
        · exact ⟨_, _, rfl, .inr ⟨by simp [Job.toGo], by simp [Job.toGo]; omega⟩⟩
        · exact ⟨_, _, rfl, .inr ⟨by simp [Job.toGo], by simp [Job.toGo]; omega⟩⟩
  | looking line schedule runId rest =>
    refine ⟨_, _, rfl, .inr ?_⟩
    rw [lookedUp]
    split
    · exact ⟨by simp [Job.toGo], by simp [Job.toGo]⟩
    · split
      · split <;> exact ⟨by simp [Job.toGo], by simp [Job.toGo]⟩
      · split <;> exact ⟨by simp [Job.toGo], by simp [Job.toGo]⟩
  | marking line schedule rest | ending line schedule status reason rest =>
    exact ⟨_, _, rfl, .inr ⟨by simp [Job.toGo], by simp [Job.toGo]⟩⟩
  | _ => exact absurd h (Nat.lt_irrefl 0)

theorem pass_ends (i n : Nat) : ∀ (s : System Z) (caller : Caller Z),
    s.callers[i]? = some caller → 0 < caller.job.toGo → caller.job.toGo ≤ n →
    ∃ k s' caller', run (System.step c) s (List.replicate k (.go i)) = some s' ∧
      s'.callers[i]? = some caller' ∧ caller'.job = .atEnd := by
  induction n with
  | zero => exact fun s caller _ hpos hle => absurd (Nat.lt_of_lt_of_le hpos hle) (Nat.lt_irrefl 0)
  | succ n ih =>
    intro s caller hi hpos hle
    obtain ⟨job', s₁, hgo, hnext⟩ := goJob_toGo (c := c) (s := s) hpos
    obtain ⟨store, told, acted, rfl, -⟩ := goJob_touch hgo
    have hstep : s.step c (.go i) =
        some (({ s with store, told, acted } : System Z).setJob i caller job') := by
      rw [System.step, hi, bind_some, hgo]
      rfl
    have hi' : (({ s with store, told, acted } : System Z).setJob i caller job').callers[i]? =
        some { caller with job := job' } := get_set_self hi
    obtain rfl | ⟨hpos', hlt⟩ := hnext
    · exact ⟨1, _, _, run_cons.mpr ⟨_, hstep, rfl⟩, hi', rfl⟩
    · obtain ⟨k, s', caller', hrun, hend, hover⟩ :=
        ih _ _ hi' hpos' (Nat.le_of_lt_succ (Nat.lt_of_lt_of_le hlt hle))
      exact ⟨k + 1, s', caller', run_cons.mpr ⟨_, hstep, hrun⟩, hend, hover⟩

theorem settle_ends {i : Nat} {caller : Caller Z} (hi : s.callers[i]? = some caller)
    (hjob : caller.job = .settle none) :
    ∃ k s' caller', run (System.step c) s (List.replicate k (.go i)) = some s' ∧
      s'.callers[i]? = some caller' ∧ caller'.job = .atEnd := by
  have hstep : s.step c (.go i) =
      some (s.setJob i caller (.settle (some s.store.unsettledScheduleRuns))) := by
    rw [System.step, hi, bind_some, hjob]
    rfl
  obtain ⟨k, s', caller', hrun, hend⟩ := pass_ends (c := c) i _
    (s.setJob i caller (.settle (some s.store.unsettledScheduleRuns))) _ (get_set_self hi)
    (Nat.succ_pos _) (Nat.le_refl _)
  exact ⟨k + 1, s', caller', run_cons.mpr ⟨_, hstep, hrun⟩, hend⟩

/-- What is to be said of the lines in a state that was reached, and of what follows it. -/
structure System.Settles (c : Calendar Z) (s : System Z) : Prop where
  /-- A line is left alone while the run it started is going. -/
  waits : ∀ line ∈ s.store.lines, line.outcome = .started → ∀ id kind run, line.runId = some id →
    (id, kind) ∈ s.started → s.runs.find kind id = some run → run.active kind = true →
    line.result = none
  /-- A result is the run's own final status, or `gone`. -/
  own : ∀ line ∈ s.store.lines, line.outcome = .started → ∀ status ∈ line.result,
    ∃ id kind, line.runId = some id ∧ (id, kind) ∈ s.started ∧
      ((kind, id, status) ∈ s.ended ∨ (status = "gone" ∧ s.runs.find kind id = none))
  gone : ∀ line ∈ s.store.lines, line.outcome = .started → line.result = some "gone" →
    ∀ id kind, line.runId = some id → (id, kind) ∈ s.started → s.runs.find kind id = none
  /-- A result is written once. -/
  once : ∀ acts s', run (System.step c) s acts = some s' → ∀ line ∈ s.store.lines,
    ∀ line' ∈ s'.store.lines, line'.id = line.id → ∀ status ∈ line.result,
      line'.result = some status
  /-- A pass that begins when a run is over has given its line a result when it ends. -/
  settled : ∀ acts s', Meets (System.step c) (fun s a => s.looksElsewhere a = false) s acts →
    run (System.step c) s acts = some s' →
    ∀ (i : Nat) (caller caller' : Caller Z), s.callers[i]? = some caller →
    caller.job = .settle none → s'.callers[i]? = some caller' → caller'.job = .atEnd →
    ∀ line ∈ s.store.lines, line.outcome = .started → s.RunOver line.runId →
    ∀ line' ∈ s'.store.lines, line'.id = line.id → line'.result.isSome
  /-- A pass that is gone on with comes to its end. -/
  ends : ∀ (i : Nat) (caller : Caller Z), s.callers[i]? = some caller →
    caller.job = .settle none → ∃ k s' caller',
      run (System.step c) s (List.replicate k (.go i)) = some s' ∧
        s'.callers[i]? = some caller' ∧ caller'.job = .atEnd

theorem ScheduleTarget.gone_not_status (kind : ScheduleTarget) : "gone" ∉ kind.statuses := by
  cases kind <;> decide

theorem start_agrees (now : Moment Z) : (System.start now).Agrees where
  history :=
    { book :=
        { known := fun kind id run hf => by cases kind <;> cases hf
          startedKnown := fun _ h => (not_mem_nil h).elim
          startedOnce := fun _ _ _ h => (not_mem_nil h).elim
          own := fun _ _ _ _ h => (not_mem_nil h).elim
          atEnd := fun kind id run hf => by cases kind <;> cases hf
          endedKnown := fun _ _ _ h => (not_mem_nil h).elim
          endedStatus := fun _ _ _ h => (not_mem_nil h).elim
          endedOver := fun _ _ _ _ h => (not_mem_nil h).elim
          endedOnce := fun _ _ _ _ h => (not_mem_nil h).elim }
      ids := .nil
      known := fun _ h => (not_mem_nil h).elim
      there := fun _ h => (not_mem_nil h).elim
      begun := fun _ h => (not_mem_nil h).elim
      given := fun _ h => (not_mem_nil h).elim }
  callers := fun _ h => (not_mem_nil h).elim

/-- **Each line is given its own run's ending**, in every run in which runs are looked up as what
    they were started as. -/
theorem settles_own_ending {now : Moment Z} {acts : List (Act Z)}
    (hm : Meets (System.step c) (fun s a => s.looksElsewhere a = false) (System.start now) acts)
    (hr : run (System.step c) (System.start now) acts = some s) : s.Settles c := by
  have h : s.Agrees := hm.invariant (fun s a s' hi hcond hs =>
    hi.step hcond hs) hr (start_agrees now)
  have hb := h.history.book
  refine ⟨?_, h.history.given, ?_, ?_, ?_, fun i caller hi hjob => settle_ends hi hjob⟩
  · intro line hl hout id kind run hid hstarted hfound hactive
    rw [eq_none_iff_forall_ne_some]
    intro status hs
    obtain ⟨id', kind', hid', hstarted', hend⟩ := h.history.given line hl hout status hs
    cases hid.symm.trans hid'
    obtain rfl := hb.startedOnce _ _ _ hstarted hstarted'
    obtain hended | ⟨-, hnone⟩ := hend
    · exact hb.not_ended hfound hactive status hended
    · rw [hnone] at hfound
      cases hfound
  · intro line hl hout hgone id kind hid hstarted
    obtain ⟨id', kind', hid', hstarted', hend⟩ := h.history.given line hl hout "gone" hgone
    cases hid.symm.trans hid'
    obtain rfl := hb.startedOnce _ _ _ hstarted hstarted'
    obtain hended | ⟨-, hnone⟩ := hend
    · exact absurd (hb.endedStatus _ _ _ hended) kind'.gone_not_status
    · exact hnone
  · intro acts' s' hr' line hl line' hl' hid status hs
    obtain ⟨old, hold, hline⟩ := (run_grows hr').lines line' hl' (hid ▸ h.history.known line hl)
    obtain rfl := List.inj_on_of_nodup_map h.history.ids hold hl (hline.id.symm.trans hid)
    exact hline.result status hs
  · intro acts' s' hm' hr' i caller caller' hi hjob hi' hover' line hl hout hover
    exact pass_settles h hm' hr' hi hjob hi' hover' hl hout hover

end

/-- A review is started, edited, and settled when its run has ended. -/
def settledReview : List (Act Unit) :=
  [.setProjects ["project-1"], .add "review-1" (reviewFields (.every 60)),
    .clock ⟨3600000, ()⟩, .tick, .go 0, .go 0, .door 0 (.ok ("run-1", ⟨"queued", none, []⟩)),
    .record 0 "line-1", .settle, .go 1, .go 1, .go 1, .go 1,
    .change "review-1" (reviewFields (.every 30)), .go 2,
    .moveRun .workflow "run-1" ⟨"succeeded", none, []⟩, .settle, .go 3, .go 3, .go 3, .go 3, .go 3]

theorem settled_review_succeeded :
    ∃ s, run (System.step midnights) (System.start ⟨0, ()⟩) settledReview = some s ∧
      s.store.lines.map (·.result) = [some "succeeded"] ∧ s.Settles midnights := by
  have h : (run (System.step midnights) (System.start ⟨0, ()⟩) settledReview).map
      (fun s => s.store.lines.map (·.result)) = some [some "succeeded"] := by
    decide +kernel
  obtain ⟨s, hs, hresults⟩ := map_eq_some_iff.mp h
  have hm : Meets (System.step midnights) (fun s a => s.looksElsewhere a = false)
      (System.start ⟨0, ()⟩) settledReview := by
    have hm : meets (System.step midnights) (fun s a => !s.looksElsewhere a)
        (System.start ⟨0, ()⟩) settledReview = true := by decide +kernel
    simpa only [Bool.not_eq_true'] using meets_iff.mp hm
  exact ⟨s, hs, hresults, settles_own_ending hm hs⟩

/-- A review is made to start a smoke test while the workflow it started is still queued. -/
def editedAway : List (Act Unit) :=
  [.setProjects ["project-1"], .add "review-1" (reviewFields (.every 60)),
    .clock ⟨3600000, ()⟩, .tick, .go 0, .go 0, .door 0 (.ok ("run-1", ⟨"queued", none, []⟩)),
    .record 0 "line-1",
    .change "review-1" { reviewFields (.every 60) with targetKind := .test, targetId := "smoke" },
    .go 1, .settle, .go 2, .go 2, .go 2, .go 2]

theorem edited_away :
    ∃ s, run (System.step midnights) (System.start ⟨0, ()⟩) editedAway = some s ∧
      s.store.lines.map (fun line => (line.runId, line.result)) = [(some "run-1", some "gone")] ∧
      s.runs.find .workflow "run-1" = some ⟨"queued", none, []⟩ ∧ ¬ s.Settles midnights := by
  have h : (run (System.step midnights) (System.start ⟨0, ()⟩) editedAway).map
      (fun s => s.store.lines.map fun line => (line.runId, line.result, line.outcome)) =
      some [(some "run-1", some "gone", .started)] := by
    decide +kernel
  have hruns : (run (System.step midnights) (System.start ⟨0, ()⟩) editedAway).map
      (fun s => (s.runs.find .workflow "run-1", s.started)) =
      some (some ⟨"queued", none, []⟩, [("run-1", .workflow)]) := by
    decide +kernel
  obtain ⟨s, hs, hlines⟩ := map_eq_some_iff.mp h
  rw [hs, map_some, Option.some.injEq] at hruns
  obtain ⟨hfound, hstarted⟩ := Prod.mk.inj hruns
  obtain ⟨line, hline, hfields⟩ := List.map_eq_singleton_iff.mp hlines
  obtain ⟨hrun, hresult, hout⟩ := Prod.mk.inj hfields |>.imp_right Prod.mk.inj
  refine ⟨s, hs, ?_, hfound, fun hsettles => ?_⟩
  · rw [hline, map_singleton, hrun, hresult]
  · have hgone := hsettles.gone line (hline ▸ mem_singleton_self line) hout hresult "run-1"
      .workflow hrun (hstarted ▸ mem_singleton_self _)
    rw [hgone] at hfound
    cases hfound

end Yardsort.Schedule
