import Yardsort.Lib.Run
import Yardsort.Lib.Table
import Yardsort.Schedule.Fire

/- What becomes of lines and runs, by any step.

   Runs have ids of their own, stay in the table they were started in, and end once (`Book`).
   Whatever step is taken, lines, runs and endings only grow (`step_grows`): a run that is gone
   stays gone, and a line keeps its run and its result. -/
namespace Yardsort.Schedule
open Yardsort.Lib

namespace Runs

@[simp] theorem table_setTable (runs : Runs) (kind : ScheduleTarget)
    (table : List (String × RunRow)) : (runs.setTable kind table).table kind = table := by
  cases kind <;> rfl

theorem table_setTable_ne {kind kind' : ScheduleTarget} (h : kind' ≠ kind) (runs : Runs)
    (table : List (String × RunRow)) : (runs.setTable kind table).table kind' = runs.table kind' := by
  cases kind <;> cases kind' <;> first | rfl | exact absurd rfl h

theorem find_setTable_ne {kind kind' : ScheduleTarget} (h : kind' ≠ kind) (runs : Runs)
    (table : List (String × RunRow)) (id : String) :
    (runs.setTable kind table).find kind' id = runs.find kind' id := by
  rw [find, table_setTable_ne h]
  rfl

variable {runs : Runs} {kind kind' : ScheduleTarget} {id id' : String} {run run' : RunRow}

theorem find_add (h : (runs.add kind id run).find kind' id' = some run') :
    runs.find kind' id' = some run' ∨ (kind' = kind ∧ id' = id ∧ run' = run) := by
  by_cases hkind : kind' = kind
  · subst hkind
    rw [find, add, table_setTable, List.find?_append] at h
    cases hold : (runs.table kind').find? (·.1 = id') with
    | some entry =>
      rw [hold] at h
      exact .inl (by rw [find, hold]; exact h)
    | none =>
      rw [hold, none_or, List.find?_singleton] at h
      split at h
      · rename_i heq
        exact .inr ⟨rfl, (of_decide_eq_true heq).symm, (Option.some.inj h).symm⟩
      · cases h
  · rw [add, find_setTable_ne hkind] at h
    exact .inl h

theorem find_update (h : (runs.update kind id run).find kind' id' = some run') :
    (kind' = kind ∧ id' = id ∧ run' = run) ∨
      (runs.find kind' id' = some run' ∧ ¬ (kind' = kind ∧ id' = id)) := by
  by_cases hkind : kind' = kind
  · subst hkind
    rw [find, update, table_setTable] at h
    obtain ⟨entry, hfind, rfl⟩ := map_eq_some_iff.mp h
    rw [List.find?_map] at hfind
    obtain ⟨old, hold, rfl⟩ := map_eq_some_iff.mp hfind
    have hkey : ((fun entry : String × RunRow => decide (entry.1 = id')) ∘
        fun entry => if entry.1 = id then (id, run) else entry) =
        fun entry => decide (entry.1 = id') := by
      funext entry
      show decide ((if entry.1 = id then (id, run) else entry).1 = id') = _
      split
      · rename_i heq
        rw [heq]
      · rfl
    rw [hkey] at hold
    have hid : old.1 = id' := by simpa using List.find?_some hold
    split
    · rename_i heq
      exact .inl ⟨rfl, hid.symm.trans heq, rfl⟩
    · rename_i hne
      refine .inr ⟨?_, fun h => hne (hid.trans h.2)⟩
      rw [find, hold]
      rfl
  · rw [update, find_setTable_ne hkind] at h
    exact .inr ⟨h, fun h => hkind h.1⟩

theorem find_remove (h : (runs.remove kind id).find kind' id' = some run') :
    runs.find kind' id' = some run' := by
  have kept : ∀ {table : List (String × RunRow)} {entry : String × RunRow},
      (table.filter (·.1 ≠ id)).find? (·.1 = id') = some entry →
      table.find? (·.1 = id') = some entry := by
    intro table entry
    induction table with
    | nil => exact fun h => h
    | cons first rest ih =>
      intro h
      by_cases hout : first.1 = id
      -- an entry that is gone is not the one that is found
      · rw [filter_cons_of_neg (by simpa using hout)] at h
        have hne : first.1 ≠ id' := by
          intro heq
          have hmem := mem_filter.mp (mem_of_find?_eq_some h)
          have hfound : entry.1 = id' := by simpa using List.find?_some h
          exact of_decide_eq_true hmem.2 (hfound.trans (heq.symm.trans hout))
        rw [List.find?_cons_of_neg (by simpa using hne)]
        exact ih h
      · rw [filter_cons_of_pos (by simpa using hout)] at h
        by_cases hid : first.1 = id'
        · rw [List.find?_cons_of_pos (by simpa using hid)] at h ⊢
          exact h
        · rw [List.find?_cons_of_neg (by simpa using hid)] at h ⊢
          exact ih h
  by_cases hkind : kind' = kind
  · subst hkind
    rw [find, remove, table_setTable] at h
    obtain ⟨entry, hfind, rfl⟩ := map_eq_some_iff.mp h
    rw [find, kept hfind]
    rfl
  · rw [remove, find_setTable_ne hkind] at h
    exact h

end Runs

/-- Runs have ids of their own, are in the table they were started in, and end once. -/
structure Book (runs : Runs) (made : List String) (started : List (String × ScheduleTarget))
    (ended : List (ScheduleTarget × String × String)) : Prop where
  known : ∀ kind id run, runs.find kind id = some run → id ∈ made
  startedKnown : ∀ entry ∈ started, entry.1 ∈ made
  startedOnce : ∀ id kind kind', (id, kind) ∈ started → (id, kind') ∈ started → kind' = kind
  own : ∀ id kind kind' run, (id, kind) ∈ started → runs.find kind' id = some run → kind' = kind
  atEnd : ∀ kind id run, runs.find kind id = some run → run.active kind = false →
    (kind, id, run.status) ∈ ended
  endedKnown : ∀ kind id status, (kind, id, status) ∈ ended → id ∈ made
  endedStatus : ∀ kind id status, (kind, id, status) ∈ ended → status ∈ kind.statuses
  endedOver : ∀ kind id status run, (kind, id, status) ∈ ended → runs.find kind id = some run →
    run.active kind = false ∧ run.status = status
  endedOnce : ∀ kind id status status', (kind, id, status) ∈ ended →
    (kind, id, status') ∈ ended → status' = status

namespace Book
variable {runs : Runs} {made made' : List String} {started : List (String × ScheduleTarget)}
  {ended : List (ScheduleTarget × String × String)} {kind : ScheduleTarget} {id : String}
  {run : RunRow}

theorem more (h : Book runs made started ended) (hmade : ∀ id ∈ made, id ∈ made') :
    Book runs made' started ended :=
  { h with
    known := fun kind id run hf => hmade _ (h.known kind id run hf)
    startedKnown := fun entry he => hmade _ (h.startedKnown entry he)
    endedKnown := fun kind id status he => hmade _ (h.endedKnown kind id status he) }

theorem queued (h : Book runs made started ended) (hnew : id ∉ made)
    (hactive : run.active kind = true) :
    Book (runs.add kind id run) (id :: made) started ended where
  known kind' id' run' hf := by
    obtain hold | ⟨-, rfl, -⟩ := Runs.find_add hf
    · exact mem_cons_of_mem _ (h.known _ _ _ hold)
    · exact mem_cons_self ..
  startedKnown entry he := mem_cons_of_mem _ (h.startedKnown entry he)
  startedOnce := h.startedOnce
  own id' kind' kind'' run' hs hf := by
    obtain hold | ⟨-, rfl, -⟩ := Runs.find_add hf
    · exact h.own _ _ _ _ hs hold
    · exact absurd (h.startedKnown _ hs) hnew
  atEnd kind' id' run' hf hover := by
    obtain hold | ⟨rfl, -, rfl⟩ := Runs.find_add hf
    · exact h.atEnd _ _ _ hold hover
    · rw [hactive] at hover
      cases hover
  endedKnown kind' id' status he := mem_cons_of_mem _ (h.endedKnown _ _ _ he)
  endedStatus := h.endedStatus
  endedOver kind' id' status run' he hf := by
    obtain hold | ⟨-, rfl, -⟩ := Runs.find_add hf
    · exact h.endedOver _ _ _ _ he hold
    · exact absurd (h.endedKnown _ _ _ he) hnew
  endedOnce := h.endedOnce

theorem begun (h : Book runs made started ended) (hnew : id ∉ made)
    (hactive : run.active kind = true) :
    Book (runs.add kind id run) (id :: made) ((id, kind) :: started) ended :=
  { h.queued hnew hactive with
    startedKnown := by
      intro entry he
      obtain rfl | he := mem_cons.mp he
      · exact mem_cons_self ..
      · exact mem_cons_of_mem _ (h.startedKnown entry he)
    startedOnce := by
      intro id' kind' kind'' h' h''
      obtain heq' | hin' := mem_cons.mp h'
      · cases heq'
        obtain heq'' | hin'' := mem_cons.mp h''
        · exact (Prod.mk.inj heq'').2
        · exact absurd (h.startedKnown _ hin'') hnew
      · obtain heq'' | hin'' := mem_cons.mp h''
        · cases heq''
          exact absurd (h.startedKnown _ hin') hnew
        · exact h.startedOnce _ _ _ hin' hin''
    own := by
      intro id' kind' kind'' run' hs hf
      obtain heq | hs := mem_cons.mp hs
      · cases heq
        obtain hold | ⟨rfl, -, -⟩ := Runs.find_add hf
        · exact absurd (h.known _ _ _ hold) hnew
        · rfl
      · exact (h.queued hnew hactive).own _ _ _ _ hs hf }

theorem not_ended (h : Book runs made started ended) (hfind : runs.find kind id = some run)
    (hactive : run.active kind = true) (status : String) : (kind, id, status) ∉ ended := by
  intro he
  have hover := (h.endedOver kind id status run he hfind).1
  rw [hactive] at hover
  cases hover

theorem all_update {P : ScheduleTarget → String → RunRow → Prop}
    (h : ∀ kind id run, runs.find kind id = some run → P kind id run) (hrun : P kind id run) :
    ∀ kind' id' run', (runs.update kind id run).find kind' id' = some run' → P kind' id' run' := by
  intro kind' id' run' hf
  obtain ⟨rfl, rfl, rfl⟩ | ⟨hkept, -⟩ := Runs.find_update hf
  · exact hrun
  · exact h _ _ _ hkept

theorem wentOn {old : RunRow} (h : Book runs made started ended)
    (hold : runs.find kind id = some old) (hwas : old.active kind = true)
    (hactive : run.active kind = true) :
    Book (runs.update kind id run) made started ended where
  known := all_update h.known (h.known _ _ _ hold)
  startedKnown := h.startedKnown
  startedOnce := h.startedOnce
  own _ kind' _ _ hs hf :=
    all_update (P := fun kind id _ => (id, kind') ∈ started → kind = kind')
      (fun _ _ _ hf hs => h.own _ _ _ _ hs hf) (fun hs => h.own _ _ _ _ hs hold) _ _ _ hf hs
  atEnd := all_update h.atEnd fun hover => by
    rw [hactive] at hover
    cases hover
  endedKnown := h.endedKnown
  endedStatus := h.endedStatus
  endedOver kind' id' status run' he hf := by
    obtain ⟨rfl, rfl, rfl⟩ | ⟨hkept, -⟩ := Runs.find_update hf
    · exact absurd he (h.not_ended hold hwas status)
    · exact h.endedOver _ _ _ _ he hkept
  endedOnce := h.endedOnce

theorem endedNow {old : RunRow} (h : Book runs made started ended)
    (hold : runs.find kind id = some old) (hwas : old.active kind = true)
    (hover : run.active kind = false) (hstatus : run.status ∈ kind.statuses) :
    Book (runs.update kind id run) made started ((kind, id, run.status) :: ended) where
  known := all_update h.known (h.known _ _ _ hold)
  startedKnown := h.startedKnown
  startedOnce := h.startedOnce
  own _ kind' _ _ hs hf :=
    all_update (P := fun kind id _ => (id, kind') ∈ started → kind = kind')
      (fun _ _ _ hf hs => h.own _ _ _ _ hs hf) (fun hs => h.own _ _ _ _ hs hold) _ _ _ hf hs
  atEnd := all_update (fun _ _ _ hf hover' => mem_cons_of_mem _ (h.atEnd _ _ _ hf hover'))
    fun _ => mem_cons_self ..
  endedKnown kind' id' status he := by
    obtain heq | he := mem_cons.mp he
    · obtain ⟨rfl, rfl, -⟩ := Prod.mk.inj heq |>.imp_right Prod.mk.inj
      exact h.known _ _ _ hold
    · exact h.endedKnown _ _ _ he
  endedStatus kind' id' status he := by
    obtain heq | he := mem_cons.mp he
    · obtain ⟨rfl, -, rfl⟩ := Prod.mk.inj heq |>.imp_right Prod.mk.inj
      exact hstatus
    · exact h.endedStatus _ _ _ he
  endedOver kind' id' status run' he hf := by
    obtain heq | hin := mem_cons.mp he
    · obtain ⟨rfl, rfl, rfl⟩ := Prod.mk.inj heq |>.imp_right Prod.mk.inj
      obtain ⟨-, -, rfl⟩ | ⟨-, hne⟩ := Runs.find_update hf
      · exact ⟨hover, rfl⟩
      · exact absurd ⟨rfl, rfl⟩ hne
    · obtain ⟨rfl, rfl, rfl⟩ | ⟨hkept, -⟩ := Runs.find_update hf
      · exact absurd hin (h.not_ended hold hwas status)
      · exact h.endedOver _ _ _ _ hin hkept
  endedOnce kind' id' status status' he he' := by
    obtain heq | hin := mem_cons.mp he
    · obtain ⟨rfl, rfl, rfl⟩ := Prod.mk.inj heq |>.imp_right Prod.mk.inj
      obtain heq' | hin' := mem_cons.mp he'
      · exact (Prod.mk.inj (Prod.mk.inj heq').2).2
      · exact absurd hin' (h.not_ended hold hwas status')
    · obtain heq' | hin' := mem_cons.mp he'
      · obtain ⟨rfl, rfl, rfl⟩ := Prod.mk.inj heq' |>.imp_right Prod.mk.inj
        exact absurd hin (h.not_ended hold hwas status)
      · exact h.endedOnce _ _ _ _ hin hin'

theorem pruned (h : Book runs made started ended) (kind : ScheduleTarget) (id : String) :
    Book (runs.remove kind id) made started ended where
  known _ _ _ hf := h.known _ _ _ (Runs.find_remove hf)
  startedKnown := h.startedKnown
  startedOnce := h.startedOnce
  own _ _ _ _ hs hf := h.own _ _ _ _ hs (Runs.find_remove hf)
  atEnd _ _ _ hf hover := h.atEnd _ _ _ (Runs.find_remove hf) hover
  endedKnown := h.endedKnown
  endedStatus := h.endedStatus
  endedOver _ _ _ _ he hf := h.endedOver _ _ _ _ he (Runs.find_remove hf)
  endedOnce := h.endedOnce

end Book

/-! ## What is known of lines -/

structure LineOf (line old : ScheduleRunRow) : Prop where
  id : line.id = old.id
  scheduleId : line.scheduleId = old.scheduleId
  outcome : line.outcome = old.outcome
  runId : line.runId = old.runId
  result : ∀ status ∈ old.result, line.result = some status

theorem LineOf.refl (line : ScheduleRunRow) : LineOf line line := ⟨rfl, rfl, rfl, rfl, fun _ h => h⟩

theorem LineOf.trans {a b c : ScheduleRunRow} (h : LineOf a b) (h' : LineOf b c) : LineOf a c :=
  ⟨h.id.trans h'.id, h.scheduleId.trans h'.scheduleId, h.outcome.trans h'.outcome,
    h.runId.trans h'.runId, fun status hs => h.result status (h'.result status hs)⟩

section
variable {Z : Type}

structure System.Grows (s s' : System Z) : Prop where
  made : ∀ id ∈ s.made, id ∈ s'.made
  started : ∀ entry ∈ s.started, entry ∈ s'.started
  ended : ∀ entry ∈ s.ended, entry ∈ s'.ended
  /-- A run that is gone does not come back. -/
  gone : ∀ kind id, id ∈ s.made → s.runs.find kind id = none → s'.runs.find kind id = none
  /-- A line is as it was, or new. -/
  lines : ∀ line ∈ s'.store.lines, line.id ∈ s.made → ∃ old ∈ s.store.lines, LineOf line old

variable {s s' : System Z} {job job' : Job Z}

namespace System

theorem Grows.refl (s : System Z) : s.Grows s :=
  ⟨fun _ h => h, fun _ h => h, fun _ h => h, fun _ _ _ h => h,
    fun line hl _ => ⟨line, hl, .refl line⟩⟩

theorem Grows.of_lines (hmade : s'.made = s.made) (hstarted : s'.started = s.started)
    (hended : s'.ended = s.ended) (hruns : s'.runs = s.runs)
    (hlines : ∀ line ∈ s'.store.lines, ∃ old ∈ s.store.lines, LineOf line old) :
    s.Grows s' where
  made := hmade ▸ fun _ h => h
  started := hstarted ▸ fun _ h => h
  ended := hended ▸ fun _ h => h
  gone := hruns ▸ fun _ _ _ h => h
  lines := fun line hl _ => hlines line hl

end System

theorem mem_updateLine {store : Store} {id : String} {when_ : ScheduleRunRow → Bool}
    {f : ScheduleRunRow → ScheduleRunRow} {line : ScheduleRunRow}
    (h : line ∈ (store.updateLine id when_ f).2.lines) :
    line ∈ store.lines ∨ ∃ old ∈ store.lines, old.id = id ∧ when_ old = true ∧ line = f old := by
  obtain ⟨old, hold, rfl⟩ := mem_map.mp h
  split
  · rename_i hcond
    obtain ⟨hid, hwhen⟩ := Bool.and_eq_true_iff.mp hcond
    exact .inr ⟨old, hold, of_decide_eq_true hid, hwhen, rfl⟩
  · exact .inl hold

theorem lineOf_updateLine {store : Store} {id : String} {when_ : ScheduleRunRow → Bool}
    {f : ScheduleRunRow → ScheduleRunRow} (hf : ∀ line, when_ line = true → LineOf (f line) line) :
    ∀ line ∈ (store.updateLine id when_ f).2.lines, ∃ old ∈ store.lines, LineOf line old := by
  intro line hl
  obtain hl | ⟨old, hold, -, hwhen, rfl⟩ := mem_updateLine hl
  · exact ⟨line, hl, .refl line⟩
  · exact ⟨old, hold, hf old hwhen⟩

theorem ids_updateLine {store : Store} {id : String} {when_ : ScheduleRunRow → Bool}
    {f : ScheduleRunRow → ScheduleRunRow} (hf : ∀ line, (f line).id = line.id) :
    (store.updateLine id when_ f).2.lines.map (·.id) = store.lines.map (·.id) := by
  rw [Store.updateLine, map_map]
  refine map_congr_left fun line _ => ?_
  show (if _ then f line else line).id = line.id
  split
  · exact hf line
  · rfl

inductive Touch (s : System Z) : Job Z → Store → Prop where
  | schedules {job : Job Z} {rows : List ScheduleRow} :
      rows.map (·.id) = s.store.schedules.map (·.id) →
      Touch s job { s.store with schedules := rows }
  | marks {line : ScheduleRunRow} {schedule : ScheduleRow} {rest : List ScheduleRunRow} :
      Touch s (.marking line schedule rest) (s.store.markScheduleRunToldWaiting line.id).2
  | gives {line : ScheduleRunRow} {schedule : ScheduleRow} {status : String}
      {reason : Option String} {rest : List ScheduleRunRow} {notifiedAt : Option Int} :
      Touch s (.ending line schedule status reason rest)
        (s.store.settleScheduleRun line.id status notifiedAt).2

theorem updateWhere_touch {id : String} {when_ : ScheduleRow → Bool}
    {f : ScheduleRow → ScheduleRow} (hf : ∀ row, (f row).id = row.id) :
    Touch s job (s.store.updateWhere id when_ f).2 := by
  refine .schedules ?_
  rw [map_map]
  refine map_congr_left fun row _ => ?_
  show (if _ then f row else row).id = row.id
  split
  · exact hf row
  · rfl

theorem setScheduleEnabled_touch {id : String} {enabled : Bool} {nextAt : Option Int} :
    Touch s job (s.store.setScheduleEnabled id enabled nextAt).2 := by
  refine updateWhere_touch ?_
  intro row
  cases enabled <;> rfl

theorem moveSchedule_touch {id : String} {time : Int} {next : Option Int} :
    Touch s job (s.store.moveSchedule id time next).2 :=
  updateWhere_touch fun _ => rfl

theorem updateSchedule_touch {id : String} {fields : ScheduleFields} :
    Touch s job (s.store.updateSchedule id fields).2 :=
  updateWhere_touch fun _ => rfl

variable {c : Calendar Z}

theorem goJob_touch (h : s.goJob c job = some (job', s')) :
    ∃ store told acted, s' = { s with store, told, acted } ∧ Touch s job store := by
  have still : ∀ {job'' : Job Z} {told : List Notice}, some (job'', { s with told }) = some (job', s') →
      ∃ store told acted, s' = { s with store, told, acted } ∧ Touch s job store := by
    intro job'' told heq
    rw [← (Prod.mk.inj (Option.some.inj heq)).2]
    exact ⟨s.store, told, s.acted, rfl, .schedules rfl⟩
  have update : ∀ {job'' : Job Z} {store : Store} {acted : List (String × Int)},
      Touch s job store → some (job'', { s with store, acted }) = some (job', s') →
      ∃ store told acted, s' = { s with store, told, acted } ∧ Touch s job store := by
    intro job'' store acted htouch heq
    rw [← (Prod.mk.inj (Option.some.inj heq)).2]
    exact ⟨store, s.told, acted, rfl, htouch⟩
  cases job with
  | tick now due =>
    match due with
    | none | some [] => exact still h
    | some (schedule :: rest) =>
      rw [System.goJob] at h
      cases hdue : schedule.nextAt with
      | none => simp only [hdue] at h; exact still h
      | some dueAt =>
        simp only [hdue] at h
        obtain ⟨f, nextAt, hid, -, -, hclaim⟩ :=
          claim_spec s.store schedule dueAt (nextOf c schedule now dueAt)
        rw [hclaim] at h
        split at h
        · exact update (updateWhere_touch hid) h
        · exact update (updateWhere_touch hid) h
  | asking taken =>
    rw [System.goJob] at h
    split at h
    · exact still h
    · cases h
  | switchingOff taken note
  | enabling now id enabled nextAt => exact update setScheduleEnabled_touch h
  | telling taken note | looking line schedule runId rest => exact still h
  | recording => cases h
  | runNow now id | enable now id enabled =>
    rw [System.goJob] at h
    split at h
    · exact still h
    · exact still h
  | rezone now waiting =>
    match waiting with
    | none | some [] => exact still h
    | some (schedule :: rest) =>
      rw [System.goJob] at h
      split at h
      · exact still h
      · exact update moveSchedule_touch h
  | change now id fields => exact update updateSchedule_touch h
  | settle lines =>
    match lines with
    | none | some [] => exact still h
    | some (line :: rest) =>
      rw [System.goJob] at h
      split at h
      · exact still h
      · split at h
        · exact still h
        · exact still h
  | marking line schedule rest =>
    rw [← (Prod.mk.inj (Option.some.inj h)).2]
    exact ⟨_, _, s.acted, rfl, .marks⟩
  | ending line schedule status reason rest =>
    rw [← (Prod.mk.inj (Option.some.inj h)).2]
    exact ⟨_, _, s.acted, rfl, .gives⟩
  | atEnd => cases h

theorem Touch.lines {store : Store} (h : Touch s job store) :
    ∀ line ∈ store.lines, ∃ old ∈ s.store.lines, LineOf line old := by
  cases h with
  | schedules => exact fun line hl => ⟨line, hl, .refl line⟩
  | marks => exact lineOf_updateLine fun line _ => ⟨rfl, rfl, rfl, rfl, fun _ h => h⟩
  | gives =>
    refine lineOf_updateLine fun line hnone => ⟨rfl, rfl, rfl, rfl, fun status hs => ?_⟩
    -- only a line without a result is given one
    rw [isNone_iff_eq_none.mp hnone] at hs
    cases hs

theorem Touch.ids {store : Store} (h : Touch s job store) :
    store.lines.map (·.id) = s.store.lines.map (·.id) := by
  cases h with
  | schedules => rfl
  | marks | gives => exact ids_updateLine fun _ => rfl

theorem Touch.scheduleIds {store : Store} (h : Touch s job store) :
    store.schedules.map (·.id) = s.store.schedules.map (·.id) := by
  cases h with
  | schedules hrows => exact hrows
  | marks => rfl
  | gives => rfl

theorem Touch.grows {store : Store} {told : List Notice} {acted : List (String × Int)}
    {callers : List (Caller Z)} (h : Touch s job store) :
    s.Grows { s with store, told, acted, callers } :=
  .of_lines rfl rfl rfl rfl h.lines

theorem System.Grows.of_new {kind : ScheduleTarget} {id : String} {run : RunRow}
    (hnew : id ∉ s.made) (hmade : s'.made = id :: s.made)
    (hstarted : ∀ entry ∈ s.started, entry ∈ s'.started) (hended : s'.ended = s.ended)
    (hruns : s'.runs = s.runs.add kind id run) (hlines : s'.store.lines = s.store.lines) :
    s.Grows s' where
  made := hmade ▸ fun _ => mem_cons_of_mem _
  started := hstarted
  ended := hended ▸ fun _ h => h
  gone kind' id' hid hnone := by
    rw [hruns, eq_none_iff_forall_ne_some]
    intro run' hfound
    obtain hold | ⟨-, rfl, -⟩ := Runs.find_add hfound
    · rw [hnone] at hold
      cases hold
    · exact hnew hid
  lines line hl _ := ⟨line, hlines ▸ hl, .refl line⟩

/-- **What only grows**, whatever step is taken. -/
theorem step_grows {a : Act Z} (hs : s.step c a = some s') : s.Grows s' := by
  have same : ∀ {s'' : System Z}, s''.store.lines = s.store.lines → ∀ line ∈ s''.store.lines,
      ∃ old ∈ s.store.lines, LineOf line old :=
    fun heq line hl => ⟨line, heq ▸ hl, .refl line⟩
  cases a with
  | clock now | change id fields =>
    rw [System.step] at hs
    split at hs
    · cases hs
      exact .of_lines rfl rfl rfl rfl (same rfl)
    · cases hs
  | tick | runNow id | rezone
  | settle => obtain rfl := Option.some.inj hs; exact .of_lines rfl rfl rfl rfl (same rfl)
  | enable id enabled | forgetWorkspace id | setProjects live =>
    cases hs
    exact .of_lines rfl rfl rfl rfl (same rfl)
  | go i =>
    obtain ⟨caller, hi, hs⟩ := bind_eq_some_iff.mp hs
    obtain ⟨⟨job', s₁⟩, hgo, rfl⟩ := map_eq_some_iff.mp hs
    obtain ⟨store, told, acted, rfl, htouch⟩ := goJob_touch hgo
    exact htouch.grows
  | door i answer =>
    obtain ⟨caller, hi, hs⟩ := bind_eq_some_iff.mp hs
    split at hs
    · split at hs
      · cases hs
      · cases answer with
        | error error =>
          cases hs
          exact .of_lines rfl rfl rfl rfl (same rfl)
        | ok begun =>
          rw [System.answerDoor] at hs
          simp only at hs
          split at hs
          · cases hs
          · rename_i hfresh
            cases hs
            exact .of_new (not_or.mp hfresh).1 rfl (fun _ => mem_cons_of_mem _) rfl rfl rfl
    · cases hs
  | record i id =>
    obtain ⟨caller, hi, hs⟩ := bind_eq_some_iff.mp hs
    split at hs
    · rename_i taken outcome runId note notice hjob
      split at hs
      · cases hs
      rename_i hnew
      split at hs
      · cases hs
        exact .of_lines rfl rfl rfl rfl (same rfl)
      · rename_i row store hrecorded
        obtain ⟨-, lines, rfl, hsub, -, -⟩ := Store.recordScheduleRun_some hrecorded
        cases hs
        refine ⟨fun _ => mem_cons_of_mem _, fun _ h => h, fun _ h => h, fun _ _ _ h => h, ?_⟩
        intro line hl hid
        obtain hl | hl := mem_snoc.mp (hsub.subset hl)
        · exact ⟨line, hl, .refl line⟩
        · rw [hl] at hid
          exact absurd hid hnew
    · cases hs
  | add id fields =>
    rw [System.step] at hs
    split at hs
    · split at hs
      · cases hs
      · cases hs
        exact ⟨fun _ => mem_cons_of_mem _, fun _ h => h, fun _ h => h, fun _ _ _ h => h,
          fun line hl _ => ⟨line, hl, .refl line⟩⟩
    · cases hs
  | remove id =>
    cases hs
    exact .of_lines rfl rfl rfl rfl fun line hl => ⟨line, mem_of_mem_filter hl, .refl line⟩
  | queueRun kind id run =>
    rw [System.step] at hs
    split at hs
    · cases hs
    · rename_i hfresh
      cases hs
      exact .of_new (not_or.mp hfresh).1 rfl (fun _ h => h) rfl rfl rfl
  | moveRun kind id run =>
    rw [System.step] at hs
    split at hs
    · cases hs
    rename_i old hold
    split at hs
    · cases hs
      refine ⟨fun _ h => h, fun _ h => h, ?_, ?_, fun line hl _ => ⟨line, hl, .refl line⟩⟩
      · intro entry he
        show entry ∈ if run.active kind then s.ended else _
        split
        · exact he
        · exact mem_cons_of_mem _ he
      · intro kind' id' _ hnone
        rw [eq_none_iff_forall_ne_some]
        intro run' hfound
        obtain ⟨rfl, rfl, -⟩ | ⟨hkept, -⟩ := Runs.find_update hfound
        · rw [hold] at hnone
          cases hnone
        · rw [hkept] at hnone
          cases hnone
    · cases hs
  | pruneRun kind id =>
    cases hs
    refine ⟨fun _ h => h, fun _ h => h, fun _ h => h, ?_, fun line hl _ => ⟨line, hl, .refl line⟩⟩
    intro kind' id' _ hnone
    rw [eq_none_iff_forall_ne_some]
    intro run hfound
    rw [Runs.find_remove hfound] at hnone
    cases hnone

theorem System.Grows.trans {s'' : System Z} (h : s.Grows s') (h' : s'.Grows s'') : s.Grows s'' where
  made id hid := h'.made id (h.made id hid)
  started entry he := h'.started entry (h.started entry he)
  ended entry he := h'.ended entry (h.ended entry he)
  gone kind id hid hnone := h'.gone kind id (h.made id hid) (h.gone kind id hid hnone)
  lines line hl hid := by
    obtain ⟨mid, hmid, hline⟩ := h'.lines line hl (h.made _ hid)
    obtain ⟨old, hold, hmid⟩ := h.lines mid hmid (hline.id ▸ hid)
    exact ⟨old, hold, hline.trans hmid⟩

theorem run_grows {acts : List (Act Z)} (hr : run (System.step c) s acts = some s') :
    s.Grows s' :=
  run_invariant (fun _ _ _ hi hs => hi.trans (step_grows hs)) hr (.refl s)

end

end Yardsort.Schedule
