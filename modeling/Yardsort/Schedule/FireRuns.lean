import Yardsort.Lib.Run
import Yardsort.Schedule.Fire

/- Whether a time is acted on twice.

   A claim takes the time that is there and puts a later one in its place, so along the claims
   of a schedule the times grow as long as nothing else takes the next time back. Three callers
   write a next time they worked out from a clock they had read before: `change` and
   `set_enabled` whatever is there, `rezone` where the time it had read is there again. A time
   that came due, and was claimed, between the reading and the writing is then written back
   and claimed once more (`acted_on_twice`). Where no such write takes the next time back
   (`System.takesBack`), the times acted on grow (`acted_on_once`). -/
namespace Yardsort.Schedule
open Yardsort.Lib

def timesOf (acted : List (String × Int)) (id : String) : List Int :=
  (acted.filter (·.1 = id)).map (·.2)

variable {f : ScheduleRow → ScheduleRow}

section
variable {Z : Type}

def Job.reading : Job Z → Option (Moment Z)
  | .tick now _ | .runNow now _ | .rezone now _ | .change now _ _ => some now
  | .enable now _ _ | .enabling now _ _ _ => some now
  | .asking taken | .switchingOff taken _ | .telling taken _ | .recording taken .. =>
    some taken.now
  | .settle _ | .looking .. | .marking .. | .ending .. | .atEnd => none

def Job.left : Job Z → List ScheduleRow
  | .tick _ due => due.getD []
  | .asking taken | .switchingOff taken _ | .telling taken _ | .recording taken .. => taken.rest
  | _ => []

/-- The next time a caller is about to write whatever is there. -/
def Job.sets : Job Z → Option (String × Int)
  | .change _ id fields => fields.nextAt.map fun next => (id, next)
  | .enabling _ id true nextAt => nextAt.map fun next => (id, next)
  | _ => none

section
variable (c : Calendar Z)

/-- The next time a caller's next operation writes over one it did not claim. -/
def System.writes (s : System Z) : Job Z → Option (String × Int)
  | .rezone now (some (schedule :: _)) => do
    let (time, next) ← rezoned c schedule now
    if s.store.schedules.any fun row => row.id = schedule.id && Store.waitsFor time row then
      some (schedule.id, next)
    else none
  | job => job.sets.filter fun (id, _) => s.store.schedules.any (·.id = id)

/-- Whether an action writes a next time that is not after every time of the schedule that was
    claimed since its caller read the clock. -/
def System.takesBack (s : System Z) : Act Z → Bool
  | .go i => s.callers[i]?.any fun caller =>
      (s.writes c caller.job).any fun (id, next) =>
        (timesOf (s.acted.drop caller.since) id).any (next ≤ ·)
  | _ => false

end

/-! ## What was acted on, beside what is still to come -/

/-- The times acted on grow and have come, and each schedule waits for a later one. -/
structure Ledger (now : Int) (acted : List (String × Int)) (made : List String)
    (rows : List ScheduleRow) : Prop where
  grows : ∀ id, (timesOf acted id).Pairwise (· < ·)
  past : ∀ entry ∈ acted, entry.2 ≤ now
  known : ∀ entry ∈ acted, entry.1 ∈ made
  ids : (rows.map (·.id)).Nodup
  rowsKnown : ∀ row ∈ rows, row.id ∈ made
  ahead : ∀ row ∈ rows, ∀ next ∈ row.nextAt, ∀ due ∈ timesOf acted row.id, due < next

theorem mem_timesOf {acted : List (String × Int)} {id : String} {due : Int} :
    due ∈ timesOf acted id ↔ (id, due) ∈ acted := by
  simp only [timesOf, mem_map, mem_filter, decide_eq_true_eq]
  constructor
  · rintro ⟨⟨id', due'⟩, ⟨hmem, rfl⟩, rfl⟩
    exact hmem
  · exact fun h => ⟨(id, due), ⟨h, rfl⟩, rfl⟩

theorem timesOf_append_self (acted : List (String × Int)) (id : String) (due : Int) :
    timesOf (acted ++ [(id, due)]) id = timesOf acted id ++ [due] := by
  simp [timesOf, filter_append]

theorem timesOf_append_other {id id' : String} (h : id ≠ id') (acted : List (String × Int))
    (due : Int) : timesOf (acted ++ [(id, due)]) id' = timesOf acted id' := by
  simp [timesOf, filter_append, h]

namespace Ledger
variable {now now' : Int} {acted : List (String × Int)} {made made' : List String}
  {rows : List ScheduleRow}

theorem later (h : Ledger now acted made rows) (hnow : now ≤ now') : Ledger now' acted made rows :=
  { h with past := fun entry he => (h.past entry he).trans hnow }

theorem more (h : Ledger now acted made rows) (hmade : ∀ id ∈ made, id ∈ made') :
    Ledger now acted made' rows :=
  { h with
    known := fun entry he => hmade _ (h.known entry he)
    rowsKnown := fun row hr => hmade _ (h.rowsKnown row hr) }

theorem ids_map (hid : ∀ row, (f row).id = row.id) :
    (rows.map f).map (·.id) = rows.map (·.id) := by
  rw [map_map]
  exact map_congr_left fun row _ => hid row

theorem id_ite (hid : ∀ row, (f row).id = row.id) (when_ : ScheduleRow → Bool) (row : ScheduleRow) :
    (if when_ row then f row else row).id = row.id := by
  split
  · exact hid row
  · rfl

theorem rowsKnown_map (h : Ledger now acted made rows) (hid : ∀ row, (f row).id = row.id) :
    ∀ row ∈ rows.map f, row.id ∈ made := by
  intro row hrow
  obtain ⟨old, hold, rfl⟩ := mem_map.mp hrow
  rw [hid]
  exact h.rowsKnown old hold

theorem mapped (h : Ledger now acted made rows) (hid : ∀ row, (f row).id = row.id)
    (hnext : ∀ row ∈ rows, ∀ next ∈ (f row).nextAt,
        next ∈ row.nextAt ∨ ∀ due ∈ timesOf acted row.id, due < next) :
    Ledger now acted made (rows.map f) := by
  refine ⟨h.grows, h.past, h.known, (ids_map hid).symm ▸ h.ids, h.rowsKnown_map hid, ?_⟩
  intro row hrow next hn due hdue
  obtain ⟨old, hold, rfl⟩ := mem_map.mp hrow
  rw [hid] at hdue
  obtain same | new := hnext old hold next hn
  · exact h.ahead old hold next same due hdue
  · exact new due hdue

theorem updated (h : Ledger now acted made rows) {id : String} {when_ : ScheduleRow → Bool}
    (hid : ∀ row, (f row).id = row.id)
    (hnext : ∀ row ∈ rows, row.id = id → when_ row → ∀ next ∈ (f row).nextAt,
        next ∈ row.nextAt ∨ ∀ due ∈ timesOf acted row.id, due < next) :
    Ledger now acted made
      (rows.map fun row => if row.id = id && when_ row then f row else row) := by
  refine h.mapped (id_ite hid _) ?_
  intro row hrow next hn
  split at hn
  · rename_i hcond
    obtain ⟨hid, hwhen⟩ := Bool.and_eq_true_iff.mp hcond
    exact hnext row hrow (of_decide_eq_true hid) hwhen next hn
  · exact .inl hn

theorem filtered (h : Ledger now acted made rows) (keep : ScheduleRow → Bool) :
    Ledger now acted made (rows.filter keep) :=
  { h with
    ids := h.ids.sublist ((filter_sublist).map _)
    rowsKnown := fun row hr => h.rowsKnown row (mem_of_mem_filter hr)
    ahead := fun row hr => h.ahead row (mem_of_mem_filter hr) }

theorem added (h : Ledger now acted made rows) {row : ScheduleRow} {id : String}
    (hid : row.id = id) (hnew : id ∉ made) :
    Ledger now acted (id :: made) (rows ++ [row]) := by
  subst hid
  have hold : ∀ other ∈ rows, other.id ≠ row.id :=
    fun other ho heq => hnew (heq ▸ h.rowsKnown other ho)
  refine ⟨h.grows, h.past, fun entry he => mem_cons_of_mem _ (h.known entry he), ?_, ?_, ?_⟩
  · rw [map_append, map_singleton, nodup_append]
    refine ⟨h.ids, List.nodup_singleton _, ?_⟩
    intro id hid id' hid'
    obtain ⟨other, ho, rfl⟩ := mem_map.mp hid
    rw [mem_singleton.mp hid']
    exact hold other ho
  · intro other ho
    obtain ho | ho := mem_snoc.mp ho
    · exact mem_cons_of_mem _ (h.rowsKnown other ho)
    · rw [ho]
      exact mem_cons_self ..
  · intro other ho next hn due hdue
    obtain ho | ho := mem_snoc.mp ho
    · exact h.ahead other ho next hn due hdue
    · rw [ho] at hdue
      exact absurd (h.known _ (mem_timesOf.mp hdue)) hnew

theorem claimed (h : Ledger now acted made rows) {id : String} {due : Int} {nextAt : Option Int}
    {f : ScheduleRow → ScheduleRow} (hid : ∀ row, (f row).id = row.id)
    (hset : ∀ row, (f row).nextAt = nextAt) (hdue : due ≤ now)
    (hlater : ∀ next ∈ nextAt, due < next)
    (hthere : rows.any fun row => row.id = id && Store.waitsFor due row) :
    Ledger now (acted ++ [(id, due)]) made
      (rows.map fun row => if row.id = id && Store.waitsFor due row then f row else row) := by
  obtain ⟨row, hrow, hcond⟩ := List.any_eq_true.mp hthere
  obtain ⟨hrid, hwaits⟩ := Bool.and_eq_true_iff.mp hcond
  obtain rfl := of_decide_eq_true hrid
  have htime : row.nextAt = some due := of_decide_eq_true (Bool.and_eq_true_iff.mp hwaits).2
  have hbefore : ∀ d ∈ timesOf acted row.id, d < due := h.ahead row hrow due htime
  -- the schedule is the only row of its id
  have honly : ∀ other ∈ rows, other.id = row.id → other = row := fun other ho heq =>
    List.inj_on_of_nodup_map h.ids ho hrow heq
  have hids := id_ite hid fun other => other.id = row.id && Store.waitsFor due other
  refine ⟨?_, ?_, ?_, (ids_map hids).symm ▸ h.ids, h.rowsKnown_map hids, ?_⟩
  · intro id
    by_cases heq : row.id = id
    · subst heq
      rw [timesOf_append_self, pairwise_append]
      refine ⟨h.grows _, pairwise_singleton .., ?_⟩
      intro d hd d' hd'
      rw [mem_singleton.mp hd']
      exact hbefore d hd
    · rw [timesOf_append_other heq]
      exact h.grows id
  · intro entry he
    obtain he | he := mem_snoc.mp he
    · exact h.past entry he
    · rw [he]
      exact hdue
  · intro entry he
    obtain he | he := mem_snoc.mp he
    · exact h.known entry he
    · rw [he]
      exact h.rowsKnown row hrow
  · intro new hnew next hn d hd
    obtain ⟨old, hold, rfl⟩ := mem_map.mp hnew
    rw [hids old] at hd
    split at hn
    -- the row that was claimed
    · rename_i hcond
      obtain rfl := honly old hold (of_decide_eq_true (Bool.and_eq_true_iff.mp hcond).1)
      rw [hset] at hn
      rw [timesOf_append_self] at hd
      obtain hd | hd := mem_snoc.mp hd
      · exact (hbefore d hd).trans (hlater next hn)
      · rw [hd]
        exact hlater next hn
    · rename_i hcond
      by_cases heq : old.id = row.id
      · obtain rfl := honly old hold heq
        exact absurd (Bool.and_eq_true_iff.mpr ⟨decide_eq_true rfl, hwaits⟩) hcond
      · rw [timesOf_append_other (Ne.symm heq)] at hd
        exact h.ahead old hold next hn d hd

end Ledger

/-- A job begun when `before` had been acted on, at a moment when the clock had not passed
    `now`: what it read lies between them, what it goes on to claim has come, and what it sets
    is still to come. -/
structure Job.Sound (now : Int) (before : List (String × Int)) (job : Job Z) : Prop where
  read : ∀ reading ∈ job.reading, reading.ms ≤ now ∧ ∀ entry ∈ before, entry.2 ≤ reading.ms
  left : ∀ reading ∈ job.reading, ∀ row ∈ job.left, ∀ next ∈ row.nextAt, next ≤ reading.ms
  sets : ∀ reading ∈ job.reading, ∀ entry ∈ job.sets, reading.ms < entry.2

structure System.Steady (s : System Z) : Prop where
  ledger : Ledger s.now.ms s.acted s.made s.store.schedules
  since : ∀ caller ∈ s.callers, caller.since ≤ s.acted.length
  jobs : ∀ caller ∈ s.callers, caller.job.Sound s.now.ms (s.acted.take caller.since)

namespace Job.Sound
variable {now now' : Int} {before : List (String × Int)} {job job' : Job Z}

theorem later (h : job.Sound now before) (hnow : now ≤ now') : job.Sound now' before :=
  { h with read := fun r hr => ⟨(h.read r hr).1.trans hnow, (h.read r hr).2⟩ }

theorem onward (h : job.Sound now before) (hread : ∀ r ∈ job'.reading, r ∈ job.reading)
    (hleft : ∀ row ∈ job'.left, row ∈ job.left) (hsets : job'.sets = none) :
    job'.Sound now before where
  read := fun r hr => h.read r (hread r hr)
  left := fun r hr row hrow => h.left r (hread r hr) row (hleft row hrow)
  sets := fun r hr entry he => by rw [hsets] at he; cases he

theorem of_reading_none (h : job.reading = none) : job.Sound now before := by
  refine ⟨?_, ?_, ?_⟩ <;> exact fun r hr => by rw [h] at hr; cases hr

end Job.Sound

variable {c : Calendar Z} {s s' : System Z} {job job' : Job Z}

theorem mem_dueSchedules {store : Store} {now : Int} {row : ScheduleRow}
    (h : row ∈ store.dueSchedules now) : ∀ next ∈ row.nextAt, next ≤ now := by
  intro next hn
  rw [Store.dueSchedules, List.mem_insertionSort, mem_filter] at h
  have h := h.2
  rw [Option.mem_def.mp hn] at h
  simp only [any_some, Bool.and_eq_true, decide_eq_true_eq] at h
  exact h.1.2

theorem enabledNext_ahead (hc : c.Ahead) {schedule : ScheduleRow} {now : Moment Z} {next : Int}
    (h : enabledNext c schedule true now = some (some next)) : now.ms < next := by
  unfold enabledNext at h
  rw [if_pos rfl] at h
  split at h
  · cases h
  split at h
  · rename_i found
    obtain ⟨spec, _, hspec⟩ := map_eq_some_iff.mp found
    cases h
    exact nextAfter_ahead hc hspec
  · cases h

theorem rezoned_spec (hc : c.Ahead) {schedule : ScheduleRow} {now : Moment Z} {time next : Int}
    (h : rezoned c schedule now = some (time, next)) :
    schedule.nextAt = some time ∧ now.ms < time ∧ now.ms < next := by
  unfold rezoned at h
  obtain ⟨t, ht, h⟩ := bind_eq_some_iff.mp h
  obtain ⟨spec, _, h⟩ := bind_eq_some_iff.mp h
  obtain ⟨ht, hlt⟩ := filter_eq_some_iff.mp ht
  split at h
  · rename_i found
    split at h
    · cases h
    · cases h
      exact ⟨ht, of_decide_eq_true hlt, nextAfter_ahead hc found⟩
  · cases h

theorem nextOf_ahead (hc : c.Ahead) {schedule : ScheduleRow} {now : Moment Z} {due next : Int}
    (h : nextOf c schedule now due = .ok (some next)) : now.ms < next := by
  unfold nextOf at h
  split at h
  · exact nextAfter_ahead hc h
  · cases h

/-! ## One operation -/

theorem afterClaim_job (taken : Taken Z) (next : Except String (Option Int)) :
    (afterClaim taken next).reading = some taken.now ∧ (afterClaim taken next).left = taken.rest ∧
      (afterClaim taken next).sets = none := by
  unfold afterClaim
  split
  · exact ⟨rfl, rfl, rfl⟩
  · split <;> exact ⟨rfl, rfl, rfl⟩

theorem afterRefusal_job (taken : Taken Z) (error : IpcError) :
    (∀ r ∈ (afterRefusal taken error).reading, r = taken.now) ∧
      (∀ row ∈ (afterRefusal taken error).left, row ∈ taken.rest) ∧
      (afterRefusal taken error).sets = none := by
  have hsome : ∀ r ∈ some taken.now, r = taken.now := fun r hr => (Option.some.inj hr).symm
  unfold afterRefusal
  split
  · exact ⟨nofun, fun _ hrow => (not_mem_nil hrow).elim, rfl⟩
  · split
    · exact ⟨hsome, fun _ h => h, rfl⟩
    · split <;> exact ⟨hsome, fun _ h => h, rfl⟩

theorem afterLine_job (taken : Taken Z) :
    (∀ r ∈ (afterLine taken).reading, r = taken.now) ∧
      (∀ row ∈ (afterLine taken).left, row ∈ taken.rest) ∧ (afterLine taken).sets = none := by
  unfold afterLine
  split
  · exact ⟨nofun, fun _ hrow => (not_mem_nil hrow).elim, rfl⟩
  · exact ⟨fun r hr => (Option.some.inj hr).symm, fun _ h => h, rfl⟩

theorem lookedUp_reading (runs : Runs) (line : ScheduleRunRow) (schedule : ScheduleRow)
    (runId : String) (rest : List ScheduleRunRow) :
    (lookedUp (Z := Z) runs line schedule runId rest).reading = none := by
  unfold lookedUp
  split
  · rfl
  · split
    · split <;> rfl
    · split <;> rfl

/-- What an operation does to the schedules, and what it adds to the times acted on. -/
inductive Effect (c : Calendar Z) (s : System Z) (job : Job Z) :
    List (String × Int) → Store → Prop where
  | keeps {store : Store} : store.schedules = s.store.schedules → Effect c s job [] store
  /-- A row changed, keeping its time or given the one the job writes. -/
  | writes {id : String} {when_ : ScheduleRow → Bool} {f : ScheduleRow → ScheduleRow} :
      (∀ row, (f row).id = row.id) →
      (∀ row ∈ s.store.schedules, row.id = id → when_ row → ∀ next ∈ (f row).nextAt,
        next ∈ row.nextAt ∨ s.writes c job = some (id, next)) →
      Effect c s job [] (s.store.updateWhere id when_ f).2
  | claims {now : Moment Z} {schedule : ScheduleRow} {due : Int} {nextAt : Option Int}
      {f : ScheduleRow → ScheduleRow} :
      job.reading = some now → schedule ∈ job.left → schedule.nextAt = some due →
      (∀ row, (f row).id = row.id) → (∀ row, (f row).nextAt = nextAt) →
      (∀ next ∈ nextAt, now.ms < next) →
      (s.store.updateWhere schedule.id (Store.waitsFor due) f).1 = true →
      Effect c s job [(schedule.id, due)]
        (s.store.updateWhere schedule.id (Store.waitsFor due) f).2

theorem any_of_mem {rows : List ScheduleRow} {row : ScheduleRow} {p : ScheduleRow → Bool}
    (hmem : row ∈ rows) (hp : p row = true) : rows.any p = true :=
  List.any_eq_true.mpr ⟨row, hmem, hp⟩

theorem updateSchedule_effect {now : Moment Z} {id : String} {fields : ScheduleFields} :
    Effect c s (.change now id fields) [] (s.store.updateSchedule id fields).2 := by
  refine .writes (fun _ => rfl) ?_
  intro row hrow hid _ next hn
  right
  show (fields.nextAt.map fun next => (id, next)).filter _ = _
  rw [show fields.nextAt = some next from hn]
  exact filter_eq_some_iff.mpr ⟨rfl, any_of_mem hrow (decide_eq_true hid)⟩

theorem switchOff_effect {id : String} {nextAt : Option Int} :
    Effect c s job [] (s.store.setScheduleEnabled id false nextAt).2 :=
  .writes (fun _ => rfl) fun _ _ _ _ _ hn => .inl hn

theorem setScheduleEnabled_effect {now : Moment Z} {id : String} {enabled : Bool}
    {nextAt : Option Int} :
    Effect c s (.enabling now id enabled nextAt) []
      (s.store.setScheduleEnabled id enabled nextAt).2 := by
  cases enabled with
  | false => exact switchOff_effect
  | true =>
    refine .writes (fun _ => rfl) ?_
    intro row hrow hid _ next hn
    right
    show (nextAt.map fun next => (id, next)).filter _ = _
    rw [show nextAt = some next from hn]
    exact filter_eq_some_iff.mpr ⟨rfl, any_of_mem hrow (decide_eq_true hid)⟩

theorem moveSchedule_effect {now : Moment Z} {schedule : ScheduleRow} {rest : List ScheduleRow}
    {time next : Int} (h : rezoned c schedule now = some (time, next)) :
    Effect c s (.rezone now (some (schedule :: rest))) []
      (s.store.moveSchedule schedule.id time (some next)).2 := by
  refine .writes (fun _ => rfl) ?_
  intro row hrow hid hwaits n hn
  right
  have hany := any_of_mem (p := fun row => row.id = schedule.id && Store.waitsFor time row) hrow
    (Bool.and_eq_true_iff.mpr ⟨decide_eq_true hid, hwaits⟩)
  obtain rfl : next = n := Option.some.inj hn
  show (rezoned c schedule now).bind _ = _
  rw [h]
  exact if_pos hany

theorem tick_effect (hc : c.Ahead) {now : Moment Z} {schedule : ScheduleRow}
    {rest : List ScheduleRow} {dueAt : Int} (hdue : schedule.nextAt = some dueAt)
    (h : s.goJob c (.tick now (some (schedule :: rest))) = some (job', s')) :
    ∃ new store, s' = { s with acted := s.acted ++ new, store } ∧
      Effect c s (.tick now (some (schedule :: rest))) new store := by
  obtain ⟨f, nextAt, hid, hset, hnext, hclaim⟩ :=
    claim_spec s.store schedule dueAt (nextOf c schedule now dueAt)
  rw [System.goJob] at h
  simp only [hdue, hclaim] at h
  split at h
  · rename_i htaken
    rw [← (Prod.mk.inj (Option.some.inj h)).2]
    exact ⟨_, _, rfl, .claims rfl (mem_cons_self ..) hdue hid hset
      (fun n hn => nextOf_ahead hc (hnext n hn)) htaken⟩
  · rename_i hleft
    rw [← (Prod.mk.inj (Option.some.inj h)).2]
    refine ⟨[], _, by rw [append_nil], .writes hid ?_⟩
    intro row hrow hrid hwaits
    exact absurd (any_of_mem (p := fun row => row.id = schedule.id && Store.waitsFor dueAt row) hrow
      (Bool.and_eq_true_iff.mpr ⟨decide_eq_true hrid, hwaits⟩)) hleft

/-- **What one operation does**: everything but the schedules, what is told and the times acted
    on stays. -/
theorem goJob_effect (hc : c.Ahead) (h : s.goJob c job = some (job', s')) :
    ∃ new store told, s' = { s with acted := s.acted ++ new, store, told } ∧
      Effect c s job new store := by
  -- an operation that leaves the schedules alone
  have still : ∀ {job'' : Job Z} {store : Store} {told : List Notice},
      some (job'', { s with store, told }) = some (job', s') →
      store.schedules = s.store.schedules →
      ∃ new store told, s' = { s with acted := s.acted ++ new, store, told } ∧
        Effect c s job new store := by
    intro job'' store told heq hstore
    rw [← (Prod.mk.inj (Option.some.inj heq)).2]
    exact ⟨[], store, told, by rw [append_nil], .keeps hstore⟩
  cases job with
  | tick now due =>
    match due with
    | none | some [] => exact still h rfl
    | some (schedule :: rest) =>
      cases hdue : schedule.nextAt with
      | none => rw [System.goJob] at h; simp only [hdue] at h; exact still h rfl
      | some dueAt =>
        obtain ⟨new, store, hs, heff⟩ := tick_effect hc hdue h
        exact ⟨new, store, s.told, hs, heff⟩
  | asking taken =>
    rw [System.goJob] at h
    split at h
    · exact still h rfl
    · cases h
  | switchingOff taken note =>
    rw [← (Prod.mk.inj (Option.some.inj h)).2]
    exact ⟨[], _, s.told, by rw [append_nil], switchOff_effect⟩
  | telling taken note | looking line schedule runId rest | marking line schedule rest
  | ending line schedule status reason rest => exact still h rfl
  | recording => cases h
  | runNow now id | enable now id enabled =>
    rw [System.goJob] at h
    split at h
    · exact still h rfl
    · exact still h rfl
  | rezone now waiting =>
    match waiting with
    | none | some [] => exact still h rfl
    | some (schedule :: rest) =>
      rw [System.goJob] at h
      split at h
      · exact still h rfl
      · rename_i time next hre
        rw [← (Prod.mk.inj (Option.some.inj h)).2]
        exact ⟨[], _, s.told, by rw [append_nil], moveSchedule_effect hre⟩
  | change now id fields =>
    rw [← (Prod.mk.inj (Option.some.inj h)).2]
    exact ⟨[], _, s.told, by rw [append_nil], updateSchedule_effect⟩
  | enabling now id enabled nextAt =>
    rw [← (Prod.mk.inj (Option.some.inj h)).2]
    exact ⟨[], _, s.told, by rw [append_nil], setScheduleEnabled_effect⟩
  | settle lines =>
    match lines with
    | none | some [] => exact still h rfl
    | some (line :: rest) =>
      rw [System.goJob] at h
      split at h
      · exact still h rfl
      · split at h
        · exact still h rfl
        · exact still h rfl
  | atEnd => cases h

theorem goJob_sound (hc : c.Ahead) {now : Int} {before : List (String × Int)}
    (h : s.goJob c job = some (job', s')) (hj : job.Sound now before) : job'.Sound now before := by
  have hnil : ∀ row ∈ ([] : List ScheduleRow), row ∈ job.left :=
    fun _ hrow => (not_mem_nil hrow).elim
  cases job with
  | tick now due =>
    match due with
    | none =>
      cases h
      refine ⟨hj.read, ?_, nofun⟩
      intro r hr row hrow next hn
      cases hr
      exact mem_dueSchedules hrow next hn
    | some [] => cases h; exact .of_reading_none rfl
    | some (schedule :: rest) =>
      have hrest : ∀ row ∈ rest, row ∈ (Job.tick now (some (schedule :: rest))).left :=
        fun row hrow => mem_cons_of_mem _ hrow
      rw [System.goJob] at h
      cases hdue : schedule.nextAt with
      | none =>
        simp only [hdue] at h
        cases h
        exact hj.onward (fun _ hr => hr) hrest rfl
      | some dueAt =>
        simp only [hdue] at h
        split at h
        · rw [← (Prod.mk.inj (Option.some.inj h)).1]
          obtain ⟨hr, hl, hs⟩ := afterClaim_job ⟨now, schedule, dueAt, false, rest⟩
            (nextOf c schedule now dueAt)
          exact hj.onward (fun r hr' => by rw [hr] at hr'; exact hr')
            (fun row hrow => hrest row (by rw [hl] at hrow; exact hrow)) hs
        · cases h
          exact hj.onward (fun _ hr => hr) hrest rfl
  | asking taken =>
    rw [System.goJob] at h
    split at h
    · rw [← (Prod.mk.inj (Option.some.inj h)).1]
      obtain ⟨hr, hl, hs⟩ := afterRefusal_job taken (nowhereToRun taken.schedule)
      exact hj.onward (fun r hr' => (hr r hr').symm ▸ rfl) hl hs
    · cases h
  | switchingOff taken note
  | telling taken note => cases h; exact hj.onward (fun _ hr => hr) (fun _ h => h) rfl
  | recording => cases h
  | runNow now id =>
    rw [System.goJob] at h
    split at h
    · cases h; exact .of_reading_none rfl
    · cases h; exact hj.onward (fun _ hr => hr) hnil rfl
  | rezone now waiting =>
    match waiting with
    | none => cases h; exact hj.onward (fun _ hr => hr) hnil rfl
    | some [] => cases h; exact .of_reading_none rfl
    | some (schedule :: rest) =>
      rw [System.goJob] at h
      split at h
      · cases h; exact hj.onward (fun _ hr => hr) hnil rfl
      · cases h; exact hj.onward (fun _ hr => hr) hnil rfl
  | change now id fields | enabling now id enabled nextAt | marking line schedule rest
  | ending line schedule status reason rest => cases h; exact .of_reading_none rfl
  | enable now id enabled =>
    rw [System.goJob] at h
    split at h
    · cases h; exact .of_reading_none rfl
    rename_i found
    cases h
    refine ⟨hj.read, fun _ _ row hrow => (not_mem_nil hrow).elim, ?_⟩
    intro r hr entry he
    cases hr
    cases enabled with
    | false => cases he
    | true =>
      obtain ⟨next, rfl, rfl⟩ := map_eq_some_iff.mp he
      obtain ⟨schedule, _, hnext⟩ := bind_eq_some_iff.mp found
      exact enabledNext_ahead hc hnext
  | settle lines =>
    match lines with
    | none | some [] => cases h; exact .of_reading_none rfl
    | some (line :: rest) =>
      rw [System.goJob] at h
      split at h
      · cases h; exact .of_reading_none rfl
      · split at h
        · cases h; exact .of_reading_none rfl
        · cases h; exact .of_reading_none rfl
  | looking line schedule runId rest => cases h; exact .of_reading_none (lookedUp_reading ..)
  | atEnd => cases h

theorem writes_ahead (hc : c.Ahead) {now : Int} {before : List (String × Int)}
    (hj : job.Sound now before) {entry : String × Int} (h : s.writes c job = some entry) :
    ∃ reading ∈ job.reading, reading.ms < entry.2 := by
  have hset : ∀ {now : Moment Z}, job.reading = some now →
      (job.sets.filter fun (id, _) => s.store.schedules.any (·.id = id)) = some entry →
      ∃ reading ∈ job.reading, reading.ms < entry.2 := fun hr h =>
    ⟨_, hr, hj.sets _ hr _ (filter_eq_some_iff.mp h).1⟩
  cases job with
  | change now id fields | enabling now id enabled nextAt => exact hset rfl h
  | rezone now waiting =>
    obtain _ | _ | ⟨schedule, rest⟩ := waiting
    · cases h
    · cases h
    · obtain ⟨⟨time, next⟩, hre, h⟩ := bind_eq_some_iff.mp h
      simp only at h
      split at h
      · rw [← Option.some.inj h]
        exact ⟨now, rfl, (rezoned_spec hc hre).2.2⟩
      · cases h
  | _ => cases h

/-- One operation keeps the times growing, if what it writes is after every time claimed since
    its caller read the clock. -/
theorem Effect.ledger (hc : c.Ahead) {new : List (String × Int)} {store : Store}
    {before since : List (String × Int)} (heff : Effect c s job new store)
    (h : Ledger s.now.ms s.acted s.made s.store.schedules) (hsplit : s.acted = before ++ since)
    (hj : job.Sound s.now.ms before)
    (hback : ∀ entry, s.writes c job = some entry → ∀ due ∈ timesOf since entry.1, due < entry.2) :
    Ledger s.now.ms (s.acted ++ new) s.made store.schedules := by
  cases heff with
  | keeps hstore => rw [hstore, append_nil]; exact h
  | writes hid hnext =>
    rw [append_nil]
    refine h.updated hid ?_
    intro row hrow hrid hwhen next hn
    obtain same | new := hnext row hrow hrid hwhen next hn
    · exact .inl same
    · right
      intro due hdue
      rw [hrid, hsplit, timesOf, filter_append, map_append] at hdue
      obtain hdue | hdue := mem_append.mp hdue
      -- acted on before the clock was read
      · obtain ⟨reading, hr, hlt⟩ := writes_ahead hc hj new
        exact ((hj.read reading hr).2 _ (mem_timesOf.mp hdue)).trans_lt hlt
      · exact hback _ new due hdue
  | claims hr hmem hdue hid hset hnext hthere =>
    have hcome := hj.left _ hr _ hmem _ hdue
    exact h.claimed hid hset (hcome.trans (hj.read _ hr).1)
      (fun next hn => hcome.trans_lt (hnext next hn)) hthere

/-! ## Runs -/

namespace System.Steady

theorem jobs_kept (h : s.Steady) (hnow : s.now.ms ≤ s'.now.ms)
    {new : List (String × Int)} (hacted : s'.acted = s.acted ++ new) :
    ∀ caller ∈ s.callers, caller.since ≤ s'.acted.length ∧
      caller.job.Sound s'.now.ms (s'.acted.take caller.since) := by
  intro caller hmem
  have hle := h.since caller hmem
  rw [hacted, take_append_of_le_length hle]
  exact ⟨hle.trans (by simp), (h.jobs caller hmem).later hnow⟩

theorem of_callers (h : Ledger s.now.ms s.acted s.made s.store.schedules)
    (hcallers : ∀ caller ∈ s.callers, caller.since ≤ s.acted.length ∧
      caller.job.Sound s.now.ms (s.acted.take caller.since)) : s.Steady :=
  ⟨h, fun caller hmem => (hcallers caller hmem).1, fun caller hmem => (hcallers caller hmem).2⟩

theorem begin_ (h : s.Steady) {job : Job Z} (hread : ∀ r ∈ job.reading, r = s.now)
    (hleft : job.left = []) (hsets : ∀ entry ∈ job.sets, s.now.ms < entry.2) :
    (s.begin_ job).Steady := by
  refine of_callers h.ledger ?_
  intro caller hmem
  obtain hmem | hmem := mem_snoc.mp hmem
  · exact ⟨h.since caller hmem, h.jobs caller hmem⟩
  · rw [hmem]
    refine ⟨le_refl _, ?_, ?_, ?_⟩
    · intro r hr
      rw [hread r hr]
      exact ⟨le_refl _, fun entry he => h.ledger.past entry (mem_of_mem_take he)⟩
    · intro r _ row hrow
      rw [hleft] at hrow
      exact (not_mem_nil hrow).elim
    · intro r hr entry he
      rw [hread r hr]
      exact hsets entry he

theorem set_job (hledger : Ledger s'.now.ms s'.acted s'.made s'.store.schedules) {i : Nat}
    {caller : Caller Z} {callers : List (Caller Z)}
    (hcallers : ∀ caller ∈ callers, caller.since ≤ s'.acted.length ∧
      caller.job.Sound s'.now.ms (s'.acted.take caller.since))
    (hi : callers[i]? = some caller)
    (hset : s'.callers = callers.set i { caller with job })
    (hj : job.Sound s'.now.ms (s'.acted.take caller.since)) : s'.Steady := by
  refine of_callers hledger ?_
  intro other hmem
  rw [hset] at hmem
  obtain hmem | rfl := mem_or_eq_of_mem_set hmem
  · exact hcallers other hmem
  · exact ⟨(hcallers caller (mem_of_getElem? hi)).1, hj⟩

end System.Steady

theorem System.Steady.step (hc : c.Ahead) {a : Act Z} (h : s.Steady)
    (hback : s.takesBack c a = false) (hs : s.step c a = some s') : s'.Steady := by
  have same : s.acted = s.acted ++ [] := (append_nil _).symm
  cases a with
  | clock now =>
    rw [System.step] at hs
    split at hs
    · rename_i hle
      cases hs
      exact .of_callers (h.ledger.later hle) (h.jobs_kept hle same)
    · cases hs
  | tick | runNow id | rezone | enable id enabled =>
    cases hs
    exact h.begin_ (fun r hr => (Option.some.inj hr).symm) rfl nofun
  | change id fields =>
    rw [System.step] at hs
    split at hs
    · rename_i hnext
      cases hs
      refine h.begin_ (fun r hr => (Option.some.inj hr).symm) rfl ?_
      intro entry he
      obtain ⟨next, rfl, rfl⟩ := map_eq_some_iff.mp he
      exact nextAfter_ahead hc hnext
    · cases hs
  | settle =>
    cases hs
    exact h.begin_ nofun rfl nofun
  | go i =>
    obtain ⟨caller, hi, hs⟩ := bind_eq_some_iff.mp hs
    obtain ⟨⟨job', s₁⟩, hgo, rfl⟩ := map_eq_some_iff.mp hs
    have hmem := mem_of_getElem? hi
    have hj := h.jobs caller hmem
    obtain ⟨new, store, told, rfl, heff⟩ := goJob_effect hc hgo
    have hsince : ∀ entry, s.writes c caller.job = some entry →
        ∀ due ∈ timesOf (s.acted.drop caller.since) entry.1, due < entry.2 := by
      intro entry he due hdue
      simp only [System.takesBack, hi, any_some, he, any_eq_false,
        decide_eq_true_eq, Int.not_le] at hback
      exact hback due hdue
    have hledger := heff.ledger hc h.ledger (take_append_drop ..).symm hj hsince
    have hlater : s.now.ms ≤ ({ s with acted := s.acted ++ new, store, told } : System Z).now.ms :=
      le_refl _
    refine System.Steady.set_job hledger (h.jobs_kept hlater rfl) hi rfl ?_
    show job'.Sound s.now.ms ((s.acted ++ new).take caller.since)
    rw [take_append_of_le_length (h.since caller hmem)]
    exact goJob_sound hc hgo hj
  | door i answer =>
    obtain ⟨caller, hi, hs⟩ := bind_eq_some_iff.mp hs
    have hj := h.jobs caller (mem_of_getElem? hi)
    have hkept := h.jobs_kept (le_refl s.now.ms) same
    split at hs
    · rename_i taken hjob
      rw [hjob] at hj
      split at hs
      · cases hs
      cases answer with
      | error error =>
        cases hs
        obtain ⟨hr, hl, hsets⟩ := afterRefusal_job taken error
        exact .set_job h.ledger hkept hi rfl
          (hj.onward (fun r hr' => (hr r hr').symm ▸ rfl) hl hsets)
      | ok started =>
        rw [System.answerDoor] at hs
        simp only at hs
        split at hs
        · cases hs
        · cases hs
          exact .set_job (h.ledger.more fun _ => mem_cons_of_mem _) hkept hi rfl
            (hj.onward (fun _ hr => hr) (fun _ h => h) rfl)
    · cases hs
  | record i id =>
    obtain ⟨caller, hi, hs⟩ := bind_eq_some_iff.mp hs
    have hj := h.jobs caller (mem_of_getElem? hi)
    have hkept := h.jobs_kept (le_refl s.now.ms) same
    split at hs
    · rename_i taken outcome runId note notice hjob
      rw [hjob] at hj
      split at hs
      · cases hs
      split at hs
      · cases hs
        exact .set_job h.ledger hkept hi rfl (.of_reading_none rfl)
      · rename_i row store hrecorded
        obtain ⟨-, lines, rfl, -⟩ := Store.recordScheduleRun_some hrecorded
        cases hs
        obtain ⟨hr, hl, hsets⟩ := afterLine_job taken
        exact .set_job (h.ledger.more fun _ => mem_cons_of_mem _) hkept hi rfl
          (hj.onward (fun r hr' => (hr r hr').symm ▸ rfl) hl hsets)
    · cases hs
  | add id fields =>
    rw [System.step] at hs
    split at hs
    · split at hs
      · cases hs
      · rename_i hnew
        cases hs
        exact .of_callers (h.ledger.added rfl hnew) (h.jobs_kept (le_refl _) same)
    · cases hs
  | remove id =>
    cases hs
    exact .of_callers (h.ledger.filtered _) (h.jobs_kept (le_refl _) same)
  | forgetWorkspace id =>
    cases hs
    refine .of_callers (h.ledger.mapped ?_ ?_) (h.jobs_kept (le_refl _) same)
    · intro row
      split <;> rfl
    · intro row _ next hn
      split at hn <;> exact .inl hn
  | setProjects live | pruneRun kind id =>
    cases hs
    exact .of_callers h.ledger (h.jobs_kept (le_refl _) same)
  | queueRun kind id run =>
    rw [System.step] at hs
    split at hs
    · cases hs
    · cases hs
      exact .of_callers (h.ledger.more fun _ => mem_cons_of_mem _)
        (h.jobs_kept (le_refl _) same)
  | moveRun kind id run =>
    rw [System.step] at hs
    split at hs
    · cases hs
    split at hs
    · cases hs
      exact .of_callers h.ledger (h.jobs_kept (le_refl _) same)
    · cases hs

theorem start_steady (now : Moment Z) : (System.start now).Steady where
  ledger :=
    { grows := fun _ => .nil
      past := fun _ h => (not_mem_nil h).elim
      known := fun _ h => (not_mem_nil h).elim
      ids := .nil
      rowsKnown := fun _ h => (not_mem_nil h).elim
      ahead := fun _ h => (not_mem_nil h).elim }
  since := fun _ h => (not_mem_nil h).elim
  jobs := fun _ h => (not_mem_nil h).elim

/-- **Each time is acted on once**: in every run in which no next time is taken back, the due
    times acted on of any one schedule grow. -/
theorem acted_on_once (hc : c.Ahead) {now : Moment Z} {acts : List (Act Z)}
    (hm : Meets (System.step c) (fun s a => s.takesBack c a = false) (System.start now) acts)
    (hr : run (System.step c) (System.start now) acts = some s) (id : String) :
    (timesOf s.acted id).Pairwise (· < ·) := by
  have hsteady : s.Steady := hm.invariant (fun s a s' hi hcond hs =>
    hi.step hc hcond hs) hr (start_steady now)
  exact hsteady.ledger.grows id

end

def midnights : Calendar Unit where
  holds _ := true
  parse _ := .ok ()
  findNextOccurrence _ after := .ok ((after.ms / 86400000 + 1) * 86400000)

theorem midnights_ahead : midnights.Ahead := by
  intro expr after next h
  cases h
  show after.ms < (after.ms / 86400000 + 1) * 86400000
  omega

def reviewFields (spec : ScheduleSpec) : ScheduleFields where
  name := "Review"
  targetKind := .workflow
  targetId := "review"
  projectId := "project-1"
  workspaceId := "workspace-1"
  workspaceName := "main"
  inputs := []
  spec := spec
  missed := .runOnce
  notify := .failure
  nextAt := none

/-- An hourly review is edited to a nightly one between two ticks, and the second tick is late. -/
def editedReview : List (Act Unit) :=
  [.setProjects ["project-1"], .add "review-1" (reviewFields (.every 60)),
    .clock ⟨3600000, ()⟩, .tick, .go 0, .go 0, .door 0 (.error ⟨"store", "busy"⟩), .go 0,
    .record 0 "line-1", .change "review-1" (reviewFields (.cron "0 0 * * *")), .go 1,
    .rezone, .go 2, .go 2, .clock ⟨172800000, ()⟩, .tick, .go 3, .go 3]

theorem edited_review_acted_on_once :
    ∃ s, run (System.step midnights) (System.start ⟨0, ()⟩) editedReview = some s ∧
      timesOf s.acted "review-1" = [3600000, 86400000] ∧
      (timesOf s.acted "review-1").Pairwise (· < ·) := by
  have h : (run (System.step midnights) (System.start ⟨0, ()⟩) editedReview).map
      (fun s => timesOf s.acted "review-1") = some [3600000, 86400000] := by
    decide +kernel
  obtain ⟨s, hs, htimes⟩ := map_eq_some_iff.mp h
  have hm : Meets (System.step midnights) (fun s a => s.takesBack midnights a = false)
      (System.start ⟨0, ()⟩) editedReview := by
    have hm : meets (System.step midnights) (fun s a => !s.takesBack midnights a)
        (System.start ⟨0, ()⟩) editedReview = true := by decide +kernel
    simpa only [Bool.not_eq_true'] using meets_iff.mp hm
  exact ⟨s, hs, htimes, acted_on_once midnights_ahead hm hs "review-1"⟩

/-- A review that runs once is switched on just before its time: its next time is worked out, a
    tick claims it, and it is written back. -/
def enabledReview : List (Act Unit) :=
  [.setProjects ["project-1"], .add "review-1" (reviewFields (.once 1000)),
    .enable "review-1" true, .go 0, .clock ⟨1000, ()⟩, .tick, .go 1, .go 1, .go 0,
    .tick, .go 2, .go 2]

theorem acted_on_twice :
    midnights.Ahead ∧
    ∃ s, run (System.step midnights) (System.start ⟨0, ()⟩) enabledReview = some s ∧
      timesOf s.acted "review-1" = [1000, 1000] ∧
      ¬ (timesOf s.acted "review-1").Pairwise (· < ·) := by
  have h : (run (System.step midnights) (System.start ⟨0, ()⟩) enabledReview).map
      (fun s => timesOf s.acted "review-1") = some [1000, 1000] := by
    decide +kernel
  obtain ⟨s, hs, htimes⟩ := map_eq_some_iff.mp h
  refine ⟨midnights_ahead, s, hs, htimes, ?_⟩
  rw [htimes]
  decide

end Yardsort.Schedule
