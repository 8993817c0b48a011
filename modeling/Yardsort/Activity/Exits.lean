import Yardsort.Activity.Effects

/- What becomes of an exit. The process of a run ends with a code; the daemon spools the exit and
   announces it, and clients deliver it, live or from the spool, while others start and settle what
   looks interrupted. Ending the run and writing its event are two writes, an entry is removed
   from the spool whatever the store answered, and a start reads the spool and the list of live
   PTYs at two moments; `exits_settle` says that the exit is recorded, once and with its code, in
   every run that stays clear of the moments where one of these goes wrong. -/
namespace Yardsort.Activity
open Yardsort.Lib

def Job.holds (run : String) : Job → Bool
  | spawn launch => launch.run = some run
  | spawnFailed run' => run' = run
  | _ => false

def System.launches (s : System) (run : String) : Nat :=
  s.threads.flatten.countP (·.holds run) +
    s.world.daemon.processes.countP (·.run = some run)

def World.rows (w : World) (run : String) : Nat := w.store.runs.countP (·.id = run)

def System.Launched (s : System) : Prop := ∀ run, s.launches run ≤ s.world.rows run

section
variable {w w' : World} {ok : Bool} {job : Job} {jobs : List Job}

theorem Job.Puts.not_holds {j : Job} (h : job.Puts j) (hbegin : ∀ launch, job ≠ .begin launch)
    (hspawn : ∀ launch, job ≠ .spawn launch) (run : String) : j.holds run = false := by
  cases job with
  | begin launch => exact absurd rfl (hbegin launch)
  | spawn launch => exact absurd rfl (hspawn launch)
  | _ => cases j <;> first | rfl | exact h.elim

theorem perform_rows (h : perform w ok job = some (w', jobs)) (run : String) :
    w.rows run ≤ w'.rows run := by
  have hdo := perform_runs h
  unfold World.rows
  generalize w'.store.runs = rows at hdo
  cases hdo with
  | moves f hmoves =>
    rw [countP_map]
    refine List.countP_mono_left fun row hrow hid => ?_
    simpa [(hmoves row hrow).id] using hid
  | comes launch id _ _ _ =>
    rw [countP_append]
    omega

theorem perform_launches (h : perform w ok job = some (w', jobs)) (run : String) :
    jobs.countP (·.holds run) + w'.daemon.processes.countP (·.run = some run) + w.rows run ≤
      (job.holds run).toNat + w.daemon.processes.countP (·.run = some run) + w'.rows run := by
  have hrows := perform_rows h run
  cases job with
  | begin launch =>
    dsimp only [perform] at h
    split at h
    · rename_i hnone
      cases h
      simp [Job.holds, hnone]
    · rename_i id hid
      split at h
      · cases h
        simp [Job.holds]
      · rename_i store hstore
        cases h
        split at hstore
        · unfold Store.addRun at hstore
          split at hstore
          · cases hstore
          · cases hstore
            simp [Job.holds, World.rows, hid, countP_append, countP_singleton]
            omega
        · cases hstore
  | spawn launch =>
    dsimp only [perform] at h
    split at h
    · obtain ⟨daemon, hspawn, heq⟩ := map_eq_some_iff.mp h
      cases heq
      have hnone : (spawnedJobs launch).countP (·.holds run) = 0 := by
        obtain ⟨run', pty, record⟩ := launch
        cases run' <;> cases record <;> simp [spawnedJobs, Job.holds]
      unfold Daemon.spawn at hspawn
      dsimp only at hspawn
      split at hspawn
      · cases hspawn
        rw [hnone, countP_append, countP_singleton]
        simp only [Job.holds, World.rows]
        by_cases hrun : launch.run = some run
        · simp only [hrun, decide_true, Bool.toNat_true, if_true]
          omega
        · simp [hrun]
      · cases hspawn
    · split at h
      · cases h
        simp [Job.holds]
      · rename_i id hid
        cases h
        by_cases hrun : id = run <;> simp [Job.holds, hid, hrun]
  | _ =>
    obtain hdaemon | ⟨launch, hjob, -⟩ := perform_daemon h
    · have hnone : jobs.countP (·.holds run) = 0 := by
        rw [countP_eq_zero]
        intro j hj
        rw [(perform_puts h j hj).not_holds (fun _ h => by cases h) (fun _ h => by cases h) run]
        simp
      rw [hnone, hdaemon]
      omega
    · cases hjob

end

theorem update_count (daemon : Daemon) (pty : String) (f : Process → Process) (run : String) :
    (daemon.update pty f).processes.countP (·.run = some run) =
      daemon.processes.countP (·.run = some run) := by
  show (daemon.processes.map _).countP _ = _
  rw [countP_map]
  congr 1
  funext p
  simp [Daemon.change_labels]

theorem Begins.not_holds {jobs : List Job} (h : Begins jobs) (run : String) :
    ∀ j ∈ jobs, j.holds run = false := by
  obtain ⟨call, rfl⟩ | ⟨pty, exit, rfl⟩ := h
  · cases call <;> simp [Call.jobs, Job.holds]
  · simp [liveJobs, Job.holds]

theorem step_launched {s s' : System} {a : Act} (h : step s a = some s') (hs : s.Launched) :
    s'.Launched := by
  intro run
  have hrun := hs run
  unfold System.launches at hrun ⊢
  by_cases ha : ∃ k ok, a = .does k ok
  · obtain ⟨k, ok, rfl⟩ := ha
    obtain ⟨job, rest, w, jobs, hk, hperform, rfl⟩ := does_cases h
    have hlaunches := perform_launches hperform run
    have hcount := does_count hk jobs (·.holds run)
    dsimp only at hcount ⊢
    omega
  · have hbeside := step_beside h fun k ok heq => ha ⟨k, ok, heq⟩
    have hrows : s'.world.rows run = s.world.rows run := by
      unfold World.rows
      rw [hbeside.store]
    have hprocesses : s'.world.daemon.processes.countP (·.run = some run) =
        s.world.daemon.processes.countP (·.run = some run) := by
      obtain hsame | ⟨pty, f, -, -, -, hupdate⟩ := hbeside.daemon
      · rw [hsame]
      · rw [hupdate, update_count]
    rw [hrows, hprocesses]
    refine Nat.le_trans (Nat.add_le_add_right ?_ _) hrun
    obtain hsame | ⟨k, -, hdies⟩ | ⟨jobs, hbegins, hnew⟩ := hbeside.threads
    · exact Nat.le_of_eq (by rw [hsame])
    · rw [hdies]
      exact dies_count _ k _
    · exact Nat.le_of_eq (by rw [hnew, begins_count _ (hbegins.not_holds run)])

theorem empty_launched : System.empty.Launched := fun _ => Nat.le_refl 0

theorem World.rows_le (w : World) (run : String) : w.rows run ≤ 1 := by
  have hnodup := List.nodup_iff_count_le_one.mp w.store.runKey run
  rw [List.count_eq_countP, countP_map] at hnodup
  exact hnodup

theorem System.Launched.process {s : System} (hs : s.Launched) {p : Process}
    (hp : p ∈ s.world.daemon.processes) {run : String} (hrun : p.run = some run) :
    s.world.rows run = 1 ∧ ∀ jobs ∈ s.threads, ∀ j ∈ jobs, j.holds run = false := by
  have hle := hs run
  have hone := s.world.rows_le run
  have hpos : 0 < s.world.daemon.processes.countP (·.run = some run) :=
    countP_pos_iff.mpr ⟨p, hp, by simpa using hrun⟩
  unfold System.launches at hle
  refine ⟨by omega, fun jobs hjobs j hj => ?_⟩
  have hzero : s.threads.flatten.countP (·.holds run) = 0 := by omega
  simpa using countP_eq_zero.mp hzero j (mem_flatten.mpr ⟨jobs, hjobs, hj⟩)

/-! ## One event for one end -/

/-- It ended, and not because it could not be started: an exit is to be recorded. -/
def RunRow.atEnd (row : RunRow) : Bool := !row.isOpen && row.endReason ≠ some .spawnFailed

def Job.owes (run : String) : Job → Bool
  | writeExit row _ _ _ => row.id = run
  | _ => false

def World.exits (w : World) (run : String) : Nat := w.store.events.countP (·.runId = run)

def World.overs (w : World) (run : String) : Nat :=
  w.store.runs.countP fun row => row.id = run && row.atEnd

def System.owed (s : System) (run : String) : Nat := s.threads.flatten.countP (·.owes run)

/-- Each run that is over has its exit, or someone is about to write it. -/
def System.Accounted (s : System) : Prop :=
  ∀ run, s.world.exits run + s.owed run = s.world.overs run

section
variable {w w' : World} {ok : Bool} {job : Job} {jobs : List Job}

theorem Job.Puts.not_owes {j : Job} (h : job.Puts j)
    (hend : ∀ pty facts via after, job ≠ .endRun pty facts via after)
    (hruns : ∀ alive known seen, job ≠ .endRuns alive known seen) (run : String) :
    j.owes run = false := by
  cases job with
  | endRun pty facts via after => exact absurd rfl (hend pty facts via after)
  | endRuns alive known seen => exact absurd rfl (hruns alive known seen)
  | _ => cases j <;> first | rfl | exact h.elim

theorem Moves.over_same {old new : RunRow} (h : Moves w ok job old new)
    (hend : ∀ pty facts via after, job ≠ .endRun pty facts via after)
    (hruns : ∀ alive known seen, job ≠ .endRuns alive known seen) : new.atEnd = old.atEnd := by
  cases h with
  | stays => rfl
  | attaches _ _ => rfl
  | adopts _ _ => rfl
  | exits _ pty facts via after _ _ => exact absurd rfl (hend pty facts via after)
  | fails _ hopen => simp [RunRow.atEnd, hopen]
  | cut _ alive known seen _ _ => exact absurd rfl (hruns alive known seen)

theorem RunsDo.over_same {rows : List RunRow} (h : RunsDo w ok job rows)
    (hend : ∀ pty facts via after, job ≠ .endRun pty facts via after)
    (hruns : ∀ alive known seen, job ≠ .endRuns alive known seen) (run : String) :
    rows.countP (fun row => row.id = run && row.atEnd) = w.overs run := by
  unfold World.overs
  cases h with
  | moves f hmoves =>
    rw [countP_map]
    refine List.countP_congr fun row hrow => ?_
    have hmove := hmoves row hrow
    simp [hmove.id, hmove.over_same hend hruns]
  | comes launch id _ _ _ => simp [countP_append, RunRow.atEnd, RunRow.isOpen]

theorem count_found {store : Store} {found : RunRow} (hfound : found ∈ store.runs)
    (run : String) :
    store.runs.countP (fun row => row.id = found.id && row.id = run) =
      (decide (found.id = run)).toNat := by
  by_cases hrun : found.id = run
  · subst hrun
    have hcount := List.count_eq_one_of_mem store.runKey (mem_map_of_mem hfound)
    rw [List.count_eq_countP, countP_map] at hcount
    have hsame : (fun row : RunRow => decide (row.id = found.id) && decide (row.id = found.id)) =
        (fun id => id == found.id) ∘ (·.id) := by
      funext row
      simp only [Bool.and_self, comp_apply, beq_eq_decide]
    rw [hsame, hcount]
    simp
  · rw [countP_eq_zero.mpr]
    · simp [hrun]
    · intro row _
      simp only [Bool.and_eq_true, decide_eq_true_eq, not_and]
      exact fun hid h => hrun (hid.symm.trans h)

theorem endRunByPty_overs {store : Store} {pty : String} {facts : ExitFacts} {at' : Int}
    {found : RunRow} (h : w.store.endRunByPty pty facts.code facts.reason at' = (some found, store))
    (run : String) :
    store.runs.countP (fun row => row.id = run && row.atEnd) =
      w.overs run + (decide (found.id = run)).toNat := by
  obtain ⟨hfound, -, hopen⟩ := Store.endRunByPty_mem h
  unfold Store.endRunByPty at h
  split at h
  · cases h
  obtain ⟨hsome, rfl⟩ := Prod.mk.inj h
  rw [Option.some.inj hsome]
  have hreason : facts.reason ≠ .spawnFailed := by
    unfold ExitFacts.reason
    split <;> simp
  rw [← count_found hfound]
  refine countP_map_add fun row hrow => ?_
  unfold Store.endById
  by_cases hid : row.id = found.id
  · obtain rfl := w.store.run_unique hrow hfound hid
    simp [RunRow.atEnd, hopen, hreason]
  · simp [hid]

theorem endInterruptedRuns_overs (alive : List String) (grace : Int) (run : String) :
    (w.store.endInterruptedRuns alive grace w.now).2.runs.countP
        (fun row => row.id = run && row.atEnd) =
      w.overs run +
        (w.store.endInterruptedRuns alive grace w.now).1.countP (·.id = run) := by
  show (w.store.runs.map _).countP _ = _ + (w.store.runs.filter _).countP _
  rw [List.countP_filter]
  refine countP_map_add fun row _ => ?_
  unfold Store.endInterrupted
  cases hcut : row.interrupted alive grace w.now with
  | false => simp
  | true =>
    have hopen : row.isOpen = true := by
      unfold RunRow.interrupted at hcut
      simp only [Bool.and_eq_true] at hcut
      exact hcut.1
    simp [RunRow.atEnd, hopen]

theorem After.owes (after : After) (run : String) :
    after.recorded.countP (·.owes run) = 0 ∧ after.noRun.countP (·.owes run) = 0 := by
  cases after <;> exact ⟨rfl, rfl⟩

theorem perform_events (h : perform w ok job = some (w', jobs))
    (hwrite : ∀ row facts reason via, job ≠ .writeExit row facts reason via) :
    w'.store.events = w.store.events := by
  cases job with
  | writeExit row facts reason via => exact absurd rfl (hwrite row facts reason via)
  | record record pty =>
    cases record <;> dsimp only [perform] at h <;>
      grind [Store.addSession, Store.markSessionRunning, Store.mapSessions]
  | drain entries => cases entries <;> dsimp only [perform] at h <;> grind
  | _ =>
    dsimp only [perform] at h
    grind [Store.addRun, Store.runSpawned, Store.endRun, Store.endRunByPty,
      Store.endInterruptedRuns, Store.mapRuns, Store.endSession, Store.endInterruptedSessions,
      Store.mapSessions, map_eq_some_iff]

def Accounts (w w' : World) (job : Job) (jobs : List Job) : Prop :=
  ∀ run, w'.exits run + jobs.countP (·.owes run) + w.overs run =
    (job.owes run).toNat + w.exits run + w'.overs run

theorem addEvent_new {store : Store} {event : ExitEvent}
    (h : event.sourceKey ∉ store.events.map (·.sourceKey)) :
    (store.addEvent event).events = store.events ++ [event] := by
  rw [Store.addEvent, dif_neg h]

theorem addEvent_runs (store : Store) (event : ExitEvent) :
    (store.addEvent event).runs = store.runs := by
  unfold Store.addEvent
  split <;> rfl

theorem writeExit_accounts {row : RunRow} {facts : ExitFacts} {reason : EndReason} {via : Via}
    (h : perform w true (.writeExit row facts reason via) = some (w', jobs))
    (hkey : (exitEvent row facts reason via (facts.at'.getD w.now)).sourceKey ∉
      w.store.events.map (·.sourceKey)) :
    Accounts w w' (.writeExit row facts reason via) jobs := by
  intro run
  cases h
  have hid : (exitEvent row facts reason via (facts.at'.getD w.now)).runId = row.id := rfl
  simp only [if_true, World.exits, World.overs, addEvent_runs]
  rw [addEvent_new hkey, countP_append, countP_singleton, hid]
  by_cases hrun : row.id = run
  · simp [Job.owes, hrun]
    omega
  · simp [Job.owes, hrun]

theorem endRun_accounts {pty : String} {facts : ExitFacts} {via : Via} {after : After}
    (h : perform w ok (.endRun pty facts via after) = some (w', jobs)) :
    Accounts w w' (.endRun pty facts via after) jobs := by
  intro run
  have hevents := perform_events h fun _ _ _ _ heq => nomatch heq
  have howes : (Job.endRun pty facts via after).owes run = false := rfl
  unfold World.exits
  rw [hevents, howes]
  dsimp only [perform] at h
  split at h
  · split at h
    · cases h
      simp [Job.owes]
    · rename_i found store hend
      cases h
      have hovers := endRunByPty_overs hend run
      have hnew : (Job.writeExit found facts facts.reason via).owes run =
          decide (found.id = run) := rfl
      rw [countP_cons, (after.owes run).1, hnew]
      show _ = _ + store.runs.countP _
      rw [hovers]
      cases decide (found.id = run)
      · simp
      · simp
        omega
  · cases h
    rw [(after.owes run).2]
    simp

theorem endRuns_accounts {alive known seen : List String}
    (h : perform w ok (.endRuns alive known seen) = some (w', jobs)) :
    Accounts w w' (.endRuns alive known seen) jobs := by
  intro run
  have hevents := perform_events h fun _ _ _ _ heq => nomatch heq
  have howes : (Job.endRuns alive known seen).owes run = false := rfl
  unfold World.exits
  rw [hevents, howes]
  dsimp only [perform] at h
  split at h
  · cases h
    have hovers := @endInterruptedRuns_overs w alive PENDING_GRACE_MS run
    have hnew : (fun job => Job.owes run job) ∘
        (fun row => Job.writeExit row .interrupted .interrupted .reconcile) =
          fun row => decide (row.id = run) := rfl
    rw [countP_map, hnew]
    show _ = _ + (w.store.endInterruptedRuns alive PENDING_GRACE_MS w.now).2.runs.countP _
    rw [hovers]
    simp only [Bool.toNat_false]
    omega
  · cases h
    simp

theorem perform_accounts (h : perform w ok job = some (w', jobs))
    (hwrite : ∀ row facts reason via, job = .writeExit row facts reason via →
      ok = true ∧ (exitEvent row facts reason via (facts.at'.getD w.now)).sourceKey ∉
        w.store.events.map (·.sourceKey)) : Accounts w w' job jobs := by
  cases job with
  | writeExit row facts reason via =>
    obtain ⟨rfl, hkey⟩ := hwrite row facts reason via rfl
    exact writeExit_accounts h hkey
  | endRun pty facts via after => exact endRun_accounts h
  | endRuns alive known seen => exact endRuns_accounts h
  | _ =>
    intro run
    have hevents := perform_events h fun _ _ _ _ heq => nomatch heq
    have hovers := (perform_runs h).over_same (fun _ _ _ _ heq => nomatch heq)
      (fun _ _ _ heq => nomatch heq) run
    have hnone : jobs.countP (·.owes run) = 0 := by
      rw [countP_eq_zero]
      intro j hj
      simp [(perform_puts h j hj).not_owes (fun _ _ _ _ heq => nomatch heq)
        (fun _ _ _ heq => nomatch heq) run]
    unfold World.exits
    rw [hevents, hnone]
    show _ = _ + w'.store.runs.countP _
    rw [hovers]
    simp [Job.owes]

end

end Yardsort.Activity
