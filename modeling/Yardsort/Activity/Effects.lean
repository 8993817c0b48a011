import Yardsort.Activity.Clients

/- What one step of the clients and the daemon can do, said once: to the processes (`Grows`), to
   the rows of the runs (`RunsDo`), and to the statements still to be made (`Job.Sound`). The
   results about whole runs start from these. -/
namespace Yardsort.Activity
open Yardsort.Lib

structure Ages (p p' : Process) : Prop where
  pty : p'.pty = p.pty
  run : p'.run = p.run
  record : p'.record = p.record
  life : p.life = .running ∨ p'.life = p.life
  spooling : p.spooling = .waiting ∨ p'.spooling = p.spooling
  told : p.told = true → p'.told = true

theorem Ages.refl (p : Process) : Ages p p := ⟨rfl, rfl, rfl, .inr rfl, .inr rfl, id⟩

structure Fresh (ps : List Process) (p : Process) : Prop where
  apart : ∀ q ∈ ps, q.Apart p
  running : p.life = .running
  listed : p.listed = true
  spooling : p.spooling = .waiting
  told : p.told = false

/-- All a step does to the processes: each goes on, and one may be spawned. -/
structure Grows (ps ps' : List Process) : Prop where
  kept : ∀ p ∈ ps, ∃ p' ∈ ps', Ages p p'
  came : ∀ p' ∈ ps', (∃ p ∈ ps, Ages p p') ∨ Fresh ps p'

theorem Grows.refl (ps : List Process) : Grows ps ps :=
  ⟨fun p hp => ⟨p, hp, .refl p⟩, fun p hp => .inl ⟨p, hp, .refl p⟩⟩

variable {pty : String} {p : Process}

namespace Daemon

theorem process_mem {daemon : Daemon} (h : daemon.process pty = some p) :
    p ∈ daemon.processes ∧ p.pty = pty :=
  ⟨mem_of_find?_eq_some h, by simpa using List.find?_some h⟩

theorem unique {daemon : Daemon} {q : Process} (hp : p ∈ daemon.processes)
    (hq : q ∈ daemon.processes) (h : p.pty = q.pty ∨ (p.run ≠ none ∧ p.run = q.run)) : p = q := by
  have hsymm : ∀ a b : Process, a.pty = b.pty ∨ (a.run ≠ none ∧ a.run = b.run) → ¬ a.Apart b := by
    rintro a b (hpty | ⟨hsome, hrun⟩) ⟨hne, happart⟩
    · exact hne hpty
    · exact happart.elim hsome (· hrun)
  by_contra hne
  have happart := List.Pairwise.forall_of_forall_of_flip (R := fun a b => a = b ∨ a.Apart b ∨
    b.Apart a) (fun a _ => .inl rfl) (daemon.apart.imp fun h => .inr (.inl h))
    (daemon.apart.imp fun h => .inr (.inr h)) hp hq
  obtain heq | hpq | hqp := happart
  · exact hne heq
  · exact hsymm p q h hpq
  · refine hsymm q p ?_ hqp
    obtain hpty | ⟨hsome, hrun⟩ := h
    · exact .inl hpty.symm
    · exact .inr ⟨hrun ▸ hsome, hrun.symm⟩

theorem process_eq {daemon : Daemon} {q : Process} (h : daemon.process pty = some p)
    (hq : q ∈ daemon.processes) (hpty : q.pty = pty) : q = p :=
  unique hq (process_mem h).1 (.inl (hpty.trans (process_mem h).2.symm))

theorem change_self {f : Process → Process} (hpty : p.pty = pty) (hf : Ages p (f p)) :
    change pty f p = f p := by
  rw [change, if_pos hpty, ← hf.pty, ← hf.run, ← hf.record]

theorem update_grows {daemon : Daemon} {f : Process → Process} (h : daemon.process pty = some p)
    (hf : Ages p (f p)) :
    Grows daemon.processes (daemon.update pty f).processes := by
  have hone : ∀ q ∈ daemon.processes, Ages q (change pty f q) := by
    intro q hq
    by_cases hpty : q.pty = pty
    · obtain rfl := process_eq h hq hpty
      exact (change_self hpty hf).symm ▸ hf
    · rw [change, if_neg hpty]
      exact .refl q
  refine ⟨fun q hq => ⟨_, mem_map_of_mem hq, hone q hq⟩, fun q' hq' => ?_⟩
  obtain ⟨q, hq, rfl⟩ := mem_map.mp hq'
  exact .inl ⟨q, hq, hone q hq⟩

theorem spawn_grows {daemon daemon' : Daemon} {run record : Option String}
    (h : daemon.spawn pty run record = some daemon') :
    Grows daemon.processes daemon'.processes := by
  unfold spawn at h
  dsimp only at h
  split at h
  · rename_i happart
    cases h
    refine ⟨fun p hp => ⟨p, mem_append_left _ hp, .refl p⟩, fun p hp => ?_⟩
    obtain hold | rfl := mem_snoc.mp hp
    · exact .inl ⟨p, hold, .refl p⟩
    · exact .inr ⟨happart, rfl, rfl, rfl, rfl⟩
  · cases h

theorem exitOf_exited {daemon : Daemon} {exit : ExitInfo} (h : daemon.exitOf pty = some exit) :
    ∃ p ∈ daemon.processes, p.pty = pty ∧ p.life = .exited exit := by
  unfold exitOf at h
  split at h
  · rename_i hp
    cases h
    exact ⟨_, (process_mem hp).1, (process_mem hp).2, rfl⟩
  · cases h

end Daemon

variable {w : World} {job : Job}

theorem perform_daemon {w' : World} {ok : Bool} {jobs : List Job}
    (h : perform w ok job = some (w', jobs)) : w'.daemon = w.daemon ∨
      ∃ launch, job = .spawn launch ∧ ok = true ∧
        w.daemon.spawn launch.pty launch.run launch.record.id = some w'.daemon := by
  cases job with
  | spawn launch =>
    unfold perform at h
    dsimp only at h
    split at h
    · rename_i hok
      obtain ⟨daemon, hspawn, heq⟩ := map_eq_some_iff.mp h
      cases heq
      exact .inr ⟨launch, rfl, hok, hspawn⟩
    · split at h
      · cases h
        exact .inl rfl
      · cases h
        exact .inl rfl
  | _ =>
    left
    dsimp only [perform] at h
    grind

theorem perform_processes {w' : World} {ok : Bool} {jobs : List Job}
    (h : perform w ok job = some (w', jobs)) (hp : p ∈ w'.daemon.processes) :
    p ∈ w.daemon.processes ∨ (Fresh w.daemon.processes p ∧
      ∃ launch, job = .spawn launch ∧ ok = true ∧ p.run = launch.run) := by
  obtain heq | ⟨launch, rfl, hok, hspawn⟩ := perform_daemon h
  · exact .inl (heq ▸ hp)
  · unfold Daemon.spawn at hspawn
    dsimp only at hspawn
    split at hspawn
    · rename_i happart
      rw [← Option.some.inj hspawn] at hp
      obtain hold | rfl := mem_snoc.mp hp
      · exact .inl hold
      · exact .inr ⟨⟨happart, rfl, rfl, rfl, rfl⟩, launch, rfl, hok, rfl⟩
    · cases hspawn

theorem perform_grows {w' : World} {ok : Bool} {jobs : List Job}
    (h : perform w ok job = some (w', jobs)) :
    Grows w.daemon.processes w'.daemon.processes := by
  obtain heq | ⟨launch, -, -, hspawn⟩ := perform_daemon h
  · exact heq ▸ .refl _
  · exact Daemon.spawn_grows hspawn

/-! ## The rows of the runs -/

theorem Store.run_unique {store : Store} {a b : RunRow} (ha : a ∈ store.runs)
    (hb : b ∈ store.runs) (hid : a.id = b.id) : a = b :=
  List.inj_on_of_nodup_map store.runKey ha hb hid

inductive Moves (w : World) (ok : Bool) : Job → RunRow → RunRow → Prop
  | stays (job : Job) (row : RunRow) : Moves w ok job row row
  | attaches (row : RunRow) (pty : String) : Moves w ok (.runSpawned row.id pty) row (row.attached pty)
  | adopts (row : RunRow) (entry : SpoolEntry) :
      Moves w ok (.adoptSpawned row.id entry) row (row.attached entry.session)
  | exits (row : RunRow) (pty : String) (facts : ExitFacts) (via : Via) (after : After)
      (hopen : row.isOpen = true) (hpty : row.ptySessionId = some pty) :
      Moves w ok (.endRun pty facts via after) row
        (row.ended facts.code facts.reason (facts.at'.getD w.now))
  | fails (row : RunRow) (hopen : row.isOpen = true) :
      Moves w ok (.spawnFailed row.id) row (row.ended none .spawnFailed w.now)
  | cut (row : RunRow) (alive known seen : List String) (hok : ok = true)
      (hcut : row.interrupted alive PENDING_GRACE_MS w.now = true) :
      Moves w ok (.endRuns alive known seen) row (row.ended none .interrupted w.now)

theorem Moves.id {ok : Bool} {old new : RunRow} (h : Moves w ok job old new) :
    new.id = old.id := by
  cases h <;> rfl

/-- All a statement does to the rows: they move one by one, or one comes. -/
inductive RunsDo (w : World) (ok : Bool) (job : Job) : List RunRow → Prop
  | moves (f : RunRow → RunRow) (h : ∀ row ∈ w.store.runs, Moves w ok job row (f row)) :
      RunsDo w ok job (w.store.runs.map f)
  | comes (launch : Launch) (id : String) (hjob : job = .begin launch) (hid : launch.run = some id)
      (hnew : id ∉ w.store.runs.map (·.id)) :
      RunsDo w ok job (w.store.runs ++ [⟨id, none, w.now, none, none, none⟩])

theorem RunsDo.was {ok : Bool} {rows : List RunRow} (h : RunsDo w ok job rows) {old new : RunRow}
    (hold : old ∈ w.store.runs) (hnew : new ∈ rows) (hid : new.id = old.id) :
    Moves w ok job old new := by
  cases h with
  | moves f hmoves =>
    obtain ⟨row, hrow, rfl⟩ := mem_map.mp hnew
    obtain rfl := w.store.run_unique hrow hold ((hmoves row hrow).id.symm.trans hid)
    exact hmoves row hrow
  | comes launch id _ _ hfresh =>
    obtain hmem | rfl := mem_snoc.mp hnew
    · obtain rfl := w.store.run_unique hmem hold hid
      exact .stays ..
    · exact absurd (mem_map.mpr ⟨old, hold, hid.symm⟩) hfresh

theorem RunsDo.same (w : World) (ok : Bool) (job : Job) : RunsDo w ok job w.store.runs := by
  have h : RunsDo w ok job (w.store.runs.map id) := .moves id fun row _ => .stays job row
  rwa [map_id] at h

section
variable {w w' : World} {ok : Bool} {job : Job} {jobs : List Job}

theorem RunsDo.attach {id : String} {store : Store} (h : w.store.runSpawned id pty = some store)
    (hmoves : ∀ row, row.id = id → Moves w ok job row (row.attached pty)) :
    RunsDo w ok job store.runs := by
  unfold Store.runSpawned at h
  split at h
  · cases h
  cases h
  refine .moves (Store.attach id pty) fun row _ => ?_
  unfold Store.attach
  split
  · rename_i hid
    exact hmoves row hid
  · exact .stays ..

theorem RunsDo.exit {facts : ExitFacts} {via : Via} {after : After} {run : Option RunRow}
    {store : Store}
    (h : w.store.endRunByPty pty facts.code facts.reason (facts.at'.getD w.now) = (run, store)) :
    RunsDo w ok (.endRun pty facts via after) store.runs := by
  unfold Store.endRunByPty at h
  split at h
  · cases h
    exact .same ..
  · rename_i row hfind
    cases h
    have hfound := List.find?_some hfind
    simp only [Bool.and_eq_true, decide_eq_true_eq] at hfound
    refine .moves (Store.endById row.id _ _ _) fun old hold => ?_
    unfold Store.endById
    split
    · rename_i hid
      obtain rfl := w.store.run_unique hold (mem_of_find?_eq_some hfind) hid
      exact .exits old pty facts via after hfound.2 hfound.1
    · exact .stays ..

theorem Store.endRunByPty_mem {store store' : Store} {code : Option Int} {reason : EndReason}
    {at' : Int} {run : RunRow} (h : store.endRunByPty pty code reason at' = (some run, store')) :
    run ∈ store.runs ∧ run.ptySessionId = some pty ∧ run.isOpen = true := by
  unfold endRunByPty at h
  split at h
  · cases h
  rename_i row hfind
  obtain ⟨hrow, -⟩ := Prod.mk.inj h
  cases hrow
  have hfound := List.find?_some hfind
  simp only [Bool.and_eq_true, decide_eq_true_eq] at hfound
  exact ⟨mem_of_find?_eq_some hfind, hfound⟩

theorem perform_runs (h : perform w ok job = some (w', jobs)) : RunsDo w ok job w'.store.runs := by
  cases job with
  | begin launch =>
    unfold perform at h
    dsimp only at h
    split at h
    · cases h
      exact .same ..
    · rename_i run hrun
      split at h
      · cases h
        exact .same ..
      · rename_i store hstore
        cases h
        split at hstore
        · unfold Store.addRun at hstore
          split at hstore
          · cases hstore
          · rename_i hnew
            cases hstore
            exact .comes launch run rfl hrun hnew
        · cases hstore
  | runSpawned run pty =>
    unfold perform at h
    dsimp only at h
    split at h
    · cases h
      exact .same ..
    · rename_i store hstore
      cases h
      split at hstore
      · exact .attach hstore fun row hid => hid ▸ .attaches row pty
      · cases hstore
  | adoptSpawned run entry =>
    unfold perform at h
    dsimp only at h
    split at h
    · cases h
      exact .same ..
    · rename_i store hstore
      cases h
      split at hstore
      · exact .attach hstore fun row hid => hid ▸ .adopts row entry
      · cases hstore
  | endRun pty facts via after =>
    unfold perform at h
    dsimp only at h
    split at h
    · split at h
      · cases h
        exact .same ..
      · rename_i hend
        cases h
        exact .exit hend
    · cases h
      exact .same ..
  | spawnFailed run =>
    cases h
    split
    · refine .moves _ fun row _ => ?_
      unfold Store.endById
      split
      · rename_i hopen
        split
        · rename_i hid
          exact hid ▸ .fails row hopen
        · exact .stays ..
      · exact .stays ..
    · exact .same ..
  | endRuns alive known seen =>
    unfold perform at h
    dsimp only at h
    split at h
    · rename_i hok
      cases h
      refine .moves (Store.endInterrupted alive PENDING_GRACE_MS w.now) fun row _ => ?_
      unfold Store.endInterrupted
      split
      · rename_i hcut
        exact .cut row alive known seen hok hcut
      · exact .stays ..
    · cases h
      exact .same ..
  | _ =>
    have hruns : w'.store.runs = w.store.runs := by
      dsimp only [perform] at h
      grind [Store.addEvent, Store.addSession, Store.markSessionRunning, Store.endSession,
        Store.endInterruptedSessions, Store.mapSessions, map_eq_some_iff]
    exact hruns ▸ .same ..

end

def Job.Puts : Job → Job → Prop
  | resume l, begin l' => l' = l
  | begin l, spawn l' => l' = l ∨ l' = { l with run := none }
  | spawn l, spawnFailed run => l.run = some run
  | spawn l, runSpawned run pty => l.run = some run ∧ l.pty = pty
  | spawn l, check pty => l.pty = pty
  | spawn l, .record r pty => l.record = r ∧ l.pty = pty
  | check pty, endRun pty' _ via after => pty' = pty ∧ via = .settle ∧ after = .nothing
  | .record _ pty, settle pty' => pty' = pty
  | settle pty, endSession pty' _ => pty' = pty
  | settle pty, endRun pty' _ via after => pty' = pty ∧ via = .settle ∧ after = .nothing
  | endSession _ facts, endSessionRow _ facts' => facts' = facts
  | endRun _ facts via _, writeExit _ facts' _ via' => facts' = facts ∧ via' = via
  | endRun pty _ _ after, lookup pty' after' => pty' = pty ∧ after' = after
  | endRun _ _ _ after, adopt entry => after = .adopts entry
  | endRun _ _ _ after, remove entry => after = .adopts entry ∨ after = .removes entry
  | lookup _ after, adopt entry => after = .adopts entry
  | lookup _ after, remove entry => after = .adopts entry ∨ after = .removes entry
  | adopt entry, adoptSpawned _ entry' => entry' = entry
  | adopt entry, remove entry' => entry' = entry
  | adoptSpawned _ entry, endRun pty _ via after =>
      pty = entry.session ∧ via = .spool ∧ after = .removes entry
  | adoptSpawned _ entry, remove entry' => entry' = entry
  | openSpool _, drain _ => True
  | openSpool starting, list _ => starting = true
  | drain entries, drain entries' => ∀ entry ∈ entries', entry ∈ entries
  | drain entries, endSession pty _ => ∃ entry ∈ entries, pty = entry.session
  | drain entries, endRun pty _ via after =>
      ∃ entry ∈ entries, pty = entry.session ∧ via = .spool ∧ after = .adopts entry
  | list seen, endSessions _ _ seen' => seen' = seen
  | endSessions alive known seen, endRuns alive' known' seen' =>
      alive' = alive ∧ known' = known ∧ seen' = seen
  | endRuns _ _ _, writeExit _ facts _ via => facts = .interrupted ∧ via = .reconcile
  | _, _ => False

theorem perform_puts {w' : World} {ok : Bool} {jobs : List Job}
    (h : perform w ok job = some (w', jobs)) : ∀ j ∈ jobs, job.Puts j := by
  cases job with
  | spawn launch =>
    unfold perform at h
    dsimp only at h
    split at h
    · obtain ⟨daemon, -, heq⟩ := map_eq_some_iff.mp h
      cases heq
      obtain ⟨run, pty, record⟩ := launch
      cases run <;> cases record <;> simp [spawnedJobs, Job.Puts]
    · split at h
      · cases h
        simp
      · rename_i run hrun
        cases h
        simp [Job.Puts, hrun]
  | check pty =>
    cases h
    unfold recordExit
    split <;> simp [Job.Puts]
  | settle pty =>
    cases h
    unfold settleExit
    split <;> simp [Job.Puts]
  | record record pty => cases record <;> dsimp only [perform] at h <;> grind [Job.Puts]
  | drain entries => cases entries <;> dsimp only [perform] at h <;> grind [Job.Puts]
  | endRun pty facts via after | lookup pty after =>
    cases after <;> dsimp only [perform] at h <;> grind [Job.Puts, After.recorded, After.noRun]
  | _ =>
    dsimp only [perform] at h
    grind [Job.Puts]

theorem Store.session_unique {store : Store} {a b : SessionRow} (ha : a ∈ store.sessions)
    (hb : b ∈ store.sessions) (hid : a.id = b.id) : a = b :=
  List.inj_on_of_nodup_map store.sessionKey ha hb hid

inductive SessionMoves (w : World) : Job → SessionRow → SessionRow → Prop
  | stays (job : Job) (row : SessionRow) : SessionMoves w job row row
  | marked (row : SessionRow) (pty : String) :
      SessionMoves w (.record (.old row.id) pty) row (row.markedRunning pty w.now)
  | exits (row : SessionRow) (facts : ExitFacts) :
      SessionMoves w (.endSessionRow row.id facts) row
        (row.exited facts.code (facts.at'.getD w.now))
  | cut (row : SessionRow) (alive known seen : List String)
      (hcut : row.interrupted alive = true) :
      SessionMoves w (.endSessions alive known seen) row (row.cutShort w.now)

theorem SessionMoves.id {old new : SessionRow} (h : SessionMoves w job old new) :
    new.id = old.id := by
  cases h <;> rfl

/-- All a statement does to the records: they move one by one, or one comes. -/
inductive SessionsDo (w : World) (job : Job) : List SessionRow → Prop
  | moves (f : SessionRow → SessionRow) (h : ∀ row ∈ w.store.sessions, SessionMoves w job row (f row)) :
      SessionsDo w job (w.store.sessions.map f)
  | comes (row : SessionRow) (hnew : row.id ∉ w.store.sessions.map (·.id)) :
      SessionsDo w job (w.store.sessions ++ [row])

theorem SessionsDo.same (w : World) (job : Job) : SessionsDo w job w.store.sessions := by
  have h : SessionsDo w job (w.store.sessions.map id) := .moves id fun row _ => .stays job row
  rwa [map_id] at h

theorem SessionsDo.was {rows : List SessionRow} (h : SessionsDo w job rows) {old new : SessionRow}
    (hold : old ∈ w.store.sessions) (hnew : new ∈ rows) (hid : new.id = old.id) :
    SessionMoves w job old new := by
  cases h with
  | moves f hmoves =>
    obtain ⟨row, hrow, rfl⟩ := mem_map.mp hnew
    obtain rfl := w.store.session_unique hrow hold ((hmoves row hrow).id.symm.trans hid)
    exact hmoves row hrow
  | comes row hfresh =>
    obtain hmem | rfl := mem_snoc.mp hnew
    · obtain rfl := w.store.session_unique hmem hold hid
      exact .stays ..
    · exact absurd (mem_map.mpr ⟨old, hold, hid.symm⟩) hfresh

theorem perform_sessions {w' : World} {ok : Bool} {jobs : List Job}
    (h : perform w ok job = some (w', jobs)) : SessionsDo w job w'.store.sessions := by
  cases job with
  | record record pty =>
    cases record with
    | none =>
      cases h
      exact .same ..
    | new id =>
      unfold perform at h
      dsimp only at h
      split at h
      · cases h
        exact .same ..
      · rename_i store hstore
        cases h
        unfold Store.addSession at hstore
        split at hstore
        · split at hstore
          · cases hstore
          · rename_i hfresh
            cases hstore
            exact .comes _ hfresh
        · cases hstore
    | old id =>
      unfold perform at h
      dsimp only at h
      split at h
      · cases h
        refine .moves _ fun row _ => ?_
        split
        · rename_i hid
          exact hid ▸ .marked row pty
        · exact .stays ..
      · cases h
        exact .same ..
  | endSessionRow id facts =>
    cases h
    split
    · refine .moves _ fun row _ => ?_
      split
      · rename_i hid
        exact hid ▸ .exits row facts
      · exact .stays ..
    · exact .same ..
  | endSessions alive known seen =>
    unfold perform at h
    dsimp only at h
    split at h
    · cases h
      refine .moves _ fun row _ => ?_
      split
      · rename_i hcut
        exact .cut row alive known seen hcut
      · exact .stays ..
    · cases h
      exact .same ..
  | _ =>
    have hsame : w'.store.sessions = w.store.sessions := by
      dsimp only [perform] at h
      grind [Store.addEvent, Store.addRun, Store.runSpawned, Store.endRun, Store.endRunByPty,
        Store.endInterruptedRuns, Store.mapRuns, map_eq_some_iff]
    exact hsame ▸ .same ..

def Labelled (ps : List Process) (run pty : String) : Prop :=
  ∃ p ∈ ps, p.pty = pty ∧ p.run = some run

def ExitFacts.Tells (facts : ExitFacts) (exit : ExitInfo) : Prop :=
  facts.code = some (exit.code : Int) ∧ facts.success = exit.success ∧ facts.signal = exit.signal

def Ended (ps : List Process) (pty : String) (facts : ExitFacts) : Prop :=
  ∃ p ∈ ps, p.pty = pty ∧ ∃ exit, p.life = .exited exit ∧ facts.Tells exit

def Written (ps : List Process) (pty : String) : Prop :=
  ∃ p ∈ ps, p.pty = pty ∧ p.spooling.isWritten = true

def SpoolEntry.Sound (ps : List Process) (entry : SpoolEntry) : Prop :=
  ∃ p ∈ ps, p.pty = entry.session ∧ p.life = .exited entry.exit ∧ p.spooling = .written entry ∧
    (entry.run = none ∨ entry.run = p.run)

def After.Sound (ps : List Process) (pty : String) : After → Prop
  | nothing => True
  | adopts entry => entry.session = pty ∧ entry.Sound ps
  | removes entry => entry.session = pty ∧ entry.Sound ps

/-- A list holds every process it could hold that still waits. -/
structure Listing (ps : List Process) (alive known : List String) : Prop where
  holds : ∀ pty ∈ alive, pty ∈ known
  spawned : ∀ pty ∈ known, ∃ p ∈ ps, p.pty = pty
  live : ∀ p ∈ ps, p.pty ∈ known → p.waits → p.pty ∈ alive

/-- What a statement was given is true of the processes. -/
def Job.Sound (ps : List Process) : Job → Prop
  | runSpawned run pty => Labelled ps run pty
  | adoptSpawned run entry => Labelled ps run entry.session ∧ entry.Sound ps
  | endSession pty facts => Ended ps pty facts
  | endSessionRow _ facts => facts.code.isSome = true
  | endRun pty facts _ after => Ended ps pty facts ∧ after.Sound ps pty
  | writeExit run _ _ _ => ∀ pty, run.ptySessionId = some pty → Labelled ps run.id pty
  | lookup pty after => after.Sound ps pty
  | adopt entry => entry.Sound ps
  | remove entry => entry.Sound ps
  | drain entries => ∀ entry ∈ entries, entry.Sound ps
  | list seen => ∀ pty ∈ seen, Written ps pty
  | endSessions alive known seen => Listing ps alive known ∧ ∀ pty ∈ seen, Written ps pty
  | endRuns alive known seen => Listing ps alive known ∧ ∀ pty ∈ seen, Written ps pty
  | _ => True

structure Process.Sound (p : Process) : Prop where
  listed : p.waits → p.listed = true
  waiting : p.spooling = .waiting → p.told = false
  exited : p.spooling ≠ .waiting → ∃ exit, p.life = .exited exit
  entry : ∀ entry, p.spooling = .written entry → entry.session = p.pty

theorem Process.Sound.waits (h : p.Sound) (hrunning : p.running) : p.waits := by
  refine ⟨fun hlost => absurd (hrunning.symm.trans hlost) nofun, ?_⟩
  by_contra hspooling
  obtain ⟨exit, hlife⟩ := h.exited hspooling
  exact absurd (hrunning.symm.trans hlife) nofun

theorem Ages.waits {p' : Process} (h : Ages p p') (hw : p'.waits) : p.waits := by
  refine ⟨fun hlost => ?_, h.spooling.elim id fun heq => heq.symm.trans hw.2⟩
  obtain hrunning | heq := h.life
  · exact absurd (hrunning.symm.trans hlost) nofun
  · exact hw.1 (heq.trans hlost)

theorem Ages.spooled {p' : Process} (hages : Ages p p') (hw : p.spooling ≠ .waiting) :
    p'.spooling = p.spooling :=
  hages.spooling.resolve_left hw

section
variable {ps ps' : List Process} (h : Grows ps ps')
include h

theorem Labelled.mono {run : String} (hl : Labelled ps run pty) : Labelled ps' run pty := by
  obtain ⟨p, hp, hpty, hrun⟩ := hl
  obtain ⟨p', hp', hages⟩ := h.kept p hp
  exact ⟨p', hp', hages.pty.trans hpty, hages.run.trans hrun⟩

theorem exited_mono (hp : p ∈ ps) {exit : ExitInfo} (hlife : p.life = .exited exit) :
    ∃ p' ∈ ps', Ages p p' ∧ p'.life = .exited exit := by
  obtain ⟨p', hp', hages⟩ := h.kept p hp
  obtain hrunning | heq := hages.life
  · rw [hlife] at hrunning
    cases hrunning
  · exact ⟨p', hp', hages, heq.trans hlife⟩

theorem Ended.mono {facts : ExitFacts} (he : Ended ps pty facts) :
    Ended ps' pty facts := by
  obtain ⟨p, hp, hpty, exit, hlife, htells⟩ := he
  obtain ⟨p', hp', hages, hlife'⟩ := exited_mono h hp hlife
  exact ⟨p', hp', hages.pty.trans hpty, exit, hlife', htells⟩

theorem Written.mono (hw : Written ps pty) : Written ps' pty := by
  obtain ⟨p, hp, hpty, hwritten⟩ := hw
  obtain ⟨p', hp', hages⟩ := h.kept p hp
  refine ⟨p', hp', hages.pty.trans hpty, ?_⟩
  rw [hages.spooled fun hwaiting => ?_, hwritten]
  rw [hwaiting] at hwritten
  cases hwritten

theorem SpoolEntry.Sound.mono {entry : SpoolEntry} (he : entry.Sound ps) : entry.Sound ps' := by
  obtain ⟨p, hp, hpty, hlife, hwritten, hrun⟩ := he
  obtain ⟨p', hp', hages, hlife'⟩ := exited_mono h hp hlife
  have hspooled := hages.spooled fun hwaiting => nomatch hwritten.symm.trans hwaiting
  exact ⟨p', hp', hages.pty.trans hpty, hlife', hspooled.trans hwritten,
    hrun.imp_right fun heq => heq.trans hages.run.symm⟩

theorem After.Sound.mono {after : After} (ha : after.Sound ps pty) :
    after.Sound ps' pty := by
  cases after with
  | nothing => trivial
  | adopts entry | removes entry => exact ⟨ha.1, ha.2.mono h⟩

theorem Listing.mono {alive known : List String} (hl : Listing ps alive known) :
    Listing ps' alive known := by
  refine ⟨hl.holds, fun pty hpty => ?_, fun p' hp' hknown hwaits => ?_⟩
  · obtain ⟨p, hp, heq⟩ := hl.spawned pty hpty
    obtain ⟨p', hp', hages⟩ := h.kept p hp
    exact ⟨p', hp', hages.pty.trans heq⟩
  · obtain ⟨p, hp, hages⟩ | hfresh := h.came p' hp'
    · rw [hages.pty] at hknown ⊢
      exact hl.live p hp hknown (hages.waits hwaits)
    · obtain ⟨p, hp, heq⟩ := hl.spawned _ hknown
      exact absurd heq (hfresh.apart p hp).1

theorem Job.Sound.mono (hj : job.Sound ps) : job.Sound ps' := by
  cases job with
  | runSpawned run pty => exact Labelled.mono h hj
  | adoptSpawned run entry => exact ⟨Labelled.mono h hj.1, hj.2.mono h⟩
  | endSession pty facts => exact Ended.mono h hj
  | endSessionRow id facts => exact hj
  | endRun pty facts via after => exact ⟨Ended.mono h hj.1, hj.2.mono h⟩
  | writeExit run facts reason via => exact fun pty hpty => Labelled.mono h (hj pty hpty)
  | lookup pty after => exact After.Sound.mono h hj
  | adopt entry | remove entry => exact SpoolEntry.Sound.mono h hj
  | drain entries => exact fun entry hentry => (hj entry hentry).mono h
  | list seen => exact fun pty hpty => (hj pty hpty).mono h
  | endSessions alive known seen =>
    exact ⟨hj.1.mono h, fun pty hpty => (hj.2 pty hpty).mono h⟩
  | endRuns alive known seen => exact ⟨hj.1.mono h, fun pty hpty => (hj.2 pty hpty).mono h⟩
  | _ => trivial

end

/-! ## A sound state -/

structure World.Sound (w : World) : Prop where
  processes : ∀ p ∈ w.daemon.processes, p.Sound
  rows : ∀ row ∈ w.store.runs, ∀ pty, row.ptySessionId = some pty →
    Labelled w.daemon.processes row.id pty
  spool : ∀ entry ∈ w.spool, entry.Sound w.daemon.processes

structure System.Sound (s : System) : Prop where
  world : s.world.Sound
  jobs : ∀ jobs ∈ s.threads, ∀ job ∈ jobs, job.Sound s.world.daemon.processes

theorem ofExit_tells (exit : ExitInfo) : (ExitFacts.ofExit exit).Tells exit := ⟨rfl, rfl, rfl⟩

theorem SpoolEntry.Sound.ended {ps : List Process} {entry : SpoolEntry} (h : entry.Sound ps) :
    Ended ps entry.session entry.facts := by
  obtain ⟨p, hp, hpty, hlife, -⟩ := h
  exact ⟨p, hp, hpty, entry.exit, hlife, rfl, rfl, rfl⟩

theorem After.Sound.recorded {ps : List Process} {after : After} (h : after.Sound ps pty) :
    ∀ job ∈ after.recorded, job.Sound ps := by
  cases after with
  | nothing => simp [After.recorded]
  | adopts entry | removes entry => simpa [After.recorded, Job.Sound] using h.2

theorem After.Sound.noRun {ps : List Process} {after : After} (h : after.Sound ps pty) :
    ∀ job ∈ after.noRun, job.Sound ps := by
  cases after with
  | nothing => simp [After.noRun]
  | adopts entry | removes entry => simpa [After.noRun, Job.Sound] using h.2

section
variable {w w' : World} {ok : Bool} {job : Job} {jobs : List Job}

theorem seen_ended {exit : ExitInfo} (h : (if ok then w.daemon.exitOf pty else none) = some exit) :
    Ended w.daemon.processes pty (.ofExit exit) := by
  split at h
  · obtain ⟨p, hp, hpty, hlife⟩ := Daemon.exitOf_exited h
    exact ⟨p, hp, hpty, exit, hlife, ofExit_tells exit⟩
  · cases h

theorem list_listing (hw : w.Sound) : Listing w.daemon.processes (if ok then w.daemon.list else [])
    (if ok then w.spawned else []) := by
  cases ok with
  | false => exact ⟨by simp, by simp, by simp⟩
  | true =>
    refine ⟨fun pty hpty => ?_, fun pty hpty => ?_, fun p hp _ hwaits => ?_⟩
    · obtain ⟨p, hp, rfl⟩ := mem_map.mp hpty
      exact mem_map_of_mem (mem_of_mem_filter hp)
    · obtain ⟨p, hp, rfl⟩ := mem_map.mp hpty
      exact ⟨p, hp, rfl⟩
    · exact mem_map_of_mem (mem_filter.mpr ⟨hp, (hw.processes p hp).listed hwaits⟩)

theorem spooled_written (w : World) : ∀ pty ∈ w.spooled, Written w.daemon.processes pty := by
  intro pty hpty
  obtain ⟨p, hp, rfl⟩ := mem_map.mp hpty
  obtain ⟨hp, hwritten⟩ := mem_filter.mp hp
  exact ⟨p, hp, rfl, by simpa using hwritten⟩

theorem spawned_sound {launch : Launch} {daemon daemon' : Daemon}
    (h : daemon.spawn launch.pty launch.run launch.record.id = some daemon') :
    ∀ j ∈ spawnedJobs launch, j.Sound daemon'.processes := by
  unfold Daemon.spawn at h
  dsimp only at h
  split at h
  · cases h
    obtain ⟨run, pty, record⟩ := launch
    cases run with
    | none => cases record <;> simp [spawnedJobs, Job.Sound]
    | some run => cases record <;> simp [spawnedJobs, Job.Sound, Labelled]
  · cases h

theorem perform_jobs_sound (h : perform w ok job = some (w', jobs)) (hw : w.Sound)
    (hjob : job.Sound w.daemon.processes) : ∀ j ∈ jobs, j.Sound w'.daemon.processes := by
  cases job with
  | spawn launch =>
    unfold perform at h
    dsimp only at h
    split at h
    · obtain ⟨daemon, hspawn, heq⟩ := map_eq_some_iff.mp h
      cases heq
      exact spawned_sound hspawn
    · split at h
      · cases h
        simp
      · cases h
        simp [Job.Sound]
  | check pty =>
    cases h
    unfold recordExit
    split
    · simp
    · rename_i exit hseen
      simpa [Job.Sound, After.Sound] using seen_ended hseen
  | settle pty =>
    cases h
    unfold settleExit
    split
    · simp
    · rename_i exit hseen
      simpa [Job.Sound, After.Sound] using seen_ended hseen
  | endSession pty facts =>
    unfold perform at h
    dsimp only at h
    split at h
    · cases h
      simp
    · cases h
      obtain ⟨-, -, -, exit, -, hcode, -⟩ := hjob
      simp [Job.Sound, hcode]
  | endRun pty facts via after =>
    unfold perform at h
    dsimp only at h
    split at h
    · split at h
      · cases h
        simpa [Job.Sound] using hjob.2
      · rename_i run store hend
        cases h
        intro j hj
        obtain rfl | hj := mem_cons.mp hj
        · exact hw.rows run (Store.endRunByPty_mem hend).1
        · exact hjob.2.recorded j hj
    · cases h
      exact hjob.2.noRun
  | lookup pty after =>
    unfold perform at h
    dsimp only at h
    split at h
    · cases h
      exact After.Sound.noRun hjob
    · cases h
      exact After.Sound.recorded hjob
  | adopt entry =>
    unfold perform at h
    dsimp only at h
    split at h
    · cases h
      simpa [Job.Sound] using hjob
    · rename_i run hrun
      cases h
      split
      · rw [forall_mem_singleton]
        refine ⟨?_, hjob⟩
        split at hrun
        · obtain ⟨id, hid, hfind⟩ := bind_eq_some_iff.mp hrun
          have hrunid : run.id = id := by simpa using List.find?_some hfind
          obtain ⟨p, hp, hpty, -, -, hnone | hlabel⟩ := hjob
          · rw [hnone] at hid
            cases hid
          · exact ⟨p, hp, hpty, by rw [← hlabel, hid, hrunid]⟩
        · cases hrun
      · simpa [Job.Sound] using hjob
  | adoptSpawned run entry =>
    unfold perform at h
    dsimp only at h
    split at h
    · cases h
      simpa [Job.Sound] using hjob.2
    · cases h
      simpa [Job.Sound, After.Sound] using And.intro hjob.2.ended hjob.2
  | openSpool starting =>
    cases h
    cases starting with
    | false => simpa [Job.Sound] using hw.spool
    | true => simpa [Job.Sound] using And.intro hw.spool (spooled_written w)
  | drain entries =>
    cases entries with
    | nil =>
      cases h
      simp
    | cons entry entries =>
      obtain ⟨hentry, hrest⟩ := forall_mem_cons.mp hjob
      unfold perform at h
      dsimp only at h
      split at h
      · cases h
        simpa [Job.Sound, After.Sound] using
          And.intro hentry.ended (And.intro (And.intro hentry.ended hentry) hrest)
      · cases h
        simpa [Job.Sound] using hrest
  | list seen =>
    cases h
    simpa [Job.Sound] using And.intro (@list_listing w ok hw) hjob
  | endSessions alive known seen =>
    unfold perform at h
    dsimp only at h
    split at h
    · cases h
      rw [forall_mem_singleton]
      exact hjob
    · cases h
      simp
  | endRuns alive known seen =>
    unfold perform at h
    dsimp only at h
    split at h
    · cases h
      intro j hj
      obtain ⟨run, hrun, rfl⟩ := mem_map.mp hj
      exact hw.rows run (mem_of_mem_filter hrun)
    · cases h
      simp
  | _ =>
    dsimp only [perform] at h
    grind [Job.Sound]

end

section
variable {w w' : World} {ok : Bool} {job : Job} {jobs : List Job}

theorem World.Sound.run_pty (hw : w.Sound) (hp : p ∈ w.daemon.processes) {row : RunRow}
    (hrow : row ∈ w.store.runs) (hrun : p.run = some row.id) (hpty : row.ptySessionId = some pty) :
    pty = p.pty := by
  obtain ⟨q, hq, hqpty, hqrun⟩ := hw.rows row hrow pty hpty
  have hsome : q.run ≠ none := by
    rw [hqrun]
    simp
  obtain rfl := Daemon.unique hq hp (.inr ⟨hsome, hqrun.trans hrun.symm⟩)
  exact hqpty.symm

theorem Ended.code {ps : List Process} {facts : ExitFacts} (h : Ended ps pty facts) :
    facts.reason = .exited := by
  obtain ⟨-, -, -, exit, -, hcode, -⟩ := h
  simp [ExitFacts.reason, hcode]

theorem spawn_store {launch : Launch} (h : perform w ok (.spawn launch) = some (w', jobs)) :
    w'.store = w.store := by
  dsimp only [perform] at h
  split at h
  · obtain ⟨daemon, -, heq⟩ := map_eq_some_iff.mp h
    cases heq
    rfl
  · split at h <;> exact congrArg World.store (Prod.mk.inj (Option.some.inj h)).1.symm

theorem perform_spool (h : perform w ok job = some (w', jobs)) :
    w'.spool = w.spool ∨
      ∃ entry, job = .remove entry ∧ w'.spool = w.spool.filter (· ≠ entry) := by
  cases job with
  | remove entry =>
    cases h
    exact .inr ⟨entry, rfl, rfl⟩
  | _ =>
    left
    dsimp only [perform] at h
    grind [map_eq_some_iff]

theorem perform_rows_sound (h : perform w ok job = some (w', jobs)) (hw : w.Sound)
    (hjob : job.Sound w.daemon.processes) :
    ∀ row ∈ w'.store.runs, ∀ pty, row.ptySessionId = some pty →
      Labelled w.daemon.processes row.id pty := by
  have hdo := perform_runs h
  generalize w'.store.runs = rows at hdo
  cases hdo with
  | comes launch id hjob hid hnew =>
    intro row hrow pty hpty
    obtain hold | rfl := mem_snoc.mp hrow
    · exact hw.rows row hold pty hpty
    · cases hpty
  | moves f hmoves =>
    intro row hrow pty hpty
    obtain ⟨old, hold, rfl⟩ := mem_map.mp hrow
    have hmove := hmoves old hold
    generalize f old = new at hmove hpty
    cases hmove with
    | stays | exits _ _ _ _ _ _ _ | fails _ _ | cut _ _ _ _ _ => exact hw.rows old hold pty hpty
    | attaches _ pty' =>
      cases hpty
      exact hjob
    | adopts _ entry =>
      cases hpty
      exact hjob.1

theorem perform_sound (h : perform w ok job = some (w', jobs)) (hw : w.Sound)
    (hjob : job.Sound w.daemon.processes) : w'.Sound := by
  have hgrows := perform_grows h
  refine ⟨fun p hp => ?_, fun row hrow pty hpty =>
    (perform_rows_sound h hw hjob row hrow pty hpty).mono hgrows, fun entry hentry => ?_⟩
  · obtain heq | ⟨launch, -, -, hspawn⟩ := perform_daemon h
    · exact hw.processes p (heq ▸ hp)
    · unfold Daemon.spawn at hspawn
      dsimp only at hspawn
      split at hspawn
      · rw [← Option.some.inj hspawn] at hp
        obtain hold | rfl := mem_snoc.mp hp
        · exact hw.processes p hold
        · exact ⟨fun _ => rfl, fun _ => rfl, fun h => absurd rfl h, fun _ h => nomatch h⟩
      · cases hspawn
  · refine (hw.spool entry ?_).mono hgrows
    obtain heq | ⟨_, -, heq⟩ := perform_spool h
    · exact heq ▸ hentry
    · rw [heq] at hentry
      exact mem_of_mem_filter hentry

end

/-! ## Steps of the whole -/

theorem World.Sound.update (hw : w.Sound) {f : Process → Process}
    (hp : w.daemon.process pty = some p) (hages : Ages p (f p)) (hsound : (f p).Sound) :
    (w.update pty f).Sound := by
  have hgrows := Daemon.update_grows hp hages
  refine ⟨fun q hq => ?_, fun row hrow q hq => (hw.rows row hrow q hq).mono hgrows,
    fun entry hentry => (hw.spool entry hentry).mono hgrows⟩
  obtain ⟨q, hmem, rfl⟩ := mem_map.mp hq
  by_cases hpty : q.pty = pty
  · obtain rfl := Daemon.process_eq hp hmem hpty
    exact (Daemon.change_self hpty hages).symm ▸ hsound
  · rw [Daemon.change, if_neg hpty]
    exact hw.processes q hmem

theorem System.Sound.update {s : System} (hs : s.Sound) {f : Process → Process}
    (hp : s.world.daemon.process pty = some p) (hages : Ages p (f p)) (hsound : (f p).Sound) :
    System.Sound { s with world := s.world.update pty f } :=
  ⟨hs.world.update hp hages hsound, fun js hjs j hj =>
    (hs.jobs js hjs j hj).mono (Daemon.update_grows hp hages)⟩

theorem Process.sound_exited {p : Process} {exit : ExitInfo} (hlife : p.life = .exited exit)
    (hspooling : p.spooling ≠ .waiting)
    (hentry : ∀ entry, p.spooling = .written entry → entry.session = p.pty) : p.Sound :=
  ⟨fun hwaits => absurd hwaits.2 hspooling, fun hwaiting => absurd hwaiting hspooling,
    fun _ => ⟨exit, hlife⟩, hentry⟩

theorem does_cases {s s' : System} {k : Nat} {ok : Bool}
    (h : step s (.does k ok) = some s') :
    ∃ job rest w jobs, s.threads[k]? = some (job :: rest) ∧
      perform s.world ok job = some (w, jobs) ∧
      s' = ⟨w, s.threads.set k (jobs ++ rest)⟩ := by
  unfold step at h
  dsimp only at h
  split at h
  · rename_i job rest hk
    obtain ⟨⟨w, jobs⟩, hperform, rfl⟩ := map_eq_some_iff.mp h
    exact ⟨job, rest, w, jobs, hk, hperform, rfl⟩
  · cases h

def Begins (jobs : List Job) : Prop :=
  (∃ call : Call, jobs = call.jobs) ∨ ∃ pty exit, jobs = liveJobs pty exit

/-- What a step that makes no statement does. -/
structure Beside (s : System) (a : Act) (s' : System) : Prop where
  store : s'.world.store = s.world.store
  daemon : s'.world.daemon = s.world.daemon ∨
    ∃ pty f p, s.world.daemon.process pty = some p ∧ Ages p (f p) ∧
      s'.world.daemon = s.world.daemon.update pty f
  threads : s'.threads = s.threads ∨ (∃ k, a = .dies k ∧ s'.threads = s.threads.set k []) ∨
    ∃ jobs, Begins jobs ∧ s'.threads = s.threads ++ [jobs]

theorem Beside.grows {s s' : System} {a : Act} (h : Beside s a s') :
    Grows s.world.daemon.processes s'.world.daemon.processes := by
  obtain hsame | ⟨pty, f, p, hp, hages, hupdate⟩ := h.daemon
  · exact hsame ▸ .refl _
  · exact hupdate ▸ Daemon.update_grows hp hages

theorem step_beside {s s' : System} {a : Act} (h : step s a = some s')
    (ha : ∀ k ok, a ≠ .does k ok) : Beside s a s' := by
  cases a with
  | does k ok => exact absurd rfl (ha k ok)
  | calls call =>
    cases h
    exact ⟨rfl, .inl rfl, .inr (.inr ⟨_, .inl ⟨call, rfl⟩, rfl⟩)⟩
  | dies k =>
    cases h
    exact ⟨rfl, .inl rfl, .inr (.inl ⟨k, rfl, rfl⟩)⟩
  | clock now =>
    cases h
    exact ⟨rfl, .inl rfl, .inl rfl⟩
  | announces pty =>
    dsimp only [step] at h
    split at h
    · cases h
    rename_i p hp
    split at h
    · rename_i exit _
      split at h
      · cases h
      · cases h
        exact ⟨rfl, .inr ⟨pty, _, p, hp, ⟨rfl, rfl, rfl, .inr rfl, .inr rfl, fun _ => rfl⟩, rfl⟩,
          .inr (.inr ⟨_, .inr ⟨pty, exit, rfl⟩, rfl⟩)⟩
    · cases h
  | spools pty written labelled atMs =>
    dsimp only [step] at h
    split at h
    · cases h
    rename_i p hp
    split at h
    · rename_i exit hlife hwaiting
      cases h
      exact ⟨rfl, .inr ⟨pty, _, p, hp, ⟨rfl, rfl, rfl, .inr rfl, .inl hwaiting, id⟩, rfl⟩,
        .inl rfl⟩
    · cases h
  | drops pty =>
    dsimp only [step] at h
    split at h
    · cases h
    rename_i p hp
    split at h
    · cases h
    · cases h
      exact ⟨rfl, .inr ⟨pty, _, p, hp, ⟨rfl, rfl, rfl, .inr rfl, .inr rfl, id⟩, rfl⟩, .inl rfl⟩
    · cases h
  | exits pty exit | loses pty =>
    dsimp only [step] at h
    split at h
    · cases h
    rename_i p hp
    split at h
    · rename_i hrunning
      cases h
      exact ⟨rfl, .inr ⟨pty, _, p, hp, ⟨rfl, rfl, rfl, .inl hrunning, .inr rfl, id⟩, rfl⟩,
        .inl rfl⟩
    · cases h

theorem does_count {threads : List (List Job)} {k : Nat} {rest : List Job}
    (hk : threads[k]? = some (job :: rest)) (jobs : List Job) (p : Job → Bool) :
    (threads.set k (jobs ++ rest)).flatten.countP p + (p job).toNat =
      threads.flatten.countP p + jobs.countP p := by
  have hcount := @countP_flatten_set _ k _ _ (jobs ++ rest) hk p
  rw [countP_append, countP_cons] at hcount
  cases hp : p job <;> simp only [hp, Bool.toNat_true, Bool.toNat_false, if_true] at hcount ⊢
  · simp only [Bool.false_eq_true, if_false] at hcount
    omega
  · omega

theorem dies_count (threads : List (List Job)) (k : Nat) (p : Job → Bool) :
    (threads.set k []).flatten.countP p ≤ threads.flatten.countP p := by
  cases hk : threads[k]? with
  | none =>
    apply Nat.le_of_eq
    rw [List.set_eq_of_length_le (List.getElem?_eq_none_iff.mp hk)]
  | some jobs =>
    have hcount := @countP_flatten_set _ k _ _ [] hk p
    rw [List.countP_nil] at hcount
    omega

theorem begins_count {jobs : List Job} (threads : List (List Job)) {p : Job → Bool}
    (hp : ∀ j ∈ jobs, p j = false) :
    (threads ++ [jobs]).flatten.countP p = threads.flatten.countP p := by
  have hnone : jobs.countP p = 0 := by
    rw [countP_eq_zero]
    intro j hj
    simp [hp j hj]
  simp only [flatten_append, flatten_cons, List.flatten_nil, append_nil,
    countP_append, hnone, Nat.add_zero]

theorem World.Sound.spools (hw : w.Sound) {exit : ExitInfo} (hp : w.daemon.process pty = some p)
    (hlife : p.life = .exited exit) (hwaiting : p.spooling = .waiting) (labelled : Bool)
    (atMs : Nat) :
    let entry : SpoolEntry := ⟨pty, if labelled then p.run else none, exit, atMs⟩
    let w' := w.update pty fun p => { p with spooling := .written entry }
    World.Sound { w' with spool := w'.spool ++ [entry] } := by
  intro entry w'
  have hpty := (Daemon.process_mem hp).2
  have hages : Ages p { p with spooling := .written entry } :=
    ⟨rfl, rfl, rfl, .inr rfl, .inl hwaiting, id⟩
  have hw' : w'.Sound := by
    refine hw.update hp hages (Process.sound_exited hlife (fun h => nomatch h) fun e he => ?_)
    cases he
    exact hpty.symm
  refine ⟨hw'.processes, hw'.rows, fun entry hentry => ?_⟩
  obtain hold | rfl := mem_snoc.mp hentry
  · exact hw'.spool entry hold
  · have hmem : Daemon.change pty (fun p => { p with spooling := .written entry }) p ∈
        w'.daemon.processes := mem_map_of_mem (Daemon.process_mem hp).1
    rw [Daemon.change_self hpty hages] at hmem
    refine ⟨_, hmem, hpty, hlife, rfl, ?_⟩
    cases labelled with
    | true => exact .inr rfl
    | false => exact .inl rfl

theorem step_sound {s s' : System} {a : Act} (h : step s a = some s') (hs : s.Sound) :
    s'.Sound := by
  cases a with
  | calls call =>
    cases h
    refine ⟨hs.world, fun js hjs => ?_⟩
    obtain hold | rfl := mem_snoc.mp hjs
    · exact hs.jobs js hold
    · cases call <;> simp [Call.jobs, Job.Sound]
  | does k ok =>
    obtain ⟨job, rest, w, jobs, hk, hperform, rfl⟩ := does_cases h
    have hthread := hs.jobs _ (mem_of_getElem? hk)
    have hjob := hthread job mem_cons_self
    have hgrows := perform_grows hperform
    refine ⟨perform_sound hperform hs.world hjob, fun js hjs j hj => ?_⟩
    obtain hold | rfl := mem_or_eq_of_mem_set hjs
    · exact (hs.jobs js hold j hj).mono hgrows
    · obtain hnew | hrest := mem_append.mp hj
      · exact perform_jobs_sound hperform hs.world hjob j hnew
      · exact (hthread j (mem_cons_of_mem _ hrest)).mono hgrows
  | dies k =>
    cases h
    refine ⟨hs.world, fun js hjs => ?_⟩
    obtain hold | rfl := mem_or_eq_of_mem_set hjs
    · exact hs.jobs js hold
    · simp
  | exits pty exit =>
    unfold step at h
    dsimp only at h
    split at h
    · cases h
    rename_i p hp
    split at h
    · rename_i hrunning
      cases h
      have hsound := hs.world.processes p (Daemon.process_mem hp).1
      exact hs.update hp ⟨rfl, rfl, rfl, .inl hrunning, .inr rfl, id⟩
        ⟨fun _ => hsound.listed (hsound.waits hrunning), hsound.waiting, fun _ => ⟨exit, rfl⟩,
          hsound.entry⟩
    · cases h
  | spools pty written labelled atMs =>
    unfold step at h
    dsimp only at h
    split at h
    · cases h
    rename_i p hp
    split at h
    · rename_i exit hlife hwaiting
      cases h
      have hupdate : ∀ spooling, spooling ≠ .waiting →
          (∀ entry, spooling = .written entry → entry.session = pty) →
          System.Sound { s with world := s.world.update pty fun p => { p with spooling } } :=
        fun spooling hspooling hentry =>
          hs.update hp ⟨rfl, rfl, rfl, .inr rfl, .inl hwaiting, id⟩
            (@Process.sound_exited { p with spooling } exit hlife hspooling fun entry he =>
              (hentry entry he).trans (Daemon.process_mem hp).2.symm)
      cases written with
      | true =>
        refine ⟨hs.world.spools hp hlife hwaiting labelled atMs,
          (hupdate (.written _) (fun h => nomatch h) fun entry he => ?_).jobs⟩
        cases he
        rfl
      | false => exact hupdate .refused (fun h => nomatch h) (fun _ h => nomatch h)
    · cases h
  | announces pty =>
    unfold step at h
    dsimp only at h
    split at h
    · cases h
    rename_i p hp
    split at h
    · rename_i exit hlife
      split at h
      · cases h
      rename_i hspooling
      cases h
      have hages : Ages p { p with told := true } :=
        ⟨rfl, rfl, rfl, .inr rfl, .inr rfl, fun _ => rfl⟩
      have hs' : System.Sound
          { s with world := s.world.update pty fun p => { p with told := true } } :=
        hs.update hp hages (Process.sound_exited hlife hspooling
          (hs.world.processes p (Daemon.process_mem hp).1).entry)
      refine ⟨hs'.world, fun js hjs j hj => ?_⟩
      obtain hold | rfl := mem_snoc.mp hjs
      · exact hs'.jobs js hold j hj
      · have hended : Ended s.world.daemon.processes pty (.ofExit exit) :=
          ⟨p, (Daemon.process_mem hp).1, (Daemon.process_mem hp).2, exit, hlife,
            ofExit_tells exit⟩
        have hlive : ∀ j ∈ liveJobs pty exit, j.Sound s.world.daemon.processes := by
          simpa [liveJobs, Job.Sound, After.Sound] using hended
        exact (hlive j hj).mono (Daemon.update_grows hp hages)
    · cases h
  | loses pty =>
    unfold step at h
    dsimp only at h
    split at h
    · cases h
    rename_i p hp
    split at h
    · rename_i hrunning
      cases h
      have hsound := hs.world.processes p (Daemon.process_mem hp).1
      exact hs.update hp ⟨rfl, rfl, rfl, .inl hrunning, .inr rfl, id⟩
        ⟨fun hwaits => absurd rfl hwaits.1, hsound.waiting,
          fun h => absurd (hsound.waits hrunning).2 h, hsound.entry⟩
    · cases h
  | drops pty =>
    unfold step at h
    dsimp only at h
    split at h
    · cases h
    rename_i p hp
    split at h
    · cases h
    · rename_i exit hlife hspooling
      cases h
      have hsound : Process.Sound { p with listed := false } :=
        Process.sound_exited hlife hspooling
          (hs.world.processes p (Daemon.process_mem hp).1).entry
      exact hs.update hp ⟨rfl, rfl, rfl, .inr rfl, .inr rfl, id⟩ hsound
    · cases h
  | clock now =>
    cases h
    exact ⟨⟨hs.world.processes, hs.world.rows, hs.world.spool⟩, hs.jobs⟩

theorem empty_sound : System.empty.Sound :=
  ⟨⟨fun _ hp => (not_mem_nil hp).elim, fun _ hrow => (not_mem_nil hrow).elim,
    fun _ hentry => (not_mem_nil hentry).elim⟩, fun _ hjobs => (not_mem_nil hjobs).elim⟩

theorem reached_sound {s : System} {as : List Act} (h : Lib.run step .empty as = some s) :
    s.Sound := by
  have hstep : ∀ s₁ a s₂, System.Sound s₁ → step s₁ a = some s₂ → System.Sound s₂ :=
    fun _ _ _ hs hstep => step_sound hstep hs
  exact run_invariant hstep h empty_sound

end Yardsort.Activity
