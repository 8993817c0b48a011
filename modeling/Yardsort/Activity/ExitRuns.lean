import Yardsort.Activity.Exits

/- Every run of the clients and the daemon that stays clear of the moments where an exit goes
   astray (`Careful`) records each exit once, with its code (`exits_settle`). The moments are those
   at which the thread that ends a run does not get to write its event, at which a client that holds
   the last word of an exit is gone, at which an entry would be removed though its run is open, and
   at which a start cuts a run that a process is behind. -/
namespace Yardsort.Activity
open Yardsort.Lib

def OpenRun (w : World) (pty : String) (row : RunRow) : Prop :=
  row ∈ w.store.runs ∧ row.isOpen = true ∧
    ∃ p ∈ w.daemon.processes, p.pty = pty ∧ p.run = some row.id

def Settled (w : World) (pty : String) : Prop := ∀ row, ¬ OpenRun w pty row

def Unspooled (w : World) (pty : String) : Prop :=
  ∀ p ∈ w.daemon.processes, p.pty = pty → p.spooling.isWritten = false

def Process.gone (p : Process) : Prop :=
  p.life = .lost ∨ (p.spooling = .refused ∧ p.told = false)

def Job.Careful (w : World) (ok : Bool) : Job → Prop
  -- The event of a run that was ended is written.
  | writeExit _ _ _ _ => ok = true
  -- An exit that is not in the spool finds its run, and so does one of a run just adopted.
  | endRun pty _ via after => ∀ row, OpenRun w pty row →
      (∀ entry, after = .removes entry → ok = true) ∧
        (via = .live → Unspooled w pty → ok = true ∧ row.ptySessionId = some pty)
  -- The run was not attached since it was not found.
  | lookup pty after => ∀ row, OpenRun w pty row →
      match after with
      | .nothing => True
      | .adopts _ => ok = true → row.ptySessionId = none
      | .removes _ => False
  | adopt entry => ∀ row, OpenRun w entry.session row →
      ok = true ∧ row.ptySessionId = none ∧ entry.run = some row.id
  | adoptSpawned _ entry => ∀ row, OpenRun w entry.session row → ok = true
  -- A run that counted as gone is not spawned after all.
  | spawn launch => ok = true → ∀ row ∈ w.store.runs, launch.run = some row.id → row.isOpen = true
  -- What is cut has no process, or one that is gone.
  | endRuns alive known seen => ok = true → ∀ row ∈ w.store.runs,
      row.interrupted alive PENDING_GRACE_MS w.now = true →
        ∀ p ∈ w.daemon.processes, p.run = some row.id → p.gone ∨
          ∃ pty, row.ptySessionId = some pty ∧ pty ∈ known ∧
            (p.waits ∨ (p.spooling.isWritten = true ∧ pty ∈ seen))
  | _ => True

def Job.MayGo (w : World) : Job → Prop
  | writeExit _ _ _ _ => False
  | endRun pty _ via _ => via = .live → Unspooled w pty → Settled w pty
  | _ => True

/-- The step stays clear of the moments where an exit goes astray. -/
def Careful (s : System) : Act → Prop
  | .does thread ok =>
    match s.threads[thread]? with
    | some (job :: _) => job.Careful s.world ok
    | _ => True
  | .dies thread => ∀ jobs, s.threads[thread]? = some jobs → ∀ job ∈ jobs, job.MayGo s.world
  | .announces pty => ∀ p, s.world.daemon.process pty = some p → p.spooling = .refused →
      p.told = false → ∀ row ∈ s.world.store.runs, p.run = some row.id →
        row.endReason ≠ some .interrupted
  | _ => True

section
variable {w w' : World} {ok : Bool} {job : Job} {jobs : List Job}

structure RunRow.EndsAs (old new : RunRow) : Prop where
  id : new.id = old.id
  isOpen : new.isOpen = false
  endedAt : new.endedAt = old.endedAt
  exitCode : new.exitCode = old.exitCode
  endReason : new.endReason = old.endReason

theorem Moves.ended {old new : RunRow} (h : Moves w ok job old new) (hold : old.isOpen = false) :
    old.EndsAs new := by
  cases h with
  | stays | attaches _ _ | adopts _ _ => exact ⟨rfl, hold, rfl, rfl, rfl⟩
  | exits _ _ _ _ _ hopen _ | fails _ hopen => exact absurd (hold.symm.trans hopen) (by simp)
  | cut _ alive _ _ _ hcut => simp [RunRow.interrupted, hold] at hcut

theorem RunsDo.ended {rows : List RunRow} (h : RunsDo w ok job rows) {old : RunRow}
    (hmem : old ∈ w.store.runs) (hold : old.isOpen = false) :
    ∃ new ∈ rows, old.EndsAs new := by
  cases h with
  | moves f hmoves => exact ⟨f old, mem_map_of_mem hmem, (hmoves old hmem).ended hold⟩
  | comes _ _ _ _ _ => exact ⟨old, mem_append_left _ hmem, rfl, hold, rfl, rfl, rfl⟩

theorem RunsDo.opened {rows : List RunRow} (h : RunsDo w ok job rows) {new : RunRow}
    (hmem : new ∈ rows) (hopen : new.isOpen = true) :
    (∃ old ∈ w.store.runs, old.id = new.id ∧ old.isOpen = true) ∨ w.rows new.id = 0 := by
  cases h with
  | moves f hmoves =>
    obtain ⟨old, hold, rfl⟩ := mem_map.mp hmem
    refine .inl ⟨old, hold, (hmoves old hold).id.symm, ?_⟩
    by_contra hclosed
    rw [Bool.not_eq_true] at hclosed
    exact absurd (((hmoves old hold).ended hclosed).isOpen.symm.trans hopen) (by simp)
  | comes launch id _ _ hfresh =>
    obtain hold | rfl := mem_snoc.mp hmem
    · exact .inl ⟨new, hold, rfl, hopen⟩
    · right
      rw [World.rows, countP_eq_zero]
      intro row hrow hid
      exact hfresh (mem_map.mpr ⟨row, hrow, by simpa using hid⟩)

end

variable {pty : String}

theorem Settled.mono {w w' : World} (hgrows : Grows w.daemon.processes w'.daemon.processes)
    (hopened : ∀ new ∈ w'.store.runs, new.isOpen = true →
        (∃ old ∈ w.store.runs, old.id = new.id ∧ old.isOpen = true) ∨ w.rows new.id = 0)
    (hrows : ∀ p ∈ w.daemon.processes, ∀ run, p.run = some run → w.rows run = 1)
    (hspawned : ∃ p ∈ w.daemon.processes, p.pty = pty) (h : Settled w pty) :
    Settled w' pty := by
  rintro new ⟨hnew, hopen, p', hp', hpty, hrun⟩
  obtain ⟨p, hp, hages⟩ | hfresh := hgrows.came p' hp'
  · rw [hages.pty] at hpty
    rw [hages.run] at hrun
    obtain ⟨old, hold, hid, hwas⟩ | hnone := hopened new hnew hopen
    · exact h old ⟨hold, hwas, p, hp, hpty, hid ▸ hrun⟩
    · rw [hrows p hp new.id hrun] at hnone
      cases hnone
  · obtain ⟨q, hq, hqpty⟩ := hspawned
    exact (hfresh.apart q hq).1 (hqpty.trans hpty.symm)

/-! ## An entry is dealt with before it is removed -/

def Job.handles (pty : String) : Job → Prop
  | drain entries => ∃ entry ∈ entries, entry.session = pty
  | endRun pty' _ _ after => pty' = pty ∧ after ≠ .nothing
  | lookup pty' after => pty' = pty ∧ after ≠ .nothing
  | adopt entry => entry.session = pty
  | adoptSpawned _ entry => entry.session = pty
  | _ => False

section
variable {w w' : World} {ok : Bool} {job : Job} {jobs : List Job}

theorem World.Sound.open_pty (hw : w.Sound) {row found : RunRow} (hrow : OpenRun w pty row)
    (hfound : found ∈ w.store.runs) (hpty : found.ptySessionId = some pty) : found = row := by
  obtain ⟨hmem, -, p, hp, hppty, hrun⟩ := hrow
  obtain ⟨q, hq, hqpty, hqrun⟩ := hw.rows found hfound pty hpty
  obtain rfl := Daemon.unique hq hp (.inl (hqpty.trans hppty.symm))
  exact w.store.run_unique hfound hmem (Option.some.inj (hqrun.symm.trans hrun))

theorem endRunByPty_settles (hw : w.Sound) {code : Option Int} {reason : EndReason} {at' : Int}
    {found : RunRow} {store : Store}
    (h : w.store.endRunByPty pty code reason at' = (some found, store)) :
    Settled { w with store } pty := by
  obtain ⟨hfound, hpty, hopen⟩ := Store.endRunByPty_mem h
  rintro row ⟨hrow, hrow_open, hprocess⟩
  unfold Store.endRunByPty at h
  split at h
  · cases h
  obtain ⟨hsome, rfl⟩ := Prod.mk.inj h
  rw [Option.some.inj hsome] at hrow
  obtain ⟨old, hold, rfl⟩ := mem_map.mp hrow
  unfold Store.endById at hrow_open hprocess
  split at hrow_open
  · cases hrow_open
  · rename_i hid
    rw [if_neg hid] at hprocess
    exact hid (congrArg RunRow.id (hw.open_pty ⟨hold, hrow_open, hprocess⟩ hfound hpty)).symm

theorem endRunByPty_none {code : Option Int} {reason : EndReason} {at' : Int} {store : Store}
    (h : w.store.endRunByPty pty code reason at' = (none, store)) :
    ∀ row ∈ w.store.runs, row.ptySessionId = some pty → row.isOpen = false := by
  intro row hrow hpty
  unfold Store.endRunByPty at h
  split at h
  · rename_i hfind
    have hnot := List.find?_eq_none.mp hfind row hrow
    simpa [hpty] using hnot
  · cases h

theorem runSpawned_some (hw : w.Sound) {run : String}
    (hlabel : Labelled w.daemon.processes run pty) :
    ∃ store, w.store.runSpawned run pty = some store := by
  unfold Store.runSpawned
  split
  · rename_i hany
    obtain ⟨row, hrow, htaken⟩ := List.any_eq_true.mp hany
    simp only [Bool.and_eq_true, decide_eq_true_eq] at htaken
    obtain ⟨q, hq, hqpty, hqrun⟩ := hw.rows row hrow pty htaken.1
    obtain ⟨p, hp, hppty, hprun⟩ := hlabel
    obtain rfl := Daemon.unique hq hp (.inl (hqpty.trans hppty.symm))
    exact absurd (Option.some.inj (hqrun.symm.trans hprun)) htaken.2
  · exact ⟨_, rfl⟩

/-- What a statement on the way puts first: the next on the way, or the removal of what is
    settled. -/
structure Passes (w' : World) (pty : String) (jobs : List Job) : Prop where
  on : Settled w' pty ∨ ∃ j ∈ jobs, j.handles pty
  removes : ∀ entry, .remove entry ∈ jobs → Settled w' entry.session

theorem Passes.on_way {j : Job} (h : j.handles pty) (hremove : ∀ entry, j ≠ .remove entry) :
    Passes w pty [j] := by
  refine ⟨.inr ⟨j, mem_singleton_self j, h⟩, fun entry hentry => ?_⟩
  exact absurd (mem_singleton.mp hentry).symm (hremove entry)

theorem Passes.done {entry : SpoolEntry} (h : Settled w entry.session) :
    Passes w entry.session [.remove entry] := by
  refine ⟨.inl h, fun entry' hentry' => ?_⟩
  cases mem_singleton.mp hentry'
  exact h

theorem endRun_passes {facts : ExitFacts} {via : Via} {after : After}
    (h : perform w ok (.endRun pty facts via after) = some (w', jobs)) (hw : w.Sound)
    (hjob : after.Sound w.daemon.processes pty) (hafter : after ≠ .nothing)
    (hcareful : (Job.endRun pty facts via after).Careful w ok) : Passes w' pty jobs := by
  dsimp only [perform] at h
  split at h
  · split at h
    · cases h
      exact .on_way ⟨rfl, hafter⟩ fun _ heq => nomatch heq
    · rename_i found store hend
      cases h
      have hsettled := endRunByPty_settles hw hend
      refine ⟨.inl hsettled, fun entry hentry => ?_⟩
      cases after with
      | nothing => exact absurd rfl hafter
      | adopts e | removes e =>
        obtain heq | hmem := mem_cons.mp hentry
        · cases heq
        · cases mem_singleton.mp hmem
          exact hjob.1 ▸ hsettled
  · rename_i hok
    cases h
    cases after with
    | nothing => exact absurd rfl hafter
    | adopts e =>
      obtain ⟨rfl, -⟩ := hjob
      exact .on_way rfl fun _ heq => nomatch heq
    | removes e =>
      obtain ⟨rfl, -⟩ := hjob
      exact .done fun row hrow => hok ((hcareful row hrow).1 e rfl)

theorem lookup_passes {after : After} (h : perform w ok (.lookup pty after) = some (w', jobs))
    (hw : w.Sound) (hjob : after.Sound w.daemon.processes pty) (hafter : after ≠ .nothing)
    (hcareful : (Job.lookup pty after).Careful w ok) : Passes w' pty jobs := by
  dsimp only [perform] at h
  split at h
  · cases h
    cases after with
    | nothing => exact absurd rfl hafter
    | adopts e =>
      obtain ⟨rfl, -⟩ := hjob
      exact .on_way rfl fun _ heq => nomatch heq
    | removes e =>
      obtain ⟨rfl, -⟩ := hjob
      exact .done fun row hrow => hcareful row hrow
  · rename_i found hfound
    cases h
    cases after with
    | nothing => exact absurd rfl hafter
    | adopts e =>
      obtain ⟨rfl, -⟩ := hjob
      split at hfound
      · rename_i hok
        refine .done fun row hrow => ?_
        have hpty : found.ptySessionId = some e.session := by simpa using List.find?_some hfound
        obtain rfl := hw.open_pty hrow (mem_of_find?_eq_some hfound) hpty
        rw [hcareful found hrow hok] at hpty
        cases hpty
      · cases hfound
    | removes e =>
      obtain ⟨rfl, -⟩ := hjob
      exact .done fun row hrow => hcareful row hrow

theorem adopt_passes {entry : SpoolEntry} (h : perform w ok (.adopt entry) = some (w', jobs))
    (hcareful : (Job.adopt entry).Careful w ok) : Passes w' entry.session jobs := by
  dsimp only [perform] at h
  split at h
  · rename_i hnone
    cases h
    refine .done fun row hrow => ?_
    obtain ⟨rfl, -, hrun⟩ := hcareful row hrow
    rw [if_pos rfl, hrun, bind_some] at hnone
    have hnot := List.find?_eq_none.mp hnone row hrow.1
    simp at hnot
  · rename_i found hfound
    cases h
    split
    · exact .on_way rfl fun _ heq => nomatch heq
    rename_i hnot
    refine .done fun row hrow => ?_
    obtain ⟨rfl, hpty, hrun⟩ := hcareful row hrow
    rw [if_pos rfl, hrun, bind_some] at hfound
    have hid : found.id = row.id := by simpa using List.find?_some hfound
    obtain rfl := w.store.run_unique (mem_of_find?_eq_some hfound) hrow.1 hid
    exact hnot ⟨hpty, hrow.2.1⟩

theorem adoptSpawned_passes {run : String} {entry : SpoolEntry}
    (h : perform w ok (.adoptSpawned run entry) = some (w', jobs)) (hw : w.Sound)
    (hjob : Labelled w.daemon.processes run entry.session)
    (hcareful : (Job.adoptSpawned run entry).Careful w ok) : Passes w' entry.session jobs := by
  dsimp only [perform] at h
  split at h
  · rename_i hnone
    cases h
    refine .done fun row hrow => ?_
    obtain ⟨store, hstore⟩ := runSpawned_some hw hjob
    rw [if_pos (hcareful row hrow), hstore] at hnone
    cases hnone
  · cases h
    exact .on_way ⟨rfl, fun heq => nomatch heq⟩ fun _ heq => nomatch heq

end

def Process.EndsRight (p : Process) (row : RunRow) : Prop :=
  (∃ exit, p.life = .exited exit ∧ row.endReason = some .exited ∧
    row.exitCode = some (exit.code : Int)) ∨
  (p.gone ∧ row.endReason = some .interrupted)

def Job.tells (pty : String) : Job → Prop
  | endRun pty' _ .live _ => pty' = pty
  | _ => False

def Job.seen : Job → List String
  | list seen => seen
  | endSessions _ _ seen => seen
  | endRuns _ _ seen => seen
  | _ => []

def Job.isLast : Job → Bool
  | openSpool starting => starting
  | list _ => true
  | endSessions _ _ _ => true
  | endRuns _ _ _ => true
  | _ => false

structure Process.Kept (s : System) (p : Process) : Prop where
  ends : ∀ row ∈ s.world.store.runs, p.run = some row.id → row.isOpen = false → p.EndsRight row
  spool : ∀ entry, p.spooling = .written entry → Settled s.world p.pty ∨ entry ∈ s.world.spool
  told : p.spooling = .refused → p.told = true →
    Settled s.world p.pty ∨ ∃ jobs ∈ s.threads, ∃ job ∈ jobs, job.tells p.pty

structure ThreadKept (w : World) (jobs : List Job) : Prop where
  removes : ∀ entry, .remove entry ∈ jobs → Settled w entry.session
  seen : ∀ job ∈ jobs, ∀ pty ∈ job.seen, Settled w pty ∨ ∃ j ∈ jobs, j.handles pty
  last : ∀ job ∈ jobs.dropLast, job.isLast = false

structure System.Kept (s : System) : Prop where
  processes : ∀ p ∈ s.world.daemon.processes, p.Kept s
  threads : ∀ jobs ∈ s.threads, ThreadKept s.world jobs

section
variable {s s' : System}

theorem System.Launched.settled (hs : s.Launched) {w : World}
    (hgrows : Grows s.world.daemon.processes w.daemon.processes)
    (hopened : ∀ new ∈ w.store.runs, new.isOpen = true →
        (∃ old ∈ s.world.store.runs, old.id = new.id ∧ old.isOpen = true) ∨
        s.world.rows new.id = 0) (hspawned : ∃ p ∈ s.world.daemon.processes, p.pty = pty)
    (h : Settled s.world pty) : Settled w pty :=
  h.mono hgrows hopened (fun _ hp _ hrun => (hs.process hp hrun).1) hspawned

theorem Written.spawned {ps : List Process} (h : Written ps pty) :
    ∃ p ∈ ps, p.pty = pty := by
  obtain ⟨p, hp, hpty, -⟩ := h
  exact ⟨p, hp, hpty⟩

theorem SpoolEntry.Sound.spawned {ps : List Process} {entry : SpoolEntry} (h : entry.Sound ps) :
    ∃ p ∈ ps, p.pty = entry.session := by
  obtain ⟨p, hp, hpty, -⟩ := h
  exact ⟨p, hp, hpty⟩

theorem Job.Sound.seen {ps : List Process} {job : Job} (h : job.Sound ps) :
    ∀ pty ∈ job.seen, Written ps pty := by
  cases job with
  | list seen => exact h
  | endSessions _ _ _ => exact h.2
  | endRuns _ _ _ => exact h.2
  | _ => exact fun _ hpty => (not_mem_nil hpty).elim

theorem ThreadKept.alone {w : World} {job : Job} {rest : List Job}
    (h : ThreadKept w (job :: rest)) (hlast : job.isLast = true) : rest = [] := by
  cases rest with
  | nil => rfl
  | cons next rest =>
    have hnot := h.last job (by simp)
    rw [hlast] at hnot
    cases hnot

theorem ThreadKept.settled {w : World} {job : Job} {rest : List Job}
    (h : ThreadKept w (job :: rest)) (hlast : job.isLast = true)
    (hhandles : ∀ pty, ¬ job.handles pty) : ∀ pty ∈ job.seen, Settled w pty := by
  intro pty hpty
  obtain rfl := h.alone hlast
  obtain hsettled | ⟨j, hj, hon⟩ := h.seen job mem_cons_self pty hpty
  · exact hsettled
  · obtain rfl := mem_singleton.mp hj
    exact absurd hon (hhandles pty)

end

/-! ## A statement keeps it -/

section
variable {s : System} {k : Nat} {ok : Bool} {job : Job} {rest jobs : List Job} {w : World}
  (hs : s.Sound) (hlaunched : s.Launched) (hkept : s.Kept)
  (hk : s.threads[k]? = some (job :: rest)) (hperform : perform s.world ok job = some (w, jobs))
  (hcareful : job.Careful s.world ok)
include hs hlaunched hperform

omit hs in
theorem does_settled (hspawned : ∃ p ∈ s.world.daemon.processes, p.pty = pty)
    (h : Settled s.world pty) : Settled w pty :=
  hlaunched.settled (perform_grows hperform)
    (fun _ hnew hopen => (perform_runs hperform).opened hnew hopen) hspawned h

include hk hkept

theorem does_ends (hcareful : job.Careful s.world ok) {p : Process}
    (hp : p ∈ w.daemon.processes) {row : RunRow} (hrow : row ∈ w.store.runs)
    (hrun : p.run = some row.id) (hended : row.isOpen = false) : p.EndsRight row := by
  have hmem := mem_of_getElem? hk
  have hjob := hs.jobs _ hmem job mem_cons_self
  obtain hold | ⟨hfresh, launch, rfl, rfl, hlaunch⟩ := perform_processes hperform hp
  · have hdo := perform_runs hperform
    have hkeptEnds := (hkept.processes p hold).ends
    generalize w.store.runs = rows at hdo hrow
    cases hdo with
    | comes launch id _ _ _ =>
      obtain hwas | rfl := mem_snoc.mp hrow
      · exact hkeptEnds row hwas hrun hended
      · cases hended
    | moves f hmoves =>
      obtain ⟨old, hwas, rfl⟩ := mem_map.mp hrow
      have hmove := hmoves old hwas
      rw [hmove.id] at hrun
      generalize f old = new at hmove hended
      cases hmove with
      | stays | attaches _ _ | adopts _ _ => exact hkeptEnds old hwas hrun hended
      | exits _ pty facts _ _ _ hpty =>
        obtain ⟨q, hq, hqpty, exit, hlife, htells⟩ := hjob.1
        have hppty := hs.world.run_pty hold hwas hrun hpty
        obtain rfl := Daemon.unique hq hold (.inl (hqpty.trans hppty))
        exact .inl ⟨exit, hlife, congrArg some hjob.1.code, htells.1⟩
      | fails _ _ =>
        have hnot := (hlaunched.process hold hrun).2 _ hmem _ mem_cons_self
        simp [Job.holds] at hnot
      | cut _ alive known seen hok hcut =>
        right
        refine ⟨?_, rfl⟩
        obtain hgone | ⟨pty, hpty, hknown, hwaits | ⟨-, hseen⟩⟩ :=
          hcareful hok old hwas hcut p hold hrun
        · exact hgone
        · obtain rfl := hs.world.run_pty hold hwas hrun hpty
          have halive := hjob.1.live p hold hknown hwaits
          simp [RunRow.interrupted, hpty, halive] at hcut
        · have hsettled := (hkept.threads _ hmem).settled rfl (fun _ h => h) pty hseen
          have hopen : old.isOpen = true := by
            unfold RunRow.interrupted at hcut
            simp only [Bool.and_eq_true] at hcut
            exact hcut.1
          obtain rfl := hs.world.run_pty hold hwas hrun hpty
          exact absurd ⟨hwas, hopen, p, hold, rfl, hrun⟩ (hsettled old)
  · have hsame : row ∈ s.world.store.runs := spawn_store hperform ▸ hrow
    rw [hcareful rfl row hsame (hlaunch.symm.trans hrun)] at hended
    cases hended

theorem does_spool {p : Process} (hp : p ∈ w.daemon.processes) {entry : SpoolEntry}
    (hentry : p.spooling = .written entry) : Settled w p.pty ∨ entry ∈ w.spool := by
  have hmem := mem_of_getElem? hk
  obtain hold | ⟨hfresh, -⟩ := perform_processes hperform hp
  · have hspawned : ∃ q ∈ s.world.daemon.processes, q.pty = p.pty := ⟨p, hold, rfl⟩
    obtain hsettled | hin := (hkept.processes p hold).spool entry hentry
    · exact .inl (does_settled hlaunched hperform hspawned hsettled)
    · obtain hsame | ⟨removed, rfl, hspool⟩ := perform_spool hperform
      · exact .inr (hsame ▸ hin)
      · by_cases heq : entry = removed
        · subst heq
          have hsession := (hs.world.processes p hold).entry entry hentry
          have hsettled := (hkept.threads _ hmem).removes entry mem_cons_self
          rw [hsession] at hsettled
          exact .inl (does_settled hlaunched hperform hspawned hsettled)
        · right
          rw [hspool]
          exact mem_filter.mpr ⟨hin, by simpa using heq⟩
  · rw [hfresh.spooling] at hentry
    cases hentry

omit hkept in
theorem does_tells (hcareful : job.Careful s.world ok) {p : Process}
    (hp : p ∈ s.world.daemon.processes) (hrefused : p.spooling = .refused)
    (htells : job.tells p.pty) : Settled w p.pty := by
  have hspawned : ∃ q ∈ s.world.daemon.processes, q.pty = p.pty := ⟨p, hp, rfl⟩
  by_cases hsettled : Settled s.world p.pty
  · exact does_settled hlaunched hperform hspawned hsettled
  · unfold Settled at hsettled
    push Not at hsettled
    obtain ⟨row, hrow⟩ := hsettled
    cases job with
    | endRun pty facts via after =>
      cases via with
      | live =>
        obtain rfl : pty = p.pty := htells
        have hunspooled : Unspooled s.world p.pty := by
          intro q hq hqpty
          obtain rfl := Daemon.unique hq hp (.inl hqpty)
          rw [hrefused]
          rfl
        obtain ⟨rfl, hpty⟩ := (hcareful row hrow).2 rfl hunspooled
        dsimp only [perform] at hperform
        rw [if_pos rfl] at hperform
        split at hperform
        · rename_i hend
          have hclosed := endRunByPty_none hend row hrow.1 hpty
          exact absurd (hclosed.symm.trans hrow.2.1) (by simp)
        · rename_i hend
          cases hperform
          exact endRunByPty_settles hs.world hend
      | _ => exact htells.elim
    | _ => exact htells.elim

theorem does_told (hcareful : job.Careful s.world ok) {p : Process}
    (hp : p ∈ w.daemon.processes) (hrefused : p.spooling = .refused) (htold : p.told = true) :
    Settled w p.pty ∨ ∃ js ∈ s.threads.set k (jobs ++ rest), ∃ j ∈ js, j.tells p.pty := by
  obtain hold | ⟨hfresh, -⟩ := perform_processes hperform hp
  · have hspawned : ∃ q ∈ s.world.daemon.processes, q.pty = p.pty := ⟨p, hold, rfl⟩
    obtain hsettled | ⟨js, hjs, j, hj, htells⟩ := (hkept.processes p hold).told hrefused htold
    · exact .inl (does_settled hlaunched hperform hspawned hsettled)
    · obtain rfl | hother := @mem_set_or _ _ _ _ (jobs ++ rest) _ hk hjs
      · obtain rfl | hrest := mem_cons.mp hj
        · exact .inl (does_tells hs hlaunched hk hperform hcareful hold hrefused htells)
        · exact .inr ⟨_, mem_set_self hk, j, mem_append_right _ hrest, htells⟩
      · exact .inr ⟨js, hother, j, hj, htells⟩
  · rw [hfresh.spooling] at hrefused
    cases hrefused

omit hlaunched in
theorem does_handles (hcareful : job.Careful s.world ok) (h : job.handles pty) :
    Settled w pty ∨ ∃ j ∈ jobs, j.handles pty := by
  have hjob := hs.jobs _ (mem_of_getElem? hk) job mem_cons_self
  cases job with
  | endRun pty' facts via after =>
    obtain ⟨rfl, hafter⟩ := h
    exact (endRun_passes hperform hs.world hjob.2 hafter hcareful).on
  | lookup pty' after =>
    obtain ⟨rfl, hafter⟩ := h
    exact (lookup_passes hperform hs.world hjob hafter hcareful).on
  | adopt entry =>
    obtain rfl : entry.session = pty := h
    exact (adopt_passes hperform hcareful).on
  | adoptSpawned run entry =>
    obtain rfl : entry.session = pty := h
    exact (adoptSpawned_passes hperform hs.world hjob.1 hcareful).on
  | drain entries =>
    cases entries with
    | nil =>
      obtain ⟨_, hmem, -⟩ := h
      cases hmem
    | cons first entries =>
      obtain ⟨entry, hentry, rfl⟩ := h
      dsimp only [perform] at hperform
      split at hperform
      · cases hperform
        right
        obtain rfl | hlater := mem_cons.mp hentry
        · exact ⟨.endRun entry.session entry.facts .spool (.adopts entry), by simp, rfl,
            fun heq => nomatch heq⟩
        · exact ⟨.drain entries, by simp, entry, hlater, rfl⟩
      · rename_i hgone
        cases hperform
        obtain rfl | hlater := mem_cons.mp hentry
        · left
          obtain ⟨p, hp, hpty, -, hwritten, -⟩ := hjob entry mem_cons_self
          rw [← hpty]
          exact ((hkept.processes p hp).spool entry hwritten).resolve_right hgone
        · exact .inr ⟨.drain entries, by simp, entry, hlater, rfl⟩
  | _ => exact h.elim

omit hlaunched hkept in
theorem does_removes (hcareful : job.Careful s.world ok) {entry : SpoolEntry}
    (h : .remove entry ∈ jobs) : Settled w entry.session := by
  have hjob := hs.jobs _ (mem_of_getElem? hk) job mem_cons_self
  have hputs := perform_puts hperform _ h
  cases job with
  | endRun pty facts via after =>
    have hafter : after ≠ .nothing := by
      rintro rfl
      obtain heq | heq := hputs <;> cases heq
    exact (endRun_passes hperform hs.world hjob.2 hafter hcareful).removes entry h
  | lookup pty after =>
    have hafter : after ≠ .nothing := by
      rintro rfl
      obtain heq | heq := hputs <;> cases heq
    exact (lookup_passes hperform hs.world hjob hafter hcareful).removes entry h
  | adopt _ => exact (adopt_passes hperform hcareful).removes entry h
  | adoptSpawned _ _ =>
    exact (adoptSpawned_passes hperform hs.world hjob.1 hcareful).removes entry h
  | _ => exact hputs.elim

end

theorem Job.Puts.seen_from {job j : Job} (h : job.Puts j) (hpty : pty ∈ j.seen) :
    job = .openSpool true ∨ (job.isLast = true ∧ pty ∈ job.seen ∧ ∀ q, ¬ job.handles q) := by
  cases j with
  | list seen =>
    cases job with
    | openSpool starting => exact .inl (congrArg _ h)
    | _ => exact h.elim
  | endSessions _ _ seen =>
    cases job with
    | list seen' =>
      obtain rfl : seen = seen' := h
      exact .inr ⟨rfl, hpty, fun _ h => h⟩
    | _ => exact h.elim
  | endRuns _ _ seen =>
    cases job with
    | endSessions _ _ seen' =>
      obtain rfl : seen = seen' := h.2.2
      exact .inr ⟨rfl, hpty, fun _ h => h⟩
    | _ => exact h.elim
  | _ => exact (not_mem_nil hpty).elim

theorem perform_last {w w' : World} {ok : Bool} {job : Job} {jobs : List Job}
    (h : perform w ok job = some (w', jobs)) :
    (∀ j ∈ jobs, j.isLast = true → job.isLast = true) ∧ ∀ j ∈ jobs.dropLast, j.isLast = false := by
  constructor
  · intro j hj hlast
    have hputs := perform_puts h j hj
    cases j with
    | openSpool _ => cases job <;> exact hputs.elim
    | list _ =>
      cases job with
      | openSpool starting => exact hputs
      | _ => exact hputs.elim
    | endSessions _ _ _ =>
      cases job with
      | list _ => rfl
      | _ => exact hputs.elim
    | endRuns _ _ _ =>
      cases job with
      | endSessions _ _ _ => rfl
      | _ => exact hputs.elim
    | _ => cases hlast
  · intro j hj
    by_contra hlast
    rw [Bool.not_eq_false] at hlast
    have hputs := perform_puts h j (List.dropLast_subset _ hj)
    cases j with
    | openSpool _ => cases job <;> exact hputs.elim
    | list _ =>
      cases job with
      | openSpool starting =>
        cases h
        cases starting <;> simp at hj
      | _ => exact hputs.elim
    | endSessions _ _ _ =>
      cases job with
      | list _ =>
        cases h
        simp at hj
      | _ => exact hputs.elim
    | endRuns _ _ _ =>
      cases job with
      | endSessions _ _ _ =>
        dsimp only [perform] at h
        split at h
        · cases h
          simp at hj
        · cases h
          simp at hj
      | _ => exact hputs.elim
    | _ => cases hlast

section
variable {s : System} {k : Nat} {ok : Bool} {job : Job} {rest jobs : List Job} {w : World}
  (hs : s.Sound) (hlaunched : s.Launched) (hkept : s.Kept)
  (hk : s.threads[k]? = some (job :: rest)) (hperform : perform s.world ok job = some (w, jobs))
  (hcareful : job.Careful s.world ok)
include hs hlaunched hperform hk hkept hcareful

theorem does_thread : ThreadKept w (jobs ++ rest) := by
  have hmem := mem_of_getElem? hk
  have hthread := hkept.threads _ hmem
  have hsound := hs.jobs _ hmem
  have hmono : ∀ {pty}, (∃ p ∈ s.world.daemon.processes, p.pty = pty) → Settled s.world pty →
      Settled w pty := fun hspawned => does_settled hlaunched hperform hspawned
  refine ⟨fun entry hentry => ?_, fun j hj pty hpty => ?_, fun j hj => ?_⟩
  · obtain hnew | hrest := mem_append.mp hentry
    · exact does_removes hs hk hperform hcareful hnew
    · have hin := mem_cons_of_mem job hrest
      have hentrySound : entry.Sound s.world.daemon.processes := hsound _ hin
      exact hmono hentrySound.spawned (hthread.removes entry hin)
  · obtain hnew | hrest := mem_append.mp hj
    · obtain rfl | ⟨hlast, hseen, hnot⟩ := (perform_puts hperform j hnew).seen_from hpty
      -- a start that reads the spool: what was written is in it, or is settled
      · cases hperform
        have hspooled : pty ∈ s.world.spooled := by
          simp only [if_true, mem_cons, not_mem_nil, or_false] at hnew
          obtain rfl | rfl := hnew
          · cases hpty
          · exact hpty
        obtain ⟨p, hp, rfl, hwritten⟩ := spooled_written s.world pty hspooled
        cases hspooling : p.spooling with
        | written entry =>
          obtain hsettled | hin := (hkept.processes p hp).spool entry hspooling
          · exact .inl hsettled
          · exact .inr ⟨.drain s.world.spool, by simp, entry, hin,
              (hs.world.processes p hp).entry entry hspooling⟩
        | _ =>
          rw [hspooling] at hwritten
          cases hwritten
      · have hsettled := hthread.settled hlast hnot pty hseen
        exact .inl (hmono (Written.spawned ((hsound job mem_cons_self).seen pty hseen)) hsettled)
    · have hin := mem_cons_of_mem job hrest
      have hspawned := Written.spawned ((hsound j hin).seen pty hpty)
      obtain hsettled | ⟨handler, hhandler, hon⟩ := hthread.seen j hin pty hpty
      · exact .inl (hmono hspawned hsettled)
      · obtain rfl | hlater := mem_cons.mp hhandler
        · obtain hsettled | ⟨next, hnext, hon⟩ :=
            does_handles hs hkept hk hperform hcareful hon
          · exact .inl hsettled
          · exact .inr ⟨next, mem_append_left _ hnext, hon⟩
        · exact .inr ⟨handler, mem_append_right _ hlater, hon⟩
  · obtain ⟨hpushed, hbefore⟩ := perform_last hperform
    cases rest with
    | nil =>
      rw [append_nil] at hj
      exact hbefore j hj
    | cons next rest =>
      rw [List.dropLast_append_of_ne_nil (by simp)] at hj
      have hnot : job.isLast = false := hthread.last job (by simp)
      obtain hnew | hlater := mem_append.mp hj
      · by_contra hlast
        rw [Bool.not_eq_false] at hlast
        rw [hpushed j hnew hlast] at hnot
        cases hnot
      · refine hthread.last j ?_
        rw [List.dropLast_cons_of_ne_nil (by simp)]
        exact mem_cons_of_mem job hlater

omit hk hcareful in
theorem does_other {js : List Job} (hjs : js ∈ s.threads) : ThreadKept w js := by
  have hthread := hkept.threads js hjs
  have hsound := hs.jobs js hjs
  refine ⟨fun entry hentry => ?_, fun j hj pty hpty => ?_, hthread.last⟩
  · have hentrySound : entry.Sound s.world.daemon.processes := hsound _ hentry
    exact does_settled hlaunched hperform hentrySound.spawned (hthread.removes entry hentry)
  · exact (hthread.seen j hj pty hpty).imp_left
      (does_settled hlaunched hperform (Written.spawned ((hsound j hj).seen pty hpty)))

theorem does_kept : System.Kept ⟨w, s.threads.set k (jobs ++ rest)⟩ := by
  refine ⟨fun p hp => ⟨?_, ?_, ?_⟩, fun js hjs => ?_⟩
  · exact fun row hrow hrun hended =>
      does_ends hs hlaunched hkept hk hperform hcareful hp hrow hrun hended
  · exact fun entry hentry => does_spool hs hlaunched hkept hk hperform hp hentry
  · exact fun hrefused htold =>
      does_told hs hlaunched hkept hk hperform hcareful hp hrefused htold
  · obtain hold | rfl := mem_or_eq_of_mem_set hjs
    · exact does_other hs hlaunched hkept hperform hold
    · exact does_thread hs hlaunched hkept hk hperform hcareful

end

end Yardsort.Activity
