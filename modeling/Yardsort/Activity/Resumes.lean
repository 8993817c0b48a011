import Yardsort.Activity.Effects

/- Resuming one record, from any number of clients. `continue_session` reads whether the record is
   running long before it marks it running: a process is spawned in between. Ending a record is a
   read and a later update of whatever the row says by then, and the reconciliation of a start ends
   what a list does not hold that it asked for earlier.

   `InStep` says in which order these statements go right: a resume finds the record ended only
   while no other call is between its own read and its mark, and a mark comes after the ends and the
   reconciliations that were read before it. The invariants are that a process of the record that
   runs is named by the row, or its call has still to mark it (`Tended`), and what a statement still
   to be made relies on (`Cleared`). -/
namespace Yardsort.Activity
open Yardsort.Lib

def Process.runsFor (id : String) (p : Process) : Prop := p.record = some id ∧ p.life = .running

instance (id : String) (p : Process) : Decidable (p.runsFor id) :=
  inferInstanceAs (Decidable (_ ∧ _))

def RunsUnder (w : World) (id pty : String) : Prop :=
  ∃ p ∈ w.daemon.processes, p.pty = pty ∧ p.runsFor id

instance (w : World) (id pty : String) : Decidable (RunsUnder w id pty) :=
  inferInstanceAs (Decidable (∃ p ∈ w.daemon.processes, _))

def Says (w : World) (id pty : String) : Prop :=
  ∃ row ∈ w.store.sessions, row.id = id ∧ row.running = true ∧ row.ptySessionId = some pty

instance (w : World) (id pty : String) : Decidable (Says w id pty) :=
  inferInstanceAs (Decidable (∃ row ∈ w.store.sessions, _))

def Known (w : World) (id : String) : Prop := id ∈ w.store.sessions.map (·.id)

instance (w : World) (id : String) : Decidable (Known w id) :=
  inferInstanceAs (Decidable (id ∈ w.store.sessions.map (·.id)))

def Job.marks (id pty : String) : Job → Bool
  | .record r pty' => r.id = some id && pty' = pty
  | _ => false

def Job.concerns (id : String) : Job → Bool
  | .resume l | .begin l | .spawn l => l.record.id = some id
  | .record r _ => r.id = some id
  | _ => false

def Job.draws (id : String) : Job → Bool
  | .resume l | .begin l | .spawn l => l.record = .new id
  | .record r _ => r = .new id
  | _ => false

def Job.keeps (id : String) : Job → Bool
  | .begin l | .spawn l => l.record = .old id
  | .record r _ => r = .old id
  | _ => false

def Job.underWay (id : String) : Job → Bool
  | .begin l | .spawn l => l.record.id = some id
  | .record r _ => r.id = some id
  | _ => false

def UnderWay (s : System) (id : String) : Prop :=
  ∃ jobs ∈ s.threads, ∃ job ∈ jobs, job.underWay id = true

instance (s : System) (id : String) : Decidable (UnderWay s id) :=
  inferInstanceAs (Decidable (∃ jobs ∈ s.threads, _))

def Marking (s : System) (id pty : String) : Prop :=
  ∃ jobs ∈ s.threads, ∃ job ∈ jobs, job.marks id pty = true

def Returned (s : System) (id : String) : Prop :=
  ∀ jobs ∈ s.threads, ∀ job ∈ jobs, job.concerns id = false

structure Unheard (s : System) (id : String) : Prop where
  record : ¬ Known s.world id
  processes : ∀ p ∈ s.world.daemon.processes, p.record ≠ some id
  jobs : ∀ jobs ∈ s.threads, ∀ job ∈ jobs, job.draws id = false

/-- A launch has no record or draws a new id for it, and a resume is of a record. -/
def Drawn (id : String) (s : System) : Act → Prop
  | .calls (.launch l) =>
    match l.record with
    | .none => True
    | .new new => new = id → Unheard s id
    | .old _ => False
  | .calls (.resume l) => l.record.id = some id → l.record = .old id
  | _ => True

/-- The statement leaves the record as it is once it is marked with the PTY: it is no end of the
    record that was read before, nor a reconciliation by a list that was asked for before the PTY
    was there. -/
def Job.spares (id pty : String) : Job → Bool
  | .endSessionRow old _ => old ≠ id
  | .endSessions _ known _ => pty ∈ known
  | _ => true

/-- When the order of the calls keeps the record and its processes in step.
    - a resume finds the record ended only while no other call is between its read and its mark;
    - while the process runs, marking the record with it does not fail, and comes after every end
      that was read and every reconciliation that has its list from before;
    - a list is not answered only while the record says the PTY of no process that runs. -/
def Job.InOrder (id : String) (s : System) (ok : Bool) : Job → Prop
  | .resume l => l.record.id = some id → ok = true →
      (s.world.store.session id).any (fun row => !row.running) = true → ¬ UnderWay s id
  | .record r pty => r.id = some id → RunsUnder s.world id pty →
      ok = true ∧ ∀ jobs ∈ s.threads, ∀ job ∈ jobs, job.spares id pty = true
  | .list _ => ok = false →
      ∀ p ∈ s.world.daemon.processes, p.runsFor id → ¬ Says s.world id p.pty
  | _ => True

def InOrder (id : String) (s : System) : Act → Prop
  | .does k ok => ∀ job ∈ (s.threads[k]?.bind List.head? : Option _), job.InOrder id s ok
  -- A client that crashes has marked the record with the process it spawned.
  | .dies k => ∀ jobs ∈ (s.threads[k]? : Option _), ∀ p ∈ s.world.daemon.processes,
      p.runsFor id → ∀ job ∈ jobs, job.marks id p.pty = false
  | _ => True

structure InStep (id : String) (s : System) (a : Act) : Prop where
  drawn : Drawn id s a
  order : InOrder id s a

instance (s : System) (id : String) : Decidable (Unheard s id) :=
  decidable_of_iff (¬ Known s.world id ∧
      (∀ p ∈ s.world.daemon.processes, p.record ≠ some id) ∧
      ∀ jobs ∈ s.threads, ∀ job ∈ jobs, job.draws id = false)
    ⟨fun h => ⟨h.1, h.2.1, h.2.2⟩, fun h => ⟨h.record, h.processes, h.jobs⟩⟩

instance (id : String) (s : System) : (a : Act) → Decidable (Drawn id s a)
  | .calls (.launch ⟨_, _, .none⟩) => isTrue trivial
  | .calls (.launch ⟨_, _, .new new⟩) => inferInstanceAs (Decidable (new = id → Unheard s id))
  | .calls (.launch ⟨_, _, .old _⟩) => isFalse nofun
  | .calls (.resume l) => inferInstanceAs (Decidable (l.record.id = some id → l.record = .old id))
  | .calls .drain | .calls .start | .does _ _ | .dies _ | .exits _ _ | .spools _ _ _ _
  | .announces _ | .loses _ | .drops _ | .clock _ => isTrue trivial

instance (id : String) (s : System) (ok : Bool) : (job : Job) → Decidable (job.InOrder id s ok)
  | .resume l => inferInstanceAs (Decidable (l.record.id = some id → ok = true →
      (s.world.store.session id).any (fun row => !row.running) = true → ¬ UnderWay s id))
  | .record r pty => inferInstanceAs (Decidable (r.id = some id → RunsUnder s.world id pty →
      ok = true ∧ ∀ jobs ∈ s.threads, ∀ job ∈ jobs, job.spares id pty = true))
  | .list _ => inferInstanceAs (Decidable (ok = false →
      ∀ p ∈ s.world.daemon.processes, p.runsFor id → ¬ Says s.world id p.pty))
  | .begin _ | .spawn _ | .spawnFailed _ | .runSpawned _ _ | .check _ | .settle _
  | .endSession _ _ | .endSessionRow _ _ | .endRun _ _ _ _ | .writeExit _ _ _ _ | .lookup _ _
  | .adopt _ | .adoptSpawned _ _ | .remove _ | .openSpool _ | .drain _ | .endSessions _ _ _
  | .endRuns _ _ _ => isTrue trivial

instance (id : String) (s : System) : (a : Act) → Decidable (InOrder id s a)
  | .does k ok => inferInstanceAs (Decidable (∀ job ∈ (s.threads[k]?.bind List.head? : Option _),
      job.InOrder id s ok))
  | .dies k => inferInstanceAs (Decidable (∀ jobs ∈ (s.threads[k]? : Option _),
      ∀ p ∈ s.world.daemon.processes, p.runsFor id → ∀ job ∈ jobs, job.marks id p.pty = false))
  | .calls _ | .exits _ _ | .spools _ _ _ _ | .announces _ | .loses _ | .drops _ | .clock _ =>
    isTrue trivial

instance (id : String) (s : System) (a : Act) : Decidable (InStep id s a) :=
  decidable_of_iff (Drawn id s a ∧ InOrder id s a) ⟨fun h => ⟨h.1, h.2⟩, fun h => ⟨h.1, h.2⟩⟩

/-! ## What a statement does -/

section
variable {w w' : World} {ok : Bool} {job : Job} {jobs : List Job}

theorem perform_spawned (h : perform w ok job = some (w', jobs)) {p : Process}
    (hp : p ∈ w'.daemon.processes) : p ∈ w.daemon.processes ∨ ∃ l, job = .spawn l ∧ ok = true ∧
      p = ⟨l.pty, l.run, l.record.id, .running, true, .waiting, false⟩ ∧ jobs = spawnedJobs l := by
  obtain heq | ⟨l, rfl, rfl, hspawn⟩ := perform_daemon h
  · exact .inl (heq ▸ hp)
  · have hjobs : jobs = spawnedJobs l := by
      obtain ⟨daemon, -, heq⟩ := map_eq_some_iff.mp h
      exact (Prod.mk.inj heq).2.symm
    unfold Daemon.spawn at hspawn
    dsimp only at hspawn
    split at hspawn
    · rw [← Option.some.inj hspawn] at hp
      obtain hold | hnew := mem_snoc.mp hp
      · exact .inl hold
      · exact .inr ⟨l, rfl, rfl, hnew, hjobs⟩
    · cases hspawn

theorem spawn_fresh {l : Launch} (h : perform w true (.spawn l) = some (w', jobs)) :
    (∃ p ∈ w'.daemon.processes, p.pty = l.pty) ∧ ∀ q ∈ w.daemon.processes, q.pty ≠ l.pty := by
  obtain ⟨daemon, hspawn, heq⟩ := map_eq_some_iff.mp h
  obtain ⟨rfl, -⟩ := Prod.mk.inj heq
  unfold Daemon.spawn at hspawn
  dsimp only at hspawn
  split at hspawn
  · rename_i happart
    cases hspawn
    exact ⟨⟨_, mem_append_right _ mem_cons_self, rfl⟩, fun q hq => (happart q hq).1⟩
  · cases hspawn

theorem spawned_marks {l : Launch} {id : String} (h : l.record.id = some id) :
    .record l.record l.pty ∈ spawnedJobs l := by
  unfold spawnedJobs
  refine mem_append_right _ ?_
  split
  · rename_i hnone
    rw [hnone] at h
    cases h
  · exact mem_singleton.mpr rfl

theorem map_ids (rows : List SessionRow) (f : SessionRow → SessionRow)
    (hf : ∀ row, (f row).id = row.id) : (rows.map f).map (·.id) = rows.map (·.id) := by
  rw [map_map]
  congr 1
  funext row
  exact hf row

theorem perform_ids (h : perform w ok job = some (w', jobs))
    (hjob : ∀ id pty, job ≠ .record (.new id) pty) :
    w'.store.sessions.map (·.id) = w.store.sessions.map (·.id) := by
  cases job with
  | record r pty =>
    cases r with
    | none =>
      cases h
      rfl
    | new id => exact absurd rfl (hjob id pty)
    | old id =>
      dsimp only [perform] at h
      split at h <;> obtain ⟨rfl, -⟩ := Prod.mk.inj (Option.some.inj h)
      · refine map_ids _ _ fun row => ?_
        split <;> rfl
      · rfl
  | endSessionRow id facts =>
    cases h
    split
    · refine map_ids _ _ fun row => ?_
      split <;> rfl
    · rfl
  | endSessions alive known seen =>
    dsimp only [perform] at h
    split at h <;> obtain ⟨rfl, -⟩ := Prod.mk.inj (Option.some.inj h)
    · refine map_ids _ _ fun row => ?_
      split <;> rfl
    · rfl
  | _ =>
    dsimp only [perform] at h
    grind [Store.addEvent, Store.addRun, Store.runSpawned, Store.endRun, Store.endRunByPty,
      Store.endInterruptedRuns, Store.mapRuns, map_eq_some_iff]

theorem added_ids {store store' : Store} {new pty : String} {now : Int}
    (h : (if ok then store.addSession new pty now else none) = some store') :
    store'.sessions.map (·.id) = store.sessions.map (·.id) ++ [new] := by
  split at h
  · unfold Store.addSession at h
    split at h
    · cases h
    · cases h
      simp
  · cases h

theorem perform_known (h : perform w ok job = some (w', jobs)) (id : String) :
    (Known w' id ↔ Known w id) ∨
      (Known w' id ∧ ¬ Known w id ∧ job.draws id = true ∧ ∀ j ∈ jobs, j.draws id = false) := by
  by_cases hjob : ∃ new pty, job = .record (.new new) pty
  · obtain ⟨new, pty, rfl⟩ := hjob
    dsimp only [perform] at h
    split at h
    · cases h
      exact .inl .rfl
    · rename_i store hstore
      cases h
      unfold Known
      rw [added_ids hstore]
      by_cases hold : id ∈ w.store.sessions.map (·.id)
      · exact .inl ⟨fun _ => hold, fun h => mem_append_left _ h⟩
      · by_cases hid : new = id
        · exact .inr ⟨by simp [hid], hold, by simp [Job.draws, hid], by simp [Job.draws]⟩
        · refine .inl ⟨fun h => ?_, fun h => absurd h hold⟩
          obtain hmem | heq := mem_snoc.mp h
          · exact hmem
          · exact absurd heq.symm hid
  · left
    unfold Known
    rw [perform_ids h fun new pty heq => hjob ⟨new, pty, heq⟩]

theorem perform_failed (h : perform w false job = some (w', jobs)) :
    w'.store.sessions = w.store.sessions := by
  cases job with
  | record r pty => cases r <;> dsimp only [perform] at h <;> grind
  | _ =>
    dsimp only [perform] at h
    grind [Store.addEvent, Store.addRun, Store.runSpawned, Store.endRun, Store.endRunByPty,
      Store.endInterruptedRuns, Store.mapRuns, map_eq_some_iff]

theorem countP_one (p : Job → Bool) (j : Job) : [j].countP p = (p j).toNat := by
  cases hp : p j <;> simp [hp]

theorem begin_spawns {l : Launch} (h : perform w ok (.begin l) = some (w', jobs)) :
    ∃ l', jobs = [.spawn l'] ∧ l'.record = l.record := by
  dsimp only [perform] at h
  split at h
  · cases h
    exact ⟨l, rfl, rfl⟩
  · split at h <;> obtain ⟨-, rfl⟩ := Prod.mk.inj (Option.some.inj h)
    · exact ⟨_, rfl, rfl⟩
    · exact ⟨l, rfl, rfl⟩

theorem resume_begins {l : Launch} (h : perform w ok (.resume l) = some (w', jobs)) :
    w' = w ∧ (jobs = [] ∨ jobs = [.begin l] ∧ ok = true ∧
      ∃ row, l.record.id.bind w.store.session = some row ∧ row.running = false) := by
  dsimp only [perform] at h
  split at h <;> obtain ⟨rfl, rfl⟩ := Prod.mk.inj (Option.some.inj h)
  · exact ⟨rfl, .inl rfl⟩
  · rename_i row hrow
    refine ⟨rfl, ?_⟩
    split
    · rename_i hgoes
      rw [Bool.and_eq_true, Bool.not_eq_true'] at hgoes
      exact .inr ⟨rfl, hgoes.1, row, hrow, hgoes.2⟩
    · exact .inl rfl

theorem perform_draws (h : perform w ok job = some (w', jobs)) (id : String) :
    jobs.countP (·.draws id) ≤ (job.draws id).toNat := by
  cases job with
  | resume l =>
    obtain ⟨-, rfl | ⟨rfl, -⟩⟩ := resume_begins h
    · exact Nat.zero_le _
    · rw [countP_one]
      exact Nat.le_refl _
  | begin l =>
    obtain ⟨l', rfl, hrecord⟩ := begin_spawns h
    rw [countP_one]
    simp [Job.draws, hrecord]
  | spawn l =>
    dsimp only [perform] at h
    split at h
    · obtain ⟨daemon, -, heq⟩ := map_eq_some_iff.mp h
      cases heq
      obtain ⟨run, pty, record⟩ := l
      cases run <;> cases record <;> simp only [spawnedJobs, countP_append, countP_one] <;>
        simp [Job.draws]
    · split at h <;> obtain ⟨-, rfl⟩ := Prod.mk.inj (Option.some.inj h) <;> simp [Job.draws]
  | _ =>
    rw [countP_eq_zero.mpr]
    · exact Nat.zero_le _
    · intro j hj
      have hput := perform_puts h j hj
      cases j <;> simp_all [Job.Puts, Job.draws]

theorem perform_keeps (h : perform w ok job = some (w', jobs)) {id : String}
    (hjob : job.keeps id = true → Known w id) : ∀ j ∈ jobs, j.keeps id = true → Known w id := by
  intro j hj hkeeps
  have hput := perform_puts h j hj
  cases job with
  | resume l =>
    obtain ⟨-, rfl | ⟨rfl, -, row, hrow, -⟩⟩ := resume_begins h
    · cases hj
    · obtain rfl := mem_singleton.mp hj
      have hold : l.record = .old id := by simpa [Job.keeps] using hkeeps
      rw [hold] at hrow
      have hid : row.id = id := by simpa using List.find?_some hrow
      exact hid ▸ mem_map_of_mem (mem_of_find?_eq_some hrow)
  | begin l =>
    cases j with
    | spawn l' =>
      refine hjob ?_
      obtain rfl | rfl := hput <;> exact hkeeps
    | _ => simp_all [Job.Puts, Job.keeps]
  | spawn l =>
    cases j with
    | record r pty =>
      obtain ⟨rfl, rfl⟩ := hput
      exact hjob hkeeps
    | _ => simp_all [Job.Puts, Job.keeps]
  | _ => cases j <;> simp_all [Job.Puts, Job.keeps]

theorem perform_underWay (h : perform w ok job = some (w', jobs)) (id : String) :
    jobs.countP (·.underWay id) ≤ (job.underWay id).toNat ∨
      ∃ l row, job = .resume l ∧ jobs = [.begin l] ∧ ok = true ∧ l.record.id = some id ∧
        w.store.session id = some row ∧ row.running = false := by
  cases job with
  | resume l =>
    obtain ⟨-, rfl | ⟨rfl, hok, row, hrow, hended⟩⟩ := resume_begins h
    · exact .inl (Nat.zero_le _)
    · by_cases hid : l.record.id = some id
      · rw [hid] at hrow
        exact .inr ⟨l, row, rfl, rfl, hok, hid, hrow, hended⟩
      · left
        rw [countP_one]
        simp [Job.underWay, hid]
  | begin l =>
    obtain ⟨l', rfl, hrecord⟩ := begin_spawns h
    left
    rw [countP_one]
    simp [Job.underWay, hrecord]
  | spawn l =>
    left
    dsimp only [perform] at h
    split at h
    · obtain ⟨daemon, -, heq⟩ := map_eq_some_iff.mp h
      cases heq
      obtain ⟨run, pty, record⟩ := l
      cases run <;> cases record <;> simp only [spawnedJobs, countP_append, countP_one] <;>
        simp [Job.underWay, Record.id]
    · split at h <;> obtain ⟨-, rfl⟩ := Prod.mk.inj (Option.some.inj h) <;> simp [Job.underWay]
  | _ =>
    left
    rw [countP_eq_zero.mpr]
    · exact Nat.zero_le _
    · intro j hj
      have hput := perform_puts h j hj
      cases j <;> simp_all [Job.Puts, Job.underWay]

theorem perform_says_cases (h : perform w ok job = some (w', jobs)) {id pty : String}
    (hsaid : Says w' id pty) :
    Says w id pty ∨ ∃ r, job = .record r pty ∧ r.id = some id ∧ ok = true := by
  obtain ⟨row, hrow, rfl, hrunning, hpty⟩ := hsaid
  by_cases hold : row ∈ w.store.sessions
  · exact .inl ⟨row, hold, rfl, hrunning, hpty⟩
  have hok : ok = true := by
    by_contra hfails
    rw [Bool.not_eq_true] at hfails
    subst hfails
    exact hold (perform_failed h ▸ hrow)
  by_cases hnew : ∃ new pty', job = .record (.new new) pty'
  · obtain ⟨new, pty', rfl⟩ := hnew
    dsimp only [perform] at h
    rw [if_pos hok, Store.addSession] at h
    split at h
    · cases h
      exact absurd hrow hold
    · rename_i store hstore
      split at hstore
      · cases hstore
      · cases hstore
        cases h
        obtain hmem | rfl := mem_snoc.mp hrow
        · exact absurd hmem hold
        · exact .inr ⟨.new new, by rw [Option.some.inj hpty], rfl, hok⟩
  · have hids := perform_ids h fun new pty heq => hnew ⟨new, pty, heq⟩
    have hid : row.id ∈ w.store.sessions.map (·.id) := hids ▸ mem_map_of_mem hrow
    obtain ⟨before, hbefore, heq⟩ := mem_map.mp hid
    have hmove := (perform_sessions h).was hbefore hrow heq.symm
    generalize hafter : row = after at hmove
    cases hmove with
    | stays => exact absurd (hafter ▸ hbefore) hold
    | marked _ pty' =>
      subst hafter
      exact .inr ⟨.old before.id, by rw [Option.some.inj hpty], rfl, hok⟩
    | exits _ facts | cut _ alive known seen hcut =>
      subst hafter
      cases hrunning

end

end Yardsort.Activity
