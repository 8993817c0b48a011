import Yardsort.Activity.Resumes
import Yardsort.Activity.Settling

/- The runs in which a record is resumed. What a statement still to be made relies on (`Job.Clear`)
   makes each statement mind the record (`Job.Minds`), and so keeps the record and its processes in
   step (`Tended`); the order of the calls keeps what it relies on. At the end stand the run theorem
   (`resumed_once`) and a run of two resumes that both find the record ended. -/
namespace Yardsort.Activity
open Yardsort.Lib

def drawing (s : System) (id : String) : Nat := s.threads.flatten.countP (·.draws id)

def underWay (s : System) (id : String) : Nat := s.threads.flatten.countP (·.underWay id)

/-- What a statement does to keep the record and its processes in step.
    - a process is spawned for the record only while none of it runs;
    - marking the record does not fail while the process that was spawned runs, and does not take
      the record from another one that runs under the PTY it says;
    - the row is not ended while it says the PTY of a process that runs, by an end that was read
      before or by a list that was asked for before. -/
def Job.Minds (id : String) (w : World) (ok : Bool) : Job → Prop
  | .spawn l => l.record.id = some id → ok = true → ∀ p ∈ w.daemon.processes, ¬ p.runsFor id
  | .record r pty => r.id = some id →
      (ok = false → ¬ RunsUnder w id pty) ∧
      ∀ p ∈ w.daemon.processes, p.runsFor id → Says w id p.pty → p.pty = pty
  | .endSessionRow old _ => old = id → ok = true →
      ∀ p ∈ w.daemon.processes, p.runsFor id → ¬ Says w id p.pty
  | .endSessions alive _ _ => ok = true →
      ∀ p ∈ w.daemon.processes, p.runsFor id → Says w id p.pty → p.pty ∈ alive
  | _ => True

/-- What a statement still to be made relies on. -/
def Job.Clear (id : String) (w : World) : Job → Prop
  | .begin l | .spawn l => l.record.id = some id → ∀ p ∈ w.daemon.processes, ¬ p.runsFor id
  | .record r pty => r.id = some id → (∃ p ∈ w.daemon.processes, p.pty = pty) ∧
      ∀ p ∈ w.daemon.processes, p.runsFor id → p.pty = pty
  | .endSessionRow old _ => old = id →
      ∀ p ∈ w.daemon.processes, p.runsFor id → ¬ Says w id p.pty
  | .endSessions _ known _ =>
      ∀ p ∈ w.daemon.processes, p.runsFor id → Says w id p.pty → p.pty ∈ known
  | _ => True

/-- What the statements still to be made rely on, throughout. -/
structure Cleared (id : String) (s : System) : Prop where
  sound : s.Sound
  under : underWay s id ≤ 1
  jobs : ∀ jobs ∈ s.threads, ∀ job ∈ jobs, job.Clear id s.world
  /-- The record says no PTY that is still to come. -/
  spawned : ∀ pty, Says s.world id pty → ∃ p ∈ s.world.daemon.processes, p.pty = pty

/-- What holds of a record and its processes throughout. -/
structure Tended (id : String) (s : System) : Prop where
  /-- At most one process of the record runs. -/
  one : ∀ p ∈ s.world.daemon.processes, p.runsFor id →
    ∀ q ∈ s.world.daemon.processes, q.runsFor id → p.pty = q.pty
  /-- The record says its PTY, or is about to, or there is none and never will be. -/
  said : ∀ p ∈ s.world.daemon.processes, p.runsFor id →
    Says s.world id p.pty ∨ Marking s id p.pty ∨ (¬ Known s.world id ∧ drawing s id = 0)
  drawn : drawing s id ≤ 1
  unknown : drawing s id = 1 → ¬ Known s.world id
  known : ∀ jobs ∈ s.threads, ∀ job ∈ jobs, job.keeps id = true → Known s.world id

theorem Tended.draws {id : String} {s : System} (h : Tended id s) {jobs : List Job}
    (hjobs : jobs ∈ s.threads) {job : Job} (hjob : job ∈ jobs) (hdraws : job.draws id = true) :
    drawing s id = 1 := by
  have hpos : 0 < drawing s id :=
    countP_pos_iff.mpr ⟨job, mem_flatten.mpr ⟨jobs, hjobs, hjob⟩, hdraws⟩
  have := h.drawn
  omega

theorem Job.marks_record {id pty : String} {job : Job} (h : job.marks id pty = true) :
    ∃ r, job = .record r pty ∧ r.id = some id := by
  cases job with
  | record r pty' =>
    have h : r.id = some id ∧ pty' = pty := by simpa [Job.marks] using h
    exact ⟨r, h.2 ▸ rfl, h.1⟩
  | _ => simp [Job.marks] at h

section
variable {s : System} {id : String} {w : World} {k : Nat} {ok : Bool} {job : Job}
  {rest jobs : List Job} (ht : Tended id s) (hk : s.threads[k]? = some (job :: rest))
  (h : perform s.world ok job = some (w, jobs))
include hk

theorem thread_mem : job :: rest ∈ s.threads := mem_of_getElem? hk

include h

theorem does_drawing : drawing ⟨w, s.threads.set k (jobs ++ rest)⟩ id ≤ drawing s id := by
  have hcount := does_count hk jobs (·.draws id)
  have hput := perform_draws h id
  unfold drawing
  dsimp only at hcount ⊢
  omega

theorem marking_stays {pty : String} (hm : Marking s id pty) :
    Marking ⟨w, s.threads.set k (jobs ++ rest)⟩ id pty ∨ job.marks id pty = true := by
  obtain ⟨js, hjs, j, hj, hmarks⟩ := hm
  obtain rfl | hstays := mem_set_or hk hjs
  · obtain rfl | hrest := mem_cons.mp hj
    · exact .inr hmarks
    · exact .inl ⟨_, mem_set_self hk, j, mem_append_right _ hrest, hmarks⟩
  · exact .inl ⟨js, hstays, j, hj, hmarks⟩

include ht

theorem marked_tells {r : Record} {pty : String} (hjob : job = .record r pty)
    (hid : r.id = some id) (hok : ok = true) : Says w id pty := by
  subst hjob hok
  cases r with
  | none => cases hid
  | new new =>
    obtain rfl := Option.some.inj hid
    have hnew : new ∉ s.world.store.sessions.map (·.id) :=
      ht.unknown (ht.draws (thread_mem hk) mem_cons_self (by simp [Job.draws]))
    dsimp only [perform] at h
    rw [if_pos rfl, Store.addSession, dif_neg hnew] at h
    cases h
    exact ⟨_, mem_append_right _ mem_cons_self, rfl, rfl, rfl⟩
  | old old =>
    cases hid
    have hknown := ht.known _ (thread_mem hk) _ mem_cons_self (by simp [Job.keeps])
    obtain ⟨row, hrow, hrowid⟩ := mem_map.mp hknown
    cases h
    refine ⟨row.markedRunning pty s.world.now, ?_, hrowid, rfl, rfl⟩
    exact mem_map.mpr ⟨row, hrow, if_pos hrowid⟩

theorem says_stays (hmind : job.Minds id s.world ok) {p : Process}
    (hp : p ∈ s.world.daemon.processes) (hruns : p.runsFor id) (htells : Says s.world id p.pty) :
    Says w id p.pty := by
  have hsaid := htells
  obtain ⟨row, hrow, rfl, hrunning, hpty⟩ := htells
  cases ok with
  | false => exact ⟨row, perform_failed h ▸ hrow, rfl, hrunning, hpty⟩
  | true =>
    have hknown : Known w row.id := by
      obtain hiff | ⟨hnew, -⟩ := perform_known h row.id
      · exact hiff.mpr (mem_map_of_mem hrow)
      · exact hnew
    obtain ⟨row', hrow', hid⟩ := mem_map.mp hknown
    have hmove := (perform_sessions h).was hrow hrow' hid
    cases hmove with
    | stays => exact ⟨row, hrow', rfl, hrunning, hpty⟩
    | marked _ pty =>
      exact ⟨_, hrow', hid, rfl, congrArg some ((hmind rfl).2 p hp hruns hsaid).symm⟩
    -- the end that was read names the PTY of a process that runs
    | exits _ facts => exact absurd hsaid (hmind rfl rfl p hp hruns)
    | cut _ alive known seen hcut =>
      -- a PTY of the list is not cut
      have hlisted := hmind rfl p hp hruns hsaid
      rw [SessionRow.interrupted, hrunning, hpty] at hcut
      simp [hlisted] at hcut

/-- **A careful statement keeps a record and its processes in step.** -/
theorem does_tended (hmind : job.Minds id s.world ok) :
    Tended id ⟨w, s.threads.set k (jobs ++ rest)⟩ := by
  have hdrawing : drawing ⟨w, s.threads.set k (jobs ++ rest)⟩ id ≤ drawing s id :=
    does_drawing hk h
  constructor
  · intro p hp hpruns q hq hqruns
    dsimp only at hp hq
    -- Only one of two can have been spawned now, and not while the other runs.
    obtain hpold | ⟨l, rfl, rfl, rfl, -⟩ := perform_spawned h hp
    · obtain hqold | ⟨l, rfl, rfl, rfl, -⟩ := perform_spawned h hq
      · exact ht.one p hpold hpruns q hqold hqruns
      · exact absurd hpruns (hmind hqruns.1 rfl p hpold)
    · obtain hqold | ⟨l', heq, -, rfl, -⟩ := perform_spawned h hq
      · exact absurd hqruns (hmind hpruns.1 rfl q hqold)
      · rw [Job.spawn.inj heq]
  · intro p hp hruns
    obtain hold | ⟨l, rfl, rfl, rfl, rfl⟩ := perform_spawned h hp
    · obtain htells | hmarking | ⟨hunknown, hzero⟩ := ht.said p hold hruns
      · exact .inl (says_stays ht hk h hmind hold hruns htells)
      · obtain hstays | hmarks := marking_stays hk h hmarking
        · exact .inr (.inl hstays)
        · obtain ⟨r, rfl, hr⟩ := Job.marks_record hmarks
          refine .inl (marked_tells ht hk h rfl hr ?_)
          by_contra hfails
          exact (hmind hr).1 (by simpa using hfails) ⟨p, hold, rfl, hruns⟩
      · refine .inr (.inr ⟨?_, by omega⟩)
        obtain hiff | ⟨-, -, hdraws, -⟩ := perform_known h id
        · exact fun hk' => hunknown (hiff.mp hk')
        · have := ht.draws (thread_mem hk) mem_cons_self hdraws
          omega
    · have hid : l.record.id = some id := hruns.1
      refine .inr (.inl ⟨_, mem_set_self hk, _, mem_append_left _ (spawned_marks hid), ?_⟩)
      simp [Job.marks, hid]
  · exact Nat.le_trans hdrawing ht.drawn
  · intro hone
    obtain hiff | ⟨-, -, hdraws, hnone⟩ := perform_known h id
    · have := ht.drawn
      exact fun hk' => ht.unknown (by omega) (hiff.mp hk')
    -- It was the last statement of its launch.
    · have hcount := does_count hk jobs (·.draws id)
      have hzero : jobs.countP (·.draws id) = 0 := by
        rw [countP_eq_zero]
        intro j hj
        simp [hnone j hj]
      have := ht.drawn
      unfold drawing at hone this
      simp only [hdraws, Bool.toNat_true] at hcount hone
      omega
  · intro js hjs j hj hkeeps
    have hstays : Known s.world id → Known w id := by
      intro hknown
      obtain hiff | ⟨hnew, -⟩ := perform_known h id
      · exact hiff.mpr hknown
      · exact hnew
    obtain hold | rfl := mem_or_eq_of_mem_set hjs
    · exact hstays (ht.known js hold j hj hkeeps)
    · obtain hnew | hrest := mem_append.mp hj
      · exact hstays (perform_keeps h (ht.known _ (thread_mem hk) _ mem_cons_self) j hnew hkeeps)
      · exact hstays (ht.known _ (thread_mem hk) j (mem_cons_of_mem _ hrest) hkeeps)

end

/-! ## What the other statements rely on -/

section
variable {s : System} {id : String} {w : World} {k : Nat} {ok : Bool} {job : Job}
  {rest jobs : List Job}

/-- **In order, a statement minds the record.** -/
theorem Cleared.minds (hc : Cleared id s) (hk : s.threads[k]? = some (job :: rest))
    (horder : job.InOrder id s ok) : job.Minds id s.world ok := by
  have hclear := hc.jobs _ (mem_of_getElem? hk) job mem_cons_self
  cases job with
  | spawn l | endSessionRow old facts => exact fun hid _ => hclear hid
  | record r pty =>
    refine fun hid => ⟨fun hfails hruns => ?_, fun p hp hruns _ => (hclear hid).2 p hp hruns⟩
    rw [(horder hid hruns).1] at hfails
    cases hfails
  | endSessions alive known seen =>
    intro _ p hp hruns htold
    have hsound := hc.sound.jobs _ (mem_of_getElem? hk) _ mem_cons_self
    have hwaits := (hc.sound.world.processes p hp).waits hruns.2
    exact hsound.1.live p hp (hclear p hp hruns htold) hwaits
  | _ => trivial

theorem underWay_pos (hk : s.threads[k]? = some (job :: rest)) (hunder : job.underWay id = true)
    {j : Job} (hj : j ∈ rest ∨ ∃ js ∈ s.threads.eraseIdx k, j ∈ js)
    (hjunder : j.underWay id = true) : 2 ≤ underWay s id := by
  have hcount := does_count hk [] (·.underWay id)
  rw [nil_append, hunder, List.countP_nil] at hcount
  have hpos : 0 < (s.threads.set k rest).flatten.countP (·.underWay id) := by
    refine countP_pos_iff.mpr ⟨j, mem_flatten.mpr ?_, hjunder⟩
    obtain hrest | ⟨js, hjs, hjmem⟩ := hj
    · exact ⟨rest, mem_set_self hk, hrest⟩
    · obtain ⟨i, hik, hi⟩ := mem_eraseIdx_iff_getElem?.mp hjs
      exact ⟨js, mem_of_getElem? ((get_set_ne hik).trans hi), hjmem⟩
  unfold underWay
  rw [Bool.toNat_true] at hcount
  omega

/-- What a statement relies on is kept where no process of the record comes to run and the record
    says none more of those that do. -/
theorem Job.Clear.mono {w' : World} {j : Job} (h : j.Clear id w)
    (hruns : ∀ p' ∈ w'.daemon.processes, p'.runsFor id →
      ∃ p ∈ w.daemon.processes, p.pty = p'.pty ∧ p.runsFor id)
    (hthere : ∀ p ∈ w.daemon.processes, ∃ p' ∈ w'.daemon.processes, p'.pty = p.pty)
    (htold : ∀ p ∈ w.daemon.processes, p.runsFor id → Says w' id p.pty → Says w id p.pty) :
    j.Clear id w' := by
  cases j with
  | begin l | spawn l =>
    intro hid p' hp' hruns'
    obtain ⟨p, hp, -, hold⟩ := hruns p' hp' hruns'
    exact h hid p hp hold
  | record r pty =>
    intro hid
    obtain ⟨⟨p, hp, hpty⟩, hall⟩ := h hid
    obtain ⟨p', hp', heq⟩ := hthere p hp
    refine ⟨⟨p', hp', heq.trans hpty⟩, fun q' hq' hruns' => ?_⟩
    obtain ⟨q, hq, hqpty, hold⟩ := hruns q' hq' hruns'
    exact hqpty ▸ hall q hq hold
  | endSessionRow old facts =>
    intro hid p' hp' hruns' hsaid
    obtain ⟨p, hp, hpty, hold⟩ := hruns p' hp' hruns'
    exact h hid p hp hold (htold p hp hold (hpty ▸ hsaid))
  | endSessions alive known seen =>
    intro p' hp' hruns' hsaid
    obtain ⟨p, hp, hpty, hold⟩ := hruns p' hp' hruns'
    exact hpty ▸ h p hp hold (htold p hp hold (hpty ▸ hsaid))
  | _ => trivial

variable (ht : Tended id s) (hc : Cleared id s) (hk : s.threads[k]? = some (job :: rest))
  (h : perform s.world ok job = some (w, jobs))
include h

theorem perform_there : ∀ p ∈ s.world.daemon.processes,
    ∃ p' ∈ w.daemon.processes, p'.pty = p.pty := by
  intro p hp
  obtain ⟨p', hp', hages⟩ := (perform_grows h).kept p hp
  exact ⟨p', hp', hages.pty⟩

include hc hk

/-- A statement that is still to be made by another thread, or later, relies on no less. -/
theorem other_clear (horder : job.InOrder id s ok) {j : Job} (hclear : j.Clear id s.world)
    (hj : j ∈ rest ∨ ∃ js ∈ s.threads.eraseIdx k, j ∈ js) : j.Clear id w := by
  have hthere := perform_there h
  have hmem : ∃ js ∈ s.threads, j ∈ js := by
    obtain hrest | ⟨js, hjs, hjmem⟩ := hj
    · exact ⟨_, mem_of_getElem? hk, mem_cons_of_mem _ hrest⟩
    · exact ⟨js, (eraseIdx_sublist ..).subset hjs, hjmem⟩
  have hother : job.underWay id = true → j.underWay id = false := by
    intro hunder
    by_contra hjunder
    rw [Bool.not_eq_false] at hjunder
    have := underWay_pos hk hunder hj hjunder
    have := hc.under
    omega
  by_cases hspawn : ∃ l, job = .spawn l ∧ l.record.id = some id
  -- A process of the record is spawned: no other call is between its read and its mark, and the
  -- record does not say its PTY.
  · obtain ⟨l, rfl, hid⟩ := hspawn
    have hunder := hother (by simp [Job.underWay, hid])
    have htold : ∀ pty, Says w id pty → Says s.world id pty := by
      intro pty hsaid
      obtain hold | ⟨r, heq, -⟩ := perform_says_cases h hsaid
      · exact hold
      · cases heq
    have hold : ∀ p ∈ w.daemon.processes, Says w id p.pty → p ∈ s.world.daemon.processes := by
      intro p hp hsaid
      obtain hold | ⟨l', heq, rfl, rfl, -⟩ := perform_spawned h hp
      · exact hold
      · cases heq
        obtain ⟨q, hq, hqpty⟩ := hc.spawned _ (htold _ hsaid)
        exact absurd hqpty ((spawn_fresh h).2 q hq)
    cases j with
    | begin l' | spawn l' | record r pty =>
      intro hjid
      simp [Job.underWay, hjid] at hunder
    | endSessionRow old facts =>
      intro hjid p hp hruns hsaid
      exact hclear hjid p (hold p hp hsaid) hruns (htold _ hsaid)
    | endSessions alive known seen =>
      intro p hp hruns hsaid
      exact hclear p (hold p hp hsaid) hruns (htold _ hsaid)
    | _ => trivial
  · have hruns : ∀ p' ∈ w.daemon.processes, p'.runsFor id →
        ∃ p ∈ s.world.daemon.processes, p.pty = p'.pty ∧ p.runsFor id := by
      intro p' hp' hruns'
      obtain hold | ⟨l, rfl, -, rfl, -⟩ := perform_spawned h hp'
      · exact ⟨p', hold, rfl, hruns'⟩
      · exact absurd ⟨l, rfl, hruns'.1⟩ hspawn
    by_cases hmark : ∃ r pty, job = .record r pty ∧ r.id = some id ∧ RunsUnder s.world id pty
    -- The record is marked with a process that runs: nothing that would end it is left.
    · obtain ⟨r, pty, rfl, hid, hunder⟩ := hmark
      obtain ⟨js, hjs, hjmem⟩ := hmem
      have hspares := (horder hid hunder).2 js hjs j hjmem
      have hone := (hc.jobs _ (mem_of_getElem? hk) _ mem_cons_self hid).2
      have hnot := hother (by simp [Job.underWay, hid])
      cases j with
      | begin l | spawn l | record r' pty' =>
        intro hjid
        simp [Job.underWay, hjid] at hnot
      | endSessionRow old facts =>
        intro hjid
        simp [Job.spares, hjid] at hspares
      | endSessions alive known seen =>
        intro p' hp' hruns' _
        obtain ⟨p, hp, hpty, hold⟩ := hruns p' hp' hruns'
        rw [← hpty, hone p hp hold]
        simpa [Job.spares] using hspares
      | _ => trivial
    · refine hclear.mono hruns hthere fun p hp hold hsaid => ?_
      obtain htold | ⟨r, rfl, hid, -⟩ := perform_says_cases h hsaid
      · exact htold
      · exact absurd ⟨r, p.pty, rfl, hid, p, hp, rfl, hold⟩ hmark

include ht

theorem put_clear (horder : job.InOrder id s ok) : ∀ j ∈ jobs, j.Clear id w := by
  have hclear := hc.jobs _ (mem_of_getElem? hk) job mem_cons_self
  have hsound := hc.sound.jobs _ (mem_of_getElem? hk) job mem_cons_self
  intro j hj
  cases job with
  | resume l =>
    obtain ⟨rfl, rfl | ⟨rfl, hok, row, hrow, hended⟩⟩ := resume_begins h
    · cases hj
    · obtain rfl := mem_singleton.mp hj
      intro hid p hp hruns
      rw [hid] at hrow
      have hfound := List.find?_some hrow
      have hmem := mem_of_find?_eq_some hrow
      have hrowid : row.id = id := by simpa using hfound
      -- the record was found ended, so no other call is before its mark
      have hnone : ¬ UnderWay s id := by
        refine horder hid hok ?_
        rw [show s.world.store.session id = some row from hrow, any_some, hended]
        rfl
      obtain ⟨other, hother, hotherid, hrunning, -⟩ | ⟨js, hjs, job, hjob, hmarks⟩ |
        ⟨hunknown, -⟩ := ht.said p hp hruns
      · obtain rfl := s.world.store.session_unique hother hmem (hotherid.trans hrowid.symm)
        rw [hended] at hrunning
        cases hrunning
      · obtain ⟨r, rfl, hr⟩ := Job.marks_record hmarks
        exact hnone ⟨js, hjs, _, hjob, by simp [Job.underWay, hr]⟩
      · exact hunknown (mem_map.mpr ⟨row, hmem, hrowid⟩)
  | begin l =>
    obtain ⟨l', rfl, hrecord⟩ := begin_spawns h
    obtain rfl := mem_singleton.mp hj
    intro hid p hp
    obtain hold | ⟨_, heq, -⟩ := perform_spawned h hp
    · exact hclear (hrecord ▸ hid) p hold
    · cases heq
  | spawn l =>
    have hput := perform_puts h j hj
    cases j with
    | record r pty =>
      obtain ⟨rfl, rfl⟩ := hput
      intro hid
      cases ok with
      | false =>
        dsimp only [perform] at h
        split at h
        · cases ‹false = true›
        · split at h <;> obtain ⟨-, rfl⟩ := Prod.mk.inj (Option.some.inj h) <;> simp at hj
      | true =>
        refine ⟨(spawn_fresh h).1, fun p hp hruns => ?_⟩
        obtain hold | ⟨l', heq, -, rfl, -⟩ := perform_spawned h hp
        · exact absurd hruns (hclear hid p hold)
        · rw [Job.spawn.inj heq]
    | _ => trivial
  | endSession pty facts =>
    dsimp only [perform] at h
    split at h <;> cases h
    · cases hj
    · rename_i found hfound
      obtain rfl := mem_singleton.mp hj
      rintro rfl p hp hruns ⟨row, hrow, hid, -, hpty⟩
      split at hfound
      · obtain ⟨other, hother, rfl⟩ := map_eq_some_iff.mp hfound
        obtain rfl := s.world.store.session_unique hrow (mem_of_find?_eq_some hother) hid
        have hsaid : row.ptySessionId = some pty := by
          have hboth := List.find?_some hother
          rw [Bool.and_eq_true] at hboth
          simpa using hboth.1
        -- Its exit was reported, so its process does not run.
        obtain ⟨q, hq, hqpty, exit, hlife, -⟩ := hsound
        have hsame := Option.some.inj (hpty.symm.trans hsaid)
        obtain rfl := Daemon.unique hp hq (.inl (hsame.trans hqpty.symm))
        rw [hruns.2] at hlife
        cases hlife
      · cases hfound
  | list seen =>
    cases h
    obtain rfl := mem_singleton.mp hj
    intro p hp hruns hsaid
    cases ok with
    | false => exact absurd hsaid (horder rfl p hp hruns)
    | true => exact mem_map_of_mem hp
  | _ =>
    have hput := perform_puts h j hj
    cases j <;> trivial

/-- **In order, a statement leaves the others what they rely on.** -/
theorem does_cleared (horder : job.InOrder id s ok)
    (hsound : System.Sound ⟨w, s.threads.set k (jobs ++ rest)⟩) :
    Cleared id ⟨w, s.threads.set k (jobs ++ rest)⟩ := by
  refine ⟨hsound, ?_, ?_, ?_⟩
  · have hcount := does_count hk jobs (·.underWay id)
    have hunder := hc.under
    unfold underWay at hunder ⊢
    dsimp only
    obtain hle | ⟨l, row, rfl, rfl, hok, hid, hrow, hended⟩ := perform_underWay h id
    · omega
    -- A resume goes on with the record: it is the only call to.
    · have hnone : ¬ UnderWay s id := by
        refine horder hid hok ?_
        rw [hrow, any_some, hended]
        rfl
      have hzero : s.threads.flatten.countP (·.underWay id) = 0 := by
        rw [countP_eq_zero]
        intro j hj hjunder
        obtain ⟨js, hjs, hjmem⟩ := mem_flatten.mp hj
        exact hnone ⟨js, hjs, j, hjmem, hjunder⟩
      have hone : [Job.begin l].countP (·.underWay id) ≤ 1 := List.countP_le_length
      omega
  · intro js hjs j hj
    obtain rfl | hother := mem_set_erase hk hjs
    · obtain hput | hrest := mem_append.mp hj
      · exact put_clear ht hc hk h horder j hput
      · exact other_clear hc hk h horder (hc.jobs _ (mem_of_getElem? hk) j (mem_cons_of_mem _ hrest))
          (.inl hrest)
    · exact other_clear hc hk h horder (hc.jobs js ((eraseIdx_sublist ..).subset hother) j hj)
        (.inr ⟨js, hother, hj⟩)
  · intro pty hsaid
    have hthere : ∃ p ∈ s.world.daemon.processes, p.pty = pty := by
      obtain hold | ⟨r, rfl, hid, -⟩ := perform_says_cases h hsaid
      · exact hc.spawned pty hold
      · exact (hc.jobs _ (mem_of_getElem? hk) _ mem_cons_self hid).1
    obtain ⟨p, hp, hpty⟩ := hthere
    obtain ⟨p', hp', heq⟩ := perform_there h p hp
    exact ⟨p', hp', heq.trans hpty⟩

end

/-! ## The other steps -/

def Started (a : Act) (jobs : List Job) : Prop :=
  (∃ call, a = .calls call ∧ jobs = call.jobs) ∨ ∃ pty exit, jobs = liveJobs pty exit

section
variable {s s' : System} {id : String} {a : Act} (ht : Tended id s) (h : step s a = some s')
  (ha : ∀ k ok, a ≠ .does k ok) (hstep : InStep id s a)
include h ha

theorem beside_runs {p' : Process} (hp' : p' ∈ s'.world.daemon.processes)
    (hruns : p'.runsFor id) : ∃ p ∈ s.world.daemon.processes, p.pty = p'.pty ∧ p.runsFor id := by
  obtain ⟨p, hp, hages, -⟩ := (step_around h ha).was p' hp'
  refine ⟨p, hp, hages.pty.symm, hages.record.symm.trans hruns.1, ?_⟩
  obtain hrunning | hsame := hages.life
  · exact hrunning
  · exact hsame ▸ hruns.2

theorem beside_calls : s'.threads = s.threads ∨
    (∃ k, a = .dies k ∧ s'.threads = s.threads.set k []) ∨
    ∃ jobs, Started a jobs ∧ s'.threads = s.threads ++ [jobs] := by
  cases a with
  | does k ok => exact absurd rfl (ha k ok)
  | calls call =>
    cases h
    exact .inr (.inr ⟨_, .inl ⟨call, rfl, rfl⟩, rfl⟩)
  | dies k =>
    cases h
    exact .inr (.inl ⟨k, rfl, rfl⟩)
  | _ =>
    unfold Started
    dsimp only [step] at h
    grind

theorem beside_mem {js : List Job} (hjs : js ∈ s'.threads) {job : Job} (hjob : job ∈ js) :
    (∃ js ∈ s.threads, job ∈ js) ∨ ∃ jobs, Started a jobs ∧ job ∈ jobs := by
  obtain hsame | ⟨k, -, hdead⟩ | ⟨jobs, hjobs, hnew⟩ := beside_calls h ha
  · exact .inl ⟨js, hsame ▸ hjs, hjob⟩
  · obtain hold | rfl := mem_or_eq_of_mem_set (hdead ▸ hjs)
    · exact .inl ⟨js, hold, hjob⟩
    · cases hjob
  · obtain hold | rfl := mem_snoc.mp (hnew ▸ hjs)
    · exact .inl ⟨js, hold, hjob⟩
    · exact .inr ⟨js, hjobs, hjob⟩

omit h ha
include hstep

theorem began {jobs : List Job} (hjobs : Started a jobs) :
    (∀ job ∈ jobs, job.keeps id = false) ∧
      (jobs.countP (·.draws id) = 0 ∨ (Unheard s id ∧ jobs.countP (·.draws id) = 1)) := by
  have hnone : ∀ {jobs : List Job}, (∀ job ∈ jobs, job.keeps id = false ∧ job.draws id = false) →
      (∀ job ∈ jobs, job.keeps id = false) ∧ (jobs.countP (·.draws id) = 0 ∨
        (Unheard s id ∧ jobs.countP (·.draws id) = 1)) := by
    intro jobs hall
    refine ⟨fun job hjob => (hall job hjob).1, .inl (countP_eq_zero.mpr fun job hjob => ?_)⟩
    simp [(hall job hjob).2]
  obtain ⟨call, rfl, rfl⟩ | ⟨pty, exit, rfl⟩ := hjobs
  · have hdrawn := hstep.drawn
    cases call with
    | launch l =>
      obtain ⟨run, pty, record⟩ := l
      cases record with
      | none => exact hnone (by simp [Call.jobs, Job.keeps, Job.draws])
      | new new =>
        by_cases hid : new = id
        · refine ⟨by simp [Call.jobs, Job.keeps], .inr ⟨hdrawn hid, ?_⟩⟩
          simp [Call.jobs, Job.draws, hid]
        · exact hnone (by simp [Call.jobs, Job.keeps, Job.draws, hid])
      | old old => exact hdrawn.elim
    | resume l =>
      refine hnone ?_
      intro job hjob
      obtain rfl := mem_singleton.mp hjob
      refine ⟨rfl, ?_⟩
      by_contra hdraws
      have hnew : l.record = .new id := by simpa [Job.draws] using hdraws
      have hold : l.record = .old id := hdrawn (by rw [hnew]; rfl)
      rw [hnew] at hold
      cases hold
    | drain | start => exact hnone (by simp [Call.jobs, Job.keeps, Job.draws])
  · exact hnone (by simp [liveJobs, Job.keeps, Job.draws])

include h ha

theorem beside_drawing : drawing s' id ≤ drawing s id ∨
    (Unheard s id ∧ drawing s id = 0 ∧ drawing s' id = 1) := by
  obtain hsame | ⟨k, -, hdead⟩ | ⟨jobs, hjobs, hnew⟩ := beside_calls h ha
  · exact .inl (by simp [drawing, hsame])
  · refine .inl ?_
    unfold drawing
    rw [hdead]
    exact dies_count ..
  · have hsum : drawing s' id = drawing s id + jobs.countP (·.draws id) := by simp [drawing, hnew]
    obtain ⟨-, hzero | ⟨hunheard, hone⟩⟩ := began hstep hjobs
    · exact .inl (by omega)
    -- no launch under way draws an id that is new
    · have hzero : drawing s id = 0 := by
        unfold drawing
        rw [countP_eq_zero]
        intro job hjob
        obtain ⟨js, hjs, hmem⟩ := mem_flatten.mp hjob
        simp [hunheard.jobs js hjs job hmem]
      exact .inr ⟨hunheard, hzero, by omega⟩

theorem beside_marking {p : Process} (hp : p ∈ s.world.daemon.processes) (hruns : p.runsFor id)
    (hm : Marking s id p.pty) : Marking s' id p.pty := by
  obtain ⟨js, hjs, job, hjob, hmarks⟩ := hm
  obtain hsame | ⟨k, rfl, hdead⟩ | ⟨jobs, -, hnew⟩ := beside_calls h ha
  · exact ⟨js, hsame ▸ hjs, job, hjob, hmarks⟩
  · obtain ⟨i, hi⟩ := mem_iff_getElem?.mp hjs
    -- the thread that crashes has no such mark left
    have hik : i ≠ k := by
      rintro rfl
      have hgiven := hstep.order js hi p hp hruns job hjob
      rw [hmarks] at hgiven
      cases hgiven
    refine ⟨js, ?_, job, hjob, hmarks⟩
    rw [hdead]
    exact mem_of_getElem? ((get_set_ne hik).trans hi)
  · exact ⟨js, hnew ▸ mem_append_left _ hjs, job, hjob, hmarks⟩

include ht

theorem beside_tended : Tended id s' := by
  have hstore := (step_beside h ha).store
  have htells : ∀ pty, Says s.world id pty → Says s'.world id pty := by
    intro pty htells
    unfold Says
    rwa [hstore]
  have hknown : Known s'.world id ↔ Known s.world id := by
    unfold Known
    rw [hstore]
  have hdrawing := beside_drawing h ha hstep
  have hone := ht.drawn
  constructor
  · intro p' hp' hpruns q' hq' hqruns
    obtain ⟨p, hp, hppty, hpruns⟩ := beside_runs h ha hp' hpruns
    obtain ⟨q, hq, hqpty, hqruns⟩ := beside_runs h ha hq' hqruns
    exact hppty ▸ hqpty ▸ ht.one p hp hpruns q hq hqruns
  · intro p' hp' hruns
    obtain ⟨p, hp, hpty, hruns⟩ := beside_runs h ha hp' hruns
    rw [← hpty]
    obtain hsaid | hmarking | ⟨hunknown, hzero⟩ := ht.said p hp hruns
    · exact .inl (htells _ hsaid)
    · exact .inr (.inl (beside_marking h ha hstep hp hruns hmarking))
    · obtain hle | ⟨hunheard, -, -⟩ := hdrawing
      · exact .inr (.inr ⟨fun h => hunknown (hknown.mp h), by omega⟩)
      -- an id just drawn has no process
      · exact absurd hruns.1 (hunheard.processes p hp)
  · obtain hle | ⟨-, -, hnow⟩ := hdrawing <;> omega
  · intro hdrawn h
    obtain hle | ⟨hunheard, -, -⟩ := hdrawing
    · exact ht.unknown (by omega) (hknown.mp h)
    · exact hunheard.record (hknown.mp h)
  · intro js hjs job hjob hkeeps
    refine hknown.mpr ?_
    obtain hold | ⟨jobs, hjobs, hmem⟩ := beside_mem h ha hjs hjob
    · obtain ⟨js, hjs, hmem⟩ := hold
      exact ht.known js hjs job hmem hkeeps
    · have hnone := (began hstep hjobs).1 job hmem
      rw [hkeeps] at hnone
      cases hnone

end

section
variable {s s' : System} {id : String} {a : Act} (h : step s a = some s')
  (ha : ∀ k ok, a ≠ .does k ok)
include h ha

omit h ha in
theorem began_clear {jobs : List Job} (hjobs : Started a jobs) (hstep : InStep id s a) :
    ∀ job ∈ jobs, job.Clear id s.world := by
  obtain ⟨call, rfl, rfl⟩ | ⟨pty, exit, rfl⟩ := hjobs
  · have hdrawn := hstep.drawn
    cases call with
    | launch l =>
      intro job hjob
      obtain rfl := mem_singleton.mp hjob
      intro hid p hp hruns
      obtain ⟨run, pty, record⟩ := l
      cases record with
      | none => cases hid
      | new new => exact (hdrawn (Option.some.inj hid)).processes p hp hruns.1
      | old old => exact hdrawn.elim
    | resume l | drain | start =>
      intro job hjob
      obtain rfl := mem_singleton.mp hjob
      trivial
  · intro job hjob
    simp only [liveJobs, mem_cons, not_mem_nil, or_false] at hjob
    obtain rfl | rfl | rfl := hjob <;> trivial

omit h ha in
theorem Job.draws_or_keeps {job : Job} (hunder : job.underWay id = true)
    (hkeep : job.keeps id = false) : job.draws id = true := by
  cases job with
  | begin l | spawn l =>
    cases hr : l.record <;> simp_all [Job.underWay, Job.draws, Job.keeps, Record.id]
  | record r pty => cases r <;> simp_all [Job.underWay, Job.draws, Job.keeps, Record.id]
  | _ => cases hunder

theorem beside_underWay (ht : Tended id s) (hunder : underWay s id ≤ 1) (hstep : InStep id s a) :
    underWay s' id ≤ 1 := by
  obtain hsame | ⟨k, -, hdead⟩ | ⟨jobs, hjobs, hnew⟩ := beside_calls h ha
  · unfold underWay at hunder ⊢
    rwa [hsame]
  · unfold underWay at hunder ⊢
    rw [hdead]
    exact Nat.le_trans (dies_count ..) hunder
  · have hsum : underWay s' id = underWay s id + jobs.countP (·.underWay id) := by
      simp [underWay, hnew]
    obtain ⟨hkeeps, hdraws⟩ := began hstep hjobs
    -- What is under way in a new thread draws the id.
    have hle : jobs.countP (·.underWay id) ≤ jobs.countP (·.draws id) := by
      refine List.countP_mono_left fun job hjob hunder => ?_
      exact Job.draws_or_keeps hunder (hkeeps job hjob)
    obtain hzero | ⟨hunheard, hone⟩ := hdraws
    · omega
    -- nor is there a call of the id before its mark
    · have hzero : underWay s id = 0 := by
        unfold underWay
        rw [countP_eq_zero]
        intro job hjob hjunder
        obtain ⟨js, hjs, hmem⟩ := mem_flatten.mp hjob
        have hkeep : job.keeps id = false := by
          by_contra hkeep
          exact hunheard.record (ht.known js hjs job hmem (by simpa using hkeep))
        have hdraw := hunheard.jobs js hjs job hmem
        rw [Job.draws_or_keeps hjunder hkeep] at hdraw
        cases hdraw
      omega

theorem beside_cleared (ht : Tended id s) (hc : Cleared id s) (hstep : InStep id s a) :
    Cleared id s' := by
  have hstore := (step_beside h ha).store
  have htold : ∀ pty, Says s'.world id pty ↔ Says s.world id pty := by
    intro pty
    unfold Says
    rw [hstore]
  have hthere : ∀ p ∈ s.world.daemon.processes,
      ∃ p' ∈ s'.world.daemon.processes, p'.pty = p.pty := by
    intro p hp
    obtain ⟨p', hp', hages⟩ := (step_beside h ha).grows.kept p hp
    exact ⟨p', hp', hages.pty⟩
  have hmono : ∀ {job : Job}, job.Clear id s.world → job.Clear id s'.world := fun hclear =>
    hclear.mono (fun _ hp' hruns => beside_runs h ha hp' hruns) hthere fun _ _ _ hsaid =>
      (htold _).mp hsaid
  refine ⟨step_sound h hc.sound, beside_underWay h ha ht hc.under hstep, ?_, ?_⟩
  · intro js hjs job hjob
    obtain ⟨js, hjs, hmem⟩ | ⟨jobs, hjobs, hmem⟩ := beside_mem h ha hjs hjob
    · exact hmono (hc.jobs js hjs job hmem)
    · exact hmono (began_clear hjobs hstep job hmem)
  · intro pty hsaid
    obtain ⟨p, hp, hpty⟩ := hc.spawned pty ((htold pty).mp hsaid)
    obtain ⟨p', hp', heq⟩ := hthere p hp
    exact ⟨p', hp', heq.trans hpty⟩

end

theorem step_tended {id : String} {s s' : System} {a : Act} (h : step s a = some s')
    (hstep : InStep id s a) (ht : Tended id s) (hc : Cleared id s) :
    Tended id s' ∧ Cleared id s' := by
  by_cases ha : ∃ k ok, a = .does k ok
  · obtain ⟨k, ok, rfl⟩ := ha
    obtain ⟨job, rest, w, jobs, hk, hperform, rfl⟩ := does_cases h
    have horder : job.InOrder id s ok := hstep.order job (by simp [hk])
    exact ⟨does_tended ht hk hperform (hc.minds hk horder),
      does_cleared ht hc hk hperform horder (step_sound h hc.sound)⟩
  · have ha' : ∀ k ok, a ≠ .does k ok := fun k ok heq => ha ⟨k, ok, heq⟩
    exact ⟨beside_tended ht h ha' hstep, beside_cleared h ha' ht hc hstep⟩

theorem empty_cleared (id : String) : Cleared id .empty where
  sound := empty_sound
  under := Nat.zero_le _
  jobs := fun _ hjobs => (not_mem_nil hjobs).elim
  spawned := by
    rintro pty ⟨row, hrow, -⟩
    cases hrow

theorem empty_tended (id : String) : Tended id .empty where
  one := fun _ hp => (not_mem_nil hp).elim
  said := fun _ hp => (not_mem_nil hp).elim
  drawn := Nat.zero_le _
  unknown := fun h => nomatch h
  known := fun _ hjobs => (not_mem_nil hjobs).elim

structure RunsOnce (id : String) (s : System) : Prop where
  /-- At most one process started on behalf of the record is running. -/
  one : ∀ p ∈ s.world.daemon.processes, p.runsFor id →
    ∀ q ∈ s.world.daemon.processes, q.runsFor id → p = q
  /-- Once all calls have returned, the record says so of one that is running. -/
  said : Returned s id → Known s.world id →
    ∀ p ∈ s.world.daemon.processes, p.runsFor id → Says s.world id p.pty

theorem Tended.runsOnce {id : String} {s : System} (ht : Tended id s) : RunsOnce id s := by
  constructor
  · intro p hp hpruns q hq hqruns
    exact Daemon.unique hp hq (.inl (ht.one p hp hpruns q hq hqruns))
  · intro hreturned hknown p hp hruns
    obtain htells | ⟨js, hjs, job, hjob, hmarks⟩ | ⟨hunknown, -⟩ := ht.said p hp hruns
    · exact htells
    · obtain ⟨r, rfl, hr⟩ := Job.marks_record hmarks
      have hnone := hreturned js hjs _ hjob
      simp [Job.concerns, hr] at hnone
    · exact absurd hknown hunknown

/-- **A record runs once.** In every run whose steps are in order for the record, at most one
    process started on its behalf is running in every state, and whenever one is and all calls have
    returned, the record says that it runs, with that PTY. -/
theorem resumed_once (id : String) {s : System} {as : List Act}
    (hm : Meets step (InStep id) .empty as) (hr : Lib.run step .empty as = some s) :
    RunsOnce id s := by
  have hkeeps : ∀ s a s', (Tended id s ∧ Cleared id s) → InStep id s a → step s a = some s' →
      Tended id s' ∧ Cleared id s' := fun _ _ _ hinv hstep h => step_tended h hstep hinv.1 hinv.2
  exact (hm.invariant hkeeps hr ⟨empty_tended id, empty_cleared id⟩).1.runsOnce

/-- A conversation is launched, its process ends, and a client that was told ends the record. -/
def endedRecord : List Act :=
  [.calls (.launch ⟨none, "p0", .new "r"⟩), .does 0 true, .does 0 true, .does 0 true, .does 0 true,
    .exits "p0" ⟨0, true, none⟩, .spools "p0" true true 7, .announces "p0", .does 1 true,
    .does 1 true]

def resumedRecord : List Act :=
  [.calls (.resume ⟨none, "p1", .old "r"⟩), .does 2 true, .does 2 true, .does 2 true, .does 2 true,
    .does 2 true]

theorem resumed_once_one : ∃ s, Lib.run step .empty (endedRecord ++ resumedRecord) = some s ∧
    (∃ p ∈ s.world.daemon.processes, p.runsFor "r" ∧ p.pty = "p1") ∧ RunsOnce "r" s := by
  have hmeets : meets step (fun s a => decide (InStep "r" s a)) .empty
      (endedRecord ++ resumedRecord) = true := by decide +kernel
  have hstate : (Lib.run step .empty (endedRecord ++ resumedRecord)).any (fun s =>
      decide (∃ p ∈ s.world.daemon.processes, p.runsFor "r" ∧ p.pty = "p1")) = true := by
    decide +kernel
  obtain ⟨s, hs, hp⟩ := (any_eq_true _ _).mp hstate
  have hinstep : Meets step (InStep "r") .empty (endedRecord ++ resumedRecord) := by
    simpa only [decide_eq_true_eq] using meets_iff.mp hmeets
  exact ⟨s, hs, of_decide_eq_true hp, resumed_once "r" hinstep hs⟩

/-- It is resumed by two calls, and both read it before either marks it. -/
def resumedTwice : List Act :=
  [.calls (.resume ⟨none, "p1", .old "r"⟩), .calls (.resume ⟨none, "p2", .old "r"⟩), .does 2 true,
    .does 3 true, .does 2 true, .does 2 true, .does 2 true, .does 3 true, .does 3 true]

def resumedProcess (pty : String) : Process :=
  ⟨pty, none, some "r", .running, true, .waiting, false⟩

/-- Two resumes of one record may both start a process. -/
theorem resumed_twice : ¬ ∀ id as s, Meets step (Drawn id) .empty as →
    Lib.run step .empty as = some s → RunsOnce id s := by
  intro h
  have hmeets : meets step (fun s a => decide (Drawn "r" s a)) .empty
      (endedRecord ++ resumedTwice) = true := by decide +kernel
  have hstate : (Lib.run step .empty (endedRecord ++ resumedTwice)).any (fun s =>
      decide (resumedProcess "p1" ∈ s.world.daemon.processes ∧
        resumedProcess "p2" ∈ s.world.daemon.processes)) = true := by
    decide +kernel
  obtain ⟨s, hs, hp⟩ := (any_eq_true _ _).mp hstate
  obtain ⟨hone, htwo⟩ := of_decide_eq_true hp
  have hdrawn : Meets step (Drawn "r") .empty (endedRecord ++ resumedTwice) := by
    simpa only [decide_eq_true_eq] using meets_iff.mp hmeets
  have hsame := (h "r" _ s hdrawn hs).one _ hone ⟨rfl, rfl⟩ _ htwo ⟨rfl, rfl⟩
  simp [resumedProcess] at hsame

end Yardsort.Activity
