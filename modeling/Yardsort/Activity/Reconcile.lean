import Yardsort.Activity.Effects

/- Settling what only claims to be running, at a client's start: the list of live PTYs is asked for
   once, and `end_interrupted_sessions` and `end_interrupted_runs` are given it later. Another
   client may launch or resume in between, so whether the updates leave what is running alone is a
   matter of what was attached by then: `spares_iff` says exactly when they do. -/
namespace Yardsort.Activity
open Yardsort.Lib

/-- No record and no run whose process is running is ended as interrupted by a step. A record's
    process is the one its row names, a run's the one that was spawned for it. -/
structure Spares (s s' : System) : Prop where
  sessions : ∀ p ∈ s.world.daemon.processes, p.running → ∀ row ∈ s.world.store.sessions,
    row.running = true → row.ptySessionId = some p.pty →
      ∀ row' ∈ s'.world.store.sessions, row'.id = row.id →
        row'.running = true ∨ row'.exitCode ≠ none
  runs : ∀ p ∈ s.world.daemon.processes, p.running → ∀ row ∈ s.world.store.runs,
    row.isOpen = true → p.run = some row.id →
      ∀ row' ∈ s'.world.store.runs, row'.id = row.id →
        row'.isOpen = true ∨ row'.endReason ≠ some .interrupted

/-- When the sessions update runs, every record that names a running process names one that the
    list could hold. -/
def SessionsInTime (w : World) (known : List String) : Prop :=
  ∀ p ∈ w.daemon.processes, p.running → ∀ row ∈ w.store.sessions, row.running = true →
    row.ptySessionId = some p.pty → p.pty ∈ known

/-- When the runs update runs, every open run of a running process has a PTY the list could hold, or
    none yet and is within the grace. -/
def RunsInTime (w : World) (known : List String) : Prop :=
  ∀ p ∈ w.daemon.processes, p.running → ∀ row ∈ w.store.runs, row.isOpen = true →
    p.run = some row.id → match row.ptySessionId with
      | some pty => pty ∈ known
      | none => w.now - PENDING_GRACE_MS ≤ row.startedAt

def InTime (s : System) : Act → Prop
  | .does thread true =>
    match s.threads[thread]? with
    | some (.endSessions _ known _ :: _) => SessionsInTime s.world known
    | some (.endRuns _ known _ :: _) => RunsInTime s.world known
    | _ => True
  | _ => True

section
variable {s s' : System}

theorem Spares.same (hsessions : s'.world.store.sessions = s.world.store.sessions)
    (hruns : s'.world.store.runs = s.world.store.runs) : Spares s s' := by
  refine ⟨fun p _ _ row hrow hrunning _ row' hrow' hid => ?_,
    fun p _ _ row hrow hopen _ row' hrow' hid => ?_⟩
  · rw [hsessions] at hrow'
    obtain rfl := s.world.store.session_unique hrow' hrow hid
    exact .inl hrunning
  · rw [hruns] at hrow'
    obtain rfl := s.world.store.run_unique hrow' hrow hid
    exact .inl hopen

end

section
variable {w w' : World} {ok : Bool} {job : Job} {jobs : List Job}

theorem perform_spares (h : perform w ok job = some (w', jobs)) (hw : w.Sound)
    (hjob : job.Sound w.daemon.processes)
    (hsessions : ∀ alive known seen, job = .endSessions alive known seen → SessionsInTime w known)
    (hruns : ∀ alive known seen, job = .endRuns alive known seen → RunsInTime w known)
    (threads threads' : List (List Job)) : Spares ⟨w, threads⟩ ⟨w', threads'⟩ := by
  refine ⟨fun p hp hrunning row hrow hrow_running hpty row' hrow' hid => ?_,
    fun p hp hrunning row hrow hopen hrun row' hrow' hid => ?_⟩
  · have hmove := (perform_sessions h).was hrow hrow' hid
    cases hmove with
    | stays => exact .inl hrow_running
    | marked _ _ => exact .inl rfl
    | exits _ facts =>
      right
      intro hnone
      have hsome : facts.code.isSome = true := hjob
      rw [show facts.code = none from hnone] at hsome
      cases hsome
    | cut _ alive known seen hcut =>
      have hknown := hsessions alive known seen rfl p hp hrunning row hrow hrow_running hpty
      have halive := hjob.1.live p hp hknown ((hw.processes p hp).waits hrunning)
      simp [SessionRow.interrupted, hpty, halive] at hcut
  · have hmove := (perform_runs h).was hrow hrow' hid
    cases hmove with
    | stays | attaches _ _ | adopts _ _ => exact .inl hopen
    | exits _ pty facts _ _ _ _ =>
      right
      rw [RunRow.ended_reason, hjob.1.code]
      simp
    | fails _ _ => exact .inr (by simp)
    | cut _ alive known seen _ hcut =>
      have hknown := hruns alive known seen rfl p hp hrunning row hrow hopen hrun
      unfold RunRow.interrupted at hcut
      cases hptyOf : row.ptySessionId with
      | none =>
        rw [hptyOf] at hknown hcut
        simp only [Bool.and_eq_true, decide_eq_true_eq] at hcut
        omega
      | some pty =>
        rw [hptyOf] at hknown hcut
        obtain rfl := hw.run_pty hp hrow hrun hptyOf
        have halive := hjob.1.live p hp hknown ((hw.processes p hp).waits hrunning)
        simp [halive] at hcut

theorem endSessions_in_time {alive known seen : List String} {threads threads' : List (List Job)}
    (h : perform w true (.endSessions alive known seen) = some (w', jobs))
    (hjob : Listing w.daemon.processes alive known)
    (hspares : Spares ⟨w, threads⟩ ⟨w', threads'⟩) : SessionsInTime w known := by
  intro p hp hrunning row hrow hrow_running hpty
  by_contra hknown
  have halive : p.pty ∉ alive := fun halive => hknown (hjob.holds _ halive)
  have hcut : row.interrupted alive = true := by
    simp [SessionRow.interrupted, hrow_running, hpty, halive]
  cases h
  have hmem : row.cutShort w.now ∈ (w.store.endInterruptedSessions alive w.now).sessions :=
    mem_map.mpr ⟨row, hrow, by rw [if_pos hcut]⟩
  obtain hstill | hcode :=
    hspares.sessions p hp hrunning row hrow hrow_running hpty _ hmem rfl
  · cases hstill
  · exact hcode rfl

theorem endRuns_in_time {alive known seen : List String} {threads threads' : List (List Job)}
    (h : perform w true (.endRuns alive known seen) = some (w', jobs))
    (hjob : Listing w.daemon.processes alive known)
    (hspares : Spares ⟨w, threads⟩ ⟨w', threads'⟩) : RunsInTime w known := by
  intro p hp hrunning row hrow hopen hrun
  have hspared : row.interrupted alive PENDING_GRACE_MS w.now = false := by
    by_contra hcut
    rw [Bool.not_eq_false] at hcut
    cases h
    have hmem : row.ended none .interrupted w.now ∈
        (w.store.endInterruptedRuns alive PENDING_GRACE_MS w.now).2.runs :=
      mem_map.mpr ⟨row, hrow, by rw [Store.endInterrupted, if_pos hcut]⟩
    obtain hstill | hreason := hspares.runs p hp hrunning row hrow hopen hrun _ hmem rfl
    · cases hstill
    · exact hreason rfl
  unfold RunRow.interrupted at hspared
  cases hpty : row.ptySessionId with
  | none =>
    rw [hpty] at hspared
    simp only [hopen, Bool.true_and, decide_eq_false_iff_not] at hspared
    show w.now - PENDING_GRACE_MS ≤ row.startedAt
    omega
  | some pty =>
    rw [hpty] at hspared
    simp only [hopen, Bool.true_and, decide_eq_false_iff_not, not_not] at hspared
    exact hjob.holds pty hspared

end

/-- **When a reconcile spares what is running.** Whatever the clients and the daemon did before, a
    step ends no record and no run of a running process as interrupted exactly when it is no update
    of a reconcile, or fails, or comes before anything that was spawned after the list was taken is
    attached, and before any launch waits longer than the grace. -/
theorem spares_iff {as : List Act} {s s' : System} {a : Act}
    (hrun : Lib.run step .empty as = some s) (h : step s a = some s') :
    Spares s s' ↔ InTime s a := by
  have hs := reached_sound hrun
  cases a with
  | does k ok =>
    obtain ⟨job, rest, w, jobs, hk, hperform, rfl⟩ := does_cases h
    have hjob := hs.jobs _ (mem_of_getElem? hk) job mem_cons_self
    cases ok with
    | false =>
      refine iff_of_true ?_ trivial
      cases job with
      | endSessions alive known seen | endRuns alive known seen =>
        cases hperform
        exact .same rfl rfl
      | _ =>
        exact perform_spares hperform hs.world hjob (fun _ _ _ heq => nomatch heq)
          (fun _ _ _ heq => nomatch heq) _ _
    | true =>
      unfold InTime
      dsimp only
      rw [hk]
      cases job with
      | endSessions alive known seen =>
        refine ⟨endSessions_in_time hperform hjob.1, fun hin => ?_⟩
        refine perform_spares hperform hs.world hjob ?_ (fun _ _ _ heq => nomatch heq) _ _
        rintro _ _ _ ⟨⟩
        exact hin
      | endRuns alive known seen =>
        refine ⟨endRuns_in_time hperform hjob.1, fun hin => ?_⟩
        refine perform_spares hperform hs.world hjob (fun _ _ _ heq => nomatch heq) ?_ _ _
        rintro _ _ _ ⟨⟩
        exact hin
      | _ =>
        refine iff_of_true ?_ trivial
        exact perform_spares hperform hs.world hjob (fun _ _ _ heq => nomatch heq)
          (fun _ _ _ heq => nomatch heq) _ _
  | _ =>
    have hstore := (step_beside h fun _ _ heq => nomatch heq).store
    exact iff_of_true (.same (by rw [hstore]) (by rw [hstore])) trivial

/-- A client launches a conversation; another starts, and its list holds the process. -/
def keptRun : List Act :=
  [.calls (.launch ⟨some "r1", "pty1", .new "c1"⟩), .does 0 true, .does 0 true, .does 0 true,
    .does 0 true, .does 0 true, .calls .start, .does 1 true, .does 1 true, .does 1 true]

/-- A client starts and is given its list; another launches. -/
def cutRun : List Act :=
  [.calls .start, .does 0 true, .does 0 true, .does 0 true,
    .calls (.launch ⟨some "r1", "pty1", .new "c1"⟩), .does 1 true, .does 1 true, .does 1 true,
    .does 1 true, .does 1 true]

def launched : Process := ⟨"pty1", some "r1", some "c1", .running, true, .waiting, false⟩

def launchedSession : SessionRow := ⟨"c1", true, none, some "pty1", 0, none⟩

theorem spares_iff_kept : ∃ s s', Lib.run step .empty keptRun = some s ∧
    step s (.does 1 true) = some s' ∧ Spares s s' := by
  have hsome : ((Lib.run step .empty keptRun).bind fun s => step s (.does 1 true)).isSome = true := by
    decide +kernel
  have hstate : ((Lib.run step .empty keptRun).map fun s =>
      (s.world.daemon.processes, s.threads[1]?)) = some ([launched], some
        [.endSessions ["pty1"] ["pty1"] []]) := by
    decide +kernel
  obtain ⟨s', hbind⟩ := isSome_iff_exists.mp hsome
  obtain ⟨s, hs, hstep⟩ := bind_eq_some_iff.mp hbind
  rw [hs, map_some, Option.some.injEq, Prod.mk.injEq] at hstate
  obtain ⟨hprocesses, hthread⟩ := hstate
  refine ⟨s, s', hs, hstep, (spares_iff hs hstep).mpr ?_⟩
  unfold InTime
  dsimp only
  rw [hthread]
  intro p hp _ _ _ _ _
  rw [hprocesses, mem_singleton] at hp
  rw [hp]
  decide

/-- A launch between the list and the update: the conversation is ended while it is running. -/
theorem ended_while_running : ∃ s s', Lib.run step .empty cutRun = some s ∧
    step s (.does 0 true) = some s' ∧ ¬ Spares s s' := by
  have hsome : ((Lib.run step .empty cutRun).bind fun s => step s (.does 0 true)).isSome = true := by
    decide +kernel
  have hbefore : ((Lib.run step .empty cutRun).map fun s =>
      (s.world.daemon.processes, s.world.store.sessions)) = some ([launched], [launchedSession]) := by
    decide +kernel
  have hafter : ((Lib.run step .empty cutRun).bind fun s => (step s (.does 0 true)).map
      (·.world.store.sessions)) = some [launchedSession.cutShort 0] := by
    decide +kernel
  obtain ⟨s', hbind⟩ := isSome_iff_exists.mp hsome
  obtain ⟨s, hs, hstep⟩ := bind_eq_some_iff.mp hbind
  rw [hs, map_some, Option.some.injEq, Prod.mk.injEq] at hbefore
  rw [hs, bind_some, hstep, map_some, Option.some.injEq] at hafter
  refine ⟨s, s', hs, hstep, fun hspares => ?_⟩
  have hspared := hspares.sessions launched (by simp [hbefore.1]) rfl launchedSession
    (by simp [hbefore.2]) rfl rfl (launchedSession.cutShort 0) (by simp [hafter]) rfl
  obtain hstill | hcode := hspared
  · cases hstill
  · exact hcode rfl

end Yardsort.Activity
