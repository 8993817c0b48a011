import Yardsort.Workflow.DriverRuns

/- One message a tick for a session.

   While a run is moved on the driver remembers the sessions it typed to, so a second message of the
   same run waits. It forgets them with the run: the next run of the same tick starts with none. So
   what keeps two messages of a tick apart is `typesAlone`, that no run types where another did; and
   then what the driver remembers is all there is to remember (`Apart`). -/
namespace Yardsort.Workflow
open Yardsort.Lib

def Deed.message (d : Deed) : Option (Nat × String) :=
  match d.effect with
  | .paste _ ptyId _ => some (d.tick, ptyId)
  | _ => none

/-- The messages typed, or that may have been, where the host did not say how it went. -/
def System.messages (s : System) : List (Nat × String) := s.deeds.filterMap Deed.message

/-- Whether a message is typed, if the driver did not type to its session before: the session runs
    and is quiet, and nobody controls it. -/
def Answers.free (answers : Answers) : Bool := answers.quiet && !answers.held

/-- No run types to a session that another was typed to for in this tick. -/
def System.typesAlone (s : System) : Act → Bool
  | .driver (.carry answers) =>
    match s.driver.phase with
    | .carrying m (.paste _ ptyId _) _ =>
      !answers.free || s.deeds.all (fun d => d.message ≠ some (s.ticks, ptyId) || d.run = m.run.id)
    | _ => true
  | _ => true

/-- No two messages of a tick into one session, and what the driver has in hand remembers all the
    sessions its run was typed to for in this tick; the runs still to be moved on have none. -/
structure Apart (s : System) : Prop where
  coherent : Coherent s
  once : s.messages.Nodup
  past : ∀ d ∈ s.deeds, d.tick ≤ s.ticks
  typed : ∀ m, s.driver.phase.on = some m → ∀ d ∈ s.deeds, d.run = m.run.id →
    ∀ ptyId, d.message = some (s.ticks, ptyId) → ptyId ∈ m.typedTo
  todo : ∀ run ∈ s.driver.todo, ∀ d ∈ s.deeds, d.tick = s.ticks → d.run ≠ run.id
  others : ∀ m, s.driver.phase.on = some m → m.run.id ∉ s.driver.todo.map (·.id)
  unique : (s.driver.todo.map (·.id)).Nodup

theorem apart_start : Apart .start where
  coherent := coherent_start
  once := nodup_nil
  past := forall_mem_nil _
  typed _ h := nomatch h
  todo := forall_mem_nil _
  others _ h := nomatch h
  unique := nodup_nil

theorem active_unique {store : Store} (h : (store.map (·.row.id)).Nodup) :
    (store.activeWorkflowRuns.map (·.id)).Nodup := by
  have hperm := (List.perm_insertionSort (fun a b : WorkflowRunRow => a.createdAt ≤ b.createdAt)
    ((store.filter (·.row.active)).map (·.row))).map (·.id)
  refine hperm.nodup_iff.mpr ?_
  rw [map_map]
  exact h.sublist (filter_sublist.map _)

theorem message_tick {d : Deed} {tick : Nat} {ptyId : String} (h : d.message = some (tick, ptyId)) :
    d.tick = tick := by
  unfold Deed.message at h
  split at h
  · exact congrArg Prod.fst (Option.some.inj h)
  · cases h

theorem asksFor_paste {answers : Answers} {typedTo : List String} {step ptyId text : String} :
    asksFor answers typedTo (.paste step ptyId text) = true ↔
      answers.free = true ∧ ptyId ∉ typedTo := by
  rw [asksFor, Answers.free]
  cases answers.quiet <;> cases answers.held <;> simp

theorem carryOut_remembers {answers : Answers} {typedTo : List String} {effect : Effect} :
    (∀ ptyId ∈ typedTo, ptyId ∈ (carryOut answers typedTo effect).2) ∧
      (asksFor answers typedTo effect = true → ∀ step ptyId text, effect = .paste step ptyId text →
        ptyId ∈ (carryOut answers typedTo effect).2) := by
  cases effect with
  | paste step ptyId text =>
    rw [carryOut]
    split
    · rename_i hinfo
      refine ⟨fun _ h => h, fun hasks => ?_⟩
      rw [asksFor, Answers.quiet, hinfo] at hasks
      cases hasks
    · rename_i info hinfo
      split
      · rename_i hended
        refine ⟨fun _ h => h, fun hasks => ?_⟩
        rw [asksFor, Answers.quiet, hinfo] at hasks
        simp_all
      · split
        · rename_i hbusy
          refine ⟨fun _ h => h, fun hasks => ?_⟩
          rw [asksFor, Answers.quiet, hinfo] at hasks
          simp_all
        · refine ⟨fun _ h => mem_cons_of_mem _ h, fun _ step' ptyId' text' heq => ?_⟩
          cases heq
          exact mem_cons_self ..
  | start step harness prompt model effort skipMemory | notify step title body
  | runTest step test inputs =>
    rw [carryOut]
    exact ⟨fun _ h => by split <;> exact h, fun _ _ _ _ heq => nomatch heq⟩

theorem Apart.rests {s s' : System} {t : Turn} (hs : Apart s) (h : s.step (.driver t) = some s')
    (hdeeds : s'.deeds = s.deeds) : Apart s' := by
  have htook := turn_took h
  have hcoherent := hs.coherent.step h
  have honce : s'.messages.Nodup := by
    rw [System.messages, hdeeds]
    exact hs.once
  obtain ⟨htodo, hidle, hbetween, hticks⟩ | ⟨htodo, hticks⟩ := turn_todo htook
  -- nothing has been done in the tick that begins
  · refine ⟨hcoherent, honce, ?_, ?_, ?_, ?_, ?_⟩
    · rw [hdeeds, hticks]
      exact fun d hd => Nat.le_succ_of_le (hs.past d hd)
    · rw [hbetween]
      exact fun m hm => nomatch hm
    · rw [hdeeds, hticks]
      intro run _ d hd htick
      have := hs.past d hd
      omega
    · rw [hbetween]
      exact fun m hm => nomatch hm
    · rw [htodo]
      exact active_unique hs.coherent.unique
  · have hsub : ∀ run ∈ s'.driver.todo, run ∈ s.driver.todo := by
      intro run hrun
      obtain htodo | ⟨next, htodo⟩ := htodo
      · exact htodo ▸ hrun
      · exact htodo ▸ mem_cons_of_mem _ hrun
    refine ⟨hcoherent, honce, ?_, ?_, ?_, ?_, ?_⟩
    · rw [hdeeds, hticks]
      exact hs.past
    · rw [hdeeds, hticks]
      intro m' hm' d hd hrun ptyId hmessage
      obtain ⟨m, hm, hsame, -, htyped⟩ | ⟨-, htodo', -⟩ := turn_on htook hm'
      · have hin := hs.typed m hm d hd (hrun.trans (congrArg _ hsame)) ptyId hmessage
        obtain htyped | ⟨effect, rest, answers, -, htyped⟩ := htyped
        · exact htyped ▸ hin
        · exact htyped ▸ carryOut_remembers.1 ptyId hin
      · have hnext : m'.run ∈ s.driver.todo := htodo' ▸ mem_cons_self ..
        exact absurd hrun (hs.todo _ hnext d hd (message_tick hmessage))
    · rw [hdeeds, hticks]
      exact fun run hrun => hs.todo run (hsub run hrun)
    · intro m' hm'
      have hunique := hs.unique
      obtain ⟨m, hm, hsame, hkeep, -⟩ | ⟨-, htodo', -⟩ := turn_on htook hm'
      · rw [hsame, hkeep]
        exact hs.others m hm
      · rw [htodo', map_cons, nodup_cons] at hunique
        exact hunique.1
    · have hunique := hs.unique
      obtain htodo | ⟨next, htodo⟩ := htodo
      · rw [htodo]
        exact hunique
      · rw [htodo, map_cons, nodup_cons] at hunique
        exact hunique.2

theorem Apart.carry {s s' : System} {m : MoveOn} {effect : Effect} {rest : Rest} {answers : Answers}
    (hs : Apart s) (h : s.step (.driver (.carry answers)) = some s')
    (hc : Carried s s' m effect rest answers)
    (halone : s.typesAlone (.driver (.carry answers)) = true) : Apart s' := by
  by_cases hasks : asksFor answers m.typedTo effect = true
  · have hm : s.driver.phase.on = some m := congrArg Phase.on hc.phase
    have hstate := hc.state
    rw [System.carry, if_pos hasks] at hstate
    have hdeeds : s'.deeds = s.deeds ++ [⟨s.ticks, m.run.id, effect⟩] := by
      rw [hstate]
      rfl
    have hdriver : s'.driver.todo = s.driver.todo ∧ s'.ticks = s.ticks := by
      rw [hstate]
      exact ⟨rfl, rfl⟩
    have hon : ∀ m', s'.driver.phase.on = some m' → m'.run = m.run ∧
        m'.typedTo = (carryOut answers m.typedTo effect).2 := by
      intro m' hm'
      rw [hstate] at hm'
      cases hm'
      exact ⟨rfl, rfl⟩
    refine ⟨hs.coherent.step h, ?_, ?_, ?_, ?_, ?_, ?_⟩
    · rw [System.messages, hdeeds, filterMap_append]
      cases effect with
      | paste step ptyId text =>
        obtain ⟨hfree, hnot⟩ := asksFor_paste.mp hasks
        have hnew : (s.ticks, ptyId) ∉ s.messages := by
          intro hin
          obtain ⟨d, hd, hmessage⟩ := mem_filterMap.mp hin
          rw [System.typesAlone, hc.phase] at halone
          have hall : s.deeds.all (fun d =>
              d.message ≠ some (s.ticks, ptyId) || d.run = m.run.id) = true := by
            simpa [hfree] using halone
          have hd' := all_eq_true.mp hall d hd
          have hrun : d.run = m.run.id := by simpa [hmessage] using hd'
          exact hnot (hs.typed m hm d hd hrun ptyId hmessage)
        show (s.messages ++ [(s.ticks, ptyId)]).Nodup
        rw [nodup_append]
        refine ⟨hs.once, List.nodup_singleton _, ?_⟩
        intro x hx y hy hxy
        rw [mem_singleton.mp hy] at hxy
        exact hnew (hxy ▸ hx)
      | _ => exact (append_nil s.messages).symm ▸ hs.once
    · rw [hdeeds, hdriver.2]
      intro d hd
      obtain hd | hd := mem_snoc.mp hd
      · exact hs.past d hd
      · rw [hd]
    · rw [hdeeds, hdriver.2]
      intro m' hm' d hd hrun ptyId hmessage
      obtain ⟨hsame, htyped⟩ := hon m' hm'
      rw [htyped]
      obtain hd | hd := mem_snoc.mp hd
      · exact carryOut_remembers.1 ptyId
          (hs.typed m hm d hd (hrun.trans (congrArg _ hsame)) ptyId hmessage)
      · rw [hd] at hmessage
        cases effect with
        | paste step ptyId' text =>
          obtain rfl := congrArg Prod.snd (Option.some.inj hmessage)
          exact carryOut_remembers.2 hasks step _ text rfl
        | _ => cases hmessage
    · rw [hdeeds, hdriver.1, hdriver.2]
      intro run hrun d hd htick
      obtain hd | hd := mem_snoc.mp hd
      · exact hs.todo run hrun d hd htick
      · rw [hd]
        intro heq
        have heq : m.run.id = run.id := heq
        exact hs.others m hm (heq.symm ▸ mem_map_of_mem hrun)
    · rw [hdriver.1]
      intro m' hm'
      rw [(hon m' hm').1]
      exact hs.others m hm
    · rw [hdriver.1]
      exact hs.unique
  · refine hs.rests h ?_
    have hstate := hc.state
    rw [System.carry, if_neg hasks] at hstate
    rw [hstate]
    rfl

theorem Apart.step {s s' : System} {a : Act} (hs : Apart s) (halone : s.typesAlone a = true)
    (h : s.step a = some s') : Apart s' := by
  by_cases hturn : ∃ t, a = .driver t
  · obtain ⟨t, rfl⟩ := hturn
    obtain ⟨-, -, hdeeds⟩ | ⟨m, claim, effect, rest, now, -, -, hstate⟩ |
      ⟨m, effect, rest, answers, rfl, hc⟩ := turn_acting (turn_took h)
    · exact hs.rests h hdeeds
    · refine hs.rests h ?_
      rw [hstate]
      rfl
    · exact hs.carry h hc halone
  · obtain ⟨hd | ⟨-, hd⟩, -, hdeeds, hticks⟩ := step_beside h fun t ht => hturn ⟨t, ht⟩
    · refine ⟨hs.coherent.step h, ?_, ?_, ?_, ?_, ?_, ?_⟩
      · rw [System.messages, hdeeds]
        exact hs.once
      · rw [hdeeds, hticks]
        exact hs.past
      · rw [hd, hdeeds, hticks]
        exact hs.typed
      · rw [hd, hdeeds, hticks]
        exact hs.todo
      · rw [hd]
        exact hs.others
      · rw [hd]
        exact hs.unique
    · refine ⟨hs.coherent.step h, ?_, ?_, ?_, ?_, ?_, ?_⟩
      · rw [System.messages, hdeeds]
        exact hs.once
      · rw [hdeeds, hticks]
        exact hs.past
      · rw [hd]
        exact fun m hm => nomatch hm
      · rw [hd]
        exact forall_mem_nil _
      · rw [hd]
        exact fun m hm => nomatch hm
      · rw [hd]
        exact nodup_nil

/-- What holds of the messages of every tick: no two go into one session, and while the host finds
    it running, a second is put back to wait. -/
structure OneMessage (s : System) : Prop where
  once : s.messages.Nodup
  putBack : ∀ m step ptyId text rest answers,
    s.driver.phase = .carrying m (.paste step ptyId text) rest →
    (s.ticks, ptyId) ∈ s.messages → answers.info.any (·.running) = true →
    s.typesAlone (.driver (.carry answers)) = true →
    (carryOut answers m.typedTo (.paste step ptyId text)).1 = .notYet

theorem carryOut_running {answers : Answers} {typedTo : List String} {step ptyId text : String}
    (hrunning : answers.info.any (·.running) = true)
    (hnot : asksFor answers typedTo (.paste step ptyId text) = false) :
    (carryOut answers typedTo (.paste step ptyId text)).1 = .notYet := by
  obtain ⟨info, hinfo, hruns⟩ := (any_eq_true _ _).mp hrunning
  rw [asksFor, Answers.quiet, hinfo, any_some, hruns, Bool.true_and] at hnot
  rw [carryOut, hinfo]
  dsimp only
  rw [hruns, Bool.not_true, if_neg Bool.false_ne_true]
  split
  · rfl
  rename_i hfree
  have hheld : answers.held = true := by simp_all
  unfold Answers.held at hheld
  rw [typeInto]
  split at hheld
  · rename_i hcontrol
    rw [hcontrol]
  · cases hheld

/-- **One message a tick for a session**, in every run of the system where no run types to a session
    that another was typed to for in the same tick. -/
theorem one_message_a_tick (acts : List Act) (s : System)
    (h : run System.step .start acts = some s)
    (halone : Meets System.step (fun s a => s.typesAlone a = true) .start acts) :
    OneMessage s := by
  have hapart : Apart s :=
    halone.invariant (fun _ _ _ hs ha hstep => hs.step ha hstep) h apart_start
  refine ⟨hapart.once, ?_⟩
  intro m step ptyId text rest answers hphase hin hrunning ha
  refine carryOut_running hrunning (Bool.eq_false_iff.mpr fun hasks => ?_)
  -- the step would be one more message of the tick into the session
  obtain ⟨s', hs', -, hstate⟩ := carry_step hphase answers
  have hmessages : s'.messages = s.messages ++ [(s.ticks, ptyId)] := by
    rw [hstate]
    show (s.carry m (.paste step ptyId text) answers).deeds.filterMap Deed.message = _
    rw [carry_deeds, if_pos hasks, filterMap_append]
    rfl
  have honce := (hapart.step ha hs').once
  rw [hmessages, nodup_append] at honce
  exact honce.2.2 _ hin _ (mem_singleton_self _) rfl

def nudgeFile (id : String) : RawWorkflow where
  id := onLine 1 id
  name := onLine 2 "Nudge"
  description := none
  version := onLine 3 1
  trigger := onLine 4 { kind := onLine 4 "manual", context := none }
  inputs := []
  steps := onLine 5
    [{ bareStep 6 "nudge" "send_to_session" [] with
         session := some (onLine 7 "origin"), prompt := some (onLine 8 "Go on.") }]

def queueNudge (id run : String) : Act :=
  .queue ⟨fun _ => none, fun _ => .ok (nudgeFile id)⟩ "" run "yard" [] ⟨none, none, false⟩ 1

def quietWorld : World := { idleWorld with session := fun _ => ⟨true, false, none⟩ }

/-- The next run is moved on until its message to the agent has been answered. -/
def nudges (answers : Answers) : List Act :=
  [.driver (.moveOn (some "pty-1") 2), .driver .recover, .driver (.plan quietWorld),
    .driver (.apply 3), .driver (.carry answers), .driver (.apply 4)]

/-- Two runs in one tick, both for the agent of their workspace: the second is carried out with
    these answers. -/
def twoNudges (second : Answers) : List Act :=
  [queueNudge "nudge" "run-1", queueNudge "remind" "run-2", .driver .tick] ++ nudges allWell ++
    [Act.driver (.plan quietWorld), .driver (.finish 5)] ++ nudges second

/-- The host does not say yet that the agent works on the first message: it is sent the second. -/
theorem two_nudges_in_one_tick :
    ∃ s, run System.step .start (twoNudges allWell) = some s ∧ ¬ s.messages.Nodup := by
  have hrun : (run System.step .start (twoNudges allWell)).map System.messages =
      some [(1, "pty-1"), (1, "pty-1")] := by decide +kernel
  obtain ⟨s, hs, hmessages⟩ := map_eq_some_iff.mp hrun
  exact ⟨s, hs, by rw [hmessages]; decide⟩

/-- Where it does, the second message waits. -/
theorem busy_agent_nudged_once :
    ∃ s, run System.step .start (twoNudges { allWell with info := some ⟨true, true⟩ }) = some s ∧
      s.messages = [(1, "pty-1")] ∧ OneMessage s := by
  have hrun : (run System.step .start (twoNudges { allWell with info := some ⟨true, true⟩ })).map
      System.messages = some [(1, "pty-1")] := by decide +kernel
  have halone : meets System.step System.typesAlone .start
      (twoNudges { allWell with info := some ⟨true, true⟩ }) = true := by decide +kernel
  obtain ⟨s, hs, hmessages⟩ := map_eq_some_iff.mp hrun
  exact ⟨s, hs, hmessages, one_message_a_tick _ s hs (meets_iff.mp halone)⟩

end Yardsort.Workflow
