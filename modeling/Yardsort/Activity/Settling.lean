import Mathlib
import Yardsort.Activity.ExitRuns

/- The exit of a process, recorded once and for good. What the other steps leave of the invariant
   of `ExitRuns`; what an event says of its run, whose source key then is its own; and, put
   together, the run theorem: in every run whose steps are all `Careful`, each run that is over has
   one event, which says what its row says, and the exit a daemon spooled or delivered is what both
   hold, or is still on its way to them (`exits_settle`). Without that care a reported exit may end
   as an interruption (`exit_lost`). -/
namespace Yardsort.Activity
open Yardsort.Lib

/-! ## The other steps -/

theorem Daemon.update_was {daemon : Daemon} {pty : String} {f : Process → Process} {p : Process}
    (hp : daemon.process pty = some p) (hf : Ages p (f p)) {p' : Process}
    (hp' : p' ∈ (daemon.update pty f).processes) : p' ∈ daemon.processes ∨ p' = f p := by
  obtain ⟨q, hq, rfl⟩ := mem_map.mp hp'
  by_cases hpty : q.pty = pty
  · obtain rfl := process_eq hp hq hpty
    exact .inr (change_self hpty hf)
  · left
    rwa [change, if_neg hpty]

structure Around (s : System) (a : Act) (s' : System) : Prop where
  was : ∀ p' ∈ s'.world.daemon.processes, ∃ p ∈ s.world.daemon.processes, Ages p p' ∧
    (p'.told = p.told ∨ a = .announces p.pty) ∧
    ∀ entry, p'.spooling = .written entry → p.spooling = .written entry ∨ entry ∈ s'.world.spool
  spool : ∀ entry ∈ s.world.spool, entry ∈ s'.world.spool
  announced : ∀ pty, a = .announces pty → ∃ exit, liveJobs pty exit ∈ s'.threads
  threads : ∀ jobs ∈ s.threads, jobs ∈ s'.threads ∨ ∃ k, a = .dies k ∧ s.threads[k]? = some jobs

variable {s s' : System}

theorem Around.of_update {a : Act} {pty : String} {f : Process → Process} {p : Process}
    (hp : s.world.daemon.process pty = some p) (hf : Ages p (f p))
    (hdaemon : s'.world.daemon = s.world.daemon.update pty f)
    (htold : (f p).told = p.told ∨ a = .announces p.pty)
    (hentry : ∀ entry, (f p).spooling = .written entry →
        p.spooling = .written entry ∨ entry ∈ s'.world.spool)
    (hspool : ∀ entry ∈ s.world.spool, entry ∈ s'.world.spool)
    (hannounced : ∀ pty, a = .announces pty → ∃ exit, liveJobs pty exit ∈ s'.threads)
    (hthreads : ∀ jobs ∈ s.threads, jobs ∈ s'.threads) : Around s a s' := by
  refine ⟨fun p' hp' => ?_, hspool, hannounced, fun jobs hjobs => .inl (hthreads jobs hjobs)⟩
  rw [hdaemon] at hp'
  obtain hold | rfl := Daemon.update_was hp hf hp'
  · exact ⟨p', hold, .refl p', .inl rfl, fun _ h => .inl h⟩
  · exact ⟨p, (Daemon.process_mem hp).1, hf, htold, hentry⟩

theorem Around.of_same {a : Act} (hdaemon : s'.world.daemon = s.world.daemon)
    (hspool : s'.world.spool = s.world.spool) (ha : ∀ pty, a ≠ .announces pty)
    (hthreads : ∀ jobs ∈ s.threads,
        jobs ∈ s'.threads ∨ ∃ k, a = .dies k ∧ s.threads[k]? = some jobs) : Around s a s' :=
  ⟨fun p hp => ⟨p, hdaemon ▸ hp, .refl p, .inl rfl, fun _ h => .inl h⟩,
    fun _ h => hspool ▸ h, fun pty heq => absurd heq (ha pty), hthreads⟩

theorem step_around {a : Act} (h : step s a = some s') (ha : ∀ k ok, a ≠ .does k ok) :
    Around s a s' := by
  cases a with
  | does k ok => exact absurd rfl (ha k ok)
  | calls call =>
    cases h
    exact .of_same rfl rfl (fun _ heq => nomatch heq) fun _ hjobs =>
      .inl (mem_append_left _ hjobs)
  | dies k =>
    cases h
    refine .of_same rfl rfl (fun _ heq => nomatch heq) fun jobs hjobs => ?_
    obtain ⟨i, hi⟩ := mem_iff_getElem?.mp hjobs
    by_cases hik : i = k
    · exact .inr ⟨k, rfl, hik ▸ hi⟩
    · have hstays : (s.threads.set k [])[i]? = some jobs := by
        rw [List.getElem?_set_ne (Ne.symm hik), hi]
      exact .inl (mem_of_getElem? hstays)
  | clock now =>
    cases h
    exact .of_same rfl rfl (fun _ heq => nomatch heq) fun _ hjobs => .inl hjobs
  | announces pty =>
    dsimp only [step] at h
    split at h
    · cases h
    rename_i p hp
    split at h
    · rename_i exit hlife
      split at h
      · cases h
      cases h
      refine .of_update hp ⟨rfl, rfl, rfl, .inr rfl, .inr rfl, fun _ => rfl⟩ rfl
        (.inr (congrArg _ (Daemon.process_mem hp).2.symm)) (fun _ h => .inl h) (fun _ h => h) ?_
        fun _ hjobs => mem_append_left _ hjobs
      intro pty' heq
      cases heq
      exact ⟨exit, by simp⟩
    · cases h
  | spools pty written labelled atMs =>
    dsimp only [step] at h
    split at h
    · cases h
    rename_i p hp
    split at h
    · rename_i exit hlife hwaiting
      cases h
      refine .of_update hp ⟨rfl, rfl, rfl, .inr rfl, .inl hwaiting, id⟩ rfl (.inl rfl) ?_ ?_
        (fun _ heq => nomatch heq) fun _ hjobs => hjobs
      · intro entry hentry
        cases written with
        | true =>
          cases hentry
          exact .inr (by simp)
        | false => cases hentry
      · intro entry hentry
        cases written with
        | true => exact mem_append_left _ hentry
        | false => exact hentry
    · cases h
  | drops pty =>
    dsimp only [step] at h
    split at h
    · cases h
    rename_i p hp
    split at h
    · cases h
    · cases h
      exact .of_update hp ⟨rfl, rfl, rfl, .inr rfl, .inr rfl, id⟩ rfl (.inl rfl)
        (fun _ h => .inl h) (fun _ h => h) (fun _ heq => nomatch heq) fun _ hjobs => hjobs
    · cases h
  | exits pty exit | loses pty =>
    dsimp only [step] at h
    split at h
    · cases h
    rename_i p hp
    split at h
    · rename_i hrunning
      cases h
      exact .of_update hp ⟨rfl, rfl, rfl, .inl hrunning, .inr rfl, id⟩ rfl (.inl rfl)
        (fun _ h => .inl h) (fun _ h => h) (fun _ heq => nomatch heq) fun _ hjobs => hjobs
    · cases h

theorem Job.tells_mayGo {w : World} {pty : String} (job : Job) (htells : job.tells pty)
    (hgo : job.MayGo w) (hunspooled : Unspooled w pty) : Settled w pty := by
  cases job with
  | endRun pty' facts via after =>
    cases via with
    | live =>
      obtain rfl : pty' = pty := htells
      exact hgo rfl hunspooled
    | _ => exact htells.elim
  | _ => exact htells.elim

section
variable {s s' : System} {a : Act} (h : step s a = some s') (ha : ∀ k ok, a ≠ .does k ok)
  (hs : s.Sound) (hkept : s.Kept) (hcareful : Careful s a)
include h ha

theorem beside_settled {pty : String} (hsettled : Settled s.world pty) : Settled s'.world pty := by
  have hstore := (step_beside h ha).store
  rintro row ⟨hrow, hopen, p', hp', hpty, hrun⟩
  obtain ⟨p, hp, hages, -⟩ := (step_around h ha).was p' hp'
  exact hsettled row ⟨hstore ▸ hrow, hopen, p, hp, hages.pty ▸ hpty, hages.run ▸ hrun⟩

include hkept hcareful

theorem beside_ends {p' : Process} (hp' : p' ∈ s'.world.daemon.processes) {row : RunRow}
    (hrow : row ∈ s'.world.store.runs) (hrun : p'.run = some row.id)
    (hended : row.isOpen = false) : p'.EndsRight row := by
  rw [(step_beside h ha).store] at hrow
  obtain ⟨p, hp, hages, htold, -⟩ := (step_around h ha).was p' hp'
  rw [hages.run] at hrun
  obtain ⟨exit, hlife, hright⟩ | ⟨hgone, hreason⟩ := (hkept.processes p hp).ends row hrow hrun hended
  · obtain hrunning | hsame := hages.life
    · exact nomatch hlife.symm.trans hrunning
    · exact .inl ⟨exit, hsame.trans hlife, hright⟩
  · refine .inr ⟨?_, hreason⟩
    obtain hlost | ⟨hrefused, hsilent⟩ := hgone
    · obtain hrunning | hsame := hages.life
      · exact nomatch hlost.symm.trans hrunning
      · exact .inl (hsame.trans hlost)
    · have hspooling := hages.spooled (by simp [hrefused])
      obtain hsame | rfl := htold
      · exact .inr ⟨hspooling.trans hrefused, hsame.trans hsilent⟩
      -- it is announced only now: its run was not cut before
      · have hprocess : s.world.daemon.process p.pty = some p := by
          cases hfound : s.world.daemon.process p.pty with
          | none => simpa using List.find?_eq_none.mp hfound p hp
          | some q => rw [Daemon.process_eq hfound hp rfl]
        exact absurd hreason (hcareful p hprocess hrefused hsilent row hrow hrun)

omit hcareful in
theorem beside_spool {p' : Process} (hp' : p' ∈ s'.world.daemon.processes) {entry : SpoolEntry}
    (hentry : p'.spooling = .written entry) :
    Settled s'.world p'.pty ∨ entry ∈ s'.world.spool := by
  have haround := step_around h ha
  obtain ⟨p, hp, hages, -, hwritten⟩ := haround.was p' hp'
  obtain hold | hnew := hwritten entry hentry
  · obtain hsettled | hin := (hkept.processes p hp).spool entry hold
    · exact .inl (hages.pty.symm ▸ beside_settled h ha hsettled)
    · exact .inr (haround.spool entry hin)
  · exact .inr hnew

include hs in
theorem beside_told {p' : Process} (hp' : p' ∈ s'.world.daemon.processes)
    (hrefused : p'.spooling = .refused) (htold : p'.told = true) :
    Settled s'.world p'.pty ∨ ∃ jobs ∈ s'.threads, ∃ job ∈ jobs, job.tells p'.pty := by
  have haround := step_around h ha
  obtain ⟨p, hp, hages, hsame, -⟩ := haround.was p' hp'
  rw [hages.pty]
  obtain hsame | heq := hsame
  · have hnot : p.spooling ≠ .waiting := by
      intro hwaiting
      have hsilent := (hs.world.processes p hp).waiting hwaiting
      exact absurd (hsilent.symm.trans (hsame.symm.trans htold)) (by simp)
    have hold := (hages.spooled hnot).symm.trans hrefused
    obtain hsettled | ⟨js, hjs, j, hj, htells⟩ :=
      (hkept.processes p hp).told hold (hsame.symm.trans htold)
    · exact .inl (beside_settled h ha hsettled)
    · obtain hstays | ⟨k, rfl, hk⟩ := haround.threads js hjs
      · exact .inr ⟨js, hstays, j, hj, htells⟩
      -- the client that had the last word is gone: its run is settled
      · have hunspooled : Unspooled s.world p.pty := by
          intro q hq hqpty
          rw [Daemon.unique hq hp (.inl hqpty), hold]
          rfl
        exact .inl (beside_settled h ha (j.tells_mayGo htells (hcareful js hk j hj) hunspooled))
  · obtain ⟨exit, hlive⟩ := haround.announced p.pty heq
    exact .inr ⟨_, hlive, .endRun p.pty (.ofExit exit) .live .nothing, by simp [liveJobs], rfl⟩

omit hcareful in
theorem beside_threads {js : List Job} (hjs : js ∈ s'.threads) : ThreadKept s'.world js := by
  have hsettled : ∀ {pty}, Settled s.world pty → Settled s'.world pty := beside_settled h ha
  have hmono : ∀ {js}, js ∈ s.threads → ThreadKept s'.world js := by
    intro js hjs
    have hthread := hkept.threads js hjs
    exact ⟨fun entry hentry => hsettled (hthread.removes entry hentry), fun j hj pty hpty =>
      (hthread.seen j hj pty hpty).imp_left hsettled, hthread.last⟩
  obtain hsame | ⟨k, -, hdies⟩ | ⟨jobs, hbegins, hnew⟩ := (step_beside h ha).threads
  · exact hmono (hsame ▸ hjs)
  · rw [hdies] at hjs
    obtain hold | rfl := mem_or_eq_of_mem_set hjs
    · exact hmono hold
    · exact ⟨by simp, by simp, by simp⟩
  · rw [hnew] at hjs
    obtain hold | rfl := mem_snoc.mp hjs
    · exact hmono hold
    · obtain ⟨call, rfl⟩ | ⟨pty, exit, rfl⟩ := hbegins
      · cases call <;> exact ⟨by simp [Call.jobs], by simp [Call.jobs, Job.seen],
          by simp [Call.jobs]⟩
      · exact ⟨by simp [liveJobs], by simp [liveJobs, Job.seen], by simp [liveJobs, Job.isLast]⟩

include hs in
theorem beside_kept : s'.Kept :=
  ⟨fun _ hp => ⟨fun _ hrow hrun hended => beside_ends h ha hkept hcareful hp hrow hrun hended,
    fun _ hentry => beside_spool h ha hkept hp hentry,
    fun hrefused htold => beside_told h ha hs hkept hcareful hp hrefused htold⟩,
    fun _ hjs => beside_threads h ha hkept hjs⟩

end

theorem step_kept {a : Act} (h : step s a = some s') (hs : s.Sound) (hlaunched : s.Launched)
    (hkept : s.Kept) (hcareful : Careful s a) : s'.Kept := by
  by_cases ha : ∃ k ok, a = .does k ok
  · obtain ⟨k, ok, rfl⟩ := ha
    obtain ⟨job, rest, w, jobs, hk, hperform, rfl⟩ := does_cases h
    have hjob : job.Careful s.world ok := by
      simpa [Careful, hk] using hcareful
    exact does_kept hs hlaunched hkept hk hperform hjob
  · exact beside_kept h (fun k ok heq => ha ⟨k, ok, heq⟩) hs hkept hcareful

theorem empty_kept : System.empty.Kept :=
  ⟨fun _ hp => (not_mem_nil hp).elim, fun _ hjobs => (not_mem_nil hjobs).elim⟩

/-! ## What an event says of its run -/

def RunRow.EndedBy (row : RunRow) (run : String) (code : Option Int) (reason : EndReason) : Prop :=
  row.id = run ∧ row.isOpen = false ∧ row.exitCode = code ∧ row.endReason = some reason

def ExitEvent.Keyed (ps : List Process) (event : ExitEvent) : Prop :=
  event.sourceKey = "run:" ++ event.runId ++ ":exited" ∨
    ∃ pty, Labelled ps event.runId pty ∧ event.sourceKey = "pty:" ++ pty ++ ":exited"

def Job.Tells (w : World) : Job → Prop
  | writeExit run facts reason _ => ∃ row ∈ w.store.runs, row.EndedBy run.id facts.code reason
  | _ => True

structure System.Tells (s : System) : Prop where
  events : ∀ event ∈ s.world.store.events,
    ∃ row ∈ s.world.store.runs, row.EndedBy event.runId event.exitCode event.reason
  keys : ∀ event ∈ s.world.store.events, event.Keyed s.world.daemon.processes
  writes : ∀ jobs ∈ s.threads, ∀ job ∈ jobs, job.Tells s.world

section
variable {w w' : World} {ok : Bool} {job : Job} {jobs : List Job}

theorem ExitEvent.Keyed.mono {ps ps' : List Process} (hgrows : Grows ps ps') {event : ExitEvent}
    (h : event.Keyed ps) : event.Keyed ps' := by
  obtain hrun | ⟨pty, hlabel, hkey⟩ := h
  · exact .inl hrun
  · exact .inr ⟨pty, hlabel.mono hgrows, hkey⟩

theorem perform_endedBy (h : perform w ok job = some (w', jobs)) {run : String}
    {code : Option Int} {reason : EndReason}
    (hended : ∃ row ∈ w.store.runs, row.EndedBy run code reason) :
    ∃ row ∈ w'.store.runs, row.EndedBy run code reason := by
  obtain ⟨old, hold, hid, hclosed, hcode, hreason⟩ := hended
  obtain ⟨new, hnew, hends⟩ := (perform_runs h).ended hold hclosed
  exact ⟨new, hnew, hends.id.trans hid, hends.isOpen, hends.exitCode.trans hcode,
    hends.endReason.trans hreason⟩

theorem Job.Tells.mono (h : perform w ok job = some (w', jobs)) {j : Job} (hj : j.Tells w) :
    j.Tells w' := by
  cases j with
  | writeExit run facts reason via => exact perform_endedBy h hj
  | _ => trivial

theorem perform_tells (h : perform w ok job = some (w', jobs)) : ∀ j ∈ jobs, j.Tells w' := by
  intro j hj
  cases j with
  | writeExit run facts reason via =>
    have hputs := perform_puts h _ hj
    cases job with
    | endRun pty facts' via' after =>
      dsimp only [perform] at h
      split at h
      · split at h
        · cases h
          simp at hj
        · rename_i found store hend
          cases h
          obtain heq | hafter := mem_cons.mp hj
          · cases heq
            obtain ⟨hfound, -, -⟩ := Store.endRunByPty_mem hend
            unfold Store.endRunByPty at hend
            split at hend
            · cases hend
            obtain ⟨hsome, rfl⟩ := Prod.mk.inj hend
            cases hsome
            refine ⟨_, mem_map_of_mem hfound, ?_⟩
            simp [Store.endById, RunRow.EndedBy]
          · cases after <;> simp [After.recorded] at hafter
      · cases h
        cases after <;> simp [After.noRun] at hj
    | endRuns alive known seen =>
      dsimp only [perform] at h
      split at h
      · cases h
        obtain ⟨row, hrow, heq⟩ := mem_map.mp hj
        cases heq
        obtain ⟨hmem, hcut⟩ := mem_filter.mp hrow
        refine ⟨_, mem_map_of_mem hmem, ?_⟩
        simp [Store.endInterrupted, hcut, RunRow.EndedBy, ExitFacts.interrupted]
      · cases h
        simp at hj
    | _ => exact hputs.elim
  | _ => trivial

theorem mem_addEvent {store : Store} {event e : ExitEvent}
    (h : e ∈ (store.addEvent event).events) : e ∈ store.events ∨ e = event := by
  unfold Store.addEvent at h
  split at h
  · exact .inl h
  · simpa using h

theorem exitEvent_keyed {ps : List Process} {row : RunRow} {facts : ExitFacts} {reason : EndReason}
    {via : Via} {at' : Int} (h : (Job.writeExit row facts reason via).Sound ps) :
    (exitEvent row facts reason via at').Keyed ps := by
  unfold exitEvent ExitEvent.Keyed
  cases hpty : row.ptySessionId with
  | none => exact .inl rfl
  | some pty => exact .inr ⟨pty, h pty hpty, rfl⟩

theorem perform_event (h : perform w ok job = some (w', jobs)) {event : ExitEvent}
    (hevent : event ∈ w'.store.events) : event ∈ w.store.events ∨
      ∃ row facts reason via, job = .writeExit row facts reason via ∧
        event = exitEvent row facts reason via (facts.at'.getD w.now) := by
  cases job with
  | writeExit row facts reason via =>
    cases h
    cases ok with
    | false => exact .inl hevent
    | true =>
      obtain hold | rfl := mem_addEvent hevent
      · exact .inl hold
      · exact .inr ⟨row, facts, reason, via, rfl, rfl⟩
  | _ => exact .inl (perform_events h (fun _ _ _ _ heq => nomatch heq) ▸ hevent)

end

theorem step_tells {a : Act} (h : step s a = some s') (hs : s.Sound) (ht : s.Tells) : s'.Tells := by
  by_cases ha : ∃ k ok, a = .does k ok
  · obtain ⟨k, ok, rfl⟩ := ha
    obtain ⟨job, rest, w, jobs, hk, hperform, rfl⟩ := does_cases h
    have hmem := mem_of_getElem? hk
    refine ⟨fun event hevent => ?_, fun event hevent => ?_, fun js hjs j hj => ?_⟩
    · obtain hold | ⟨row, facts, reason, via, rfl, rfl⟩ := perform_event hperform hevent
      · exact perform_endedBy hperform (ht.events event hold)
      · exact perform_endedBy hperform (ht.writes _ hmem _ mem_cons_self)
    · obtain hold | ⟨row, facts, reason, via, rfl, rfl⟩ := perform_event hperform hevent
      · exact (ht.keys event hold).mono (perform_grows hperform)
      · exact (exitEvent_keyed (hs.jobs _ hmem _ mem_cons_self)).mono (perform_grows hperform)
    · obtain hold | rfl := mem_or_eq_of_mem_set hjs
      · exact (ht.writes js hold j hj).mono hperform
      · obtain hnew | hrest := mem_append.mp hj
        · exact perform_tells hperform j hnew
        · exact (ht.writes _ hmem j (mem_cons_of_mem _ hrest)).mono hperform
  · have hbeside := step_beside h fun k ok heq => ha ⟨k, ok, heq⟩
    refine ⟨?_, fun event hevent => ?_, fun js hjs j hj => ?_⟩
    · rw [hbeside.store]
      exact ht.events
    · rw [hbeside.store] at hevent
      exact (ht.keys event hevent).mono hbeside.grows
    · have hold : ∀ js ∈ s.threads, ∀ j ∈ js, j.Tells s'.world := by
        intro js hjs j hj
        cases j with
        | writeExit run facts reason via =>
          have htells := ht.writes js hjs _ hj
          unfold Job.Tells at htells ⊢
          rw [hbeside.store]
          exact htells
        | _ => trivial
      obtain hsame | ⟨k, -, hdies⟩ | ⟨jobs, hbegins, hnew⟩ := hbeside.threads
      · exact hold js (hsame ▸ hjs) j hj
      · rw [hdies] at hjs
        obtain hmem | rfl := mem_or_eq_of_mem_set hjs
        · exact hold js hmem j hj
        · cases hj
      · rw [hnew] at hjs
        obtain hmem | rfl := mem_snoc.mp hjs
        · exact hold js hmem j hj
        · obtain ⟨call, rfl⟩ | ⟨pty, exit, rfl⟩ := hbegins
          · cases call <;> simp only [Call.jobs, mem_singleton] at hj <;> subst hj <;> trivial
          · simp only [liveJobs, mem_cons, not_mem_nil, or_false] at hj
            obtain rfl | rfl | rfl := hj <;> trivial

theorem empty_tells : System.empty.Tells :=
  ⟨fun _ hevent => (not_mem_nil hevent).elim, fun _ hevent => (not_mem_nil hevent).elim,
    fun _ hjobs => (not_mem_nil hjobs).elim⟩

theorem key_inj {kind run run' : String}
    (h : kind ++ run ++ ":exited" = kind ++ run' ++ ":exited") : run = run' := by
  have hlists := congrArg String.toList h
  simp only [String.toList_append] at hlists
  exact String.toList_injective (append_cancel_left (List.append_cancel_right hlists))

theorem key_kind {run pty : String} :
    "run:" ++ run ++ ":exited" ≠ "pty:" ++ pty ++ ":exited" := by
  intro h
  have hlists := congrArg (fun key => key.toList.head?) h
  simp [String.toList_append] at hlists

theorem System.Tells.taken (ht : s.Tells) {row : RunRow} {facts : ExitFacts} {reason : EndReason}
    {via : Via} {at' : Int}
    (hrow : (Job.writeExit row facts reason via).Sound s.world.daemon.processes)
    (htaken : (exitEvent row facts reason via at').sourceKey ∈
        s.world.store.events.map (·.sourceKey)) :
    ∃ event ∈ s.world.store.events, event.runId = row.id := by
  obtain ⟨event, hevent, hkey⟩ := mem_map.mp htaken
  refine ⟨event, hevent, ?_⟩
  have hnew := @exitEvent_keyed _ row facts reason via at' hrow
  obtain hold | ⟨pty, ⟨p, hp, rfl, hrun⟩, hold⟩ := ht.keys event hevent
  · obtain hrun | ⟨pty, -, hpty⟩ := hnew
    · exact key_inj (hold.symm.trans (hkey.trans hrun))
    · exact absurd (hold.symm.trans (hkey.trans hpty)) key_kind
  · obtain hother | ⟨pty, ⟨q, hq, rfl, hrun'⟩, hpty⟩ := hnew
    · exact absurd (hother.symm.trans (hkey.symm.trans hold)) key_kind
    · have hsame := key_inj (hold.symm.trans (hkey.trans hpty))
      obtain rfl := Daemon.unique hp hq (.inl hsame)
      exact Option.some.inj (hrun.symm.trans hrun')

theorem World.overs_le (w : World) (run : String) : w.overs run ≤ 1 := by
  refine Nat.le_trans (List.countP_mono_left fun row _ h => ?_) (w.rows_le run)
  simp only [Bool.and_eq_true] at h
  exact h.1

theorem dies_owed (k : Nat) (run : String) (h : Careful s (.dies k)) :
    (s.threads.set k []).flatten.countP (·.owes run) =
      s.threads.flatten.countP (·.owes run) := by
  cases hk : s.threads[k]? with
  | none => rw [List.set_eq_of_length_le (List.getElem?_eq_none_iff.mp hk)]
  | some jobs =>
    have hcount := @countP_flatten_set _ k _ _ [] hk (·.owes run)
    have hnone : jobs.countP (·.owes run) = 0 := by
      rw [countP_eq_zero]
      intro j hj
      have hgo := h jobs hk j hj
      cases j with
      | writeExit _ _ _ _ => exact hgo.elim
      | _ => simp [Job.owes]
    simpa [hnone] using hcount

theorem step_accounted {a : Act} (h : step s a = some s') (hs : s.Sound) (ht : s.Tells)
    (haccounted : s.Accounted) (hcareful : Careful s a) : s'.Accounted := by
  intro run
  have hrun := haccounted run
  unfold System.owed at hrun ⊢
  by_cases ha : ∃ k ok, a = .does k ok
  · obtain ⟨k, ok, rfl⟩ := ha
    obtain ⟨job, rest, w, jobs, hk, hperform, rfl⟩ := does_cases h
    have hmem := mem_of_getElem? hk
    have hjob : job.Careful s.world ok := by
      simpa [Careful, hk] using hcareful
    have haccounts := perform_accounts hperform ?_ run
    · have hcount := does_count hk jobs (·.owes run)
      dsimp only at hcount ⊢
      omega
    · rintro row facts reason via rfl
      refine ⟨hjob, fun htaken => ?_⟩
      -- the write is owed, so the run has no event yet
      obtain ⟨event, hevent, hid⟩ := ht.taken (hs.jobs _ hmem _ mem_cons_self) htaken
      have hexits : 0 < s.world.exits row.id :=
        countP_pos_iff.mpr ⟨event, hevent, by simpa using hid⟩
      have howed : 0 < s.owed row.id :=
        countP_pos_iff.mpr ⟨.writeExit row facts reason via,
          mem_flatten.mpr ⟨_, hmem, mem_cons_self⟩, by simp [Job.owes]⟩
      have hle := s.world.overs_le row.id
      have hsum := haccounted row.id
      omega
  · have hbeside := step_beside h fun k ok heq => ha ⟨k, ok, heq⟩
    have hsame : s'.world.exits run = s.world.exits run ∧ s'.world.overs run = s.world.overs run := by
      unfold World.exits World.overs
      rw [hbeside.store]
      exact ⟨rfl, rfl⟩
    rw [hsame.1, hsame.2, ← hrun]
    congr 1
    obtain hkept | ⟨k, rfl, hdies⟩ | ⟨jobs, hbegins, hnew⟩ := hbeside.threads
    · rw [hkept]
    · rw [hdies]
      exact dies_owed k run hcareful
    · rw [hnew, begins_count]
      intro j hj
      obtain ⟨call, rfl⟩ | ⟨pty, exit, rfl⟩ := hbegins
      · cases call <;> simp only [Call.jobs, mem_singleton] at hj <;> subst hj <;> rfl
      · simp only [liveJobs, mem_cons, not_mem_nil, or_false] at hj
        obtain rfl | rfl | rfl := hj <;> rfl

theorem empty_accounted : System.empty.Accounted := fun _ => rfl

/-- All that is kept of a run whose steps are careful. -/
structure System.Upright (s : System) : Prop where
  sound : s.Sound
  launched : s.Launched
  kept : s.Kept
  tells : s.Tells
  accounted : s.Accounted

theorem empty_upright : System.empty.Upright :=
  ⟨empty_sound, empty_launched, empty_kept, empty_tells, empty_accounted⟩

theorem step_upright {a : Act} (h : step s a = some s') (hs : s.Upright) (hcareful : Careful s a) :
    s'.Upright where
  sound := step_sound h hs.sound
  launched := step_launched h hs.launched
  kept := step_kept h hs.sound hs.launched hs.kept hcareful
  tells := step_tells h hs.sound hs.tells
  accounted := step_accounted h hs.sound hs.tells hs.accounted hcareful

theorem reached_upright {as : List Act} (h : Lib.run step .empty as = some s)
    (hcareful : Meets step Careful .empty as) : s.Upright := by
  have hstep : ∀ s₁ a s₂, System.Upright s₁ → Careful s₁ a → step s₁ a = some s₂ →
      System.Upright s₂ := fun _ _ _ hs hcareful hstep => step_upright hstep hs hcareful
  exact hcareful.invariant hstep h empty_upright

def System.OnItsWay (s : System) (pty : String) : Prop :=
  (∃ entry ∈ s.world.spool, entry.session = pty) ∨ ∃ jobs ∈ s.threads, ∃ job ∈ jobs, job.tells pty

structure Recorded (s : System) : Prop where
  once : ∀ run, s.world.exits run ≤ 1
  /-- A run that is over has its event, unless a client is just about to write it. -/
  written : ∀ row ∈ s.world.store.runs, row.atEnd = true → s.owed row.id = 0 →
    s.world.exits row.id = 1
  agrees : ∀ event ∈ s.world.store.events,
    ∃ row ∈ s.world.store.runs, row.EndedBy event.runId event.exitCode event.reason
  /-- An exit the daemon spooled or delivered is what its run holds, or is on its way. -/
  reported : ∀ p ∈ s.world.daemon.processes, ∀ exit, p.reported exit →
    ∀ row ∈ s.world.store.runs, p.run = some row.id →
      if row.isOpen then s.OnItsWay p.pty
      else row.endReason = some .exited ∧ row.exitCode = some (exit.code : Int)

theorem step_ends {a : Act} (h : step s a = some s') {row : RunRow}
    (hrow : row ∈ s.world.store.runs) (hended : row.isOpen = false) :
    ∃ row' ∈ s'.world.store.runs, row.EndsAs row' := by
  by_cases ha : ∃ k ok, a = .does k ok
  · obtain ⟨k, ok, rfl⟩ := ha
    obtain ⟨job, rest, w, jobs, -, hperform, rfl⟩ := does_cases h
    exact (perform_runs hperform).ended hrow hended
  · rw [(step_beside h fun k ok heq => ha ⟨k, ok, heq⟩).store]
    exact ⟨row, hrow, rfl, hended, rfl, rfl, rfl⟩

theorem run_ends {as : List Act} (h : Lib.run step s as = some s') {row : RunRow}
    (hrow : row ∈ s.world.store.runs) (hended : row.isOpen = false) :
    ∃ row' ∈ s'.world.store.runs, row.EndsAs row' := by
  have hstep : ∀ (s₁ : System) a (s₂ : System), (∃ row' ∈ s₁.world.store.runs, row.EndsAs row') →
      step s₁ a = some s₂ → ∃ row' ∈ s₂.world.store.runs, row.EndsAs row' := by
    rintro s₁ a s₂ ⟨row', hrow', hends⟩ hstep
    obtain ⟨row'', hrow'', hends'⟩ := step_ends hstep hrow' hends.isOpen
    exact ⟨row'', hrow'', hends'.id.trans hends.id, hends'.isOpen,
      hends'.endedAt.trans hends.endedAt, hends'.exitCode.trans hends.exitCode,
      hends'.endReason.trans hends.endReason⟩
  exact run_invariant hstep h ⟨row, hrow, rfl, hended, rfl, rfl, rfl⟩

theorem System.Upright.reported {s : System} (hs : s.Upright) {p : Process}
    (hp : p ∈ s.world.daemon.processes) {exit : ExitInfo} (hreported : p.reported exit)
    {row : RunRow} (hrow : row ∈ s.world.store.runs) (hrun : p.run = some row.id) :
    if row.isOpen then s.OnItsWay p.pty
    else row.endReason = some .exited ∧ row.exitCode = some (exit.code : Int) := by
  obtain ⟨hlife, hseen⟩ := hreported
  have hkept := hs.kept.processes p hp
  have hsound := hs.sound.world.processes p hp
  split
  · rename_i hopen
    have hnot : ¬ Settled s.world p.pty := fun h => h row ⟨hrow, hopen, p, hp, rfl, hrun⟩
    cases hspooling : p.spooling with
    | waiting =>
      have hsilent := hsound.waiting hspooling
      simp [hspooling, hsilent, Spooling.isWritten] at hseen
    | written entry =>
      have hin := (hkept.spool entry hspooling).resolve_left hnot
      exact .inl ⟨entry, hin, hsound.entry entry hspooling⟩
    | refused =>
      rw [hspooling] at hseen
      obtain hwritten | htold := hseen
      · cases hwritten
      · exact .inr ((hkept.told hspooling htold).resolve_left hnot)
  · rename_i hclosed
    rw [Bool.not_eq_true] at hclosed
    obtain ⟨exit', hlife', hreason, hcode⟩ | ⟨hgone, -⟩ := hkept.ends row hrow hrun hclosed
    · cases hlife.symm.trans hlife'
      exact ⟨hreason, hcode⟩
    · obtain hlost | ⟨hrefused, hsilent⟩ := hgone
      · exact nomatch hlife.symm.trans hlost
      · rw [hrefused, hsilent] at hseen
        simp [Spooling.isWritten] at hseen

theorem System.Upright.recorded (hs : s.Upright) : Recorded s where
  once run := by
    have hle := s.world.overs_le run
    have hsum := hs.accounted run
    omega
  written row hrow hover howed := by
    have hle := s.world.overs_le row.id
    have hsum := hs.accounted row.id
    have hpos : 0 < s.world.overs row.id :=
      countP_pos_iff.mpr ⟨row, hrow, by simp [hover]⟩
    omega
  agrees := hs.tells.events
  reported _ hp _ hreported _ hrow hrun := hs.reported hp hreported hrow hrun

/-- What the run does with exits: each is recorded in the end, and a run that ended on the way has
    ended for good. -/
def RecordsExits (as bs : List Act) : Prop :=
  ∀ s s', Lib.run step .empty as = some s → Lib.run step s bs = some s' →
    Recorded s' ∧ ∀ row ∈ s.world.store.runs, row.isOpen = false →
      ∃ row' ∈ s'.world.store.runs, row.EndsAs row'

/-- **An exit is recorded once, and for good.** In every run whose steps are careful, each run that
    is over has exactly one event once it is written, which holds what its row holds, for good; and
    the exit that the daemon spooled or delivered is what both hold, or is still on its way. -/
theorem exits_settle {as bs : List Act} (h : Meets step Careful .empty (as ++ bs)) :
    RecordsExits as bs := by
  intro s s' hs hs'
  have hrun : Lib.run step .empty (as ++ bs) = some s' := run_append.mpr ⟨s, hs, hs'⟩
  exact ⟨(reached_upright hrun h).recorded, fun row hrow hended => run_ends hs' hrow hended⟩

section
variable (w : World) (ok : Bool) (pty : String)

instance {P : RunRow → Prop} [DecidablePred P] : Decidable (∀ row, OpenRun w pty row → P row) :=
  decidable_of_iff (∀ row ∈ w.store.runs, row.isOpen = true →
      (∃ p ∈ w.daemon.processes, p.pty = pty ∧ p.run = some row.id) → P row)
    ⟨fun h row hrow => h row hrow.1 hrow.2.1 hrow.2.2,
      fun h row hmem hopen hprocess => h row ⟨hmem, hopen, hprocess⟩⟩

instance : Decidable (Settled w pty) :=
  inferInstanceAs (Decidable (∀ row, OpenRun w pty row → False))

instance : Decidable (Unspooled w pty) :=
  inferInstanceAs (Decidable (∀ p ∈ w.daemon.processes, p.pty = pty → _ = _))

instance (p : Process) : Decidable p.gone := inferInstanceAs (Decidable (_ ∨ _))

instance (p : Process) : Decidable p.waits := inferInstanceAs (Decidable (_ ∧ _))

instance removesDecidable (after : After) {P : Prop} [Decidable P] :
    Decidable (∀ entry, after = .removes entry → P) :=
  match after with
  | .removes entry => decidable_of_iff P ⟨fun h _ _ => h, fun h => h entry rfl⟩
  | .adopts _ => isTrue fun _ heq => nomatch heq
  | .nothing => isTrue fun _ heq => nomatch heq

local instance someDecidable {α : Type} (o : Option α) {P : α → Prop} [DecidablePred P] :
    Decidable (∃ a, o = some a ∧ P a) :=
  match o with
  | none => isFalse fun ⟨_, heq, _⟩ => nomatch heq
  | some a => decidable_of_iff (P a) ⟨fun h => ⟨a, rfl, h⟩, fun ⟨_, heq, h⟩ => by
      cases heq
      exact h⟩

local instance allDecidable {α : Type} (o : Option α) {P : α → Prop} [DecidablePred P] :
    Decidable (∀ a, o = some a → P a) :=
  match o with
  | none => isTrue fun _ heq => nomatch heq
  | some a => decidable_of_iff (P a) ⟨fun h _ heq => Option.some.inj heq ▸ h, fun h => h a rfl⟩

instance afterDecidable (after : After) (row : RunRow) : Decidable (match after with
    | .nothing => True
    | .adopts _ => ok = true → row.ptySessionId = none
    | .removes _ => False) :=
  match after with
  | .nothing => isTrue trivial
  | .adopts _ => inferInstanceAs (Decidable (ok = true → row.ptySessionId = none))
  | .removes _ => isFalse id

instance processesDecidable (row : RunRow) (known seen : List String) :
    Decidable (∀ p ∈ w.daemon.processes, p.run = some row.id → p.gone ∨
      ∃ pty, row.ptySessionId = some pty ∧ pty ∈ known ∧
        (p.waits ∨ (p.spooling.isWritten = true ∧ pty ∈ seen))) :=
  inferInstance

instance cutsDecidable (alive known seen : List String) :
    Decidable (ok = true → ∀ row ∈ w.store.runs,
      row.interrupted alive PENDING_GRACE_MS w.now = true →
        ∀ p ∈ w.daemon.processes, p.run = some row.id → p.gone ∨
          ∃ pty, row.ptySessionId = some pty ∧ pty ∈ known ∧
            (p.waits ∨ (p.spooling.isWritten = true ∧ pty ∈ seen))) :=
  inferInstance

instance : (job : Job) → Decidable (job.Careful w ok)
  | .writeExit _ _ _ _ => inferInstanceAs (Decidable (ok = true))
  | .endRun pty _ via after => inferInstanceAs (Decidable (∀ row, OpenRun w pty row →
      (∀ entry, after = .removes entry → ok = true) ∧
        (via = .live → Unspooled w pty → ok = true ∧ row.ptySessionId = some pty)))
  | .lookup pty after => inferInstanceAs (Decidable (∀ row, OpenRun w pty row →
      match after with
      | .nothing => True
      | .adopts _ => ok = true → row.ptySessionId = none
      | .removes _ => False))
  | .adopt entry => inferInstanceAs (Decidable (∀ row, OpenRun w entry.session row →
      ok = true ∧ row.ptySessionId = none ∧ entry.run = some row.id))
  | .adoptSpawned _ entry =>
    inferInstanceAs (Decidable (∀ row, OpenRun w entry.session row → ok = true))
  | .spawn launch => inferInstanceAs (Decidable (ok = true → ∀ row ∈ w.store.runs,
      launch.run = some row.id → row.isOpen = true))
  | .endRuns alive known seen => cutsDecidable w ok alive known seen
  | .resume _ | .begin _ | .spawnFailed _ | .runSpawned _ _ | .check _ | .record _ _ | .settle _
  | .endSession _ _ | .endSessionRow _ _ | .remove _ | .openSpool _ | .drain _ | .list _
  | .endSessions _ _ _ => isTrue trivial

instance : (job : Job) → Decidable (job.MayGo w)
  | .writeExit _ _ _ _ => isFalse id
  | .endRun pty _ via _ =>
    inferInstanceAs (Decidable (via = .live → Unspooled w pty → Settled w pty))
  | .lookup _ _ | .adopt _ | .adoptSpawned _ _ | .spawn _ | .endRuns _ _ _
  | .resume _ | .begin _ | .spawnFailed _ | .runSpawned _ _ | .check _ | .record _ _ | .settle _
  | .endSession _ _ | .endSessionRow _ _ | .remove _ | .openSpool _ | .drain _ | .list _
  | .endSessions _ _ _ => isTrue trivial

end

/-- Whether a step is careful can be told. -/
instance (s : System) : (a : Act) → Decidable (Careful s a)
  | .does k ok =>
    match hk : s.threads[k]? with
    | some (job :: rest) => decidable_of_iff (job.Careful s.world ok) (by simp [Careful, hk])
    | some [] => isTrue (by simp [Careful, hk])
    | none => isTrue (by simp [Careful, hk])
  | .dies k => inferInstanceAs (Decidable (∀ jobs, s.threads[k]? = some jobs →
      ∀ job ∈ jobs, job.MayGo s.world))
  | .announces pty => inferInstanceAs (Decidable (∀ p, s.world.daemon.process pty = some p →
      p.spooling = .refused → p.told = false → ∀ row ∈ s.world.store.runs, p.run = some row.id →
        row.endReason ≠ some .interrupted))
  | .calls _ | .exits _ _ | .spools _ _ _ _ | .loses _ | .drops _ | .clock _ => isTrue trivial

theorem meets_careful {as : List Act}
    (h : meets step (fun s a => decide (Careful s a)) s as = true) : Meets step Careful s as := by
  simpa only [decide_eq_true_eq] using meets_iff.mp h

/-- A client launches, the process ends, and its exit is spooled and announced. -/
def endedRun : List Act :=
  [.calls (.launch ⟨some "r1", "pty1", .none⟩), .does 0 true, .does 0 true, .does 0 true,
    .exits "pty1" ⟨3, false, none⟩, .spools "pty1" true true 7, .announces "pty1", .does 1 true]

/-- The client that was told records it, and then what it finds in the spool. -/
def recordedRun : List Act :=
  [.does 1 true, .does 1 true, .does 1 true, .does 1 true, .does 1 true, .does 1 true,
    .does 1 true, .does 1 true]

/-- The exit is in the spool; whoever drains it is not answered when it ends the run, finds the run
    attached, and removes the entry. The session is dropped, and a client starts. -/
def lostRun : List Act :=
  [.calls (.launch ⟨some "r1", "pty1", .none⟩), .does 0 true, .does 0 true, .does 0 true,
    .exits "pty1" ⟨3, false, none⟩, .spools "pty1" true true 7,
    .calls .drain, .does 1 true, .does 1 true, .does 1 true, .does 1 false, .does 1 true,
    .does 1 true, .drops "pty1",
    .calls .start, .does 2 true, .does 2 true, .does 2 true, .does 2 true, .does 2 true,
    .does 2 true]

theorem exits_settle_ended : (Lib.run step .empty (endedRun ++ recordedRun)).isSome = true ∧
    RecordsExits endedRun recordedRun :=
  ⟨by decide +kernel, exits_settle (meets_careful (by decide +kernel))⟩

def lostProcess : Process :=
  ⟨"pty1", some "r1", none, .exited ⟨3, false, none⟩, false,
    .written ⟨"pty1", some "r1", ⟨3, false, none⟩, 7⟩, false⟩

def lostRow : RunRow := ⟨"r1", some "pty1", 0, some 0, none, some .interrupted⟩

/-- An exit that was spooled is lost, and its run ends as interrupted. -/
theorem exit_lost : ¬ ∀ as bs, RecordsExits as bs := by
  have hstate : ((Lib.run step .empty lostRun).map fun s =>
      (s.world.daemon.processes, s.world.store.runs)) = some ([lostProcess], [lostRow]) := by
    decide +kernel
  obtain ⟨s, hs, hsame⟩ := map_eq_some_iff.mp hstate
  obtain ⟨hprocesses, hruns⟩ := Prod.mk.inj hsame
  intro h
  have hrecorded := (h lostRun [] s s hs rfl).1
  have hreported := hrecorded.reported lostProcess (by simp [hprocesses]) ⟨3, false, none⟩
    ⟨rfl, .inl rfl⟩ lostRow (by simp [hruns]) rfl
  exact nomatch hreported.1

end Yardsort.Activity
