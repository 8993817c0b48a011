import Yardsort.Pty.ViewRuns

/- Whether anything follows `Exited`.

   A numbered viewer is promised that nothing does. The pump keeps that: it hands out no
   output after the exit. But an operation on the session still applies a size, and still
   finds that control changed hands, and both are told to whoever is attached. `calm` says
   when a section on a session that exited does neither, and `exited_last_iff` that the
   promise is kept by exactly the runs whose sections are all calm. -/
namespace Yardsort.Pty
open Yardsort.Lib

def Ask.sizeAsked (s : Session) (now : Instant) : Ask → Option TermSize
  | .takeLocalControl _ => some s.localSize
  | .resize size _ => if (s.control.leased now).1 then none else some size.sanitized
  | .resizeLeased ref size _ =>
    if (s.control.check ref now).1.isOk then some size.sanitized else none
  | .release ref _ => if (s.control.release ref now).1 then some s.localSize else none
  | _ => none

def Ask.controlled (s : Session) (now : Instant) : Ask → Control
  | .input ref seq _ _ => (s.control.input ref seq now).2
  | .unattended .. => (s.control.leased now).2
  | .takeLocalControl _ => (s.control.localInput now).2
  | .resize .. => (s.control.leased now).2
  | .resizeLeased ref _ _ => (s.control.check ref now).2
  | .acquire fresh holder takeOver =>
    if s.exited then s.control else (s.control.acquire fresh holder takeOver now).2
  | .renew ref => (s.control.renew ref now).2
  | .release ref _ => (s.control.release ref now).2

theorem Control.lapse_lapse (c : Control) (now : Instant) :
    (c.lapse now).lapse now = c.lapse now := by
  cases h : c.lapsed now with
  | false => rw [lapse_eq h, lapse_eq h]
  | true =>
    have hlapse : c.lapse now = { c with generation := c.generation + 1, state := .nobody } := by
      rw [lapse, h, if_pos rfl]
    exact lapse_eq (hlapse ▸ rfl)

theorem applySize_size (s : Session) (size : TermSize) {resized : Bool} (h : resized = true) :
    (s.applySize size resized).2.size = size := by
  subst h
  unfold Session.applySize
  split
  · rename_i hsame
    exact hsame
  · rfl

theorem applySize_exited (s : Session) (size : TermSize) (resized : Bool) :
    (s.applySize size resized).2.exited = s.exited := by
  unfold Session.applySize
  split
  · rfl
  · split <;> rfl

theorem ask_control (s : Session) (now : Instant) (ask : Ask) :
    (ask.apply s now).control = (ask.controlled s now).lapse now ∧
      (ask.apply s now).exited = s.exited := by
  cases ask with
  | input ref seq data paste =>
    simp only [Ask.apply, Ask.controlled, Session.inputAccepted, Session.controlling,
      Control.controller]
    generalize s.control.input ref seq now = r
    obtain ⟨_ | _ | _, c⟩ := r <;> exact ⟨rfl, rfl⟩
  | unattended data paste =>
    simp only [Ask.apply, Ask.controlled, Session.unattended, Session.controlling,
      Control.controller]
    generalize s.control.leased now = r
    obtain ⟨_ | _, c⟩ := r
    · exact ⟨rfl, rfl⟩
    · exact ⟨c.lapse_lapse now, rfl⟩
  | takeLocalControl resized =>
    exact ⟨s.takeLocalControl_control now _, applySize_exited _ _ _⟩
  | resize size resized =>
    simp only [Ask.apply, Ask.controlled, Session.resize, Session.controlling, Control.controller]
    generalize s.control.leased now = r
    obtain ⟨_ | _, c⟩ := r
    · exact ⟨by rw [Session.applySize_control], applySize_exited _ _ _⟩
    · exact ⟨rfl, rfl⟩
  | resizeLeased ref size resized =>
    simp only [Ask.apply, Ask.controlled, Session.resizeLeased, Session.controlling,
      Control.controller]
    generalize s.control.check ref now = r
    obtain ⟨_ | _, c⟩ := r
    · exact ⟨rfl, rfl⟩
    · exact ⟨by rw [Session.applySize_control], applySize_exited _ _ _⟩
  | acquire fresh holder takeOver =>
    simp only [Ask.apply, Ask.controlled, Session.acquire, Session.controlling, Control.controller]
    by_cases hx : s.exited = true
    · rw [if_pos hx, if_pos hx]
      exact ⟨rfl, rfl⟩
    · rw [if_neg hx, if_neg hx]
      generalize s.control.acquire fresh holder takeOver now = r
      obtain ⟨_ | _, c⟩ := r <;> exact ⟨rfl, rfl⟩
  | renew ref =>
    simp only [Ask.apply, Ask.controlled, Session.renew, Session.controlling, Control.controller]
    generalize s.control.renew ref now = r
    obtain ⟨_ | _, c⟩ := r <;> exact ⟨rfl, rfl⟩
  | release ref resized =>
    simp only [Ask.apply, Ask.controlled, Session.release, Session.controlling, Control.controller]
    generalize s.control.release ref now = r
    obtain ⟨_ | _, c⟩ := r
    · exact ⟨rfl, rfl⟩
    · exact ⟨by rw [Session.applySize_control], applySize_exited _ _ _⟩

theorem ask_size {s : Session} (hx : s.exited = true) (now : Instant) (ask : Ask) :
    (ask.apply s now).size = (ask.sizeAsked s now).getD s.size := by
  cases ask with
  | input ref seq data paste =>
    simp only [Ask.apply, Session.inputAccepted, Session.controlling]
    generalize s.control.input ref seq now = r
    obtain ⟨_ | _ | _, c⟩ := r <;> rfl
  | unattended data paste =>
    simp only [Ask.apply, Session.unattended, Session.controlling]
    generalize s.control.leased now = r
    obtain ⟨_ | _, c⟩ := r <;> rfl
  | takeLocalControl resized =>
    exact applySize_size _ _ (by rw [hx, Bool.or_true])
  | resize size resized =>
    simp only [Ask.apply, Ask.sizeAsked, Session.resize, Session.controlling]
    generalize s.control.leased now = r
    obtain ⟨_ | _, c⟩ := r
    · exact applySize_size _ _ (by rw [hx, Bool.or_true])
    · rfl
  | resizeLeased ref size resized =>
    simp only [Ask.apply, Ask.sizeAsked, Session.resizeLeased, Session.controlling]
    generalize s.control.check ref now = r
    obtain ⟨_ | _, c⟩ := r
    · rfl
    · exact applySize_size _ _ (by rw [hx, Bool.or_true])
  | acquire fresh holder takeOver =>
    simp only [Ask.apply, Session.acquire, Session.controlling, hx, if_true]
    rfl
  | renew ref =>
    simp only [Ask.apply, Session.renew, Session.controlling]
    generalize s.control.renew ref now = r
    obtain ⟨_ | _, c⟩ := r <;> rfl
  | release ref resized =>
    simp only [Ask.apply, Ask.sizeAsked, Session.release, Session.controlling]
    generalize s.control.release ref now = r
    obtain ⟨_ | _, c⟩ := r
    · rfl
    · exact applySize_size _ _ (by rw [hx, Bool.or_true])

def Last (log : List Item) : Prop :=
  ∀ exit pre post, log = pre ++ Item.exited exit :: post → post = []

def View.watched {T : Type} (v : View T) : Bool := v.sinks.any (fun s => s.2 = .numbered)

/-- **When a section keeps the promise.** On a session that exited, and that someone
    watches with numbers, it gives the terminal no other size, and does not find that
    control changed hands. -/
def calm {T : Type} (v : View T) (t : Turn) : Bool :=
  v.exit.isNone || !v.watched ||
    match t.locked with
    | .ask ask now =>
      (ask.sizeAsked v.session now).all (fun size => size = v.session.size) &&
        ((ask.controlled v.session now).controller now).1 = v.announced
    | .controller now | .watch _ _ now => (v.session.control.controller now).1 = v.announced
    | _ => true

variable {T : Type} {v w : View T}

theorem watched_iff : v.watched = true ↔ ∃ id, (id, Sink.numbered) ∈ v.sinks := by
  rw [View.watched, List.any_eq_true]
  constructor
  · rintro ⟨⟨id, kind⟩, hs, hk⟩
    have hkind : kind = .numbered := of_decide_eq_true hk
    exact ⟨id, hkind ▸ hs⟩
  · rintro ⟨id, hs⟩
    exact ⟨_, hs, rfl⟩

theorem asked_log (E : Emulator T) (h : (v.sinks.map Prod.fst).Nodup) (ask : Ask) (now : Instant)
    (gone : List Nat) (id : Nat) :
    (v.asked E ask now gone).log id = v.log id ++
      if (ask.apply v.session now).size ≠ v.session.size ∧ (id, Sink.numbered) ∈ v.sinks then
        [Item.resized (v.seq + 1) (ask.apply v.session now).size] else [] := by
  unfold View.asked
  by_cases hsame : (ask.apply v.session now).size = v.session.size
  · rw [if_pos hsame, if_neg (fun hc => hc.1 hsame), append_nil]
    rfl
  · rw [if_neg hsame]
    refine (tell_log (by exact h) _ gone id).trans ?_
    refine congrArg (v.log id ++ ·) (if_congr ?_ rfl rfl)
    exact ⟨fun hid => ⟨hsame, hid⟩, And.right⟩

theorem asked_same (E : Emulator T) (v : View T) (ask : Ask) (now : Instant) (gone : List Nat) :
    (v.asked E ask now gone).session = ask.apply v.session now ∧
      (v.asked E ask now gone).announced = v.announced ∧
      (v.asked E ask now gone).exit = v.exit ∧
      (v.asked E ask now gone).sinks.Sublist v.sinks := by
  unfold View.asked
  dsimp only
  split
  · exact ⟨rfl, rfl, rfl, List.Sublist.refl _⟩
  · exact ⟨rfl, rfl, rfl, filter_sublist⟩

theorem deliver_log (E : Emulator T) (h : InStep v) (batch : Bytes) (now shown : Instant)
    (gone gone' : List Nat) (id : Nat) :
    ∃ seq bytes, (v.deliver E batch now shown gone gone').2.log id =
      (v.announce now gone).log id ++
        if (id, Sink.numbered) ∈ (v.announce now gone).sinks then [Item.output seq bytes] else [] := by
  have ha := h.announce now gone
  have hterm : ∀ id, ((v.announce now gone).responder now).1 = some id →
      (id, Sink.terminal) ∈ (v.announce now gone).sinks := fun id => responder_terminal
  unfold View.deliver
  generalize v.announce now gone = w at *
  refine ⟨w.seq + 1, if (w.queries.feed batch).2.isEmpty then batch
    else (w.queries.feed batch).2.without batch, ?_⟩
  rw [View.log, logOf_append]
  exact congrArg (w.log id ++ ·) (logOf_hands (hands_handed ha hterm (w.seq + 1) batch _) ha.nodup id)

theorem watch_sinks (E : Emulator T) (v : View T) (after : Option Nat) (accepts : Nat)
    (now : Instant) (gone : List Nat) {id : Nat}
    (h : (id, Sink.numbered) ∈ (v.watch E after accepts now gone).sinks) :
    (id, Sink.numbered) ∈ v.sinks ∨ id = v.nextAttachment ∧
      (v.opening E (v.replay.getD (.new v.seq v.session.size)) after).length + 1 +
        v.exit.toList.length ≤ accepts := by
  have hsinks := announce_sinks (({ v with
    nextAttachment := v.nextAttachment + 1
    replay := some (v.replay.getD (.new v.seq v.session.size)) } : View T).offer
      v.nextAttachment (v.opening E (v.replay.getD (.new v.seq v.session.size)) after) accepts)
    now gone
  have hexit := (announce_same (({ v with
    nextAttachment := v.nextAttachment + 1
    replay := some (v.replay.getD (.new v.seq v.session.size)) } : View T).offer
      v.nextAttachment (v.opening E (v.replay.getD (.new v.seq v.session.size)) after) accepts)
    now gone).2.2.2.2.2.2.1
  unfold View.watch at h
  dsimp only at h
  generalize (({ v with
    nextAttachment := v.nextAttachment + 1
    replay := some (v.replay.getD (.new v.seq v.session.size)) } : View T).offer
      v.nextAttachment (v.opening E (v.replay.getD (.new v.seq v.session.size)) after)
      accepts).announce now gone = w at *
  split at h
  · exact Or.inl (hsinks.subset h)
  split at h
  · exact Or.inl (hsinks.subset h)
  · rename_i hall
    obtain h | h := mem_snoc.mp h
    · exact Or.inl (hsinks.subset h)
    · refine Or.inr ⟨congrArg Prod.fst h, ?_⟩
      have hlen : v.exit.toList.length = w.exit.toList.length := by rw [hexit]; rfl
      rw [length_cons, length_map] at hall
      omega

theorem watch_same (E : Emulator T) (v : View T) (after : Option Nat) (accepts : Nat)
    (now : Instant) (gone : List Nat) :
    (v.watch E after accepts now gone).exit = v.exit ∧
      (v.watch E after accepts now gone).session.exited = v.session.exited := by
  have hsame := announce_same (({ v with
    nextAttachment := v.nextAttachment + 1
    replay := some (v.replay.getD (.new v.seq v.session.size)) } : View T).offer
      v.nextAttachment (v.opening E (v.replay.getD (.new v.seq v.session.size)) after) accepts)
    now gone
  obtain ⟨_, _, _, _, _, _, hexit, hflag⟩ := hsame
  unfold View.watch
  dsimp only
  split
  · exact ⟨hexit, hflag⟩
  · split <;> exact ⟨hexit, hflag⟩

theorem last_of_none {log : List Item} (h : ∀ exit, .exited exit ∉ log) : Last log := by
  rintro exit pre post rfl
  exact absurd (mem_append_right _ mem_cons_self) (h exit)

theorem Last.before {log more : List Item} (h : Last (log ++ more)) : Last log := by
  rintro exit pre post rfl
  have hnil := h exit pre (post ++ more) (by rw [append_assoc, cons_append])
  exact (append_eq_nil_iff.mp hnil).1

theorem Last.after {log more : List Item} (hlog : ∀ exit, .exited exit ∉ log) (h : Last more) :
    Last (log ++ more) := by
  intro exit pre post heq
  obtain ⟨mid, rfl, hmid⟩ | ⟨mid, rfl, hmid⟩ := append_eq_append_iff.mp heq
  · exact h exit mid post hmid
  -- the exit is not in what came before, so that is all of `pre`
  · cases mid with
    | nil => exact h exit [] post hmid.symm
    | cons item mid =>
      obtain ⟨rfl, _⟩ := List.cons.inj hmid
      exact absurd (mem_append_right _ mem_cons_self) (hlog exit)

theorem not_last {log more : List Item} {exit : ExitInfo} (hin : .exited exit ∈ log)
    (hmore : more ≠ []) : ¬ Last (log ++ more) := by
  intro h
  obtain ⟨pre, post, rfl⟩ := append_of_mem hin
  have hnil := h exit pre (post ++ more) (by rw [append_assoc, cons_append])
  exact hmore (append_eq_nil_iff.mp hnil).2

theorem last_one (exit : ExitInfo) : Last [.exited exit] := by
  intro e pre post heq
  have hlen := congrArg List.length heq
  rw [length_append, length_cons, length_cons] at hlen
  exact length_eq_zero_iff.mp (by rw [length_nil] at hlen; omega)

theorem exited_not_in_opening (E : Emulator T) (h : InStep v) {r : Replay}
    (hr : r.Keeps v.first v.stream) (after : Option Nat) (exit : ExitInfo) :
    .exited exit ∉ v.opening E r after := by
  obtain ⟨n, opening, _, hopens, heq⟩ := opening_began E h hr after
  rw [heq, mem_cons]
  rintro (rfl | hin)
  · exact hopens
  · have hcounted := filter_eq_self.mp (numberFrom_counted n (v.stream.drop n)) _ hin
    exact Bool.noConfusion hcounted

theorem last_firstItems {opening : List Item} (hopening : ∀ exit, .exited exit ∉ opening)
    (controller : Controller) (exit : Option ExitInfo) (accepts : Nat) :
    Last (firstItems opening controller exit accepts) := by
  have hrest : Last (.control controller :: exit.toList.map Item.exited) := by
    have hcontrol : ∀ exit, Item.exited exit ∉ [Item.control controller] := by
      intro _ hin
      exact Item.noConfusion (mem_singleton.mp hin)
    refine Last.after hcontrol ?_
    cases exit with
    | none => exact last_of_none (fun _ hin => by cases hin)
    | some exit => exact last_one exit
  refine Last.after (fun e hin => hopening e (mem_of_mem_take hin)) ?_
  split
  · exact last_of_none (fun _ hin => by cases hin)
  have hsplit := take_append_drop (accepts - opening.length + 1)
    (.control controller :: exit.toList.map Item.exited)
  rw [← hsplit] at hrest
  exact hrest.before

/-- Until the exit nobody was told of it, and after it everybody who watches was. -/
structure Ended (v : View T) : Prop where
  inStep : InStep v
  flag : v.session.exited = v.exit.isSome
  notYet : v.exit = none → ∀ id exit, .exited exit ∉ v.log id
  told : ∀ exit, v.exit = some exit → ∀ id, (id, Sink.numbered) ∈ v.sinks →
    .exited exit ∈ v.log id

theorem ended_new (E : Emulator T) (holds : Holds) (size : TermSize) :
    Ended (View.new E holds size) :=
  ⟨inStep_new E holds size, rfl, (fun _ _ _ h => by cases h), (fun _ h => by cases h)⟩

theorem Ended.more (h : Ended v) (hf : InStep w) (hexit : w.exit = v.exit)
    (hflag : w.session.exited = v.session.exited)
    (hlog : ∀ id, ∃ more, w.log id = v.log id ++ more ∧ ∀ exit, .exited exit ∉ more)
    (hsinks : ∀ id, (id, Sink.numbered) ∈ w.sinks → (id, Sink.numbered) ∈ v.sinks) : Ended w := by
  refine ⟨hf, by rw [hflag, hexit, h.flag], ?_, ?_⟩
  · intro hnone id exit hin
    obtain ⟨more, heq, hmore⟩ := hlog id
    rw [heq, mem_append] at hin
    obtain hin | hin := hin
    · exact h.notYet (hexit ▸ hnone) id exit hin
    · exact hmore exit hin
  · intro exit hsome id hid
    obtain ⟨more, heq, _⟩ := hlog id
    rw [heq]
    exact mem_append_left _ (h.told exit (hexit ▸ hsome) id (hsinks id hid))

theorem control_no_exit {P : Prop} [Decidable P] (controller : Controller) (exit : ExitInfo) :
    .exited exit ∉ (if P then [Item.control controller] else []) := by
  split
  · exact fun hin => Item.noConfusion (mem_singleton.mp hin)
  · exact not_mem_nil

theorem Ended.announce (h : Ended v) (now : Instant) (gone : List Nat) :
    Ended (v.announce now gone) := by
  have hsame := announce_same v now gone
  refine h.more (h.inStep.announce now gone) hsame.2.2.2.2.2.2.1 hsame.2.2.2.2.2.2.2 ?_
    (fun id hid => (announce_sinks v now gone).subset hid)
  exact fun id => ⟨_, announce_log h.inStep.nodup now gone id, fun exit => control_no_exit _ exit⟩

theorem Ended.asked (E : Emulator T) (h : Ended v) (ask : Ask) (now : Instant) (gone : List Nat) :
    Ended (v.asked E ask now gone) := by
  obtain ⟨hsession, _, hexit, hsinks⟩ := asked_same E v ask now gone
  have hflag : (v.asked E ask now gone).session.exited = v.session.exited := by
    rw [hsession]
    exact (ask_control v.session now ask).2
  refine h.more (h.inStep.asked E ask now gone) hexit hflag (fun id => ?_)
    (fun id hid => hsinks.subset hid)
  refine ⟨_, asked_log E h.inStep.nodup ask now gone id, fun exit => ?_⟩
  split
  · exact fun hin => Item.noConfusion (mem_singleton.mp hin)
  · exact not_mem_nil

theorem Ended.deliver (E : Emulator T) (h : Ended v) (batch : Bytes) (now shown : Instant)
    (gone gone' : List Nat) : Ended (v.deliver E batch now shown gone gone').2 := by
  have ha := h.announce now gone
  refine ha.more (h.inStep.deliver E batch now shown gone gone') rfl rfl (fun id => ?_) ?_
  · obtain ⟨seq, bytes, heq⟩ := deliver_log E h.inStep batch now shown gone gone' id
    refine ⟨_, heq, fun exit => ?_⟩
    split
    · exact fun hin => Item.noConfusion (mem_singleton.mp hin)
    · exact not_mem_nil
  · intro id hid
    exact mem_of_mem_filter hid

theorem Ended.attach (E : Emulator T) (h : Ended v) (open_ : Bool) : Ended (v.attach E open_) := by
  refine h.more (h.inStep.attach E open_) rfl rfl (fun id => ⟨[], ?_, nofun⟩) ?_
  · rw [append_nil, View.log, View.attach, logOf_append, logOf_one]
    exact (congrArg _ (ite_self [])).trans (append_nil _)
  · intro id hid
    simp only [View.attach] at hid
    split at hid
    · obtain hid | hid := mem_snoc.mp hid
      · exact hid
      · exact Sink.noConfusion (Prod.ext_iff.mp hid).2
    · exact hid

theorem Ended.exited (h : Ended v) (exit : ExitInfo) (gone : List Nat) :
    Ended (v.exited exit gone) := by
  refine ⟨h.inStep.exited exit gone, rfl, (fun hnone => by cases hnone), ?_⟩
  rintro _ ⟨rfl⟩ id hid
  have hin : (id, Sink.numbered) ∈ v.sinks := mem_of_mem_filter hid
  have hlog : (v.exited exit gone).log id =
      v.log id ++ if (id, Sink.numbered) ∈ v.sinks then [Item.exited exit] else [] :=
    tell_log (by exact h.inStep.nodup) _ gone id
  rw [hlog, if_pos hin]
  exact mem_append_right _ mem_cons_self

theorem Ended.watch (E : Emulator T) (h : Ended v) (after : Option Nat) (accepts : Nat)
    (now : Instant) (gone : List Nat) : Ended (v.watch E after accepts now gone) := by
  have hlog := fun id => watch_log E h.inStep after accepts now gone id
  obtain ⟨hexit, hflag⟩ := watch_same E v after accepts now gone
  refine ⟨h.inStep.watch E after accepts now gone, by rw [hflag, hexit, h.flag], ?_, ?_⟩
  · intro hnone id exit hin
    rw [hlog, mem_append] at hin
    obtain hin | hin := hin
    · exact h.notYet (hexit ▸ hnone) id exit hin
    · rw [hexit] at hnone
      split at hin
      · rw [hnone] at hin
        obtain hin | hin := mem_append.mp hin
        · exact exited_not_in_opening E h.inStep h.inStep.replay after exit
            (mem_of_mem_take hin)
        · split at hin
          · cases hin
          · exact Item.noConfusion (mem_singleton.mp (mem_of_mem_take hin))
      · exact control_no_exit _ exit hin
  · intro exit hsome id hid
    rw [hexit] at hsome
    rw [hlog]
    obtain hid | ⟨rfl, hall⟩ := watch_sinks E v after accepts now gone hid
    · exact mem_append_left _ (h.told exit hsome id hid)
    · rw [if_pos rfl, firstItems, hsome]
      rw [hsome] at hall
      have hone : (some exit).toList.length = 1 := rfl
      refine mem_append_right _ (mem_append_right _ ?_)
      rw [if_neg (by omega), take_of_length_le (by simp; omega)]
      exact mem_cons_of_mem _ mem_cons_self

theorem ended_step (E : Emulator T) {t : Turn} (h : Ended v) (hs : v.step E t = some w) : Ended w := by
  obtain ⟨locked, gone, gone'⟩ := t
  cases locked with
  | attach open_ =>
    cases hs
    exact h.attach E open_
  | watch after accepts now =>
    cases hs
    exact h.watch E after accepts now gone'
  | detach attachment =>
    have hf := inStep_step E h.inStep hs
    cases hs
    exact h.more hf rfl rfl (fun id => ⟨[], (append_nil _).symm, nofun⟩)
      (fun id hid => mem_of_mem_filter hid)
  | deliver batch now shown =>
    simp only [View.step] at hs
    split at hs
    · cases hs
    · cases hs
      exact h.deliver E batch now shown gone' gone
  | ask ask now =>
    cases hs
    exact (h.asked E ask now gone).announce now gone'
  | localTyped data now =>
    have hf := inStep_step E h.inStep hs
    cases hs
    exact h.more hf rfl (localTyped_size v.session data now).2
      (fun id => ⟨[], (append_nil _).symm, nofun⟩) (fun id hid => hid)
  | controller now =>
    cases hs
    exact h.announce now gone'
  | exited exit =>
    simp only [View.step] at hs
    split at hs
    · cases hs
    · cases hs
      exact h.exited exit gone

/-! ## Calm sections, and no others, keep the promise -/

theorem announce_quiet (h : InStep v) {now : Instant} (gone : List Nat)
    (hq : v.watched = false ∨ (v.session.control.controller now).1 = v.announced) (id : Nat) :
    (v.announce now gone).log id = v.log id := by
  rw [announce_log h.nodup, if_neg, append_nil]
  rintro ⟨hne, hid⟩
  obtain hq | hq := hq
  · rw [watched_iff.mpr ⟨id, hid⟩] at hq
    exact Bool.noConfusion hq
  · exact hne hq

theorem sizeAsked_all {s : Session} (hx : s.exited = true) (now : Instant) (ask : Ask) :
    (ask.sizeAsked s now).all (fun size => size = s.size) = true ↔ (ask.apply s now).size = s.size := by
  rw [ask_size hx]
  cases ask.sizeAsked s now with
  | none => exact ⟨fun _ => rfl, fun _ => rfl⟩
  | some size => exact decide_eq_true_iff

theorem controlled_controller (s : Session) (now : Instant) (ask : Ask) :
    ((ask.apply s now).control.controller now).1 = ((ask.controlled s now).controller now).1 := by
  rw [(ask_control s now ask).1]
  exact congrArg Control.holder ((ask.controlled s now).lapse_lapse now)

theorem calm_asked (E : Emulator T) (h : Ended v) (hx : v.exit.isSome = true) {ask : Ask}
    {now : Instant} {gone gone' : List Nat} (hc : calm v ⟨.ask ask now, gone, gone'⟩ = true)
    (id : Nat) : (v.controlling E ask now gone gone').log id = v.log id := by
  have hf := h.inStep.asked E ask now gone
  obtain ⟨hsession, hannounced, _, hsinks⟩ := asked_same E v ask now gone
  have hcalm : v.watched = false ∨ (ask.apply v.session now).size = v.session.size ∧
      ((ask.controlled v.session now).controller now).1 = v.announced := by
    rw [calm, ← Option.not_isSome, hx] at hc
    cases hw : v.watched with
    | false => exact Or.inl rfl
    | true =>
      rw [hw] at hc
      have hboth := (Bool.and_eq_true _ _).mp hc
      exact Or.inr ⟨(sizeAsked_all (h.flag.trans hx) now ask).mp hboth.1, of_decide_eq_true hboth.2⟩
  have hquiet : (v.asked E ask now gone).watched = false ∨
      ((v.asked E ask now gone).session.control.controller now).1 =
        (v.asked E ask now gone).announced := by
    obtain hcalm | hcalm := hcalm
    · refine Or.inl (Bool.eq_false_iff.mpr (fun hw => ?_))
      obtain ⟨id', hid'⟩ := watched_iff.mp hw
      rw [watched_iff.mpr ⟨id', hsinks.subset hid'⟩] at hcalm
      exact Bool.noConfusion hcalm
    · refine Or.inr ?_
      rw [hsession, hannounced, controlled_controller]
      exact hcalm.2
  rw [View.controlling, announce_quiet hf gone' hquiet, asked_log E h.inStep.nodup, if_neg,
    append_nil]
  rintro ⟨hne, hid⟩
  obtain hcalm | hcalm := hcalm
  · rw [watched_iff.mpr ⟨id, hid⟩] at hcalm
    exact Bool.noConfusion hcalm
  · exact hne hcalm.1

theorem calm_log (E : Emulator T) {t : Turn} (h : Ended v) (hx : v.exit.isSome = true)
    (hc : calm v t = true) (hs : v.step E t = some w) (id : Nat) :
    w.log id = v.log id ∨ v.log id = [] ∧ Last (w.log id) := by
  obtain ⟨locked, gone, gone'⟩ := t
  cases locked with
  | attach open_ =>
    cases hs
    refine Or.inl ?_
    rw [View.log, View.attach, logOf_append, logOf_one]
    exact (congrArg _ (ite_self [])).trans (append_nil _)
  | watch after accepts now =>
    cases hs
    rw [watch_log E h.inStep]
    by_cases hid : v.nextAttachment = id
    · subst hid
      have hempty : v.log v.nextAttachment = [] := logOf_fresh h.inStep.sentFresh
      rw [if_pos rfl, hempty, nil_append]
      exact Or.inr ⟨rfl, last_firstItems
        (fun exit => exited_not_in_opening E h.inStep h.inStep.replay after exit) _ _ _⟩
    · refine Or.inl ?_
      rw [if_neg hid, if_neg, append_nil]
      rintro ⟨hne, hin⟩
      rw [calm, ← Option.not_isSome, hx, watched_iff.mpr ⟨id, hin⟩] at hc
      exact hne (of_decide_eq_true hc)
  | detach attachment | localTyped data now =>
    cases hs
    exact Or.inl rfl
  | deliver batch now shown | exited exit =>
    simp only [View.step, hx, if_true] at hs
    cases hs
  | ask ask now =>
    cases hs
    exact Or.inl (calm_asked E h hx hc id)
  | controller now =>
    cases hs
    refine Or.inl (announce_quiet h.inStep gone' ?_ id)
    rw [calm, ← Option.not_isSome, hx] at hc
    cases hw : v.watched with
    | false => exact Or.inl rfl
    | true =>
      rw [hw] at hc
      exact Or.inr (of_decide_eq_true hc)

theorem exit_step (E : Emulator T) {t : Turn} (hs : v.step E t = some w) :
    w.exit = v.exit ∨ ∃ exit, w = v.exited exit t.gone := by
  obtain ⟨locked, gone, gone'⟩ := t
  cases locked with
  | watch after accepts now =>
    cases hs
    exact Or.inl (watch_same E v after accepts now gone').1
  | deliver batch now shown =>
    simp only [View.step] at hs
    split at hs
    · cases hs
    · cases hs
      exact Or.inl (announce_same v now gone').2.2.2.2.2.2.1
  | ask ask now =>
    cases hs
    exact Or.inl ((announce_same _ now gone').2.2.2.2.2.2.1.trans (asked_same E v ask now gone).2.2.1)
  | controller now =>
    cases hs
    exact Or.inl (announce_same v now gone').2.2.2.2.2.2.1
  | exited exit =>
    simp only [View.step] at hs
    split at hs
    · cases hs
    · cases hs
      exact Or.inr ⟨exit, rfl⟩
  | attach | detach | localTyped =>
    cases hs
    exact Or.inl rfl

/-- **A calm section keeps the promise.** -/
theorem last_step (E : Emulator T) {t : Turn} (h : Ended v) (hlast : ∀ id, Last (v.log id))
    (hc : calm v t = true) (hs : v.step E t = some w) (id : Nat) : Last (w.log id) := by
  cases hx : v.exit with
  | some exit =>
    obtain hsame | ⟨_, hnew⟩ := calm_log E h (by rw [hx]; rfl) hc hs id
    · exact hsame ▸ hlast id
    · exact hnew
  | none =>
    obtain hsame | ⟨exit, rfl⟩ := exit_step E hs
    · exact last_of_none (fun exit => (ended_step E h hs).notYet (hsame.trans hx) id exit)
    · have hlog : (v.exited exit t.gone).log id =
          v.log id ++ if (id, Sink.numbered) ∈ v.sinks then [Item.exited exit] else [] :=
        tell_log (by exact h.inStep.nodup) _ t.gone id
      rw [hlog]
      refine Last.after (h.notYet hx id) ?_
      split
      · exact last_one exit
      · exact last_of_none (fun _ hin => by cases hin)

/-- **And any other breaks it.** -/
theorem not_calm_step (E : Emulator T) {t : Turn} (h : Ended v) (hc : calm v t = false)
    (hs : v.step E t = some w) : ∃ id, ¬ Last (w.log id) := by
  simp only [calm, Bool.or_eq_false_iff, Option.isNone_eq_false_iff, Bool.not_eq_false'] at hc
  obtain ⟨⟨hx, hw⟩, hc⟩ := hc
  obtain ⟨exit, hexit⟩ := isSome_iff_exists.mp hx
  obtain ⟨id, hid⟩ := watched_iff.mp hw
  have htold := h.told exit hexit id hid
  refine ⟨id, ?_⟩
  obtain ⟨locked, gone, gone'⟩ := t
  cases locked with
  | watch after accepts now =>
    cases hs
    have hne : v.nextAttachment ≠ id := fun he => Nat.lt_irrefl id (he ▸ h.inStep.fresh _ hid)
    rw [watch_log E h.inStep, if_neg hne, if_pos ⟨of_decide_eq_false hc, hid⟩]
    exact not_last htold (cons_ne_nil _ _)
  | controller now =>
    cases hs
    rw [announce_log h.inStep.nodup, if_pos ⟨of_decide_eq_false hc, hid⟩]
    exact not_last htold (cons_ne_nil _ _)
  | ask ask now =>
    cases hs
    have hf := h.inStep.asked E ask now gone
    rw [View.controlling, announce_log hf.nodup, asked_log E h.inStep.nodup, append_assoc]
    refine not_last htold (fun hnil => ?_)
    obtain ⟨hfirst, hthen⟩ := append_eq_nil_iff.mp hnil
    have hsize : (ask.apply v.session now).size = v.session.size := by
      by_contra hne
      rw [if_pos ⟨hne, hid⟩] at hfirst
      exact cons_ne_nil _ _ hfirst
    -- the terminal keeps its size, so the viewer is still attached when control is looked at
    have hsame : v.asked E ask now gone = { v with session := ask.apply v.session now } := if_pos hsize
    have hheld : ((ask.controlled v.session now).controller now).1 ≠ v.announced := by
      dsimp only at hc
      rw [(sizeAsked_all (h.flag.trans hx) now ask).mpr hsize, Bool.true_and] at hc
      exact of_decide_eq_false hc
    rw [if_pos, hsame] at hthen
    · exact cons_ne_nil _ _ hthen
    · rw [hsame]
      exact ⟨fun heq => hheld ((controlled_controller _ _ _).symm.trans heq), hid⟩
  | attach | detach | deliver | localTyped | exited => exact Bool.noConfusion hc

theorem log_step (E : Emulator T) {t : Turn} (h : Ended v) (hs : v.step E t = some w) (id : Nat) :
    ∃ more, w.log id = v.log id ++ more := by
  obtain ⟨locked, gone, gone'⟩ := t
  cases locked with
  | attach open_ =>
    cases hs
    exact ⟨_, logOf_append _ _ id⟩
  | watch after accepts now =>
    cases hs
    exact ⟨_, watch_log E h.inStep after accepts now gone' id⟩
  | detach attachment | localTyped data now =>
    cases hs
    exact ⟨[], (append_nil _).symm⟩
  | deliver batch now shown =>
    simp only [View.step] at hs
    split at hs
    · cases hs
    cases hs
    obtain ⟨seq, bytes, heq⟩ := deliver_log E h.inStep batch now shown gone' gone id
    rw [heq, announce_log h.inStep.nodup, append_assoc]
    exact ⟨_, rfl⟩
  | ask ask now =>
    cases hs
    have hf := h.inStep.asked E ask now gone
    rw [View.controlling, announce_log hf.nodup, asked_log E h.inStep.nodup, append_assoc]
    exact ⟨_, rfl⟩
  | controller now =>
    cases hs
    exact ⟨_, announce_log h.inStep.nodup now gone' id⟩
  | exited exit =>
    simp only [View.step] at hs
    split at hs
    · cases hs
    · cases hs
      exact ⟨_, tell_log (by exact h.inStep.nodup) _ gone id⟩

theorem log_run (E : Emulator T) {turns : List Turn} (h : Ended v)
    (hr : run (View.step E) v turns = some w) (id : Nat) : ∃ more, w.log id = v.log id ++ more := by
  induction turns generalizing v with
  | nil =>
    rw [run_nil, Option.some.injEq] at hr
    exact ⟨[], hr ▸ (append_nil _).symm⟩
  | cons t turns ih =>
    obtain ⟨u, hu, hr⟩ := run_cons.mp hr
    obtain ⟨more, hmore⟩ := log_step E h hu id
    obtain ⟨more', hmore'⟩ := ih (ended_step E h hu) hr
    exact ⟨more ++ more', by rw [hmore', hmore, append_assoc]⟩

theorem last_run_iff (E : Emulator T) {turns : List Turn} (h : Ended v)
    (hlast : ∀ id, Last (v.log id)) (hr : run (View.step E) v turns = some w) :
    (∀ id, Last (w.log id)) ↔ Meets (View.step E) (fun v t => calm v t = true) v turns := by
  induction turns generalizing v with
  | nil =>
    rw [run_nil, Option.some.injEq] at hr
    exact ⟨fun _ => trivial, fun _ => hr ▸ hlast⟩
  | cons t turns ih =>
    obtain ⟨u, hu, hr⟩ := run_cons.mp hr
    have hended := ended_step E h hu
    constructor
    · intro hw
      have hu_last : ∀ id, Last (u.log id) := by
        intro id
        obtain ⟨more, hmore⟩ := log_run E hended hr id
        exact Last.before (hmore ▸ hw id)
      refine ⟨?_, fun u' hu' => ?_⟩
      · by_contra hc
        obtain ⟨id, hid⟩ := not_calm_step E h (Bool.not_eq_true _ ▸ hc) hu
        exact hid (hu_last id)
      · rw [hu, Option.some.injEq] at hu'
        exact hu' ▸ (ih hended hu_last hr).mp hw
    · rintro ⟨hc, hrest⟩
      exact (ih hended (last_step E h hlast hc hu) hr).mpr (hrest u hu)

/-- **Nothing follows `Exited`, for any viewer, in exactly the runs whose sections are all
    calm.** -/
theorem exited_last_iff (E : Emulator T) (holds : Holds) (size : TermSize) (turns : List Turn)
    (v : View T) (hr : run (View.step E) (View.new E holds size) turns = some v) :
    (∀ id, Last (v.log id)) ↔
      Meets (View.step E) (fun v t => calm v t = true) (View.new E holds size) turns :=
  last_run_iff E (ended_new E holds size) (fun _ => last_of_none (fun _ hin => by cases hin)) hr

/-- A viewer watches, the program ends, and the person here resizes the window. -/
def resizedAfterExit : List Turn :=
  [⟨.watch none 9 0, [], []⟩, ⟨.exited ⟨0, true, none⟩, [], []⟩,
    ⟨.ask (.resize ⟨100, 30⟩ true) 1, [], []⟩]

def leftAlone : List Turn :=
  [⟨.watch none 9 0, [], []⟩, ⟨.deliver [0x68, 0x69] 1 1, [], []⟩,
    ⟨.exited ⟨0, true, none⟩, [], []⟩, ⟨.ask (.resize ⟨80, 24⟩ true) 2, [], []⟩,
    ⟨.watch none 9 3, [], []⟩]

theorem left_alone_last :
    (viewAfter leftAlone).log 1 = [.snapshot 0 ⟨80, 24⟩ [ESC, 0x63], .control .nobody,
      .output 1 [0x68, 0x69], .exited ⟨0, true, none⟩] ∧
    ((∀ id, Last ((viewAfter leftAlone).log id)) ↔
      Meets (View.step plain) (fun v t => calm v t = true) (.new plain .default ⟨80, 24⟩) leftAlone) ∧
    Meets (View.step plain) (fun v t => calm v t = true) (.new plain .default ⟨80, 24⟩) leftAlone :=
  ⟨by decide +kernel,
    exited_last_iff plain .default ⟨80, 24⟩ leftAlone _ (run_viewAfter (by decide +kernel)),
    meets_iff.mp (by decide +kernel)⟩

theorem resized_after_exit_follows :
    ∃ v, run (View.step plain) (.new plain .default ⟨80, 24⟩) resizedAfterExit = some v ∧
      v.log 1 = [.snapshot 0 ⟨80, 24⟩ [ESC, 0x63], .control .nobody, .exited ⟨0, true, none⟩,
        .resized 1 ⟨100, 30⟩] ∧ ¬ Last (v.log 1) := by
  have hlog : (viewAfter resizedAfterExit).log 1 = [.snapshot 0 ⟨80, 24⟩ [ESC, 0x63],
      .control .nobody, .exited ⟨0, true, none⟩, .resized 1 ⟨100, 30⟩] := by decide +kernel
  refine ⟨_, run_viewAfter (by decide +kernel), hlog, fun h => ?_⟩
  have hnil := h ⟨0, true, none⟩ [.snapshot 0 ⟨80, 24⟩ [ESC, 0x63], .control .nobody]
    [.resized 1 ⟨100, 30⟩] hlog
  exact cons_ne_nil _ _ hnil

end Yardsort.Pty
