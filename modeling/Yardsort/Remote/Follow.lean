import Yardsort.Lib.Run
import Yardsort.Remote.Walk

/- Following activity (`activity.subscribe`; `Visitor::poll` of `core/src/remote/serve.rs`, with
   the client's `Subscription` of `remote-client/src/channel.ts`).

   A subscription is one number: each read of a poll takes what its scope holds after it, and
   moves it past what was read. Events are recorded, and linked to their conversation, at any time
   between. What the device took in are the events of the scope up to the position as long as no
   link makes an event match behind it (`follow_sends`); a link that does is never made up for
   (`follow_skips_a_linked_event`). -/
namespace Yardsort.Remote
open Yardsort.Lib Yardsort.Remote.Activity

structure ActivityBatch where
  events : List ActivityEvent
  newer : Cursor
  deriving DecidableEq

def ActivityBatch.seq (batch : ActivityBatch) : Nat :=
  match activityBound batch.newer with
  | .ok (_, seq) => seq
  | .error _ => 0

structure Following where
  /-- What the host has recorded. -/
  events : Events
  /-- Where the first subscription started. -/
  start : Nat
  /-- The number of the last event the device was sent or need not be. -/
  after : Nat
  /-- The batches the device took in. -/
  taken : List ActivityBatch
  deriving DecidableEq

inductive FollowAction where
  | recorded (row : EventRow)
  | linked (runId sessionId : String)
  /-- One read of a poll, and whether the device's queue takes a batch. -/
  | read (accepted : Bool)
  /-- A new subscription after a batch's `newer`: later ones were lost with the connection. -/
  | again (index : Nat)

section
variable (f : HostFacade) (grant : Grant) (read : String → Payload)
  (workspace : Option WorkspaceId) (session : Option SessionRecordId)

def pollRead (s : Following) (accepted : Bool) : Following :=
  match (f.recording s.events).recordedAfter grant read workspace session s.after with
  -- It waits for the next poll.
  | .error _ => s
  | .ok (events, last) =>
    if last = s.after then s
    else if events = [] then { s with after := last }
    else match activityCursor 'n' last with
      | .error _ => s
      | .ok newer =>
        if accepted then { s with after := last, taken := s.taken ++ [⟨events, newer⟩] } else s

def followStep (s : Following) : FollowAction → Option Following
  | .recorded row => (s.events.add row).map fun events => { s with events }
  | .linked runId sessionId => some { s with events := s.events.link runId sessionId }
  | .read accepted => some (pollRead f grant read workspace session s accepted)
  | .again index =>
    match s.taken[index]? with
    | none => none
    | some batch =>
      match (f.recording s.events).subscriptionStart grant ⟨workspace, session, some batch.newer⟩ with
      | .error _ => none
      | .ok (after, _) => some { s with after, taken := s.taken.take (index + 1) }

/-- No link makes an event match that is shown, and that the position is already past. -/
def LinksAhead (filter : EventFilter) (s : Following) : FollowAction → Prop
  | .linked runId sessionId => ∀ row ∈ s.events.rows, filter.admits row = false →
      filter.admits (Events.linked runId sessionId row) = true → (event read row).isSome →
      row.seq ≤ s.start ∨ s.after < row.seq
  | _ => True

end

/-- The events of a scope with numbers above one and up to another, as they are shown. -/
def owed (read : String → Payload) (filter : EventFilter) (events : Events) (low high : Nat) :
    List ActivityEvent :=
  ((events.matching filter).filter fun row => low < row.seq && row.seq ≤ high).filterMap (event read)

/-- An event, whatever its conversation: that may become known after it was sent. -/
def ActivityEvent.unlinked (e : ActivityEvent) : ActivityEvent := { e with session := none }

def pick (read : String → Payload) (filter : EventFilter) (low high : Nat) (row : EventRow) :
    Option ActivityEvent :=
  if filter.admits row && (low < row.seq && row.seq ≤ high) then event read row else none

section
variable {read : String → Payload} {filter : EventFilter}

theorem owed_eq (events : Events) (low high : Nat) :
    owed read filter events low high = events.rows.filterMap (pick read filter low high) := by
  rw [owed, Events.matching, filter_filter, List.filterMap_filter]
  refine filterMap_congr fun row _ => ?_
  rw [pick, Bool.and_comm]

theorem linked_cases (runId sessionId : String) (row : EventRow) :
    Events.linked runId sessionId row = row ∨
      row.sessionId = none ∧
        Events.linked runId sessionId row = { row with sessionId := some sessionId } := by
  unfold Events.linked
  split
  · rename_i h
    exact .inr ⟨h.2, rfl⟩
  · exact .inl rfl

theorem admits_linked (runId sessionId : String) {row : EventRow} (h : filter.admits row = true) :
    filter.admits (Events.linked runId sessionId row) = true := by
  obtain heq | ⟨hnone, heq⟩ := linked_cases runId sessionId row
  · rw [heq]
    exact h
  · rw [heq]
    unfold EventFilter.admits at h ⊢
    rw [Bool.and_eq_true] at h ⊢
    refine ⟨h.1, ?_⟩
    have hsession := h.2
    rw [hnone] at hsession
    cases hfilter : filter.sessionId with
    | none => rfl
    | some id =>
      rw [hfilter] at hsession
      cases hsession

theorem event_linked (read : String → Payload) (runId sessionId : String) (row : EventRow) :
    (event read (Events.linked runId sessionId row)).map ActivityEvent.unlinked =
      (event read row).map ActivityEvent.unlinked := by
  obtain heq | ⟨-, heq⟩ := linked_cases runId sessionId row
  · rw [heq]
  · rw [heq]
    unfold event
    dsimp only
    split
    · rfl
    · simp only [Option.map_eq_bind, bind_eq_bind, Option.bind_assoc]
      rfl

theorem event_linked_isSome (read : String → Payload) (runId sessionId : String)
    (row : EventRow) :
    (event read (Events.linked runId sessionId row)).isSome = (event read row).isSome := by
  rw [← isSome_map (f := ActivityEvent.unlinked), event_linked, isSome_map]

theorem owed_recorded {events events' : Events} {row : EventRow} (h : events.add row = some events')
    {low high : Nat} (hhigh : high = 0 ∨ ∃ old ∈ events.rows, high ≤ old.seq) :
    owed read filter events' low high = owed read filter events low high := by
  rw [owed_eq, owed_eq]
  unfold Events.add at h
  split at h
  · rename_i hnext
    cases h
    split
    · rfl
    dsimp only
    have hlt : high < row.seq := by
      obtain rfl | ⟨old, hold, hle⟩ := hhigh
      · exact hnext.2.1
      · exact Nat.lt_of_le_of_lt hle (hnext.1 old hold)
    have hnone : pick read filter low high row = none := by
      rw [pick, decide_eq_false (Nat.not_le.mpr hlt), Bool.and_false, Bool.and_false]
      rfl
    rw [filterMap_append, filterMap_cons_none hnone, filterMap_nil,
      append_nil]
  · cases h

theorem owed_linked {events : Events} {runId sessionId : String} {low high : Nat}
    (h : ∀ row ∈ events.rows, filter.admits row = false →
      filter.admits (Events.linked runId sessionId row) = true → (event read row).isSome →
      row.seq ≤ low ∨ high < row.seq) :
    (owed read filter (events.link runId sessionId) low high).map ActivityEvent.unlinked =
      (owed read filter events low high).map ActivityEvent.unlinked := by
  rw [owed_eq, owed_eq, List.map_filterMap, List.map_filterMap]
  show (events.rows.map (Events.linked runId sessionId)).filterMap _ = _
  rw [List.filterMap_map]
  refine filterMap_congr fun row hrow => ?_
  show (pick read filter low high (Events.linked runId sessionId row)).map _ = _
  unfold pick
  rw [Events.linked_seq]
  cases hadmits : filter.admits row with
  | true =>
    rw [admits_linked runId sessionId hadmits]
    split
    · exact event_linked ..
    · rfl
  | false =>
    rw [Bool.false_and, if_neg Bool.false_ne_true]
    cases hafter : filter.admits (Events.linked runId sessionId row) with
    | false => rw [Bool.false_and, if_neg Bool.false_ne_true]
    | true =>
      cases hshown : event read row with
      | none =>
        have hsame := event_linked_isSome read runId sessionId row
        rw [hshown] at hsame
        have hnone : event read (Events.linked runId sessionId row) = none :=
          isNone_iff_eq_none.mp (Option.isSome_eq_false_iff.mp hsame)
        split
        · rw [hnone]
        · rfl
      | some e =>
        have hout := h row hrow hadmits hafter (by rw [hshown]; rfl)
        rw [if_neg]
        intro hin
        rw [Bool.true_and, Bool.and_eq_true, decide_eq_true_eq, decide_eq_true_eq] at hin
        omega

theorem filter_split {rows : List EventRow} (hordered : rows.Pairwise (·.seq < ·.seq))
    {low middle high : Nat} (hlow : low ≤ middle) (hhigh : middle ≤ high) :
    rows.filter (fun row => low < row.seq && row.seq ≤ high) =
      rows.filter (fun row => low < row.seq && row.seq ≤ middle) ++
        rows.filter (fun row => middle < row.seq && row.seq ≤ high) := by
  induction rows with
  | nil => rfl
  | cons row rows ih =>
    obtain ⟨hhead, htail⟩ := pairwise_cons.mp hordered
    have ih := ih htail
    by_cases hmiddle : row.seq ≤ middle
    · by_cases hin : low < row.seq
      · rw [filter_cons_of_pos (by simp; omega), filter_cons_of_pos (by simp; omega),
          filter_cons_of_neg (by simp; omega), ih]
        rfl
      · rw [filter_cons_of_neg (by simp; omega), filter_cons_of_neg (by simp; omega),
          filter_cons_of_neg (by simp; omega), ih]
    · have hnil : rows.filter (fun row => low < row.seq && row.seq ≤ middle) = [] := by
        refine filter_eq_nil_iff.mpr fun other hother hin => ?_
        rw [Bool.and_eq_true, decide_eq_true_eq, decide_eq_true_eq] at hin
        have := hhead other hother
        omega
      rw [hnil, nil_append] at ih
      by_cases hin : row.seq ≤ high
      · rw [filter_cons_of_pos (by simp; omega), filter_cons_of_neg (by simp; omega),
          filter_cons_of_pos (by simp; omega), ih, hnil]
        rfl
      · rw [filter_cons_of_neg (by simp; omega), filter_cons_of_neg (by simp; omega),
          filter_cons_of_neg (by simp; omega), ih, hnil]
        rfl

theorem owed_split (events : Events) {low middle high : Nat} (hlow : low ≤ middle)
    (hhigh : middle ≤ high) :
    owed read filter events low high =
      owed read filter events low middle ++ owed read filter events middle high := by
  rw [owed, filter_split (matching_ordered events filter) hlow hhigh, filterMap_append]
  rfl

theorem owed_self (events : Events) (n : Nat) : owed read filter events n n = [] := by
  have hnil : (events.matching filter).filter (fun row => n < row.seq && row.seq ≤ n) = [] := by
    refine filter_eq_nil_iff.mpr fun row _ hin => ?_
    rw [Bool.and_eq_true, decide_eq_true_eq, decide_eq_true_eq] at hin
    omega
  rw [owed, hnil]
  rfl

theorem filter_to_last {rows kept : List EventRow} {last : EventRow}
    (hordered : rows.Pairwise (·.seq < ·.seq)) (hkept : kept <+: rows)
    (hlast : kept.getLast? = some last) : rows.filter (·.seq ≤ last.seq) = kept := by
  obtain ⟨rest, rfl⟩ := hkept
  obtain ⟨front, rfl⟩ := List.getLast?_eq_some_iff.mp hlast
  obtain ⟨hfront, -, hcross⟩ := pairwise_append.mp hordered
  have hself : (front ++ [last]).filter (·.seq ≤ last.seq) = front ++ [last] := by
    refine filter_eq_self.mpr fun row hrow => decide_eq_true ?_
    obtain hrow | hrow := mem_snoc.mp hrow
    · exact Nat.le_of_lt ((pairwise_append.mp hfront).2.2 row hrow last
        (mem_singleton_self _))
    · rw [hrow]
  have hrest : rest.filter (·.seq ≤ last.seq) = [] := by
    refine filter_eq_nil_iff.mpr fun row hrow hin => ?_
    have := hcross last (mem_append_right _ (mem_singleton_self _)) row hrow
    exact absurd (of_decide_eq_true hin) (Nat.not_le.mpr this)
  rw [filter_append, hself, hrest, append_nil]

theorem window_after (read : String → Payload) (events : Events) (filter : EventFilter)
    (after : Nat) {size : Nat} (hsize : 0 < size) :
    ∃ window last, activityWindow read events filter (.after after) size = .ok window ∧
      window.last.getD after = last ∧ window.events = owed read filter events after last ∧
      (last = after ∧ (∀ row ∈ events.matching filter, row.seq ≤ after) ∨
        after < last ∧ ∃ row ∈ events.matching filter, row.seq = last) := by
  obtain ⟨window, kept, hwindow, hspec⟩ :=
    activityWindow_spec read events filter (.after after) hsize
  have hordered : (events.side filter (.after after)).Pairwise (·.seq < ·.seq) :=
    (matching_ordered events filter).sublist filter_sublist
  have hpart : kept <+: events.side filter (.after after) := by
    rw [hspec.kept_eq]
    exact take_prefix ..
  have hlast := hspec.last
  refine ⟨window, _, hwindow, rfl, ?_⟩
  cases hend : kept.getLast? with
  | none =>
    have hkept := List.getLast?_eq_none_iff.mp hend
    rw [hend, map_none] at hlast
    rw [hlast, getD_none]
    refine ⟨?_, .inl ⟨rfl, fun row hrow => Nat.not_lt.mp fun hlt => ?_⟩⟩
    · rw [hspec.events, hkept, owed_self]
      rfl
    · have hside : row ∈ events.side filter (.after after) :=
        mem_filter.mpr ⟨hrow, decide_eq_true hlt⟩
      exact hspec.some_of (ne_nil_of_mem hside) hkept
  | some last =>
    rw [hend, map_some] at hlast
    rw [hlast, getD_some]
    have hin := mem_filter.mp (hpart.subset (mem_of_getLast? hend))
    refine ⟨?_, .inr ⟨of_decide_eq_true hin.2, last, hin.1, rfl⟩⟩
    have hkept := filter_to_last hordered hpart hend
    rw [Events.side, filter_filter] at hkept
    have hrows : (events.matching filter).filter (fun row =>
        after < row.seq && row.seq ≤ last.seq) = kept := by
      rw [← hkept]
      exact filter_congr fun row _ => Bool.and_comm ..
    rw [hspec.events, owed, hrows]

end

/-! ## Runs -/

/-- A batch the device took in after those of `part`: where it got to, and what had come by then. -/
structure Stands (read : String → Payload) (filter : EventFilter) (s : Following)
    (part : List ActivityBatch) (batch : ActivityBatch) : Prop where
  bound : activityBound batch.newer = .ok (.after batch.seq, batch.seq)
  start : s.start < batch.seq
  after : batch.seq ≤ s.after
  row : ∃ row ∈ s.events.matching filter, row.seq = batch.seq
  later : ∀ old ∈ part, old.seq ≤ batch.seq
  taken : ((part ++ [batch]).flatMap (·.events)).map ActivityEvent.unlinked =
    (owed read filter s.events s.start batch.seq).map ActivityEvent.unlinked

/-- What every run keeps: the batches taken in are what is owed up to the position. -/
structure FollowOk (read : String → Payload) (filter : EventFilter) (s : Following) : Prop where
  start : s.start ≤ s.after
  known : s.after = 0 ∨ ∃ row ∈ s.events.rows, s.after ≤ row.seq
  taken : (s.taken.flatMap (·.events)).map ActivityEvent.unlinked =
    (owed read filter s.events s.start s.after).map ActivityEvent.unlinked
  batch : ∀ part batch, part ++ [batch] <+: s.taken → Stands read filter s part batch

section
variable {f : HostFacade} {grant : Grant} {read : String → Payload}
  {workspace : Option WorkspaceId} {session : Option SessionRecordId} {ids : List String}
  (hfollowed : f.followed grant workspace session = .ok ids)
include hfollowed

theorem pollRead_cases (s : Following) (accepted : Bool) :
    let filter := HostFacade.eventFilter ids session
    (pollRead f grant read workspace session s accepted = s ∧
      ∀ row ∈ s.events.matching filter, row.seq ≤ s.after) ∨
    ∃ last, s.after < last ∧ (∃ row ∈ s.events.matching filter, row.seq = last) ∧
      (owed read filter s.events s.after last = [] ∧
          pollRead f grant read workspace session s accepted = { s with after := last } ∨
        ∃ newer, activityBound newer = .ok (.after last, last) ∧
          pollRead f grant read workspace session s accepted =
            if accepted then
              { s with
                after := last
                taken := s.taken ++ [⟨owed read filter s.events s.after last, newer⟩] }
            else s) := by
  intro filter
  obtain ⟨window, last, hwindow, hlast, hevents, hcases⟩ :=
    window_after read s.events filter s.after (show 0 < MAX_PAGE by decide)
  have hread : (f.recording s.events).recordedAfter grant read workspace session s.after =
      .ok (owed read filter s.events s.after last, last) := by
    have hfollowed' : (f.recording s.events).followed grant workspace session = .ok ids :=
      hfollowed
    unfold HostFacade.recordedAfter
    rw [hfollowed']
    show (activityWindow read s.events filter (.after s.after) MAX_PAGE >>= _) = _
    rw [hwindow]
    show Except.ok (window.events, window.last.getD s.after) = _
    rw [hevents, hlast]
  unfold pollRead
  rw [hread]
  dsimp only
  obtain ⟨heq, hall⟩ | ⟨hlt, row, hrow, hseq⟩ := hcases
  · rw [if_pos heq]
    exact .inl ⟨rfl, hall⟩
  · refine .inr ⟨last, hlt, ⟨row, hrow, hseq⟩, ?_⟩
    rw [if_neg (Nat.ne_of_gt hlt)]
    by_cases hnil : owed read filter s.events s.after last = []
    · rw [if_pos hnil]
      exact .inl ⟨hnil, rfl⟩
    · rw [if_neg hnil]
      obtain ⟨hpos, hmax⟩ := matching_numbered hrow
      obtain ⟨newer, hissue, hbound⟩ := newer_cursor hpos hmax
      rw [hseq] at hissue hbound
      rw [hissue]
      exact .inr ⟨newer, hbound, rfl⟩

theorem subscriptionStart_after {events : Events} {cursor : Cursor} {row : EventRow}
    (hrow : row ∈ events.matching (HostFacade.eventFilter ids session))
    (hbound : activityBound cursor = .ok (.after row.seq, row.seq)) :
    (f.recording events).subscriptionStart grant ⟨workspace, session, some cursor⟩ =
      .ok (row.seq, some cursor) := by
  have hfollowed' : (f.recording events).followed grant workspace session = .ok ids := hfollowed
  have hmatches : (f.recording events).store.events.eventMatches
      (HostFacade.eventFilter ids session) row.seq = true := eventMatches_of_mem hrow
  unfold HostFacade.subscriptionStart
  dsimp only
  rw [hfollowed']
  show (activityBound cursor >>= _) = _
  rw [hbound]
  show (if _ then _ else _) = _
  rw [if_pos hmatches]

omit hfollowed in
theorem subscriptionStart_known {events : Events} {after : Option Cursor} {start : Nat}
    {newer : Option Cursor}
    (h : (f.recording events).subscriptionStart grant ⟨workspace, session, after⟩ =
      .ok (start, newer)) : start = 0 ∨ ∃ row ∈ events.rows, start ≤ row.seq := by
  obtain ⟨ids', -, h⟩ := Fallible.bind_ok.mp h
  dsimp only at h
  cases after with
  | some cursor =>
    obtain ⟨⟨bound, seq⟩, -, h⟩ := Fallible.bind_ok.mp h
    dsimp only at h
    split at h
    · split at h
      · rename_i hmatches
        cases h
        obtain ⟨row, hrow, heq⟩ := List.any_eq_true.mp hmatches
        rw [Bool.and_eq_true, decide_eq_true_eq] at heq
        exact .inr ⟨row, hrow, Nat.le_of_eq heq.1.symm⟩
      · cases h
    · cases h
  | none =>
    dsimp only at h
    cases hnewest : (f.recording events).store.events.newestSeq with
    | none =>
      rw [hnewest] at h
      cases h
      exact .inl rfl
    | some now =>
      rw [hnewest] at h
      have hnow : start = now := by
        dsimp only at h
        split at h
        · exact (Prod.mk.inj (Except.ok.inj h)).1.symm
        · obtain ⟨newer, -, h⟩ := Fallible.bind_ok.mp h
          exact (Prod.mk.inj (Except.ok.inj h)).1.symm
      obtain ⟨row, hrow, hseq⟩ := map_eq_some_iff.mp hnewest
      exact .inr ⟨row, mem_of_getLast? hrow, Nat.le_of_eq (hnow.trans hseq.symm)⟩

end

variable {s : Following}

section
variable {f : HostFacade} {grant : Grant} {read : String → Payload}
  {workspace : Option WorkspaceId} {session : Option SessionRecordId} {filter : EventFilter}

theorem FollowOk.events {events : Events} (h : FollowOk read filter s)
    (howed : ∀ high ≤ s.after, (owed read filter events s.start high).map ActivityEvent.unlinked =
        (owed read filter s.events s.start high).map ActivityEvent.unlinked)
    (hrows : ∀ row ∈ s.events.rows, ∃ row' ∈ events.rows, row'.seq = row.seq)
    (hkeeps : ∀ row ∈ s.events.matching filter, ∃ row' ∈ events.matching filter,
        row'.seq = row.seq) : FollowOk read filter { s with events } where
  start := h.start
  known := h.known.imp id fun ⟨row, hrow, hle⟩ =>
    have ⟨row', hrow', hseq⟩ := hrows row hrow
    ⟨row', hrow', hseq ▸ hle⟩
  taken := h.taken.trans (howed s.after (Nat.le_refl _)).symm
  batch part batch hpart := by
    have hstands := h.batch part batch hpart
    obtain ⟨row, hrow, hseq⟩ := hstands.row
    obtain ⟨row', hrow', hseq'⟩ := hkeeps row hrow
    exact
      { hstands with
        row := ⟨row', hrow', hseq'.trans hseq⟩
        taken := hstands.taken.trans (howed batch.seq hstands.after).symm }

theorem FollowOk.recorded {events : Events} {row : EventRow} (h : FollowOk read filter s)
    (hadd : s.events.add row = some events) :
    FollowOk read filter { s with events } := by
  have hpart := matching_grows hadd filter
  have hrows : ∀ old ∈ s.events.rows, old ∈ events.rows := by
    intro old hold
    unfold Events.add at hadd
    split at hadd
    · cases hadd
      split
      · exact hold
      · exact mem_append_left _ hold
    · cases hadd
  refine h.events (fun high hhigh => ?_) (fun old hold => ⟨old, hrows old hold, rfl⟩)
    (fun old hold => ⟨old, hpart.subset hold, rfl⟩)
  rw [owed_recorded hadd]
  obtain hzero | ⟨old, hold, hle⟩ := h.known
  · exact .inl (Nat.le_zero.mp (hzero ▸ hhigh))
  · exact .inr ⟨old, hold, Nat.le_trans hhigh hle⟩

theorem FollowOk.linked {runId sessionId : String} (h : FollowOk read filter s)
    (hahead : LinksAhead read filter s (.linked runId sessionId)) :
    FollowOk read filter { s with events := s.events.link runId sessionId } := by
  have hmem : ∀ row ∈ s.events.rows,
      Events.linked runId sessionId row ∈ (s.events.link runId sessionId).rows :=
    fun row hrow => mem_map_of_mem hrow
  refine h.events (fun high hhigh => owed_linked fun row hrow hout hin hshown => ?_)
    (fun row hrow => ⟨_, hmem row hrow, Events.linked_seq ..⟩) (fun row hrow => ?_)
  · have := hahead row hrow hout hin hshown
    omega
  · obtain ⟨hrow, hadmits⟩ := mem_filter.mp hrow
    exact ⟨_, mem_filter.mpr ⟨hmem row hrow, admits_linked runId sessionId hadmits⟩,
      Events.linked_seq ..⟩

theorem FollowOk.past {last : Nat} (h : FollowOk read filter s) (hlt : s.after < last)
    (hrow : ∃ row ∈ s.events.matching filter, row.seq = last)
    (hnil : owed read filter s.events s.after last = []) :
    FollowOk read filter { s with after := last } := by
  obtain ⟨row, hrow, hseq⟩ := hrow
  exact
    { start := Nat.le_trans h.start (Nat.le_of_lt hlt)
      known := .inr ⟨row, mem_of_mem_filter hrow, Nat.le_of_eq hseq.symm⟩
      taken := by
        dsimp only
        rw [owed_split s.events h.start (Nat.le_of_lt hlt), hnil, append_nil]
        exact h.taken
      batch := fun part batch hpart =>
        have hstands := h.batch part batch hpart
        { hstands with after := Nat.le_trans hstands.after (Nat.le_of_lt hlt) } }

theorem batch_seq {batch : ActivityBatch} {last : Nat}
    (h : activityBound batch.newer = .ok (.after last, last)) : batch.seq = last := by
  unfold ActivityBatch.seq
  rw [h]

theorem FollowOk.seq_le {batch : ActivityBatch} (h : FollowOk read filter s)
    (hbatch : batch ∈ s.taken) : batch.seq ≤ s.after := by
  obtain ⟨part, rest, htaken⟩ := append_of_mem hbatch
  have hpart : part ++ [batch] <+: s.taken :=
    ⟨rest, htaken ▸ (List.append_cons part batch rest).symm⟩
  exact (h.batch part batch hpart).after

theorem FollowOk.sent {last : Nat} {newer : Cursor} (h : FollowOk read filter s)
    (hlt : s.after < last) (hrow : ∃ row ∈ s.events.matching filter, row.seq = last)
    (hbound : activityBound newer = .ok (.after last, last)) :
    FollowOk read filter
      { s with
        after := last
        taken := s.taken ++ [⟨owed read filter s.events s.after last, newer⟩] } := by
  have hseq : ActivityBatch.seq ⟨owed read filter s.events s.after last, newer⟩ = last :=
    batch_seq hbound
  generalize hnew :
    (⟨owed read filter s.events s.after last, newer⟩ : ActivityBatch) = new at hseq ⊢
  have hevents : new.events = owed read filter s.events s.after last := by rw [← hnew]
  have htaken : ((s.taken ++ [new]).flatMap (·.events)).map ActivityEvent.unlinked =
      (owed read filter s.events s.start last).map ActivityEvent.unlinked := by
    rw [flatMap_append, flatMap_singleton, map_append, h.taken, hevents,
      owed_split s.events h.start (Nat.le_of_lt hlt), map_append]
  obtain ⟨row, hin, hrowSeq⟩ := hrow
  refine
    { start := Nat.le_trans h.start (Nat.le_of_lt hlt)
      known := .inr ⟨row, mem_of_mem_filter hin, Nat.le_of_eq hrowSeq.symm⟩
      taken := htaken
      batch := fun part batch hpart => ?_ }
  obtain hall | hpart := List.prefix_concat_iff.mp hpart
  · obtain ⟨rfl, hbatch⟩ := List.append_inj' hall rfl
    obtain rfl := (List.cons.inj hbatch).1
    exact
      { bound := by
          rw [hseq, ← hnew]
          exact hbound
        start := by
          rw [hseq]
          exact Nat.lt_of_le_of_lt h.start hlt
        after := Nat.le_of_eq hseq
        row := ⟨row, hin, hrowSeq.trans hseq.symm⟩
        later := fun old hold => by
          rw [hseq]
          exact Nat.le_trans (h.seq_le hold) (Nat.le_of_lt hlt)
        taken := by
          rw [hseq]
          exact htaken }
  · have hstands := h.batch part batch hpart
    exact { hstands with after := Nat.le_trans hstands.after (Nat.le_of_lt hlt) }

theorem FollowOk.again {index : Nat} {batch : ActivityBatch} (h : FollowOk read filter s)
    (hbatch : s.taken[index]? = some batch) :
    s.taken.take (index + 1) = s.taken.take index ++ [batch] ∧
      Stands read filter s (s.taken.take index) batch ∧
      FollowOk read filter { s with after := batch.seq, taken := s.taken.take (index + 1) } := by
  have htake : s.taken.take (index + 1) = s.taken.take index ++ [batch] := by
    rw [List.take_add_one, hbatch]
    rfl
  have hpart : s.taken.take index ++ [batch] <+: s.taken := htake ▸ take_prefix ..
  have hstands := h.batch _ _ hpart
  obtain ⟨row, hrow, hseq⟩ := hstands.row
  refine ⟨htake, hstands,
    { start := Nat.le_of_lt hstands.start
      known := .inr ⟨row, mem_of_mem_filter hrow, Nat.le_of_eq hseq.symm⟩
      taken := by
        dsimp only
        rw [htake]
        exact hstands.taken
      batch := fun part other hother => ?_ }⟩
  dsimp only at hother
  rw [htake] at hother
  have hin : other ∈ s.taken.take index ++ [batch] :=
    hother.subset (mem_append_right _ (mem_singleton_self _))
  have hle : other.seq ≤ batch.seq := by
    obtain hin | hin := mem_snoc.mp hin
    · exact hstands.later other hin
    · rw [hin]
  exact { h.batch part other (hother.trans hpart) with after := hle }

end

section
variable {f : HostFacade} {grant : Grant} {read : String → Payload}
  {workspace : Option WorkspaceId} {session : Option SessionRecordId} {ids : List String}
  (hfollowed : f.followed grant workspace session = .ok ids)
include hfollowed

theorem FollowOk.step {s s' : Following} {action : FollowAction}
    (h : FollowOk read (HostFacade.eventFilter ids session) s)
    (hahead : LinksAhead read (HostFacade.eventFilter ids session) s action)
    (hstep : followStep f grant read workspace session s action = some s') :
    FollowOk read (HostFacade.eventFilter ids session) s' := by
  cases action with
  | recorded row =>
    obtain ⟨events, hadd, rfl⟩ := map_eq_some_iff.mp hstep
    exact h.recorded hadd
  | linked runId sessionId =>
    cases hstep
    exact h.linked hahead
  | read accepted =>
    cases hstep
    obtain ⟨hsame, -⟩ | ⟨last, hlt, hrow, ⟨hnil, hread⟩ | ⟨newer, hbound, hread⟩⟩ :=
      pollRead_cases hfollowed s accepted
    · rw [hsame]
      exact h
    · rw [hread]
      exact h.past hlt hrow hnil
    · rw [hread]
      split
      · exact h.sent hlt hrow hbound
      · exact h
  | again index =>
    unfold followStep at hstep
    dsimp only at hstep
    split at hstep
    · cases hstep
    rename_i batch hbatch
    obtain ⟨-, hstands, hagain⟩ := h.again hbatch
    obtain ⟨row, hrow, hseq⟩ := hstands.row
    have hbound := hstands.bound
    rw [← hseq] at hbound
    rw [subscriptionStart_after hfollowed hrow hbound, hseq] at hstep
    cases hstep
    exact hagain

theorem reads_reach_end (s : Following) :
    ∃ n s', run (followStep f grant read workspace session) s (List.replicate n (.read true)) =
        some s' ∧ s'.events = s.events ∧
      ∀ row ∈ s.events.matching (HostFacade.eventFilter ids session), row.seq ≤ s'.after := by
  -- On the rows of the scope still beyond the position: each read leaves fewer.
  generalize hleft : ((s.events.matching (HostFacade.eventFilter ids session)).filter
    (fun row => s.after < row.seq)).length = left
  induction left using Nat.strong_induction_on generalizing s with
  | h left ih =>
    obtain ⟨-, hall⟩ | ⟨last, hlt, ⟨row, hrow, hseq⟩, hread⟩ :=
      @pollRead_cases f grant read workspace session ids hfollowed s true
    · exact ⟨0, s, rfl, rfl, hall⟩
    · obtain ⟨s₁, hs₁, hevents, hafter⟩ :
          ∃ s₁, pollRead f grant read workspace session s true = s₁ ∧ s₁.events = s.events ∧
            s₁.after = last := by
        obtain ⟨-, hread⟩ | ⟨newer, -, hread⟩ := hread <;> exact ⟨_, hread, rfl, rfl⟩
      have hfewer : ((s₁.events.matching (HostFacade.eventFilter ids session)).filter
          (fun row => s₁.after < row.seq)).length < left := by
        have htwice : (s.events.matching (HostFacade.eventFilter ids session)).filter
            (fun row => last < row.seq) =
            ((s.events.matching (HostFacade.eventFilter ids session)).filter
              (fun row => s.after < row.seq)).filter (fun row => last < row.seq) := by
          rw [filter_filter]
          refine filter_congr fun other _ => ?_
          rw [Bool.eq_iff_iff, Bool.and_eq_true, decide_eq_true_eq, decide_eq_true_eq]
          omega
        rw [hevents, hafter, ← hleft, htwice]
        refine List.length_filter_lt_length_iff_exists.mpr ⟨row, mem_filter.mpr
          ⟨hrow, decide_eq_true (hseq ▸ hlt)⟩, fun hin => ?_⟩
        exact absurd (hseq ▸ of_decide_eq_true hin) (Nat.lt_irrefl _)
      obtain ⟨n, s', hrun, hsame, hend⟩ := ih _ hfewer s₁ rfl
      refine ⟨n + 1, s', ?_, hsame.trans hevents, hevents ▸ hend⟩
      rw [replicate_succ]
      exact run_cons.mpr ⟨s₁, congrArg some hs₁, hrun⟩

omit hfollowed in
theorem followOk_begin {events : Events} {start : Nat}
    (hknown : start = 0 ∨ ∃ row ∈ events.rows, start ≤ row.seq) (filter : EventFilter) :
    FollowOk read filter ⟨events, start, start, []⟩ where
  start := Nat.le_refl _
  known := hknown
  taken := by
    dsimp only
    rw [owed_self]
    rfl
  batch part batch hpart := by
    have := prefix_nil.mp hpart
    exact (List.append_ne_nil_of_right_ne_nil part (cons_ne_nil batch []) this).elim

omit hfollowed in
theorem followStep_start {s' : Following} {action : FollowAction}
    (h : followStep f grant read workspace session s action = some s') : s'.start = s.start := by
  cases action with
  | recorded row =>
    obtain ⟨events, -, rfl⟩ := map_eq_some_iff.mp h
    rfl
  | linked runId sessionId =>
    cases h
    rfl
  | read accepted =>
    cases h
    unfold pollRead
    repeat' split
    all_goals rfl
  | again index =>
    unfold followStep at h
    dsimp only at h
    split at h
    · cases h
    split at h
    · cases h
    · cases h
      rfl

/-- **A subscription sends each event of its scope once, in order**, in every run whose links are
    ahead of it: what the device took in is what the scope holds up to the position. Reads that
    the queue takes bring the position to the end of the scope; and a new subscription after any
    batch starts where that batch got to, with all before it taken in. -/
theorem follow_sends {events : Events} {after newer : Option Cursor} {start : Nat}
    (hstart : (f.recording events).subscriptionStart grant ⟨workspace, session, after⟩ =
      .ok (start, newer)) {actions : List FollowAction} {s : Following}
    (hahead : Meets (followStep f grant read workspace session)
      (LinksAhead read (HostFacade.eventFilter ids session)) ⟨events, start, start, []⟩ actions)
    (hrun : run (followStep f grant read workspace session) ⟨events, start, start, []⟩ actions =
      some s) :
    let filter := HostFacade.eventFilter ids session
    (s.taken.flatMap (·.events)).map ActivityEvent.unlinked =
        (owed read filter s.events start s.after).map ActivityEvent.unlinked ∧
      (∃ n s', run (followStep f grant read workspace session) s
          (List.replicate n (.read true)) = some s' ∧ s'.events = s.events ∧
        ∀ row ∈ s.events.matching filter, row.seq ≤ s'.after) ∧
      ∀ index batch, s.taken[index]? = some batch →
        ∃ n, start < n ∧ n ≤ s.after ∧
          (f.recording s.events).subscriptionStart grant ⟨workspace, session, some batch.newer⟩ =
            .ok (n, some batch.newer) ∧
          ((s.taken.take (index + 1)).flatMap (·.events)).map ActivityEvent.unlinked =
            (owed read filter s.events start n).map ActivityEvent.unlinked := by
  intro filter
  have hstep : ∀ s₁ action s₂, (FollowOk read filter s₁ ∧ s₁.start = start) →
      LinksAhead read filter s₁ action →
      followStep f grant read workspace session s₁ action = some s₂ →
      FollowOk read filter s₂ ∧ s₂.start = start := fun _ _ _ hinv hahead hstep =>
    ⟨hinv.1.step hfollowed hahead hstep, (followStep_start hstep).trans hinv.2⟩
  obtain ⟨hok, rfl⟩ := hahead.invariant hstep hrun
    ⟨followOk_begin (subscriptionStart_known hstart) filter, rfl⟩
  refine ⟨hok.taken, reads_reach_end hfollowed s, fun index batch hbatch => ?_⟩
  obtain ⟨htake, hstands, -⟩ := hok.again hbatch
  obtain ⟨row, hrow, hseq⟩ := hstands.row
  have hbound := hstands.bound
  rw [← hseq] at hbound
  refine ⟨batch.seq, hstands.start, hstands.after, ?_, ?_⟩
  · rw [subscriptionStart_after hfollowed hrow hbound, hseq]
  · rw [htake]
    exact hstands.taken

end

def followHost : HostFacade :=
  { walkHost with
    store :=
      { walkStore Events.empty with
        sessions := [⟨"s1", "w1", "claude", none, none, "one", none, true, none, none, 0, none⟩]
        sessionKey := by decide } }

def followSession : SessionRecordId := ⟨"s1", by decide +kernel⟩

def unlinkedRow : EventRow := { walkRow 1 "e1" with runId := some "r1" }

def sessionRow : EventRow := { walkRow 2 "e2" with sessionId := some "s1" }

theorem followHost_followed :
    followHost.followed walkGrant (some walkWorkspace) (some followSession) = .ok ["w1"] := by
  decide +kernel

theorem followHost_start :
    (followHost.recording Events.empty).subscriptionStart walkGrant
      ⟨some walkWorkspace, some followSession, none⟩ = .ok (0, none) := by
  decide +kernel

/-- What a conversation's subscription took in after two of its events, the first one linked to it
    before the position came by, and lost a batch to a new connection. -/
def followRun : List FollowAction :=
  [.recorded unlinkedRow, .linked "r1" "s1", .recorded sessionRow, .read true, .again 0]

def followEnd : Following :=
  (run (followStep followHost walkGrant noPayload (some walkWorkspace) (some followSession))
    ⟨Events.empty, 0, 0, []⟩ followRun).getD ⟨Events.empty, 0, 0, []⟩

theorem follow_sends_two :
    (followEnd.taken.flatMap (·.events)).map ActivityEvent.unlinked =
      (owed noPayload (HostFacade.eventFilter ["w1"] (some followSession)) followEnd.events 0
        followEnd.after).map ActivityEvent.unlinked ∧
      (followEnd.taken.flatMap (·.events)).map (·.id.text) = ["e1", "e2"] := by
  have hahead : Meets
      (followStep followHost walkGrant noPayload (some walkWorkspace) (some followSession))
      (LinksAhead noPayload (HostFacade.eventFilter ["w1"] (some followSession)))
      ⟨Events.empty, 0, 0, []⟩ followRun := by
    refine ⟨trivial, fun s hs => ⟨fun row hrow _ _ _ => .inr ?_, fun _ _ =>
      ⟨trivial, fun _ _ => ⟨trivial, fun _ _ => ⟨trivial, fun _ _ => trivial⟩⟩⟩⟩⟩
    have hadd : (Events.empty.add unlinkedRow).map
        (fun events => (⟨events, 0, 0, []⟩ : Following)) = some s := hs
    obtain ⟨events, -, rfl⟩ := map_eq_some_iff.mp hadd
    exact (events.numbered row hrow).1
  have hrun : run
      (followStep followHost walkGrant noPayload (some walkWorkspace) (some followSession))
      ⟨Events.empty, 0, 0, []⟩ followRun = some followEnd := by decide +kernel
  refine ⟨(follow_sends followHost_followed followHost_start hahead hrun).1, ?_⟩
  decide +kernel

/-- The other order: the event is linked once the position is past it. It matches, it is shown, and
    no read ever sends it. -/
theorem follow_skips_a_linked_event :
    (run (followStep followHost walkGrant noPayload (some walkWorkspace) (some followSession))
      ⟨Events.empty, 0, 0, []⟩
      [.recorded unlinkedRow, .recorded sessionRow, .read true, .linked "r1" "s1", .read true]).map
        (fun s =>
          ((s.taken.flatMap (·.events)).map (·.id.text),
            (owed noPayload (HostFacade.eventFilter ["w1"] (some followSession)) s.events 0
              s.after).map (·.id.text),
            decide (pollRead followHost walkGrant noPayload (some walkWorkspace)
              (some followSession) s true = s))) =
      some (["e2"], ["e1", "e2"], true) := by
  decide +kernel

end Yardsort.Remote
