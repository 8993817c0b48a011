import Yardsort.Lib.Table
import Yardsort.Remote.Walk

/- What a grant reaches of a host's recorded activity. A device is shown events of the workspaces
   on show of the projects it was granted, and of no others (`shown_reached`); and what it is
   answered does not depend on the others either (`answers_alike`), so that an id of theirs is
   refused as one that was never given out. -/
namespace Yardsort.Remote
open Yardsort.Lib Yardsort.Proto Yardsort.Remote.Activity

def Grant.reachesWorkspace (grant : Grant) (w : WorkspaceRow) : Bool :=
  match Proto.Id.new w.projectId with
  | .ok id => grant.reaches id
  | .error _ => false

namespace Store
variable (s s' : Store) (grant : Grant)

def reached : List WorkspaceRow := s.listWorkspaces.filter grant.reachesWorkspace

def reachedIds : List String := (s.reached grant).map (·.id)

/-- Two stores have the same of the workspaces a grant reaches. -/
structure Alike : Prop where
  workspaces : s.reached grant = s'.reached grant
  sessions : s.sessions.filter (·.workspaceId ∈ s.reachedIds grant) =
    s'.sessions.filter (·.workspaceId ∈ s'.reachedIds grant)
  events : s.events.rows.filter (·.workspaceId ∈ s.reachedIds grant) =
    s'.events.rows.filter (·.workspaceId ∈ s'.reachedIds grant)

/-- Local ids are UUIDs, which pass for protocol ids. -/
def Readable : Prop := ∀ w ∈ s.workspaces, (id? w.projectId).isSome = true

variable {s s' grant} in
theorem Alike.ids (h : s.Alike s' grant) : s.reachedIds grant = s'.reachedIds grant := by
  rw [reachedIds, h.workspaces, reachedIds]

end Store

namespace HostFacade
variable {f f' : HostFacade} {grant : Grant}

theorem find_reached (id : String) :
    (f.store.reached grant).find? (·.id = id) = (f.store.workspace id).filter fun w =>
      grant.reachesWorkspace w && (!w.forgotten && f.store.listProjects.any (·.id = w.projectId)) := by
  rw [Store.reached, Store.listWorkspaces, filter_filter]
  exact find_filter f.store.workspaceKey _ id

theorem reachableWorkspace_spec (grant : Grant) (id : WorkspaceId) :
    match f.reachableWorkspace grant id with
    | .ok (row, _) => (f.store.reached grant).find? (·.id = id.text) = some row
    | .error e => (f.store.reached grant).find? (·.id = id.text) = none ∧
        (f.store.Readable → e = .notFound) := by
  rw [find_reached, reachableWorkspace]
  cases hrow : f.store.workspace id.text with
  | none => exact ⟨rfl, fun _ => rfl⟩
  | some row =>
    cases hforgotten : row.forgotten with
    | true => simp [hforgotten, Option.filter_some]
    | false =>
      simp only [Option.filter_some, hforgotten, Bool.not_false, if_true, bind, Except.bind,
        localId, Grant.reachesWorkspace, Bool.true_and]
      cases hid : Proto.Id.new row.projectId with
      | error e =>
        refine ⟨rfl, fun hread => ?_⟩
        have hok := hread row (mem_of_find?_eq_some hrow)
        rw [id?, hid] at hok
        cases hok
      | ok pid =>
        rw [← Proto.Id.text_of_new hid]
        cases hreaches : grant.reaches pid with
        | false => simp [reachableProject, hreaches]
        | true =>
          cases hproject : f.store.listProjects.find? (·.id = pid.text) with
          | none =>
            simp only [reachableProject, hreaches, hproject]
            simpa using hproject
          | some project =>
            simp only [reachableProject, hreaches, hproject]
            have hfound := List.find?_some hproject
            simpa using ⟨project, mem_of_find?_eq_some hproject, of_decide_eq_true hfound⟩

theorem followed_reached {workspace : Option WorkspaceId} {session : Option SessionRecordId}
    {ids : List String} (h : f.followed grant workspace session = .ok ids) :
    ∀ id ∈ ids, id ∈ f.store.reachedIds grant := by
  cases workspace with
  | none =>
    cases h
    exact fun id hid => hid
  | some workspace =>
    obtain ⟨⟨row, project⟩, hrow, h⟩ := Fallible.bind_ok.mp h
    obtain ⟨-, -, h⟩ := Fallible.bind_ok.mp h
    cases h
    have hspec := f.reachableWorkspace_spec grant workspace
    rw [hrow] at hspec
    exact fun id hid => mem_singleton.mp hid ▸ mem_map_of_mem (mem_of_find?_eq_some hspec)

variable {read : String → Payload}

/-- A device may be shown this: it was recorded, in the class shown, of a workspace reached and of
    the conversation that is followed, if one is. -/
def Shown (f : HostFacade) (grant : Grant) (read : String → Payload)
    (session : Option SessionRecordId) (e : ActivityEvent) : Prop :=
  ∃ row ∈ f.store.events.rows, event read row = some e ∧ row.privacyClass = SHOWN_CLASS ∧
    row.workspaceId ∈ f.store.reachedIds grant ∧ ∀ id ∈ session, row.sessionId = some id.text

theorem nearest_subset {bound : EventBound} {n : Nat} {rows : List EventRow} :
    nearest bound n rows ⊆ rows := by
  cases bound with
  | newest | before _ => exact List.drop_subset ..
  | after _ => exact List.take_subset ..

theorem activityWindow_shown {session : Option SessionRecordId} {ids : List String}
    (hids : ∀ id ∈ ids, id ∈ f.store.reachedIds grant) {bound : EventBound} {size : Nat}
    (hsize : 0 < size) {window : EventWindow}
    (h : activityWindow read f.store.events (eventFilter ids session) bound size = .ok window) :
    ∀ e ∈ window.events, f.Shown grant read session e := by
  obtain ⟨window', kept, hwindow, hspec⟩ :=
    activityWindow_spec read f.store.events (eventFilter ids session) bound hsize
  cases h.symm.trans hwindow
  intro e he
  rw [hspec.events] at he
  obtain ⟨row, hrow, he⟩ := mem_filterMap.mp he
  rw [hspec.kept_eq] at hrow
  obtain ⟨hmem, hadmits⟩ := mem_filter.mp (mem_of_mem_filter (nearest_subset hrow))
  obtain ⟨hhere, hsession⟩ := Bool.and_eq_true_iff.mp hadmits
  obtain ⟨hworkspace, hclass⟩ := Bool.and_eq_true_iff.mp hhere
  refine ⟨row, hmem, he, of_decide_eq_true hclass, hids _ (of_decide_eq_true hworkspace), ?_⟩
  rintro id rfl
  exact of_decide_eq_true hsession

/-- A page of a workspace's activity is one of what is followed of it. -/
theorem activity_eq (params : ActivityListParams) :
    f.activity grant read params = f.followed grant (some params.workspace) params.session >>=
      fun ids => activityPage read f.store.events (eventFilter ids params.session) params.cursor
        params.limit := by
  simp only [activity, followed, bind, Except.bind]
  cases f.reachableWorkspace grant params.workspace with
  | error e => rfl
  | ok found =>
    dsimp only
    cases f.ownSession found.1 params.session <;> rfl

/-- **A device is shown only what its grant reaches**, in every page and in every batch that a
    subscription is sent, whatever it asks for. -/
theorem shown_reached (f : HostFacade) (grant : Grant) (read : String → Payload) :
    (∀ params page, f.activity grant read params = .ok page →
      ∀ e ∈ page.events, f.Shown grant read params.session e) ∧
    ∀ workspace session after events last,
      f.recordedAfter grant read workspace session after = .ok (events, last) →
        ∀ e ∈ events, f.Shown grant read session e := by
  constructor
  · intro params page h
    rw [activity_eq] at h
    obtain ⟨ids, hids, h⟩ := Fallible.bind_ok.mp h
    obtain ⟨bound, -, h⟩ := Fallible.bind_ok.mp h
    obtain ⟨window, hwindow, h⟩ := Fallible.bind_ok.mp h
    obtain ⟨older, -, h⟩ := Fallible.bind_ok.mp h
    obtain ⟨newer, -, h⟩ := Fallible.bind_ok.mp h
    cases h
    exact activityWindow_shown (followed_reached hids) (Nat.le_max_left ..) hwindow
  · intro workspace session after events last h
    obtain ⟨ids, hids, h⟩ := Fallible.bind_ok.mp h
    obtain ⟨window, hwindow, h⟩ := Fallible.bind_ok.mp h
    cases h
    exact activityWindow_shown (followed_reached hids) (by decide) hwindow

theorem shown_reached_first : ∀ e ∈ walkFirst.events,
    (walkHost.recording walkEvents).Shown walkGrant noPayload none e :=
  (shown_reached _ _ _).1 _ _ walkFirst_got

theorem ownSession_alike (h : f.store.Alike f'.store grant) {row : WorkspaceRow}
    (hrow : row.id ∈ f.store.reachedIds grant) (session : Option SessionRecordId) :
    f.ownSession row session = f'.ownSession row session := by
  cases session with
  | none => rfl
  | some session =>
    -- Only a conversation of the workspace counts, and those of a reached one are all reached.
    have hown : ∀ {s : Store}, row.id ∈ s.reachedIds grant →
        (s.session session.text).any (·.workspaceId = row.id) =
          ((s.sessions.filter (·.workspaceId ∈ s.reachedIds grant)).find? (·.id = session.text)).any
            (·.workspaceId = row.id) := by
      intro s hrow
      rw [find_filter s.sessionKey, Option.any_filter, Store.session]
      congr 1
      funext found
      by_cases hid : found.workspaceId = row.id <;> simp [hid, hrow]
    rw [ownSession, ownSession, hown hrow, hown (h.ids ▸ hrow), h.sessions]

theorem followed_alike (h : f.store.Alike f'.store grant) (hread : f.store.Readable)
    (hread' : f'.store.Readable) (workspace : Option WorkspaceId)
    (session : Option SessionRecordId) :
    f.followed grant workspace session = f'.followed grant workspace session := by
  cases workspace with
  | none => exact congrArg Except.ok h.ids
  | some workspace =>
    have hspec := f.reachableWorkspace_spec grant workspace
    have hspec' := f'.reachableWorkspace_spec grant workspace
    rw [← h.workspaces] at hspec'
    simp only [followed, bind, Except.bind]
    cases hrow : f.reachableWorkspace grant workspace with
    | error e =>
      rw [hrow] at hspec
      cases hrow' : f'.reachableWorkspace grant workspace with
      | error e' =>
        rw [hrow'] at hspec'
        rw [hspec.2 hread, hspec'.2 hread']
      | ok found =>
        rw [hrow'] at hspec'
        cases hspec.1.symm.trans hspec'
    | ok found =>
      rw [hrow] at hspec
      cases hrow' : f'.reachableWorkspace grant workspace with
      | error e' =>
        rw [hrow'] at hspec'
        cases hspec'.1.symm.trans hspec
      | ok found' =>
        rw [hrow'] at hspec'
        have hsame : found.1 = found'.1 := Option.some.inj (hspec.symm.trans hspec')
        dsimp only
        rw [ownSession_alike h (mem_map_of_mem (mem_of_find?_eq_some hspec)), hsame]

theorem matching_alike {s s' : Store} (h : s.Alike s' grant) {ids : List String}
    (hids : ∀ id ∈ ids, id ∈ s.reachedIds grant) (session : Option SessionRecordId) :
    s.events.matching (eventFilter ids session) = s'.events.matching (eventFilter ids session) := by
  have hall : ∀ {s : Store}, (∀ id ∈ ids, id ∈ s.reachedIds grant) →
      s.events.matching (eventFilter ids session) =
        (s.events.rows.filter (·.workspaceId ∈ s.reachedIds grant)).filter
          (eventFilter ids session).admits := by
    intro s hids
    rw [filter_filter, Events.matching]
    refine filter_congr fun row _ => ?_
    by_cases hrow : row.workspaceId ∈ ids
    · simp [hids _ hrow]
    · simp [EventFilter.admits, eventFilter, hrow]
  rw [hall hids, hall (h.ids ▸ hids), h.events]

theorem pages_alike {events events' : Events} {filter : EventFilter}
    (h : events.matching filter = events'.matching filter) (read : String → Payload) :
    activityWindow read events filter = activityWindow read events' filter ∧
      activityPage read events filter = activityPage read events' filter := by
  have hwindow : events.window filter = events'.window filter := by
    funext bound limit
    cases bound <;> simp only [Events.window, h]
  have hmatches : events.eventMatches filter = events'.eventMatches filter := by
    have hany : ∀ (events : Events) seq, events.eventMatches filter seq =
        (events.matching filter).any (·.seq = seq) := by
      intro events seq
      rw [Events.matching, List.any_filter, Events.eventMatches]
      simp only [Bool.and_comm]
    funext seq
    rw [hany, hany, h]
  have hread : activityWindow read events filter = activityWindow read events' filter := by
    funext bound size
    simp only [activityWindow, hwindow]
  refine ⟨hread, ?_⟩
  funext cursor limit
  simp only [activityPage, pageBound, hread, hmatches]

/-- **The answers do not depend on what the grant does not reach.** Two hosts that have the same of
    the workspaces a grant reaches answer alike, refusals included. -/
theorem answers_alike {s s' : Store} {grant : Grant} (h : s.Alike s' grant) (hread : s.Readable)
    (hread' : s'.Readable) (read : String → Payload) :
    (∀ params, HostFacade.activity ⟨s⟩ grant read params =
      HostFacade.activity ⟨s'⟩ grant read params) ∧
    ∀ workspace session after, HostFacade.recordedAfter ⟨s⟩ grant read workspace session after =
      HostFacade.recordedAfter ⟨s'⟩ grant read workspace session after := by
  have hfollowed := @followed_alike ⟨s⟩ ⟨s'⟩ grant h hread hread'
  constructor
  · intro params
    rw [activity_eq, activity_eq, ← hfollowed]
    cases hids : HostFacade.followed ⟨s⟩ grant (some params.workspace) params.session with
    | error e => rfl
    | ok ids =>
      have hsame := pages_alike (matching_alike h (followed_reached hids) params.session) read
      show activityPage read s.events _ params.cursor params.limit = _
      rw [hsame.2]
      rfl
  · intro workspace session after
    unfold recordedAfter
    rw [← hfollowed]
    cases hids : HostFacade.followed ⟨s⟩ grant workspace session with
    | error e => rfl
    | ok ids =>
      have hsame := pages_alike (matching_alike h (followed_reached hids) session) read
      show (do
        let window ← activityWindow read s.events (eventFilter ids session) (.after after) MAX_PAGE
        .ok (window.events, window.last.getD after)) = _
      rw [hsame.1]
      rfl

def removedStore : Store where
  projects := [⟨"p1", "one", "/one", false⟩, ⟨"p2", "two", "/two", true⟩]
  workspaces := [⟨"w1", "p1", "local", "main", "/one", false, false⟩,
    ⟨"w2", "p2", "local", "main", "/two", false, false⟩]
  sessions := []
  events := ⟨[walkRow 1 "e1", walkRow 2 "e2", { walkRow 3 "e3" with workspaceId := "w2" }],
    by decide, by decide⟩
  projectKey := by decide
  workspaceKey := by decide
  sessionKey := nodup_nil

theorem answers_alike_removed :
    HostFacade.activity ⟨walkStore walkEvents⟩ walkGrant noPayload ⟨walkWorkspace, none, none, none⟩ =
      HostFacade.activity ⟨removedStore⟩ walkGrant noPayload ⟨walkWorkspace, none, none, none⟩ := by
  have hread : (walkStore walkEvents).Readable ∧ removedStore.Readable := by
    unfold Store.Readable
    decide +kernel
  have halike : (walkStore walkEvents).Alike removedStore walkGrant :=
    ⟨rfl, rfl, by decide +kernel⟩
  exact (answers_alike halike hread.1 hread.2 noPayload).1 _

end HostFacade

end Yardsort.Remote
