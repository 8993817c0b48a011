import Yardsort.Lib.Fallible
import Yardsort.Remote.Facade

/- Walking through a workspace's activity (`activity.list`): page after page, back along `older`
   and on along `newer`, while the host records more.

   Where a page stands among the events that match is `PageAt`: the events before it and its own
   are the start of the list, and its two cursors name its first event and its last. One step of a
   walk keeps it (`older_page`, `newer_page`), and recording only adds at the end
   (`matching_grows`), so what a whole walk yields follows by induction on it
   (`activity_walk`). -/
namespace Yardsort.Remote
open Yardsort.Lib Yardsort.Remote.Activity

theorem matching_ordered (events : Events) (filter : EventFilter) :
    (events.matching filter).Pairwise (·.seq < ·.seq) :=
  events.ordered.sublist filter_sublist

variable {events : Events} {row : EventRow}

theorem matching_numbered {filter : EventFilter} (h : row ∈ events.matching filter) :
    0 < row.seq ∧ row.seq < I64_MAX :=
  events.numbered row (mem_of_mem_filter h)

theorem side_newest (events : Events) (filter : EventFilter) :
    events.side filter .newest = events.matching filter :=
  filter_eq_self.mpr fun _ hrow => decide_eq_true (matching_numbered hrow).2

variable {before : List EventRow}

theorem side_before {filter : EventFilter} {rest : List EventRow}
    (h : events.matching filter = before ++ row :: rest) :
    events.side filter (.before row.seq) = before := by
  have hordered := matching_ordered events filter
  rw [h] at hordered
  obtain ⟨-, hrest, hcross⟩ := pairwise_append.mp hordered
  have hhead := (pairwise_cons.mp hrest).1
  have hbefore : before.filter (EventBound.before row.seq).admits = before :=
    filter_eq_self.mpr fun old hold =>
      decide_eq_true (hcross old hold row (mem_cons_self ..))
  have hafter : (row :: rest).filter (EventBound.before row.seq).admits = [] := by
    refine filter_eq_nil_iff.mpr fun other hother hadmits => ?_
    have hlt : other.seq < row.seq := of_decide_eq_true hadmits
    obtain rfl | hother := mem_cons.mp hother
    · exact Nat.lt_irrefl _ hlt
    · exact Nat.lt_asymm (hhead other hother) hlt
  rw [Events.side, h, filter_append, hbefore, hafter, append_nil]

theorem side_after {filter : EventFilter} {rest : List EventRow}
    (h : events.matching filter = before ++ rest) (hlast : before.getLast? = some row) :
    events.side filter (.after row.seq) = rest := by
  have hordered := matching_ordered events filter
  obtain ⟨front, rfl⟩ := List.getLast?_eq_some_iff.mp hlast
  rw [h, append_assoc] at hordered
  obtain ⟨-, hrest, hcross⟩ := pairwise_append.mp hordered
  have hhead := (pairwise_cons.mp hrest).1
  have hbefore : (front ++ [row]).filter (EventBound.after row.seq).admits = [] := by
    refine filter_eq_nil_iff.mpr fun old hold hadmits => ?_
    have hlt : row.seq < old.seq := of_decide_eq_true hadmits
    obtain hold | hold := mem_snoc.mp hold
    · exact Nat.lt_asymm (hcross old hold row (mem_cons_self ..)) hlt
    · rw [hold] at hlt
      exact Nat.lt_irrefl _ hlt
  have hafter : rest.filter (EventBound.after row.seq).admits = rest :=
    filter_eq_self.mpr fun other hother => decide_eq_true (hhead other hother)
  rw [Events.side, h, filter_append, hbefore, hafter, nil_append]

theorem eventMatches_of_mem {filter : EventFilter} (h : row ∈ events.matching filter) :
    events.eventMatches filter row.seq = true := by
  obtain ⟨hrow, hadmits⟩ := mem_filter.mp h
  refine List.any_eq_true.mpr ⟨row, hrow, ?_⟩
  rw [hadmits, Bool.and_true, decide_eq_true_eq]

theorem matching_grows {events' : Events} (h : events.add row = some events')
    (filter : EventFilter) : events.matching filter <+: events'.matching filter := by
  unfold Events.add at h
  split at h
  · cases h
    split
    · exact prefix_refl _
    unfold Events.matching
    dsimp only
    rw [filter_append]
    exact prefix_append ..
  · cases h

/-! ## Where a page stands -/

def Names (bound : Nat → EventBound) (cursor : Option Cursor) : Option EventRow → Prop
  | none => cursor = none
  | some row => ∃ c, cursor = some c ∧ activityBound c = .ok (bound row.seq, row.seq)

/-- The page of `rows`, which stand right after `before` at the start of the events that match. -/
structure PageAt (read : String → Payload) (matching before rows : List EventRow)
    (page : ActivityPage) : Prop where
  part : before ++ rows <+: matching
  events : page.events = rows.filterMap (event read)
  older : Names .before page.older (if before = [] then none else rows.head?)
  newer : Names .after page.newer (before ++ rows).getLast?

variable {rows : List EventRow} {page : ActivityPage}

theorem PageAt.grow {read : String → Payload} {matching matching' : List EventRow}
    (h : PageAt read matching before rows page) (hgrow : matching <+: matching') :
    PageAt read matching' before rows page :=
  { h with part := h.part.trans hgrow }

theorem names_older (h : 0 < row.seq ∧ row.seq < I64_MAX) :
    ∃ c, activityCursor 'o' row.seq = .ok c ∧ Names .before (some c) (some row) := by
  obtain ⟨c, hissue, hbound⟩ := older_cursor h.1 h.2
  exact ⟨c, hissue, c, rfl, hbound⟩

theorem names_newer (h : 0 < row.seq ∧ row.seq < I64_MAX) :
    ∃ c, activityCursor 'n' row.seq = .ok c ∧ Names .after (some c) (some row) := by
  obtain ⟨c, hissue, hbound⟩ := newer_cursor h.1 h.2
  exact ⟨c, hissue, c, rfl, hbound⟩

section
variable {read : String → Payload} {events : Events} {filter : EventFilter}

theorem take_append_last {kept : List EventRow} (h : kept = rows.drop (rows.length - kept.length)) :
    rows.take (rows.length - kept.length) ++ kept = rows :=
  calc
    rows.take (rows.length - kept.length) ++ kept
      = rows.take (rows.length - kept.length) ++ rows.drop (rows.length - kept.length) := by
        rw [← h]
    _ = rows := take_append_drop ..

/-- A page of what comes before a bound: the last of it, and the cursors of its two ends. -/
theorem page_back (limit : Option Nat) {cursor : Option Cursor} {bound : EventBound}
    {rest : List EventRow} (hmatching : events.matching filter = before ++ rest)
    (hbound : pageBound events filter cursor = .ok bound)
    (hback : bound = .newest ∨ ∃ seq, bound = .before seq)
    (hside : events.side filter bound = before) :
    ∃ page before' rows', activityPage read events filter cursor limit = .ok page ∧
      before' ++ rows' = before ∧ (before ≠ [] → rows' ≠ []) ∧
      PageAt read (events.matching filter) before' rows' page := by
  have hpos : 0 < pageSize limit := Nat.le_max_left ..
  obtain ⟨window, kept, hwindow, hspec⟩ := activityWindow_spec read events filter bound hpos
  rw [hside] at hspec
  have hkept : kept = before.drop (before.length - kept.length) := by
    obtain rfl | ⟨seq, rfl⟩ := hback <;> exact hspec.kept_eq
  have hsplit := take_append_last hkept
  have hlen := congrArg List.length hsplit
  rw [length_append] at hlen
  have hnumbered : ∀ row ∈ kept, 0 < row.seq ∧ row.seq < I64_MAX := fun row hrow =>
    matching_numbered (hmatching ▸ mem_append_left rest
      (hsplit ▸ mem_append_right _ hrow))
  have hmore : window.more = true ↔ before.take (before.length - kept.length) ≠ [] := by
    rw [hspec.more, ← length_pos_iff]
    omega
  have holder : ∃ older, olderCursor window bound = .ok older ∧ Names .before older
      (if before.take (before.length - kept.length) = [] then none else kept.head?) := by
    have hfirst := hspec.first
    cases hhead : kept.head? with
    | none =>
      rw [hhead, map_none] at hfirst
      refine ⟨none, ?_, ?_⟩
      · unfold olderCursor
        rw [hfirst]
      · rw [ite_self]
        rfl
    | some first =>
      rw [hhead, map_some] at hfirst
      obtain ⟨c, hissue, hnames⟩ := names_older (hnumbered first (mem_of_head? hhead))
      by_cases hnil : before.take (before.length - kept.length) = []
      · have hfalse : window.more = false := by
          rw [← Bool.not_eq_true, hmore]
          exact not_not_intro hnil
        refine ⟨none, ?_, ?_⟩
        · unfold olderCursor
          rw [hfirst, hfalse]
          obtain rfl | ⟨seq, rfl⟩ := hback <;> rfl
        · rw [if_pos hnil]
          rfl
      · refine ⟨some c, ?_, ?_⟩
        · unfold olderCursor
          rw [hfirst, hmore.mpr hnil]
          obtain rfl | ⟨seq, rfl⟩ := hback <;>
            · dsimp only
              rw [hissue]
              rfl
        · rw [if_neg hnil]
          exact hnames
  have hnewer : ∃ newer, newerCursor window bound = .ok newer ∧
      Names .after newer before.getLast? := by
    have hlast := hspec.last
    cases hend : kept.getLast? with
    | none =>
      have hnil : before = [] := by
        by_contra hne
        exact hspec.some_of hne (List.getLast?_eq_none_iff.mp hend)
      rw [hend, map_none] at hlast
      refine ⟨none, ?_, ?_⟩
      · unfold newerCursor
        rw [hlast]
        obtain rfl | ⟨seq, rfl⟩ := hback <;> rfl
      · rw [hnil]
        rfl
    | some last =>
      rw [hend, map_some] at hlast
      obtain ⟨c, hissue, hnames⟩ := names_newer (hnumbered last (mem_of_getLast? hend))
      refine ⟨some c, ?_, ?_⟩
      · unfold newerCursor
        rw [hlast]
        dsimp only
        rw [hissue]
        rfl
      · rw [← hsplit, List.getLast?_append, hend]
        exact hnames
  obtain ⟨older, holder, hnamesOlder⟩ := holder
  obtain ⟨newer, hnewer, hnamesNewer⟩ := hnewer
  refine ⟨⟨window.events, older, newer⟩, _, kept, ?_, hsplit, hspec.some_of, ?_⟩
  · unfold activityPage
    rw [hbound]
    show (activityWindow read events filter bound (pageSize limit) >>= _) = _
    rw [hwindow]
    show (olderCursor window bound >>= _) = _
    rw [holder]
    show (newerCursor window bound >>= _) = _
    rw [hnewer]
    rfl
  · exact
      { part := by
          rw [hsplit, hmatching]
          exact prefix_append ..
        events := hspec.events
        older := hnamesOlder
        newer := by
          rw [hsplit]
          exact hnamesNewer }

theorem page_on (limit : Option Nat) {cursor : Cursor} {rest : List EventRow}
    (hmatching : events.matching filter = before ++ rest) (hlast : before.getLast? = some row)
    (hbound : pageBound events filter (some cursor) = .ok (.after row.seq)) :
    ∃ page rows', activityPage read events filter (some cursor) limit = .ok page ∧
      (rest ≠ [] → rows' ≠ []) ∧ PageAt read (events.matching filter) before rows' page := by
  have hpos : 0 < pageSize limit := Nat.le_max_left ..
  obtain ⟨window, kept, hwindow, hspec⟩ :=
    activityWindow_spec read events filter (.after row.seq) hpos
  rw [side_after hmatching hlast] at hspec
  have hpart : kept <+: rest := by
    rw [hspec.kept_eq]
    exact take_prefix ..
  have hrow : row ∈ events.matching filter :=
    hmatching ▸ mem_append_left _ (mem_of_getLast? hlast)
  have hne : before ≠ [] := ne_nil_of_mem (mem_of_getLast? hlast)
  have hnumbered : ∀ row ∈ kept, 0 < row.seq ∧ row.seq < I64_MAX := fun row hkept =>
    matching_numbered (hmatching ▸ mem_append_right before (hpart.subset hkept))
  have holder : ∃ older, olderCursor window (.after row.seq) = .ok older ∧
      Names .before older (if before = [] then none else kept.head?) := by
    have hfirst := hspec.first
    rw [if_neg hne]
    cases hhead : kept.head? with
    | none =>
      rw [hhead, map_none] at hfirst
      refine ⟨none, ?_, rfl⟩
      unfold olderCursor
      rw [hfirst]
    | some first =>
      rw [hhead, map_some] at hfirst
      obtain ⟨c, hissue, hnames⟩ := names_older (hnumbered first (mem_of_head? hhead))
      refine ⟨some c, ?_, hnames⟩
      unfold olderCursor
      rw [hfirst]
      dsimp only
      rw [hissue]
      rfl
  have hnewer : ∃ newer, newerCursor window (.after row.seq) = .ok newer ∧
      Names .after newer (before ++ kept).getLast? := by
    have hend := hspec.last
    rw [List.getLast?_append]
    cases hkept : kept.getLast? with
    | none =>
      rw [hkept, map_none] at hend
      obtain ⟨c, hissue, hnames⟩ := names_newer (matching_numbered hrow)
      refine ⟨some c, ?_, ?_⟩
      · unfold newerCursor
        rw [hend]
        dsimp only
        rw [hissue]
        rfl
      · rw [hlast]
        exact hnames
    | some last =>
      rw [hkept, map_some] at hend
      obtain ⟨c, hissue, hnames⟩ := names_newer (hnumbered last (mem_of_getLast? hkept))
      refine ⟨some c, ?_, hnames⟩
      unfold newerCursor
      rw [hend]
      dsimp only
      rw [hissue]
      rfl
  obtain ⟨older, holder, hnamesOlder⟩ := holder
  obtain ⟨newer, hnewer, hnamesNewer⟩ := hnewer
  refine ⟨⟨window.events, older, newer⟩, kept, ?_, hspec.some_of, ?_⟩
  · unfold activityPage
    rw [hbound]
    show (activityWindow read events filter (.after row.seq) (pageSize limit) >>= _) = _
    rw [hwindow]
    show (olderCursor window (.after row.seq) >>= _) = _
    rw [holder]
    show (newerCursor window (.after row.seq) >>= _) = _
    rw [hnewer]
    rfl
  · exact
      { part := by
          rw [hmatching]
          exact (prefix_append_right_inj before).mpr hpart
        events := hspec.events
        older := hnamesOlder
        newer := hnamesNewer }

theorem first_page (read : String → Payload) (events : Events) (filter : EventFilter)
    (limit : Option Nat) :
    ∃ page before rows, activityPage read events filter none limit = .ok page ∧
      before ++ rows = events.matching filter ∧ (events.matching filter ≠ [] → rows ≠ []) ∧
      PageAt read (events.matching filter) before rows page :=
  page_back limit (append_nil _).symm rfl (.inl rfl) (side_newest events filter)

theorem pageBound_cursor {cursor : Cursor} {bound : EventBound}
    (hcursor : activityBound cursor = .ok (bound, row.seq)) (hrow : row ∈ events.matching filter) :
    pageBound events filter (some cursor) = .ok bound := by
  unfold pageBound
  dsimp only
  rw [hcursor]
  show (if events.eventMatches filter row.seq then _ else _) = _
  rw [if_pos (eventMatches_of_mem hrow)]

/-- **Following `older`** is never refused, and takes the end of what was before the page. -/
theorem older_page {cursor : Cursor} (h : PageAt read (events.matching filter) before rows page)
    (holder : page.older = some cursor) (limit : Option Nat) :
    ∃ page' before' rows', activityPage read events filter (some cursor) limit = .ok page' ∧
      before' ++ rows' = before ∧ rows' ≠ [] ∧
      PageAt read (events.matching filter) before' rows' page' := by
  have hnames := h.older
  by_cases hbefore : before = []
  · rw [if_pos hbefore, holder] at hnames
    cases hnames
  · rw [if_neg hbefore, holder] at hnames
    cases hrows : rows with
    | nil =>
      rw [hrows] at hnames
      cases hnames
    | cons row rows =>
      rw [hrows] at hnames
      obtain ⟨c, hc, hbound⟩ := hnames
      cases hc
      obtain ⟨rest, hrest⟩ := h.part
      rw [hrows, append_assoc, cons_append] at hrest
      have hrow : row ∈ events.matching filter :=
        hrest ▸ mem_append_right _ (mem_cons_self ..)
      obtain ⟨page', before', rows', hpage, hsplit, hsome, hat⟩ :=
        page_back limit hrest.symm (pageBound_cursor hbound hrow) (.inr ⟨row.seq, rfl⟩)
          (side_before hrest.symm)
      exact ⟨page', before', rows', hpage, hsplit, hsome hbefore, hat⟩

/-- **Following `newer`** is never refused, and goes on right after the page. -/
theorem newer_page {cursor : Cursor} (h : PageAt read (events.matching filter) before rows page)
    (hnewer : page.newer = some cursor) (limit : Option Nat) :
    ∃ page' rows', activityPage read events filter (some cursor) limit = .ok page' ∧
      (before ++ rows ≠ events.matching filter → rows' ≠ []) ∧
      PageAt read (events.matching filter) (before ++ rows) rows' page' := by
  have hnames := h.newer
  cases hlast : (before ++ rows).getLast? with
  | none =>
    rw [hlast, hnewer] at hnames
    cases hnames
  | some row =>
    rw [hlast, hnewer] at hnames
    obtain ⟨c, hc, hbound⟩ := hnames
    cases hc
    obtain ⟨rest, hrest⟩ := h.part
    have hrow : row ∈ events.matching filter :=
      hrest ▸ mem_append_left _ (mem_of_getLast? hlast)
    obtain ⟨page', rows', hpage, hsome, hat⟩ :=
      page_on limit hrest.symm hlast (pageBound_cursor hbound hrow)
    refine ⟨page', rows', hpage, fun hne => hsome ?_, hat⟩
    rintro rfl
    exact hne (by rw [← hrest, append_nil])

end

theorem reachableWorkspace_id {f : HostFacade} {grant : Grant} {id : WorkspaceId}
    {row : WorkspaceRow} {project : ProjectRow}
    (h : f.reachableWorkspace grant id = .ok (row, project)) : row.id = id.text := by
  unfold HostFacade.reachableWorkspace at h
  split at h
  · cases h
  rename_i found hfound
  obtain ⟨hfound, -⟩ := filter_eq_some_iff.mp hfound
  have hid : (found.id = id.text) := by
    have := List.find?_some hfound
    rwa [decide_eq_true_eq] at this
  obtain ⟨projectId, -, h⟩ := Fallible.bind_ok.mp h
  obtain ⟨project, -, h⟩ := Fallible.bind_ok.mp h
  cases h
  exact hid

namespace HostFacade

def recording (f : HostFacade) (events : Events) : HostFacade :=
  { f with store := { f.store with events } }

end HostFacade

section
variable (f : HostFacade) (grant : Grant) (read : String → Payload) (workspace : WorkspaceId)
  (session : Option SessionRecordId)

/-- A page of a workspace's activity, or of one conversation's, asked for when these events are
    recorded. -/
def listAt (events : Events) (cursor : Option Cursor) (limit : Option Nat) : Answer ActivityPage :=
  (f.recording events).activity grant read ⟨workspace, session, cursor, limit⟩

/-- The pages a client gets by following one of a page's cursors, page after page, while the host
    records more. -/
inductive Follows (next : ActivityPage → Option Cursor) :
    Events → ActivityPage → Events → List ActivityPage → Prop
  | stay (events : Events) (page : ActivityPage) : Follows next events page events []
  | recorded {events events₁ events' : Events} {row : EventRow} {page : ActivityPage}
      {pages : List ActivityPage} (h : events.add row = some events₁)
      (rest : Follows next events₁ page events' pages) : Follows next events page events' pages
  | asked {events events' : Events} {cursor : Cursor} {limit : Option Nat}
      {page page₁ : ActivityPage} {pages : List ActivityPage} (h : next page = some cursor)
      (got : listAt f grant read workspace session events (some cursor) limit = .ok page₁)
      (rest : Follows next events page₁ events' pages) :
      Follows next events page events' (page₁ :: pages)

/-- A page a client has got, from the newest and along either cursor, while the host records
    more. -/
inductive Reached : Events → ActivityPage → Prop
  | first {events : Events} {limit : Option Nat} {page : ActivityPage}
      (got : listAt f grant read workspace session events none limit = .ok page) :
      Reached events page
  | recorded {events events₁ : Events} {row : EventRow} {page : ActivityPage}
      (h : events.add row = some events₁) (earlier : Reached events page) : Reached events₁ page
  | asked {events : Events} {cursor : Cursor} {limit : Option Nat} {page page₁ : ActivityPage}
      (earlier : Reached events page) (h : page.older = some cursor ∨ page.newer = some cursor)
      (got : listAt f grant read workspace session events (some cursor) limit = .ok page₁) :
      Reached events page₁

variable {f grant read workspace session}

theorem listAt_eq {cursor : Option Cursor} {limit : Option Nat}
    (h : listAt f grant read workspace session events cursor limit = .ok page) (events' : Events)
    (cursor' : Option Cursor) (limit' : Option Nat) :
    listAt f grant read workspace session events' cursor' limit' =
      activityPage read events' (HostFacade.eventFilter [workspace.text] session) cursor' limit' := by
  obtain ⟨⟨row, project⟩, hreach, h⟩ := Fallible.bind_ok.mp h
  obtain ⟨_, hown, -⟩ := Fallible.bind_ok.mp h
  have hreach' : (f.recording events').reachableWorkspace grant workspace = .ok (row, project) :=
    hreach
  have hown' : (f.recording events').ownSession row session = .ok () := hown
  unfold listAt HostFacade.activity
  dsimp only
  rw [hreach']
  show ((f.recording events').ownSession row session >>= _) = _
  rw [hown', ← reachableWorkspace_id hreach]
  rfl

section
variable {filter : EventFilter}
  (hlist : ∀ events cursor limit, listAt f grant read workspace session events cursor limit =
    activityPage read events filter cursor limit)
include hlist

/-- Following `older` takes what was before the page, from its end, and never the same twice. -/
theorem Follows.older_part {events' : Events} {pages : List ActivityPage}
    (h : Follows f grant read workspace session ActivityPage.older events page events' pages)
    (hat : PageAt read (events.matching filter) before rows page)
    (hsome : before ≠ [] → rows ≠ []) :
    ∃ left got rows', PageAt read (events'.matching filter) left rows' (pages.getLastD page) ∧
      (left ≠ [] → rows' ≠ []) ∧ left ++ got = before ∧
      got.filterMap (event read) = pages.reverse.flatMap (·.events) ∧
      left.length + pages.length ≤ before.length := by
  induction h generalizing before rows with
  | stay events page =>
    exact ⟨before, [], rows, hat, hsome, append_nil _, rfl, Nat.le_refl _⟩
  | recorded hadd _ ih => exact ih (hat.grow (matching_grows hadd filter)) hsome
  | @asked events events' cursor limit page page₁ pages holder got _ ih =>
    obtain ⟨page', before', rows', hpage, hsplit, hsome', hat'⟩ := older_page hat holder limit
    rw [hlist, hpage] at got
    cases got
    obtain ⟨left, got', last, hlast, hlastSome, hleft, hevents, hlen⟩ := ih hat' fun _ => hsome'
    rw [← List.getLastD_cons] at hlast
    refine ⟨left, got' ++ rows', last, hlast, hlastSome, ?_, ?_, ?_⟩
    · rw [← append_assoc, hleft, hsplit]
    · rw [filterMap_append, hevents, ← hat'.events, List.reverse_cons, flatMap_append,
        flatMap_singleton]
    · have hrows := length_pos_iff.mpr hsome'
      have := congrArg List.length hsplit
      rw [length_append] at this
      rw [length_cons]
      omega

/-- Following `newer` goes on right after the page, and never skips or repeats. -/
theorem Follows.newer_part {events' : Events} {pages : List ActivityPage}
    (h : Follows f grant read workspace session ActivityPage.newer events page events' pages)
    (hat : PageAt read (events.matching filter) before rows page) :
    ∃ before' got rows', PageAt read (events'.matching filter) before' rows' (pages.getLastD page) ∧
      before' ++ rows' = before ++ rows ++ got ∧
      got.filterMap (event read) = pages.flatMap (·.events) := by
  induction h generalizing before rows with
  | stay events page => exact ⟨before, [], rows, hat, (append_nil _).symm, rfl⟩
  | recorded hadd _ ih => exact ih (hat.grow (matching_grows hadd filter))
  | @asked events events' cursor limit page page₁ pages hnewer got _ ih =>
    obtain ⟨page', rows', hpage, -, hat'⟩ := newer_page hat hnewer limit
    rw [hlist, hpage] at got
    cases got
    obtain ⟨before', got', last, hlast, hsplit, hevents⟩ := ih hat'
    rw [← List.getLastD_cons] at hlast
    refine ⟨before', rows' ++ got', last, hlast, ?_, ?_⟩
    · rw [hsplit, append_assoc _ rows' got']
    · rw [filterMap_append, hevents, ← hat'.events, flatMap_cons]

theorem Reached.at (h : Reached f grant read workspace session events page) :
    ∃ before rows, PageAt read (events.matching filter) before rows page := by
  induction h with
  | @first events limit page got =>
    obtain ⟨page', before, rows, hpage, -, -, hat⟩ := first_page read events filter limit
    rw [hlist, hpage] at got
    cases got
    exact ⟨before, rows, hat⟩
  | recorded hadd _ ih =>
    obtain ⟨before, rows, hat⟩ := ih
    exact ⟨before, rows, hat.grow (matching_grows hadd filter)⟩
  | @asked events cursor limit page page₁ _ hcursor got ih =>
    obtain ⟨before, rows, hat⟩ := ih
    rw [hlist] at got
    obtain holder | hnewer := hcursor
    · obtain ⟨page', before', rows', hpage, -, -, hat'⟩ := older_page hat holder limit
      rw [hpage] at got
      cases got
      exact ⟨before', rows', hat'⟩
    · obtain ⟨page', rows', hpage, -, hat'⟩ := newer_page hat hnewer limit
      rw [hpage] at got
      cases got
      exact ⟨before ++ rows, rows', hat'⟩

end

/-! ## What is between two numbers -/

def endSeq (rows : List EventRow) : Nat := (rows.getLast?.map (·.seq)).getD 0

theorem between_eq {events : Events} {filter : EventFilter} {before middle rest : List EventRow}
    (h : events.matching filter = before ++ middle ++ rest) :
    (events.matching filter).filter (fun row =>
      endSeq before < row.seq && row.seq ≤ endSeq (before ++ middle)) = middle := by
  have hordered := matching_ordered events filter
  have hend : ∀ part other : List EventRow, events.matching filter = part ++ other →
      (∀ row ∈ part, row.seq ≤ endSeq part) ∧ ∀ row ∈ other, endSeq part < row.seq := by
    intro part other hpart
    rw [hpart] at hordered
    obtain ⟨hfront, -, hcross⟩ := pairwise_append.mp hordered
    cases hlast : part.getLast? with
    | none =>
      obtain rfl := List.getLast?_eq_none_iff.mp hlast
      refine ⟨fun row hrow => (not_mem_nil hrow).elim, fun row hrow => ?_⟩
      exact (matching_numbered (hpart ▸ mem_append_right [] hrow)).1
    | some last =>
      have hseq : endSeq part = last.seq := by rw [endSeq, hlast]; rfl
      obtain ⟨front, rfl⟩ := List.getLast?_eq_some_iff.mp hlast
      rw [hseq]
      refine ⟨fun row hrow => ?_, fun row hrow =>
        hcross last (mem_append_right _ (mem_singleton_self _)) row hrow⟩
      obtain hrow | hrow := mem_snoc.mp hrow
      · exact Nat.le_of_lt ((pairwise_append.mp hfront).2.2 row hrow last
          (mem_singleton_self _))
      · rw [hrow]
  obtain ⟨hbefore, hafter⟩ := hend before (middle ++ rest) (by rw [h, append_assoc])
  obtain ⟨hmiddle, hrest⟩ := hend (before ++ middle) rest h
  rw [h, filter_append, filter_append, filter_eq_nil_iff.mpr, nil_append,
    filter_eq_self.mpr, filter_eq_nil_iff.mpr, append_nil]
  · intro row hrow hin
    rw [Bool.and_eq_true, decide_eq_true_eq, decide_eq_true_eq] at hin
    have := hrest row hrow
    omega
  · intro row hrow
    rw [Bool.and_eq_true, decide_eq_true_eq, decide_eq_true_eq]
    exact ⟨hafter row (mem_append_left _ hrow), hmiddle row (mem_append_right _ hrow)⟩
  · intro row hrow hin
    rw [Bool.and_eq_true, decide_eq_true_eq, decide_eq_true_eq] at hin
    have := hbefore row hrow
    omega

theorem PageAt.older_none {matching : List EventRow} (h : PageAt read matching before rows page)
    (hsome : before ≠ [] → rows ≠ []) :
    page.older = none ↔ before = [] := by
  have hnames := h.older
  by_cases hbefore : before = []
  · rw [if_pos hbefore] at hnames
    exact ⟨fun _ => hbefore, fun _ => hnames⟩
  · rw [if_neg hbefore] at hnames
    obtain ⟨row, rest, hrows⟩ := exists_cons_of_ne_nil (hsome hbefore)
    rw [hrows] at hnames
    obtain ⟨c, hc, -⟩ := hnames
    rw [hc]
    exact ⟨nofun, fun h => absurd h hbefore⟩

theorem PageAt.newer_none {matching : List EventRow} (h : PageAt read matching before rows page) :
    page.newer = none ↔ before ++ rows = [] := by
  have hnames := h.newer
  cases hlast : (before ++ rows).getLast? with
  | none =>
    rw [hlast] at hnames
    exact ⟨fun _ => List.getLast?_eq_none_iff.mp hlast, fun _ => hnames⟩
  | some row =>
    rw [hlast] at hnames
    obtain ⟨c, hc, -⟩ := hnames
    rw [hc]
    refine ⟨nofun, fun h => ?_⟩
    rw [h] at hlast
    cases hlast

theorem PageAt.newer_names {matching : List EventRow} {cursor : Cursor}
    (h : PageAt read matching before rows page) (hnewer : page.newer = some cursor) :
    activityBound cursor = .ok (.after (endSeq (before ++ rows)), endSeq (before ++ rows)) := by
  have hnames := h.newer
  rw [endSeq]
  cases hlast : (before ++ rows).getLast? with
  | none =>
    rw [hlast, hnewer] at hnames
    cases hnames
  | some row =>
    rw [hlast, hnewer] at hnames
    obtain ⟨c, hc, hbound⟩ := hnames
    cases hc
    exact hbound

theorem endSeq_lt {filter : EventFilter} {middle rest : List EventRow}
    (h : events.matching filter = before ++ middle ++ rest) (hne : middle ≠ []) :
    endSeq before < endSeq (before ++ middle) := by
  obtain ⟨row, front, hmiddle⟩ := exists_cons_of_ne_nil hne
  have hrow : row ∈ (events.matching filter).filter (fun row =>
      endSeq before < row.seq && row.seq ≤ endSeq (before ++ middle)) := by
    rw [between_eq h, hmiddle]
    exact mem_cons_self ..
  have hbetween := (mem_filter.mp hrow).2
  rw [Bool.and_eq_true, decide_eq_true_eq, decide_eq_true_eq] at hbetween
  exact Nat.lt_of_lt_of_le hbetween.1 hbetween.2

/-- **Walking through activity misses nothing and repeats nothing.** From the first page of a list,
    the pages got by following `older` are the end of the events that matched when it was asked
    for, in order; they are all of them when `older` is absent, none is refused, and there are no
    more of them than events. From any page got, the pages got by following `newer` are the events
    after it, in order, up to the number the last of them names; the next is never refused, and
    goes further whenever there is anything after. -/
theorem activity_walk (f : HostFacade) (grant : Grant) (read : String → Payload)
    (workspace : WorkspaceId) (session : Option SessionRecordId) :
    let filter := HostFacade.eventFilter [workspace.text] session
    (∀ events limit first, listAt f grant read workspace session events none limit = .ok first →
      (first.newer = none ↔ events.matching filter = []) ∧
      ∀ events' pages,
        Follows f grant read workspace session ActivityPage.older events first events' pages →
        ∃ left got, left ++ got = events.matching filter ∧
          got.filterMap (event read) = pages.reverse.flatMap (·.events) ++ first.events ∧
          ((pages.getLastD first).older = none ↔ left = []) ∧
          left.length + pages.length ≤ (events.matching filter).length ∧
          ∀ cursor limit, (pages.getLastD first).older = some cursor →
            ∃ page, listAt f grant read workspace session events' (some cursor) limit = .ok page) ∧
    ∀ events page, Reached f grant read workspace session events page →
      ∀ cursor, page.newer = some cursor →
        ∃ k n, activityBound cursor = .ok (.after n, n) ∧
          page.events = ((events.matching filter).filter fun row =>
            k < row.seq && row.seq ≤ n).filterMap (event read) ∧
          ∀ events' pages,
            Follows f grant read workspace session ActivityPage.newer events page events' pages →
            ∃ last m, (pages.getLastD page).newer = some last ∧
              activityBound last = .ok (.after m, m) ∧
              pages.flatMap (·.events) = ((events'.matching filter).filter fun row =>
                n < row.seq && row.seq ≤ m).filterMap (event read) ∧
              ∀ limit, ∃ page' cursor' m',
                listAt f grant read workspace session events' (some last) limit = .ok page' ∧
                page'.newer = some cursor' ∧ activityBound cursor' = .ok (.after m', m') ∧
                ((∃ row ∈ events'.matching filter, m < row.seq) → m < m') := by
  intro filter
  constructor
  · intro events limit first hfirst
    have hlist := listAt_eq hfirst
    obtain ⟨page, before, rows, hpage, hall, hsome, hat⟩ := first_page read events filter limit
    rw [hlist, hpage] at hfirst
    cases hfirst
    have hrows : before ≠ [] → rows ≠ [] := fun hne => hsome fun hnil =>
      hne (append_eq_nil_iff.mp (hall.trans hnil)).1
    refine ⟨by rw [hat.newer_none, hall], fun events' pages hfollows => ?_⟩
    obtain ⟨left, got, rows', hlast, hlastSome, hleft, hgot, hlen⟩ :=
      hfollows.older_part hlist hat hrows
    refine ⟨left, got ++ rows, ?_, ?_, hlast.older_none hlastSome, ?_, ?_⟩
    · rw [← append_assoc, hleft, hall]
    · rw [filterMap_append, hgot, hat.events]
    · have := congrArg List.length hall
      rw [length_append] at this
      omega
    · intro cursor limit' holder
      obtain ⟨page', -, -, hpage', -⟩ := older_page hlast holder limit'
      exact ⟨page', (hlist ..).trans hpage'⟩
  · intro events page hreached cursor hnewer
    have hlist : ∀ events cursor limit, listAt f grant read workspace session events cursor limit =
        activityPage read events filter cursor limit := by
      clear hnewer
      induction hreached with
      | first got | asked _ _ got _ => exact listAt_eq got
      | recorded _ _ ih => exact ih
    obtain ⟨before, rows, hat⟩ := hreached.at hlist
    obtain ⟨rest, hrest⟩ := hat.part
    refine ⟨endSeq before, endSeq (before ++ rows), hat.newer_names hnewer, ?_, ?_⟩
    · rw [between_eq hrest.symm, hat.events]
    · intro events' pages hfollows
      obtain ⟨before', got, rows', hlast, hsplit, hgot⟩ := hfollows.newer_part hlist hat
      obtain ⟨rest', hrest'⟩ := hlast.part
      have hne : (pages.getLastD page).newer ≠ none := by
        intro hnone
        have hnil := hlast.newer_none.mp hnone
        rw [hsplit] at hnil
        rw [hat.newer_none.mpr (append_eq_nil_iff.mp hnil).1] at hnewer
        cases hnewer
      obtain ⟨last, hlastNewer⟩ := Option.ne_none_iff_exists'.mp hne
      refine ⟨last, endSeq (before' ++ rows'), hlastNewer, hlast.newer_names hlastNewer, ?_, ?_⟩
      · rw [hsplit, ← hgot]
        rw [hsplit] at hrest'
        rw [between_eq hrest'.symm]
      · intro limit
        obtain ⟨page', more, hpage', hmore, hat'⟩ := newer_page hlast hlastNewer limit
        have hnewer' : page'.newer ≠ none := by
          intro hnone
          have hnil := (append_eq_nil_iff.mp (hat'.newer_none.mp hnone)).1
          exact hne (hlast.newer_none.mpr hnil)
        obtain ⟨cursor', hcursor'⟩ := Option.ne_none_iff_exists'.mp hnewer'
        refine ⟨page', cursor', endSeq (before' ++ rows' ++ more), (hlist ..).trans hpage',
          hcursor', hat'.newer_names hcursor', ?_⟩
        rintro ⟨row, hrow, hlt⟩
        obtain ⟨rest'', hrest''⟩ := hat'.part
        refine endSeq_lt hrest''.symm (hmore fun hall => ?_)
        have hmiddle := @between_eq events' filter [] (before' ++ rows') [] (by
          rw [nil_append, append_nil, hall])
        have hin : row ∈ before' ++ rows' := hall ▸ hrow
        rw [← hmiddle] at hin
        have hbound := (mem_filter.mp hin).2
        rw [Bool.and_eq_true, decide_eq_true_eq, decide_eq_true_eq] at hbound
        exact absurd hbound.2 (Nat.not_le.mpr hlt)

end

def walkStore (events : Events) : Store where
  projects := [⟨"p1", "one", "/one", false⟩]
  workspaces := [⟨"w1", "p1", "local", "main", "/one", false, false⟩]
  sessions := []
  events := events
  projectKey := by decide
  workspaceKey := by decide
  sessionKey := by decide

def walkHost : HostFacade where
  store := walkStore Events.empty

def walkRow (seq : Nat) (id : String) : EventRow :=
  ⟨seq, id, "w1", none, none, 0, "process.started", "app", "lifecycle", "observed", none, "metadata", "{}"⟩

def walkEvents : Events where
  rows := [walkRow 1 "e1", walkRow 2 "e2"]
  ordered := by decide
  numbered := by decide

def walkGrant : Grant := ⟨⟨"d1", by decide +kernel⟩, {.activityRead}, .all⟩

def noPayload : String → Payload := fun _ _ => none

theorem w1_ok : Proto.checkId "w1" = .ok () := by decide +kernel

def walkWorkspace : WorkspaceId := ⟨"w1", w1_ok⟩

def walkFirst : ActivityPage :=
  (listAt walkHost walkGrant noPayload walkWorkspace none walkEvents none (some 1)).toOption.getD
    ⟨[], none, none⟩

def walkSecond : ActivityPage :=
  (listAt walkHost walkGrant noPayload walkWorkspace none walkEvents walkFirst.older
    (some 1)).toOption.getD ⟨[], none, none⟩

theorem walkFirst_got :
    listAt walkHost walkGrant noPayload walkWorkspace none walkEvents none (some 1) =
      .ok walkFirst := by decide +kernel

theorem walkSecond_got : ∃ cursor, walkFirst.older = some cursor ∧
    listAt walkHost walkGrant noPayload walkWorkspace none walkEvents (some cursor) (some 1) =
      .ok walkSecond := by
  have hsome : walkFirst.older.isSome = true := by decide +kernel
  obtain ⟨cursor, hcursor⟩ := isSome_iff_exists.mp hsome
  refine ⟨cursor, hcursor, ?_⟩
  rw [← hcursor]
  decide +kernel

theorem activity_walk_two :
    walkFirst.events.map (·.id.text) = ["e2"] ∧ walkSecond.events.map (·.id.text) = ["e1"] ∧
      walkSecond.older = none ∧ ((walkEvents.matching (HostFacade.eventFilter ["w1"] none)).filterMap
      (event noPayload)) = walkSecond.events ++ walkFirst.events := by
  have hnone : walkSecond.older = none := by decide +kernel
  obtain ⟨cursor, hcursor, hgot⟩ := walkSecond_got
  obtain ⟨-, hwalk⟩ := (activity_walk walkHost walkGrant noPayload walkWorkspace none).1
    walkEvents (some 1) walkFirst walkFirst_got
  obtain ⟨left, got, hall, hevents, holder, -⟩ :=
    hwalk walkEvents [walkSecond] (.asked hcursor hgot (.stay ..))
  obtain rfl := holder.mp hnone
  refine ⟨by decide +kernel, by decide +kernel, hnone, ?_⟩
  rw [nil_append] at hall
  rw [hall] at hevents
  rw [List.reverse_singleton, flatMap_singleton] at hevents
  exact hevents

end Yardsort.Remote
