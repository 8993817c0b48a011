import Yardsort.Mobile.Feed
import Yardsort.Lib.Table
import Yardsort.Remote.Walk

/- What a feed shows, as a stretch of what the computer recorded.

   `Shows` says of a stretch of its rows that their events are what is shown, and what of the
   cursors follows. Events of the next rows are added at the end (`extend`). A page that `older`
   waits for is the one before the stretch, or is shown already and first, or the oldest events went
   since (`Pending`); `turned_cut` and `turned_uncut` add it. -/
namespace Yardsort.Mobile.Feed
open Yardsort.Lib Remote

namespace Log

variable {log log' : Log}

theorem shown_self (log : Log) (n : Nat) : log.shown n n = [] := by
  unfold shown
  rw [drop_eq_nil_of_le (by simp), filterMap_nil]

theorem shown_append (log : Log) {lo mid hi : Nat} (hlo : lo ≤ mid) (hhi : mid ≤ hi) :
    log.shown lo hi = log.shown lo mid ++ log.shown mid hi := by
  have htake : (log.rows.take hi).take mid = log.rows.take mid := by
    rw [take_take, Nat.min_eq_left hhi]
  have hsplit : (log.rows.take hi).drop lo =
      (log.rows.take mid).drop lo ++ (log.rows.take hi).drop mid := by
    rw [← htake]
    generalize log.rows.take hi = rows
    conv => lhs; rw [← take_append_drop mid rows, drop_append]
    congr 1
    by_cases hlen : lo ≤ (rows.take mid).length
    · rw [Nat.sub_eq_zero_of_le hlen, drop_zero]
    · rw [length_take] at hlen
      rw [drop_eq_nil_of_le (by omega : rows.length ≤ mid), List.drop_nil]
  unfold shown
  rw [hsplit, filterMap_append]

theorem shown_record {row : Option ActivityEvent} (h : log.record row = some log') {lo hi : Nat}
    (hhi : hi ≤ log.length) : log'.shown lo hi = log.shown lo hi := by
  unfold record at h
  split at h
  · cases h
    unfold shown
    rw [take_append_of_le_length hhi]
  · cases h

theorem record_length {row : Option ActivityEvent} (h : log.record row = some log') :
    log'.length = log.length + 1 := by
  unfold record at h
  split at h
  · cases h
    simp [length]
  · cases h

theorem shown_ids (log : Log) (lo hi : Nat) :
    (log.shown lo hi).map (·.id) = rowIds ((log.rows.take hi).drop lo) := by
  unfold shown rowIds
  rw [List.map_filterMap]
  refine filterMap_congr fun row _ => ?_
  cases row <;> rfl

theorem shown_once (log : Log) (lo hi : Nat) : ((log.shown lo hi).map (·.id)).Nodup := by
  rw [shown_ids]
  have hsub : ((log.rows.take hi).drop lo).Sublist log.rows :=
    (List.drop_sublist _ _).trans (List.take_sublist _ _)
  exact log.once.sublist (hsub.filterMap _)

theorem shown_disjoint (log : Log) {lo mid hi : Nat} (hlo : lo ≤ mid) (hhi : mid ≤ hi)
    {e : ActivityEvent} (he : e ∈ log.shown mid hi) :
    e.id ∉ (log.shown lo mid).map (·.id) := by
  have honce := log.shown_once lo hi
  rw [log.shown_append hlo hhi, map_append] at honce
  intro hmem
  exact (nodup_append.mp honce).2.2 _ hmem _ (mem_map_of_mem he) rfl

theorem shown_drop (log : Log) {lo hi : Nat} (hle : lo ≤ hi) (hhi : hi ≤ log.length) (n : Nat) :
    ∃ mid, lo ≤ mid ∧ mid ≤ hi ∧ log.shown mid hi = (log.shown lo hi).drop n := by
  have hdrop : ∀ (rows : List (Option ActivityEvent)) (n : Nat),
      ∃ k ≤ rows.length, (rows.drop k).filterMap id = (rows.filterMap id).drop n := by
    intro rows
    induction rows with
    | nil => intro n; exact ⟨0, Nat.le_refl _, by simp⟩
    | cons row rows ih =>
      intro n
      cases n with
      | zero => exact ⟨0, Nat.zero_le _, by simp⟩
      | succ n =>
        cases row with
        | none =>
          obtain ⟨k, hk, hrows⟩ := ih (n + 1)
          exact ⟨k + 1, Nat.succ_le_succ hk, by simpa using hrows⟩
        | some e =>
          obtain ⟨k, hk, hrows⟩ := ih n
          exact ⟨k + 1, Nat.succ_le_succ hk, by simpa using hrows⟩
  obtain ⟨k, hk, hrows⟩ := hdrop ((log.rows.take hi).drop lo) n
  have hlen : ((log.rows.take hi).drop lo).length = hi - lo := by
    rw [length_drop, length_take]
    exact congrArg (· - lo) (Nat.min_eq_left hhi)
  refine ⟨lo + k, by omega, by omega, ?_⟩
  unfold shown
  rw [← hrows, drop_drop]

end Log

section
variable (s : State) (all events : List ActivityEvent) (seen : List EventId)

@[simp] theorem keeps_log : (s.keeps all seen).log = s.log := by
  unfold State.keeps
  split <;> rfl

@[simp] theorem keeps_newer : (s.keeps all seen).newer = s.newer := by
  unfold State.keeps
  split <;> rfl

@[simp] theorem keeps_run : (s.keeps all seen).run = s.run := by
  unfold State.keeps
  split <;> rfl

@[simp] theorem keeps_follows : (s.keeps all seen).follows = s.follows := by
  unfold State.keeps
  split <;> rfl

@[simp] theorem keeps_olders : (s.keeps all seen).olders = s.olders := by
  unfold State.keeps
  split <;> rfl

@[simp] theorem keeps_subscriptions : (s.keeps all seen).subscriptions = s.subscriptions := by
  unfold State.keeps
  split <;> rfl

@[simp] theorem keeps_resets : (s.keeps all seen).resets = s.resets := by
  unfold State.keeps
  split <;> rfl

end

def Sees (s : State) : Prop := ∀ id, id ∈ s.seen ↔ id ∈ s.events.map (·.id)

structure Keeps (s : State) (all : List ActivityEvent) (s' : State) : Prop where
  sees : Sees s'
  whole : all.length ≤ MAX_KEPT → s'.events = all ∧ s'.older = s.older ∧
    s'.hasOlder = s.older.isSome ∧ s'.cut = s.cut
  atEnd : MAX_KEPT < all.length → s'.events = all.drop (all.length - MAX_KEPT) ∧
    s'.older = none ∧ s'.hasOlder = false ∧ s'.cut = true

theorem keeps_keeps (s : State) (all : List ActivityEvent) (seen : List EventId)
    (hseen : ∀ id, id ∈ seen ↔ id ∈ all.map (·.id)) (honce : (all.map (·.id)).Nodup) :
    Keeps s all (s.keeps all seen) := by
  unfold State.keeps
  split
  · refine ⟨?_, fun hle => by omega, fun _ => by simp⟩
    intro id
    have hsplit := take_append_drop (all.length - MAX_KEPT) all
    generalize hfront : all.take (all.length - MAX_KEPT) = front at hsplit
    generalize hback : all.drop (all.length - MAX_KEPT) = back at hsplit
    have hids : ∀ id, id ∈ seen ↔ id ∈ front.map (·.id) ∨ id ∈ back.map (·.id) := by
      intro id
      rw [hseen, ← hsplit, map_append, mem_append]
    rw [← hsplit, map_append] at honce
    have hdisjoint := (nodup_append.mp honce).2.2
    rw [mem_filter, hids]
    constructor
    · rintro ⟨hid, hnot⟩
      exact hid.resolve_left (by simpa using hnot)
    · intro hid
      refine ⟨.inr hid, ?_⟩
      simp only [decide_not, Bool.not_eq_true', decide_eq_false_iff_not]
      exact fun hin => hdisjoint id hin id hid rfl
  · refine ⟨hseen, fun _ => ⟨rfl, rfl, rfl, rfl⟩, fun hover => by omega⟩

theorem fresh_all {s : State} (hsees : Sees s) {events : List ActivityEvent}
    (hnew : ∀ e ∈ events, e.id ∉ s.events.map (·.id)) : s.fresh events = events := by
  unfold State.fresh
  rw [filter_eq_self]
  intro e he
  simpa [hsees e.id] using hnew e he

theorem fresh_none {s : State} (hsees : Sees s) {events : List ActivityEvent}
    (hold : ∀ e ∈ events, e.id ∈ s.events.map (·.id)) : s.fresh events = [] := by
  unfold State.fresh
  rw [filter_eq_nil_iff]
  intro e he
  simpa [hsees e.id] using hold e he

/-! ## What is shown -/

section
variable {paging : Paging}

/-- What a page that `older` waits for is to the stretch shown. -/
structure Pending (paging : Paging) (s : State) (lo hi : Nat) (o : Older) : Prop where
  newer : s.newer.isSome = true
  le : o.cursor ≤ hi
  /-- It is the one before what is shown, or is shown already, and first. -/
  uncut : s.cut = false → o.cursor = lo ∨ o.cursor - paging.back o.cursor = lo
  /-- Where the oldest went, some of it is not shown. -/
  cut : s.cut = true → (paging.page s.log o.cursor).events ≠ [] →
    ∃ e ∈ (paging.page s.log o.cursor).events, e.id ∉ s.events.map (·.id)

def Older.current (o : Older) (s : State) : Prop := o.run = s.run ∧ o.resets = s.resets

/-- What is shown are the events of the rows from `lo` to `hi`. -/
structure Shows (paging : Paging) (s : State) (lo hi : Nat) : Prop where
  le : lo ≤ hi
  within : hi ≤ s.log.length
  events : s.events = s.log.shown lo hi
  sees : Sees s
  bounded : s.events.length ≤ MAX_KEPT
  newer : ∀ n ∈ s.newer, n = hi
  older : ∀ o ∈ s.older, o = lo
  offered : s.hasOlder = s.older.isSome
  full : s.cut = true → s.events.length = MAX_KEPT ∧ s.older = none
  pending : ∀ o ∈ s.olders, o.current s → Pending paging s lo hi o
  /-- Pages are asked for further and further back. -/
  back : s.olders.Pairwise fun o o' => o.current s → o'.current s → o'.cursor ≤ o.cursor

namespace Shows

variable {s s' : State} {lo hi : Nat}

theorem once (h : Shows paging s lo hi) : (s.events.map (·.id)).Nodup := by
  rw [h.events]
  exact s.log.shown_once lo hi

theorem exact (h : Shows paging s lo hi) : Exact s where
  contiguous := ⟨lo, hi, h.le, h.within, h.events⟩
  once := h.once
  bounded := h.bounded
  older := by
    intro hoffered
    rw [h.offered, isSome_iff_exists] at hoffered
    obtain ⟨o, ho⟩ := hoffered
    obtain rfl := h.older o ho
    exact ⟨o, hi, ho, h.le, h.within, h.events⟩

theorem same (h : Shows paging s lo hi) (hlog : s'.log = s.log) (hevents : s'.events = s.events)
    (hseen : s'.seen = s.seen) (hnewer : s'.newer = s.newer) (holder : s'.older = s.older)
    (hoffered : s'.hasOlder = s.hasOlder) (hcut : s'.cut = s.cut)
    (holders : s'.olders.Sublist s.olders)
    (hcurrent : ∀ o ∈ s'.olders, o.current s' → o.current s) : Shows paging s' lo hi := by
  constructor
  · exact h.le
  · rw [hlog]; exact h.within
  · rw [hevents, hlog]; exact h.events
  · unfold Sees
    rw [hseen, hevents]
    exact h.sees
  · rw [hevents]; exact h.bounded
  · rw [hnewer]; exact h.newer
  · rw [holder]; exact h.older
  · rw [hoffered, holder]; exact h.offered
  · rw [hcut, hevents, holder]; exact h.full
  · intro o ho hcur
    have hold := h.pending o (holders.subset ho) (hcurrent o ho hcur)
    refine ⟨hnewer ▸ hold.newer, hold.le, hcut ▸ hold.uncut, ?_⟩
    rw [hcut, hlog, hevents]
    exact hold.cut
  · refine (h.back.sublist holders).imp_of_mem ?_
    intro o o' ho ho' hle hcur hcur'
    exact hle (hcurrent o ho hcur) (hcurrent o' ho' hcur')

theorem anywhere (h : Shows paging s lo hi) (hnone : s.newer = none) (hevents : s.events = [])
    (holder : s.older = none) {n : Nat} (hn : n ≤ s.log.length) : Shows paging s n n := by
  refine { h with
    le := Nat.le_refl _
    within := hn
    events := by rw [hevents, Log.shown_self]
    newer := by rw [hnone]; intro m hm; cases hm
    older := by rw [holder]; intro m hm; cases hm
    pending := ?_ }
  intro o ho hcur
  have hsome := (h.pending o ho hcur).newer
  rw [hnone] at hsome
  cases hsome

theorem records (h : Shows paging s lo hi) {row : Option ActivityEvent} {log : Log}
    (hlog : s.log.record row = some log) : Shows paging { s with log := log } lo hi := by
  have hlen := Log.record_length hlog
  have hhi := h.within
  refine { h with
    within := ?_
    events := by rw [Log.shown_record hlog hhi]; exact h.events
    pending := ?_ }
  · show hi ≤ log.length
    omega
  · intro o ho hcur
    have hold := h.pending o ho hcur
    refine ⟨hold.newer, hold.le, hold.uncut, ?_⟩
    have hpage : (paging.page log o.cursor).events = (paging.page s.log o.cursor).events :=
      Log.shown_record hlog (Nat.le_trans hold.le hhi)
    show s.cut = true → (paging.page log o.cursor).events ≠ [] → _
    rw [hpage]
    exact hold.cut

end Shows

theorem page_older (paging : Paging) (log : Log) (n : Nat) :
    ∀ o ∈ (paging.page log n).older, o = n - paging.back n := by
  intro o ho
  unfold Paging.page at ho
  split at ho
  · cases ho
  · exact (Option.some.inj ho).symm

theorem cut_misses (log : Log) {base hi n c : Nat} (hn : 0 < n) (hbase : base ≤ hi) (hc : c ≤ hi)
    (hcase : c = base ∨ c - paging.back c = base) (hsome : (paging.page log c).events ≠ []) :
    ∃ e ∈ (paging.page log c).events, e.id ∉ ((log.shown base hi).drop n).map (·.id) := by
  obtain ⟨e, rest, hpage⟩ := exists_cons_of_ne_nil hsome
  refine ⟨e, hpage ▸ mem_cons_self .., ?_⟩
  have hevents : log.shown (c - paging.back c) c = e :: rest := hpage
  obtain rfl | hstart := hcase
  -- nothing of the page is in the stretch
  · intro hmem
    obtain ⟨e', he', hid⟩ := mem_map.mp (List.map_subset _ (List.drop_subset n _) hmem)
    have hapart := log.shown_disjoint (Nat.sub_le c (paging.back c)) hbase he'
    rw [hid, hevents] at hapart
    exact hapart (mem_map_of_mem (mem_cons_self ..))
  -- the page's first event was the first to go
  · rw [hstart] at hevents
    have hle : base ≤ c := by
      have := paging.within c
      omega
    have honce := log.shown_once base hi
    rw [log.shown_append hle hc, hevents, cons_append] at honce ⊢
    obtain ⟨m, rfl⟩ := Nat.exists_eq_add_of_lt hn
    rw [Nat.zero_add, drop_succ_cons]
    intro hmem
    exact (nodup_cons.mp honce).1 (List.map_subset _ (List.drop_subset m _) hmem)

namespace Shows

variable {s : State} {lo hi : Nat}

theorem kept (t : State) {base : Nat} {all : List ActivityEvent} {seen : List EventId}
    (hle : base ≤ hi) (hwithin : hi ≤ t.log.length) (hall : all = t.log.shown base hi)
    (hseen : ∀ id, id ∈ seen ↔ id ∈ all.map (·.id)) (hnewer : ∀ n ∈ t.newer, n = hi)
    (holder : ∀ o ∈ t.older, o = base) (hfull : t.cut = true → MAX_KEPT < all.length)
    (hwaits : ∀ o ∈ t.olders, o.current t → t.newer.isSome = true ∧ o.cursor ≤ hi ∧
      (t.cut = false → o.cursor = base ∨ o.cursor - paging.back o.cursor = base) ∧
      (t.cut = true → (paging.page t.log o.cursor).events ≠ [] →
        ∃ e ∈ (paging.page t.log o.cursor).events, e.id ∉ all.map (·.id)))
    (hback : t.olders.Pairwise fun o o' => o.current t → o'.current t → o'.cursor ≤ o.cursor) :
    ∃ lo', Shows paging (t.keeps all seen) lo' hi := by
  have honce : (all.map (·.id)).Nodup := hall ▸ t.log.shown_once base hi
  have hkeeps := keeps_keeps t all seen hseen honce
  have hcurrent : ∀ o : Older, o.current (t.keeps all seen) → o.current t := by
    intro o hcur
    unfold Older.current at hcur ⊢
    rwa [keeps_run, keeps_resets] at hcur
  have hback' : (t.keeps all seen).olders.Pairwise fun o o' =>
      o.current (t.keeps all seen) → o'.current (t.keeps all seen) → o'.cursor ≤ o.cursor := by
    rw [keeps_olders]
    exact hback.imp fun h hcur hcur' => h (hcurrent _ hcur) (hcurrent _ hcur')
  by_cases hlen : all.length ≤ MAX_KEPT
  · obtain ⟨hevents, holder', hoffered, hcut⟩ := hkeeps.whole hlen
    have hnot : t.cut = false := by
      cases h : t.cut with
      | false => rfl
      | true =>
        have := hfull h
        omega
    refine ⟨base, hle, ?_, ?_, hkeeps.sees, ?_, ?_, ?_, ?_, ?_, ?_, hback'⟩
    · rwa [keeps_log]
    · rw [hevents, keeps_log, hall]
    · rwa [hevents]
    · rwa [keeps_newer]
    · rwa [holder']
    · rw [hoffered, holder']
    · rw [hcut, hnot]
      intro h
      cases h
    · rw [keeps_olders]
      intro o ho hcur
      obtain ⟨hsome, hcursor, huncut, -⟩ := hwaits o ho (hcurrent o hcur)
      refine ⟨by rwa [keeps_newer], hcursor, fun _ => huncut hnot, ?_⟩
      rw [hcut, hnot]
      intro h
      cases h
  · have hover : MAX_KEPT < all.length := by omega
    obtain ⟨hevents, holder', hoffered, hcut⟩ := hkeeps.atEnd hover
    obtain ⟨mid, hbase, hmid, hshown⟩ := t.log.shown_drop hle hwithin (all.length - MAX_KEPT)
    have hlength : (t.keeps all seen).events.length = MAX_KEPT := by
      rw [hevents, length_drop]
      omega
    refine ⟨mid, hmid, ?_, ?_, hkeeps.sees, Nat.le_of_eq hlength, ?_, ?_, ?_, ?_, ?_, hback'⟩
    · rwa [keeps_log]
    · rw [hevents, keeps_log, hshown, ← hall]
    · rwa [keeps_newer]
    · rw [holder']
      intro o ho
      cases ho
    · rw [hoffered, holder']
      rfl
    · exact fun _ => ⟨hlength, holder'⟩
    · rw [keeps_olders]
      intro o ho hcur
      obtain ⟨hsome, hcursor, huncut, hcuts⟩ := hwaits o ho (hcurrent o hcur)
      refine ⟨by rwa [keeps_newer], hcursor, ?_, ?_⟩
      · rw [hcut]
        intro h
        cases h
      · rw [keeps_log, hevents]
        intro _ hpage
        cases hwas : t.cut with
        | false =>
          rw [hall]
          exact cut_misses t.log (by rw [← hall]; omega) hle hcursor (huncut hwas) hpage
        | true =>
          obtain ⟨e, he, hout⟩ := hcuts hwas hpage
          exact ⟨e, he, fun hin => hout (List.map_subset _ (List.drop_subset _ _) hin)⟩

theorem extend (h : Shows paging s lo hi) {place : Nat} (hplace : hi ≤ place)
    (hwithin : place ≤ s.log.length) : ∃ lo',
    Shows paging (({ s with newer := some place } : State).addAfter (s.log.shown hi place))
      lo' place := by
  have hall : s.events ++ s.log.shown hi place = s.log.shown lo place := by
    rw [h.events, ← s.log.shown_append h.le hplace]
  have hle : lo ≤ place := Nat.le_trans h.le hplace
  have hnewer : ∀ n ∈ some place, n = place := fun n hn => (Option.some.inj hn).symm
  have hfresh : ({ s with newer := some place } : State).fresh (s.log.shown hi place) =
      s.log.shown hi place := by
    refine fresh_all (s := { s with newer := some place }) h.sees ?_
    intro e he
    show e.id ∉ s.events.map _
    rw [h.events]
    exact s.log.shown_disjoint h.le hplace he
  unfold State.addAfter
  rw [hfresh]
  split
  · rename_i hnil
    rw [hnil, append_nil] at hall
    refine ⟨lo, { h with
      le := hle
      within := hwithin
      events := hall
      newer := hnewer
      pending := ?_ }⟩
    intro o ho hcur
    have hold := h.pending o ho hcur
    exact ⟨rfl, Nat.le_trans hold.le hplace, hold.uncut, hold.cut⟩
  · rename_i hsome
    refine kept _ hle hwithin hall ?_ hnewer h.older ?_ ?_ h.back
    · intro id
      rw [mem_append, h.sees id, map_append, mem_append]
    · intro hcut
      have hfull := (h.full hcut).1
      have hpos := length_pos_of_ne_nil hsome
      rw [length_append]
      show MAX_KEPT < s.events.length + _
      omega
    · intro o ho hcur
      have hold := h.pending o ho hcur
      refine ⟨rfl, Nat.le_trans hold.le hplace, hold.uncut, fun hcut hpage => ?_⟩
      obtain ⟨e, he, hout⟩ := hold.cut hcut hpage
      refine ⟨e, he, fun hin => ?_⟩
      rw [map_append, mem_append] at hin
      obtain hin | hin := hin
      · exact hout hin
      -- the new rows are past the page's
      · obtain ⟨e', he', hid⟩ := mem_map.mp hin
        have hapart := s.log.shown_disjoint (Nat.sub_le o.cursor (paging.back o.cursor))
          (Nat.le_trans hold.le hplace)
          (s.log.shown_append hold.le hplace ▸ mem_append_right _ he')
        exact hapart (hid ▸ mem_map_of_mem he)

theorem turned_cut (h : Shows paging s lo hi) (hcut : s.cut = true) {o : Older}
    (ho : Pending paging s lo hi o) (hpage : (paging.page s.log o.cursor).events ≠ []) :
    Shows paging (s.turned (paging.page s.log o.cursor)) lo hi := by
  obtain ⟨hlength, -⟩ := h.full hcut
  obtain ⟨e, he, hout⟩ := ho.cut hcut hpage
  generalize hp : paging.page s.log o.cursor = page at hpage he
  let t : State := { s with older := page.older }
  have hfresh : t.fresh page.events ≠ [] := by
    refine ne_nil_of_mem (mem_filter.mpr ⟨he, ?_⟩)
    simpa using fun hin => hout ((h.sees e.id).mp hin)
  have hout' : ∀ id ∈ (t.fresh page.events).map (·.id), id ∉ s.events.map (·.id) := by
    intro id hid
    obtain ⟨e', he', rfl⟩ := mem_map.mp hid
    have hnot := (mem_filter.mp he').2
    intro hin
    exact absurd ((h.sees e'.id).mpr hin) (by simpa using hnot)
  have honce : ((t.fresh page.events ++ s.events).map (·.id)).Nodup := by
    rw [map_append]
    refine nodup_append.mpr ⟨?_, h.once, fun id hid id' hid' heq => ?_⟩
    · have hpageOnce : (page.events.map (·.id)).Nodup := by
        rw [← hp]
        exact s.log.shown_once _ _
      exact hpageOnce.sublist (filter_sublist.map _)
    · exact hout' id hid (heq ▸ hid')
  have hseen : ∀ id, id ∈ s.seen ++ (t.fresh page.events).map (·.id) ↔
      id ∈ (t.fresh page.events ++ s.events).map (·.id) := by
    intro id
    rw [mem_append, h.sees id, map_append, mem_append, or_comm]
  have hkeeps := keeps_keeps t _ _ hseen honce
  have hpos := length_pos_of_ne_nil hfresh
  have hover : MAX_KEPT < (t.fresh page.events ++ s.events).length := by
    rw [length_append]
    omega
  obtain ⟨hevents, holder, hoffered, hcut'⟩ := hkeeps.atEnd hover
  have hsame : (t.fresh page.events ++ s.events).drop
      ((t.fresh page.events ++ s.events).length - MAX_KEPT) = s.events := by
    rw [length_append, hlength, Nat.add_sub_cancel]
    exact drop_left
  rw [hsame] at hevents
  unfold State.turned State.addBefore
  rw [if_neg hfresh]
  generalize hu : t.keeps (t.fresh page.events ++ s.events) _ = u at hkeeps hevents holder hcut'
  have hlog : u.log = s.log := by rw [← hu, keeps_log]
  have hnewer : u.newer = s.newer := by rw [← hu, keeps_newer]
  have holders : u.olders = s.olders := by rw [← hu, keeps_olders]
  have hcurrent : ∀ o : Older, o.current u → o.current s := by
    intro o hcur
    unfold Older.current at hcur ⊢
    rwa [← hu, keeps_run, keeps_resets] at hcur
  refine ⟨h.le, ?_, ?_, ?_, ?_, ?_, ?_, rfl, ?_, ?_, ?_⟩
  · rw [hlog]; exact h.within
  · rw [hevents, hlog]; exact h.events
  · exact hkeeps.sees
  · rw [hevents]; exact h.bounded
  · rw [hnewer]; exact h.newer
  · rw [holder]
    intro o ho
    cases ho
  · exact fun _ => ⟨by rw [hevents, hlength], holder⟩
  · rw [holders]
    intro o' ho' hcur
    have hold := h.pending o' ho' (hcurrent o' hcur)
    refine ⟨hnewer ▸ hold.newer, hold.le, ?_, ?_⟩
    · rw [hcut']
      intro hnot
      cases hnot
    · rw [hlog, hevents]
      exact fun _ => hold.cut hcut
  · rw [holders]
    exact h.back.imp fun hle hcur hcur' => hle (hcurrent _ hcur) (hcurrent _ hcur')

theorem turned_uncut (h : Shows paging s lo hi) (hcut : s.cut = false) {o : Older}
    (ho : Pending paging s lo hi o)
    (hrest : ∀ o' ∈ s.olders, o'.current s → o'.cursor ≤ o.cursor) :
    ∃ lo', Shows paging (s.turned (paging.page s.log o.cursor)) lo' hi := by
  have hstart : o.cursor - paging.back o.cursor ≤ lo ∧ lo ≤ o.cursor := by
    obtain heq | heq := ho.uncut hcut
    · omega
    · omega
  have holder := page_older paging s.log o.cursor
  have hpage : (paging.page s.log o.cursor).events =
      s.log.shown (o.cursor - paging.back o.cursor) o.cursor := rfl
  generalize hp : paging.page s.log o.cursor = page at holder hpage
  let t : State := { s with older := page.older }
  obtain heq | heq := ho.uncut hcut
  -- the page right before what is shown
  · have hle : lo - paging.back lo ≤ lo := Nat.sub_le ..
    rw [heq] at hpage holder
    have hall : page.events ++ s.events = s.log.shown (lo - paging.back lo) hi := by
      rw [h.events, hpage, ← s.log.shown_append hle h.le]
    have hwaits : ∀ o' ∈ s.olders, o'.current s → s.newer.isSome = true ∧ o'.cursor ≤ hi ∧
        o'.cursor - paging.back o'.cursor = lo - paging.back lo := by
      intro o' ho' hcur
      have hold := h.pending o' ho' hcur
      have hback := hrest o' ho' hcur
      have hsame : o'.cursor = lo := by
        obtain hcase | hcase := hold.uncut hcut <;> omega
      exact ⟨hold.newer, hold.le, by rw [hsame]⟩
    have hfresh : t.fresh page.events = page.events := by
      refine fresh_all (s := t) h.sees fun e he => ?_
      show e.id ∉ s.events.map _
      rw [h.events]
      rw [hpage] at he
      intro hin
      obtain ⟨e', he', hid⟩ := mem_map.mp hin
      exact s.log.shown_disjoint hle h.le he' (hid ▸ mem_map_of_mem he)
    unfold State.turned State.addBefore
    rw [hfresh]
    split
    · rename_i hnil
      rw [hnil, nil_append] at hall
      refine ⟨lo - paging.back lo, { h with
        le := Nat.le_trans hle h.le
        events := hall
        older := holder
        offered := rfl
        full := fun hyes => absurd (hcut.symm.trans hyes) Bool.false_ne_true
        pending := ?_ }⟩
      intro o' ho' hcur
      obtain ⟨hsome, hcursor, hbase⟩ := hwaits o' ho' hcur
      exact ⟨hsome, hcursor, fun _ => .inr hbase,
        fun hyes => absurd (hcut.symm.trans hyes) Bool.false_ne_true⟩
    · have hseen : ∀ id, id ∈ s.seen ++ page.events.map (·.id) ↔
          id ∈ (page.events ++ s.events).map (·.id) := by
        intro id
        rw [mem_append, h.sees id, map_append, mem_append, or_comm]
      obtain ⟨lo', hkept⟩ := @kept paging _ t _ _ _ (Nat.le_trans hle h.le) h.within hall hseen
        h.newer holder (fun hyes => absurd (hcut.symm.trans hyes) Bool.false_ne_true)
        (fun o' ho' hcur => by
          obtain ⟨hsome, hcursor, hbase⟩ := hwaits o' ho' hcur
          exact ⟨hsome, hcursor, fun _ => .inr hbase,
            fun hyes => absurd (hcut.symm.trans hyes) Bool.false_ne_true⟩)
        h.back
      exact ⟨lo', hkept.same rfl rfl rfl rfl rfl hkept.offered.symm rfl (List.Sublist.refl _)
        fun _ _ hcur => hcur⟩
  -- it is there already
  · rw [heq] at hpage holder
    have hfresh : t.fresh page.events = [] := by
      refine fresh_none (s := t) h.sees fun e he => ?_
      show e.id ∈ s.events.map _
      rw [h.events, s.log.shown_append hstart.2 ho.le, map_append]
      exact mem_append_left _ (mem_map_of_mem (hpage ▸ he))
    unfold State.turned State.addBefore
    rw [if_pos hfresh]
    exact ⟨lo, { h with
      older := holder
      offered := rfl
      full := fun hyes => absurd (hcut.symm.trans hyes) Bool.false_ne_true
      pending := fun o' ho' hcur =>
        have hold := h.pending o' ho' hcur
        ⟨hold.newer, hold.le, hold.uncut, hold.cut⟩ }⟩

end Shows

end

end Yardsort.Mobile.Feed
