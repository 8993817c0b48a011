import Yardsort.Activity.Provenance
import Yardsort.Lib.Table

/- What the join of reports and files may be trusted with.

   What a report counts and which run it names is always right: the rows are the library's groups,
   and a call's two events are of one run. Two things are not: a write without a path of its own is
   credited to the last start with its tool-use id anywhere among the events, whatever start
   `windows` pairs it with, and a call that says its file is outside the workspace has a window for
   every file. `join_sound_iff` says exactly when neither shows. -/
namespace Yardsort.Activity.Provenance
open Yardsort.Lib

def Call.events (call : Call) : List Event := call.start.toList ++ call.finish.toList

def Call.paths (call : Call) : List String := call.events.filterMap (·.payload.path)

def Call.outside (call : Call) : Bool := call.events.any (·.payload.outside)

def Call.watches (runs : List RunRow) (file : String × Int) (call : Call) : Bool :=
  ((call.window runs).bind (·.observes runs file)).isSome

/-- Whether a run with tools was carrying out the call at a moment. -/
def Call.Running (runs : List RunRow) (call : Call) (at_ : Int) : Prop :=
  ∃ window, call.window runs = some window ∧ window.from_ ≤ at_ ∧ at_ ≤ window.to_ ∧
    (harnessRun runs window.runId).isSome

/-- The start that an end is paired with: of those that wait, the first that matches. -/
def endsCall (before : List Event) (e : Event) : Option Event :=
  if e.runId.isSome && e.isEnd then (pairing before).waiting.find? (·.matches_ e) else none

theorem pairing_snoc (events : List Event) (e : Event) :
    pairing (events ++ [e]) = (pairing events).step e := by
  rw [pairing, foldl_append]
  rfl

theorem calls_step (p : Pairing) (e : Event) : p.calls <+: (p.step e).calls := by
  unfold Pairing.step
  split
  · exact prefix_refl _
  · split
    · exact prefix_refl _
    · split
      · split <;> exact prefix_append _ _
      · exact prefix_refl _

theorem calls_prefix (events later : List Event) :
    (pairing events).calls <+: (pairing (events ++ later)).calls := by
  induction later using List.reverseRecOn with
  | nil => simp
  | append_singleton later e ih =>
    rw [← append_assoc, pairing_snoc]
    exact ih.trans (calls_step _ e)

/-- **Pairing.** The start an end is paired with makes a call with it. -/
theorem endsCall_call {before after : List Event} {e start : Event}
    (h : endsCall before e = some start) : ⟨some start, some e⟩ ∈ calls (before ++ e :: after) := by
  unfold endsCall at h
  split at h
  · rename_i hend
    simp only [Bool.and_eq_true, Option.isSome_iff_ne_none] at hend
    have hkind : e.kind ≠ .toolStarted := by
      intro hkind
      simp [Event.isEnd, hkind] at hend
    have hcall : ⟨some start, some e⟩ ∈ (pairing (before ++ [e])).calls := by
      rw [pairing_snoc, Pairing.step, if_neg hend.1, if_neg hkind, if_pos hend.2, h]
      exact mem_append_right _ (mem_singleton_self _)
    have hstarts := calls_prefix (before ++ [e]) after
    rw [append_assoc, singleton_append] at hstarts
    exact mem_append_left _ (hstarts.subset hcall)
  · cases h

def Call.OneRun (call : Call) : Prop :=
  ∀ a ∈ call.events, ∀ b ∈ call.events, a.runId = b.runId

theorem oneRun_single (e : Event) : Call.OneRun ⟨none, some e⟩ ∧ Call.OneRun ⟨some e, none⟩ := by
  constructor <;> intro a ha b hb <;> simp [Call.events] at ha hb <;> rw [ha, hb]

theorem oneRun_matched {start finish : Event} (h : start.matches_ finish = true) :
    Call.OneRun ⟨some start, some finish⟩ := by
  have hrun : start.runId = finish.runId := by
    rw [Event.matches_, Bool.and_eq_true] at h
    exact of_decide_eq_true h.1
  intro a ha b hb
  simp only [Call.events, toList_some, mem_append, mem_singleton] at ha hb
  obtain rfl | rfl := ha <;> obtain rfl | rfl := hb
  · rfl
  · exact hrun
  · exact hrun.symm
  · rfl

theorem step_oneRun {p : Pairing} (h : ∀ call ∈ p.calls, call.OneRun) (e : Event) :
    ∀ call ∈ (p.step e).calls, call.OneRun := by
  unfold Pairing.step
  split
  · exact h
  split
  · exact h
  · split
    · split
      · rename_i start hfind
        intro call hcall
        obtain hcall | rfl := mem_snoc.mp hcall
        · exact h call hcall
        · have hmatch := List.find?_some hfind
          exact oneRun_matched hmatch
      · intro call hcall
        obtain hcall | rfl := mem_snoc.mp hcall
        · exact h call hcall
        · exact (oneRun_single e).1
    · exact h

theorem pairing_oneRun (events : List Event) : ∀ call ∈ (pairing events).calls, call.OneRun := by
  induction events using List.reverseRecOn with
  | nil => exact forall_mem_nil _
  | append_singleton events e ih =>
    rw [pairing_snoc]
    exact step_oneRun ih e

variable {events : List Event}

theorem calls_oneRun {call : Call} (h : call ∈ calls events) :
    call.OneRun := by
  obtain h | h := mem_append.mp h
  · exact pairing_oneRun events call h
  · obtain ⟨start, -, rfl⟩ := mem_map.mp h
    exact (oneRun_single start).2

variable {runs : List RunRow}

theorem window_run {call : Call} {window : Window} (hone : call.OneRun)
    (h : call.window runs = some window) : ∀ e ∈ call.events, e.runId = some window.runId := by
  have hsome : ∃ a ∈ call.events, a.runId = some window.runId := by
    obtain ⟨_ | start, _ | finish⟩ := call
    · cases h
    · obtain ⟨run, hrun, h⟩ := bind_eq_some_iff.mp h
      obtain ⟨duration, -, rfl⟩ := map_eq_some_iff.mp h
      exact ⟨finish, mem_singleton_self _, hrun⟩
    · obtain ⟨run, hrun, rfl⟩ := map_eq_some_iff.mp h
      exact ⟨start, mem_singleton_self _, hrun⟩
    · obtain ⟨run, hrun, rfl⟩ := map_eq_some_iff.mp h
      exact ⟨start, mem_cons_self .., hrun⟩
  obtain ⟨a, ha, hrun⟩ := hsome
  intro e he
  rw [hone e he a ha, hrun]

theorem window_path {call : Call} {window : Window} (h : call.window runs = some window) :
    (∀ path, window.path = some path → path ∈ call.paths) ∧
      (window.path = none → call.paths = []) := by
  obtain ⟨_ | start, _ | finish⟩ := call
  · cases h
  · obtain ⟨run, hrun, h⟩ := bind_eq_some_iff.mp h
    obtain ⟨duration, -, rfl⟩ := map_eq_some_iff.mp h
    cases hpath : finish.payload.path <;> simp [Call.paths, Call.events, hpath]
  · obtain ⟨run, hrun, rfl⟩ := map_eq_some_iff.mp h
    cases hpath : start.payload.path <;> simp [Call.paths, Call.events, hpath]
  · obtain ⟨run, hrun, rfl⟩ := map_eq_some_iff.mp h
    cases hstart : start.payload.path <;> cases hfinish : finish.payload.path <;>
      simp [Call.paths, Call.events, hstart, hfinish]

theorem holds_iff {window : Window} {file : String × Int} : window.holds file = true ↔
    (window.from_ ≤ file.2 ∧ file.2 ≤ window.to_) ∧ ∀ path, window.path = some path →
      path = file.1 := by
  simp only [Window.holds, Bool.and_eq_true, decide_eq_true_eq]
  cases window.path <;> simp

theorem watches_iff {file : String × Int} {call : Call} :
    call.watches runs file = true ↔ ∃ window, call.window runs = some window ∧
      window.holds file = true ∧ (harnessRun runs window.runId).isSome = true := by
  unfold Call.watches
  cases hwindow : call.window runs with
  | none => simp
  | some window =>
    simp only [bind_some, Window.observes, Option.some.injEq, exists_eq_left']
    split <;> simp_all

theorem watches_of_outside {file : String × Int} {call : Call} (hpaths : call.paths = []) :
    call.watches runs file = true ↔ call.Running runs file.2 := by
  rw [watches_iff]
  constructor
  · rintro ⟨window, hwindow, hholds, hrun⟩
    exact ⟨window, hwindow, (holds_iff.mp hholds).1.1, (holds_iff.mp hholds).1.2, hrun⟩
  · rintro ⟨window, hwindow, hfrom, hto, hrun⟩
    refine ⟨window, hwindow, holds_iff.mpr ⟨⟨hfrom, hto⟩, ?_⟩, hrun⟩
    intro path hpath
    have hin := (window_path hwindow).1 path hpath
    rw [hpaths] at hin
    cases hin

theorem path_of_watches {file : String × Int} {call : Call} (h : call.watches runs file = true)
    (hpaths : call.paths ≠ []) : file.1 ∈ call.paths := by
  obtain ⟨window, hwindow, hholds, -⟩ := watches_iff.mp h
  cases hpath : window.path with
  | none => exact absurd ((window_path hwindow).2 hpath) hpaths
  | some path =>
    rw [← (holds_iff.mp hholds).2 path hpath]
    exact (window_path hwindow).1 path hpath

/-- The writes that count for a report: of its path, its run and its producer. -/
def writesOf (events : List Event) (path : String) (r : Report) : List Event :=
  events.filter fun e => isWrite e && credited events e = some path && e.runId = r.runId &&
    e.producer = r.producer

/-- A report says how many there are, and when the first and the last of them were. -/
structure Counts (writes : List Event) (r : Report) : Prop where
  count : r.writes = writes.length
  first : ∃ e ∈ writes, e.occurredAt = r.firstAt
  firstLe : ∀ e ∈ writes, r.firstAt ≤ e.occurredAt
  last : ∃ e ∈ writes, e.occurredAt = r.lastAt
  leLast : ∀ e ∈ writes, e.occurredAt ≤ r.lastAt

theorem counts_first (runs : List RunRow) (e : Event) : Counts [e] (Report.first runs e) := by
  constructor <;> simp [Report.first]

theorem Counts.add {writes : List Event} {r : Report} (h : Counts writes r) (e : Event) :
    Counts (writes ++ [e]) (r.add e) := by
  refine ⟨by simp [Report.add, h.count], ?_, ?_, ?_, ?_⟩
  · obtain ⟨f, hf, hfirst⟩ := h.first
    by_cases hle : r.firstAt ≤ e.occurredAt
    · exact ⟨f, mem_append_left _ hf, by simp [Report.add, hfirst, hle]⟩
    · exact ⟨e, by simp, by simp only [Report.add]; omega⟩
  · intro f hf
    simp only [Report.add]
    obtain hf | hf := mem_snoc.mp hf
    · have := h.firstLe f hf
      omega
    · rw [hf]
      omega
  · obtain ⟨f, hf, hlast⟩ := h.last
    by_cases hle : e.occurredAt ≤ r.lastAt
    · exact ⟨f, mem_append_left _ hf, by simp [Report.add, hlast, hle]⟩
    · exact ⟨e, by simp, by simp only [Report.add]; omega⟩
  · intro f hf
    simp only [Report.add]
    obtain hf | hf := mem_snoc.mp hf
    · have := h.leLast f hf
      omega
    · rw [hf]
      omega

/-- What a row says of the credits it is made of: it counts them, and it is of the first one's run
    and producer, as they all are. -/
def RowSums (cs : List (String × Event)) (r : Report) : Prop :=
  Counts (cs.map (·.2)) r ∧
    ∃ c, cs.head? = some c ∧ r.runId = c.2.runId ∧ r.producer = c.2.producer

theorem row_summed {k : ReportKey} {r : Report} (h : (k, r) ∈ reportRows runs events) :
    RowSums ((credits events).filter fun c => creditKey c = k) r := by
  refine Groups.groups_rule (P := RowSums) ?_ ?_ h
  · intro c
    exact ⟨counts_first runs c.2, c, rfl, rfl, rfl⟩
  · rintro cs r c ⟨hcounts, first, hfirst, hrun, hproducer⟩
    refine ⟨?_, first, ?_, hrun, hproducer⟩
    · simpa using hcounts.add c.2
    · cases cs with
      | nil => cases hfirst
      | cons _ _ => exact hfirst

theorem credits_filter (events : List Event) (k : ReportKey) :
    ((credits events).filter fun c => creditKey c = k).map (·.2) =
      events.filter fun e => isWrite e && credited events e = some k.path && e.runId = k.runId &&
        e.producer = k.producer := by
  unfold credits
  -- The events credited are a part of those the starts are looked up in.
  generalize credited events = credited
  induction events with
  | nil => rfl
  | cons e events ih =>
    rw [filter_cons, ← ih, filterMap_cons]
    cases hwrite : isWrite e with
    | false => simp
    | true =>
      cases hpath : credited e with
      | none => simp
      | some path =>
        simp only [map_some, if_true, filter_cons, creditKey]
        by_cases hkey : (⟨path, e.runId, e.producer⟩ : ReportKey) = k
        · subst hkey
          simp
        · have hne : path = k.path → e.runId = k.runId → e.producer ≠ k.producer := by
            rintro rfl hrun hproducer
            exact hkey (by rw [hrun, hproducer])
          simpa [hkey] using hne

theorem row_counts {k : ReportKey} {r : Report} (h : (k, r) ∈ reportRows runs events) :
    Counts (writesOf events k.path r) r := by
  obtain ⟨hcounts, c, hhead, hrun, hproducer⟩ := row_summed h
  have hkey : creditKey c = k := of_decide_eq_true (mem_filter.mp (mem_of_mem_head? hhead)).2
  have hkrun : r.runId = k.runId := by rw [hrun, ← hkey]; rfl
  have hkproducer : r.producer = k.producer := by rw [hproducer, ← hkey]; rfl
  rw [credits_filter] at hcounts
  rw [writesOf, hkrun, hkproducer]
  exact hcounts

theorem observed_calls {files : List (String × Int)} {path : String} {o : Observed}
    (h : (path, o) ∈ observedRows runs events files) :
    (path, o.at_) ∈ files ∧ ∀ m ∈ o.matches_, ∃ call ∈ calls events,
      (call.window runs).bind (·.observes runs (path, o.at_)) = some m := by
  obtain ⟨file, hfile, hrow⟩ := mem_filterMap.mp (mem_reverse.mp h)
  unfold observedOf at hrow
  dsimp only at hrow
  split at hrow
  · cases hrow
  cases hrow
  refine ⟨hfile, ?_⟩
  intro m hm
  obtain ⟨window, hwindow, hobserves⟩ := mem_filterMap.mp hm
  obtain ⟨call, hcall, hsome⟩ := mem_filterMap.mp (mem_mergeSort.mp hwindow)
  exact ⟨call, hcall, by rw [hsome]; exact hobserves⟩

theorem observes_run {file : String × Int} {window : Window} {m : ObservedMatch}
    (h : window.observes runs file = some m) : m.runId = window.runId := by
  unfold Window.observes at h
  split at h
  · obtain ⟨run, -, rfl⟩ := map_eq_some_iff.mp h
    rfl
  · cases h

def LastStart (events : List Event) (run id path : String) : Prop :=
  ∃ earlier start later, events = earlier ++ start :: later ∧
    startedEntry start = some ((run, id), path) ∧
    ∀ other ∈ later, ∀ path', startedEntry other ≠ some ((run, id), path')

theorem startedPath_iff {run id path : String} :
    startedPath events run id = some path ↔ LastStart events run id path := by
  unfold startedPath
  constructor
  · intro h
    obtain ⟨later, earlier, hsplit, hnone⟩ := lookup_eq_some_iff.mp h
    have hsplit := congrArg List.reverse hsplit
    rw [List.reverse_reverse, reverse_append, List.reverse_cons, append_assoc,
      singleton_append] at hsplit
    obtain ⟨first, rest, rfl, -, hrest⟩ := List.filterMap_eq_append_iff.mp hsplit
    obtain ⟨skipped, start, last, rfl, -, hstart, hlast⟩ := List.filterMap_eq_cons_iff.mp hrest
    refine ⟨first ++ skipped, start, last, by simp, hstart, ?_⟩
    intro other hother path' hentry
    have hin : ((run, id), path') ∈ later := by
      rw [← mem_reverse, ← hlast]
      exact mem_filterMap.mpr ⟨other, hother, hentry⟩
    simpa using hnone _ hin
  · rintro ⟨earlier, start, later, rfl, hstart, hlater⟩
    rw [filterMap_append, filterMap_cons_some hstart, reverse_append,
      List.reverse_cons, append_assoc, singleton_append]
    refine lookup_eq_some_iff.mpr ⟨_, _, rfl, ?_⟩
    rintro ⟨key, path'⟩ hin
    obtain ⟨other, hother, hentry⟩ := mem_filterMap.mp (mem_reverse.mp hin)
    have hne : (run, id) ≠ key := fun heq => hlater other hother path' (heq ▸ hentry)
    simpa using hne

/-- What the join promises: a write without a path of its own is credited only to the file of the
    start it is paired with; a call that named a file is no window for another; a report counts the
    writes of its path, its run and its producer; an observation is of a call of the run it names. -/
structure Sound (runs : List RunRow) (events : List Event) (native : List (String × String))
    (files : List (String × Int)) : Prop where
  paired : ∀ before e after, events = before ++ e :: after → isWrite e = true →
    e.payload.path = none → e.payload.outside = false → ∀ path, credited events e = some path →
    ∃ start, endsCall before e = some start ∧ start.payload.path = some path
  named : ∀ call ∈ calls events, ∀ file ∈ files, call.watches runs file = true →
    call.paths ≠ [] ∨ call.outside = true → file.1 ∈ call.paths
  counts : ∀ f ∈ (join runs events native files).files, ∀ r ∈ f.reports,
    Counts (writesOf events f.path r) r
  observed : ∀ f ∈ (join runs events native files).files, ∀ o, f.observed = some o →
    (f.path, o.at_) ∈ files ∧ ∀ m ∈ o.matches_, ∃ call ∈ calls events,
      (call.window runs).bind (·.observes runs (f.path, o.at_)) = some m ∧
        ∀ e ∈ call.events, e.runId = some m.runId

/-- Where the join can tell: the last start with a write's tool-use id names the file that the start
    it is paired with names, and no file was written while a call that named only a file outside
    the workspace was running. -/
structure Clear (runs : List RunRow) (events : List Event) (files : List (String × Int)) :
    Prop where
  ids : ∀ before e after, events = before ++ e :: after → isWrite e = true →
    e.payload.path = none → e.payload.outside = false → ∀ run id path, e.runId = some run →
    e.payload.toolUseId = some id → LastStart events run id path →
    ∃ start, endsCall before e = some start ∧ start.payload.path = some path
  outside : ∀ call ∈ calls events, call.outside = true → call.paths = [] → ∀ file ∈ files,
    ¬ call.Running runs file.2

theorem credited_iff {e : Event} (hpath : e.payload.path = none)
    (houtside : e.payload.outside = false) {path : String} :
    credited events e = some path ↔ ∃ run id, e.runId = some run ∧
      e.payload.toolUseId = some id ∧ LastStart events run id path := by
  rw [credited, hpath, houtside]
  simp only [none_or, Bool.false_eq_true, if_false, bind_eq_some_iff,
    startedPath_iff]
  constructor
  · rintro ⟨run, hrun, id, hid, hlast⟩
    exact ⟨run, id, hrun, hid, hlast⟩
  · rintro ⟨run, id, hrun, hid, hlast⟩
    exact ⟨run, hrun, id, hid, hlast⟩

theorem join_counts (runs : List RunRow) (events : List Event) (native : List (String × String))
    (files : List (String × Int)) : ∀ f ∈ (join runs events native files).files, ∀ r ∈ f.reports,
      Counts (writesOf events f.path r) r := by
  intro f hf r hr
  obtain ⟨path, -, rfl⟩ := mem_map.mp hf
  obtain ⟨⟨k, r'⟩, hkept, rfl⟩ := mem_map.mp (mem_mergeSort.mp hr)
  obtain ⟨hrow, hpath⟩ := mem_filter.mp hkept
  obtain rfl : k.path = path := of_decide_eq_true hpath
  exact row_counts hrow

theorem join_observed (runs : List RunRow) (events : List Event) (native : List (String × String))
    (files : List (String × Int)) : ∀ f ∈ (join runs events native files).files, ∀ o,
      f.observed = some o → (f.path, o.at_) ∈ files ∧ ∀ m ∈ o.matches_, ∃ call ∈ calls events,
        (call.window runs).bind (·.observes runs (f.path, o.at_)) = some m ∧
          ∀ e ∈ call.events, e.runId = some m.runId := by
  intro f hf o ho
  obtain ⟨path, -, rfl⟩ := mem_map.mp hf
  obtain ⟨hfile, hmatches⟩ := observed_calls (mem_of_lookup ho)
  refine ⟨hfile, ?_⟩
  intro m hm
  obtain ⟨call, hcall, hsome⟩ := hmatches m hm
  obtain ⟨window, hwindow, hobserves⟩ := bind_eq_some_iff.mp hsome
  refine ⟨call, hcall, hsome, ?_⟩
  rw [observes_run hobserves]
  exact window_run (calls_oneRun hcall) hwindow

/-- **The join is sound exactly where it can tell.** -/
theorem join_sound_iff (runs : List RunRow) (events : List Event) (native : List (String × String))
    (files : List (String × Int)) : Sound runs events native files ↔ Clear runs events files := by
  constructor
  · intro h
    refine ⟨?_, ?_⟩
    · intro before e after hsplit hwrite hpath houtside run id path hrun hid hlast
      exact h.paired before e after hsplit hwrite hpath houtside path
        ((credited_iff hpath houtside).mpr ⟨run, id, hrun, hid, hlast⟩)
    · intro call hcall houtside hpaths file hfile hrunning
      have hin := h.named call hcall file hfile ((watches_of_outside hpaths).mpr hrunning)
        (.inr houtside)
      rw [hpaths] at hin
      cases hin
  · intro h
    refine ⟨?_, ?_, join_counts runs events native files, join_observed runs events native files⟩
    · intro before e after hsplit hwrite hpath houtside path hcredited
      obtain ⟨run, id, hrun, hid, hlast⟩ := (credited_iff hpath houtside).mp hcredited
      exact h.ids before e after hsplit hwrite hpath houtside run id path hrun hid hlast
    · intro call hcall file hfile hwatches hnamed
      by_cases hpaths : call.paths = []
      · have houtside := hnamed.resolve_left (not_not_intro hpaths)
        exact absurd ((watches_of_outside hpaths).mp hwatches)
          (h.outside call hcall houtside hpaths file hfile)
      · exact path_of_watches hwatches hpaths

def toolEvent (kind : Kind) (at_ : Int) (payload : Payload) : Event :=
  ⟨some "r1", at_, kind, "pi", "extension", "reported", payload⟩

def reusedId : List Event :=
  let named (path : String) : Payload :=
    { tool := some "write", toolUseId := some "write:0", path := some path }
  let ended : Payload := { tool := some "write", toolUseId := some "write:0" }
  [toolEvent .toolStarted 1000 (named "a.txt"), toolEvent .toolCompleted 1100 ended,
    toolEvent .toolStarted 2000 (named "b.txt"), toolEvent .toolCompleted 2100 ended]

def piRun : RunRow := ⟨"r1", "harness", some "pi", some "pty-1", 900, none⟩

/-- Both writes are credited to the second file, and the first has no report. -/
theorem reused_miscredited : ¬ Sound [piRun] reusedId [] [] ∧
    ((join [piRun] reusedId [] []).files.map fun f => (f.path, f.reports.map (·.writes))) =
      [("b.txt", [2])] := by
  refine ⟨?_, by decide +kernel⟩
  intro h
  have hcredited : credited reusedId reusedId[1] = some "b.txt" := by decide +kernel
  obtain ⟨start, hstart, hpath⟩ := h.paired [reusedId[0]] reusedId[1] [reusedId[2], reusedId[3]]
    rfl (by decide +kernel) rfl rfl "b.txt" hcredited
  have hends : endsCall [reusedId[0]] reusedId[1] = some reusedId[0] := by decide +kernel
  rw [hends] at hstart
  cases hstart
  exact absurd hpath (by decide +kernel)

/-- A write that went outside the workspace is an observation window for a file in it. -/
example : ((join [piRun] [toolEvent .toolStarted 1000 { tool := some "write" },
    toolEvent .toolCompleted 1100 { tool := some "write", outside := true }] []
    [("a.txt", 1050)]).files.map fun f => (f.path, f.observed.isSome)) = [("a.txt", true)] := by
  decide +kernel

end Yardsort.Activity.Provenance
