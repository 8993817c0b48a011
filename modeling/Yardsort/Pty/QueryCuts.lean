import Yardsort.Pty.QuietScan

/- How the output was cut into batches makes no difference to the queries found in it.

   Of the follower, where the open sequence began and the controls carried out in it are of the
   batch alone; the rest (`Core`) goes from batch to batch, and it alone says which queries end
   where (`ends_shift`). The positions within a batch are kept in order by `Tidy`, so the spans of
   a batch are apart, in order and within it. -/
namespace Yardsort.Pty
open Yardsort.Lib Unfinished

namespace Queries

def reported (q : Queries) (i : Nat) (byte : UInt8) : Option (Span × Kind) :=
  match (q.follow i byte).1 with
  | none => none
  | some stop =>
    (q.follow i byte).2.recognised.map fun kind => (spanOf (q.follow i byte).2 stop, kind)

def next (q : Queries) (i : Nat) (byte : UInt8) : Queries := (q.feedByte Scan.empty i byte).1

def reports (q : Queries) : Nat → Bytes → List (Span × Kind)
  | _, [] => []
  | i, byte :: batch => (q.reported i byte).toList ++ (q.next i byte).reports (i + 1) batch

def after (q : Queries) : Nat → Bytes → Queries
  | _, [] => q
  | i, byte :: batch => (q.next i byte).after (i + 1) batch

def cursors (kinds : List Kind) : Nat := kinds.count .cursor

def found (scan : Scan) (reports : List (Span × Kind)) : Scan :=
  { spans := scan.spans ++ reports.map (·.1), cursor := scan.cursor + cursors (reports.map (·.2)) }

theorem next_eq (q : Queries) (i : Nat) (byte : UInt8) :
    q.next i byte = match (q.follow i byte).1 with
      | none => (q.follow i byte).2.open_ i byte
      | some _ => (q.follow i byte).2.forget.open_ i byte := by
  rw [next, feedByte]
  generalize q.follow i byte = followed
  obtain ⟨ended, r⟩ := followed
  cases ended with
  | none => rfl
  | some stop =>
    show (r.complete Scan.empty stop).1.open_ i byte = _
    rw [(complete_eq r _ stop).1]

theorem feedByte_eq (q : Queries) (scan : Scan) (i : Nat) (byte : UInt8) :
    q.feedByte scan i byte = (q.next i byte, found scan (q.reported i byte).toList) := by
  rw [next, reported, feedByte, feedByte]
  cases hended : (q.follow i byte).1 with
  | none => simp [hended, found, cursors]
  | some stop =>
    simp only [hended]
    unfold complete
    cases hkind : (q.follow i byte).2.recognised with
    | none => simp [found, cursors]
    | some kind => cases kind <;> simp [found, cursors, spanOf]

theorem feedFrom_eq (q : Queries) (scan : Scan) (i : Nat) (batch : Bytes) :
    q.feedFrom scan i batch = (q.after i batch, found scan (q.reports i batch)) := by
  induction batch generalizing q scan i with
  | nil => simp [feedFrom, after, reports, found, cursors]
  | cons byte batch ih =>
    rw [feedFrom, feedByte_eq, after, reports]
    dsimp only
    rw [ih]
    simp only [found, map_append, append_assoc, cursors, count_append, Nat.add_assoc]

/-- Two followers that have the same sequence open. -/
structure Core (q q' : Queries) : Prop where
  state : q'.state = q.state
  opened : q'.opened = q.opened
  overflowed : q'.overflowed = q.overflowed

theorem Core.push {q q' : Queries} (h : Core q q') (byte : UInt8) :
    Core (q.push byte) (q'.push byte) := by
  rw [Queries.push, Queries.push, h.opened]
  split
  · exact ⟨h.state, rfl, h.overflowed⟩
  · exact ⟨h.state, rfl, rfl⟩

theorem Core.forget {q q' : Queries} (h : Core q q') : Core q.forget q'.forget := ⟨h.state, rfl, rfl⟩

theorem Core.moved {q q' : Queries} (h : Core q q') (s : State) :
    Core { q with state := s } { q' with state := s } := ⟨rfl, h.opened, h.overflowed⟩

theorem Core.follow {q q' : Queries} (h : Core q q') (i j : Nat) (byte : UInt8) :
    (q'.follow (i + j) byte).1 = ((q.follow i byte).1).map (· + j) ∧
      Core (q.follow i byte).2 (q'.follow (i + j) byte).2 := by
  have hmoved := h.moved (step q.state byte).1
  have hnext : i + j + 1 = i + 1 + j := by omega
  rw [Queries.follow, Queries.follow, h.state]
  dsimp only
  cases hs : q.state with
  | ground | utf8 left =>
    rw [hs] at hmoved
    exact ⟨rfl, hmoved⟩
  | string e =>
    rw [hs] at hmoved
    dsimp only
    split
    · exact ⟨congrArg some hnext, hmoved⟩
    split
    · exact ⟨rfl, hmoved⟩
    · split
      · exact ⟨rfl, hmoved.forget⟩
      · exact ⟨rfl, hmoved.push byte⟩
  | escape | escapeIntermediate | csi =>
    rw [hs] at hmoved
    dsimp only
    split
    · exact ⟨rfl, hmoved.forget⟩
    split
    · exact ⟨congrArg some hnext, hmoved.push byte⟩
    · split
      · exact ⟨rfl, hmoved.state, hmoved.opened, hmoved.overflowed⟩
      · split
        · exact ⟨rfl, hmoved.push byte⟩
        · exact ⟨rfl, hmoved⟩

theorem Core.recognised {q q' : Queries} (h : Core q q') : q'.recognised = q.recognised := by
  rw [Queries.recognised, Queries.recognised, h.overflowed, h.opened]

def ending (r : Span × Kind) : Nat × Kind := (r.1.stop, r.2)

def further (j : Nat) (e : Nat × Kind) : Nat × Kind := (e.1 + j, e.2)

theorem Core.reported {q q' : Queries} (h : Core q q') (i j : Nat) (byte : UInt8) :
    (q'.reported (i + j) byte).map ending = ((q.reported i byte).map ending).map (further j) := by
  obtain ⟨hended, hcore⟩ := h.follow i j byte
  rw [Queries.reported, Queries.reported, hended, hcore.recognised]
  cases (q.follow i byte).1 with
  | none => rfl
  | some stop => cases (q.follow i byte).2.recognised <;> rfl

theorem Core.next {q q' : Queries} (h : Core q q') (i j : Nat) (byte : UInt8) :
    Core (q.next i byte) (q'.next (i + j) byte) := by
  obtain ⟨hended, hcore⟩ := h.follow i j byte
  have hopen : ∀ {p p' : Queries}, Core p p' → Core (p.open_ i byte) (p'.open_ (i + j) byte) := by
    intro p p' hp
    unfold open_
    split
    · exact ⟨hp.state, by rw [hp.opened], hp.overflowed⟩
    · exact hp
  rw [next_eq, next_eq, hended]
  cases (q.follow i byte).1 with
  | none => exact hopen hcore
  | some stop => exact hopen hcore.forget

theorem ends_shift {q q' : Queries} (h : Core q q') (i j : Nat) (batch : Bytes) :
    (q'.reports (i + j) batch).map ending = ((q.reports i batch).map ending).map (further j) ∧
      Core (q.after i batch) (q'.after (i + j) batch) := by
  induction batch generalizing q q' i with
  | nil => exact ⟨rfl, h⟩
  | cons byte batch ih =>
    obtain ⟨hends, hcore⟩ := ih (h.next i j byte) (i + 1)
    have hnext : i + j + 1 = i + 1 + j := by omega
    have hone : ((q'.reported (i + j) byte).toList).map ending =
        (((q.reported i byte).toList).map ending).map (further j) := by
      have := congrArg Option.toList (h.reported i j byte)
      simpa only [Option.toList_map] using this
    refine ⟨?_, by rw [after, after, hnext]; exact hcore⟩
    rw [reports, reports, map_append, map_append, map_append, hone, hnext, hends]

theorem reports_append (q : Queries) (i : Nat) (xs ys : Bytes) :
    q.reports i (xs ++ ys) = q.reports i xs ++ (q.after i xs).reports (i + xs.length) ys ∧
      q.after i (xs ++ ys) = (q.after i xs).after (i + xs.length) ys := by
  induction xs generalizing q i with
  | nil => exact ⟨rfl, rfl⟩
  | cons byte xs ih =>
    obtain ⟨hreports, hafter⟩ := ih (q.next i byte) (i + 1)
    have hlen : i + (byte :: xs).length = i + 1 + xs.length := by
      rw [length_cons]
      omega
    rw [cons_append, reports, after, reports, after, hreports, hafter, hlen, append_assoc]
    exact ⟨rfl, rfl⟩

def scans : Queries → List Bytes → List Scan
  | _, [] => []
  | q, batch :: batches => (q.feed batch).2 :: scans (q.feed batch).1 batches

def endings : Nat → List Bytes → List Scan → List Nat
  | at_, batch :: batches, scan :: scans =>
    scan.spans.map (fun span => span.stop + at_) ++ endings (at_ + batch.length) batches scans
  | _, _, _ => []

def kinds : Queries → List Bytes → List Kind
  | _, [] => []
  | q, batch :: batches =>
    (({ q with start := none, kept := [] } : Queries).reports 0 batch).map (·.2) ++
      kinds (q.feed batch).1 batches

def cursorQueries (scans : List Scan) : Nat := (scans.map (·.cursor)).sum

theorem feed_eq (q : Queries) (batch : Bytes) :
    q.feed batch = (({ q with start := none, kept := [] } : Queries).after 0 batch,
      found Scan.empty (({ q with start := none, kept := [] } : Queries).reports 0 batch)) := by
  rw [feed, feedFrom_eq]

theorem batches_inStream (q q' : Queries) (h : Core q q') (at_ : Nat) (batches : List Bytes) :
    endings at_ batches (scans q' batches) =
        ((q.reports at_ batches.flatten).map ending).map (·.1) ∧
      kinds q' batches = ((q.reports at_ batches.flatten).map ending).map (·.2) ∧
      cursorQueries (scans q' batches) = cursors (kinds q' batches) := by
  induction batches generalizing q q' at_ with
  | nil => exact ⟨rfl, rfl, rfl⟩
  | cons batch batches ih =>
    -- This batch by itself, and further on.
    have hhere : Core { q' with start := none, kept := [] } q :=
      ⟨h.state.symm, h.opened.symm, h.overflowed.symm⟩
    obtain ⟨hends, hafter⟩ := ends_shift hhere 0 at_ batch
    rw [Nat.zero_add] at hends hafter
    have hcore : Core (q.after at_ batch) (q'.feed batch).1 := by
      rw [feed_eq]
      exact ⟨hafter.state.symm, hafter.opened.symm, hafter.overflowed.symm⟩
    obtain ⟨ihends, ihkinds, ihcursor⟩ := ih _ _ hcore (at_ + batch.length)
    rw [flatten_cons, (reports_append q at_ batch batches.flatten).1, map_append, hends,
      map_append, map_append, ← ihends, ← ihkinds]
    refine ⟨?_, ?_, ?_⟩
    · rw [scans, endings, feed_eq]
      simp only [found, Scan.empty, nil_append, map_map]
      rfl
    · rw [kinds]
      simp only [map_map]
      rfl
    · rw [scans, kinds, cursors, count_append, cursorQueries, map_cons, sum_cons]
      have hrest : ((scans (q'.feed batch).1 batches).map (·.cursor)).sum =
          (kinds (q'.feed batch).1 batches).count .cursor := ihcursor
      rw [hrest, feed_eq]
      simp only [found, Scan.empty, cursors, Nat.zero_add]

/-! ## Within a batch -/

/-- The positions a follower keeps are in order: what was reported stops before the open sequence
    begins, and that with its controls before the next byte. -/
structure Tidy (q : Queries) (i : Nat) (spans : List Span) : Prop where
  apart : spans.Pairwise fun a b => a.stop ≤ b.start
  within : ∀ s ∈ spans, s.start ≤ s.stop ∧ s.stop ≤ i ∧ ∀ k ∈ s.kept, s.start ≤ k ∧ k < s.stop
  start : ∀ s, q.start = some s → s < i ∧ (∀ span ∈ spans, span.stop ≤ s) ∧ ∀ k ∈ q.kept, s ≤ k
  continued : q.start = none → escaped q.state = true → spans = []
  kept : ∀ k ∈ q.kept, k < i
  idle : escaped q.state = false → q.kept = []

/-- A batch's code reads it only where it is: the loop of `Scan.without`. -/
def InRange (batch : Bytes) : Nat → List Span → Prop
  | at_, [] => at_ ≤ batch.length
  | at_, span :: spans =>
    at_ ≤ span.start ∧ span.start ≤ batch.length ∧ (∀ k ∈ span.kept, k < batch.length) ∧
      InRange batch span.stop spans

structure Apart (batch : Bytes) (scan : Scan) : Prop where
  apart : scan.spans.Pairwise fun a b => a.stop ≤ b.start
  within : ∀ s ∈ scan.spans, s.start ≤ s.stop ∧ s.stop ≤ batch.length ∧
    ∀ k ∈ s.kept, s.start ≤ k ∧ k < s.stop
  inRange : InRange batch 0 scan.spans

theorem inRange_of {batch : Bytes} {at_ : Nat} {spans : List Span}
    (happart : spans.Pairwise fun a b => a.stop ≤ b.start)
    (hwithin : ∀ s ∈ spans, s.start ≤ s.stop ∧ s.stop ≤ batch.length ∧
      ∀ k ∈ s.kept, s.start ≤ k ∧ k < s.stop)
    (hat : at_ ≤ batch.length) (hafter : ∀ s ∈ spans, at_ ≤ s.start) : InRange batch at_ spans := by
  induction spans generalizing at_ with
  | nil => exact hat
  | cons span spans ih =>
    obtain ⟨hlater, happart⟩ := pairwise_cons.mp happart
    obtain ⟨hle, hstop, hkept⟩ := hwithin span (mem_cons_self ..)
    refine ⟨hafter span (mem_cons_self ..), by omega, ?_, ?_⟩
    · intro k hk
      have := (hkept k hk).2
      omega
    · exact ih happart (fun s hs => hwithin s (mem_cons_of_mem _ hs)) hstop hlater

theorem push_places (q : Queries) (byte : UInt8) : (q.push byte).state = q.state ∧
    (q.push byte).start = q.start ∧ (q.push byte).kept = q.kept := by
  unfold push
  split <;> exact ⟨rfl, rfl, rfl⟩

/-- What a byte does to what is open: it ends it, goes on in it, or gives it up; or nothing is. -/
inductive Does (q : Queries) (i : Nat) (byte : UInt8) : Option Nat → Queries → Prop
  | ends (stop : Nat) (r : Queries) : escaped q.state = true →
      (stop = i ∧ byte = ESC ∨ stop = i + 1 ∧ byte ≠ ESC ∧ r.state = .ground) →
      r.start = q.start → r.kept = q.kept → Does q i byte (some stop) r
  | goesOn (r : Queries) : escaped q.state = true → byte ≠ ESC → escaped r.state = true →
      r.start = q.start → (r.kept = q.kept ∨ r.kept = q.kept ++ [i]) → Does q i byte none r
  | givesUp (r : Queries) : (byte = ESC ∨ escaped r.state = false) → r.start = none →
      r.kept = [] → Does q i byte none r
  | idles (r : Queries) : escaped q.state = false → (byte = ESC ∨ escaped r.state = false) →
      r.start = q.start → r.kept = q.kept → Does q i byte none r

theorem follow_does (q : Queries) (i : Nat) (byte : UInt8) :
    Does q i byte (q.follow i byte).1 (q.follow i byte).2 := by
  rw [follow]
  dsimp only
  cases hs : q.state with
  | ground | utf8 left =>
    refine .idles _ (by rw [hs]; rfl) ?_ rfl rfl
    by_cases hesc : byte = ESC
    · exact .inl hesc
    · exact .inr (step_not_escaped hesc (.inl rfl))
  | string e =>
    have hescaped : escaped q.state = true := by rw [hs]; rfl
    dsimp only
    split
    · rename_i hbel
      have hne : byte ≠ ESC := by
        rw [hbel.1]
        decide
      refine .ends _ _ hescaped (.inr ⟨rfl, hne, ?_⟩) rfl rfl
      show (step (.string e) byte).1 = .ground
      rw [hbel.1, hbel.2]
      rfl
    · rename_i hbel
      split
      · rename_i hesc
        exact .ends _ _ hescaped (.inl ⟨rfl, hesc⟩) rfl rfl
      · rename_i hesc
        split
        · rename_i hcan
          refine .givesUp _ (.inr ?_) rfl rfl
          show escaped (step (.string e) byte).1 = false
          simp [step, hesc, hcan, escaped]
        · rename_i hcan
          obtain ⟨hstate, hstart, hkept⟩ :=
            push_places { q with state := (step (.string e) byte).1 } byte
          refine .goesOn _ hescaped hesc ?_ hstart (.inl hkept)
          rw [hstate]
          show escaped (step (.string e) byte).1 = true
          simp [step, hesc, hcan, hbel, escaped]
  | escape | escapeIntermediate | csi =>
    have hescaped : escaped q.state = true := by rw [hs]; rfl
    dsimp only
    rw [← hs]
    split
    · rename_i hr
      refine .givesUp _ ?_ rfl rfl
      by_cases hesc : byte = ESC
      · exact .inl hesc
      · exact .inr (step_not_escaped hesc (.inr (.inl hr)))
    · rename_i hr
      have hr : (step q.state byte).2 = false := by simpa using hr
      obtain ⟨hesc, -⟩ := not_restart hr
      obtain ⟨hstate, hstart, hkept⟩ := push_places { q with state := (step q.state byte).1 } byte
      split
      · rename_i hn
        exact .ends _ _ hescaped (.inr ⟨rfl, hesc, hstate.trans hn⟩) hstart hkept
      · rename_i hn
        have hgoes := step_escaped hescaped hr hn
        split
        · exact .goesOn _ hescaped hesc hgoes rfl (.inr rfl)
        · split
          · exact .goesOn _ hescaped hesc (by rw [hstate]; exact hgoes) hstart (.inl hkept)
          · exact .goesOn _ hescaped hesc hgoes rfl (.inl rfl)

theorem Tidy.forgotten {q : Queries} {i : Nat} {spans : List Span} (byte : UInt8)
    (happart : spans.Pairwise fun a b => a.stop ≤ b.start)
    (hwithin : ∀ s ∈ spans, s.start ≤ s.stop ∧ s.stop ≤ i + 1 ∧
      ∀ k ∈ s.kept, s.start ≤ k ∧ k < s.stop)
    (hesc : byte = ESC → ∀ s ∈ spans, s.stop ≤ i) (hstart : q.start = none) (hkept : q.kept = [])
    (hidle : byte = ESC ∨ escaped q.state = false) : Tidy (q.open_ i byte) (i + 1) spans := by
  by_cases hb : byte = ESC
  · rw [open_, if_pos hb]
    refine ⟨happart, hwithin, ?_, (fun h => by cases h), ?_, fun _ => hkept⟩
    · rintro s hs
      cases hs
      refine ⟨by omega, hesc hb, ?_⟩
      show ∀ k ∈ q.kept, i ≤ k
      rw [hkept]
      exact forall_mem_nil _
    · show ∀ k ∈ q.kept, k < i + 1
      rw [hkept]
      exact forall_mem_nil _
  · rw [open_, if_neg hb]
    have hout := hidle.resolve_left hb
    refine ⟨happart, hwithin, ?_, ?_, ?_, fun _ => hkept⟩
    · intro s hs
      rw [hstart] at hs
      cases hs
    · intro _ hescaped
      rw [hout] at hescaped
      cases hescaped
    · rw [hkept]
      exact forall_mem_nil _

theorem Tidy.step {q : Queries} {i : Nat} {spans : List Span} (h : Tidy q i spans) (byte : UInt8) :
    Tidy (q.next i byte) (i + 1) (spans ++ ((q.reported i byte).toList).map (·.1)) := by
  have hdoes := follow_does q i byte
  have hwithin : ∀ s ∈ spans, s.start ≤ s.stop ∧ s.stop ≤ i + 1 ∧
      ∀ k ∈ s.kept, s.start ≤ k ∧ k < s.stop := by
    intro s hs
    obtain ⟨h₁, h₂, h₃⟩ := h.within s hs
    exact ⟨h₁, by omega, h₃⟩
  rw [next_eq, reported]
  generalize (q.follow i byte).1 = ended at hdoes
  generalize (q.follow i byte).2 = r at hdoes
  cases hdoes with
  | ends stop r hescaped hstop hstart hkept =>
    have hle : i ≤ stop ∧ stop ≤ i + 1 := by omega
    have hidle : byte = ESC ∨ escaped r.forget.state = false := by
      obtain ⟨-, hesc⟩ | ⟨-, -, hground⟩ := hstop
      · exact .inl hesc
      · right
        show escaped r.state = false
        rw [hground]
        rfl
    have hstopped : byte = ESC → stop = i := by
      intro hesc
      obtain ⟨hstop, -⟩ | ⟨-, hne, -⟩ := hstop
      · exact hstop
      · exact absurd hesc hne
    dsimp only
    cases hkind : r.recognised with
    | none =>
      rw [map_none, toList_none, map_nil, append_nil]
      refine Tidy.forgotten byte h.apart hwithin ?_ rfl rfl hidle
      exact fun _ s hs => (h.within s hs).2.1
    | some kind =>
      rw [map_some, toList_some, map_singleton]
      -- The span begins where its sequence did, after every other, or at the start of the batch.
      have hspan : (∀ s ∈ spans, s.stop ≤ (spanOf r stop).start) ∧
          (spanOf r stop).start ≤ i ∧ ∀ k ∈ q.kept, (spanOf r stop).start ≤ k := by
        rw [spanOf, hstart]
        cases hq : q.start with
        | none =>
          rw [h.continued hq hescaped]
          exact ⟨forall_mem_nil _, Nat.zero_le _, fun _ _ => Nat.zero_le _⟩
        | some s =>
          obtain ⟨hs, hbefore, hk⟩ := h.start s hq
          exact ⟨hbefore, Nat.le_of_lt hs, hk⟩
      obtain ⟨hbefore, hbegin, hcontrols⟩ := hspan
      refine Tidy.forgotten byte ?_ ?_ ?_ rfl rfl hidle
      · apply pairwise_append.mpr
        refine ⟨h.apart, pairwise_singleton _ _, ?_⟩
        intro s hs t ht
        rw [mem_singleton.mp ht]
        exact hbefore s hs
      · intro s hs
        obtain hs | hs := mem_snoc.mp hs
        · exact hwithin s hs
        · rw [hs]
          refine ⟨Nat.le_trans hbegin hle.1, hle.2, ?_⟩
          intro k hk
          have hk : k ∈ q.kept := hkept ▸ hk
          exact ⟨hcontrols k hk, Nat.lt_of_lt_of_le (h.kept k hk) hle.1⟩
      · intro hesc s hs
        obtain hs | hs := mem_snoc.mp hs
        · exact (h.within s hs).2.1
        · rw [hs]
          exact Nat.le_of_eq (hstopped hesc)
  | goesOn r hescaped hne hgoes hstart hkept =>
    dsimp only
    rw [toList_none, map_nil, append_nil, open_, if_neg hne]
    have hkept' : ∀ k ∈ r.kept, k ∈ q.kept ∨ k = i := by
      intro k hk
      obtain heq | heq := hkept <;> rw [heq] at hk
      · exact .inl hk
      · simpa using hk
    refine ⟨h.apart, hwithin, ?_, ?_, ?_, ?_⟩
    · intro s hs
      obtain ⟨h₁, h₂, h₃⟩ := h.start s (hstart ▸ hs)
      refine ⟨by omega, h₂, ?_⟩
      intro k hk
      obtain hk | rfl := hkept' k hk
      · exact h₃ k hk
      · omega
    · exact fun hnone _ => h.continued (hstart ▸ hnone) hescaped
    · intro k hk
      obtain hk | rfl := hkept' k hk
      · have := h.kept k hk
        omega
      · omega
    · intro hidle
      rw [hgoes] at hidle
      cases hidle
  | givesUp r hidle hstart hkept =>
    dsimp only
    rw [toList_none, map_nil, append_nil]
    exact Tidy.forgotten byte h.apart hwithin (fun _ s hs => (h.within s hs).2.1) hstart hkept hidle
  | idles r hout hidle hstart hkept =>
    dsimp only
    rw [toList_none, map_nil, append_nil]
    have hnone := hkept.trans (h.idle hout)
    by_cases hb : byte = ESC
    · rw [open_, if_pos hb]
      refine ⟨h.apart, hwithin, ?_, (fun h => by cases h), ?_, fun _ => hnone⟩
      · intro s hs
        cases hs
        refine ⟨by omega, fun span hspan => (h.within span hspan).2.1, ?_⟩
        show ∀ k ∈ r.kept, i ≤ k
        rw [hnone]
        exact forall_mem_nil _
      · show ∀ k ∈ r.kept, k < i + 1
        rw [hnone]
        exact forall_mem_nil _
    · rw [open_, if_neg hb]
      have hidle := hidle.resolve_left hb
      refine ⟨h.apart, hwithin, ?_, ?_, ?_, fun _ => hnone⟩
      · intro s hs
        obtain ⟨h₁, h₂, -⟩ := h.start s (hstart ▸ hs)
        refine ⟨by omega, h₂, ?_⟩
        rw [hnone]
        exact forall_mem_nil _
      · intro _ hescaped
        rw [hidle] at hescaped
        cases hescaped
      · rw [hnone]
        exact forall_mem_nil _

theorem Tidy.run {q : Queries} {i : Nat} {spans : List Span} (h : Tidy q i spans) (batch : Bytes) :
    Tidy (q.after i batch) (i + batch.length) (spans ++ (q.reports i batch).map (·.1)) := by
  induction batch generalizing q i spans with
  | nil =>
    rw [reports, map_nil, append_nil]
    exact h
  | cons byte batch ih =>
    have hstep := ih (h.step byte)
    rw [append_assoc, ← map_append] at hstep
    rw [length_cons, Nat.add_comm batch.length 1, ← Nat.add_assoc]
    exact hstep

theorem feed_apart (q : Queries) (batch : Bytes) : Apart batch (q.feed batch).2 := by
  have hbegin : Tidy { q with start := none, kept := [] } 0 [] :=
    ⟨.nil, forall_mem_nil _, nofun, fun _ _ => rfl, forall_mem_nil _, fun _ => rfl⟩
  have htidy := hbegin.run batch
  rw [nil_append, Nat.zero_add] at htidy
  have hspans : (q.feed batch).2.spans =
      (({ q with start := none, kept := [] } : Queries).reports 0 batch).map (·.1) := by
    rw [feed_eq]
    rfl
  rw [← hspans] at htidy
  exact ⟨htidy.apart, htidy.within,
    inRange_of htidy.apart htidy.within (Nat.zero_le _) fun _ _ => Nat.zero_le _⟩

theorem scans_apart (q : Queries) (batches : List Bytes) :
    List.Forall₂ Apart batches (scans q batches) := by
  induction batches generalizing q with
  | nil => exact .nil
  | cons batch batches ih => exact .cons (feed_apart q batch) (ih _)

/-- **The cuts make no difference.** Two ways of cutting one stream into batches have their queries
    end at the same places of it, of the same kinds, with as many that ask for the cursor; and of
    every batch the spans are apart, in order and within it. -/
theorem cuts_agree (batches batches' : List Bytes) (h : batches.flatten = batches'.flatten) :
    endings 0 batches (scans new batches) = endings 0 batches' (scans new batches') ∧
    kinds new batches = kinds new batches' ∧
    cursorQueries (scans new batches) = cursorQueries (scans new batches') ∧
    List.Forall₂ Apart batches (scans new batches) ∧
    List.Forall₂ Apart batches' (scans new batches') := by
  obtain ⟨hends, hkinds, hcursor⟩ := batches_inStream new new ⟨rfl, rfl, rfl⟩ 0 batches
  obtain ⟨hends', hkinds', hcursor'⟩ := batches_inStream new new ⟨rfl, rfl, rfl⟩ 0 batches'
  rw [h] at hends hkinds
  have hsame : kinds new batches = kinds new batches' := hkinds.trans hkinds'.symm
  refine ⟨hends.trans hends'.symm, hsame, ?_, scans_apart _ _, scans_apart _ _⟩
  rw [hcursor, hcursor', hsame]

/-- A cursor query and a colour query, cut within both and at once. -/
theorem cuts_agree_cursor :
    [[ESC, 0x5b, 0x36], [0x6e, ESC, 0x5d], [0x34, 0x3b, 0x3f, BEL]].flatten =
        [[ESC, 0x5b, 0x36, 0x6e, ESC, 0x5d, 0x34, 0x3b, 0x3f, BEL]].flatten ∧
      endings 0 [[ESC, 0x5b, 0x36], [0x6e, ESC, 0x5d], [0x34, 0x3b, 0x3f, BEL]]
          (scans new [[ESC, 0x5b, 0x36], [0x6e, ESC, 0x5d], [0x34, 0x3b, 0x3f, BEL]]) = [4, 10] := by
  have hagree := cuts_agree [[ESC, 0x5b, 0x36], [0x6e, ESC, 0x5d], [0x34, 0x3b, 0x3f, BEL]]
    [[ESC, 0x5b, 0x36, 0x6e, ESC, 0x5d, 0x34, 0x3b, 0x3f, BEL]] rfl
  refine ⟨rfl, hagree.1.trans ?_⟩
  decide +kernel

end Queries

end Yardsort.Pty
