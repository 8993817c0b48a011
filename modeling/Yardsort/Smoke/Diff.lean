import Yardsort.Harness.ShellWords
import Yardsort.Lib.Lcs
import Yardsort.Lib.Text

/- What an approval card shows of a changed test (`src/features/smoke/diff.ts`): the lines of two
   texts, those at the beginning and at the end that are alike taken off, and the rest compared by
   the longest list of lines that both have.

   A text is a list of UTF-16 code units. A row of the table is built from its end, as the loops
   fill it, and the rows from the last one. -/
namespace Yardsort.Smoke.Diff
open Yardsort.Lib Lcs
open Harness.ShellWords (CodeUnit)

abbrev Line := List CodeUnit

def NEWLINE : CodeUnit := 0x0A

def MAX_DIFF_LINES : Nat := 2000

inductive Kind where
  | same
  | added
  | removed
  deriving DecidableEq

structure DiffLine where
  kind : Kind
  text : Line

def same (text : Line) : DiffLine := ⟨.same, text⟩
def added (text : Line) : DiffLine := ⟨.added, text⟩
def removed (text : Line) : DiffLine := ⟨.removed, text⟩

def splitLines (text : List CodeUnit) : List Line :=
  let lines := text.splitOn NEWLINE
  if lines.getLast? = some [] then lines.dropLast else lines

/-- A row: for what is left of `b`, with `next` the row below. -/
def rowOf (x : Line) : List Line → List Nat → List Nat
  | [], _ => [0]
  | y :: ys, next =>
    let row := rowOf x ys next.tail
    (if x = y then next.getD 1 0 + 1 else max (next.getD 0 0) (row.getD 0 0)) :: row

def table (b : List Line) : List Line → List (List Nat)
  | [] => [List.replicate (b.length + 1) 0]
  | x :: xs =>
    let rows := table b xs
    rowOf x b (rows.headD []) :: rows

def cell (rows : List (List Nat)) (i j : Nat) : Nat := (rows.getD i []).getD j 0

def walk (rows : List (List Nat)) (i j : Nat) : List Line → List Line → List DiffLine
  | [], b => b.map added
  | a, [] => a.map removed
  | x :: xs, y :: ys =>
    if x = y then same x :: walk rows (i + 1) (j + 1) xs ys
    else if cell rows i (j + 1) ≤ cell rows (i + 1) j then
      removed x :: walk rows (i + 1) j xs (y :: ys)
    else added y :: walk rows i (j + 1) (x :: xs) ys
termination_by a b => a.length + b.length

def lcsDiff (a b : List Line) : List DiffLine := walk (table b a) 0 0 a b

def head (a b : List Line) : Nat := alike a b

def tail (a b : List Line) : Nat :=
  alike (a.drop (head a b)).reverse (b.drop (head a b)).reverse

/-- What differs: all between the lines at the beginning and at the end that are alike. -/
def middle (a b : List Line) : List Line × List Line :=
  ((a.take (a.length - tail a b)).drop (head a b), (b.take (b.length - tail a b)).drop (head a b))

def diffMiddle (am bm : List Line) : List DiffLine :=
  if MAX_DIFF_LINES < am.length ∨ MAX_DIFF_LINES < bm.length then am.map removed ++ bm.map added
  else lcsDiff am bm

def diffLines (before after : List CodeUnit) : List DiffLine :=
  let a := splitLines before
  let b := splitLines after
  (a.take (head a b)).map same ++ diffMiddle (middle a b).1 (middle a b).2 ++
    (b.drop (b.length - tail a b)).map same

def oldLines (diff : List DiffLine) : List Line :=
  (diff.filter (·.kind ≠ .added)).map (·.text)

def newLines (diff : List DiffLine) : List Line :=
  (diff.filter (·.kind ≠ .removed)).map (·.text)

def kept (diff : List DiffLine) : Nat := diff.countP (·.kind = .same)

/-- The one text is the other, which does not end in a line feed, with a line feed at its end. -/
structure Ended (longer shorter : List CodeUnit) : Prop where
  longer : longer = shorter ++ [NEWLINE]
  any : shorter ≠ []
  ends : shorter.getLast? ≠ some NEWLINE

section
variable (xs ys : List DiffLine) (lines : List Line)

@[simp] theorem oldLines_append : oldLines (xs ++ ys) = oldLines xs ++ oldLines ys := by
  simp [oldLines]

@[simp] theorem newLines_append : newLines (xs ++ ys) = newLines xs ++ newLines ys := by
  simp [newLines]

@[simp] theorem kept_append : kept (xs ++ ys) = kept xs + kept ys := countP_append

@[simp] theorem oldLines_same : oldLines (lines.map same) = lines := by
  simp [oldLines, same, filter_map, comp_def]

@[simp] theorem newLines_same : newLines (lines.map same) = lines := by
  simp [newLines, same, filter_map, comp_def]

@[simp] theorem kept_same : kept (lines.map same) = lines.length := by
  simp [kept, same, countP_map, comp_def]

@[simp] theorem oldLines_removed : oldLines (lines.map removed) = lines := by
  simp [oldLines, removed, filter_map, comp_def]

@[simp] theorem newLines_removed : newLines (lines.map removed) = [] := by
  simp [newLines, removed, filter_map, comp_def]

@[simp] theorem kept_removed : kept (lines.map removed) = 0 := by
  simp [kept, removed, countP_map, comp_def]

@[simp] theorem oldLines_added : oldLines (lines.map added) = [] := by
  simp [oldLines, added, filter_map, comp_def]

@[simp] theorem newLines_added : newLines (lines.map added) = lines := by
  simp [newLines, added, filter_map, comp_def]

@[simp] theorem kept_added : kept (lines.map added) = 0 := by
  simp [kept, added, countP_map, comp_def]

end

theorem rowOf_getD {x : Line} {xs b : List Line} {next : List Nat}
    (hnext : ∀ j, next.getD j 0 = lcs xs (b.drop j)) (j : Nat) :
    (rowOf x b next).getD j 0 = lcs (x :: xs) (b.drop j) := by
  induction b generalizing next j with
  | nil => cases j <;> simp [rowOf]
  | cons y ys ih =>
    have htail : ∀ j, next.tail.getD j 0 = lcs xs (ys.drop j) := by
      intro j
      have := hnext (j + 1)
      rw [drop_succ_cons] at this
      rw [← this]
      cases next <;> simp
    cases j with
    | succ j => simpa [rowOf] using ih htail j
    | zero =>
      have hzero := hnext 0
      have hone := hnext 1
      have hrow := ih htail 0
      rw [drop_zero] at hzero hrow
      rw [drop_succ_cons, drop_zero] at hone
      show (if x = y then next.getD 1 0 + 1 else
        max (next.getD 0 0) ((rowOf x ys next.tail).getD 0 0)) = lcs (x :: xs) (y :: ys)
      by_cases hxy : x = y
      · subst hxy
        rw [if_pos rfl, hone, lcs_cons_same]
      · rw [if_neg hxy, hzero, hrow, lcs_cons_ne hxy]

theorem table_cell (a b : List Line) (i j : Nat) :
    cell (table b a) i j = lcs (a.drop i) (b.drop j) := by
  induction a generalizing i j with
  | nil =>
    cases i with
    | zero => by_cases hj : j < b.length + 1 <;> simp [cell, table, hj]
    | succ i => simp [cell, table]
  | cons x xs ih =>
    cases i with
    | succ i => simpa [cell, table] using ih i j
    | zero =>
      have hnext : ∀ j, ((table b xs).headD []).getD j 0 = lcs xs (b.drop j) := by
        intro j
        have hrow := ih 0 j
        rw [drop_zero] at hrow
        rw [← hrow, cell]
        cases table b xs <;> simp
      simpa [cell, table] using rowOf_getD hnext j

theorem walk_nil_right (rows : List (List Nat)) (i j : Nat) (a : List Line) :
    walk rows i j a [] = a.map removed := by
  cases a <;> simp [walk]

theorem oldLines_walk (rows : List (List Nat)) (i j : Nat) (a b : List Line) :
    oldLines (walk rows i j a b) = a := by
  induction i, j, a, b using walk.induct rows with
  | case1 i j b => rw [walk, oldLines_added]
  | case2 i j a hne => rw [walk_nil_right, oldLines_removed]
  | case3 i j xs y ys ih => simpa [walk, oldLines, same] using ih
  | case4 i j x xs y ys hne hcell ih => simpa [walk, hne, hcell, oldLines, removed] using ih
  | case5 i j x xs y ys hne hcell ih => simpa [walk, hne, hcell, oldLines, added] using ih

theorem newLines_walk (rows : List (List Nat)) (i j : Nat) (a b : List Line) :
    newLines (walk rows i j a b) = b := by
  induction i, j, a, b using walk.induct rows with
  | case1 i j b => rw [walk, newLines_added]
  | case2 i j a hne => rw [walk_nil_right, newLines_removed]
  | case3 i j xs y ys ih => simpa [walk, newLines, same] using ih
  | case4 i j x xs y ys hne hcell ih => simpa [walk, hne, hcell, newLines, removed] using ih
  | case5 i j x xs y ys hne hcell ih => simpa [walk, hne, hcell, newLines, added] using ih

theorem kept_walk {rows : List (List Nat)} {i j : Nat} {a b : List Line}
    (hrows : ∀ k l, cell rows (i + k) (j + l) = lcs (a.drop k) (b.drop l)) :
    kept (walk rows i j a b) = lcs a b := by
  induction i, j, a, b using walk.induct rows with
  | case1 i j b => rw [walk, kept_added, lcs_nil_left]
  | case2 i j a hne => rw [walk_nil_right, kept_removed, lcs_nil_right]
  | case3 i j xs y ys ih =>
    have hrest := ih fun k l => by
      have := hrows (k + 1) (l + 1)
      rw [drop_succ_cons, drop_succ_cons] at this
      rw [← this, Nat.add_right_comm i, Nat.add_right_comm j]
      rfl
    rw [lcs_cons_same, ← hrest]
    simp [walk, kept, same]
  | case4 i j x xs y ys hne hcell ih =>
    have hrest := ih fun k l => by
      have := hrows (k + 1) l
      rw [drop_succ_cons] at this
      rw [← this, Nat.add_right_comm i]
      rfl
    -- What is passed over loses nothing: its cell is the greater one.
    have hdown := hrows 1 0
    have hright := hrows 0 1
    simp only [Nat.add_zero, drop_succ_cons, drop_zero] at hdown hright
    rw [lcs_cons_ne hne, ← hdown, ← hright, Nat.max_eq_left hcell, hdown, ← hrest]
    simp [walk, hne, hcell, kept, removed]
  | case5 i j x xs y ys hne hcell ih =>
    have hrest := ih fun k l => by
      have := hrows k (l + 1)
      rw [drop_succ_cons] at this
      rw [← this, Nat.add_right_comm j]
      rfl
    have hdown := hrows 1 0
    have hright := hrows 0 1
    simp only [Nat.add_zero, drop_succ_cons, drop_zero] at hdown hright
    rw [lcs_cons_ne hne, ← hdown, ← hright, Nat.max_eq_right (by omega), hright, ← hrest]
    simp [walk, hne, hcell, kept, added]

theorem kept_lcsDiff (a b : List Line) : kept (lcsDiff a b) = lcs a b := by
  apply kept_walk
  intro k l
  rw [Nat.zero_add, Nat.zero_add, table_cell]

section
variable (a b : List Line)

theorem tail_le_left : tail a b ≤ a.length - head a b := by
  have := alike_le_left (a.drop (head a b)).reverse (b.drop (head a b)).reverse
  rwa [length_reverse, length_drop] at this

theorem tail_le_right : tail a b ≤ b.length - head a b := by
  have := alike_le_right (a.drop (head a b)).reverse (b.drop (head a b)).reverse
  rwa [length_reverse, length_drop] at this

theorem drop_tail : a.drop (a.length - tail a b) = b.drop (b.length - tail a b) := by
  have htake : (a.drop (head a b)).reverse.take (tail a b) =
      (b.drop (head a b)).reverse.take (tail a b) := take_alike _ _
  rw [List.take_reverse, List.take_reverse, List.reverse_inj, drop_drop, drop_drop,
    length_drop, length_drop] at htake
  have hheadA : head a b ≤ a.length := alike_le_left a b
  have hheadB : head a b ≤ b.length := alike_le_right a b
  have htailA := tail_le_left a b
  have htailB := tail_le_right a b
  rwa [show head a b + (a.length - head a b - tail a b) = a.length - tail a b by omega,
    show head a b + (b.length - head a b - tail a b) = b.length - tail a b by omega] at htake

theorem parts :
    a = a.take (head a b) ++ (middle a b).1 ++ b.drop (b.length - tail a b) ∧
      b = a.take (head a b) ++ (middle a b).2 ++ b.drop (b.length - tail a b) := by
  have hcut : ∀ c : List Line, head a b ≤ c.length - tail a b →
      c = c.take (head a b) ++ (c.take (c.length - tail a b)).drop (head a b) ++
        c.drop (c.length - tail a b) := by
    intro c hle
    have htake : (c.take (c.length - tail a b)).take (head a b) = c.take (head a b) := by
      rw [take_take, Nat.min_eq_left hle]
    rw [← htake, take_append_drop, take_append_drop]
  have hfront : a.take (head a b) = b.take (head a b) := take_alike a b
  have hheadA : head a b ≤ a.length := alike_le_left a b
  have hheadB : head a b ≤ b.length := alike_le_right a b
  have htailA := tail_le_left a b
  have htailB := tail_le_right a b
  constructor
  · have := hcut a (by omega)
    rwa [drop_tail] at this
  · have := hcut b (by omega)
    rwa [← hfront] at this

theorem lcs_parts :
    lcs a b = (a.take (head a b)).length + lcs (middle a b).1 (middle a b).2 +
      (b.drop (b.length - tail a b)).length := by
  obtain ⟨ha, hb⟩ := parts a b
  generalize a.take (head a b) = front at *
  generalize b.drop (b.length - tail a b) = back at *
  generalize middle a b = rest at *
  rw [ha, hb, lcs_append_right, lcs_append_left]

theorem middle_self : middle a a = ([], []) := by
  have hhead : head a a = a.length := alike_self a
  simp [middle, hhead]

end

theorem oldLines_diffMiddle (am bm : List Line) : oldLines (diffMiddle am bm) = am := by
  unfold diffMiddle
  split
  · simp
  · exact oldLines_walk _ 0 0 am bm

theorem newLines_diffMiddle (am bm : List Line) : newLines (diffMiddle am bm) = bm := by
  unfold diffMiddle
  split
  · simp
  · exact newLines_walk _ 0 0 am bm

def chomped (text : List CodeUnit) : List CodeUnit :=
  if text.getLast? = some NEWLINE then text.dropLast else text

theorem splitOn_snoc (text : List CodeUnit) :
    (text ++ [NEWLINE]).splitOn NEWLINE = text.splitOn NEWLINE ++ [[]] := by
  rw [splitOn_eq_splitOnP, splitOnP_append_cons text [] (by simp), List.splitOnP_nil]
  rfl

theorem splitLines_eq (text : List CodeUnit) :
    splitLines text = if text = [] then [] else (chomped text).splitOn NEWLINE := by
  by_cases hnil : text = []
  · subst hnil
    decide
  rw [if_neg hnil]
  unfold splitLines chomped
  by_cases hlast : text.getLast? = some NEWLINE
  · obtain ⟨init, rfl⟩ : ∃ init, text = init ++ [NEWLINE] := List.getLast?_eq_some_iff.mp hlast
    simp [splitOn_snoc]
  · rw [if_neg hlast, if_neg]
    intro hblank
    -- A last line that is empty begins after a line feed.
    obtain ⟨lines, hlines⟩ := List.getLast?_eq_some_iff.mp hblank
    have htext : [NEWLINE].intercalate (text.splitOn NEWLINE) = text := intercalate_splitOn _
    rw [hlines] at htext
    by_cases hone : lines = []
    · subst hone
      exact hnil htext.symm
    · apply hlast
      rw [← htext, Text.intercalate_snoc NEWLINE hone]
      simp

theorem chomped_of_ended {longer shorter : List CodeUnit} (h : Ended longer shorter) :
    chomped longer = chomped shorter := by
  rw [chomped, chomped, if_neg h.ends, h.longer]
  simp

theorem splitLines_inj {before after : List CodeUnit} :
    splitLines before = splitLines after ↔
      before = after ∨ Ended before after ∨ Ended after before := by
  constructor
  · intro h
    rw [splitLines_eq, splitLines_eq] at h
    by_cases hb : before = []
    · by_cases ha : after = []
      · exact .inl (hb.trans ha.symm)
      · rw [if_pos hb, if_neg ha] at h
        exact absurd h.symm (splitOn_ne_nil _ _)
    · by_cases ha : after = []
      · rw [if_neg hb, if_pos ha] at h
        exact absurd h (splitOn_ne_nil _ _)
      · rw [if_neg hb, if_neg ha] at h
        have hchomped : chomped before = chomped after := by
          have hjoin := congrArg [NEWLINE].intercalate h
          rwa [intercalate_splitOn, intercalate_splitOn] at hjoin
        unfold chomped at hchomped
        split at hchomped
        · rename_i hlast
          obtain ⟨init, rfl⟩ := List.getLast?_eq_some_iff.mp hlast
          split at hchomped
          · rename_i hlast'
            obtain ⟨init', rfl⟩ := List.getLast?_eq_some_iff.mp hlast'
            rw [dropLast_concat, dropLast_concat] at hchomped
            exact .inl (by rw [hchomped])
          · rename_i hlast'
            rw [dropLast_concat] at hchomped
            exact .inr (.inl ⟨by rw [hchomped], ha, hlast'⟩)
        · rename_i hlast
          split at hchomped
          · rename_i hlast'
            obtain ⟨init', rfl⟩ := List.getLast?_eq_some_iff.mp hlast'
            rw [dropLast_concat] at hchomped
            exact .inr (.inr ⟨by rw [hchomped], hb, hlast⟩)
          · exact .inl hchomped
  · intro h
    obtain rfl | h | h := h
    · rfl
    · rw [splitLines_eq, splitLines_eq, chomped_of_ended h, if_neg h.any, if_neg (by simp [h.longer])]
    · rw [splitLines_eq, splitLines_eq, chomped_of_ended h, if_neg h.any, if_neg (by simp [h.longer])]

section
variable (before after : List CodeUnit)

theorem oldLines_diffLines : oldLines (diffLines before after) = splitLines before := by
  simp only [diffLines, oldLines_append, oldLines_same, oldLines_diffMiddle]
  exact (parts _ _).1.symm

theorem newLines_diffLines : newLines (diffLines before after) = splitLines after := by
  simp only [diffLines, newLines_append, newLines_same, newLines_diffMiddle]
  exact (parts _ _).2.symm

theorem kept_diffLines
    (hold : (middle (splitLines before) (splitLines after)).1.length ≤ MAX_DIFF_LINES)
    (hnew : (middle (splitLines before) (splitLines after)).2.length ≤ MAX_DIFF_LINES) :
    kept (diffLines before after) = lcs (splitLines before) (splitLines after) := by
  rw [lcs_parts, diffLines, kept_append, kept_append, kept_same, kept_same, diffMiddle,
    if_neg (by omega), kept_lcsDiff]

theorem diffLines_same :
    (∀ line ∈ diffLines before after, line.kind = .same) ↔
      splitLines before = splitLines after := by
  constructor
  · intro h
    rw [← oldLines_diffLines before after, ← newLines_diffLines before after, oldLines, newLines]
    congr 1
    apply filter_congr
    intro line hline
    simp [h line hline]
  · intro h line hline
    have hnone : diffMiddle [] [] = [] := by simp [diffMiddle, lcsDiff, walk]
    rw [diffLines, h, middle_self, hnone, append_nil, ← map_append] at hline
    obtain ⟨text, -, rfl⟩ := mem_map.mp hline
    rfl

/-- **The comparison is true**: it has the lines of both texts in order, it keeps as many as can be
    kept where the table is not too large, and it shows no change only where the texts are the same
    but for a line feed at the end of one. -/
theorem diffLines_true :
    oldLines (diffLines before after) = splitLines before ∧
      newLines (diffLines before after) = splitLines after ∧
      ((middle (splitLines before) (splitLines after)).1.length ≤ MAX_DIFF_LINES →
        (middle (splitLines before) (splitLines after)).2.length ≤ MAX_DIFF_LINES →
        Longest (splitLines before) (splitLines after) (kept (diffLines before after))) ∧
      ((∀ line ∈ diffLines before after, line.kind = .same) ↔
        before = after ∨ Ended before after ∨ Ended after before) := by
  refine ⟨oldLines_diffLines before after, newLines_diffLines before after, fun hold hnew => ?_, ?_⟩
  · rw [kept_diffLines before after hold hnew]
    exact lcs_longest _ _
  · rw [diffLines_same, splitLines_inj]

end

/-- A line feed put at the end of a text is not shown. -/
theorem final_newline_unseen :
    ([0x61] : List CodeUnit) ≠ [0x61, NEWLINE] ∧
      ∀ line ∈ diffLines [0x61] [0x61, NEWLINE], line.kind = .same := by
  refine ⟨by decide, ?_⟩
  rw [diffLines_same]
  decide

end Yardsort.Smoke.Diff
