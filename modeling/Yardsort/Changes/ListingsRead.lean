import Mathlib.Data.List.Nodup
import Yardsort.Changes.Listings
import Yardsort.Lib.JsonSize

/- What git lists is read as it was meant: a record is parted where its columns end, whatever its
   path looks like, and a renamed file's other path is taken with it. A copy is the exception, which
   the porcelain status is read as a rename of. -/
namespace Yardsort.Changes
open Yardsort.Lib

theorem zero_notMem_encode {t : Text} (h : '\x00' ∉ t) : 0 ∉ Utf8.encode t := by
  intro hmem
  obtain ⟨c, hc, hin⟩ := mem_flatMap.mp hmem
  have hzero : c = '\x00' :=
    Char.ext (UInt32.toNat_inj.mp (eq_of_mem_utf8EncodeChar (by decide) hin))
  exact h (hzero ▸ hc)

theorem encode_ne_nil {t : Text} (h : t ≠ []) : Utf8.encode t ≠ [] := by
  obtain ⟨c, t, rfl⟩ := exists_cons_of_ne_nil h
  simp [Utf8.encode, String.utf8EncodeChar_ne_nil]

theorem text_encode (t : Text) : text (Utf8.encode t) = t := Utf8.lossy_encode t

theorem splitOn_written {records : List Text} (h : ∀ record ∈ records, '\x00' ∉ record) :
    (written records).splitOn 0 = records.map Utf8.encode ++ [[]] := by
  induction records with
  | nil => rfl
  | cons record records ih =>
    have hrest := ih fun other ho => h other (mem_cons_of_mem _ ho)
    have hzero := zero_notMem_encode (h record mem_cons_self)
    have hwritten : written (record :: records) = Utf8.encode record ++ 0 :: written records := by
      have hnul : String.utf8EncodeChar '\x00' = [0] := by decide
      simp [written, Utf8.encode, hnul]
    rw [hwritten, splitOn_eq_splitOnP, splitOnP_append_cons_of_forall_mem _ 0 (by simp),
      ← splitOn_eq_splitOnP, hrest]
    · rfl
    · intro b hb
      have : b ≠ 0 := fun heq => hzero (heq ▸ hb)
      simpa using this

theorem fields_written {records : List Text} (h : ∀ record ∈ records, record ≠ [] ∧ '\x00' ∉ record) :
    ((written records).splitOn 0).filter (· ≠ []) = records.map Utf8.encode := by
  rw [splitOn_written fun record hr => (h record hr).2, filter_append]
  simp only [ne_eq, not_true_eq_false, decide_false, Bool.false_eq_true, not_false_eq_true,
    filter_cons_of_neg, filter_nil, append_nil]
  apply filter_eq_self.mpr
  intro field hfield
  obtain ⟨record, hr, rfl⟩ := mem_map.mp hfield
  simpa using encode_ne_nil (h record hr).1

theorem cut_columns {sep : Char} {column last : Text} {rest : List Text} (h : sep ∉ column) :
    Text.cut [sep] (columns sep (column :: rest) last) = some (column, columns sep rest last) :=
  Text.cut_char h

theorem splitN_columns {sep : Char} {cols : List Text} (h : ∀ column ∈ cols, sep ∉ column)
    (last : Text) : splitN sep (cols.length + 1) (columns sep cols last) = cols ++ [last] := by
  induction cols with
  | nil => rfl
  | cons column cols ih =>
    have hrest := ih fun other ho => h other (mem_cons_of_mem _ ho)
    rw [length_cons, splitN, cut_columns (h column mem_cons_self)]
    simp only [hrest, cons_append]

theorem Column.no_blank (column : Column) : ' ' ∉ column.text :=
  fun h => (column.plain ' ' h).1 rfl

theorem Column.no_nul (column : Column) : '\x00' ∉ column.text :=
  fun h => (column.plain '\x00' h).2 rfl

theorem columns_no_nul {sep : Char} (hsep : sep ≠ '\x00') {cols : List Text} {last : Text}
    (h : ∀ column ∈ cols, '\x00' ∉ column) (hlast : '\x00' ∉ last) :
    '\x00' ∉ columns sep cols last := by
  induction cols with
  | nil => exact hlast
  | cons column cols ih =>
    simp only [columns, mem_append, mem_cons, not_or]
    exact ⟨h column mem_cons_self, hsep.symm, ih fun other ho => h other (mem_cons_of_mem _ ho)⟩

theorem columns_ne_nil {sep : Char} {cols : List Text} {last : Text} (h : last ≠ []) :
    columns sep cols last ≠ [] := by
  cases cols <;> simp [columns, h]

/-! ## The porcelain status -/

def StatusEntry.read : StatusEntry → Option FileChange
  | .moved _ _ _ _ _ _ _ _ _ path old => some (Moved.renamed.change path.text old.text)
  | entry => entry.change

theorem FileState.letter_no_blank (state : FileState) : state.letter ≠ ' ' := by
  cases state <;> decide

theorem FileState.letter_no_nul (state : FileState) : state.letter ≠ '\x00' := by
  cases state <;> decide

theorem Moved.letter_no_blank (how : Moved) : how.letter ≠ ' ' := by
  cases how <;> decide

theorem Moved.letter_no_nul (how : Moved) : how.letter ≠ '\x00' := by
  cases how <;> decide

theorem kindFromXy_letters (index worktree : FileState) :
    kindFromXy [index.letter, worktree.letter] =
      if index = .deleted ∨ worktree = .deleted then .deleted
      else if index = .added ∨ worktree = .added then .added
      else .modified := by
  cases index <;> cases worktree <;> decide

theorem StatusEntry.records_plain (entry : StatusEntry) :
    ∀ record ∈ entry.records, record ≠ [] ∧ '\x00' ∉ record := by
  intro record hr
  cases entry with
  | moved how xy sub mH mI mW hH hI score path old =>
    simp only [records, mem_cons, not_mem_nil, or_false] at hr
    obtain rfl | rfl := hr
    · refine ⟨columns_ne_nil path.any, columns_no_nul (by decide) ?_ path.plain⟩
      simp [Column.no_nul, how.letter_no_nul.symm]
    · exact ⟨old.any, old.plain⟩
  | ordinary index worktree sub mH mI mW hH hI path =>
    obtain rfl := mem_singleton.mp hr
    refine ⟨columns_ne_nil path.any, columns_no_nul (by decide) ?_ path.plain⟩
    simp [Column.no_nul, index.letter_no_nul.symm, worktree.letter_no_nul.symm]
  | unmerged xy sub m1 m2 m3 mW h1 h2 h3 path =>
    obtain rfl := mem_singleton.mp hr
    refine ⟨columns_ne_nil path.any, columns_no_nul (by decide) ?_ path.plain⟩
    simp [Column.no_nul]
  | untracked path | ignored path =>
    obtain rfl := mem_singleton.mp hr
    exact ⟨columns_ne_nil path.any, columns_no_nul (by decide) (by simp) path.plain⟩

/-- **One entry**: its record is taken, and the next one with it where it has one. -/
theorem statusOf_entry (entry : StatusEntry) (rest : List Bytes) :
    statusOf (entry.records.map Utf8.encode ++ rest) = entry.read.toList ++ statusOf rest := by
  cases entry with
  | ordinary index worktree sub mH mI mW hH hI path =>
    have hparts := @splitN_columns ' ' [[index.letter, worktree.letter], sub.text, mH.text, mI.text,
      mW.text, hH.text, hI.text] (by
        simp [Column.no_blank, index.letter_no_blank.symm, worktree.letter_no_blank.symm]) path.text
    simp only [length_cons, length_nil] at hparts
    simp only [StatusEntry.records, map_cons, map_nil, cons_append, nil_append,
      statusOf, text_encode, cut_columns (by simp : ' ' ∉ ['1']), hparts]
    simp [kindFromXy_letters, StatusEntry.read, StatusEntry.change]
  | moved how xy sub mH mI mW hH hI score path old =>
    have hparts := @splitN_columns ' ' [xy.text, sub.text, mH.text, mI.text, mW.text, hH.text,
      hI.text, how.letter :: score.text] (by
        simp [Column.no_blank, how.letter_no_blank.symm]) path.text
    simp only [length_cons, length_nil] at hparts
    simp only [StatusEntry.records, map_cons, map_nil, cons_append, nil_append,
      statusOf, text_encode, cut_columns (by simp : ' ' ∉ ['2']), hparts]
    simp [StatusEntry.read, Moved.change]
  | unmerged xy sub m1 m2 m3 mW h1 h2 h3 path =>
    have hparts := @splitN_columns ' ' [xy.text, sub.text, m1.text, m2.text, m3.text, mW.text,
      h1.text, h2.text, h3.text] (by simp [Column.no_blank]) path.text
    simp only [length_cons, length_nil] at hparts
    simp only [StatusEntry.records, map_cons, map_nil, cons_append, nil_append,
      statusOf, text_encode, cut_columns (by simp : ' ' ∉ ['u']), hparts]
    simp [StatusEntry.read, StatusEntry.change]
  | untracked path =>
    simp only [StatusEntry.records, map_cons, map_nil, cons_append, nil_append,
      statusOf, text_encode, cut_columns (by simp : ' ' ∉ ['?'])]
    rfl
  | ignored path =>
    simp only [StatusEntry.records, map_cons, map_nil, cons_append, nil_append,
      statusOf, text_encode, cut_columns (by simp : ' ' ∉ ['!'])]
    rfl

theorem parseStatus_written (entries : List StatusEntry) :
    parseStatus (written (entries.flatMap StatusEntry.records)) =
      byPath (entries.filterMap StatusEntry.read) := by
  rw [parseStatus, fields_written]
  · congr 1
    induction entries with
    | nil => rfl
    | cons entry entries ih =>
      rw [flatMap_cons, map_append, statusOf_entry, ih]
      cases hread : entry.read <;> simp [hread]
  · intro record hr
    obtain ⟨entry, -, hr⟩ := mem_flatMap.mp hr
    exact entry.records_plain record hr

def renames (changes : List FileChange) : Nat := changes.countP (·.kind = .renamed)

theorem renames_byPath (changes : List FileChange) : renames (byPath changes) = renames changes :=
  (List.mergeSort_perm changes _).countP_eq _

theorem read_of_not_copied {entry : StatusEntry} (h : entry.copied = false) :
    entry.read = entry.change := by
  cases entry with
  | moved how => cases how <;> simp_all [StatusEntry.copied, StatusEntry.read, StatusEntry.change]
  | _ => rfl

theorem renames_entry (entry : StatusEntry) :
    renames entry.read.toList = renames entry.change.toList + if entry.copied then 1 else 0 := by
  cases entry with
  | moved how => cases how <;> rfl
  | _ => rfl

theorem filterMap_cons_toList (f : StatusEntry → Option FileChange) (entry : StatusEntry)
    (entries : List StatusEntry) :
    (entry :: entries).filterMap f = (f entry).toList ++ entries.filterMap f := by
  cases hf : f entry <;> simp [hf]

theorem renames_read (entries : List StatusEntry) :
    renames (entries.filterMap StatusEntry.read) =
      renames (entries.filterMap StatusEntry.change) + entries.countP (·.copied) := by
  induction entries with
  | nil => rfl
  | cons entry entries ih =>
    have hentry := renames_entry entry
    simp only [renames] at ih hentry ⊢
    rw [filterMap_cons_toList, filterMap_cons_toList, countP_append, countP_append,
      countP_cons, ih, hentry]
    omega

/-- The status is read as it was meant exactly where nothing in it is a copy. -/
theorem parseStatus_iff (entries : List StatusEntry) :
    parseStatus (written (entries.flatMap StatusEntry.records)) =
        byPath (entries.filterMap StatusEntry.change) ↔
      ∀ entry ∈ entries, entry.copied = false := by
  rw [parseStatus_written]
  constructor
  · intro h
    have hcount := renames_read entries
    rw [← renames_byPath, h, renames_byPath] at hcount
    have hzero : entries.countP (·.copied) = 0 := by omega
    simpa [countP_eq_zero] using hzero
  · intro h
    congr 1
    apply filterMap_congr
    intro entry hentry
    exact read_of_not_copied (h entry hentry)

theorem NameEntry.records_plain (entry : NameEntry) :
    ∀ record ∈ entry.records, record ≠ [] ∧ '\x00' ∉ record := by
  intro record hr
  cases entry with
  | moved how score path old =>
    simp only [records, mem_cons, not_mem_nil, or_false] at hr
    obtain rfl | rfl | rfl := hr
    · simp [score.no_nul, how.letter_no_nul.symm]
    · exact ⟨old.any, old.plain⟩
    · exact ⟨path.any, path.plain⟩
  | added path | modified path | typechanged path | deleted path | unmerged path =>
    simp only [records, mem_cons, not_mem_nil, or_false] at hr
    obtain rfl | rfl := hr
    · simp
    · exact ⟨path.any, path.plain⟩

theorem encode_letter {c : Char} {b : UInt8} (h : String.utf8EncodeChar c = [b]) (rest : Text) :
    Utf8.encode (c :: rest) = b :: Utf8.encode rest := by
  simp [Utf8.encode, h]

theorem nameStatusOf_plain {c : Char} {b : UInt8} (h : String.utf8EncodeChar c = [b])
    (hb : b ≠ 0x52 ∧ b ≠ 0x43) (path : Text) (rest : List Bytes) :
    nameStatusOf (Utf8.encode [c] :: Utf8.encode path :: rest) =
      change path none (kindOfLetter b) :: nameStatusOf rest := by
  rw [encode_letter h, nameStatusOf.eq_def]
  simp [hb, text_encode]

theorem nameStatusOf_entry (entry : NameEntry) (rest : List Bytes) :
    nameStatusOf (entry.records.map Utf8.encode ++ rest) = entry.change :: nameStatusOf rest := by
  cases entry with
  | moved how score path old =>
    cases how with
    | renamed =>
      have hletter := encode_letter (by decide : String.utf8EncodeChar 'R' = [0x52]) score.text
      simp [NameEntry.records, NameEntry.change, Moved.letter, Moved.change, nameStatusOf, hletter,
        text_encode, kindOfLetter]
    | copied =>
      have hletter := encode_letter (by decide : String.utf8EncodeChar 'C' = [0x43]) score.text
      simp [NameEntry.records, NameEntry.change, Moved.letter, Moved.change, nameStatusOf, hletter,
        text_encode, kindOfLetter]
  | added path =>
    exact nameStatusOf_plain (by decide : String.utf8EncodeChar 'A' = [0x41]) (by decide) path.text rest
  | modified path =>
    exact nameStatusOf_plain (by decide : String.utf8EncodeChar 'M' = [0x4D]) (by decide) path.text rest
  | typechanged path =>
    exact nameStatusOf_plain (by decide : String.utf8EncodeChar 'T' = [0x54]) (by decide) path.text rest
  | deleted path =>
    exact nameStatusOf_plain (by decide : String.utf8EncodeChar 'D' = [0x44]) (by decide) path.text rest
  | unmerged path =>
    exact nameStatusOf_plain (by decide : String.utf8EncodeChar 'U' = [0x55]) (by decide) path.text rest

theorem parseNameStatus_written (entries : List NameEntry) :
    parseNameStatus (written (entries.flatMap NameEntry.records)) =
      entries.map NameEntry.change := by
  rw [parseNameStatus, fields_written]
  · induction entries with
    | nil => rfl
    | cons entry entries ih =>
      rw [flatMap_cons, map_append, nameStatusOf_entry, ih, map_cons]
  · intro record hr
    obtain ⟨entry, -, hr⟩ := mem_flatMap.mp hr
    exact entry.records_plain record hr

theorem parseU32_digits {n : Nat} (h : n < 2 ^ 32) : parseU32 (Nat.toDigits 10 n) = some n := by
  have hdigit : ∀ c ∈ Nat.toDigits 10 n, c.isDigit = true := fun c hc =>
    Nat.isDigit_of_mem_toDigits (by decide) (by decide) hc
  have hplus : (Nat.toDigits 10 n).head? ≠ some '+' := by
    intro hhead
    exact absurd (hdigit _ (mem_of_mem_head? hhead)) (by decide)
  have hvalue : Nat.ofDigitChars 10 (Nat.toDigits 10 n) 0 = n := Nat.ofDigitChars_ten_toDigits
  rw [parseU32, if_neg hplus, hvalue]
  exact if_pos ⟨Nat.toDigits_ne_nil, all_eq_true.mpr hdigit, h⟩

theorem toDigits_no {c : Char} (hc : c.isDigit = false) (n : Nat) : c ∉ Nat.toDigits 10 n := by
  intro hmem
  have := Nat.isDigit_of_mem_toDigits (by decide) (by decide) hmem
  rw [hc] at this
  cases this

theorem Counts.columns_no {c : Char} (hc : c.isDigit = false) (hdash : c ≠ '-') (counts : Counts) :
    ∀ column ∈ counts.columns, c ∉ column := by
  intro column hcolumn
  cases counts with
  | lines added deleted =>
    simp only [columns, mem_cons, not_mem_nil, or_false] at hcolumn
    obtain rfl | rfl := hcolumn <;> exact toDigits_no hc _
  | binary =>
    simp only [columns, mem_cons, not_mem_nil, or_false] at hcolumn
    obtain rfl | rfl := hcolumn <;> simpa using hdash

theorem Counts.read (counts : Counts) (last : Text) :
    ∃ added deleted, splitN '\t' 3 (Changes.columns '\t' counts.columns last) =
      [added, deleted, last] ∧ ∀ path,
        (⟨path, parseU32 added, parseU32 deleted⟩ : Stat) = counts.stat path := by
  have hparts := splitN_columns (counts.columns_no (by decide : '\t'.isDigit = false) (by decide)) last
  cases counts with
  | lines added deleted =>
    refine ⟨_, _, hparts, fun path => ?_⟩
    rw [parseU32_digits added.toNat_lt, parseU32_digits deleted.toNat_lt]
    rfl
  | binary => exact ⟨_, _, hparts, fun _ => rfl⟩

theorem StatEntry.records_plain (entry : StatEntry) :
    ∀ record ∈ entry.records, record ≠ [] ∧ '\x00' ∉ record := by
  have hcolumns := entry.counts.columns_no (by decide : '\x00'.isDigit = false) (by decide)
  intro record hr
  unfold records at hr
  split at hr
  · obtain rfl := mem_singleton.mp hr
    exact ⟨columns_ne_nil entry.path.any, columns_no_nul (by decide) hcolumns entry.path.plain⟩
  · rename_i old _
    simp only [mem_cons, not_mem_nil, or_false] at hr
    obtain rfl | rfl | rfl := hr
    · refine ⟨?_, columns_no_nul (by decide) hcolumns (by simp)⟩
      cases entry.counts <;> simp [Counts.columns, Changes.columns]
    · exact ⟨old.any, old.plain⟩
    · exact ⟨entry.path.any, entry.path.plain⟩

theorem numstatOf_entry (entry : StatEntry) (rest : List Bytes) :
    numstatOf (entry.records.map Utf8.encode ++ rest) = entry.stat :: numstatOf rest := by
  have hplain := entry.records_plain
  unfold StatEntry.records at *
  cases hold : entry.old with
  | none =>
    rw [hold] at hplain
    have hne := encode_ne_nil (hplain _ mem_cons_self).1
    obtain ⟨added, deleted, hparts, hstat⟩ := entry.counts.read entry.path.text
    simp [numstatOf, hne, text_encode, hparts, entry.path.any, hstat, StatEntry.stat]
  | some old =>
    rw [hold] at hplain
    have hne := encode_ne_nil (hplain _ mem_cons_self).1
    obtain ⟨added, deleted, hparts, hstat⟩ := entry.counts.read []
    simp [numstatOf, hne, text_encode, hparts, hstat, StatEntry.stat]

theorem parseNumstat_written (entries : List StatEntry) :
    parseNumstat (written (entries.flatMap StatEntry.records)) = entries.map StatEntry.stat := by
  have hplain : ∀ record ∈ entries.flatMap StatEntry.records, record ≠ [] ∧ '\x00' ∉ record := by
    intro record hr
    obtain ⟨entry, -, hr⟩ := mem_flatMap.mp hr
    exact entry.records_plain record hr
  rw [parseNumstat, splitOn_written fun record hr => (hplain record hr).2]
  clear hplain
  induction entries with
  | nil => rfl
  | cons entry entries ih =>
    rw [flatMap_cons, map_append, append_assoc, numstatOf_entry, ih, map_cons]

structure Counted (stats : List Stat) (before after : FileChange) : Prop where
  same : after.path = before.path ∧ after.oldPath = before.oldPath ∧ after.kind = before.kind
  own : ∀ stat ∈ stats, stat.path = before.path →
    after.additions = stat.added ∧ after.deletions = stat.deleted
  none : (∀ stat ∈ stats, stat.path ≠ before.path) → after = before

theorem withStats_counted {stats : List Stat} (h : (stats.map Stat.path).Nodup)
    (changes : List FileChange) :
    List.Forall₂ (Counted stats) changes (withStats changes stats) := by
  induction changes with
  | nil => exact .nil
  | cons change changes ih =>
    refine .cons ?_ ih
    dsimp only
    split
    · rename_i stat hfind
      have hpath : stat.path = change.path := by simpa using List.find?_some hfind
      have hmem := mem_of_find?_eq_some hfind
      refine ⟨⟨rfl, rfl, rfl⟩, fun other ho hsame => ?_, fun hnone => absurd hpath (hnone stat hmem)⟩
      -- Another line of the same path is the same line.
      have heq : other = stat :=
        List.inj_on_of_nodup_map h ho hmem (hsame.trans hpath.symm)
      rw [heq]
      exact ⟨rfl, rfl⟩
    · rename_i hfind
      have hnone := List.find?_eq_none.mp hfind
      exact ⟨⟨rfl, rfl, rfl⟩, fun stat hmem hsame => absurd hsame (by simpa using hnone stat hmem),
        fun _ => rfl⟩

/-- **What git lists is read as it was meant**, one change for each entry, whatever the paths: names
    and counts always, the status exactly where no file in it was found to be a copy. -/
theorem listings_read (entries : List StatusEntry) :
    (parseStatus (written (entries.flatMap StatusEntry.records)) =
          byPath (entries.filterMap StatusEntry.change) ↔
        ∀ entry ∈ entries, entry.copied = false) ∧
      (∀ entries : List NameEntry,
        parseNameStatus (written (entries.flatMap NameEntry.records)) =
          entries.map NameEntry.change) ∧
      (∀ entries : List StatEntry,
        parseNumstat (written (entries.flatMap StatEntry.records)) = entries.map StatEntry.stat) ∧
      ∀ (changes : List FileChange) (stats : List Stat), (stats.map Stat.path).Nodup →
        List.Forall₂ (Counted stats) changes (withStats changes stats) :=
  ⟨parseStatus_iff entries, parseNameStatus_written, parseNumstat_written,
    fun changes _ h => withStats_counted h changes⟩

/-- The counts of a file of which a line was added. -/
theorem listings_read_counts :
    List.Forall₂ (Counted [⟨['f'], some 1, some 0⟩]) [change ['f'] none .modified]
      (withStats [change ['f'] none .modified] [⟨['f'], some 1, some 0⟩]) :=
  (listings_read []).2.2.2 _ _ (by decide)

/-- The status of a file `b` that is a copy of `a`, in git's words, and what is made of it. -/
theorem copy_read_as_rename :
    ∃ entry : StatusEntry,
      written entry.records = utf8 "2 C. N... 100644 100644 100644 0 1 C100 b\x00a\x00" ∧
        [entry].filterMap StatusEntry.change = [change ['b'] none .added] ∧
        parseStatus (written entry.records) = [change ['b'] (some ['a']) .renamed] := by
  let digit : Column := ⟨['0'], by simp⟩
  let mode : Column := ⟨['1', '0', '0', '6', '4', '4'], by simp⟩
  refine ⟨.moved .copied ⟨['C', '.'], by simp⟩ ⟨['N', '.', '.', '.'], by simp⟩ mode mode mode digit
    ⟨['1'], by simp⟩ ⟨['1', '0', '0'], by simp⟩ ⟨['b'], by decide, by simp⟩
    ⟨['a'], by decide, by simp⟩, ?_, rfl, ?_⟩
  · decide +kernel
  · decide +kernel

end Yardsort.Changes
