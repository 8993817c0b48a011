import Yardsort.Lib.Text

/- Files dropped on a terminal (`droppedPathsText` and `quotePosix` of
   `src/features/terminal/input.ts`), and a POSIX shell reading what is pasted: its quoting, and
   what it acts on where that is not quoted.

   `dropped_read` says what it reads: each path without its newlines, which a backslash before them
   takes away. -/
namespace Yardsort.Desktop.Drops
open Yardsort.Lib

def isSpace (c : Char) : Bool :=
  let n := c.toNat
  (9 ≤ n && n ≤ 13) || n = 0x20 || n = 0xA0 || n = 0x1680 || (0x2000 ≤ n && n ≤ 0x200A) ||
    n = 0x2028 || n = 0x2029 || n = 0x202F || n = 0x205F || n = 0x3000 || n = 0xFEFF

/-- What `quotePosix` puts a backslash before. -/
def escaped (c : Char) : Bool := isSpace c || "!\"#$&'()*;<>?[\\]^`\x7b|\x7d~".toList.contains c

def quotePosix (path : Text) : Text := path.flatMap fun c => if escaped c then ['\\', c] else [c]

def droppedPathsText (paths : List Text) : Text := [' '].intercalate (paths.map quotePosix) ++ [' ']

/-- What a shell makes of its input: words, and characters it acts on: an operator, the end of a
    line, a comment, an expansion. -/
inductive Read where
  | word (text : Text)
  | acts (c : Char)
  deriving DecidableEq

inductive Quote where
  | bare
  | single
  | double

def grown (word : Option Text) (c : Char) : Option Text := some (word.getD [] ++ [c])

def blank (c : Char) : Bool := c = ' ' || c = '\t'

/-- Operators, the end of a line, and what begins an expansion or is a word of the shell's own. -/
def operators : Text := "\n|&;<>()$`*?[\x7b\x7d!".toList

/-- What is not an ordinary character where it is not quoted: operators, `#` where it begins a
    word, and `~` where it does or follows an `=` or a `:` in one. -/
def acts (word : Option Text) (c : Char) : Bool :=
  c ∈ operators || (c = '#' && word = none) ||
    (c = '~' && (word = none || word.any fun text => text.getLast? ∈ [some '=', some ':']))

def shellRead : Quote → Option Text → Text → List Read
  | .bare, word, [] => word.toList.map .word
  -- an open quote goes on in the next line
  | _, _, [] => [.acts '\n']
  | .single, word, c :: rest =>
    if c = '\'' then shellRead .bare (some (word.getD [])) rest
    else shellRead .single (grown word c) rest
  | .double, word, c :: rest =>
    if c = '\"' then shellRead .bare (some (word.getD [])) rest
    else if c = '\\' then
      match rest with
      | [] => [.acts c]
      | d :: rest =>
        if d = '\n' then shellRead .double word rest
        else if d ∈ ['$', '`', '\"', '\\'] then shellRead .double (grown word d) rest
        else shellRead .double (grown (grown word c) d) rest
    else if c = '$' ∨ c = '`' then .acts c :: shellRead .double word rest
    else shellRead .double (grown word c) rest
  | .bare, word, c :: rest =>
    if c = '\\' then
      match rest with
      | [] => [.acts c]
      | d :: rest =>
        -- a backslash and a newline are a line that goes on
        if d = '\n' then shellRead .bare word rest else shellRead .bare (grown word d) rest
    else if c = '\'' then shellRead .single (some (word.getD [])) rest
    else if c = '\"' then shellRead .double (some (word.getD [])) rest
    else if blank c then word.toList.map .word ++ shellRead .bare none rest
    else if acts word c then word.toList.map .word ++ .acts c :: shellRead .bare none rest
    else shellRead .bare (grown word c) rest

def grownBy (word : Option Text) (path : Text) : Option Text :=
  (path.filter (· ≠ '\n')).foldl grown word

theorem ordinary {c : Char} (h : escaped c = false) (word : Option Text) :
    c ≠ '\\' ∧ c ≠ '\'' ∧ c ≠ '\"' ∧ blank c = false ∧ acts word c = false := by
  have hne : ∀ d, escaped d = true → c ≠ d := fun d hd heq => by rw [heq, hd] at h; cases h
  refine ⟨hne _ (by decide), hne _ (by decide), hne _ (by decide), ?_, ?_⟩
  · simp [blank, hne ' ' (by decide), hne '\t' (by decide)]
  · have hall : operators.all escaped = true := by decide
    have hno : c ∉ operators := fun hin => hne c (List.all_eq_true.mp hall c hin) rfl
    simp [acts, hno, hne '#' (by decide), hne '~' (by decide)]

theorem read_bare (word : Option Text) (rest : Text) {c : Char} (hback : c ≠ '\\')
    (hsingle : c ≠ '\'') (hdouble : c ≠ '\"') :
    shellRead .bare word (c :: rest) =
      if blank c then word.toList.map .word ++ shellRead .bare none rest
      else if acts word c then word.toList.map .word ++ .acts c :: shellRead .bare none rest
      else shellRead .bare (grown word c) rest := by
  rw [shellRead.eq_def]
  simp only [hback, hsingle, hdouble, if_false]

theorem read_quoted (path rest : Text) (word : Option Text) :
    shellRead .bare word (quotePosix path ++ rest) = shellRead .bare (grownBy word path) rest := by
  induction path generalizing word with
  | nil => rfl
  | cons c path ih =>
    rw [quotePosix, List.flatMap_cons, List.append_assoc]
    cases hc : escaped c with
    | true =>
      by_cases hline : c = '\n'
      · have hsame : grownBy word (c :: path) = grownBy word path := by simp [grownBy, hline]
        rw [hsame, ← ih word, hline]
        rfl
      · have hgrown : grownBy word (c :: path) = grownBy (grown word c) path := by
          simp [grownBy, hline]
        rw [hgrown, ← ih (grown word c)]
        exact if_neg hline
    | false =>
      obtain ⟨hback, hsingle, hdouble, hblank, hacts⟩ := ordinary hc word
      have hline : c ≠ '\n' := by
        rintro rfl
        exact absurd hc (by decide)
      have hgrown : grownBy word (c :: path) = grownBy (grown word c) path := by
        simp [grownBy, hline]
      rw [hgrown, ← ih (grown word c)]
      refine (read_bare word _ hback hsingle hdouble).trans ?_
      rw [if_neg (Bool.eq_false_iff.mp hblank), if_neg (Bool.eq_false_iff.mp hacts)]
      rfl

theorem foldl_grown (text before : Text) :
    text.foldl grown (some before) = some (before ++ text) := by
  induction text generalizing before with
  | nil => simp
  | cons c text ih => rw [List.foldl_cons, grown, ih, Option.getD_some, List.append_assoc]; rfl

theorem grownBy_none (path : Text) :
    (grownBy none path).toList = [path.filter (· ≠ '\n')].filter (· ≠ []) := by
  unfold grownBy
  cases path.filter (· ≠ '\n') with
  | nil => rfl
  | cons c text =>
    rw [List.foldl_cons, grown, foldl_grown]
    rfl

theorem read_path (path rest : Text) :
    shellRead .bare none (quotePosix path ++ ' ' :: rest) =
      ([path.filter (· ≠ '\n')].filter (· ≠ [])).map .word ++ shellRead .bare none rest := by
  rw [read_quoted, ← grownBy_none]
  rw [read_bare _ _ (by decide) (by decide) (by decide), if_pos (by decide)]

/-- **What a shell reads of dropped paths**: each without its newlines, if anything is left. -/
theorem dropped_read (paths : List Text) :
    shellRead .bare none (droppedPathsText paths) =
      ((paths.map (·.filter (· ≠ '\n'))).filter (· ≠ [])).map .word := by
  induction paths with
  | nil => decide
  | cons path paths ih =>
    cases paths with
    | nil =>
      rw [droppedPathsText, List.map_singleton, List.intercalate_singleton, read_path]
      exact List.append_nil _
    | cons next paths =>
      have htext : droppedPathsText (path :: next :: paths) =
          quotePosix path ++ ' ' :: droppedPathsText (next :: paths) := by
        simp [droppedPathsText, List.intercalate_cons_cons]
      rw [htext, read_path, ih, ← List.map_append, ← List.filter_append]
      rfl

theorem newline_free {paths : List Text}
    (h : (paths.map (·.filter (· ≠ '\n'))).filter (· ≠ []) = paths) :
    ∀ path ∈ paths, '\n' ∉ path := by
  intro path hpath hin
  rw [← h] at hpath
  obtain ⟨before, -, rfl⟩ := List.mem_map.mp (List.mem_filter.mp hpath).1
  simpa using (List.mem_filter.mp hin).2

/-- **A shell reads exactly the paths that were dropped, as its words, exactly if none of them has a
    newline in it.** -/
theorem dropped_iff {paths : List Text} (hne : ∀ path ∈ paths, path ≠ []) :
    shellRead .bare none (droppedPathsText paths) = paths.map .word ↔
      ∀ path ∈ paths, '\n' ∉ path := by
  rw [dropped_read]
  constructor
  · intro h
    exact newline_free (List.map_injective_iff.mpr (fun _ _ => Read.word.inj) h)
  · intro h
    have hsame : paths.map (·.filter (· ≠ '\n')) = paths := by
      refine (List.map_congr_left fun path hpath => ?_).trans (List.map_id paths)
      exact List.filter_eq_self.mpr fun c hc => by
        simpa using fun heq : c = '\n' => h path hpath (heq ▸ hc)
    rw [hsame, List.filter_eq_self.mpr fun path hpath => by simpa using hne path hpath]

theorem dropped_iff_one :
    shellRead .bare none (droppedPathsText ["/a b".toList]) = [.word "/a b".toList] ↔
      ∀ path ∈ ["/a b".toList], '\n' ∉ path :=
  dropped_iff (by decide)

/-- It reads `ab`. -/
theorem dropped_newline :
    shellRead .bare none (droppedPathsText ["a\nb".toList]) ≠ ["a\nb".toList].map .word := by
  decide +kernel

end Yardsort.Desktop.Drops
