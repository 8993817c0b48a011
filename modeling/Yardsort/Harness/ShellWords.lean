import Mathlib.Data.List.Basic

/- Argument lists shown and edited as one shell-like line (`splitWords` and `joinWords`,
   `src/lib/shellWords.ts`). The writer picks one of three notations for a word, and the reader is
   a loop over the line that looks one ahead: what holds is that each notation is read back as the
   word, whatever was read before it and whatever comes after (`scan_written`).

   A string is a list of UTF-16 code units, as the loop and the patterns see it. -/
namespace Yardsort.Harness.ShellWords

abbrev CodeUnit := UInt16

def SPACE : CodeUnit := 0x20
def DOUBLE : CodeUnit := 0x22
def SINGLE : CodeUnit := 0x27
def BACKSLASH : CodeUnit := 0x5C

def isSpace (c : CodeUnit) : Bool :=
  (9 ≤ c && c ≤ 13) || c = 0x20 || c = 0xA0 || c = 0x1680 || (0x2000 ≤ c && c ≤ 0x200A) ||
    c = 0x2028 || c = 0x2029 || c = 0x202F || c = 0x205F || c = 0x3000 || c = 0xFEFF

inductive Quote where
  | single
  | double

structure Reader where
  words : List (List CodeUnit)
  current : List CodeUnit
  inWord : Bool
  quote : Option Quote

namespace Reader

def add (r : Reader) (c : CodeUnit) : Reader := { r with current := r.current ++ [c] }

def turn (r : Reader) (char : CodeUnit) (next : Option CodeUnit) : Reader × Bool :=
  match r.quote with
  | some .single =>
    if char = SINGLE then ({ r with quote := none }, false) else (r.add char, false)
  | some .double =>
    if char = DOUBLE then ({ r with quote := none }, false)
    else match next with
      | some c =>
        if char = BACKSLASH ∧ (c = DOUBLE ∨ c = BACKSLASH) then (r.add c, true)
        else (r.add char, false)
      | none => (r.add char, false)
  | none =>
    if char = SINGLE ∨ char = DOUBLE then
      -- '' is an argument, albeit an empty one
      ({ r with quote := some (if char = SINGLE then .single else .double), inWord := true }, false)
    else match (if char = BACKSLASH then next else none) with
      | some c => ({ r.add c with inWord := true }, true)
      | none =>
        if isSpace char then
          ({ r with
            words := if r.inWord then r.words ++ [r.current] else r.words
            current := []
            inWord := false }, false)
        else ({ r.add char with inWord := true }, false)

def scan (r : Reader) : List CodeUnit → Reader
  | [] => r
  | [char] => (r.turn char none).1
  | char :: next :: rest =>
    match r.turn char (some next) with
    | (r, true) => r.scan rest
    | (r, false) => r.scan (next :: rest)

end Reader

def splitWords (line : List CodeUnit) : Option (List (List CodeUnit)) :=
  let r := Reader.scan ⟨[], [], false, none⟩ line
  if r.quote.isSome then none
  else some (if r.inWord then r.words ++ [r.current] else r.words)

def plain (c : CodeUnit) : Bool :=
  !isSpace c && c ≠ SINGLE && c ≠ DOUBLE && c ≠ BACKSLASH

def escape (c : CodeUnit) : List CodeUnit :=
  if c = DOUBLE ∨ c = BACKSLASH then [BACKSLASH, c] else [c]

def written (word : List CodeUnit) : List CodeUnit :=
  if word ≠ [] ∧ word.all plain then word
  else if SINGLE ∉ word then SINGLE :: word ++ [SINGLE]
  else DOUBLE :: word.flatMap escape ++ [DOUBLE]

/-- Render arguments as a line that `splitWords` turns back into the same arguments. -/
def joinWords (words : List (List CodeUnit)) : List CodeUnit :=
  [SPACE].intercalate (words.map written)

namespace Reader
variable {r : Reader} {char : CodeUnit} {rest : List CodeUnit}

theorem scan_one (r' : Reader) (h : ∀ next, r.turn char next = (r', false)) :
    r.scan (char :: rest) = r'.scan rest := by
  cases rest with
  | nil => rw [scan, scan, h]
  | cons next rest => rw [scan, h]

theorem scan_two (r' : Reader) {next : CodeUnit} (h : r.turn char (some next) = (r', true)) :
    r.scan (char :: next :: rest) = r'.scan rest := by
  rw [scan, h]

theorem plain_iff : plain char = true ↔
    isSpace char = false ∧ char ≠ SINGLE ∧ char ≠ DOUBLE ∧ char ≠ BACKSLASH := by
  simp [plain, and_assoc]

theorem scan_plain (hq : r.quote = none) (hc : plain char) :
    r.scan (char :: rest) =
      { r with current := r.current ++ [char], inWord := true }.scan rest := by
  obtain ⟨hspace, hsingle, hdouble, hback⟩ := plain_iff.mp hc
  apply scan_one
  intro next
  simp [turn, add, hq, hspace, hsingle, hdouble, hback]

theorem scan_bare {word : List CodeUnit} (hq : r.quote = none) (hne : word ≠ [])
    (hw : ∀ c ∈ word, plain c) :
    r.scan (word ++ rest) =
      { r with current := r.current ++ word, inWord := true }.scan rest := by
  induction word generalizing r with
  | nil => exact absurd rfl hne
  | cons c word ih =>
    rw [List.cons_append, scan_plain hq (hw c List.mem_cons_self)]
    by_cases hword : word = []
    · subst hword
      rfl
    · rw [ih (r := ⟨r.words, r.current ++ [c], true, r.quote⟩) hq hword
        fun d hd => hw d (List.mem_cons_of_mem c hd)]
      simp

theorem scan_single {word : List CodeUnit} (hq : r.quote = some .single) (hw : SINGLE ∉ word) :
    r.scan (word ++ SINGLE :: rest) =
      { r with current := r.current ++ word, quote := none }.scan rest := by
  induction word generalizing r with
  | nil =>
    rw [List.nil_append, scan_one { r with quote := none }]
    · simp
    · intro next
      simp [turn, hq]
  | cons c word ih =>
    obtain ⟨hc, hw⟩ := not_or.mp (mt List.mem_cons.mpr hw)
    rw [List.cons_append, scan_one (r.add c), ih (r := r.add c) hq hw]
    · simp [add]
    · intro next
      simp [turn, hq, Ne.symm hc]

theorem scan_double {word : List CodeUnit} (hq : r.quote = some .double) :
    r.scan (word.flatMap escape ++ DOUBLE :: rest) =
      { r with current := r.current ++ word, quote := none }.scan rest := by
  induction word generalizing r with
  | nil =>
    rw [List.flatMap_nil, List.nil_append, scan_one { r with quote := none }]
    · simp
    · intro next
      simp [turn, hq]
  | cons c word ih =>
    rw [List.flatMap_cons, List.append_assoc]
    by_cases hc : c = DOUBLE ∨ c = BACKSLASH
    · rw [escape, if_pos hc, List.cons_append, List.singleton_append, scan_two (r.add c),
        ih (r := r.add c) hq]
      · simp [add]
      · have hne : BACKSLASH ≠ DOUBLE := by decide
        simp [turn, hq, hc, hne]
    · obtain ⟨hdouble, hback⟩ := not_or.mp hc
      rw [escape, if_neg hc, List.singleton_append, scan_one (r.add c),
        ih (r := r.add c) hq]
      · simp [add]
      · intro next
        cases next with
        | none => simp [turn, hq, hdouble]
        | some next => simp [turn, hq, hdouble, hback]

/-- **A word is read back as it was written**, in whichever of the three notations. -/
theorem scan_written {words : List (List CodeUnit)} (word : List CodeUnit) :
    scan ⟨words, [], false, none⟩ (written word ++ rest) =
      scan ⟨words, word, true, none⟩ rest := by
  unfold written
  split
  · rename_i h
    exact scan_bare rfl h.1 (List.all_eq_true.mp h.2)
  · split
    · rename_i hw
      rw [List.cons_append, List.cons_append, List.append_assoc, List.singleton_append,
        scan_one ⟨words, [], true, some .single⟩, scan_single rfl hw]
      · rfl
      · intro next
        rfl
    · rw [List.cons_append, List.cons_append, List.append_assoc, List.singleton_append,
        scan_one ⟨words, [], true, some .double⟩, scan_double rfl]
      · rfl
      · intro next
        rfl

theorem scan_space {words : List (List CodeUnit)} {word : List CodeUnit} :
    scan ⟨words, word, true, none⟩ (SPACE :: rest) =
      scan ⟨words ++ [word], [], false, none⟩ rest :=
  scan_one _ fun _ => rfl

theorem scan_joined (words : List (List CodeUnit)) (word : List CodeUnit)
    (more : List (List CodeUnit)) :
    scan ⟨words, [], false, none⟩ (joinWords (word :: more)) =
      ⟨words ++ (word :: more).dropLast, (word :: more).getLast (by simp), true, none⟩ := by
  induction more generalizing words word with
  | nil =>
    have hline : scan ⟨words, [], false, none⟩ (written word ++ []) =
        scan ⟨words, word, true, none⟩ [] := scan_written word
    rw [List.append_nil] at hline
    simpa [joinWords, scan] using hline
  | cons next more ih =>
    have hline : joinWords (word :: next :: more) =
        written word ++ SPACE :: joinWords (next :: more) := by
      simp [joinWords, List.intercalate]
    rw [hline, scan_written, scan_space, ih]
    simp

end Reader

theorem splitWords_joined (words : List (List CodeUnit)) :
    splitWords (joinWords words) = some words := by
  unfold splitWords
  cases words with
  | nil => rfl
  | cons word more =>
    rw [Reader.scan_joined]
    simp [List.dropLast_append_getLast]

/-- **Lines keep the words.** An argument list shown as a line is read back from it, and so are the
    words of any line that was read. -/
theorem shown_words_stay :
    (∀ words, splitWords (joinWords words) = some words) ∧
    ∀ line words, splitWords line = some words →
      splitWords (joinWords words) = splitWords line :=
  ⟨splitWords_joined, fun line words h => by rw [splitWords_joined, h]⟩

/-- `a\ b ''` is the words `a b` and the empty one. -/
theorem shown_words_stay_two :
    splitWords (joinWords [[0x61, 0x20, 0x62], []]) =
      splitWords [0x61, 0x5C, 0x20, 0x62, 0x20, 0x27, 0x27] :=
  shown_words_stay.2 [0x61, 0x5C, 0x20, 0x62, 0x20, 0x27, 0x27] [[0x61, 0x20, 0x62], []]
    (by decide +kernel)

end Yardsort.Harness.ShellWords
