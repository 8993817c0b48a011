import Mathlib.Data.List.Perm.Subperm
import Yardsort.Workspaces.Naming

/- Names that are safe: everything a name is made of is a word of letters and digits, and words
   joined by dashes are a name on every platform. Which of them Windows keeps for itself comes down
   to what is left of the words: a reserved word is one word. -/
namespace Yardsort.Workspaces.Naming
open Yardsort.Lib

def Word (word : Text) : Prop := word ≠ [] ∧ ∀ c ∈ word, isPlain c = true

instance (word : Text) : Decidable (Word word) :=
  decidable_of_iff (word ≠ [] ∧ word.all isPlain = true) (by rw [all_eq_true, Word])

def joined (words : List Text) : Text := ['-'].intercalate words

@[simp] theorem joined_one (word : Text) : joined [word] = word := intercalate_singleton

variable {words : List Text}

theorem joined_cons (word : Text) (h : words ≠ []) :
    joined (word :: words) = word ++ '-' :: joined words := by
  obtain ⟨next, words, rfl⟩ := exists_cons_of_ne_nil h
  rw [joined, intercalate_cons_cons, append_assoc]
  rfl

theorem length_joined_cons (word : Text) (h : words ≠ []) :
    (joined (word :: words)).length = word.length + 1 + (joined words).length := by
  rw [joined_cons word h, length_append, length_cons]
  omega

theorem joined_snoc (h : words ≠ []) (word : Text) :
    joined (words ++ [word]) = joined words ++ '-' :: word := Text.intercalate_snoc '-' h word

theorem plain_ne_dash {c : Char} (h : isPlain c = true) : c ≠ '-' := by
  intro hc
  subst hc
  exact absurd h (by decide)

variable {word : Text}

theorem Word.no_dash (h : Word word) : '-' ∉ word :=
  fun hmem => plain_ne_dash (h.2 _ hmem) rfl

theorem Word.shaped (h : Word word) : Shaped word where
  any := h.1
  chars c hc := .inl (h.2 c hc)
  begins hhead := h.no_dash (mem_of_mem_head? hhead)
  ends hlast := h.no_dash (mem_of_getLast? hlast)
  single hdashes := h.no_dash (hdashes.mem mem_cons_self)

theorem Shaped.after {name : Text} (h : Shaped name) (hword : Word word) :
    Shaped (word ++ '-' :: name) where
  any := by simp
  chars c hc := by
    obtain hc | hc := mem_append.mp hc
    · exact .inl (hword.2 c hc)
    · obtain rfl | hc := mem_cons.mp hc
      · exact .inr rfl
      · exact h.chars c hc
  begins := by
    rw [List.head?_append_of_ne_nil _ hword.1]
    exact hword.shaped.begins
  ends := by
    rw [List.getLast?_append_of_ne_nil _ (by simp), List.getLast?_cons_of_ne_nil h.any]
    exact h.ends
  single := by
    intro ⟨before, after, heq⟩
    rw [append_assoc] at heq
    obtain ⟨past, hword', hrest⟩ | ⟨past, hbefore, hrest⟩ := append_eq_append_iff.mp heq
    -- The two dashes begin in the word, or at the dash after it.
    · cases past with
      | nil =>
        simp only [nil_append, cons_append, List.cons.injEq, true_and] at hrest
        exact h.begins (by rw [← hrest]; rfl)
      | cons c past =>
        simp only [cons_append, List.cons.injEq] at hrest
        exact hword.no_dash (by rw [hword', ← hrest.1]; simp)
    · cases past with
      | nil =>
        simp only [nil_append, cons_append, List.cons.injEq, true_and] at hrest
        exact h.begins (by rw [hrest]; rfl)
      | cons c past =>
        simp only [cons_append, List.cons.injEq] at hrest
        exact h.single ⟨past, after, by rw [hrest.2]; simp⟩

theorem joined_shaped (h : words ≠ []) (hwords : ∀ word ∈ words, Word word) :
    Shaped (joined words) := by
  induction words with
  | nil => exact absurd rfl h
  | cons word words ih =>
    have hword := hwords word mem_cons_self
    by_cases hrest : words = []
    · subst hrest
      rw [joined_one]
      exact hword.shaped
    · rw [joined_cons word hrest]
      exact (ih hrest fun other ho => hwords other (mem_cons_of_mem _ ho)).after hword

theorem RESERVED_word : ∀ word ∈ RESERVED, Word word := by decide +kernel

theorem RESERVED_length : ∀ word ∈ RESERVED, word.length ≤ 4 := by decide +kernel

theorem joined_not_reserved {next : Text} :
    joined (word :: next :: words) ∉ RESERVED := by
  intro h
  apply (RESERVED_word _ h).no_dash
  rw [joined_cons word (by simp)]
  simp

theorem toLower_plain {c : Char} (h : c.isAlphanum = true) : isPlain c.toLower = true := by
  by_cases hupper : 65 ≤ c.val.toNat ∧ c.val.toNat ≤ 90
  · have hval : c.toLower.val.toNat = c.val.toNat + 32 := by
      rw [Char.toLower, dif_pos (by simpa [UInt32.le_iff_toNat_le] using hupper)]
      have hnat : c.toNat = c.val.toNat := rfl
      simp
      omega
    have hlower : 97 ≤ c.toLower.val.toNat ∧ c.toLower.val.toNat ≤ 122 := by omega
    simp only [isPlain, Bool.or_eq_true]
    left
    simpa [Char.isLower, UInt32.le_iff_toNat_le] using hlower
  · have hsame : c.toLower = c := by
      rw [Char.toLower, dif_neg (by simpa [UInt32.le_iff_toNat_le] using hupper)]
    have hnot : c.isUpper = false := by
      simpa [Char.isUpper, UInt32.le_iff_toNat_le] using hupper
    rw [hsame]
    simpa [Char.isAlphanum, Char.isAlpha, hnot, isPlain] using h

theorem wordsOf_words {text : Text} : ∀ word ∈ (wordsOf text).map lowered, Word word := by
  intro word hword
  obtain ⟨raw, hraw, rfl⟩ := mem_map.mp hword
  obtain ⟨hsplit, hne⟩ := mem_filter.mp hraw
  constructor
  · simpa [lowered] using hne
  · intro c hc
    obtain ⟨d, hd, rfl⟩ := mem_map.mp hc
    have := Text.splitOnP_no_sep _ text raw hsplit d hd
    exact toLower_plain (by simpa using this)

theorem counted_words {text : Text} {drop : Bool} : ∀ word ∈ counted text drop, Word word := by
  intro word hword
  apply @wordsOf_words text
  have hchosen := mem_of_mem_take hword
  split at hchosen
  · exact hchosen
  · exact (mem_filter.mp hchosen).1

/-- What the slug of some words is made of: the beginning of a word that is too long, or the first
    words, all that fit. -/
inductive Slugged : List Text → List Text → Prop
  | cut {first : Text} {rest : List Text} (hlong : MAX_LEN < first.length) :
      Slugged (first :: rest) [first.take MAX_LEN]
  | whole {first : Text} {kept rest : List Text} (hshort : (joined (first :: kept)).length ≤ MAX_LEN)
      (hbegins : kept <+: rest)
      (hnext : kept = [] → ∀ next ∈ rest.head?, MAX_LEN < first.length + 1 + next.length) :
      Slugged (first :: rest) (first :: kept)

theorem slugFrom_joined {past words : List Text} (hpast : past ≠ [])
    (hwords : ∀ word ∈ past ++ words, Word word) (hshort : (joined past).length ≤ MAX_LEN) :
    ∃ kept, kept <+: words ∧ slugFrom (joined past) words = joined (past ++ kept) ∧
      (joined (past ++ kept)).length ≤ MAX_LEN ∧
      (kept = [] → ∀ next ∈ words.head?, MAX_LEN < (joined past).length + 1 + next.length) := by
  induction words generalizing past with
  | nil => exact ⟨[], nil_prefix, by simp [slugFrom], by simpa using hshort, by simp⟩
  | cons word words ih =>
    have hne : joined past ≠ [] :=
      (joined_shaped hpast fun w hw => hwords w (mem_append_left _ hw)).any
    by_cases hlong : MAX_LEN < (joined past).length + 1 + word.length
    · refine ⟨[], nil_prefix, ?_, by simpa using hshort, fun _ next hnext => ?_⟩
      · simp [slugFrom, hne, hlong]
      · simp only [List.head?_cons, Option.mem_some_iff] at hnext
        exact hnext ▸ hlong
    · have hstep : slugFrom (joined past) (word :: words) =
          slugFrom (joined (past ++ [word])) words := by
        simp [slugFrom, hne, hlong, joined_snoc hpast]
      have hfits : (joined (past ++ [word])).length ≤ MAX_LEN := by
        rw [joined_snoc hpast, length_append, length_cons]
        omega
      obtain ⟨kept, hkept, heq, hlen, -⟩ := @ih (past ++ [word]) (by simp)
        (by simpa using hwords) hfits
      refine ⟨word :: kept, cons_prefix_cons.mpr ⟨rfl, hkept⟩, ?_, ?_, nofun⟩
      · rw [hstep, heq, append_assoc, singleton_append]
      · rwa [append_assoc, singleton_append] at hlen

/-- **A slug** is made of the first words. -/
theorem slugFrom_slugged (h : words ≠ []) (hwords : ∀ word ∈ words, Word word) :
    ∃ made, Slugged words made ∧ slugFrom [] words = joined made := by
  obtain ⟨first, rest, rfl⟩ := exists_cons_of_ne_nil h
  by_cases hlong : MAX_LEN < first.length
  · exact ⟨_, .cut hlong, by simp [slugFrom, hlong]⟩
  · obtain ⟨kept, hkept, heq, hlen, hnext⟩ := @slugFrom_joined [first] rest (by simp)
      (by simpa using hwords) (by simpa using hlong)
    refine ⟨first :: kept, .whole hlen hkept (by simpa using hnext), ?_⟩
    rw [singleton_append] at heq
    rw [← heq]
    simp [slugFrom, hlong]

section
variable {words made : List Text} (h : Slugged words made)
include h

theorem Slugged.any : made ≠ [] := by
  cases h <;> simp

theorem Slugged.made_words (hwords : ∀ word ∈ words, Word word) : ∀ word ∈ made, Word word := by
  cases h with
  | @cut first rest hlong =>
    obtain ⟨hne, hplain⟩ := hwords first mem_cons_self
    intro word hword
    obtain rfl := mem_singleton.mp hword
    exact ⟨by simpa [MAX_LEN] using hne, fun c hc => hplain c (mem_of_mem_take hc)⟩
  | whole hshort hbegins hnext =>
    intro word hword
    apply hwords
    obtain rfl | hword := mem_cons.mp hword
    · exact mem_cons_self
    · exact mem_cons_of_mem _ (hbegins.subset hword)

theorem Slugged.short : (joined made).length ≤ MAX_LEN := by
  cases h with
  | cut hlong => simp
  | whole hshort => exact hshort

end

theorem Leaves.head {room : Nat} (h : Leaves room word words) :
    words.head? = some word := by
  match words, h with
  | [_], h => exact congrArg some h
  | _ :: _ :: _, h => exact congrArg some h.1

theorem leaves_cons {room : Nat} {rest : List Text} :
    Leaves room word (word :: rest) ↔
      ∀ next ∈ rest.head?, room < word.length + 1 + next.length := by
  cases rest <;> simp [Leaves]

theorem joined_eq_reserved {first : Text} (hword : word ∈ RESERVED) {kept : List Text} :
    joined (first :: kept) = word ↔ first = word ∧ kept = [] := by
  constructor
  · intro h
    cases kept with
    | nil => exact ⟨by rwa [joined_one] at h, rfl⟩
    | cons next kept => exact absurd (h ▸ hword) joined_not_reserved
  · rintro ⟨rfl, rfl⟩
    exact joined_one first

theorem Slugged.reserved {made : List Text} (h : Slugged words made) (hword : word ∈ RESERVED) :
    joined made = word ↔ Leaves MAX_LEN word words := by
  have hlen := RESERVED_length word hword
  cases h with
  | @cut first rest hlong =>
    constructor
    · intro heq
      have hcut := congrArg List.length heq
      rw [joined_one, length_take, Nat.min_eq_left (Nat.le_of_lt hlong)] at hcut
      simp only [MAX_LEN] at hcut
      omega
    · intro hleaves
      cases hleaves.head
      simp only [MAX_LEN] at hlong
      omega
  | @whole first kept rest hshort hbegins hnext =>
    rw [joined_eq_reserved hword]
    constructor
    · rintro ⟨rfl, rfl⟩
      exact leaves_cons.mpr (hnext rfl)
    · intro hleaves
      obtain rfl := Option.some.inj hleaves.head
      refine ⟨rfl, ?_⟩
      -- A second word that was kept does fit.
      cases kept with
      | nil => rfl
      | cons next kept =>
        obtain ⟨more, rfl⟩ := hbegins
        have hover := leaves_cons.mp hleaves next rfl
        rw [length_joined_cons first (by simp)] at hshort
        have hjoined : next.length ≤ (joined (next :: kept)).length := by
          cases kept with
          | nil => simp
          | cons third kept => rw [length_joined_cons next (by simp)]; omega
        omega

section
variable {room : Nat}

theorem popWords_begins : popWords room words <+: words := by
  induction words using popWords.induct room with
  | case1 words h ih =>
    rw [popWords, if_pos h]
    exact ih.trans words.dropLast_prefix
  | case2 words h => exact ⟨[], by rw [popWords, if_neg h, append_nil]⟩

theorem popWords_fits {words : List Text} (h : 1 < (popWords room words).length) :
    (joined (popWords room words)).length ≤ room := by
  induction words using popWords.induct room with
  | case1 words hcut ih =>
    rw [popWords, if_pos hcut] at h ⊢
    exact ih h
  | case2 words hcut =>
    rw [popWords, if_neg hcut] at h ⊢
    exact Nat.not_lt.mp fun hlong => hcut ⟨h, hlong⟩

theorem popWords_cons (first : Text) (rest : List Text) :
    ∃ kept, popWords room (first :: rest) = first :: kept ∧ kept <+: rest ∧
      (kept = [] → ∀ next ∈ rest.head?, room < first.length + 1 + next.length) := by
  generalize hwords : first :: rest = words
  induction words using popWords.induct room generalizing rest with
  | case1 words hcut ih =>
    subst hwords
    rw [popWords, if_pos hcut]
    obtain ⟨hlen, hlong⟩ := hcut
    obtain ⟨next, rest, rfl⟩ := exists_cons_of_ne_nil
      (show rest ≠ [] by intro hrest; subst hrest; simp at hlen)
    obtain ⟨kept, hkept, hbegins, hnext⟩ := ih (next :: rest).dropLast (by simp)
    refine ⟨kept, hkept, hbegins.trans (List.dropLast_prefix _), fun hnil other hother => ?_⟩
    cases hother
    cases rest with
    | nil =>
      rw [show ['-'].intercalate [first, next] = joined [first, next] from rfl,
        length_joined_cons first (by simp), joined_one] at hlong
      exact hlong
    | cons third rest => exact hnext hnil next rfl
  | case2 words hcut =>
    subst hwords
    rw [popWords, if_neg hcut]
    refine ⟨rest, rfl, prefix_rfl, fun hnil next hnext => ?_⟩
    rw [hnil] at hnext
    cases hnext

end

def Made (name : Text) : Prop :=
  ∃ words, words ≠ [] ∧ (∀ word ∈ words, Word word) ∧ name = joined words

theorem Made.shaped {name : Text} (h : Made name) : Shaped name := by
  obtain ⟨words, hne, hwords, rfl⟩ := h
  exact joined_shaped hne hwords

theorem Made.snoc {name : Text} (h : Made name) (hword : Word word) :
    Made (name ++ '-' :: word) := by
  obtain ⟨words, hne, hwords, rfl⟩ := h
  refine ⟨words ++ [word], by simp, ?_, (joined_snoc hne word).symm⟩
  intro other ho
  obtain ho | ho := mem_snoc.mp ho
  · exact hwords other ho
  · exact ho ▸ hword

theorem Made.cons {name word : Text} (h : Made name) (hword : Word word) :
    Made (word ++ '-' :: name) := by
  obtain ⟨words, hne, hwords, rfl⟩ := h
  refine ⟨word :: words, by simp, ?_, (joined_cons word hne).symm⟩
  intro other ho
  obtain rfl | ho := mem_cons.mp ho
  · exact hword
  · exact hwords other ho

theorem Word.made {word : Text} (h : Word word) : Made word :=
  ⟨[word], by simp, by simpa using h, (joined_one word).symm⟩

theorem not_reserved_of_dash {name : Text} (h : '-' ∈ name) : name ∉ RESERVED :=
  fun hname => (RESERVED_word name hname).no_dash h

theorem slug_slugged (text : Text) (drop : Bool) :
    (counted text drop = [] ∧ slug text drop = none) ∨
      ∃ made, Slugged (counted text drop) made ∧ slug text drop = some (joined made) := by
  by_cases hnil : counted text drop = []
  · exact .inl ⟨hnil, by simp [slug, hnil, slugFrom]⟩
  · obtain ⟨made, hmade, heq⟩ := slugFrom_slugged hnil counted_words
    have hne := (joined_shaped hmade.any (hmade.made_words counted_words)).any
    exact .inr ⟨made, hmade, by simp [slug, heq, hne]⟩

theorem Slugged.made {text : Text} {drop : Bool} {words : List Text}
    (h : Slugged (counted text drop) words) : Made (joined words) :=
  ⟨words, h.any, h.made_words counted_words, rfl⟩

theorem splitOn_joined (h : words ≠ []) (hwords : ∀ word ∈ words, Word word) :
    (joined words).splitOn '-' = words := by
  rw [splitOn_eq_splitOnP]
  apply Text.splitOnP_intercalate (by simp) h
  intro word hword c hc
  simpa using plain_ne_dash ((hwords word hword).2 c hc)

theorem taskTitle_slugged (room : Nat) (title : Text) :
    (counted (taskText title) true = [] ∧ taskTitle room title = none) ∨
      ∃ made, Slugged (counted (taskText title) true) made ∧
        taskTitle room title = if (joined (popWords room made)).length ≤ room then
          some (joined (popWords room made)) else none := by
  obtain ⟨hnil, hnone⟩ | ⟨made, hmade, hsome⟩ := slug_slugged (taskText title) true
  · exact .inl ⟨hnil, by simp [taskTitle, slugify, hnone]⟩
  · refine .inr ⟨made, hmade, ?_⟩
    have hsplit := splitOn_joined hmade.any (hmade.made_words counted_words)
    simp only [taskTitle, slugify, hsome, bind_some, hsplit]
    rfl

theorem taskTitle_made {room : Nat} {title kept : Text} (h : taskTitle room title = some kept) :
    Made kept ∧ kept.length ≤ room := by
  obtain ⟨-, hnone⟩ | ⟨made, hmade, hsome⟩ := taskTitle_slugged room title
  · rw [hnone] at h
    cases h
  · rw [hsome] at h
    split at h
    · rename_i hfits
      cases h
      obtain ⟨first, rest, rfl⟩ := exists_cons_of_ne_nil hmade.any
      refine ⟨⟨popWords room (first :: rest), ?_, ?_, rfl⟩, hfits⟩
      · obtain ⟨kept, hkept, -⟩ := @popWords_cons room first rest
        simp [hkept]
      · intro word hword
        exact hmade.made_words counted_words word (popWords_begins.subset hword)
    · cases h

theorem taskTitle_reserved {room : Nat} (hroom : 4 ≤ room) (hless : room < MAX_LEN) {title word : Text}
    (hword : word ∈ RESERVED) :
    taskTitle room title = some word ↔ Leaves room word (counted (taskText title) true) := by
  have hlen := RESERVED_length word hword
  obtain ⟨hnil, hnone⟩ | ⟨made, hmade, hsome⟩ := taskTitle_slugged room title
  · simp [hnil, hnone, Leaves]
  rw [hsome]
  generalize counted (taskText title) true = words at hmade
  cases hmade with
  | @cut first rest hlong =>
    obtain ⟨kept, hkept, hbegins, -⟩ := @popWords_cons room (first.take MAX_LEN) []
    obtain rfl := prefix_nil.mp hbegins
    have hcut : ¬ (first.take MAX_LEN).length ≤ room := by
      rw [length_take]
      omega
    constructor
    · intro h
      rw [hkept, joined_one, if_neg hcut] at h
      cases h
    · intro hleaves
      cases hleaves.head
      simp only [MAX_LEN] at hlong
      omega
  | @whole first kept rest hshort hbegins hnext =>
    obtain ⟨kept', hkept, hbegins', hnext'⟩ := @popWords_cons room first kept
    rw [hkept]
    constructor
    · intro h
      split at h
      · obtain ⟨rfl, rfl⟩ := (joined_eq_reserved hword).mp (Option.some.inj h)
        refine leaves_cons.mpr fun next hin => ?_
        cases kept with
        | nil => exact Nat.lt_trans hless (hnext rfl next hin)
        | cons second kept =>
          obtain ⟨more, rfl⟩ := hbegins
          exact hnext' rfl next hin
      · cases h
    · intro hleaves
      obtain rfl := Option.some.inj hleaves.head
      have halone : kept' = [] := by
        cases kept' with
        | nil => rfl
        | cons next kept' =>
          -- Both words stayed, so they fit.
          obtain ⟨more, rfl⟩ := hbegins'.trans hbegins
          have hover := leaves_cons.mp hleaves next rfl
          have hfits := @popWords_fits room (first :: kept) (by rw [hkept]; simp)
          rw [hkept, length_joined_cons first (by simp)] at hfits
          have hjoined : next.length ≤ (joined (next :: kept')).length := by
            cases kept' with
            | nil => simp
            | cons third kept' => rw [length_joined_cons next (by simp)]; omega
          omega
      subst halone
      rw [joined_one, if_pos (by omega)]

/-- What holds of a name: it is made of words, no longer than allowed, and a reserved word only where
    no more is left of what was asked for. -/
structure Named (asked : Asked) : Prop where
  made : Made asked.base
  short : asked.base.length ≤ MAX_LEN
  reserved : ∀ word ∈ RESERVED, asked.base = word ↔ asked.Leaves word

theorem STATIONS_made : ∀ station ∈ STATIONS, Made station := by
  have hwords : ∀ station ∈ STATIONS, ∀ word ∈ station.splitOn '-', Word word := by decide +kernel
  intro station hstation
  refine ⟨station.splitOn '-', ?_, hwords station hstation, ?_⟩
  · rw [splitOn_eq_splitOnP]
    exact List.splitOnP_ne_nil _ _
  · exact (intercalate_splitOn '-').symm

theorem STATIONS_safe : ∀ station ∈ STATIONS, station.length ≤ MAX_LEN ∧ station ∉ RESERVED := by
  decide +kernel

theorem station_mem (seed : Nat) : STATIONS.getD (seed % STATIONS.length) [] ∈ STATIONS := by
  have hlt : seed % STATIONS.length < STATIONS.length := Nat.mod_lt _ (by decide)
  rw [List.getD_eq_getElem?_getD, List.getElem?_eq_getElem hlt]
  exact List.getElem_mem hlt

theorem slug_or_station (text : Text) (drop : Bool) {station : Text} (hstation : station ∈ STATIONS) :
    Made ((slug text drop).getD station) ∧ ((slug text drop).getD station).length ≤ MAX_LEN ∧
      ∀ word ∈ RESERVED, (slug text drop).getD station = word ↔
        Leaves MAX_LEN word (counted text drop) := by
  obtain ⟨hnil, hnone⟩ | ⟨made, hmade, hsome⟩ := slug_slugged text drop
  · obtain ⟨hshort, hnot⟩ := STATIONS_safe station hstation
    rw [hnone, hnil, getD_none]
    exact ⟨STATIONS_made station hstation, hshort,
      fun word hword => ⟨fun heq => absurd (heq ▸ hword) hnot, False.elim⟩⟩
  · rw [hsome, getD_some]
    exact ⟨hmade.made, hmade.short, fun word hword => hmade.reserved hword⟩

theorem prompt_named (text : Text) (seed : Nat) : Named (.prompt text seed) := by
  obtain ⟨hmade, hshort, hreserved⟩ := slug_or_station (taskText text) true (station_mem seed)
  exact ⟨hmade, hshort, hreserved⟩

theorem project_named (name : Text) : Named (.project name) := by
  have hstation : baseName [] 0 ∈ STATIONS := by decide +kernel
  obtain ⟨hmade, hshort, hreserved⟩ := slug_or_station name false hstation
  exact ⟨hmade, hshort, hreserved⟩

theorem taskNumber_word {key : Text} (h : taskNumber key ≠ []) : Word (taskNumber key) := by
  refine ⟨h, fun c hc => ?_⟩
  obtain ⟨d, hd, rfl⟩ := mem_map.mp hc
  exact toLower_plain (mem_filter.mp hd).2

theorem task_named {key title : Text} (h : (Asked.task key title).Fits) :
    Named (.task key title) := by
  have hfits : (key.filter Char.isAlphanum).length ≤ 20 := h
  have hlen : (taskNumber key).length ≤ 20 := by
    simpa [taskNumber, lowered] using hfits
  have hbase : (Asked.task key title).base = workspaceName key title := rfl
  by_cases hnumber : taskNumber key = []
  · have hroom : MAX_LEN - ((taskNumber key).length + 1) = MAX_LEN - 1 := by rw [hnumber]; rfl
    have hword : Word "task".toList := by decide +kernel
    have hreserved := fun word (hword : word ∈ RESERVED) =>
      @taskTitle_reserved (MAX_LEN - 1) (by decide) (by decide) title word hword
    cases htitle : taskTitle (MAX_LEN - 1) title with
    | none =>
      have heq : (Asked.task key title).base = "task".toList := by
        rw [hbase, workspaceName, hroom, hnumber, htitle]
      refine ⟨heq ▸ hword.made, by rw [heq]; decide, fun word hin => ?_⟩
      have hnot : "task".toList ∉ RESERVED := by decide +kernel
      rw [heq]
      constructor
      · intro heq'
        exact absurd (heq' ▸ hin) hnot
      · rintro ⟨-, hleaves⟩
        rw [← hreserved word hin, htitle] at hleaves
        cases hleaves
    | some kept =>
      have heq : (Asked.task key title).base = kept := by
        rw [hbase, workspaceName, hroom, hnumber, htitle]
      obtain ⟨hmade, hshort⟩ := taskTitle_made htitle
      refine ⟨heq ▸ hmade, heq ▸ Nat.le_trans hshort (Nat.sub_le _ _), fun word hin => ?_⟩
      rw [heq, ← Option.some_inj, ← htitle, hreserved word hin]
      exact (and_iff_right hnumber).symm
  · have hword := taskNumber_word hnumber
    -- With a number before it, a name has a dash in it.
    have hnone : ∀ word ∈ RESERVED, '-' ∈ (Asked.task key title).base →
        ((Asked.task key title).base = word ↔ (Asked.task key title).Leaves word) := by
      intro word hin hdash
      constructor
      · intro heq
        exact absurd (heq ▸ hin) (not_reserved_of_dash hdash)
      · intro hleaves
        exact absurd hleaves.1 hnumber
    cases htitle : taskTitle (MAX_LEN - ((taskNumber key).length + 1)) title with
    | none =>
      have heq : (Asked.task key title).base = "task".toList ++ '-' :: taskNumber key := by
        rw [hbase, workspaceName, htitle]
        cases hcase : taskNumber key with
        | nil => exact absurd hcase hnumber
        | cons c number => rfl
      have htask : Word "task".toList := by decide +kernel
      refine ⟨heq ▸ htask.made.snoc hword, ?_, fun word hin => hnone word hin (by simp [heq])⟩
      rw [heq, length_append, length_cons]
      have : "task".toList.length = 4 := by decide
      simp only [MAX_LEN]
      omega
    | some kept =>
      have heq : (Asked.task key title).base = taskNumber key ++ '-' :: kept := by
        rw [hbase, workspaceName, htitle]
        cases hcase : taskNumber key with
        | nil => exact absurd hcase hnumber
        | cons c number => rfl
      obtain ⟨hmade, hshort⟩ := taskTitle_made htitle
      refine ⟨heq ▸ hmade.cons hword, ?_, fun word hin => hnone word hin (by simp [heq])⟩
      rw [heq, length_append, length_cons]
      simp only [MAX_LEN] at hshort ⊢
      omega

theorem Asked.named {asked : Asked} (h : asked.Fits) : Named asked := by
  cases asked with
  | prompt text seed => exact prompt_named text seed
  | project name => exact project_named name
  | task key title => exact task_named h

theorem number_word (n : Nat) : Word (number n) :=
  ⟨Nat.toDigits_ne_nil, fun c hc => by
    simp [isPlain, Nat.isDigit_of_mem_toDigits (by decide) (by decide) hc]⟩

theorem number_inj {m n : Nat} (h : number m = number n) : m = n := by
  have hm : Nat.ofDigitChars 10 (number m) 0 = m := Nat.ofDigitChars_ten_toDigits
  have hn : Nat.ofDigitChars 10 (number n) 0 = n := Nat.ofDigitChars_ten_toDigits
  rw [← hm, ← hn, h]

section
variable {base : Text} {taken : Text → Bool}

theorem uniqueFrom_some {fuel n : Nat} {name : Text}
    (h : uniqueFrom base taken fuel n = some name) :
    taken name = false ∧ ∃ m, name = base ++ '-' :: number m := by
  induction fuel generalizing n with
  | zero => cases h
  | succ fuel ih =>
    dsimp only [uniqueFrom] at h
    split at h
    · exact ih h
    · rename_i hfree
      cases h
      exact ⟨by simpa using hfree, n, rfl⟩

theorem uniqueFrom_more {fuel n : Nat} {name : Text}
    (h : uniqueFrom base taken fuel n = some name) (more : Nat) :
    uniqueFrom base taken (fuel + more) n = some name := by
  induction fuel generalizing n with
  | zero => cases h
  | succ fuel ih =>
    rw [Nat.succ_add]
    dsimp only [uniqueFrom] at h ⊢
    split at h
    · rename_i htaken
      rw [if_pos htaken]
      exact ih h
    · rename_i hfree
      rw [if_neg hfree]
      exact h

theorem uniqueFrom_none {fuel n : Nat} (h : uniqueFrom base taken fuel n = none) :
    ∀ m, n ≤ m → m < n + fuel → taken (base ++ '-' :: number m) = true := by
  induction fuel generalizing n with
  | zero => omega
  | succ fuel ih =>
    dsimp only [uniqueFrom] at h
    split at h
    · rename_i htaken
      intro m hle hlt
      obtain rfl | hless := Nat.eq_or_lt_of_le hle
      · exact htaken
      · exact ih h m hless (by omega)
    · cases h

theorem uniqueFrom_finds {names : List Text} (hnames : ∀ name, taken name = true → name ∈ names)
    {fuel : Nat} (hfuel : names.length < fuel) (n : Nat) :
    ∃ name, uniqueFrom base taken fuel n = some name := by
  cases h : uniqueFrom base taken fuel n with
  | some name => exact ⟨name, rfl⟩
  | none =>
    have hall := uniqueFrom_none h
    have hnodup : ((List.range' n fuel).map fun m => base ++ '-' :: number m).Nodup := by
      apply List.Nodup.map _ List.nodup_range'
      intro m m' heq
      exact number_inj (List.cons_inj_right _ |>.mp (append_cancel_left heq))
    have hsub : ((List.range' n fuel).map fun m => base ++ '-' :: number m) ⊆ names := by
      intro name hname
      obtain ⟨m, hm, rfl⟩ := mem_map.mp hname
      obtain ⟨hle, hlt⟩ := List.mem_range'_1.mp hm
      exact hnames _ (hall m hle hlt)
    have hcount := (List.subperm_of_subset hnodup hsub).length_le
    rw [length_map, List.length_range'] at hcount
    omega

end

/-- **A workspace's name** is found whatever is taken, and it is free and safe, unless nothing but a
    reserved word is left of what was asked for, and that is free. -/
theorem name_safe {asked : Asked} (hfits : asked.Fits) (taken : Text → Bool) {names : List Text}
    (hnames : ∀ name, taken name = true → name ∈ names) :
    ∃ name, (∀ more, unique (names.length + 1 + more) asked.base taken = some name) ∧
      (Safe taken asked.base name ↔
        ∀ word ∈ RESERVED, asked.Leaves word → taken word = true) := by
  have hnamed := Asked.named hfits
  have hshaped := hnamed.made.shaped
  have hlen : 1 ≤ asked.base.length ∧ asked.base.length ≤ MAX_LEN :=
    ⟨length_pos_of_ne_nil hshaped.any, hnamed.short⟩
  by_cases hbase : taken asked.base = true
  · obtain ⟨name, hname⟩ := uniqueFrom_finds hnames (Nat.lt_succ_self names.length) 2
    refine ⟨name, fun more => ?_, fun _ word hword hleaves => ?_, fun _ => ?_⟩
    · rw [unique, if_pos hbase]
      exact uniqueFrom_more hname more
    · rw [← (hnamed.reserved word hword).mpr hleaves]
      exact hbase
    · obtain ⟨hfree, m, rfl⟩ := uniqueFrom_some hname
      exact ⟨hfree, hlen, .inr ⟨m, rfl⟩, (hnamed.made.snoc (number_word m)).shaped,
        not_reserved_of_dash (by simp)⟩
  · refine ⟨asked.base, fun more => by rw [unique, if_neg hbase], fun hsafe word hword hleaves => ?_,
      fun hleft => ?_⟩
    · have heq := (hnamed.reserved word hword).mpr hleaves
      exact absurd (heq ▸ hword) hsafe.allowed
    · refine ⟨by simpa using hbase, hlen, .inl rfl, hshaped, fun hin => ?_⟩
      exact hbase (hleft _ hin ((hnamed.reserved _ hin).mp rfl))

theorem name_safe_login :
    ∃ name, (∀ more, unique (["fix-login-bug".toList].length + 1 + more)
        (Asked.prompt "Please fix the login bug".toList 0).base
        (["fix-login-bug".toList].contains ·) = some name) ∧
      (Safe (["fix-login-bug".toList].contains ·) (Asked.prompt "Please fix the login bug".toList 0).base
          name ↔
        ∀ word ∈ RESERVED, (Asked.prompt "Please fix the login bug".toList 0).Leaves word →
          ["fix-login-bug".toList].contains word = true) :=
  @name_safe (.prompt "Please fix the login bug".toList 0) trivial _ ["fix-login-bug".toList]
    fun name h => by simpa using h

/-- A prompt of one word that Windows keeps for itself. -/
theorem con_reserved :
    (Asked.prompt "con".toList 0).Fits ∧
      unique 1 (Asked.prompt "con".toList 0).base (fun _ => false) = some "con".toList ∧
      ¬ Safe (fun _ => false) (Asked.prompt "con".toList 0).base "con".toList := by
  refine ⟨trivial, by decide +kernel, fun h => ?_⟩
  exact h.allowed (by decide +kernel)

end Yardsort.Workspaces.Naming
