import Mathlib
import Yardsort.Lib.Snoc

/- Texts as lists of characters, and what the parsers here do with them: cutting
   at the first occurrence of a pattern, trimming, offsets in UTF-8 bytes. -/
namespace Yardsort.Lib

abbrev Text := List Char

namespace Text

def byteLen (text : Text) : Nat := (text.map Char.utf8Size).sum

def takeBytes : Nat → Text → Text
  | _, [] => []
  | n, c :: cs => if n < c.utf8Size then [] else c :: takeBytes (n - c.utf8Size) cs

def cut (pat : Text) : Text → Option (Text × Text)
  | [] => if pat = [] then some ([], []) else none
  | c :: cs =>
    if pat <+: c :: cs then some ([], (c :: cs).drop pat.length)
    else (cut pat cs).map (fun (before, after) => (c :: before, after))

def isWhitespace (c : Char) : Bool :=
  let n := c.toNat
  (9 ≤ n && n ≤ 13) || n = 0x20 || n = 0x85 || n = 0xA0 || n = 0x1680 ||
    (0x2000 ≤ n && n ≤ 0x200A) || n = 0x2028 || n = 0x2029 || n = 0x202F || n = 0x205F ||
    n = 0x3000

def trimStart (text : Text) : Text := text.dropWhile isWhitespace

def trim (text : Text) : Text := (trimStart (trimStart text).reverse).reverse

def firstLine (text : Text) : Text :=
  let line := text.takeWhile (· ≠ '\n')
  if line.length < text.length ∧ line.getLast? = some '\r' then line.dropLast else line

theorem cut_eq {pat text before after : Text} (h : cut pat text = some (before, after)) :
    text = before ++ pat ++ after := by
  induction text generalizing before after with
  | nil =>
    rw [cut] at h
    split at h
    · rename_i hp
      cases h
      rw [hp]
      rfl
    · cases h
  | cons c cs ih =>
    rw [cut] at h
    split at h
    · rename_i hp
      cases h
      exact (List.prefix_iff_eq_append.mp hp).symm
    · obtain ⟨⟨b, a⟩, hc, he⟩ := map_eq_some_iff.mp h
      cases he
      rw [ih hc]
      rfl

theorem not_infix_of_cut_none {pat text : Text} (h : cut pat text = none) :
    ¬ pat <:+: text := by
  induction text with
  | nil =>
    intro hin
    rw [cut, if_pos (List.eq_nil_of_infix_nil hin)] at h
    cases h
  | cons c text ih =>
    rw [cut] at h
    split at h
    · cases h
    · rename_i hno
      rw [infix_cons_iff]
      exact not_or.mpr ⟨hno, ih (map_eq_none_iff.mp h)⟩

theorem cut_char_none {c : Char} {text : Text} : cut [c] text = none ↔ c ∉ text := by
  induction text with
  | nil => simp [cut]
  | cons d text ih => by_cases h : c = d <;> simp [cut, h, ih]

theorem cut_char {c : Char} {before after : Text} (h : c ∉ before) :
    cut [c] (before ++ c :: after) = some (before, after) := by
  induction before with
  | nil => simp [cut]
  | cons d before ih =>
    obtain ⟨hd, hbefore⟩ := not_or.mp (mt mem_cons.mpr h)
    simp [cut, hd, ih hbefore]

theorem cut_char_some {c : Char} {text before after : Text}
    (h : cut [c] text = some (before, after)) : c ∉ before ∧ text = before ++ c :: after := by
  have htext := cut_eq h
  rw [append_assoc, singleton_append] at htext
  refine ⟨?_, htext⟩
  induction text generalizing before with
  | nil => simp at htext
  | cons d text ih =>
    by_cases hd : c = d
    · simp only [cut, hd, cons_prefix_cons, nil_prefix, and_self, if_true,
        Option.some.injEq, Prod.mk.injEq] at h
      simp [← h.1]
    · simp only [cut, cons_prefix_cons, hd, false_and, if_false, map_eq_some_iff,
        Prod.mk.injEq] at h
      obtain ⟨⟨b, a⟩, hcut, rfl, rfl⟩ := h
      rw [cons_append, List.cons.injEq] at htext
      simp [hd, ih hcut htext.2]

theorem length_after_cut {pat text before after : Text} (h : cut pat text = some (before, after)) :
    after.length + pat.length + before.length = text.length := by
  rw [cut_eq h, length_append, length_append]
  omega

theorem splitOnP_no_sep (f : Char → Bool) (text : Text) :
    ∀ part ∈ text.splitOnP f, ∀ c ∈ part, f c = false := by
  induction text with
  | nil => simp
  | cons c text ih =>
    rw [splitOnP_cons_eq_if_modifyHead]
    split
    · intro part hpart
      obtain rfl | hpart := mem_cons.mp hpart
      · simp
      · exact ih part hpart
    · rename_i hc
      obtain ⟨first, rest, hsplit⟩ := exists_cons_of_ne_nil (List.splitOnP_ne_nil f text)
      rw [hsplit] at ih ⊢
      intro part hpart
      obtain rfl | hpart := mem_cons.mp hpart
      · intro d hd
        obtain rfl | hd := mem_cons.mp hd
        · simpa using hc
        · exact ih first mem_cons_self d hd
      · exact ih part (mem_cons_of_mem _ hpart)

theorem not_mem_splitOn {sep : Char} {text : Text} : ∀ piece ∈ text.splitOn sep, sep ∉ piece := by
  intro piece hpiece hmem
  rw [splitOn_eq_splitOnP] at hpiece
  simpa using splitOnP_no_sep (· == sep) text piece hpiece sep hmem

theorem splitOnP_intercalate {f : Char → Bool} {sep : Char} (hsep : f sep = true)
    {pieces : List Text} (hne : pieces ≠ [])
    (hpieces : ∀ piece ∈ pieces, ∀ c ∈ piece, f c = false) :
    ([sep].intercalate pieces).splitOnP f = pieces := by
  induction pieces with
  | nil => exact absurd rfl hne
  | cons piece pieces ih =>
    have hpiece := hpieces piece mem_cons_self
    cases pieces with
    | nil => rw [intercalate_singleton, List.splitOnP_eq_singleton hpiece]
    | cons next pieces =>
      have hrest := ih (by simp) fun other ho => hpieces other (mem_cons_of_mem _ ho)
      rw [intercalate_cons_cons, append_assoc, singleton_append,
        splitOnP_append_cons_of_forall_mem hpiece sep hsep, hrest]

theorem intercalate_snoc {α : Type} (sep : α) {pieces : List (List α)} (h : pieces ≠ [])
    (last : List α) :
    [sep].intercalate (pieces ++ [last]) = [sep].intercalate pieces ++ sep :: last := by
  induction pieces with
  | nil => exact absurd rfl h
  | cons first pieces ih =>
    by_cases hpieces : pieces = []
    · subst hpieces
      simp [intercalate_cons_cons]
    · rw [cons_append, List.intercalate_cons_of_ne_nil (by simp), ih hpieces,
        List.intercalate_cons_of_ne_nil hpieces, append_assoc, append_assoc,
        append_assoc]

end Text

end Yardsort.Lib
