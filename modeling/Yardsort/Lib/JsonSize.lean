import Yardsort.Lib.Json

/- How long the texts of `Lib/Json` are at most, and at least.

   A string takes two quotes and at most six bytes a character (a control character is written
   as `\u00xx`); without control characters at most four a character, and twice its own bytes.
   An object or an array is as long as its parts and what is between them. -/
namespace Yardsort.Lib

theorem utf8_eq (s : String) : utf8 s = s.toList.flatMap String.utf8EncodeChar := by
  have h : s.toByteArray = s.toList.utf8Encode := by
    rw [← String.toByteArray_ofList, String.ofList_toList]
  rw [utf8, h, List.utf8Encode, List.toList_data_toByteArray]

theorem utf8EncodeChar_high {c : Char} (hc : 0x7f < c.val.toNat) {b : UInt8}
    (hb : b ∈ String.utf8EncodeChar c) : 0x80 ≤ b := by
  have hof : ∀ k m n : Nat, 0x80 ≤ k → m % n + k < 256 → 0x80 ≤ UInt8.ofNat (m % n + k) := by
    intro k m n hk hlt
    rw [UInt8.le_iff_toNat_le, UInt8.toNat_ofNat_of_lt' hlt]
    show 128 ≤ _
    omega
  unfold String.utf8EncodeChar at hb
  rw [if_neg (Nat.not_le.mpr hc)] at hb
  split at hb
  · simp only [mem_cons, not_mem_nil, or_false] at hb
    obtain rfl | rfl := hb <;> exact hof _ _ _ (by decide) (by omega)
  · split at hb
    · simp only [mem_cons, not_mem_nil, or_false] at hb
      obtain rfl | rfl | rfl := hb <;> exact hof _ _ _ (by decide) (by omega)
    · simp only [mem_cons, not_mem_nil, or_false] at hb
      obtain rfl | rfl | rfl | rfl := hb <;> exact hof _ _ _ (by decide) (by omega)

theorem eq_of_mem_utf8EncodeChar {c : Char} {b : UInt8} (hb : b < 0x80)
    (h : b ∈ String.utf8EncodeChar c) : c.val.toNat = b.toNat := by
  by_cases hhigh : 0x7f < c.val.toNat
  · exact absurd (utf8EncodeChar_high hhigh h) (UInt8.not_le.mpr hb)
  · unfold String.utf8EncodeChar at h
    rw [if_pos (Nat.not_lt.mp hhigh), mem_singleton] at h
    rw [h, UInt8.toNat_ofNat_of_lt' (by show _ < 256; omega)]

namespace Json

def int (n : Int) : Bytes := utf8 (toString n)

def escapeChar (c : Char) : Bytes := (String.utf8EncodeChar c).flatMap escape

theorem string_eq (s : String) : string s = [0x22] ++ s.toList.flatMap escapeChar ++ [0x22] := by
  rw [string, utf8_eq, List.flatMap_assoc]
  rfl

theorem escape_high {b : UInt8} (hb : 0x80 ≤ b) : escape b = [b] := by
  have hne : ∀ k : UInt8, k < 0x80 → b ≠ k := by
    intro k hk heq
    rw [heq] at hb
    exact absurd hb (UInt8.not_le.mpr hk)
  have hlt : ¬ b < 0x20 := UInt8.not_lt.mpr (UInt8.le_trans (by decide) hb)
  rw [escape, if_neg (hne _ (by decide)), if_neg (hne _ (by decide)), if_neg (hne _ (by decide)),
    if_neg (hne _ (by decide)), if_neg (hne _ (by decide)), if_neg (hne _ (by decide)),
    if_neg (hne _ (by decide)), if_neg hlt]

theorem escapeChar_high {c : Char} (hc : 0x7f < c.val.toNat) :
    escapeChar c = String.utf8EncodeChar c := by
  have hall : ∀ bytes : Bytes, (∀ b ∈ bytes, 0x80 ≤ b) → bytes.flatMap escape = bytes := by
    intro bytes h
    induction bytes with
    | nil => rfl
    | cons b bytes ih =>
      rw [flatMap_cons, escape_high (h b (mem_cons_self ..)),
        ih fun b hb => h b (mem_cons_of_mem _ hb)]
      rfl
  exact hall _ fun b hb => utf8EncodeChar_high hc hb

theorem escapeChar_low {c : Char} (hc : c.val.toNat ≤ 0x7f) :
    escapeChar c = escape (UInt8.ofNat c.val.toNat) := by
  have h : String.utf8EncodeChar c = [UInt8.ofNat c.val.toNat] := by
    unfold String.utf8EncodeChar
    rw [if_pos hc]
  rw [escapeChar, h, flatMap_singleton]

theorem utf8Size_le (c : Char) : (String.utf8EncodeChar c).length ≤ 4 := by
  unfold String.utf8EncodeChar
  dsimp only
  repeat' split
  all_goals simp only [length_cons, length_nil]; omega

theorem escape_printed {b : UInt8} (hb : 0x20 ≤ b) : (escape b).length ≤ 2 := by
  have hlt : ¬ b < 0x20 := UInt8.not_lt.mpr hb
  unfold escape
  repeat' split
  all_goals first | contradiction | exact Nat.le_refl _ | exact Nat.le_succ _

theorem escapeChar_printed {c : Char} (hc : 0x20 ≤ c.val.toNat) :
    (escapeChar c).length ≤ 4 ∧ (escapeChar c).length ≤ 2 * (String.utf8EncodeChar c).length := by
  obtain hlow | hhigh := Nat.lt_or_ge 0x7f c.val.toNat
  · rw [escapeChar_high hlow]
    exact ⟨utf8Size_le c, by omega⟩
  · have hone : (String.utf8EncodeChar c).length = 1 := by
      unfold String.utf8EncodeChar
      rw [if_pos hhigh]
      rfl
    have hb : (0x20 : UInt8) ≤ UInt8.ofNat c.val.toNat := by
      rw [UInt8.le_iff_toNat_le, UInt8.toNat_ofNat_of_lt' (Nat.lt_of_le_of_lt hhigh (by decide))]
      exact hc
    have := escape_printed hb
    rw [escapeChar_low hhigh, hone]
    omega

theorem flatMap_length_le {α : Type} {f : α → Bytes} {most : Nat} {items : List α}
    (h : ∀ a ∈ items, (f a).length ≤ most) : (items.flatMap f).length ≤ most * items.length := by
  induction items with
  | nil => exact Nat.zero_le _
  | cons a items ih =>
    rw [flatMap_cons, length_append, length_cons, Nat.mul_add, Nat.mul_one]
    have ha := h a (mem_cons_self ..)
    have := ih fun b hb => h b (mem_cons_of_mem _ hb)
    omega

theorem string_printed_le {s : String} (h : ∀ c ∈ s.toList, 0x20 ≤ c.val.toNat) :
    (string s).length ≤ 4 * s.toList.length + 2 := by
  have h : (s.toList.flatMap escapeChar).length ≤ 4 * s.toList.length :=
    flatMap_length_le fun c hc => (escapeChar_printed (h c hc)).1
  rw [string_eq, length_append, length_append, length_singleton]
  omega

theorem string_printed_bytes_le {s : String} (h : ∀ c ∈ s.toList, 0x20 ≤ c.val.toNat) :
    (string s).length ≤ 2 * (utf8 s).length + 2 := by
  have hall : ∀ text : List Char, (∀ c ∈ text, 0x20 ≤ c.val.toNat) →
      (text.flatMap escapeChar).length ≤ 2 * (text.flatMap String.utf8EncodeChar).length := by
    intro text htext
    induction text with
    | nil => exact Nat.le_refl _
    | cons c text ih =>
      rw [flatMap_cons, flatMap_cons, length_append, length_append]
      have hc := (escapeChar_printed (htext c (mem_cons_self ..))).2
      have := ih fun d hd => htext d (mem_cons_of_mem _ hd)
      omega
  have := hall s.toList h
  rw [string_eq, utf8_eq, length_append, length_append, length_singleton]
  omega

theorem string_plain_length {s : String} (h : ∀ b ∈ utf8 s, escape b = [b]) :
    (string s).length = (utf8 s).length + 2 := by
  have hall : ∀ bytes : Bytes, (∀ b ∈ bytes, escape b = [b]) → bytes.flatMap escape = bytes := by
    intro bytes hbytes
    induction bytes with
    | nil => rfl
    | cons b bytes ih =>
      rw [flatMap_cons, hbytes b (mem_cons_self ..),
        ih fun d hd => hbytes d (mem_cons_of_mem _ hd)]
      rfl
  rw [string, hall _ h, length_append, length_append, length_singleton]
  omega

theorem ascii_length {text : List Char} (h : ∀ c ∈ text, c.val.toNat ≤ 0x7f) :
    (text.flatMap String.utf8EncodeChar).length = text.length := by
  induction text with
  | nil => rfl
  | cons c text ih =>
    have hone : (String.utf8EncodeChar c).length = 1 := by
      unfold String.utf8EncodeChar
      rw [if_pos (h c (mem_cons_self ..))]
      rfl
    rw [flatMap_cons, length_append, hone, length_cons,
      ih fun d hd => h d (mem_cons_of_mem _ hd)]
    omega

theorem digit_ascii {c : Char} (h : c.isDigit = true) : c.val.toNat ≤ 0x7f := by
  have h := Char.isDigit_iff_toNat.mp h
  exact Nat.le_trans h.2 (by decide)

theorem number_length_le {n k : Nat} (hk : 0 < k) (h : n < 10 ^ k) : (number n).length ≤ k := by
  rw [number, utf8_eq, Nat.toString_eq_ofList_toDigits, String.toList_ofList,
    ascii_length fun c hc => digit_ascii (Nat.isDigit_of_mem_toDigits (by decide) (by decide) hc)]
  exact (Nat.length_toDigits_le_iff (by decide) hk).mpr h

theorem int_length_le {n : Int} {k : Nat} (hk : 0 < k) (h : n.natAbs < 10 ^ k) :
    (int n).length ≤ k + 1 := by
  cases n with
  | ofNat n =>
    exact Nat.le_succ_of_le (number_length_le hk h)
  | negSucc n =>
    have hdigits := number_length_le (n := n + 1) hk h
    have heq : int (Int.negSucc n) = [0x2d] ++ number (n + 1) := by
      show utf8 ("-" ++ toString (n + 1)) = _
      rw [utf8_eq, String.toList_append, flatMap_append, ← utf8_eq, ← utf8_eq]
      rfl
    rw [heq, length_append, length_singleton]
    omega

theorem bool_length_le (b : Bool) : (bool b).length ≤ 5 := by
  cases b <;> decide +kernel

theorem option_length_le {α : Type} {write : α → Bytes} {most : Nat} {a : Option α}
    (hmost : 4 ≤ most) (h : ∀ b ∈ a, (write b).length ≤ most) :
    (option write a).length ≤ most := by
  cases a with
  | none => exact Nat.le_trans (show (null).length ≤ 4 by decide +kernel) hmost
  | some b => exact h b rfl

theorem intercalate_length_eq (sep : UInt8) (items : List Bytes) :
    ([sep].intercalate items).length = (items.map List.length).sum + (items.length - 1) := by
  induction items with
  | nil => rfl
  | cons first items ih =>
    cases items with
    | nil => simp
    | cons second items =>
      rw [intercalate_cons_cons, length_append, length_append, ih]
      simp only [map_cons, sum_cons, length_cons, length_nil]
      omega

theorem array_length (items : List Bytes) :
    (array items).length = (items.map List.length).sum + (items.length - 1) + 2 := by
  rw [array, length_append, length_append, intercalate_length_eq,
    length_singleton, length_singleton]
  omega

def keysLength (keys : List String) : Nat := (keys.map (fun key => (string key).length + 2)).sum

theorem object_parts_le (fields : List (String × Bytes)) :
    (object fields).length ≤
      keysLength (fields.map (·.1)) + (fields.map (·.2.length)).sum + 2 := by
  have h := object_length_le fields
  have hsum : (fields.map (fun f => (string f.1).length + f.2.length + 2)).sum =
      keysLength (fields.map (·.1)) + (fields.map (·.2.length)).sum := by
    clear h
    induction fields with
    | nil => rfl
    | cons f fields ih =>
      rw [map_cons, map_cons, map_cons, sum_cons, sum_cons, ih, keysLength,
        keysLength, map_cons, sum_cons]
      omega
  omega

theorem object_within {fields : List (String × Bytes)} {most : List Nat}
    (h : List.Forall₂ (fun f n => f.2.length ≤ n) fields most) :
    (object fields).length ≤ keysLength (fields.map (·.1)) + most.sum + 2 := by
  have hsum : (fields.map (·.2.length)).sum ≤ most.sum := by
    induction h with
    | nil => exact Nat.le_refl _
    | cons hf _ ih =>
      rw [map_cons, sum_cons, sum_cons]
      omega
  have := object_parts_le fields
  omega

end Json
end Yardsort.Lib
