import Yardsort.Lib.Bytes

/- JSON texts as a compact writer writes them: no blanks, a string's own bytes kept but for
   `"`, `\` and the control characters.

   A value is the bytes of its text. What is said here of texts is how long they are:
   writing a string never makes it shorter (`string_length`), and a field of an object is
   part of the object's text (`object_length`). -/
namespace Yardsort.Lib.Json

def hex (n : Nat) : UInt8 := if n < 10 then UInt8.ofNat (0x30 + n) else UInt8.ofNat (0x57 + n)

def escape (b : UInt8) : Bytes :=
  if b = 0x22 then [0x5c, 0x22]
  else if b = 0x5c then [0x5c, 0x5c]
  else if b = 0x08 then [0x5c, 0x62]
  else if b = 0x09 then [0x5c, 0x74]
  else if b = 0x0a then [0x5c, 0x6e]
  else if b = 0x0c then [0x5c, 0x66]
  else if b = 0x0d then [0x5c, 0x72]
  else if b < 0x20 then [0x5c, 0x75, 0x30, 0x30, hex (b.toNat / 16), hex (b.toNat % 16)]
  else [b]

def string (s : String) : Bytes := [0x22] ++ (utf8 s).flatMap escape ++ [0x22]

def number (n : Nat) : Bytes := utf8 (toString n)

def bool (b : Bool) : Bytes := utf8 (if b then "true" else "false")

def null : Bytes := utf8 "null"

def option {α : Type} (write : α → Bytes) : Option α → Bytes
  | none => null
  | some a => write a

def array (items : List Bytes) : Bytes := [0x5b] ++ [0x2c].intercalate items ++ [0x5d]

def field (key : String) (value : Bytes) : Bytes := string key ++ [0x3a] ++ value

def object (fields : List (String × Bytes)) : Bytes :=
  [0x7b] ++ [0x2c].intercalate (fields.map (fun f => field f.1 f.2)) ++ [0x7d]

theorem escape_length (b : UInt8) : 1 ≤ (escape b).length := by
  unfold escape
  repeat' split
  all_goals exact Nat.le_add_left _ _

theorem escaped_length (text : Bytes) : text.length ≤ (text.flatMap escape).length := by
  induction text with
  | nil => exact Nat.le_refl _
  | cons b text ih =>
    rw [flatMap_cons, length_append, length_cons]
    have := escape_length b
    omega

/-- **A string's text is never shorter than the string**, and has its quotes. -/
theorem string_length (s : String) : (utf8 s).length + 2 ≤ (string s).length := by
  have := escaped_length (utf8 s)
  rw [string, length_append, length_append, length_singleton]
  omega

theorem escape_length_le (b : UInt8) : (escape b).length ≤ 6 := by
  unfold escape
  repeat' split
  all_goals simp only [length_cons, length_nil]; omega

theorem string_length_le (s : String) : (string s).length ≤ 6 * (utf8 s).length + 2 := by
  have hall : ∀ text : Bytes, (text.flatMap escape).length ≤ 6 * text.length := by
    intro text
    induction text with
    | nil => exact Nat.le_refl _
    | cons b text ih =>
      rw [flatMap_cons, length_append, length_cons]
      have := escape_length_le b
      omega
  have := hall (utf8 s)
  rw [string, length_append, length_append, length_singleton]
  omega

theorem intercalate_length (sep : Bytes) {item : Bytes} {items : List Bytes} (h : item ∈ items) :
    item.length ≤ (sep.intercalate items).length := by
  induction items with
  | nil => cases h
  | cons first items ih =>
    cases items with
    | nil =>
      rw [mem_singleton] at h
      exact Nat.le_of_eq (by rw [h, intercalate_singleton])
    | cons second items =>
      rw [intercalate_cons_cons, length_append, length_append]
      obtain rfl | h := mem_cons.mp h
      · omega
      · have := ih h
        omega

theorem intercalate_length_le (sep : UInt8) (items : List Bytes) :
    ([sep].intercalate items).length ≤ (items.map (fun item => item.length + 1)).sum := by
  induction items with
  | nil => exact Nat.le_refl _
  | cons first items ih =>
    rw [map_cons, sum_cons]
    cases items with
    | nil =>
      rw [intercalate_singleton]
      omega
    | cons second items =>
      rw [intercalate_cons_cons, length_append, length_append, length_singleton]
      omega

theorem object_length_le (fields : List (String × Bytes)) :
    (object fields).length ≤
      (fields.map (fun f => (string f.1).length + f.2.length + 2)).sum + 2 := by
  have hfields := intercalate_length_le 0x2c (fields.map (fun f => field f.1 f.2))
  have hsame : (fields.map (fun f => field f.1 f.2)).map (fun item => item.length + 1) =
      fields.map (fun f => (string f.1).length + f.2.length + 2) := by
    rw [map_map]
    refine map_congr_left (fun f _ => ?_)
    rw [comp_apply, field, length_append, length_append, length_singleton]
    omega
  rw [hsame] at hfields
  rw [object, length_append, length_append, length_singleton, length_cons,
    length_nil]
  omega

/-- **A field is part of its object's text.** -/
theorem object_length {fields : List (String × Bytes)} {key : String} {value : Bytes}
    (h : (key, value) ∈ fields) : value.length + 2 ≤ (object fields).length := by
  have hin : field key value ∈ fields.map (fun f => field f.1 f.2) :=
    mem_map.mpr ⟨(key, value), h, rfl⟩
  have hfield : value.length ≤ (field key value).length := by
    rw [field, length_append]
    exact Nat.le_add_left _ _
  have := intercalate_length [0x2c] hin
  rw [object, length_append, length_append, length_singleton, length_cons,
    length_nil]
  omega

end Yardsort.Lib.Json
