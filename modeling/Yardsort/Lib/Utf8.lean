import Yardsort.Lib.Bytes
import Yardsort.Lib.Text

/- UTF-8 as it is read, byte after byte: which characters the bytes are, with U+FFFD for each
   longest run of bytes that begins a character and does not end it, and what is still open after
   them. Reading on from what is open is reading the whole at once (`run_append`). -/
namespace Yardsort.Lib.Utf8

def REPLACEMENT : Char := '\uFFFD'

/-- A character that has begun. -/
structure Open where
  bytes : Nat
  /-- What they say of its number. -/
  value : Nat
  /-- How many bytes are still to come. -/
  left : Nat
  /-- Between what and what the next one is. -/
  low : Nat
  high : Nat

def lead (b : Nat) : Option Open :=
  if 0xC2 ≤ b ∧ b ≤ 0xDF then some ⟨1, b % 32, 1, 0x80, 0xBF⟩
  else if b = 0xE0 then some ⟨1, b % 16, 2, 0xA0, 0xBF⟩
  else if b = 0xED then some ⟨1, b % 16, 2, 0x80, 0x9F⟩
  else if 0xE1 ≤ b ∧ b ≤ 0xEF then some ⟨1, b % 16, 2, 0x80, 0xBF⟩
  else if b = 0xF0 then some ⟨1, b % 8, 3, 0x90, 0xBF⟩
  else if 0xF1 ≤ b ∧ b ≤ 0xF3 then some ⟨1, b % 8, 3, 0x80, 0xBF⟩
  else if b = 0xF4 then some ⟨1, b % 8, 3, 0x80, 0x8F⟩
  else none

def Open.takes (o : Open) (b : UInt8) : Bool := o.low ≤ b.toNat && b.toNat ≤ o.high

def Open.next (o : Open) (b : UInt8) : Open :=
  ⟨o.bytes + 1, o.value * 64 + b.toNat % 64, o.left - 1, 0x80, 0xBF⟩

def start (b : UInt8) : Text × Option Open :=
  if b.toNat < 0x80 then ([Char.ofNat b.toNat], none)
  else
    match lead b.toNat with
    | some o => ([], some o)
    | none => ([REPLACEMENT], none)

/-- The characters a byte ends, and what is open after it. -/
def feed : Option Open → UInt8 → Text × Option Open
  | none, b => start b
  | some o, b =>
    if o.takes b then
      if o.left = 1 then ([Char.ofNat (o.next b).value], none) else ([], some (o.next b))
    else (REPLACEMENT :: (start b).1, (start b).2)

def run : Option Open → Bytes → Text × Option Open
  | o, [] => ([], o)
  | o, b :: bytes => ((feed o b).1 ++ (run (feed o b).2 bytes).1, (run (feed o b).2 bytes).2)

def lossy (bytes : Bytes) : Text :=
  (run none bytes).1 ++ if (run none bytes).2.isSome then [REPLACEMENT] else []

def encode (text : Text) : Bytes := text.flatMap String.utf8EncodeChar

theorem run_append (o : Option Open) (first rest : Bytes) :
    run o (first ++ rest) =
      ((run o first).1 ++ (run (run o first).2 rest).1, (run (run o first).2 rest).2) := by
  induction first generalizing o with
  | nil => simp [run]
  | cons b first ih => simp [run, ih]

theorem ofNat_toNat {n : Nat} (h : n < 256) : (UInt8.ofNat n).toNat = n := UInt8.toNat_ofNat_of_lt' h

section
variable {o : Open} {b : UInt8}

theorem feed_lead (hb : 0x80 ≤ b.toNat) (h : lead b.toNat = some o) :
    feed none b = ([], some o) := by
  simp only [feed, start, h]
  rw [if_neg (Nat.not_lt.mpr hb)]

theorem takes_iff : o.takes b = true ↔ o.low ≤ b.toNat ∧ b.toNat ≤ o.high := by
  simp [Open.takes]

theorem feed_next (h : o.takes b = true) (hleft : o.left ≠ 1) :
    feed (some o) b = ([], some (o.next b)) := by
  simp [feed, h, hleft]

theorem feed_last (h : o.takes b = true) (hleft : o.left = 1) :
    feed (some o) b = ([Char.ofNat (o.value * 64 + b.toNat % 64)], none) := by
  simp [feed, h, hleft, Open.next]

end

theorem run_two {a b : Nat} (ha : 0xC2 ≤ a ∧ a ≤ 0xDF) (hb : 0x80 ≤ b ∧ b ≤ 0xBF) :
    run none [UInt8.ofNat a, UInt8.ofNat b] = ([Char.ofNat (a % 32 * 64 + b % 64)], none) := by
  have hlead : lead (UInt8.ofNat a).toNat = some ⟨1, a % 32, 1, 0x80, 0xBF⟩ := by
    rw [ofNat_toNat (by omega), lead, if_pos ha]
  have hfirst := feed_lead (b := UInt8.ofNat a) (by rw [ofNat_toNat] <;> omega) hlead
  have hlast := @feed_last ⟨1, a % 32, 1, 0x80, 0xBF⟩ (UInt8.ofNat b)
    (takes_iff.mpr (by rw [ofNat_toNat (by omega)]; exact hb)) rfl
  rw [ofNat_toNat (by omega)] at hlast
  simp [run, hfirst, hlast]

def Second3 (a b : Nat) : Prop :=
  0xE0 ≤ a ∧ a ≤ 0xEF ∧ 0x80 ≤ b ∧ b ≤ 0xBF ∧ (a = 0xE0 → 0xA0 ≤ b) ∧ (a = 0xED → b ≤ 0x9F)

theorem run_three {a b c : Nat} (hb : Second3 a b) (hc : 0x80 ≤ c ∧ c ≤ 0xBF) :
    run none [UInt8.ofNat a, UInt8.ofNat b, UInt8.ofNat c] =
      ([Char.ofNat ((a % 16 * 64 + b % 64) * 64 + c % 64)], none) := by
  obtain ⟨hlow, hhigh, hb1, hb2, he0, hed⟩ := hb
  obtain ⟨low, high, hlead, hin⟩ : ∃ low high,
      lead (UInt8.ofNat a).toNat = some ⟨1, a % 16, 2, low, high⟩ ∧ low ≤ b ∧ b ≤ high := by
    rw [ofNat_toNat (by omega), lead, if_neg (by omega)]
    by_cases h0 : a = 0xE0
    · exact ⟨_, _, if_pos h0, he0 h0, hb2⟩
    rw [if_neg h0]
    by_cases hd : a = 0xED
    · exact ⟨_, _, if_pos hd, hb1, hed hd⟩
    rw [if_neg hd]
    exact ⟨_, _, if_pos (by omega), hb1, hb2⟩
  have hfirst := feed_lead (b := UInt8.ofNat a) (by rw [ofNat_toNat] <;> omega) hlead
  have hsecond := @feed_next ⟨1, a % 16, 2, low, high⟩ (UInt8.ofNat b)
    (takes_iff.mpr (by rw [ofNat_toNat (by omega)]; exact hin)) (by simp)
  have hlast := @feed_last ⟨2, a % 16 * 64 + b % 64, 1, 0x80, 0xBF⟩ (UInt8.ofNat c)
    (takes_iff.mpr (by rw [ofNat_toNat (by omega)]; exact hc)) rfl
  rw [Open.next, ofNat_toNat (by omega)] at hsecond
  rw [ofNat_toNat (by omega)] at hlast
  simp [run, hfirst, hsecond, hlast]

def Second4 (a b : Nat) : Prop :=
  0xF0 ≤ a ∧ a ≤ 0xF4 ∧ 0x80 ≤ b ∧ b ≤ 0xBF ∧ (a = 0xF0 → 0x90 ≤ b) ∧ (a = 0xF4 → b ≤ 0x8F)

theorem run_four {a b c d : Nat} (hb : Second4 a b) (hc : 0x80 ≤ c ∧ c ≤ 0xBF)
    (hd : 0x80 ≤ d ∧ d ≤ 0xBF) :
    run none [UInt8.ofNat a, UInt8.ofNat b, UInt8.ofNat c, UInt8.ofNat d] =
      ([Char.ofNat (((a % 8 * 64 + b % 64) * 64 + c % 64) * 64 + d % 64)], none) := by
  obtain ⟨hlow, hhigh, hb1, hb2, hf0, hf4⟩ := hb
  obtain ⟨low, high, hlead, hin⟩ : ∃ low high,
      lead (UInt8.ofNat a).toNat = some ⟨1, a % 8, 3, low, high⟩ ∧ low ≤ b ∧ b ≤ high := by
    rw [ofNat_toNat (by omega), lead, if_neg (by omega), if_neg (by omega), if_neg (by omega),
      if_neg (by omega)]
    by_cases h0 : a = 0xF0
    · exact ⟨_, _, if_pos h0, hf0 h0, hb2⟩
    rw [if_neg h0]
    by_cases h4 : a = 0xF4
    · exact ⟨_, _, by rw [if_neg (by omega), if_pos h4], hb1, hf4 h4⟩
    exact ⟨_, _, if_pos (by omega), hb1, hb2⟩
  have hfirst := feed_lead (b := UInt8.ofNat a) (by rw [ofNat_toNat] <;> omega) hlead
  have hsecond := @feed_next ⟨1, a % 8, 3, low, high⟩ (UInt8.ofNat b)
    (takes_iff.mpr (by rw [ofNat_toNat (by omega)]; exact hin)) (by simp)
  have hthird := @feed_next ⟨2, a % 8 * 64 + b % 64, 2, 0x80, 0xBF⟩ (UInt8.ofNat c)
    (takes_iff.mpr (by rw [ofNat_toNat (by omega)]; exact hc)) (by simp)
  have hlast := @feed_last ⟨3, (a % 8 * 64 + b % 64) * 64 + c % 64, 1, 0x80, 0xBF⟩ (UInt8.ofNat d)
    (takes_iff.mpr (by rw [ofNat_toNat (by omega)]; exact hd)) rfl
  rw [Open.next, ofNat_toNat (by omega)] at hsecond hthird
  rw [ofNat_toNat (by omega)] at hlast
  simp [run, hfirst, hsecond, hthird, hlast]

theorem run_encodeChar (c : Char) : run none (String.utf8EncodeChar c) = ([c], none) := by
  have hvalid : c.val.toNat < 0xD800 ∨ 0xDFFF < c.val.toNat ∧ c.val.toNat < 0x110000 := c.valid
  have hback : Char.ofNat c.val.toNat = c := Char.ofNat_toNat c
  unfold String.utf8EncodeChar
  dsimp only
  generalize c.val.toNat = v at *
  split
  · simp [run, feed, start, ofNat_toNat (show v < 256 by omega), show v < 128 by omega, hback]
  split
  · rw [run_two (by omega) (by omega), ← hback]
    congr 3
    omega
  split
  · rw [run_three ⟨by omega, by omega, by omega, by omega, by omega, by omega⟩ (by omega), ← hback]
    congr 3
    omega
  · rw [run_four ⟨by omega, by omega, by omega, by omega, by omega, by omega⟩ (by omega) (by omega),
      ← hback]
    congr 3
    omega

theorem run_encode (text : Text) (rest : Bytes) :
    run none (encode text ++ rest) = (text ++ (run none rest).1, (run none rest).2) := by
  induction text with
  | nil => simp [encode]
  | cons c text ih =>
    rw [encode, flatMap_cons, append_assoc, run_append, run_encodeChar]
    simp only [encode] at ih
    simp [ih]

/-- **A text's bytes are read as the text.** -/
theorem lossy_encode (text : Text) : lossy (encode text) = text := by
  have := run_encode text []
  rw [append_nil] at this
  simp [lossy, this, run]

end Yardsort.Lib.Utf8
