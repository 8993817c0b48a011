import Mathlib
import Yardsort.Lib.Snoc

/- Bytes: numbers as little-endian bytes, and strings as UTF-8.

   `leBytes w n` is `n` in `w` bytes and `ofLe` reads them back; `utf8` is a
   string's bytes and `fromUtf8` reads them back. What a frame's header or a
   text message needs of a round trip is here. -/
namespace Yardsort.Lib

abbrev Bytes := List UInt8

def leBytes : Nat → Nat → Bytes
  | 0, _ => []
  | w + 1, n => UInt8.ofNat n :: leBytes w (n / 256)

def ofLe : Bytes → Nat
  | [] => 0
  | b :: bs => b.toNat + 256 * ofLe bs

@[simp] theorem leBytes_length (w n : Nat) : (leBytes w n).length = w := by
  induction w generalizing n with
  | zero => rfl
  | succ w ih => simp [leBytes, ih]

theorem ofLe_leBytes (w n : Nat) : ofLe (leBytes w n) = n % 256 ^ w := by
  induction w generalizing n with
  | zero => simp [leBytes, ofLe, Nat.mod_one]
  | succ w ih =>
    have hb : (UInt8.ofNat n).toNat = n % 256 := UInt8.toNat_ofNat'
    rw [leBytes, ofLe, ih, hb, Nat.pow_succ', Nat.mod_mul]

theorem ofLe_leBytes_of_lt {w n : Nat} (h : n < 256 ^ w) : ofLe (leBytes w n) = n := by
  rw [ofLe_leBytes, Nat.mod_eq_of_lt h]

@[simp] theorem uint32_round_trip (n : UInt32) :
    UInt32.ofNat (ofLe (leBytes 4 n.toNat)) = n := by
  rw [ofLe_leBytes_of_lt n.toNat_lt, UInt32.ofNat_toNat]

@[simp] theorem uint64_round_trip (n : UInt64) :
    UInt64.ofNat (ofLe (leBytes 8 n.toNat)) = n := by
  rw [ofLe_leBytes_of_lt n.toNat_lt, UInt64.ofNat_toNat]

def utf8 (s : String) : Bytes := s.toByteArray.data.toList

def fromUtf8 (b : Bytes) : Option String := String.fromUTF8? ⟨b.toArray⟩

theorem utf8_length (s : String) : (utf8 s).length = s.utf8ByteSize := by
  rw [← String.size_toByteArray, ← ByteArray.size_data, utf8, Array.length_toList]

@[simp] theorem fromUtf8_utf8 (s : String) : fromUtf8 (utf8 s) = some s := by
  show String.fromUTF8? ⟨s.toByteArray.data.toList.toArray⟩ = some s
  rw [Array.toArray_toList, String.fromUTF8?]
  exact dif_pos s.isValidUTF8

theorem utf8_length_replicate {c : Char} (hc : c.utf8Size = 1) (n : Nat) :
    (utf8 (String.ofList (List.replicate n c))).length = n := by
  rw [utf8_length]
  induction n with
  | zero => rfl
  | succ n ih =>
    rw [replicate_succ, String.ofList_cons, String.utf8ByteSize_append, ih]
    simp [hc, Nat.add_comm]

end Yardsort.Lib
