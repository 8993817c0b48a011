import Yardsort.Lib.Bytes

/- A stream of bytes that arrives in pieces.

   A reader is the pieces its reads will return, in order; one read returns what fits of the
   next piece. `readExact` reads until it has as much as it was asked for, so how the bytes
   are cut makes no difference to it (`readExact_eq`). -/
namespace Yardsort.Lib

abbrev Reader := List Bytes

def Reader.Open (r : Reader) : Prop := [] ∉ r

/-- Exactly `n` bytes and the reader after them, or `none` when the stream ends first. -/
def readExact : Reader → Nat → Option (Bytes × Reader)
  | r, 0 => some ([], r)
  | [], _ + 1 => none
  | piece :: r, n + 1 =>
    if piece = [] then none
    else if n + 1 < piece.length then some (piece.take (n + 1), piece.drop (n + 1) :: r)
    else (readExact r (n + 1 - piece.length)).map (fun (bytes, r) => (piece ++ bytes, r))

/-- **How the bytes are cut makes no difference.** -/
theorem readExact_eq {r : Reader} (hr : r.Open) (n : Nat) :
    (n ≤ r.flatten.length ∧ ∃ r' : Reader, readExact r n = some (r.flatten.take n, r') ∧
      r'.flatten = r.flatten.drop n ∧ r'.Open) ∨
    (r.flatten.length < n ∧ readExact r n = none) := by
  induction r generalizing n with
  | nil =>
    cases n with
    | zero => exact Or.inl ⟨Nat.le_refl _, [], rfl, rfl, hr⟩
    | succ n => exact Or.inr ⟨Nat.succ_pos n, rfl⟩
  | cons piece r ih =>
    have hpiece : piece ≠ [] := fun h => hr (h ▸ mem_cons_self)
    have hrest : Reader.Open r := fun h => hr (mem_cons_of_mem _ h)
    cases n with
    | zero => exact Or.inl ⟨Nat.zero_le _, piece :: r, rfl, rfl, hr⟩
    | succ n =>
      rw [readExact, if_neg hpiece, flatten_cons, length_append]
      by_cases hlt : n + 1 < piece.length
      · rw [if_pos hlt]
        refine Or.inl ⟨by omega, piece.drop (n + 1) :: r, ?_, ?_, ?_⟩
        · rw [take_append_of_le_length (Nat.le_of_lt hlt)]
        · rw [flatten_cons, drop_append_of_le_length (Nat.le_of_lt hlt)]
        · intro h
          obtain h | h := mem_cons.mp h
          · have := List.drop_eq_nil_iff.mp h.symm
            omega
          · exact hrest h
      · rw [if_neg hlt]
        have htake : piece.take (n + 1) = piece := take_of_length_le (by omega)
        have hdrop : piece.drop (n + 1) = [] := List.drop_of_length_le (by omega)
        obtain ⟨hle, r', hread, hflat, hopen⟩ | ⟨hlen, hread⟩ := ih hrest (n + 1 - piece.length)
        · refine Or.inl ⟨by omega, r', ?_, ?_, hopen⟩
          · rw [hread, map_some, List.take_append, htake]
          · rw [hflat, drop_append, hdrop, nil_append]
        · refine Or.inr ⟨by omega, ?_⟩
          rw [hread, map_none]

theorem readExact_append {r : Reader} (hr : r.Open) {bytes rest : Bytes}
    (h : r.flatten = bytes ++ rest) :
    ∃ r' : Reader, readExact r bytes.length = some (bytes, r') ∧ r'.flatten = rest ∧ r'.Open := by
  obtain ⟨_, r', hread, hflat, hopen⟩ | ⟨hlen, _⟩ := readExact_eq hr bytes.length
  · rw [h] at hread hflat
    rw [take_left] at hread
    rw [drop_left] at hflat
    exact ⟨r', hread, hflat, hopen⟩
  · rw [h, length_append] at hlen
    omega

theorem readExact_end {r : Reader} (hr : r.Open) (h : r.flatten = []) (n : Nat) :
    readExact r (n + 1) = none := by
  obtain ⟨hle, _⟩ | ⟨_, hread⟩ := readExact_eq hr (n + 1)
  · rw [h, length_nil] at hle
    omega
  · exact hread

end Yardsort.Lib
