import Yardsort.Activity.Stamps

/- Which timestamps are read without a panic, and that what the calendar writes is read back. -/
namespace Yardsort.Activity.Stamps
open Yardsort.Lib

section
variable {n : Nat} {text before after : Text}

theorem byteLen_cons (c : Char) (text : Text) :
    Text.byteLen (c :: text) = c.utf8Size + Text.byteLen text := by
  simp [Text.byteLen]

theorem takeBytes_append : Text.takeBytes (Text.byteLen before) (before ++ after) = before := by
  induction before with
  | nil =>
    cases after with
    | nil => rfl
    | cons c after =>
      have hpos := c.utf8Size_pos
      simp [Text.takeBytes, Text.byteLen, hpos]
  | cons c before ih =>
    have hsub : c.utf8Size + Text.byteLen before - c.utf8Size = Text.byteLen before := by omega
    rw [cons_append, byteLen_cons, Text.takeBytes, if_neg (by omega), hsub, ih]

theorem takeBytes_prefix (n : Nat) (text : Text) : Text.takeBytes n text <+: text := by
  induction text generalizing n with
  | nil => simp [Text.takeBytes]
  | cons c text ih =>
    rw [Text.takeBytes]
    split
    · simp
    · exact cons_prefix_cons.mpr ⟨rfl, ih _⟩

theorem sliceTo_eq_some :
    sliceTo n text = some before ↔ Text.byteLen before = n ∧ ∃ after, text = before ++ after := by
  unfold sliceTo
  constructor
  · intro h
    split at h
    · rename_i hlen
      cases h
      obtain ⟨after, hafter⟩ := takeBytes_prefix n text
      exact ⟨hlen, after, hafter.symm⟩
    · cases h
  · rintro ⟨rfl, after, rfl⟩
    rw [takeBytes_append, if_pos rfl]

end

/-- The fraction is none, or one of its characters ends where the first three bytes do. -/
def Cuts (fraction : Text) : Prop :=
  ∃ before after, fraction = before ++ after ∧
    Text.byteLen before = min (Text.byteLen fraction) 3

theorem millisOf_isSome {fraction : Text} : (millisOf fraction).isSome ↔ Cuts fraction := by
  unfold millisOf
  split
  · rename_i hnil
    subst hnil
    exact ⟨fun _ => ⟨[], [], rfl, rfl⟩, fun _ => rfl⟩
  · rw [isSome_map, isSome_iff_exists]
    constructor
    · rintro ⟨before, hsome⟩
      obtain ⟨hlen, after, happend⟩ := sliceTo_eq_some.mp hsome
      exact ⟨before, after, happend, hlen⟩
    · rintro ⟨before, after, happend, hlen⟩
      exact ⟨before, sliceTo_eq_some.mpr ⟨hlen, after, happend⟩⟩

/-- What a timestamp must be to be read without a panic: whatever its fields are, the fraction is
    cut between two characters, and each count of what they name has a place. -/
def Readable (text : Text) : Prop :=
  ∀ fields fraction, fieldsOf text = some (fields, fraction) →
    Cuts fraction ∧
      ∀ millis, millisOf fraction = some (some millis) → fields.InRange millis

theorem isoToMs_isSome (text : Text) : (isoToMs text).isSome ↔ Readable text := by
  unfold isoToMs Readable
  cases hfields : fieldsOf text with
  | none => simp
  | some read =>
    obtain ⟨fields, fraction⟩ := read
    have hdated := fieldsOf_dated hfields
    have hcuts := @millisOf_isSome fraction
    constructor
    · intro h fields' fraction' hsame
      cases hsame
      cases hmillis : millisOf fraction with
      | none => simp [hmillis] at h
      | some read =>
        refine ⟨hcuts.mp (by simp [hmillis]), fun millis hread => ?_⟩
        cases hread
        simp only [hmillis, isSome_map] at h
        obtain ⟨ms, hms⟩ := isSome_iff_exists.mp h
        exact ((instantI64_iff hdated (millisOf_bounds hmillis)).mp hms).1
    · intro h
      obtain ⟨hcut, hrange⟩ := h fields fraction rfl
      obtain ⟨read, hmillis⟩ := isSome_iff_exists.mp (hcuts.mpr hcut)
      cases read with
      | none => simp [hmillis]
      | some millis =>
        have hinstant := (instantI64_iff hdated (millisOf_bounds hmillis)).mpr
          ⟨hrange millis hmillis, rfl⟩
        simp [hmillis, hinstant]

section
variable {width : Nat} {n : Int}

theorem padded_digits (hn : 0 ≤ n) :
    padded width n = List.replicate (width - (Nat.toDigits 10 n.natAbs).length) '0' ++
      Nat.toDigits 10 n.natAbs := by
  rw [padded]
  exact if_neg (by omega)

theorem padded_isDigit (hn : 0 ≤ n) : ∀ c ∈ padded width n, c.isDigit = true := by
  intro c hc
  rw [padded_digits hn] at hc
  obtain hc | hc := mem_append.mp hc
  · rw [List.eq_of_mem_replicate hc]
    rfl
  · exact Nat.isDigit_of_mem_toDigits (by decide) (by decide) hc

theorem not_mem_padded {c : Char} (hn : 0 ≤ n) (hc : c.isDigit = false) :
    c ∉ padded width n := by
  intro hmem
  simp [padded_isDigit hn c hmem] at hc

theorem padded_length (hn : 0 ≤ n) (hw : 0 < width) (hlt : n < 10 ^ width) :
    (padded width n).length = width := by
  have hdigits : (Nat.toDigits 10 n.natAbs).length ≤ width := by
    rw [Nat.length_toDigits_le_iff (by decide) hw]
    have hnat : (n.natAbs : Int) < ((10 ^ width : Nat) : Int) := by
      rw [Int.natAbs_of_nonneg hn]
      exact_mod_cast hlt
    exact_mod_cast hnat
  rw [padded_digits hn, length_append, length_replicate]
  omega

theorem parseI64_digits {text : Text} (hne : text ≠ []) (h : ∀ c ∈ text, c.isDigit = true) :
    parseI64 text = I64.checked (Nat.ofDigitChars 10 text 0) := by
  cases text with
  | nil => exact absurd rfl hne
  | cons c text =>
    have hc : c.isDigit = true := h c mem_cons_self
    have hminus : c ≠ '-' := by
      rintro rfl
      exact absurd hc (by decide)
    have hplus : c ≠ '+' := by
      rintro rfl
      exact absurd hc (by decide)
    have hall : (c :: text).all Char.isDigit = true := all_eq_true.mpr h
    simp [parseI64, hminus, hplus, hall]

theorem parseI64_padded (hn : 0 ≤ n) (hmax : n ≤ I64.MAX) : parseI64 (padded width n) = some n := by
  have hne : padded width n ≠ [] := by
    rw [padded_digits hn]
    simp
  have hvalue : Nat.ofDigitChars 10 (padded width n) 0 = n.natAbs := by
    rw [padded_digits hn, Nat.ofDigitChars_append, Nat.ofDigitChars_replicate_zero, Nat.mul_zero,
      Nat.ofDigitChars_ten_toDigits]
  have habs : (n.natAbs : Int) = n := by omega
  rw [parseI64_digits hne (padded_isDigit hn), hvalue, habs]
  refine I64.checked_of_fits (I64.fits_iff.mpr ?_)
  rw [I64.MAX] at hmax
  omega

end

theorem three_padded {sep : Char} {u v w : Nat} {a b c : Int} (hsep : sep.isDigit = false)
    (ha : 0 ≤ a ∧ a ≤ I64.MAX) (hb : 0 ≤ b ∧ b ≤ I64.MAX) (hc : 0 ≤ c ∧ c ≤ I64.MAX) :
    three sep (padded u a ++ sep :: (padded v b ++ sep :: padded w c)) = some (a, b, c) := by
  rw [three, splitOn_append_cons_self_of_not_mem (not_mem_padded ha.1 hsep),
    splitOn_append_cons_self_of_not_mem (not_mem_padded hb.1 hsep),
    List.splitOn_eq_singleton (not_mem_padded hc.1 hsep)]
  simp [parseI64_padded ha.1 ha.2, parseI64_padded hb.1 hb.2, parseI64_padded hc.1 hc.2]

theorem utf8Size_of_isDigit {c : Char} (h : c.isDigit = true) : c.utf8Size = 1 := by
  have hval : c.val ≤ 57 := by
    simp only [Char.isDigit, ge_iff_le, Bool.and_eq_true, decide_eq_true_eq] at h
    exact h.2
  unfold Char.utf8Size
  refine if_pos (UInt32.le_trans hval (by decide))

theorem byteLen_digits {text : Text} (h : ∀ c ∈ text, c.isDigit = true) :
    Text.byteLen text = text.length := by
  induction text with
  | nil => rfl
  | cons c text ih =>
    rw [byteLen_cons, utf8Size_of_isDigit (h c mem_cons_self),
      ih fun d hd => h d (mem_cons_of_mem _ hd), length_cons, Nat.add_comm]

theorem millisOf_padded {n : Int} (h₀ : 0 ≤ n) (h₁ : n < 1000) :
    millisOf (padded 3 n) = some (some n) := by
  have hlen : (padded 3 n).length = 3 := padded_length h₀ (by decide) h₁
  have hbytes : Text.byteLen (padded 3 n) = 3 := (byteLen_digits (padded_isDigit h₀)).trans hlen
  have hne : padded 3 n ≠ [] := by
    intro hnil
    simp [hnil] at hlen
  have hslice : sliceTo 3 (padded 3 n) = some (padded 3 n) :=
    sliceTo_eq_some.mpr ⟨hbytes, [], (append_nil _).symm⟩
  have hall : (padded 3 n).all Char.isDigit = true := all_eq_true.mpr (padded_isDigit h₀)
  have hmax : n ≤ I64.MAX := by
    rw [I64.MAX]
    omega
  rw [millisOf, if_neg hne, hbytes, Nat.min_self, hslice, map_some, if_pos hall, hlen,
    Nat.sub_self, List.replicate_zero, append_nil, parseI64_padded h₀ hmax]

theorem stripSuffix_append (suffix text : Text) :
    stripSuffix suffix (text ++ suffix) = some text := by
  simp [stripSuffix]

section
variable {y m d : Int}

theorem not_mem_dateText {c : Char} (hc : c.isDigit = false) (hdash : c ≠ '-') (hy : 0 ≤ y)
    (hm : 0 ≤ m) (hd : 0 ≤ d) : c ∉ dateText (y, m, d) := by
  have hyear := @not_mem_padded 4 y c hy hc
  have hmonth := @not_mem_padded 2 m c hm hc
  have hday := @not_mem_padded 2 d c hd hc
  simp [dateText, hyear, hmonth, hday, hdash]

end

theorem not_mem_clock {hour minute second : Int} (hh : 0 ≤ hour) (hm : 0 ≤ minute)
    (hs : 0 ≤ second) :
    '.' ∉ padded 2 hour ++ ':' :: (padded 2 minute ++ ':' :: padded 2 second) := by
  have hhour := @not_mem_padded 2 hour '.' hh rfl
  have hminute := @not_mem_padded 2 minute '.' hm rfl
  have hsecond := @not_mem_padded 2 second '.' hs rfl
  simp [hhour, hminute, hsecond]

theorem time_of_day {ms rem : Int} (hrem : rem = ms % 86400000) :
    (0 ≤ rem / 3600000 ∧ rem / 3600000 < 24) ∧
      (0 ≤ rem % 3600000 / 60000 ∧ rem % 3600000 / 60000 < 60) ∧
      (0 ≤ rem % 60000 / 1000 ∧ rem % 60000 / 1000 < 60) ∧
      (0 ≤ rem % 1000 ∧ rem % 1000 < 1000) ∧
      (((ms / 86400000 * 24 + rem / 3600000) * 60 + rem % 3600000 / 60000) * 60 +
        rem % 60000 / 1000) * 1000 + rem % 1000 = ms := by
  omega

theorem fieldsOf_isoText {ms y m d : Int} (hdate : civilDate ms = (y, m, d))
    (hy : 0 ≤ y ∧ y ≤ 9999) (hm : 1 ≤ m ∧ m ≤ 12) (hd : 1 ≤ d ∧ d ≤ 31) :
    fieldsOf (isoText ms) =
      some (⟨y, m, d, ms % 86400000 / 3600000, ms % 86400000 % 3600000 / 60000,
        ms % 86400000 % 60000 / 1000⟩, padded 3 (ms % 86400000 % 1000)) := by
  obtain ⟨hhour, hminute, hsecond, hmillis, -⟩ := @time_of_day ms _ rfl
  have hmax : I64.MAX = 9223372036854775807 := rfl
  let date := dateText (y, m, d)
  let clock := padded 2 (ms % 86400000 / 3600000) ++ ':' ::
    (padded 2 (ms % 86400000 % 3600000 / 60000) ++ ':' ::
      padded 2 (ms % 86400000 % 60000 / 1000))
  let fraction := padded 3 (ms % 86400000 % 1000)
  have htext : isoText ms = (date ++ 'T' :: (clock ++ '.' :: fraction)) ++ ['Z'] := by
    simp [isoText, hdate, date, clock, fraction]
  have hstrip : stripUtc (isoText ms) = some (date ++ 'T' :: (clock ++ '.' :: fraction)) := by
    rw [htext, stripUtc, stripSuffix_append]
    rfl
  have hT : Text.cut ['T'] (date ++ 'T' :: (clock ++ '.' :: fraction)) =
      some (date, clock ++ '.' :: fraction) :=
    Text.cut_char (not_mem_dateText rfl (by decide) hy.1 (by omega) (by omega))
  have hdot : Text.cut ['.'] (clock ++ '.' :: fraction) = some (clock, fraction) :=
    Text.cut_char (not_mem_clock hhour.1 hminute.1 hsecond.1)
  have hdays : three '-' date = some (y, m, d) :=
    three_padded rfl (by omega) (by omega) (by omega)
  have htime : three ':' clock = some (ms % 86400000 / 3600000,
      ms % 86400000 % 3600000 / 60000, ms % 86400000 % 60000 / 1000) :=
    three_padded rfl (by omega) (by omega) (by omega)
  simp only [fieldsOf, hstrip, hT, hdays, hdot, htime, bind_eq_bind, bind_some,
    getD_some]
  rfl

theorem days_bounds {f : Fields} (hy : 0 ≤ f.year ∧ f.year ≤ 9999)
    (hm : 1 ≤ f.month ∧ f.month ≤ 12) (hd : 1 ≤ f.day ∧ f.day ≤ 31) :
    -1000000 ≤ f.days ∧ f.days ≤ 4000000 := by
  unfold Fields.days daysOf
  split <;> omega

theorem isoToMs_isoText {ms : Int} (h₀ : 0 ≤ (civilDate ms).1) (h₁ : (civilDate ms).1 ≤ 9999) :
    isoToMs (isoText ms) = some (some ms) := by
  obtain ⟨y, m, d, hdate, hm, hd, hdays⟩ := civilFromDays_spec (ms / 86400000)
  have hcivil : civilDate ms = (y, m, d) := hdate
  rw [hcivil] at h₀ h₁
  obtain ⟨hhour, hminute, hsecond, hmillis, hms⟩ := @time_of_day ms _ rfl
  have hfields := fieldsOf_isoText hcivil ⟨h₀, h₁⟩ hm hd
  have hdated := fieldsOf_dated hfields
  have hbounds := days_bounds (f := ⟨y, m, d, ms % 86400000 / 3600000,
    ms % 86400000 % 3600000 / 60000, ms % 86400000 % 60000 / 1000⟩) ⟨h₀, h₁⟩ hm hd
  have hfraction := millisOf_padded hmillis.1 hmillis.2
  have hday := hdays (ms % 86400000 / 3600000) (ms % 86400000 % 3600000 / 60000)
    (ms % 86400000 % 60000 / 1000)
  rw [hday] at hbounds
  have hinstant := (@instantI64_iff _ _ ms hdated (millisOf_bounds hfraction)).mpr ⟨by
    constructor <;> simp only [hday, I64.fits_iff, I64.MAX] <;> omega, by
    rw [Fields.instant, hday]
    exact hms.symm⟩
  simp only [isoToMs, hfields, hfraction, hinstant, map_some]

def splitLetter : Text := "2026-09-25T11:07:32.12éZ".toList

def farHour : Text := "2026-09-25T9223372036854775807:00:00Z".toList

/-- **Timestamps**: `iso_to_ms` panics on no text whose fraction it cuts between two characters and
    whose fields are counted in 64 bits, and on every other; what the calendar writes of an instant
    in a year of four digits it reads as that instant; and the two calendars agree on the day. -/
theorem stamps_read_back (text : Text) :
    ((isoToMs text).isSome ↔ Readable text) ∧
      (∀ ms, 0 ≤ (civilDate ms).1 → (civilDate ms).1 ≤ 9999 →
        isoToMs (isoText ms) = some (some ms)) ∧
      ∀ ms, dateOf (ms / 86400000) = dateText (civilDate ms) :=
  ⟨isoToMs_isSome text, fun _ => isoToMs_isoText, fun ms => dateOf_eq (ms / 86400000)⟩

theorem stamps_read_back_once :
    isoToMs (isoText 1790000000000) = some (some 1790000000000) ∧
      dateOf (1790000000000 / 86400000) = dateText (civilDate 1790000000000) :=
  ⟨(stamps_read_back []).2.1 1790000000000 (by decide) (by decide), (stamps_read_back []).2.2 _⟩

/-- The fraction's first three bytes end within a letter, and the hours have no minutes in 64
    bits. -/
theorem some_stamps_panic : isoToMs splitLetter = none ∧ isoToMs farHour = none := by
  decide +kernel

end Yardsort.Activity.Stamps
