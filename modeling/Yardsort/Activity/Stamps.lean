import Mathlib.Tactic.Ring
import Yardsort.Lib.I64
import Yardsort.Lib.Text

/- Timestamps of the agents' own files: `iso_to_ms` (`core/src/activity.rs`), and the calendar
   that dates are written with (`civil_from_days`, `civil_date` and `when` of
   `core/src/activity/handoff.rs`, `date_of` of `core/src/usage/mod.rs`).

   Reading can fail in two ways: the text is refused (`some none`), or the call panics (`none`),
   which is where it cuts a character in two and where a number overflows. Divisions in the
   calendar are of numbers that are not negative, or Euclidean. -/
namespace Yardsort.Activity.Stamps
open Yardsort.Lib

def parseI64 (text : Text) : Option Int :=
  let (sign, digits) : Int × Text := match text with
    | '-' :: digits => (-1, digits)
    | '+' :: digits => (1, digits)
    | digits => (1, digits)
  if digits ≠ [] ∧ digits.all Char.isDigit then I64.checked (sign * Nat.ofDigitChars 10 digits 0)
  else none

def stripSuffix (suffix text : Text) : Option Text :=
  if suffix <:+ text then some (text.take (text.length - suffix.length)) else none

structure Fields where
  year : Int
  month : Int
  day : Int
  hour : Int
  minute : Int
  second : Int

def three (sep : Char) (text : Text) : Option (Int × Int × Int) :=
  match text.splitOn sep with
  | a :: b :: c :: _ => do
    let a ← parseI64 a
    let b ← parseI64 b
    let c ← parseI64 c
    some (a, b, c)
  | _ => none

def stripUtc (text : Text) : Option Text :=
  ((stripSuffix ['Z'] text).or (stripSuffix "+00:00".toList text)).or
    (stripSuffix "-00:00".toList text)

/-- What a timestamp says up to the second, and its fraction. -/
def fieldsOf (text : Text) : Option (Fields × Text) := do
  let text ← stripUtc text
  let (date, time) ← Text.cut ['T'] text
  let (year, month, day) ← three '-' date
  let (clock, fraction) := (Text.cut ['.'] time).getD (time, [])
  let (hour, minute, second) ← three ':' clock
  some (⟨year, month, day, hour, minute, second⟩, fraction)

/-- `&text[..n]`, which panics where that is not between two characters. -/
def sliceTo (n : Nat) (text : Text) : Option Text :=
  if Text.byteLen (Text.takeBytes n text) = n then some (Text.takeBytes n text) else none

def millisOf (fraction : Text) : Option (Option Int) :=
  if fraction = [] then some (some 0)
  else (sliceTo (min (Text.byteLen fraction) 3) fraction).map fun digits =>
    if digits.all Char.isDigit then parseI64 (digits ++ List.replicate (3 - digits.length) '0')
    else none

/-- Days from civil, Howard Hinnant's algorithm: the months are counted from March. -/
def daysI64 (y m day : Int) : Option Int :=
  (I64.divEuclid y 400).bind fun era =>
  (I64.mul era 400).bind fun eraYears =>
  (I64.sub y eraYears).bind fun yoe =>
  (I64.mul 153 m).bind fun monthDays =>
  (I64.add monthDays 2).bind fun monthDays =>
  (I64.div monthDays 5).bind fun monthDays =>
  (I64.add monthDays day).bind fun doy =>
  (I64.sub doy 1).bind fun doy =>
  (I64.mul yoe 365).bind fun yearDays =>
  (I64.div yoe 4).bind fun leaps =>
  (I64.add yearDays leaps).bind fun yearDays =>
  (I64.div yoe 100).bind fun centuries =>
  (I64.sub yearDays centuries).bind fun yearDays =>
  (I64.add yearDays doy).bind fun doe =>
  (I64.mul era 146097).bind fun eraDays =>
  (I64.add eraDays doe).bind fun days => I64.sub days 719468

def timeI64 (days hour minute second millis : Int) : Option Int :=
  (I64.mul days 24).bind fun hours =>
  (I64.add hours hour).bind fun hours =>
  (I64.mul hours 60).bind fun minutes =>
  (I64.add minutes minute).bind fun minutes =>
  (I64.mul minutes 60).bind fun seconds =>
  (I64.add seconds second).bind fun seconds =>
  (I64.mul seconds 1000).bind fun ms => I64.add ms millis

def instantI64 (f : Fields) (millis : Int) : Option Int :=
  (if f.month ≤ 2 then
    (I64.sub f.year 1).bind fun y => (I64.add f.month 9).bind fun m => daysI64 y m f.day
  else (I64.sub f.month 3).bind fun m => daysI64 f.year m f.day).bind fun days =>
  timeI64 days f.hour f.minute f.second millis

def isoToMs (text : Text) : Option (Option Int) :=
  match fieldsOf text with
  | none => some none
  | some (fields, fraction) =>
    match millisOf fraction with
    | none => none
    | some none => some none
    | some (some millis) => (instantI64 fields millis).map some

def civilFromDays (z : Int) : Int × Int × Int :=
  let z := z + 719468
  let era := z / 146097
  let doe := z % 146097
  let yoe := (doe - doe / 1460 + doe / 36524 - doe / 146096) / 365
  let y := yoe + era * 400
  let doy := doe - (365 * yoe + yoe / 4 - yoe / 100)
  let mp := (5 * doy + 2) / 153
  let d := doy - (153 * mp + 2) / 5 + 1
  let m := if mp < 10 then mp + 3 else mp - 9
  (if m ≤ 2 then y + 1 else y, m, d)

def civilDate (ms : Int) : Int × Int × Int := civilFromDays (ms / 86400000)

def padded (width : Nat) (n : Int) : Text :=
  let digits := Nat.toDigits 10 n.natAbs
  if n < 0 then '-' :: (List.replicate (width - 1 - digits.length) '0' ++ digits)
  else List.replicate (width - digits.length) '0' ++ digits

def dateText : Int × Int × Int → Text
  | (y, m, d) => padded 4 y ++ '-' :: (padded 2 m ++ '-' :: padded 2 d)

def dateOf (day : Int) : Text :=
  let z := day + 719468
  let era := z / 146097
  let doe := z - era * 146097
  let yoe := (doe - doe / 1460 + doe / 36524 - doe / 146096) / 365
  let doy := doe - (365 * yoe + yoe / 4 - yoe / 100)
  let mp := (5 * doy + 2) / 153
  let d := doy - (153 * mp + 2) / 5 + 1
  let m := if mp < 10 then mp + 3 else mp - 9
  let y := yoe + era * 400 + (if m ≤ 2 then 1 else 0)
  dateText (y, m, d)

def when_ (ms : Int) : Text :=
  let secs := ms / 1000
  let rem := secs % 86400
  dateText (civilFromDays (secs / 86400)) ++ ' ' :: (padded 2 (rem / 3600) ++ ':' ::
    (padded 2 (rem % 3600 / 60) ++ " UTC".toList))

def isoText (ms : Int) : Text :=
  let rem := ms % 86400000
  dateText (civilDate ms) ++ 'T' :: (padded 2 (rem / 3600000) ++ ':' ::
    (padded 2 (rem % 3600000 / 60000) ++ ':' :: (padded 2 (rem % 60000 / 1000) ++ '.' ::
      (padded 3 (rem % 1000) ++ ['Z']))))

example : String.ofList (isoText 1790000000000) = "2026-09-21T14:13:20.000Z" := by decide +kernel

example : isoToMs "2026-09-25T11:07:32.796Z".toList = some (some 1790334452796) := by
  decide +kernel

def daysOf (y m day : Int) : Int :=
  y / 400 * 146097 + (y % 400 * 365 + y % 400 / 4 - y % 400 / 100 +
    ((153 * m + 2) / 5 + day - 1)) - 719468

def Fields.days (f : Fields) : Int :=
  if f.month ≤ 2 then daysOf (f.year - 1) (f.month + 9) f.day
  else daysOf f.year (f.month - 3) f.day

section
variable {doe yoe : Int}

theorem fourths (h₀ : 0 ≤ doe) (h₁ : doe < 146097)
    (hy : yoe = (doe - doe / 1460 + doe / 36524 - doe / 146096) / 365) :
    yoe / 4 = doe / 1460 ∨ yoe / 4 = doe / 1460 - 1 := by omega

theorem hundredths (h₀ : 0 ≤ doe) (h₁ : doe < 146097)
    (hy : yoe = (doe - doe / 1460 + doe / 36524 - doe / 146096) / 365) :
    yoe / 100 = doe / 36524 ∨ yoe / 100 = doe / 36524 - 1 := by omega

theorem era_bounds (h₀ : 0 ≤ doe) (h₁ : doe < 146097)
    (hy : yoe = (doe - doe / 1460 + doe / 36524 - doe / 146096) / 365) :
    (0 ≤ yoe ∧ yoe ≤ 399) ∧ 0 ≤ doe - (365 * yoe + yoe / 4 - yoe / 100) ∧
      doe - (365 * yoe + yoe / 4 - yoe / 100) ≤ 365 := by
  have hfour := fourths h₀ h₁ hy
  have hhundred := hundredths h₀ h₁ hy
  refine ⟨by omega, ?_, ?_⟩
  · obtain h | h := hfour <;> obtain h' | h' := hhundred <;> omega
  · obtain h | h := hfour <;> obtain h' | h' := hhundred <;> omega

end

/-- **The calendar is undone**: a day's date names the day, with a month and a day of a calendar. -/
theorem civilFromDays_spec (z : Int) :
    ∃ y m d, civilFromDays z = (y, m, d) ∧ (1 ≤ m ∧ m ≤ 12) ∧ (1 ≤ d ∧ d ≤ 31) ∧
      ∀ hour minute second, (⟨y, m, d, hour, minute, second⟩ : Fields).days = z := by
  obtain ⟨era, hera⟩ : ∃ era, era = (z + 719468) / 146097 := ⟨_, rfl⟩
  obtain ⟨doe, hdoe⟩ : ∃ doe, doe = (z + 719468) % 146097 := ⟨_, rfl⟩
  obtain ⟨yoe, hyoe⟩ : ∃ yoe, yoe = (doe - doe / 1460 + doe / 36524 - doe / 146096) / 365 :=
    ⟨_, rfl⟩
  obtain ⟨doy, hdoy⟩ : ∃ doy, doy = doe - (365 * yoe + yoe / 4 - yoe / 100) := ⟨_, rfl⟩
  obtain ⟨mp, hmp⟩ : ∃ mp, mp = (5 * doy + 2) / 153 := ⟨_, rfl⟩
  obtain ⟨⟨hy₀, hy₁⟩, hd₀, hd₁⟩ := era_bounds (by omega) (by omega) hyoe
  rw [← hdoy] at hd₀ hd₁
  have hmonths : 0 ≤ mp ∧ mp ≤ 11 := by omega
  refine ⟨if mp < 10 then yoe + era * 400 else yoe + era * 400 + 1,
    if mp < 10 then mp + 3 else mp - 9, doy - (153 * mp + 2) / 5 + 1, ?_, ?_, by omega, ?_⟩
  · simp only [civilFromDays, ← hera, ← hdoe, ← hyoe, ← hdoy, ← hmp]
    by_cases hlate : mp < 10
    · have : ¬ mp + 3 ≤ 2 := by omega
      simp [hlate, this]
    · have : mp - 9 ≤ 2 := by omega
      simp [hlate, this]
  · split <;> omega
  · intro hour minute second
    have hyears : (yoe + era * 400) / 400 = era := by omega
    have hyear : (yoe + era * 400) % 400 = yoe := by omega
    unfold Fields.days daysOf
    by_cases hlate : mp < 10
    · have hmonth : ¬ mp + 3 ≤ 2 := by omega
      have hback : mp + 3 - 3 = mp := by omega
      simp only [hlate, if_true, hmonth, if_false, hback, hyears, hyear]
      omega
    · have hmonth : mp - 9 ≤ 2 := by omega
      have hback : mp - 9 + 9 = mp := by omega
      have hnext : yoe + era * 400 + 1 - 1 = yoe + era * 400 := by omega
      simp only [hlate, if_false, hmonth, if_true, hback, hnext, hyears, hyear]
      omega

theorem dateOf_eq (day : Int) : dateOf day = dateText (civilFromDays day) := by
  have hdoe : day + 719468 - (day + 719468) / 146097 * 146097 = (day + 719468) % 146097 := by
    omega
  have hyear : ∀ (m y : Int), y + (if m ≤ 2 then 1 else 0) = if m ≤ 2 then y + 1 else y := by
    intro m y
    split <;> omega
  simp only [dateOf, civilFromDays, hdoe, hyear]

/-- Each count of what the fields name has a place: the hours up to the day, the minutes up to the
    hour, the seconds up to the minute, the milliseconds up to the second, and with those of the
    fraction. -/
structure Fields.InRange (f : Fields) (millis : Int) : Prop where
  toDay : f.days * 24 ≤ I64.MAX
  toHour : I64.Fits ((f.days * 24 + f.hour) * 60)
  toMinute : I64.Fits (((f.days * 24 + f.hour) * 60 + f.minute) * 60)
  toSecond : I64.Fits ((((f.days * 24 + f.hour) * 60 + f.minute) * 60 + f.second) * 1000)
  whole : (((f.days * 24 + f.hour) * 60 + f.minute) * 60 + f.second) * 1000 + millis ≤ I64.MAX

def Fields.instant (f : Fields) (millis : Int) : Int :=
  (((f.days * 24 + f.hour) * 60 + f.minute) * 60 + f.second) * 1000 + millis

/-- The date's fields are what `parse` makes of a text without a sign. -/
structure Fields.Dated (f : Fields) : Prop where
  year : 0 ≤ f.year ∧ f.year ≤ I64.MAX
  month : 0 ≤ f.month ∧ f.month ≤ I64.MAX
  day : 0 ≤ f.day ∧ f.day ≤ I64.MAX

section
variable {y m day : Int}

theorem divisions (hm : 0 ≤ m) : (153 * m + 2).tdiv 5 = (153 * m + 2) / 5 ∧
    y - y / 400 * 400 = y % 400 ∧ (y % 400).tdiv 4 = y % 400 / 4 ∧
      (y % 400).tdiv 100 = y % 400 / 100 :=
  ⟨Int.tdiv_eq_ediv_of_nonneg (by omega), by omega, Int.tdiv_eq_ediv_of_nonneg (by omega),
    Int.tdiv_eq_ediv_of_nonneg (by omega)⟩

theorem daysOf_of_daysI64 {days : Int} (hm : 0 ≤ m) (h : daysI64 y m day = some days) :
    days = daysOf y m day := by
  obtain ⟨hmonth, hyoe, hleaps, hcenturies⟩ := divisions (y := y) hm
  unfold daysI64 at h
  iterate 16 obtain ⟨-, h⟩ := I64.checked_bind.mp h
  obtain ⟨-, h⟩ := I64.checked_eq_some.mp h
  rw [hmonth, hyoe, hleaps, hcenturies] at h
  rw [← h, daysOf]

theorem daysI64_eq (hy₀ : -1 ≤ y) (hy₁ : y ≤ I64.MAX) (hm₀ : 0 ≤ m) (hm₁ : m ≤ I64.MAX)
    (hd₀ : 0 ≤ day) (hd₁ : day ≤ I64.MAX) (h : daysOf y m day * 24 ≤ I64.MAX) :
    daysI64 y m day = some (daysOf y m day) := by
  obtain ⟨hmonth, hyoe, hleaps, hcenturies⟩ := divisions (y := y) hm₀
  unfold daysOf at h ⊢
  simp only [I64.MAX] at *
  unfold daysI64
  simp only [I64.add, I64.sub, I64.mul, I64.div, I64.divEuclid]
  rw [I64.checked_of_fits (I64.fits_iff.mpr (by omega)), bind_some,
    I64.checked_of_fits (I64.fits_iff.mpr (by omega)), bind_some, hyoe,
    I64.checked_of_fits (I64.fits_iff.mpr (by omega)), bind_some,
    I64.checked_of_fits (I64.fits_iff.mpr (by omega)), bind_some,
    I64.checked_of_fits (I64.fits_iff.mpr (by omega)), bind_some, hmonth,
    I64.checked_of_fits (I64.fits_iff.mpr (by omega)), bind_some,
    I64.checked_of_fits (I64.fits_iff.mpr (by omega)), bind_some,
    I64.checked_of_fits (I64.fits_iff.mpr (by omega)), bind_some,
    I64.checked_of_fits (I64.fits_iff.mpr (by omega)), bind_some, hleaps,
    I64.checked_of_fits (I64.fits_iff.mpr (by omega)), bind_some,
    I64.checked_of_fits (I64.fits_iff.mpr (by omega)), bind_some, hcenturies,
    I64.checked_of_fits (I64.fits_iff.mpr (by omega)), bind_some,
    I64.checked_of_fits (I64.fits_iff.mpr (by omega)), bind_some,
    I64.checked_of_fits (I64.fits_iff.mpr (by omega)), bind_some,
    I64.checked_of_fits (I64.fits_iff.mpr (by omega)), bind_some,
    I64.checked_of_fits (I64.fits_iff.mpr (by omega)), bind_some,
    I64.checked_of_fits (I64.fits_iff.mpr (by omega))]

theorem daysOf_ge (hy : -1 ≤ y) (hm : 0 ≤ m) (hd : 0 ≤ day) : -1000000 ≤ daysOf y m day := by
  unfold daysOf
  omega

end

theorem timeI64_iff {days hour minute second millis ms : Int} (hd : -1000000 ≤ days)
    (hm : 0 ≤ millis) :
    timeI64 days hour minute second millis = some ms ↔
      (days * 24 ≤ I64.MAX ∧ I64.Fits ((days * 24 + hour) * 60) ∧
        I64.Fits (((days * 24 + hour) * 60 + minute) * 60) ∧
        I64.Fits ((((days * 24 + hour) * 60 + minute) * 60 + second) * 1000) ∧
        (((days * 24 + hour) * 60 + minute) * 60 + second) * 1000 + millis ≤ I64.MAX) ∧
      ms = (((days * 24 + hour) * 60 + minute) * 60 + second) * 1000 + millis := by
  unfold timeI64
  simp only [I64.add, I64.mul, I64.checked_bind, I64.checked_eq_some, I64.fits_iff, I64.MAX]
  constructor
  · intro h
    omega
  · intro h
    omega

theorem instantI64_iff {f : Fields} {millis ms : Int} (hf : f.Dated) (hm : 0 ≤ millis) :
    instantI64 f millis = some ms ↔ f.InRange millis ∧ ms = f.instant millis := by
  obtain ⟨⟨hy₀, hy₁⟩, ⟨hm₀, hm₁⟩, hd₀, hd₁⟩ := hf
  have hrange : f.InRange millis ↔
      f.days * 24 ≤ I64.MAX ∧ I64.Fits ((f.days * 24 + f.hour) * 60) ∧
        I64.Fits (((f.days * 24 + f.hour) * 60 + f.minute) * 60) ∧
        I64.Fits ((((f.days * 24 + f.hour) * 60 + f.minute) * 60 + f.second) * 1000) ∧
        (((f.days * 24 + f.hour) * 60 + f.minute) * 60 + f.second) * 1000 + millis ≤ I64.MAX :=
    ⟨fun h => ⟨h.toDay, h.toHour, h.toMinute, h.toSecond, h.whole⟩,
      fun ⟨h₁, h₂, h₃, h₄, h₅⟩ => ⟨h₁, h₂, h₃, h₄, h₅⟩⟩
  -- the days, whichever year the month counts for
  have hdays : ∃ y m, -1 ≤ y ∧ y ≤ I64.MAX ∧ 0 ≤ m ∧ m ≤ I64.MAX ∧ f.days = daysOf y m f.day ∧
      instantI64 f millis = (daysI64 y m f.day).bind fun days =>
        timeI64 days f.hour f.minute f.second millis := by
    have hmax : I64.MAX = 9223372036854775807 := rfl
    unfold instantI64 Fields.days
    by_cases hmonth : f.month ≤ 2
    · refine ⟨f.year - 1, f.month + 9, by omega, by omega, by omega, by omega, if_pos hmonth, ?_⟩
      rw [if_pos hmonth, I64.sub, I64.checked_of_fits (I64.fits_iff.mpr (by omega)),
        bind_some, I64.add, I64.checked_of_fits (I64.fits_iff.mpr (by omega)),
        bind_some]
    · refine ⟨f.year, f.month - 3, by omega, by omega, by omega, by omega, if_neg hmonth, ?_⟩
      rw [if_neg hmonth, I64.sub, I64.checked_of_fits (I64.fits_iff.mpr (by omega)),
        bind_some]
  obtain ⟨y, m, hy, hy', hm', hm'', hday, hinstant⟩ := hdays
  have hlow := daysOf_ge hy hm' hd₀
  rw [hinstant, hrange, hday, Fields.instant, hday, ← timeI64_iff hlow hm]
  constructor
  · intro h
    obtain ⟨days, hsome, htime⟩ := bind_eq_some_iff.mp h
    rw [← daysOf_of_daysI64 hm' hsome]
    exact htime
  · intro h
    have hhours := ((timeI64_iff hlow hm).mp h).1.1
    rw [daysI64_eq hy hy' hm' hm'' hd₀ hd₁ hhours, bind_some]
    exact h

theorem parseI64_fits {text : Text} {n : Int} (h : parseI64 text = some n) : I64.Fits n := by
  unfold parseI64 at h
  split at h
  split at h
  · obtain ⟨hfits, rfl⟩ := I64.checked_eq_some.mp h
    exact hfits
  · cases h

theorem parseI64_nonneg {text : Text} {n : Int} (h : parseI64 text = some n)
    (hsign : '-' ∉ text) : 0 ≤ n := by
  unfold parseI64 at h
  split at h
  rename_i sign digits hread
  split at h
  · obtain ⟨-, rfl⟩ := I64.checked_eq_some.mp h
    split at hread
    · exact absurd mem_cons_self hsign
    · cases hread
      omega
    · cases hread
      omega
  · cases h

theorem three_dashes {text : Text} {a b c : Int} (h : three '-' text = some (a, b, c)) :
    (0 ≤ a ∧ a ≤ I64.MAX) ∧ (0 ≤ b ∧ b ≤ I64.MAX) ∧ (0 ≤ c ∧ c ≤ I64.MAX) := by
  unfold three at h
  split at h
  · rename_i first second third rest hsplit
    have hpieces := @Text.not_mem_splitOn '-' text
    rw [hsplit] at hpieces
    simp only [bind_eq_bind, bind_eq_some_iff] at h
    obtain ⟨a', ha, b', hb, c', hc, habc⟩ := h
    obtain ⟨rfl, hbc⟩ := Prod.mk.inj (Option.some.inj habc)
    cases hbc
    exact ⟨⟨parseI64_nonneg ha (hpieces first (by simp)), (parseI64_fits ha).2⟩,
      ⟨parseI64_nonneg hb (hpieces second (by simp)), (parseI64_fits hb).2⟩,
      ⟨parseI64_nonneg hc (hpieces third (by simp)), (parseI64_fits hc).2⟩⟩
  · cases h

theorem fieldsOf_dated {text fraction : Text} {f : Fields}
    (h : fieldsOf text = some (f, fraction)) : f.Dated := by
  simp only [fieldsOf, bind_eq_bind, bind_eq_some_iff] at h
  obtain ⟨stripped, -, ⟨date, time⟩, -, ⟨year, month, day⟩, hdate, ⟨hour, minute, second⟩, -, hf⟩ := h
  cases hf
  obtain ⟨hyear, hmonth, hday⟩ := three_dashes hdate
  exact ⟨hyear, hmonth, hday⟩

theorem millisOf_bounds {fraction : Text} {millis : Int}
    (h : millisOf fraction = some (some millis)) : 0 ≤ millis := by
  unfold millisOf at h
  split at h
  · cases h
    exact Int.le_refl 0
  · obtain ⟨digits, -, hif⟩ := map_eq_some_iff.mp h
    split at hif
    · rename_i hdigits
      refine parseI64_nonneg hif fun hmem => ?_
      obtain hmem | hmem := mem_append.mp hmem
      · exact absurd (all_eq_true.mp hdigits '-' hmem) (by decide)
      · exact absurd (List.eq_of_mem_replicate hmem) (by decide)
    · cases hif

end Yardsort.Activity.Stamps
