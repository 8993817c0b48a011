import Mathlib.Data.List.SplitBy
import Yardsort.Desktop.Drops
import Yardsort.Schedule.When

/- A schedule's time in its dialog (`src/features/schedules/when.ts`): `specOf` reads the fields,
   `fieldsOf` opens them on a spec, and what is saved is `check`ed by the core.

   The engine the dialog runs in is a parameter: its zone, and how it reads a date and a number. A
   count is exact here; past the numbers an engine counts by, either one is longer than a year.

   `dialog_iff` says which specs come back from the dialog. -/
namespace Yardsort.Desktop.When
open Yardsort.Lib Yardsort.Schedule
open Drops (isSpace)

inductive WhenKind where
  | once
  | every
  | daily
  | weekly
  | monthly
  | cron

inductive EveryUnit where
  | minutes
  | hours
  | days

structure WhenFields where
  kind : WhenKind
  atLocal : Text
  every : Text
  unit : EveryUnit
  time : Text
  days : List Weekday
  day : Text
  expr : Text

def DEFAULT_WHEN : WhenFields where
  kind := .daily
  atLocal := []
  every := "1".toList
  unit := .hours
  time := "09:00".toList
  days := [.mon, .tue, .wed, .thu, .fri]
  day := "1".toList
  expr := "0 9 * * 1-5".toList

def PER : EveryUnit → Nat
  | .minutes => 1
  | .hours => 60
  | .days => 1440

structure Local where
  year : Int
  month : Nat
  date : Nat
  hours : Nat
  minutes : Nat
  deriving DecidableEq

structure Engine where
  /-- How many minutes its clock is ahead at an instant: whole ones, as in every zone now. -/
  offset : Int → Int
  /-- What the clock shows, of the minutes it counts. -/
  shown : Int → Local
  /-- The instant a minute of the clock is taken for. -/
  utc : Int → Int
  /-- Whether `Date` reads a year as it is written. -/
  reads : Int → Bool
  /-- `new Date(text).getTime()`, where it is finite. -/
  date : Text → Option Int
  /-- `Number(text)`, where it is an integer. -/
  number : Text → Option Int

def jsTrim (text : Text) : Text := ((text.dropWhile isSpace).reverse.dropWhile isSpace).reverse

def numeral (digits : Text) : Nat := Nat.ofDigitChars 10 digits 0

def parseTime (text : Text) : Option TimeOfDay :=
  let hour := (jsTrim text).takeWhile Char.isDigit
  match (jsTrim text).dropWhile Char.isDigit with
  | ':' :: minute =>
    if (hour.length = 1 ∨ hour.length = 2) ∧ minute.length = 2 ∧ minute.all Char.isDigit then
      if numeral hour < 24 ∧ numeral minute < 60 then some ⟨numeral hour, numeral minute⟩ else none
    else none
  | _ => none

def str (n : Nat) : Text := (toString n).toList

def two (n : Nat) : Text := List.replicate (2 - (str n).length) '0' ++ str n

def Local.text (d : Local) : Text :=
  (toString d.year).toList ++ '-' :: two d.month ++ '-' :: two d.date ++ 'T' :: two d.hours ++
    ':' :: two d.minutes

def Engine.minuteAt (e : Engine) (time : Int) : Int := (time + 60000 * e.offset time) / 60000

def toLocalInput (e : Engine) (time : Int) : Text := (e.shown (e.minuteAt time)).text

def specOf (e : Engine) (fields : WhenFields) : Option ScheduleSpec :=
  let time := parseTime fields.time
  match fields.kind with
  | .once => if fields.atLocal = [] then none else (e.date fields.atLocal).map .once
  | .every =>
    let count := numeral (jsTrim fields.every)
    if jsTrim fields.every = [] ∨ !(jsTrim fields.every).all Char.isDigit ∨ count < 1 then none
    else some (.every (count * PER fields.unit))
  | .daily => time.map .daily
  | .weekly => if fields.days = [] then none else time.map (.weekly fields.days)
  | .monthly => time.bind fun time =>
    if fields.day = "last".toList then some (.monthly none time)
    else (e.number fields.day).bind fun day =>
      if 1 ≤ day ∧ day ≤ 28 then some (.monthly (some day.toNat) time) else none
  | .cron =>
    let expr := jsTrim fields.expr
    if expr = [] then none else some (.cron (String.ofList expr))

def clock (time : TimeOfDay) : Text := two time.hour ++ ':' :: two time.minute

def unitOf (minutes : Nat) : EveryUnit :=
  if minutes % 1440 = 0 then .days else if minutes % 60 = 0 then .hours else .minutes

def fieldsOf (e : Engine) : Option ScheduleSpec → WhenFields
  | none => DEFAULT_WHEN
  | some (.once time) => { DEFAULT_WHEN with kind := .once, atLocal := toLocalInput e time }
  | some (.every minutes) =>
    let unit := unitOf minutes
    { DEFAULT_WHEN with kind := .every, every := str (minutes / PER unit), unit := unit }
  | some (.daily time) => { DEFAULT_WHEN with kind := .daily, time := clock time }
  | some (.weekly days time) =>
    { DEFAULT_WHEN with kind := .weekly, days := days, time := clock time }
  | some (.monthly day time) =>
    { DEFAULT_WHEN with
      kind := .monthly
      day := (day.map str).getD "last".toList
      time := clock time }
  | some (.cron expr) => { DEFAULT_WHEN with kind := .cron, expr := expr.toList }

theorem str_eq (n : Nat) : str n = Nat.toDigits 10 n := Nat.toList_repr

theorem isDigit_str {n : Nat} {c : Char} (h : c ∈ str n) : c.isDigit = true := by
  rw [str_eq] at h
  exact Nat.isDigit_of_mem_toDigits (by decide) (by decide) h

theorem str_ne_nil (n : Nat) : str n ≠ [] := by
  rw [str_eq]
  exact Nat.toDigits_ne_nil

theorem numeral_str (n : Nat) : numeral (str n) = n := by
  rw [str_eq]
  exact Nat.ofDigitChars_ten_toDigits

theorem digit_not_space {c : Char} (h : c.isDigit = true) :
    isSpace c = false ∧ Text.isWhitespace c = false := by
  simp only [Char.isDigit, Bool.and_eq_true, decide_eq_true_eq] at h
  have hlow : 48 ≤ c.toNat := h.1
  have hhigh : c.toNat ≤ 57 := h.2
  constructor <;> simp only [isSpace, Text.isWhitespace] <;> grind

theorem dropWhile_of_none {text : Text} (h : ∀ c ∈ text, isSpace c = false) :
    text.dropWhile isSpace = text := by
  cases text with
  | nil => rfl
  | cons c rest => rw [List.dropWhile_cons, h c mem_cons_self, if_neg Bool.false_ne_true]

theorem jsTrim_of_none {text : Text} (h : ∀ c ∈ text, isSpace c = false) : jsTrim text = text := by
  have hback : ∀ c ∈ text.reverse, isSpace c = false := fun c hc => h c (mem_reverse.mp hc)
  rw [jsTrim, dropWhile_of_none h, dropWhile_of_none hback, List.reverse_reverse]

theorem jsTrim_str (n : Nat) : jsTrim (str n) = str n :=
  jsTrim_of_none fun _ h => (digit_not_space (isDigit_str h)).1

theorem two_spec : ∀ n < 60, (two n).length = 2 ∧ (two n).all Char.isDigit = true ∧
    numeral (two n) = n := by
  decide

theorem parseTime_clock {time : TimeOfDay} (hhour : time.hour < 24) (hminute : time.minute < 60) :
    parseTime (clock time) = some time := by
  obtain ⟨hlen, hdigits, hval⟩ := two_spec time.hour (by omega)
  obtain ⟨mlen, mdigits, mval⟩ := two_spec time.minute hminute
  have htrim : jsTrim (clock time) = clock time := by
    apply jsTrim_of_none
    intro c hc
    rcases mem_append.mp hc with hc | hc
    · exact (digit_not_space (all_eq_true.mp hdigits c hc)).1
    rcases mem_cons.mp hc with rfl | hc
    · rfl
    · exact (digit_not_space (all_eq_true.mp mdigits c hc)).1
  simp only [parseTime, htrim]
  rw [clock, List.takeWhile_append_of_pos (all_eq_true.mp hdigits),
    List.dropWhile_append_of_pos (all_eq_true.mp hdigits)]
  simp [hlen, mlen, mdigits, hval, mval, hhour, hminute]

theorem parseTime_range {text : Text} {time : TimeOfDay} (h : parseTime text = some time) :
    time.hour < 24 ∧ time.minute < 60 := by
  simp only [parseTime] at h
  split at h
  · rw [ite_none_right_eq_some, ite_none_right_eq_some] at h
    cases h.2.2
    exact h.2.1
  · cases h

theorem trim_between {before after : Text} (text : Text)
    (hbefore : ∀ c ∈ before, Text.isWhitespace c = true)
    (hafter : ∀ c ∈ after, Text.isWhitespace c = true) :
    Text.trim (before ++ text ++ after) = Text.trim text := by
  have hback : ∀ c ∈ after.reverse, Text.isWhitespace c = true := fun c hc =>
    hafter c (mem_reverse.mp hc)
  simp only [Text.trim, Text.trimStart]
  rw [append_assoc, List.dropWhile_append_of_pos hbefore, List.dropWhile_append]
  split
  · rename_i hempty
    have hgone : after.dropWhile Text.isWhitespace = [] := by
      rw [← append_nil after]
      exact List.dropWhile_append_of_pos hafter
    rw [hgone, isEmpty_iff.mp hempty]
  · rw [reverse_append, List.dropWhile_append_of_pos hback]

theorem trimmed_between (p : Char → Bool) (text : Text) : ∃ before after,
    text = before ++ ((text.dropWhile p).reverse.dropWhile p).reverse ++ after ∧
      (∀ c ∈ before, p c = true) ∧ ∀ c ∈ after, p c = true := by
  refine ⟨text.takeWhile p, ((text.dropWhile p).reverse.takeWhile p).reverse, ?_,
    all_eq_true.mp List.all_takeWhile,
    fun c hc => all_eq_true.mp List.all_takeWhile c (mem_reverse.mp hc)⟩
  rw [append_assoc, ← reverse_append, List.takeWhile_append_dropWhile, List.reverse_reverse,
    List.takeWhile_append_dropWhile]

theorem space_whitespace {c : Char} (h : isSpace c = true) (hmark : c ≠ '\uFEFF') :
    Text.isWhitespace c = true := by
  have hne : c.toNat ≠ 0xFEFF := fun heq => hmark (Char.toNat_inj.mp heq)
  simp only [isSpace, Text.isWhitespace] at h ⊢
  grind

theorem mem_trim {text : Text} {c : Char} (h : c ∈ text) (hc : Text.isWhitespace c = false) :
    c ∈ Text.trim text := by
  obtain ⟨first, last, hcore, hfirst, hlast⟩ := trimmed_between Text.isWhitespace text
  rw [hcore, mem_append, mem_append] at h
  rcases h with (h | h) | h
  · rw [hfirst c h] at hc
    cases hc
  · exact h
  · rw [hlast c h] at hc
    cases hc

theorem trim_jsTrim {text : Text} (hmark : '\uFEFF' ∉ Text.trim text) :
    Text.trim (jsTrim text) = Text.trim text := by
  have hspace {c : Char} (hc : c ∈ text) (h : isSpace c = true) : Text.isWhitespace c = true :=
    space_whitespace h fun heq => hmark (mem_trim (heq ▸ hc) (by decide))
  obtain ⟨before, after, hjs, hbefore, hafter⟩ := trimmed_between isSpace text
  have hjs : text = before ++ jsTrim text ++ after := hjs
  have hsub {c : Char} (hc : c ∈ before ∨ c ∈ after) : c ∈ text := by
    rw [hjs, mem_append, mem_append]
    exact hc.imp_left Or.inl
  have hbetween := trim_between (jsTrim text) (fun c hc => hspace (hsub (.inl hc)) (hbefore c hc))
    fun c hc => hspace (hsub (.inr hc)) (hafter c hc)
  rw [← hbetween, ← hjs]

/-- Text that is one field: neither language takes any of it for a space. -/
def Word (word : Text) : Prop :=
  word ≠ [] ∧ ∀ c ∈ word, isSpace c = false ∧ Text.isWhitespace c = false

theorem Word.head {word : Text} (h : Word word) (rest : Text) :
    ∀ c ∈ (word ++ rest).head?, Text.isWhitespace c = false := by
  intro c hc
  rw [List.head?_append_of_ne_nil _ h.1] at hc
  exact (h.2 c (mem_of_mem_head? hc)).2

theorem Word.count {word : Text} (h : Word word) : countFields word = 1 := by
  have hchain : word.IsChain fun a b => (Text.isWhitespace a == Text.isWhitespace b) = true := by
    apply List.Pairwise.isChain
    apply List.pairwise_of_forall_mem_list
    intro a ha b hb
    rw [(h.2 a ha).2, (h.2 b hb).2]
    rfl
  rw [countFields, List.splitBy_of_isChain h.1 hchain, countP_singleton]
  simpa using fun c hc => (h.2 c hc).2

theorem Word.countFields_cons {word rest : Text} (h : Word word)
    (hrest : ∀ c ∈ rest.head?, Text.isWhitespace c = false) :
    countFields (word ++ ' ' :: rest) = 1 + countFields rest := by
  have hone := h.count
  rw [countFields] at hone
  rw [countFields, List.splitBy_append, countP_append, hone, ← singleton_append, List.splitBy_append,
    countP_append]
  · exact congrArg (1 + ·) (Nat.zero_add _)
  · intro a ha b hb
    rw [hrest b hb]
    cases ha
    rfl
  · intro a ha b hb
    rw [(h.2 a (mem_of_getLast? ha)).2]
    cases hb
    rfl

inductive MonthDay : String → Prop where
  | any : MonthDay "*"
  | last : MonthDay "L"
  | nth {day : Nat} (h : 1 ≤ day ∧ day ≤ 28) : MonthDay (toString day)

inductive WeekDays : String → Prop where
  | any : WeekDays "*"
  | some {days : List Nat} (hne : days ≠ []) (h : ∀ day ∈ days, day < 7) :
    WeekDays (",".intercalate (days.map toString))

def timed (time : TimeOfDay) (day days : String) : String :=
  cronOf.clock time ++ " " ++ day ++ " * " ++ days

structure Works {Z : Type} (c : Calendar Z) (now : Moment Z) : Prop where
  mark : ∀ expr, c.parse expr = .ok () → '\uFEFF' ∉ expr.toList
  holds : ∀ minutes : Nat, minutes ≤ MOST_MINUTES →
    c.holds (now.ms + minutes * 60000) = true
  names : ∀ {time : TimeOfDay} {day days : String}, time.hour < 24 ∧ time.minute < 60 →
    MonthDay day → WeekDays days → c.parse (timed time day days) = .ok () ∧
      ∃ next, c.findNextOccurrence (timed time day days) now = .ok next

theorem word_str (n : Nat) : Word (str n) :=
  ⟨str_ne_nil n, fun _ hc => digit_not_space (isDigit_str hc)⟩

theorem word_one {c : Char} (h : isSpace c = false ∧ Text.isWhitespace c = false) : Word [c] :=
  ⟨cons_ne_nil _ _, fun _ hd => mem_singleton.mp hd ▸ h⟩

theorem MonthDay.word {day : String} (h : MonthDay day) : Word day.toList := by
  cases h with
  | any | last => exact word_one (by decide)
  | nth _ => exact word_str _

theorem word_intercalate {numbers : List Nat} (hne : numbers ≠ []) :
    Word ([','].intercalate (numbers.map str)) := by
  induction numbers with
  | nil => exact absurd rfl hne
  | cons n numbers ih =>
    cases numbers with
    | nil =>
      rw [map_singleton, intercalate_singleton]
      exact word_str n
    | cons next numbers =>
      have hrest := ih (cons_ne_nil _ _)
      rw [map_cons, map_cons, intercalate_cons_cons]
      refine ⟨by simp, fun c hc => ?_⟩
      rcases mem_append.mp hc with hc | hc
      · rcases mem_append.mp hc with hc | hc
        · exact (word_str n).2 c hc
        · cases mem_singleton.mp hc
          exact ⟨rfl, rfl⟩
      · exact hrest.2 c hc

theorem WeekDays.word {days : String} (h : WeekDays days) : Word days.toList := by
  cases h with
  | any => exact word_one (by decide)
  | some hne _ =>
    rw [String.toList_intercalate, map_map]
    exact word_intercalate hne

section
variable {Z : Type} {c : Calendar Z} {now : Moment Z} {time : TimeOfDay} {day days : String}

theorem text_timed : (timed time day days).toList = str time.minute ++ ' ' :: (str time.hour ++
    ' ' :: (day.toList ++ ' ' :: (['*'] ++ ' ' :: days.toList))) := by
  simp [timed, cronOf.clock, str, String.toList_append]

theorem countFields_timed (hday : Word day.toList) (hdays : Word days.toList) :
    countFields (timed time day days).toList = 5 := by
  have hstar : Word ['*'] := word_one (by decide)
  rw [text_timed, (word_str _).countFields_cons ((word_str _).head _),
    (word_str _).countFields_cons (hday.head _), hday.countFields_cons (hstar.head _),
    hstar.countFields_cons (append_nil days.toList ▸ hdays.head []), hdays.count]

theorem Works.next (h : Works c now) (ht : time.hour < 24 ∧ time.minute < 60)
    (hday : MonthDay day) (hdays : WeekDays days) :
    ∃ next, nextByCron c (timed time day days) now = .ok (some next) := by
  obtain ⟨hparse, next, hnext⟩ := h.names ht hday hdays
  have hfive : countFields (timed time day days).toList = 5 :=
    countFields_timed hday.word hdays.word
  have hsome : Text.trim (timed time day days).toList ≠ [] := by
    have hstar : '*' ∈ (timed time day days).toList := by simp [timed, String.toList_append]
    exact ne_nil_of_mem (mem_trim hstar (by decide))
  refine ⟨next, ?_⟩
  simp [nextByCron, parse, hsome, hfive, hparse, hnext, Except.mapError]

theorem check_daily (h : Works c now) (ht : time.hour < 24 ∧ time.minute < 60) :
    check c (.daily time) now = .ok () := by
  obtain ⟨next, hnext⟩ := h.next ht .any .any
  have hexpr : (cronOf (.daily time)).getD "" = timed time "*" "*" := by
    simp [cronOf, timed, String.append_assoc]
  simp only [check, TimeOfDay.check, ht, nextAfter, hexpr, hnext]
  rfl

theorem check_weekly {weekdays : List Weekday} (h : Works c now) (hdays : weekdays ≠ [])
    (ht : time.hour < 24 ∧ time.minute < 60) : check c (.weekly weekdays time) now = .ok () := by
  have hperm := List.perm_insertionSort (· ≤ ·) (weekdays.map Weekday.cron)
  have hne : ((weekdays.map Weekday.cron).insertionSort (· ≤ ·)).dedup ≠ [] := by
    intro hempty
    rw [List.dedup_eq_nil] at hempty
    rw [hempty] at hperm
    exact hdays (map_eq_nil_iff.mp hperm.nil_eq.symm)
  have hlt : ∀ day ∈ ((weekdays.map Weekday.cron).insertionSort (· ≤ ·)).dedup, day < 7 := by
    intro day hday
    obtain ⟨weekday, -, rfl⟩ := mem_map.mp (hperm.mem_iff.mp (List.mem_dedup.mp hday))
    cases weekday <;> decide
  obtain ⟨next, hnext⟩ := h.next ht .any (.some hne hlt)
  have hexpr : (cronOf (.weekly weekdays time)).getD "" = timed time "*" (",".intercalate
      (((weekdays.map Weekday.cron).insertionSort (· ≤ ·)).dedup.map toString)) := by
    simp [cronOf, timed, String.append_assoc]
  simp only [check, TimeOfDay.check, ht, nextAfter, hexpr, hnext, if_neg hdays]
  rfl

theorem check_monthly {nth : Option Nat} (h : Works c now) (hnth : ∀ n ∈ nth, 1 ≤ n ∧ n ≤ 28)
    (ht : time.hour < 24 ∧ time.minute < 60) : check c (.monthly nth time) now = .ok () := by
  have hday : MonthDay ((nth.map toString).getD "L") := by
    cases nth with
    | none => exact .last
    | some n => exact .nth (hnth n rfl)
  obtain ⟨next, hnext⟩ := h.next ht hday .any
  have hexpr : (cronOf (.monthly nth time)).getD "" = timed time ((nth.map toString).getD "L") "*" := by
    cases nth <;> simp [cronOf, timed, String.append_assoc]
  have hany : (nth.any fun day => !(1 ≤ day && day ≤ 28)) = false := by
    cases nth with
    | none => rfl
    | some n => simpa using hnth n rfl
  simp only [check, TimeOfDay.check, ht, nextAfter, hexpr, hnext, hany]
  rfl

theorem check_every {minutes : Nat} (h : Works c now) (hpos : 0 < minutes) :
    check c (.every minutes) now = if MOST_MINUTES < minutes then
      .error "The longest a schedule repeats is every year." else .ok () := by
  split
  · rename_i hlong
    simp only [check, if_neg hpos.ne', if_pos hlong]
    rfl
  · rename_i hshort
    have hholds := h.holds minutes (by omega)
    have hmax : max minutes 1 = minutes := by omega
    simp only [check, if_neg hpos.ne', if_neg hshort, nextAfter, hmax, nextStep, Option.filter_none,
      hholds]
    rfl

end

/-! ## What comes back -/

structure Engine.Sound (e : Engine) : Prop where
  /-- What the clock shows is read as the instant it is taken for. -/
  date : ∀ minute, e.date (e.shown minute).text =
    if e.reads (e.shown minute).year then some (e.utc minute) else none
  whole : ∀ minute, e.utc minute % 60000 = 0
  /-- A minute is taken for the first instant that shows it, where one does. -/
  first : ∀ time minute, time + 60000 * e.offset time = 60000 * minute →
    e.utc minute ≤ time ∧ e.utc minute + 60000 * e.offset (e.utc minute) = 60000 * minute
  number : ∀ n : Nat, 1 ≤ n ∧ n ≤ 28 → e.number (str n) = some n

/-- A whole minute, the first to show its time of the clock, in a year that is read. -/
def Engine.Tells (e : Engine) (time : Int) : Prop :=
  time % 60000 = 0 ∧ e.reads (e.shown (e.minuteAt time)).year = true ∧
    ∀ other, other + 60000 * e.offset other = time + 60000 * e.offset time → time ≤ other

def Same : ScheduleSpec → ScheduleSpec → Prop
  | .cron expr, .cron other => Text.trim expr.toList = Text.trim other.toList
  | spec, other => spec = other

/-- Opened in the dialog and saved unchanged, a spec is the same and fires at the same times. -/
def ComesBack {Z : Type} (e : Engine) (c : Calendar Z) (spec : ScheduleSpec) : Prop :=
  ∃ saved, specOf e (fieldsOf e (some spec)) = some saved ∧ Same saved spec ∧
    ∀ after anchor, nextAfter c saved after anchor = nextAfter c spec after anchor

section
variable {Z : Type} {e : Engine} {c : Calendar Z} {now : Moment Z}

theorem comesBack_self {spec : ScheduleSpec} (h : specOf e (fieldsOf e (some spec)) = some spec)
    (hsame : Same spec spec) : ComesBack e c spec :=
  ⟨spec, h, hsame, fun _ _ => rfl⟩

theorem specOf_once (he : e.Sound) (time : Int) : specOf e (fieldsOf e (some (.once time))) =
    if e.reads (e.shown (e.minuteAt time)).year then some (.once (e.utc (e.minuteAt time)))
    else none := by
  have htext : toLocalInput e time ≠ [] := by simp [toLocalInput, Local.text]
  show (if toLocalInput e time = [] then none
    else (e.date (toLocalInput e time)).map ScheduleSpec.once) = _
  rw [if_neg htext, toLocalInput, he.date]
  split <;> rfl

theorem utc_minuteAt (he : e.Sound) (time : Int) : e.utc (e.minuteAt time) = time ↔
    time % 60000 = 0 ∧
      ∀ other, other + 60000 * e.offset other = time + 60000 * e.offset time → time ≤ other := by
  have hminute : time % 60000 = 0 →
      time + 60000 * e.offset time = 60000 * e.minuteAt time := by
    rw [Engine.minuteAt]
    omega
  constructor
  · intro h
    have hwhole := h ▸ he.whole (e.minuteAt time)
    refine ⟨hwhole, fun other hother => ?_⟩
    exact h ▸ (he.first other _ (hother.trans (hminute hwhole))).1
  · rintro ⟨hwhole, hfirst⟩
    obtain ⟨hle, hshown⟩ := he.first time _ (hminute hwhole)
    exact Int.le_antisymm hle (hfirst _ (hshown.trans (hminute hwhole).symm))

theorem once_comesBack (he : e.Sound) (time : Int) :
    ComesBack e c (.once time) ↔ e.Tells time := by
  have hspec := specOf_once he time
  constructor
  · rintro ⟨saved, hsaved, hsame, -⟩
    rw [hspec, ite_none_right_eq_some] at hsaved
    obtain ⟨hreads, heq⟩ := hsaved
    cases heq
    obtain ⟨hwhole, hfirst⟩ := (utc_minuteAt he time).mp (ScheduleSpec.once.inj hsame)
    exact ⟨hwhole, hreads, hfirst⟩
  · rintro ⟨hwhole, hreads, hfirst⟩
    have hutc := (utc_minuteAt he time).mpr ⟨hwhole, hfirst⟩
    rw [hreads, hutc] at hspec
    exact comesBack_self hspec rfl

theorem every_comesBack {minutes : Nat} (hpos : 0 < minutes) :
    ComesBack e c (.every minutes) := by
  have hdvd : minutes / PER (unitOf minutes) * PER (unitOf minutes) = minutes := by
    unfold unitOf
    split
    · exact Nat.div_mul_cancel (Nat.dvd_of_mod_eq_zero ‹_›)
    split
    · exact Nat.div_mul_cancel (Nat.dvd_of_mod_eq_zero ‹_›)
    · exact Nat.div_mul_cancel (Nat.one_dvd _)
  have hcount : ¬minutes / PER (unitOf minutes) < 1 := fun hlt => by
    rw [Nat.lt_one_iff.mp hlt] at hdvd
    omega
  have hdigits : (str (minutes / PER (unitOf minutes))).all Char.isDigit = true :=
    all_eq_true.mpr fun c hc => isDigit_str hc
  refine comesBack_self ?_ rfl
  simp [specOf, fieldsOf, jsTrim_str, numeral_str, str_ne_nil, hdigits, hcount, hdvd]

theorem parse_ok {expr : Text} (hc : Works c now)
    (h : parse c (String.ofList expr) = .ok ()) : expr ≠ [] ∧ '\uFEFF' ∉ expr := by
  simp only [parse, String.toList_ofList] at h
  split at h
  · cases h
  · rename_i hne
    refine ⟨fun hempty => hne (by rw [hempty]; rfl), ?_⟩
    split at h
    · cases h
    · cases hread : c.parse (String.ofList expr) with
      | error why =>
        rw [hread] at h
        cases h
      | ok read =>
        have hmark := hc.mark _ hread
        rwa [String.toList_ofList] at hmark

theorem cron_comesBack {expr : String} (hc : Works c now)
    (hok : check c (.cron expr) now = .ok ()) : ComesBack e c (.cron expr) := by
  have hparse : parse c (String.ofList (Text.trim expr.toList)) = .ok () := by
    cases hread : parse c (String.ofList (Text.trim expr.toList)) with
    | ok read => rfl
    | error why =>
      simp only [check, nextAfter, cronOf, Option.getD_some, nextByCron, hread] at hok
      cases hok
  obtain ⟨hne, hmark⟩ := parse_ok hc hparse
  have htrim := trim_jsTrim hmark
  have hsome : jsTrim expr.toList ≠ [] := fun hempty => hne (by rw [← htrim, hempty]; rfl)
  refine ⟨.cron (String.ofList (jsTrim expr.toList)), ?_, ?_, fun after anchor => ?_⟩
  · show (if jsTrim expr.toList = [] then none else _) = _
    rw [if_neg hsome]
    rfl
  · rw [Same, String.toList_ofList, htrim]
  · rw [nextAfter, nextAfter, cronOf, cronOf, String.toList_ofList, htrim]

theorem daily_comesBack {time : TimeOfDay} (hok : check c (.daily time) now = .ok ()) :
    ComesBack e c (.daily time) := by
  have ht : time.hour < 24 ∧ time.minute < 60 := by
    by_contra hno
    simp only [check, TimeOfDay.check, if_neg hno] at hok
    cases hok
  refine comesBack_self ?_ rfl
  simp [specOf, fieldsOf, parseTime_clock ht.1 ht.2]

theorem weekly_comesBack {days : List Weekday} {time : TimeOfDay}
    (hok : check c (.weekly days time) now = .ok ()) : ComesBack e c (.weekly days time) := by
  have hne : days ≠ [] := by
    rintro rfl
    cases hok
  have ht : time.hour < 24 ∧ time.minute < 60 := by
    by_contra hno
    simp only [check, TimeOfDay.check, if_neg hno, if_neg hne] at hok
    cases hok
  refine comesBack_self ?_ rfl
  simp [specOf, fieldsOf, hne, parseTime_clock ht.1 ht.2]

theorem monthly_comesBack {day : Option Nat} {time : TimeOfDay} (he : e.Sound)
    (hok : check c (.monthly day time) now = .ok ()) : ComesBack e c (.monthly day time) := by
  have hday : (day.any fun day => !(1 ≤ day && day ≤ 28)) = false := by
    by_contra hno
    simp only [check, Bool.not_eq_false] at hok hno
    rw [hno] at hok
    cases hok
  have ht : time.hour < 24 ∧ time.minute < 60 := by
    by_contra hno
    simp only [check, TimeOfDay.check, if_neg hno, hday] at hok
    cases hok
  refine comesBack_self ?_ rfl
  cases day with
  | none => simp [specOf, fieldsOf, parseTime_clock ht.1 ht.2]
  | some n =>
    have hn : 1 ≤ n ∧ n ≤ 28 := by simpa using hday
    have hlast : str n ≠ ['l', 'a', 's', 't'] := fun heq =>
      absurd (isDigit_str (n := n) (c := 'l') (heq ▸ by decide)) (by decide)
    have hint : (1 : Int) ≤ n ∧ (n : Int) ≤ 28 := by omega
    simp [specOf, fieldsOf, parseTime_clock ht.1 ht.2, hlast, he.number n hn, hint]

theorem specOf_checked (hc : Works c now) {fields : WhenFields} {spec : ScheduleSpec}
    (h : specOf e fields = some spec) (honce : ∀ time, spec ≠ .once time)
    (hcron : ∀ expr, spec ≠ .cron expr) : check c spec now = .ok () ∨
      check c spec now = .error "The longest a schedule repeats is every year." ∧
        ∃ minutes, spec = .every minutes ∧ MOST_MINUTES < minutes := by
  simp only [specOf] at h
  split at h
  · rw [Option.ite_none_left_eq_some, map_eq_some_iff] at h
    obtain ⟨-, time, -, rfl⟩ := h
    exact absurd rfl (honce time)
  · rw [Option.ite_none_left_eq_some] at h
    obtain ⟨hcount, h⟩ := h
    cases h
    have hunit : 0 < PER fields.unit := by cases fields.unit <;> decide
    have hone : 0 < numeral (jsTrim fields.every) := by
      by_contra hno
      exact hcount (.inr (.inr (by omega)))
    have hchecked := check_every hc (Nat.mul_pos hone hunit)
    split at hchecked
    · rename_i hlong
      exact .inr ⟨hchecked, _, rfl, hlong⟩
    · exact .inl hchecked
  · obtain ⟨time, htime, rfl⟩ := map_eq_some_iff.mp h
    exact .inl (check_daily hc (parseTime_range htime))
  · rw [Option.ite_none_left_eq_some, map_eq_some_iff] at h
    obtain ⟨hdays, time, htime, rfl⟩ := h
    exact .inl (check_weekly hc hdays (parseTime_range htime))
  · obtain ⟨time, htime, h⟩ := bind_eq_some_iff.mp h
    have ht := parseTime_range htime
    split at h
    · cases h
      exact .inl (check_monthly hc (fun _ hn => nomatch hn) ht)
    · obtain ⟨day, -, h⟩ := bind_eq_some_iff.mp h
      rw [ite_none_right_eq_some] at h
      obtain ⟨hday, h⟩ := h
      cases h
      refine .inl (check_monthly hc (fun n hn => ?_) ht)
      cases hn
      omega
  · rw [Option.ite_none_left_eq_some] at h
    obtain ⟨-, h⟩ := h
    cases h
    exact absurd rfl (hcron _)

/-- **The dialog keeps a schedule's times.** A spec the core accepts comes back from it as it was
    unless it is a `once` whose instant its local time does not tell; and what its fields make,
    a `once` and a cron text aside, the core accepts or finds too long. -/
theorem dialog_iff (he : e.Sound) (hc : Works c now) :
    (∀ spec, check c spec now = .ok () →
      (ComesBack e c spec ↔ ∀ time, spec = .once time → e.Tells time)) ∧
    ∀ fields spec, specOf e fields = some spec → (∀ time, spec ≠ .once time) →
      (∀ expr, spec ≠ .cron expr) → check c spec now = .ok () ∨
        check c spec now = .error "The longest a schedule repeats is every year." ∧
          ∃ minutes, spec = .every minutes ∧ MOST_MINUTES < minutes := by
  refine ⟨fun spec hok => ?_, fun fields spec h honce hcron => specOf_checked hc h honce hcron⟩
  have hother (hback : ComesBack e c spec) (hnot : ∀ time, spec ≠ .once time) :
      ComesBack e c spec ↔ ∀ time, spec = .once time → e.Tells time :=
    ⟨fun _ time heq => absurd heq (hnot time), fun _ => hback⟩
  cases spec with
  | once time =>
    rw [once_comesBack he]
    exact ⟨fun htells _ heq => ScheduleSpec.once.inj heq ▸ htells, fun hall => hall time rfl⟩
  | every minutes =>
    have hpos : 0 < minutes := Nat.pos_of_ne_zero fun hzero => by
      subst hzero
      cases hok
    exact hother (every_comesBack hpos) fun _ => nofun
  | daily time => exact hother (daily_comesBack hok) fun _ => nofun
  | weekly days time => exact hother (weekly_comesBack hok) fun _ => nofun
  | monthly day time => exact hother (monthly_comesBack he hok) fun _ => nofun
  | cron expr => exact hother (cron_comesBack hc hok) fun _ => nofun

end

def epoch : Engine where
  offset _ := 0
  shown minute := if minute = 0 then ⟨1970, 1, 1, 0, 0⟩ else ⟨10000, 1, 1, 0, 0⟩
  utc minute := 60000 * minute
  reads year := year = 1970
  date text := if text = "1970-01-01T00:00".toList then some 0 else none
  number text := ((List.range 29).find? fun n => str n = text).map Int.ofNat

theorem epoch_sound : epoch.Sound where
  date minute := by
    by_cases hzero : minute = 0
    · subst hzero
      decide
    · have hfar : (Local.mk 10000 1 1 0 0).text ≠ "1970-01-01T00:00".toList := by decide
      simp only [epoch, if_neg hzero, if_neg hfar]
      rfl
  whole minute := by
    show 60000 * minute % 60000 = 0
    omega
  first time minute h := by
    change time + 60000 * 0 = 60000 * minute at h
    show 60000 * minute ≤ time ∧ 60000 * minute + 60000 * 0 = 60000 * minute
    omega
  number n hn := by
    have hall : ∀ n < 29, 1 ≤ n → epoch.number (str n) = some (Int.ofNat n) := by decide
    exact hall n (by omega) hn.1

def nights : Calendar Unit where
  holds _ := true
  parse expr := if '\uFEFF' ∈ expr.toList then .error "illegal character" else .ok ()
  findNextOccurrence _ after := .ok ((after.ms / 86400000 + 1) * 86400000)

theorem Word.mark {word : Text} (h : Word word) : '\uFEFF' ∉ word := fun hin =>
  absurd (h.2 _ hin).1 (by decide)

theorem nights_works (now : Moment Unit) : Works nights now where
  mark expr h := by
    intro hin
    simp only [nights, if_pos hin] at h
    cases h
  holds _ _ := rfl
  names {time day days} _ hday hdays := by
    have hnone : '\uFEFF' ∉ (timed time day days).toList := by
      rw [text_timed]
      simp [(word_str _).mark, hday.word.mark, hdays.word.mark]
    simp [nights, if_neg hnone]

theorem dialog_iff_midnight : ComesBack epoch nights (.daily ⟨0, 0⟩) :=
  ((dialog_iff epoch_sound (nights_works ⟨0, ()⟩)).1 (.daily ⟨0, 0⟩) rfl).mpr fun _ => nofun

/-- A `once` half a minute on is saved as the minute. -/
theorem once_loses_seconds : check nights (.once 30000) ⟨0, ()⟩ = .ok () ∧
    specOf epoch (fieldsOf epoch (some (.once 30000))) = some (.once 0) ∧
      ¬ComesBack epoch nights (.once 30000) := by
  have hsaved : specOf epoch (fieldsOf epoch (some (.once 30000))) = some (.once 0) :=
    (specOf_once epoch_sound 30000).trans rfl
  refine ⟨by simp [check, nextAfter, nights]; rfl, hsaved, ?_⟩
  rintro ⟨saved, hback, hsame, -⟩
  rw [hsaved] at hback
  cases hback
  cases ScheduleSpec.once.inj hsame

end Yardsort.Desktop.When
