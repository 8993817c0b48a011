import Mathlib.Data.List.Dedup
import Mathlib.Data.List.Sort
import Yardsort.Lib.Text

/- When a schedule fires: `ScheduleSpec` and `check` of `core/src/schedule/mod.rs`, and
   `next_after` of `core/src/schedule/when.rs`.

   A moment is milliseconds since the epoch, on a clock in some zone: what is compared with
   it is whole milliseconds. The calendar and the cron library are parameters (`Calendar`),
   and what the code relies on of them is that a time found is after the one asked about
   (`Calendar.Ahead`). -/
namespace Yardsort.Schedule
open Yardsort.Lib

structure TimeOfDay where
  hour : Nat
  minute : Nat

inductive Weekday where
  | mon
  | tue
  | wed
  | thu
  | fri
  | sat
  | sun

def Weekday.cron : Weekday → Nat
  | .sun => 0
  | .mon => 1
  | .tue => 2
  | .wed => 3
  | .thu => 4
  | .fri => 5
  | .sat => 6

inductive ScheduleSpec where
  | once (time : Int)
  | every (minutes : Nat)
  | daily (time : TimeOfDay)
  | weekly (days : List Weekday) (time : TimeOfDay)
  | monthly (day : Option Nat) (time : TimeOfDay)
  | cron (expr : String)

structure Moment (Z : Type) where
  ms : Int
  zone : Z

inductive CronError where
  | timeSearchLimitExceeded
  | other (text : String)

structure Calendar (Z : Type) where
  /-- Whether it can hold a time (`timestamp_millis_opt`). -/
  holds : Int → Bool
  parse : String → Except String Unit
  /-- The next time an expression that parses names. -/
  findNextOccurrence : String → Moment Z → Except CronError Int

/-- A time found is after the one asked about. -/
def Calendar.Ahead {Z : Type} (c : Calendar Z) : Prop :=
  ∀ expr after next, c.findNextOccurrence expr after = .ok next → after.ms < next

/-- The cron expression a spec means; `none` for the kinds that are not a time of day. -/
def cronOf : ScheduleSpec → Option String
  | .daily time => some (clock time ++ " * * *")
  | .weekly days time =>
    let days := ((days.map Weekday.cron).insertionSort (· ≤ ·)).dedup
    some (clock time ++ " * * " ++ ",".intercalate (days.map toString))
  | .monthly (some day) time => some (clock time ++ " " ++ toString day ++ " * *")
  | .monthly none time => some (clock time ++ " L * *")
  | .cron expr => some (String.ofList (Text.trim expr.toList))
  | .once _ | .every _ => none
where
  clock (time : TimeOfDay) : String := toString time.minute ++ " " ++ toString time.hour

example : cronOf (.weekly [.sun, .wed, .mon] ⟨18, 30⟩) = some "30 18 * * 0,1,3" := by decide +kernel

def countFields (expr : Text) : Nat :=
  (expr.splitBy fun a b => Text.isWhitespace a == Text.isWhitespace b).countP
    fun field => field.all fun c => !Text.isWhitespace c

def notCron (expr error : String) : String :=
  "`" ++ String.ofList (Text.trim expr.toList) ++ "` is not a cron expression: " ++ error

def parse {Z : Type} (c : Calendar Z) (expr : String) : Except String Unit :=
  let trimmed := Text.trim expr.toList
  let fields := countFields expr.toList
  if trimmed = [] then
    .error "Write a cron expression: minute, hour, day, month, day of week."
  else if trimmed.head? ≠ some '@' ∧ fields ≠ 5 then
    .error ("`" ++ String.ofList trimmed ++ "` has " ++ toString fields ++ " " ++
      (if fields = 1 then "field" else "fields") ++
      "; a cron expression here has five: minute, hour, day of the month, month, day of the week.")
  else (c.parse expr).mapError (notCron expr)

def nextByCron {Z : Type} (c : Calendar Z) (expr : String) (after : Moment Z) :
    Except String (Option Int) :=
  match parse c expr with
  | .error why => .error why
  | .ok () =>
    match c.findNextOccurrence expr after with
    | .ok next => .ok (some next)
    -- a well-formed expression for a date no calendar has
    | .error .timeSearchLimitExceeded => .ok none
    | .error (.other error) => .error (notCron expr error)

/-- A whole number of intervals after the anchor, or one after now. -/
def nextStep (step now : Int) (anchor : Option Int) : Int :=
  match anchor.filter (· ≤ now) with
  | some anchor => anchor + ((now - anchor) / step + 1) * step
  | none => now + step

/-- The first time `spec` fires after `after`; `none` when there is none. `anchor` is the time an
    `every` last came due. -/
def nextAfter {Z : Type} (c : Calendar Z) (spec : ScheduleSpec) (after : Moment Z)
    (anchor : Option Int) : Except String (Option Int) :=
  match spec with
  | .once time =>
    if c.holds time then .ok (if after.ms < time then some time else none)
    else .error "That is not a time."
  | .every minutes =>
    let next := nextStep ((max minutes 1 : Nat) * 60000) after.ms anchor
    if c.holds next then .ok (some next) else .error "That is too far away."
  | .daily _ | .weekly _ _ | .monthly _ _ | .cron _ =>
    nextByCron c ((cronOf spec).getD "") after

section
variable {Z : Type} {c : Calendar Z} {spec : ScheduleSpec} {after : Moment Z}
  {anchor : Option Int} {next : Int}

theorem nextByCron_ahead {expr : String} (hc : c.Ahead)
    (h : nextByCron c expr after = .ok (some next)) : after.ms < next := by
  unfold nextByCron at h
  split at h
  · cases h
  split at h
  · rename_i found
    cases h
    exact hc _ _ _ found
  · cases h
  · cases h

theorem nextStep_gt {step now : Int} (hstep : 0 < step) : now < nextStep step now anchor := by
  unfold nextStep
  split
  · rename_i last _
    -- the whole steps since the anchor, and one more
    have hdiv := Int.emod_add_mul_ediv (now - last) step
    have hmod := Int.emod_lt_of_pos (now - last) hstep
    rw [Int.add_mul, Int.one_mul, Int.mul_comm ((now - last) / step)]
    omega
  · omega

/-- **The next time is still to come**, whatever the kind. -/
theorem nextAfter_ahead (hc : c.Ahead) (h : nextAfter c spec after anchor = .ok (some next)) :
    after.ms < next := by
  cases spec with
  | once time =>
    rw [nextAfter] at h
    split at h
    · have h := Except.ok.inj h
      split at h
      · rename_i hlt
        cases h
        exact hlt
      · cases h
    · cases h
  | every minutes =>
    rw [nextAfter] at h
    split at h
    · cases h
      exact nextStep_gt (by omega)
    · cases h
  | daily time | weekly days time | monthly day time
  | cron expr => rw [nextAfter] at h; exact nextByCron_ahead hc h

end

def MOST_MINUTES : Nat := 366 * 24 * 60

def padded (n : Nat) : String := if n < 10 then "0" ++ toString n else toString n

def TimeOfDay.check (time : TimeOfDay) : Except String Unit :=
  if time.hour < 24 ∧ time.minute < 60 then .ok ()
  else .error ("`" ++ padded time.hour ++ ":" ++ padded time.minute ++ "` is not a time of day.")

/-- What is wrong with a spec, in words, or nothing. A `once` must still be to come. -/
def check {Z : Type} (c : Calendar Z) (spec : ScheduleSpec) (now : Moment Z) :
    Except String Unit := do
  match spec with
  | .once time => if time ≤ now.ms then throw "That time has already passed."
  | .every minutes =>
    if minutes = 0 then throw "The shortest a schedule repeats is every minute."
    if MOST_MINUTES < minutes then throw "The longest a schedule repeats is every year."
  | .daily time => time.check
  | .weekly days time =>
    if days = [] then throw "Pick at least one day of the week."
    time.check
  | .monthly day time =>
    if day.any fun day => !(1 ≤ day && day ≤ 28) then
      throw "Pick a day from 1 to 28, or the last day, so no month is left out."
    time.check
  | .cron _ => pure ()
  match ← nextAfter c spec now none with
  | some _ => pure ()
  | none => throw "That never comes."

end Yardsort.Schedule
