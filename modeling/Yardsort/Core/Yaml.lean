import Yardsort.Lib.Text

/- What the workflow parser and the smoke test parser have in common (`core/src/yaml.rs`):
   problems with a line and a column, positions in the source, durations, names, and "did you
   mean". -/
namespace Yardsort.Yaml
open Yardsort.Lib

def MAX_TIMEOUT_SECS : Nat := 7 * 24 * 60 * 60

structure Location where
  line : Nat
  column : Nat

structure Spanned (α : Type) where
  value : α
  referenced : Location

structure Problem where
  line : Option Nat
  column : Option Nat
  message : String
  deriving DecidableEq

def Problem.at (line column : Nat) (message : String) : Problem :=
  { line := some (line % 2^32), column := some (column % 2^32), message := message }

def Problem.whole (message : String) : Problem :=
  { line := none, column := none, message := message }

structure Invalid where
  id : Option String
  name : Option String
  problems : List Problem
  deriving DecidableEq

def problemAt (location : Location) (message : String) : Problem :=
  .at location.line location.column message

def isName (text : String) : Bool :=
  text.toList.head?.any Char.isLower &&
    text.toList.all (fun c => c.isLower || c.isDigit || c = '_' || c = '-')

def isId (text : String) : Bool :=
  Text.byteLen text.toList ≤ 64 &&
    text.toList.head?.any (fun c => c.isLower || c.isDigit) &&
    text.toList.all (fun c => c.isLower || c.isDigit || c = '-')

inductive HeadValue where
  | number (n : Nat)
  | text (text : String)
  | other

def HeadValue.text? : HeadValue → Option String
  | .text said => some said
  | .number n => some (toString n)
  | .other => none

/-- Just enough of a file to name it, read leniently. -/
structure Head where
  id : Option (Spanned HeadValue)
  name : Option (Spanned HeadValue)
  version : Option (Spanned HeadValue)

structure Heading where
  id : Option String
  name : Option String
  laterVersion : Option Problem

def laterVersion (version : Spanned HeadValue) (kind : String) (current : Nat) : Option Problem :=
  match version.value with
  | .number n =>
    if current < n then
      some (problemAt version.referenced (s!"This file is for a later Yardsort ({kind} version {n}); "
        ++ s!"this one reads version {current}. Update Yardsort to run it."))
    else none
  | _ => none

def heading (head : Option Head) (kind : String) (current : Nat) : Heading where
  id := head.bind (·.id) |>.bind (·.value.text?)
  name := head.bind (·.name) |>.bind (·.value.text?)
  laterVersion := head.bind (·.version) |>.bind (laterVersion · kind current)

def capitalise (text : String) : String :=
  match text.toList with
  | [] => ""
  | c :: cs => String.ofList (c.toUpper :: cs)

def trimStartMatches (pat : Text) : Nat → Text → Text
  | 0, text => text
  | fuel + 1, text =>
    if pat <+: text then trimStartMatches pat fuel (text.drop pat.length) else text

def withoutArticle (what : String) : String :=
  let text := trimStartMatches "a ".toList what.length what.toList
  String.ofList (trimStartMatches "an ".toList what.length text)

def unitOf (text : Text) : Option (Text × Nat) :=
  match text.getLast? with
  | some 's' => some (text.dropLast, 1)
  | some 'm' => some (text.dropLast, 60)
  | some 'h' => some (text.dropLast, 60 * 60)
  | _ => none

def digits (number : Text) : Nat :=
  number.foldl (fun n c => n * 10 + (c.toNat - '0'.toNat)) 0

/-- `45m`, `30s`, `2h`: a whole number and one unit, in seconds. -/
def duration (text : String) (what : String) : Except String Nat :=
  let text := Text.trim text.toList
  let notADuration :=
    "`" ++ String.ofList text ++ "` is not " ++ what ++ ". Write " ++ what ++
      " as a whole number and s, m or h, like `45m`."
  match unitOf text with
  | none => .error notADuration
  | some (number, scale) =>
    if number = [] ∨ ¬ number.all Char.isDigit then .error notADuration
    else if 2^64 ≤ digits number then .error notADuration
    else
      let secs := min (digits number * scale) (2^64 - 1)
      if secs = 0 then .error (capitalise (withoutArticle what) ++ " of zero would end at once.")
      else if MAX_TIMEOUT_SECS < secs then
        .error (capitalise what ++ " may be at most a week (`168h`).")
      else .ok secs

/-- Where `needle` occurs, in bytes, without overlaps and leaving out occurrences escaped with a
    backslash: `skip` characters of an occurrence are still to pass. -/
def unescaped (needle : Text) : Nat → Nat → Option Char → Text → List Nat
  | _, _, _, [] => []
  | skip + 1, offset, _, c :: cs => unescaped needle skip (offset + c.utf8Size) (some c) cs
  | 0, offset, prev, c :: cs =>
    if needle <+: c :: cs then
      let rest := unescaped needle (needle.length - 1) (offset + c.utf8Size) (some c) cs
      if prev = some '\\' then rest else offset :: rest
    else unescaped needle 0 (offset + c.utf8Size) (some c) cs

def offsetOf : Nat → Nat → Text → Option (Text × Text)
  | 0, column, text => some (text.take (column - 1), text.drop (column - 1))
  | lines + 1, column, text =>
    (Text.cut ['\n'] text).bind fun (line, rest) =>
      (offsetOf lines column rest).map fun (before, rest) => (line ++ '\n' :: before, rest)

def positionOf (before : Text) : Nat × Nat :=
  (before.count '\n' + 1, (before.reverse.takeWhile (· ≠ '\n')).length + 1)

/-- Where in `source` the text `raw`, found at byte `start` of `value`, is written: the same
    occurrence of it counted from where the value begins. -/
def find (source : Text) (field : Location) (value raw : String) (start : Nat) : Nat × Nat :=
  match offsetOf (field.line - 1) field.column source with
  | none => (field.line, field.column)
  | some (before, rest) =>
    let nth := ((unescaped raw.toList 0 0 none value.toList).takeWhile (· < start)).length
    match (unescaped raw.toList 0 0 none rest)[nth]? with
    | some found => positionOf (before ++ Text.takeBytes found rest)
    | none => (field.line, field.column)

def list (items : List String) : String := ", ".intercalate (items.map (fun item => "`" ++ item ++ "`"))

/-- One row of the edit distance, from the row before: `diagonal` is the entry above and to the
    left, `left` the one to the left. -/
def distanceRow (ca : Char) : Nat → Nat → List Char → List Nat → List Nat
  | diagonal, left, cb :: b, above :: row =>
    let here := if ca = cb then diagonal else 1 + min (min diagonal left) above
    here :: distanceRow ca above here b row
  | _, _, _, _ => []

def distance (a b : String) : Nat :=
  let b := b.toList
  let row := a.toList.foldl (fun (i, row) ca =>
      (i + 1, (i + 1) :: distanceRow ca (row.headD 0) (i + 1) b row.tail)) (0, List.range (b.length + 1))
  row.2.getLastD 0

def closest (name : String) : List String → Option String
  | [] => none
  | k :: known =>
    match closest name known with
    | none => some k
    | some other => if distance name k ≤ distance name other then some k else some other

def suggestion (name : String) (known : List String) : String :=
  match closest name (known.filter (fun k => distance name k ≤ 2)) with
  | some k => ". Did you mean `" ++ k ++ "`?"
  | none => "."

example : (duration " 2h " "a timeout").toOption = some 7200 := by decide +kernel
example : suggestion "reveiw" ["review", "notify"] = ". Did you mean `review`?" := by decide +kernel

end Yardsort.Yaml
