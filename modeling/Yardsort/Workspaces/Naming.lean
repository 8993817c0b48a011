import Yardsort.Activity.Digest

/- What a workspace is called (`core/src/workspaces/naming.rs`, and `workspace_name` of
   `core/src/tasks/delegate.rs`): a few words of what was asked for, or a railway station.

   A set of taken names is a list. `unique` looks at one candidate after another, as far as its
   first argument says. -/
namespace Yardsort.Workspaces.Naming
open Yardsort.Lib
open Activity.Digest (lines)

def MAX_LEN : Nat := 32
def MAX_WORDS : Nat := 4

/-- Words that carry no meaning in a task description. -/
def FILLER : List Text :=
  ["a", "an", "the", "to", "of", "in", "on", "for", "and", "or", "with", "please", "can", "you",
    "could", "would", "we", "i", "me", "my", "our", "it", "is", "are", "be", "that",
    "this"].map String.toList

def STATIONS : List Text :=
  ["paddington", "shinjuku", "grand-central", "gare-du-nord", "atocha", "zurich-hb", "penn",
    "kings-cross", "union", "termini", "centraal", "hauptbahnhof", "luz", "flinders", "waverley",
    "st-pancras", "kyoto", "anhalter", "santa-justa", "sirkeci", "keleti", "oriente",
    "haymarket"].map String.toList

def ACTIONS : List Text :=
  ["add", "fix", "implement", "improve", "refactor", "remove", "rename", "update", "support",
    "create", "replace", "resolve", "investigate", "debug", "optimize", "migrate", "document",
    "write", "test", "enable", "disable", "simplify"].map String.toList

/-- What may stand before the request in its clause. -/
def LEADS : List Text :=
  ["", "please", "can you", "can you please", "could you", "could you please", "would you",
    "would you please", "i want to", "i need to", "we need to", "we should", "let s", "help me",
    "help me to", "i would like to", "i d like to", "task", "goal", "request"].map String.toList

def lowered (text : Text) : Text := text.map Char.toLower

def wordsOf (text : Text) : List Text :=
  (text.splitOnP fun c => !c.isAlphanum).filter (· ≠ [])

def splitText (pat : Text) : Nat → Text → List Text
  | 0, text => [text]
  | n + 1, text =>
    match Text.cut pat text with
    | none => [text]
    | some (before, after) => before :: splitText pat n after

def proseLines : Bool → List Text → List Text
  | _, [] => []
  | fenced, line :: rest =>
    let start := Text.trimStart line
    if "```".toList.isPrefixOf start || "~~~".toList.isPrefixOf start then proseLines (!fenced) rest
    else if fenced then proseLines fenced rest
    else line :: proseLines fenced rest

/-- The request in a clause: from a word that asks for something on, if what leads to it is how
    one asks, and something follows that is not filler. -/
def request (words : List Text) : Option Text :=
  (List.range words.length).findSome? fun i =>
    let lead := lowered ([' '].intercalate (words.take i))
    if ACTIONS.contains (lowered (words.getD i [])) && LEADS.contains lead &&
        (words.drop (i + 1)).any fun word => !FILLER.contains (lowered word) then
      some ([' '].intercalate (words.drop i))
    else none

/-- An explicit request anywhere in the prose, or the prose. -/
def taskText (text : Text) : Text :=
  let prose := ['\n'].intercalate (proseLines false (lines text))
  let clauses := (prose.splitOnP fun c => ['!', '?', '\n', ';'].contains c).flatMap fun line =>
    splitText ['.', ' '] (line.length + 1) line
  (clauses.findSome? fun clause => request (wordsOf clause)).getD prose

def counted (text : Text) (dropFiller : Bool) : List Text :=
  let words := (wordsOf text).map lowered
  let meaningful := words.filter fun word => !dropFiller || !FILLER.contains word
  let chosen := if meaningful = [] then words else meaningful
  chosen.take MAX_WORDS

def slugFrom : Text → List Text → Text
  | slug, [] => slug
  | slug, word :: rest =>
    let extra := if slug = [] then 0 else 1
    if MAX_LEN < slug.length + extra + word.length then
      if slug = [] then word.take MAX_LEN else slug
    else slugFrom (slug ++ (if extra = 1 then ['-'] else []) ++ word) rest

def slug (text : Text) (dropFiller : Bool) : Option Text :=
  let slug := slugFrom [] (counted text dropFiller)
  if slug = [] then none else some slug

def slugify (text : Text) : Option Text := slug (taskText text) true

/-- For names rather than sentences: every word counts. -/
def slugifyName (text : Text) : Option Text := slug text false

def baseName (prompt : Text) (seed : Nat) : Text :=
  (slugify prompt).getD (STATIONS.getD (seed % STATIONS.length) [])

def number (n : Nat) : Text := Nat.toDigits 10 n

def uniqueFrom (base : Text) (taken : Text → Bool) : Nat → Nat → Option Text
  | 0, _ => none
  | fuel + 1, n =>
    let candidate := base ++ '-' :: number n
    if taken candidate then uniqueFrom base taken fuel (n + 1) else some candidate

def unique (fuel : Nat) (base : Text) (taken : Text → Bool) : Option Text :=
  if taken base then uniqueFrom base taken fuel 2 else some base

/-- The words but the last, until they fit: one word stays. -/
def popWords (room : Nat) (words : List Text) : List Text :=
  if 1 < words.length ∧ room < (['-'].intercalate words).length then
    popWords room words.dropLast
  else words
termination_by words.length
decreasing_by
  rw [List.length_dropLast]
  omega

def taskNumber (key : Text) : Text := lowered (key.filter Char.isAlphanum)

def taskTitle (room : Nat) (title : Text) : Option Text :=
  (slugify title).bind fun slug =>
    let kept := ['-'].intercalate (popWords room (slug.splitOn '-'))
    if kept.length ≤ room then some kept else none

def workspaceName (key title : Text) : Text :=
  let number := taskNumber key
  let room := MAX_LEN - (number.length + 1)
  match number, taskTitle room title with
  | [], some title => title
  | [], none => "task".toList
  | number, some title => number ++ '-' :: title
  | number, none => "task-".toList ++ number

def RESERVED : List Text :=
  ["con", "prn", "aux", "nul", "com1", "com2", "com3", "com4", "com5", "com6", "com7", "com8",
    "com9", "lpt1", "lpt2", "lpt3", "lpt4", "lpt5", "lpt6", "lpt7", "lpt8", "lpt9"].map String.toList

def isPlain (c : Char) : Bool := c.isLower || c.isDigit

/-- Letters and digits, and single dashes inside. -/
structure Shaped (name : Text) : Prop where
  any : name ≠ []
  chars : ∀ c ∈ name, isPlain c = true ∨ c = '-'
  begins : name.head? ≠ some '-'
  ends : name.getLast? ≠ some '-'
  single : ¬ ['-', '-'] <:+: name

inductive Asked where
  | prompt (text : Text) (seed : Nat)
  | project (name : Text)
  | task (key title : Text)

def Asked.base : Asked → Text
  | .prompt text seed => baseName text seed
  | .project name => (slugifyName name).getD (baseName [] 0)
  | .task key title => workspaceName key title

/-- A task's key has at most twenty letters and digits. -/
def Asked.Fits : Asked → Prop
  | .task key _ => (key.filter Char.isAlphanum).length ≤ 20
  | _ => True

/-- **A name for a workspace**: free, and safe as a folder and as part of a branch. -/
structure Safe (taken : Text → Bool) (base name : Text) : Prop where
  free : taken name = false
  short : 1 ≤ base.length ∧ base.length ≤ MAX_LEN
  numbered : name = base ∨ ∃ n, name = base ++ '-' :: number n
  shaped : Shaped name
  allowed : name ∉ RESERVED

/-- Of the words only this one is left: it is the first, and the second does not fit beside it. -/
def Leaves (room : Nat) (word : Text) : List Text → Prop
  | [] => False
  | [first] => first = word
  | first :: next :: _ => first = word ∧ room < first.length + 1 + next.length

def Asked.Leaves (word : Text) : Asked → Prop
  | .prompt text _ => Naming.Leaves MAX_LEN word (counted (taskText text) true)
  | .project name => Naming.Leaves MAX_LEN word (counted name false)
  | .task key title => taskNumber key = [] ∧
      Naming.Leaves (MAX_LEN - 1) word (counted (taskText title) true)

end Yardsort.Workspaces.Naming
