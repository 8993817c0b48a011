import Yardsort.Lib.Utf8

/- What git lists of the files that changed, and how it is read (`core/src/changes.rs`): the
   porcelain status, names with their status, and counts, each with fields that NUL ends.

   An entry of a listing is what git has to say; how it is written is git's documented format. -/
namespace Yardsort.Changes
open Yardsort.Lib

inductive ChangeKind where
  | added
  | modified
  | deleted
  | renamed
  | untracked
  | conflicted
  deriving DecidableEq

structure FileChange where
  path : Text
  oldPath : Option Text
  kind : ChangeKind
  additions : Option Nat
  deletions : Option Nat
  deriving DecidableEq

def text (bytes : Bytes) : Text := Utf8.lossy bytes

def change (path : Text) (oldPath : Option Text) (kind : ChangeKind) : FileChange :=
  ⟨path, oldPath, kind, none, none⟩

def splitN (sep : Char) : Nat → Text → List Text
  | 0, _ => []
  | 1, text => [text]
  | n + 2, text =>
    match Text.cut [sep] text with
    | none => [text]
    | some (before, after) => before :: splitN sep (n + 1) after

def kindOfLetter (letter : UInt8) : ChangeKind :=
  if letter = 0x41 ∨ letter = 0x43 then .added
  else if letter = 0x44 then .deleted
  else if letter = 0x52 then .renamed
  else if letter = 0x55 then .conflicted
  else .modified

def nameStatusOf : List Bytes → List FileChange
  | [] => []
  | status :: rest =>
    let letter := status.headD 0x4D
    match rest with
    | [] => []
    | first :: rest =>
      if letter = 0x52 ∨ letter = 0x43 then
        match rest with
        | [] => []
        | new :: rest =>
          change (text new) (if letter = 0x52 then some (text first) else none)
            (kindOfLetter letter) :: nameStatusOf rest
      else change (text first) none (kindOfLetter letter) :: nameStatusOf rest

def parseNameStatus (output : Bytes) : List FileChange :=
  nameStatusOf ((output.splitOn 0).filter (· ≠ []))

/-- Index and worktree state; whichever says more wins. -/
def kindFromXy (xy : Text) : ChangeKind :=
  if 'D' ∈ xy then .deleted else if 'A' ∈ xy then .added else .modified

def statusOf : List Bytes → List FileChange
  | [] => []
  | record :: rest =>
    match Text.cut [' '] (text record) with
    | some (['1'], line) =>
      let parts := splitN ' ' 8 line
      ((parts[7]?).map fun path => change path none (kindFromXy (parts.headD ['.', '.']))).toList ++
        statusOf rest
    | some (['2'], line) =>
      match rest with
      | [] => (((splitN ' ' 9 line)[8]?).map fun path => change path none .renamed).toList
      | old :: rest =>
        (((splitN ' ' 9 line)[8]?).map fun path =>
          change path (some (text old)) .renamed).toList ++ statusOf rest
    | some (['u'], line) =>
      (((splitN ' ' 10 line)[9]?).map fun path => change path none .conflicted).toList ++
        statusOf rest
    | some (['?'], path) => change path none .untracked :: statusOf rest
    | _ => statusOf rest

def byPath (changes : List FileChange) : List FileChange :=
  changes.mergeSort fun a b => decide (Utf8.encode a.path ≤ Utf8.encode b.path)

def parseStatus (output : Bytes) : List FileChange :=
  byPath (statusOf ((output.splitOn 0).filter (· ≠ [])))

def parseU32 (digits : Text) : Option Nat :=
  let digits := if digits.head? = some '+' then digits.tail else digits
  let n := Nat.ofDigitChars 10 digits 0
  if digits ≠ [] ∧ digits.all Char.isDigit ∧ n < 2 ^ 32 then some n else none

structure Stat where
  path : Text
  added : Option Nat
  deleted : Option Nat

def numstatOf : List Bytes → List Stat
  | [] => []
  | field :: rest =>
    if field = [] then numstatOf rest
    else
      match splitN '\t' 3 (text field) with
      | added :: deleted :: columns =>
        if (columns.headD []) ≠ [] then
          ⟨columns.headD [], parseU32 added, parseU32 deleted⟩ :: numstatOf rest
        else
          -- A rename: the old and the new path follow.
          match rest with
          | _ :: new :: rest => ⟨text new, parseU32 added, parseU32 deleted⟩ :: numstatOf rest
          | _ => []
      | _ => numstatOf rest

def parseNumstat (output : Bytes) : List Stat := numstatOf (output.splitOn 0)

def withStats (changes : List FileChange) (stats : List Stat) : List FileChange :=
  changes.map fun change =>
    match stats.find? (·.path = change.path) with
    | some stat => { change with additions := stat.added, deletions := stat.deleted }
    | none => change

/-- A path: anything but nothing, with no NUL in it. -/
structure Path where
  text : Text
  any : text ≠ []
  plain : '\x00' ∉ text

/-- A column that is not a path: no blank and no NUL. -/
structure Column where
  text : Text
  plain : ∀ c ∈ text, c ≠ ' ' ∧ c ≠ '\x00'

inductive Moved where
  | renamed
  | copied
  deriving DecidableEq

def Moved.letter : Moved → Char
  | .renamed => 'R'
  | .copied => 'C'

inductive FileState where
  | unmodified
  | modified
  | typechanged
  | added
  | deleted
  deriving DecidableEq

def FileState.letter : FileState → Char
  | .unmodified => '.'
  | .modified => 'M'
  | .typechanged => 'T'
  | .added => 'A'
  | .deleted => 'D'

def Moved.change (how : Moved) (path old : Text) : FileChange :=
  match how with
  | .renamed => Changes.change path (some old) .renamed
  | .copied => Changes.change path none .added

def columns (sep : Char) : List Text → Text → Text
  | [], last => last
  | column :: rest, last => column ++ sep :: columns sep rest last

def written (records : List Text) : Bytes :=
  Utf8.encode (records.flatMap (· ++ ['\x00']))

inductive StatusEntry where
  | ordinary (index worktree : FileState) (sub mH mI mW hH hI : Column) (path : Path)
  | moved (how : Moved) (xy sub mH mI mW hH hI score : Column) (path old : Path)
  | unmerged (xy sub m1 m2 m3 mW h1 h2 h3 : Column) (path : Path)
  | untracked (path : Path)
  | ignored (path : Path)

def StatusEntry.records : StatusEntry → List Text
  | .ordinary index worktree sub mH mI mW hH hI path =>
    [columns ' ' [['1'], [index.letter, worktree.letter], sub.text, mH.text, mI.text, mW.text,
      hH.text, hI.text] path.text]
  | .moved how xy sub mH mI mW hH hI score path old =>
    [columns ' ' [['2'], xy.text, sub.text, mH.text, mI.text, mW.text, hH.text, hI.text,
      how.letter :: score.text] path.text, old.text]
  | .unmerged xy sub m1 m2 m3 mW h1 h2 h3 path =>
    [columns ' ' [['u'], xy.text, sub.text, m1.text, m2.text, m3.text, mW.text, h1.text, h2.text,
      h3.text] path.text]
  | .untracked path => [columns ' ' [['?']] path.text]
  | .ignored path => [columns ' ' [['!']] path.text]

def StatusEntry.change : StatusEntry → Option FileChange
  | .ordinary index worktree _ _ _ _ _ _ path =>
    some (Changes.change path.text none
      (if index = .deleted ∨ worktree = .deleted then .deleted
      else if index = .added ∨ worktree = .added then .added
      else .modified))
  | .moved how _ _ _ _ _ _ _ _ path old => some (how.change path.text old.text)
  | .unmerged _ _ _ _ _ _ _ _ _ path => some (Changes.change path.text none .conflicted)
  | .untracked path => some (Changes.change path.text none .untracked)
  | .ignored _ => none

def StatusEntry.copied : StatusEntry → Bool
  | .moved how .. => how = .copied
  | _ => false

inductive NameEntry where
  | added (path : Path)
  | modified (path : Path)
  | typechanged (path : Path)
  | deleted (path : Path)
  | unmerged (path : Path)
  | moved (how : Moved) (score : Column) (path old : Path)

def NameEntry.records : NameEntry → List Text
  | .added path => [['A'], path.text]
  | .modified path => [['M'], path.text]
  | .typechanged path => [['T'], path.text]
  | .deleted path => [['D'], path.text]
  | .unmerged path => [['U'], path.text]
  | .moved how score path old => [how.letter :: score.text, old.text, path.text]

def NameEntry.change : NameEntry → FileChange
  | .added path => Changes.change path.text none .added
  | .modified path | .typechanged path => Changes.change path.text none .modified
  | .deleted path => Changes.change path.text none .deleted
  | .unmerged path => Changes.change path.text none .conflicted
  | .moved how _ path old => how.change path.text old.text

/-- Lines added and deleted; a binary file has none. -/
inductive Counts where
  | lines (added deleted : UInt32)
  | binary

def Counts.columns : Counts → List Text
  | .lines added deleted => [Nat.toDigits 10 added.toNat, Nat.toDigits 10 deleted.toNat]
  | .binary => [['-'], ['-']]

def Counts.stat (counts : Counts) (path : Text) : Stat :=
  match counts with
  | .lines added deleted => ⟨path, some added.toNat, some deleted.toNat⟩
  | .binary => ⟨path, none, none⟩

structure StatEntry where
  counts : Counts
  path : Path
  old : Option Path

def StatEntry.records (entry : StatEntry) : List Text :=
  match entry.old with
  | none => [Changes.columns '\t' entry.counts.columns entry.path.text]
  | some old => [Changes.columns '\t' entry.counts.columns [], old.text, entry.path.text]

def StatEntry.stat (entry : StatEntry) : Stat := entry.counts.stat entry.path.text

end Yardsort.Changes
