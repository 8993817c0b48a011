import Mathlib.Data.List.Infix
import Yardsort.Lib.Text

/- The path of a file an agent reports, relative to the workspace: `workspace_relative`,
   `is_absolute` and `normalized` (`core/src/activity.rs`), with the paths of a tool call that
   Claude Code's and OpenCode's adapters give it (`tool_path` of `core/src/activity/claude.rs`,
   `relative` of `core/src/activity/opencode.rs`).

   Below it, what the two kinds of platform say of a path: how it starts, what parts its components,
   what `..` stops at, and which names are the same (`Platform`). -/
namespace Yardsort.Activity.Paths
open Yardsort.Lib

def DOT : Text := ['.']
def DOTS : Text := ['.', '.']

def isSep (c : Char) : Bool := c == '/' || c == '\\'

def isAbsolute : Text → Bool
  | '/' :: _ => true
  | '\\' :: _ => true
  -- `path.get(1..3)` is `:\` or `:/`
  | c :: ':' :: s :: _ => c.utf8Size == 1 && isSep s
  | _ => false

def endsWithColon (part : Text) : Bool := part.getLast? == some ':'

/-- One component more: `.` is dropped, and `..` takes the last one away, if that is not a drive. -/
def step (parts : List Text) (part : Text) : List Text :=
  if part = [] ∨ part = DOT then parts
  else if part = DOTS then
    if parts.getLast?.any (!endsWithColon ·) then parts.dropLast else parts
  else parts ++ [part]

def normalized (base : List Text) (path : Text) : List Text := (path.splitOnP isSep).foldl step base

def eqIgnoreAsciiCase (a b : Text) : Bool := a.map Char.toLower == b.map Char.toLower

/-- Only a drive-lettered path is compared without case. -/
def sameAs (root : List Text) (a b : Text) : Bool :=
  if root.head?.any endsWithColon then eqIgnoreAsciiCase a b else a == b

/-- A path an agent reported, relative to the workspace, or nothing, and a flag, when it is
    somewhere else. -/
def workspaceRelative (path : Text) : Option Text → Option Text × Bool
  | none => (none, true)
  | some cwd =>
    let root := normalized [] cwd
    let full := if isAbsolute path then normalized [] path else normalized root path
    let inside := root.length ≤ full.length ∧ (root.zip full).all fun (a, b) => sameAs root a b
    if ¬ inside then (none, true)
    else
      let relative := ['/'].intercalate (full.drop root.length)
      if relative = [] then (some DOT, false) else (some relative, false)

abbrev Field := Option (Option Text)

def toolPath (filePath notebookPath : Field) (cwd : Option Text) : Option Text × Bool :=
  match (filePath.or notebookPath).join with
  | none => (none, false)
  | some path => workspaceRelative path cwd

/-- The file a tool is about, as OpenCode's plugin has it: measured against the tool's own
    `workdir`, or else against the directory of the launch. -/
def relative (filePath workdir directory : Option Text) : Option Text × Bool :=
  match filePath with
  | some path => workspaceRelative path (workdir.or directory)
  | none => (none, false)

/-- Windows compares names without their case, by a table of its own. -/
inductive Platform where
  | unix
  | windows (fold : Char → Char)

inductive Start where
  | relative
  /-- From `/`. -/
  | root
  /-- `C:\`. -/
  | drive (name : Text)
  | share (server name : Text)
  /-- From the top of the directory's own drive: `\`. -/
  | top
  /-- From where another program left a drive: `C:` and no separator. -/
  | onDrive (name : Text)
  /-- Two separators and no share. -/
  | nowhere
  deriving DecidableEq

def Start.anchor : Start → Option (List Text)
  | root => some []
  | drive name => some [name]
  | share server name => some [server, name]
  | _ => none

structure Place where
  anchor : List Text
  comps : List Text
  deriving DecidableEq

def move (comps : List Text) (part : Text) : List Text :=
  if part = [] ∨ part = DOT then comps
  else if part = DOTS then comps.dropLast
  else comps ++ [part]

def walk (comps parts : List Text) : List Text := parts.foldl move comps

def readUnix (path : Text) : Start × List Text :=
  match path with
  | [] => (.relative, [[]])
  | c :: rest =>
    if c = '/' then (.root, rest.splitOnP (· == '/')) else (.relative, path.splitOnP (· == '/'))

def readWindows (path : Text) : Start × List Text :=
  match path with
  | [] => (.relative, [[]])
  | [c] => if isSep c then (.top, [[]]) else (.relative, path.splitOnP isSep)
  | c :: d :: rest =>
    if c.isAlpha ∧ d = ':' then
      match rest with
      | [] => (.onDrive [c, ':'], [[]])
      | s :: after =>
        if isSep s then (.drive [c, ':'], after.splitOnP isSep)
        else (.onDrive [c, ':'], rest.splitOnP isSep)
    else if isSep c ∧ isSep d then
      match rest.splitOnP isSep with
      | server :: name :: parts => (.share server name, parts)
      | parts => (.nowhere, parts)
    else if isSep c then (.top, (d :: rest).splitOnP isSep)
    else (.relative, path.splitOnP isSep)

namespace Platform

def sep : Platform → Char → Bool
  | unix, c => c == '/'
  | windows _, c => isSep c

/-- What two names that are the same have in common. -/
def key : Platform → Text → Text
  | unix, name => name
  | windows fold, name => name.map fold

def keys (p : Platform) (names : List Text) : List Text := names.map p.key

def read : Platform → Text → Start × List Text
  | unix, path => readUnix path
  | windows _, path => readWindows path

def directory (p : Platform) (path : Text) : Option Place :=
  let (start, parts) := p.read path
  start.anchor.map fun anchor => ⟨anchor, walk [] parts⟩

def place (p : Platform) (dir : Place) (path : Text) : Option Place :=
  let (start, parts) := p.read path
  match start with
  | .relative => some ⟨dir.anchor, walk dir.comps parts⟩
  | .top => some ⟨dir.anchor, walk [] parts⟩
  | .onDrive name =>
    if p.keys dir.anchor = p.keys [name] then some ⟨dir.anchor, walk dir.comps parts⟩ else none
  | start => start.anchor.map fun anchor => ⟨anchor, walk [] parts⟩

def Same (p : Platform) (a b : Place) : Prop :=
  p.keys a.anchor = p.keys b.anchor ∧ p.keys a.comps = p.keys b.comps

def LiesIn (p : Platform) (a dir : Place) : Prop :=
  p.keys a.anchor = p.keys dir.anchor ∧ p.keys dir.comps <+: p.keys a.comps

instance (p : Platform) (a dir : Place) : Decidable (p.LiesIn a dir) :=
  inferInstanceAs (Decidable (_ ∧ _))

end Platform

/-- What is to be answered for a path: where it lies in the directory, a path without `..` that
    names the same place once joined to the directory, and otherwise nothing. -/
structure Right (p : Platform) (cwd : Text) (dir : Place) (path : Text)
    (answer : Option Text × Bool) : Prop where
  inside : ∀ at_, p.place dir path = some at_ → p.LiesIn at_ dir →
    ∃ text, answer = (some text, false) ∧ DOTS ∉ text.splitOnP p.sep ∧
      ∃ joined, p.directory (cwd ++ '/' :: text) = some joined ∧ p.Same joined at_
  outside : (∀ at_, p.place dir path = some at_ → ¬ p.LiesIn at_ dir) → answer = (none, true)

def Proper (name : Text) : Prop := name ≠ [] ∧ name ≠ DOT ∧ name ≠ DOTS

/-- A path that starts and is parted as `is_absolute` and both separators have it: on Unix, without
    a backslash, and not as with a drive; on Windows, not from the top of a drive nor from within
    one. -/
def Platform.Alike : Platform → Text → Prop
  | unix, path => '\\' ∉ path ∧ ((readUnix path).1 = .relative → isAbsolute path = false)
  | windows _, path =>
    match (readWindows path).1 with
    | .relative => isAbsolute path = false
    | .drive _ => True
    | .share server name => (Proper server ∧ endsWithColon server = false) ∧ Proper name
    | _ => False

/-- Each `..` is taken where it stops at the anchor exactly if it stops at a name that ends in a
    colon. -/
def steady (anchor : List Text) : List Text → List Text → Bool
  | _, [] => true
  | comps, part :: parts =>
    (part ≠ DOTS || (anchor ++ comps).getLast?.all fun last => endsWithColon last == comps.isEmpty) &&
      steady anchor (move comps part) parts

/-- Case counts as it does on the platform, up to and including the first two names that differ. -/
def Platform.Cased (p : Platform) (root : List Text) : List Text → List Text → Prop
  | name :: names, other :: others =>
    (sameAs root name other = true ↔ p.key name = p.key other) ∧
      (p.key name = p.key other → p.Cased root names others)
  | _, _ => True

/-- What a directory and a path must be for the answer to be right, as far as `.` and `..` go. -/
structure Level (p : Platform) (cwd : Text) (dir : Place) (path : Text) : Prop where
  cwdAlike : p.Alike cwd
  pathAlike : p.Alike path
  cwdSteady : steady dir.anchor [] (p.read cwd).2 = true
  pathSteady : (p.read path).1 = .relative → steady dir.anchor dir.comps (p.read path).2 = true
  pathSteady' : ∀ anchor, (p.read path).1.anchor = some anchor →
    steady anchor [] (p.read path).2 = true

/-- What they must be for the answer to be right. The names are compared only for a place with as
    many as the directory has. -/
structure Plain (p : Platform) (cwd : Text) (dir : Place) (path : Text) : Prop extends
    Level p cwd dir path where
  cased : ∀ at_, p.place dir path = some at_ →
    (dir.anchor ++ dir.comps).length ≤ (at_.anchor ++ at_.comps).length →
      p.Cased (dir.anchor ++ dir.comps) (dir.anchor ++ dir.comps) (at_.anchor ++ at_.comps)

example : workspaceRelative "../b/./c.rs".toList (some "/w/b".toList) =
    (some "c.rs".toList, false) := by decide +kernel

end Yardsort.Activity.Paths
