import Yardsort.Lib.Text

/- `{{ variables }}` in a workflow's or a smoke test's text (`core/src/template.rs`).

   A placeholder is a dotted name and nothing else, and `\{{` is a literal `{{`. `parse` takes
   a text apart into literal runs and placeholders, or says everything that is wrong with it;
   offsets are in bytes. Characters are Unicode scalar values, as Rust's are. -/
namespace Yardsort.Template
open Yardsort.Lib

structure Placeholder where
  path : List String
  start : Nat
  raw : String
  deriving DecidableEq

structure Malformed where
  start : Nat
  raw : String
  message : String
  deriving DecidableEq

inductive Part where
  | text (literal : String)
  | var (placeholder : Placeholder)
  deriving DecidableEq

def isSegment (segment : Text) : Bool :=
  segment ≠ [] && segment.all (fun c => c.isAlphanum || c = '_' || c = '-')

def name (inner : Text) : Except String (List String) :=
  let trimmed := Text.trim inner
  if trimmed = [] then
    .error "`\x7b\x7b \x7d\x7d` is empty. Put a name inside, like `\x7b\x7b workspace.branch \x7d\x7d`."
  else
    let path := trimmed.splitOn '.'
    if path.all isSegment then .ok (path.map String.ofList)
    else
      .error ("`\x7b\x7b" ++ String.ofList inner ++ "\x7d\x7d` is not a variable. A variable is a " ++
        "dotted name, like `\x7b\x7b workspace.branch \x7d\x7d`, and nothing else.")

def opening : Text := ['{', '{']
def closing : Text := ['}', '}']

def neverClosed : String :=
  "`\x7b\x7b` is never closed with `\x7d\x7d`. Write `\\\x7b\x7b` for a literal `\x7b\x7b`."

structure Parsing where
  parts : List Part
  problems : List Malformed
  literal : Text

def Parsing.flush (p : Parsing) : List Part :=
  if p.literal = [] then p.parts else p.parts ++ [.text (String.ofList p.literal)]

/-- The loop of `parse` over what is left of the text, `offset` bytes into it. Each turn takes
    at least the braces it found, so as many turns as characters are enough. -/
def parseFrom : Nat → Nat → Text → Parsing → Parsing
  | 0, _, rest, p => { p with literal := p.literal ++ rest }
  | fuel + 1, offset, rest, p =>
    match Text.cut opening rest with
    | none => { p with literal := p.literal ++ rest }
    | some (before, after) =>
      let start := offset + Text.byteLen before
      if before.getLast? = some '\\' then
        parseFrom fuel (start + 2) after
          { p with literal := p.literal ++ before.dropLast ++ opening }
      else
        let p := { p with literal := p.literal ++ before }
        match Text.cut closing after with
        | none =>
          let raw := String.ofList (Text.firstLine (opening ++ after))
          { p with problems := p.problems ++ [⟨start, raw, neverClosed⟩] }
        | some (inner, rest) =>
          let raw := String.ofList (opening ++ inner ++ closing)
          let offset := start + 2 + Text.byteLen inner + 2
          match name inner with
          | .ok path =>
            parseFrom fuel offset rest
              { p with parts := p.flush ++ [.var ⟨path, start, raw⟩], literal := [] }
          | .error message =>
            parseFrom fuel offset rest
              { p with problems := p.problems ++ [⟨start, raw, message⟩] }

/-- Split a text into literal runs and placeholders, or say where it goes wrong. -/
def parse (text : String) : Except (List Malformed) (List Part) :=
  let p := parseFrom text.toList.length 0 text.toList { parts := [], problems := [], literal := [] }
  if p.problems = [] then .ok p.flush else .error p.problems

def Part.placeholder? : Part → Option Placeholder
  | .text _ => none
  | .var p => some p

def placeholders (text : String) : List Placeholder :=
  match parse text with
  | .ok parts => parts.filterMap Part.placeholder?
  | .error _ => []

def Part.fill (lookup : List String → Option String) : Part → String
  | .text literal => literal
  | .var p => (lookup p.path).getD ""

def render (text : String) (lookup : List String → Option String) : String :=
  match parse text with
  | .ok parts => String.join (parts.map (Part.fill lookup))
  | .error _ => text

theorem mem_placeholders {text : String} {parts : List Part} (h : parse text = .ok parts)
    {var : Placeholder} : var ∈ placeholders text ↔ Part.var var ∈ parts := by
  rw [placeholders, h, mem_filterMap]
  constructor
  · rintro ⟨part, hpart, hvar⟩
    cases part with
    | text _ => cases hvar
    | var p =>
      cases hvar
      exact hpart
  · intro hvar
    exact ⟨.var var, hvar, rfl⟩

theorem mem_flush {p : Parsing} {var : Placeholder} (h : Part.var var ∈ p.flush) :
    Part.var var ∈ p.parts := by
  rw [Parsing.flush] at h
  split at h
  · exact h
  · obtain h | h := mem_snoc.mp h
    · exact h
    · cases h

theorem parse_plain {text : String} (h : Text.cut opening text.toList = none) :
    parse text = .ok (Parsing.flush ⟨[], [], text.toList⟩) := by
  have hfrom : ∀ fuel offset p, parseFrom fuel offset text.toList p =
      { p with literal := p.literal ++ text.toList } := by
    intro fuel offset p
    cases fuel with
    | zero => rfl
    | succ fuel => rw [parseFrom, h]
  rw [parse, hfrom]
  rfl

theorem placeholders_plain {text : String} (h : Text.cut opening text.toList = none) :
    placeholders text = [] := by
  apply eq_nil_iff_forall_not_mem.mpr
  intro var hvar
  cases mem_flush ((mem_placeholders (parse_plain h)).mp hvar)

theorem cut_opening_none {text : List Char} (h : '{' ∉ text) : Text.cut opening text = none := by
  cases hcut : Text.cut opening text with
  | none => rfl
  | some cut =>
    exact absurd (Text.cut_eq hcut ▸ by simp [opening]) h

example : (parse "PR #\x7b\x7b pr.number \x7d\x7d on \x7b\x7bworkspace.branch\x7d\x7d.").toOption =
    some [.text "PR #", .var ⟨["pr", "number"], 4, "\x7b\x7b pr.number \x7d\x7d"⟩, .text " on ",
      .var ⟨["workspace", "branch"], 23, "\x7b\x7bworkspace.branch\x7d\x7d"⟩, .text "."] := by
  decide +kernel

end Yardsort.Template
