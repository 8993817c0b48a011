import Yardsort.Core.Template

/- What the parts of a template are (`parse`, `placeholders` and `render` of
   `core/src/template.rs`): `Reconstructs` reads a text as literal runs, with every `{{` that is
   escaped written `\{{`, and as placeholders where they stand; `parse_reconstructs` says that the
   parts of a text it accepts are such a reading of it. -/
namespace Yardsort.Template
open Yardsort.Lib

def Plain (run : Text) : Prop := ¬ opening <:+: run

/-- A literal as it is written: plain runs, and `\{{` after each but the last. -/
def written (runs : List Text) (last : Text) : Text := runs.flatMap (· ++ '\\' :: opening) ++ last

def meant (runs : List Text) (last : Text) : Text := runs.flatMap (· ++ opening) ++ last

def Part.isVar : Part → Bool
  | .text _ => false
  | .var _ => true

/-- The parts stand for a text that begins so many bytes into the template. -/
inductive Reconstructs : Nat → List Part → Text → Prop
  | nil (offset : Nat) : Reconstructs offset [] []
  /-- A literal is not empty, and no other follows it; a `{{` right after it is not escaped. -/
  | text {offset : Nat} {runs : List Text} {last : Text} {parts : List Part} {rest : Text}
      (plain : ∀ run ∈ runs, Plain run) (lastPlain : Plain last) (nonempty : meant runs last ≠ [])
      (next : ∀ part ∈ parts.head?, part.isVar ∧ last.getLast? ≠ some '\\')
      (more : Reconstructs (offset + Text.byteLen (written runs last)) parts rest) :
      Reconstructs offset (.text (String.ofList (meant runs last)) :: parts)
        (written runs last ++ rest)
  /-- A placeholder stands where it says, and its path is the trimmed name split at its dots. -/
  | var {offset : Nat} {inner : Text} {path : List String} {parts : List Part} {rest : Text}
      (closes : ¬ closing <:+: inner) (split : path.map String.toList = (Text.trim inner).splitOn '.')
      (valid : ∀ segment ∈ path, isSegment segment.toList)
      (more : Reconstructs (offset + Text.byteLen (opening ++ inner ++ closing)) parts rest) :
      Reconstructs offset (.var ⟨path, offset, String.ofList (opening ++ inner ++ closing)⟩ :: parts)
        (opening ++ inner ++ closing ++ rest)

theorem not_infix_before_cut {pat text before after : Text} (hpat : pat ≠ [])
    (h : Text.cut pat text = some (before, after)) : ¬ pat <:+: before := by
  induction text generalizing before with
  | nil =>
    rw [Text.cut, if_neg hpat] at h
    cases h
  | cons c text ih =>
    have htext := Text.cut_eq h
    rw [Text.cut] at h
    split at h
    · cases h
      exact fun hin => hpat (List.eq_nil_of_infix_nil hin)
    · rename_i hno
      obtain ⟨⟨before', after'⟩, hcut, heq⟩ := map_eq_some_iff.mp h
      cases heq
      rw [infix_cons_iff]
      refine not_or.mpr ⟨fun hpre => hno ?_, ih hcut⟩
      rw [htext, append_assoc]
      exact hpre.trans (prefix_append ..)

theorem name_ok {inner : Text} {path : List String} (h : name inner = .ok path) :
    path.map String.toList = (Text.trim inner).splitOn '.' ∧
      ∀ segment ∈ path, isSegment segment.toList := by
  unfold name at h
  dsimp only at h
  split at h
  · cases h
  split at h
  · rename_i hall
    cases h
    refine ⟨by simp, fun segment hsegment => ?_⟩
    obtain ⟨piece, hpiece, rfl⟩ := mem_map.mp hsegment
    rw [String.toList_ofList]
    exact all_eq_true.mp hall piece hpiece
  · cases h

theorem written_snoc (runs : List Text) (run rest : Text) :
    written (runs ++ [run]) [] ++ rest = written runs [] ++ (run ++ '\\' :: opening ++ rest) := by
  simp [written]

theorem meant_snoc (runs : List Text) (run : Text) :
    meant (runs ++ [run]) [] = meant runs [] ++ run ++ opening := by
  simp [meant]

theorem byteLen_append (a b : Text) :
    Text.byteLen (a ++ b) = Text.byteLen a + Text.byteLen b := by
  rw [Text.byteLen, map_append, sum_append]
  rfl

theorem written_of_meant_nil {runs : List Text} {last : Text} (h : meant runs last = []) :
    written runs last = [] := by
  obtain ⟨hruns, rfl⟩ := append_eq_nil_iff.mp h
  cases runs with
  | nil => rfl
  | cons run runs => simp [opening] at hruns

theorem flush_reconstructs {p : Parsing} {runs : List Text} {last rest : Text} {offset : Nat}
    {parts : List Part} (hplain : ∀ run ∈ runs, Plain run) (hlast : Plain last)
    (hnext : ∀ part ∈ parts.head?, part.isVar ∧ last.getLast? ≠ some '\\')
    (hmore : Reconstructs (offset + Text.byteLen (written runs last)) parts rest) :
    ∃ front, { p with literal := meant runs last }.flush = p.parts ++ front ∧
      Reconstructs offset (front ++ parts) (written runs last ++ rest) := by
  by_cases hnil : meant runs last = []
  · refine ⟨[], by simp [Parsing.flush, hnil], ?_⟩
    rw [written_of_meant_nil hnil] at hmore ⊢
    exact hmore
  · exact ⟨_, by rw [Parsing.flush, if_neg hnil], .text hplain hlast hnil hnext hmore⟩

theorem problems_prefix (fuel offset : Nat) (rest : Text) (p : Parsing) :
    p.problems <+: (parseFrom fuel offset rest p).problems := by
  induction fuel generalizing offset rest p with
  | zero => exact prefix_rfl
  | succ fuel ih =>
    rw [parseFrom]
    split
    · exact prefix_rfl
    split
    · refine List.IsPrefix.trans ?_ (ih _ _ _)
      exact prefix_rfl
    split
    · exact prefix_append ..
    split
    · refine List.IsPrefix.trans ?_ (ih _ _ _)
      exact prefix_rfl
    · refine List.IsPrefix.trans ?_ (ih _ _ _)
      exact prefix_append ..

theorem problems_kept {fuel offset : Nat} {rest : Text} {p : Parsing}
    (h : (parseFrom fuel offset rest p).problems = []) : p.problems = [] :=
  prefix_nil.mp (h ▸ problems_prefix fuel offset rest p)

theorem ends_reconstructs {p : Parsing} {runs : List Text} {last : Text} (base : Nat)
    (hplain : ∀ run ∈ runs, Plain run) (hliteral : p.literal = meant runs []) (hlast : Plain last) :
    ∃ parts, { p with literal := p.literal ++ last }.flush = p.parts ++ parts ∧
      Reconstructs base parts (written runs [] ++ last) := by
  obtain ⟨front, hfront, hparts⟩ := flush_reconstructs (p := p) hplain hlast (by simp)
    (.nil (base + Text.byteLen (written runs last)))
  refine ⟨front, ?_, ?_⟩
  · rw [← hfront, hliteral]
    simp [meant]
  · simpa [written] using hparts

/-- **The loop reads on**: with some runs of a literal pending, the parts it goes on to make stand
    for those runs and what is left of the text. -/
theorem parseFrom_reconstructs {fuel offset : Nat} (base : Nat) {rest : Text} {p : Parsing}
    (runs : List Text) (hfuel : rest.length ≤ fuel) (hplain : ∀ run ∈ runs, Plain run)
    (hliteral : p.literal = meant runs [])
    (hoffset : offset = base + Text.byteLen (written runs []))
    (hok : (parseFrom fuel offset rest p).problems = []) :
    ∃ parts, (parseFrom fuel offset rest p).flush = p.parts ++ parts ∧
      Reconstructs base parts (written runs [] ++ rest) := by
  induction fuel generalizing offset base rest p runs with
  | zero =>
    cases List.eq_nil_of_length_eq_zero (Nat.le_zero.mp hfuel)
    exact ends_reconstructs base hplain hliteral (by simp [Plain, opening])
  | succ fuel ih =>
    cases hcut : Text.cut opening rest with
    | none =>
      rw [parseFrom, hcut]
      exact ends_reconstructs base hplain hliteral (Text.not_infix_of_cut_none hcut)
    | some cut =>
      obtain ⟨before, after⟩ := cut
      have hbefore : Plain before := not_infix_before_cut (by simp [opening]) hcut
      have hrest := Text.cut_eq hcut
      have hlength := Text.length_after_cut hcut
      have hshorter : opening.length = 2 := rfl
      rw [parseFrom, hcut] at hok ⊢
      dsimp only at hok ⊢
      by_cases hescaped : before.getLast? = some '\\'
      -- the braces are escaped: a run of the literal ends here
      · rw [if_pos hescaped] at hok ⊢
        obtain ⟨run, rfl⟩ := List.getLast?_eq_some_iff.mp hescaped
        rw [dropLast_concat] at hok ⊢
        have hrun : Plain run := fun hin => hbefore (hin.trans (List.infix_append' [] run _))
        obtain ⟨parts, hparts, hread⟩ := ih base (runs ++ [run])
          (p := { p with literal := p.literal ++ run ++ opening }) (by omega)
          (fun r hr => (mem_append.mp hr).elim (hplain r) fun h =>
            mem_singleton.mp h ▸ hrun)
          (by rw [meant_snoc, hliteral])
          (by
            rw [hoffset]
            simp only [written, flatMap_append, flatMap_singleton, append_nil,
              byteLen_append]
            simp [Text.byteLen, opening, Char.utf8Size]
            omega) hok
        refine ⟨parts, hparts, ?_⟩
        rw [hrest]
        rw [written_snoc] at hread
        simpa using hread
      · rw [if_neg hescaped] at hok ⊢
        cases hclose : Text.cut closing after with
        | none =>
          rw [hclose] at hok
          simp at hok
        | some cut =>
          obtain ⟨inner, rest'⟩ := cut
          have hafter := Text.cut_eq hclose
          have hlength' := Text.length_after_cut hclose
          simp only [hclose] at hok ⊢
          cases hname : name inner with
          | error message =>
            simp only [hname] at hok
            have hkept := problems_kept hok
            simp at hkept
          | ok path =>
            simp only [hname] at hok ⊢
            obtain ⟨hsplit, hvalid⟩ := name_ok hname
            have hstart : offset + Text.byteLen before = base + Text.byteLen (written runs before) := by
              rw [hoffset, Nat.add_assoc, ← byteLen_append]
              simp [written]
            have hend : offset + Text.byteLen before + 2 + Text.byteLen inner + 2 =
                offset + Text.byteLen before + Text.byteLen (opening ++ inner ++ closing) := by
              rw [byteLen_append, byteLen_append]
              simp [Text.byteLen, opening, closing, Char.utf8Size]
              omega
            obtain ⟨parts, hparts, hread⟩ := ih _ [] (by omega) (fun _ h => by cases h) rfl
              hend hok
            have hvar := Reconstructs.var (not_infix_before_cut (by simp [closing]) hclose)
              hsplit hvalid hread
            rw [hstart] at hvar
            obtain ⟨front, hfront, hfrontRead⟩ := flush_reconstructs (p := p) hplain hbefore
              (by simp [Part.isVar, hescaped]) hvar
            rw [← hstart] at hfrontRead
            refine ⟨_, ?_, by simpa [written, hrest, hafter] using hfrontRead⟩
            rw [hparts, hliteral, ← append_assoc, ← hfront]
            simp [meant]

theorem Reconstructs.text_ne {offset : Nat} {parts : List Part} {text : Text}
    (h : Reconstructs offset parts text) : ∀ literal, Part.text literal ∈ parts → literal ≠ "" := by
  induction h with
  | nil => nofun
  | text _ _ nonempty _ _ ih =>
    intro literal hliteral
    obtain heq | hmem := mem_cons.mp hliteral
    · cases heq
      exact fun hnil => nonempty (String.ofList_eq_empty_iff.mp hnil)
    · exact ih literal hmem
  | var _ _ _ _ ih =>
    intro literal hliteral
    obtain heq | hmem := mem_cons.mp hliteral
    · cases heq
    · exact ih literal hmem

theorem Reconstructs.apart {offset : Nat} {parts : List Part} {text : Text}
    (h : Reconstructs offset parts text) : parts.IsChain fun a b => a.isVar || b.isVar := by
  induction h with
  | nil => exact .nil
  | @text _ _ _ parts _ _ _ _ next _ ih =>
    cases parts with
    | nil => exact .singleton _
    | cons part parts =>
      obtain ⟨hvar, -⟩ := next part rfl
      exact .cons_cons (by simp [hvar]) ih
  | @var _ _ _ parts _ _ _ _ _ ih =>
    cases parts with
    | nil => exact .singleton _
    | cons part parts => exact .cons_cons rfl ih

/-- **The parts of a template that is accepted reconstruct its text**, and what is rendered is what
    they stand for, one after the other. -/
theorem parse_reconstructs {text : String} {parts : List Part} (h : parse text = .ok parts) :
    Reconstructs 0 parts text.toList ∧
      (∀ literal, Part.text literal ∈ parts → literal ≠ "") ∧
      parts.IsChain (fun a b => a.isVar || b.isVar) ∧
      placeholders text = parts.filterMap Part.placeholder? ∧
      ∀ lookup, render text lookup = String.join (parts.map (Part.fill lookup)) := by
  have hread : Reconstructs 0 parts text.toList := by
    rw [parse] at h
    split at h
    · rename_i hok
      cases h
      obtain ⟨parts, hparts, hread⟩ := parseFrom_reconstructs 0 []
        (Nat.le_refl _) (fun _ h => by cases h) rfl rfl hok
      exact hparts ▸ hread
    · cases h
  refine ⟨hread, hread.text_ne, hread.apart, ?_, fun lookup => ?_⟩
  · rw [placeholders, h]
  · rw [render, h]

theorem parse_reconstructs_one :
    parse "a\\\x7b\x7bb\x7b\x7b c \x7d\x7d" =
        .ok [.text "a\x7b\x7bb", .var ⟨["c"], 5, "\x7b\x7b c \x7d\x7d"⟩] ∧
      Reconstructs 0 [.text "a\x7b\x7bb", .var ⟨["c"], 5, "\x7b\x7b c \x7d\x7d"⟩]
        "a\\\x7b\x7bb\x7b\x7b c \x7d\x7d".toList := by
  have h : parse "a\\\x7b\x7bb\x7b\x7b c \x7d\x7d" =
      .ok [.text "a\x7b\x7bb", .var ⟨["c"], 5, "\x7b\x7b c \x7d\x7d"⟩] := by
    decide +kernel
  exact ⟨h, (parse_reconstructs h).1⟩

end Yardsort.Template
