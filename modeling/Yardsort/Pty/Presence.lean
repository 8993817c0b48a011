import Mathlib.Data.List.TakeDrop
import Mathlib.Data.List.TakeWhile
import Yardsort.Pty.Control

/- What `presence` takes for the pointer passing and the focus changing
   (`pty-host/src/control.rs`).

   A `Report` is a focus report or an SGR mouse report. The code accepts a concatenation of these
   whose numbers `str::parse` reads, which allows a plus sign (`presence_iff`); `presence_exact_iff`
   says that this is the only thing it accepts that is none. -/
namespace Yardsort.Pty
open Yardsort.Lib

namespace Presence

structure Decimal (digits : Bytes) (n : Nat) : Prop where
  some_ : digits ≠ []
  digit : ∀ b ∈ digits, 0x30 ≤ b ∧ b ≤ 0x39
  value : digits.foldl (fun n b => n * 10 + (b.toNat - 0x30)) 0 = n

/-- A movement with no button held: no wheel and no extra button, bit 32 set, and the low bits 3. -/
def Moved (button : Nat) : Prop := button < 64 ∧ button.testBit 5 = true ∧ button % 4 = 3

inductive Report where
  | focusIn
  | focusOut
  | mouse (button x y : Bytes)

def Report.render : Report → Bytes
  | focusIn => [0x1b, 0x5b, 0x49]
  | focusOut => [0x1b, 0x5b, 0x4f]
  | mouse button x y => 0x1b :: 0x5b :: 0x3c :: (button ++ 0x3b :: (x ++ 0x3b :: (y ++ [0x4d])))

def Report.focus : Report → Bytes
  | focusIn => [0x1b, 0x5b, 0x49]
  | focusOut => [0x1b, 0x5b, 0x4f]
  | mouse _ _ _ => []

/-- The numbers of a report, read in some way, fit 16 bits and are of a movement. -/
def Report.Reads (number : Bytes → Nat → Prop) : Report → Prop
  | focusIn | focusOut => True
  | mouse button x y =>
    (∃ b, number button b ∧ b < 2 ^ 16 ∧ Moved b) ∧ (∃ n, number x n ∧ n < 2 ^ 16) ∧
      ∃ n, number y n ∧ n < 2 ^ 16

/-- One or more reports and nothing else, with these focus reports in order. -/
def Passing (number : Bytes → Nat → Prop) (input focus : Bytes) : Prop :=
  ∃ reports : List Report, reports ≠ [] ∧ (∀ r ∈ reports, r.Reads number) ∧
    input = reports.flatMap Report.render ∧ focus = reports.flatMap Report.focus

def Signed (field : Bytes) (n : Nat) : Prop :=
  Decimal field n ∨ ∃ digits, field = 0x2b :: digits ∧ Decimal digits n

theorem moved_iff {n : Nat} : movedWithoutAButton n = true ↔ Moved n := by
  by_cases hn : n < 64
  · have hall : ∀ n < 64, (movedWithoutAButton n = true ↔
        n < 64 ∧ n.testBit 5 = true ∧ n % 4 = 3) := by decide
    exact hall n hn
  · simp [movedWithoutAButton, Moved, hn]

theorem isDigit_iff {b : UInt8} : isDigit b = true ↔ 0x30 ≤ b ∧ b ≤ 0x39 := by
  simp [isDigit]

theorem parse_digits {field digits : Bytes} {n : Nat}
    (h : (if field.head? = some 0x2b then field.tail else field) = digits) :
    parseU16 field = some n ↔ Decimal digits n ∧ n < 2 ^ 16 := by
  rw [parseU16, h]
  dsimp only
  split
  · rename_i hbad
    refine ⟨nofun, ?_⟩
    rintro ⟨⟨hne, hdigit, -⟩, -⟩
    rw [Bool.or_eq_true, List.isEmpty_iff, Bool.not_eq_true', List.all_eq_false] at hbad
    obtain hbad | ⟨b, hb, hnot⟩ := hbad
    · exact absurd hbad hne
    · exact absurd (isDigit_iff.mpr (hdigit b hb)) hnot
  · rename_i hgood
    rw [Bool.or_eq_true, List.isEmpty_iff, Bool.not_eq_true', not_or, Bool.not_eq_false,
      all_eq_true] at hgood
    obtain ⟨hne, hdigit⟩ := hgood
    have hdigit := fun b hb => isDigit_iff.mp (hdigit b hb)
    split
    · rename_i hfits
      constructor
      · intro heq
        cases heq
        exact ⟨⟨hne, hdigit, rfl⟩, hfits⟩
      · rintro ⟨⟨-, -, rfl⟩, -⟩
        rfl
    · rename_i hfits
      refine ⟨nofun, ?_⟩
      rintro ⟨⟨-, -, rfl⟩, hlt⟩
      exact absurd hlt hfits

theorem decimal_no_plus {digits : Bytes} {n : Nat} (h : Decimal digits n) : 0x2b ∉ digits := by
  intro hmem
  have := (h.digit _ hmem).1
  revert this
  decide

theorem parseU16_iff {field : Bytes} {n : Nat} :
    parseU16 field = some n ↔ Signed field n ∧ n < 2 ^ 16 := by
  by_cases hplus : field.head? = some 0x2b
  · obtain ⟨digits, rfl⟩ : ∃ digits, field = 0x2b :: digits := by
      cases field with
      | nil => cases hplus
      | cons b digits => exact ⟨digits, by rw [Option.some.inj hplus]⟩
    rw [@parse_digits (0x2b :: digits) digits n (by simp)]
    constructor
    · exact fun h => ⟨.inr ⟨digits, rfl, h.1⟩, h.2⟩
    · rintro ⟨h | ⟨digits', heq, h⟩, hn⟩
      · exact absurd (mem_cons_self ..) (decimal_no_plus h)
      · exact ⟨(cons_eq_cons.mp heq).2 ▸ h, hn⟩
  · rw [@parse_digits field field n (if_neg hplus)]
    constructor
    · exact fun h => ⟨.inl h.1, h.2⟩
    · rintro ⟨h | ⟨digits, rfl, -⟩, hn⟩
      · exact ⟨h, hn⟩
      · exact absurd rfl hplus

theorem signed_plain {field : Bytes} {n : Nat} (h : Signed field n) :
    0x3b ∉ field ∧ 0x4d ∉ field := by
  have hdecimal : ∀ {digits : Bytes}, Decimal digits n → 0x3b ∉ digits ∧ 0x4d ∉ digits := by
    intro digits h
    constructor <;> intro hmem <;> have := (h.digit _ hmem).2 <;> revert this <;> decide
  obtain h | ⟨digits, rfl, h⟩ := h
  · exact hdecimal h
  · obtain ⟨h₁, h₂⟩ := hdecimal h
    exact ⟨by simp [h₁], by simp [h₂]⟩

theorem splitOn_cases (fields : Bytes) :
    (fields.splitOn 0x3b = [fields] ∧ 0x3b ∉ fields) ∨ ∃ first rest,
      fields = first ++ 0x3b :: rest ∧ 0x3b ∉ first ∧
        fields.splitOn 0x3b = first :: rest.splitOn 0x3b := by
  by_cases hmem : 0x3b ∈ fields
  · obtain ⟨first, rest, rfl, hfirst⟩ := List.eq_append_cons_of_mem hmem
    exact .inr ⟨first, rest, rfl, hfirst, splitOn_append_cons_self_of_not_mem hfirst rest⟩
  · exact .inl ⟨List.splitOn_eq_singleton hmem, hmem⟩

theorem splitOn_three {fields button x y : Bytes} :
    fields.splitOn 0x3b = [button, x, y] ↔ fields = button ++ 0x3b :: (x ++ 0x3b :: y) ∧
      0x3b ∉ button ∧ 0x3b ∉ x ∧ 0x3b ∉ y := by
  constructor
  · intro h
    obtain ⟨hone, -⟩ | ⟨b, rest, rfl, hb, hsplit⟩ := splitOn_cases fields
    · simp [hone] at h
    rw [hsplit, cons_eq_cons] at h
    obtain ⟨rfl, h⟩ := h
    obtain ⟨hone, -⟩ | ⟨x', rest, rfl, hx, hsplit⟩ := splitOn_cases rest
    · simp [hone] at h
    rw [hsplit, cons_eq_cons] at h
    obtain ⟨rfl, h⟩ := h
    obtain ⟨hone, hy⟩ | ⟨y', rest, rfl, -, hsplit⟩ := splitOn_cases rest
    · rw [hone] at h
      obtain rfl := singleton_inj.mp h
      exact ⟨rfl, hb, hx, hy⟩
    · rw [hsplit, cons_eq_cons] at h
      exact absurd h.2 (splitOn_ne_nil _ _)
  · rintro ⟨rfl, hb, hx, hy⟩
    rw [splitOn_append_cons_self_of_not_mem hb, splitOn_append_cons_self_of_not_mem hx,
      List.splitOn_eq_singleton hy]

theorem span_report {body fields after : Bytes} {c : UInt8} :
    body.span (· ≠ 0x4d) = (fields, c :: after) ↔
      c = 0x4d ∧ body = fields ++ c :: after ∧ 0x4d ∉ fields := by
  rw [List.span_eq_takeWhile_dropWhile, Prod.mk.injEq]
  constructor
  · rintro ⟨rfl, hrest⟩
    refine ⟨?_, ?_, ?_⟩
    · have hhead := List.head?_dropWhile_not (fun b : UInt8 => decide (b ≠ 0x4d)) body
      rw [hrest] at hhead
      simpa using hhead
    · rw [← hrest, List.takeWhile_append_dropWhile]
    · intro hmem
      have := List.mem_takeWhile_imp hmem
      simp at this
  · rintro ⟨rfl, rfl, hfields⟩
    have hall : ∀ b ∈ fields, decide (b ≠ 0x4d) = true := by
      intro b hb
      exact decide_eq_true fun heq => hfields (heq ▸ hb)
    rw [List.takeWhile_append_of_pos hall, List.dropWhile_append_of_pos hall]
    simp

theorem presenceLoop_report {r : Report} (h : r.Reads Signed) (fuel : Nat) (focus rest : Bytes) :
    presenceLoop (fuel + 1) focus (r.render ++ rest) =
      presenceLoop fuel (focus ++ r.focus) rest := by
  cases r with
  | focusIn => rfl
  | focusOut => rfl
  | mouse button x y =>
    obtain ⟨⟨b, hbutton, hb, hmoved⟩, ⟨n, hx, hn⟩, ⟨m, hy, hm⟩⟩ := h
    obtain ⟨hb₁, hb₂⟩ := signed_plain hbutton
    obtain ⟨hx₁, hx₂⟩ := signed_plain hx
    obtain ⟨hy₁, hy₂⟩ := signed_plain hy
    have hspan : (button ++ 0x3b :: (x ++ 0x3b :: (y ++ 0x4d :: rest))).span (· ≠ 0x4d) =
        (button ++ 0x3b :: (x ++ 0x3b :: y), 0x4d :: rest) := by
      apply span_report.mpr
      refine ⟨rfl, by simp, ?_⟩
      simp [hb₂, hx₂, hy₂]
    have hsplit : (button ++ 0x3b :: (x ++ 0x3b :: y)).splitOn 0x3b = [button, x, y] :=
      splitOn_three.mpr ⟨rfl, hb₁, hx₁, hy₁⟩
    have hrender : (Report.mouse button x y).render ++ rest =
        0x1b :: 0x5b :: 0x3c :: (button ++ 0x3b :: (x ++ 0x3b :: (y ++ 0x4d :: rest))) := by
      simp [Report.render]
    rw [hrender, presenceLoop, hspan]
    dsimp only
    rw [hsplit, map_cons, map_cons, map_cons, map_nil,
      parseU16_iff.mpr ⟨hbutton, hb⟩, parseU16_iff.mpr ⟨hx, hn⟩, parseU16_iff.mpr ⟨hy, hm⟩]
    dsimp only
    rw [if_pos (moved_iff.mpr hmoved), Report.focus, append_nil]

theorem report_of_turn {fuel : Nat} {focus f : Bytes} {b : UInt8} {input : Bytes}
    (h : presenceLoop (fuel + 1) focus (b :: input) = some f) :
    ∃ (r : Report) (rest : Bytes), r.Reads Signed ∧ b :: input = r.render ++ rest ∧
      presenceLoop fuel (focus ++ r.focus) rest = some f := by
  unfold presenceLoop at h
  split at h
  · rename_i heq
    cases heq
  · rename_i hzero _
    cases hzero
  · rename_i after hfuel heq
    cases hfuel
    rw [heq]
    exact ⟨.focusIn, after, trivial, rfl, h⟩
  · rename_i after hfuel heq
    cases hfuel
    rw [heq]
    exact ⟨.focusOut, after, trivial, rfl, h⟩
  · rename_i body _ _ hfuel heq
    cases hfuel
    split at h
    · cases h
    rename_i fields c after hspan
    obtain ⟨rfl, hbody, -⟩ := span_report.mp hspan
    split at h
    · rename_i button x y hfields
      obtain ⟨fb, fx, fy, hsplit, hb, hx, hy⟩ : ∃ fb fx fy, fields.splitOn 0x3b = [fb, fx, fy] ∧
          parseU16 fb = some button ∧ parseU16 fx = some x ∧ parseU16 fy = some y := by
        obtain ⟨fb, rest, hsplit, hb, hrest⟩ := map_eq_cons_iff.mp hfields
        obtain ⟨fx, rest, rfl, hx, hrest⟩ := map_eq_cons_iff.mp hrest
        obtain ⟨fy, rest, rfl, hy, hrest⟩ := map_eq_cons_iff.mp hrest
        obtain rfl := map_eq_nil_iff.mp hrest
        exact ⟨fb, fx, fy, hsplit, hb, hx, hy⟩
      obtain ⟨hfieldsEq, -⟩ := splitOn_three.mp hsplit
      split at h
      · rename_i hmoved
        obtain ⟨hb, hb'⟩ := parseU16_iff.mp hb
        obtain ⟨hx, hx'⟩ := parseU16_iff.mp hx
        obtain ⟨hy, hy'⟩ := parseU16_iff.mp hy
        refine ⟨.mouse fb fx fy, after,
          ⟨⟨_, hb, hb', moved_iff.mp hmoved⟩, ⟨_, hx, hx'⟩, ⟨_, hy, hy'⟩⟩, ?_, ?_⟩
        · rw [heq, hbody, hfieldsEq]
          simp [Report.render]
        · rw [Report.focus, append_nil]
          exact h
      · cases h
    · cases h
  · cases h

theorem render_length (r : Report) : 3 ≤ r.render.length := by
  cases r <;> simp [Report.render]

theorem presenceLoop_iff {fuel : Nat} {input : Bytes} (hfuel : input.length ≤ fuel)
    (focus f : Bytes) : presenceLoop fuel focus input = some f ↔
      ∃ reports : List Report, (∀ r ∈ reports, r.Reads Signed) ∧
        input = reports.flatMap Report.render ∧ f = focus ++ reports.flatMap Report.focus := by
  constructor
  · intro h
    induction fuel generalizing focus input with
    | zero =>
      obtain rfl : input = [] := length_eq_zero_iff.mp (Nat.le_zero.mp hfuel)
      have : focus = f := by simpa [presenceLoop] using h
      exact ⟨[], forall_mem_nil _, rfl, by simp [this]⟩
    | succ fuel ih =>
      cases input with
      | nil =>
        have : focus = f := by simpa [presenceLoop] using h
        exact ⟨[], forall_mem_nil _, rfl, by simp [this]⟩
      | cons b input =>
        obtain ⟨r, rest, hreads, heq, hloop⟩ := report_of_turn h
        have hlen := render_length r
        have hrest : rest.length ≤ fuel := by
          have := congrArg List.length heq
          simp only [length_cons, length_append] at this hfuel
          omega
        obtain ⟨reports, hall, rfl, rfl⟩ := ih hrest _ hloop
        refine ⟨r :: reports, forall_mem_cons.mpr ⟨hreads, hall⟩, heq, ?_⟩
        rw [flatMap_cons, append_assoc]
  · rintro ⟨reports, hall, rfl, rfl⟩
    induction reports generalizing fuel focus with
    | nil =>
      rw [flatMap_nil, flatMap_nil, append_nil]
      cases fuel <;> rfl
    | cons r reports ih =>
      rw [flatMap_cons, length_append] at hfuel
      have hlen := render_length r
      obtain ⟨fuel, rfl⟩ : ∃ n, fuel = n + 1 := ⟨fuel - 1, by omega⟩
      obtain ⟨hr, hall⟩ := forall_mem_cons.mp hall
      rw [flatMap_cons, presenceLoop_report hr, flatMap_cons, ← append_assoc]
      exact ih _ hall (by omega)

theorem presence_iff (input f : Bytes) : presence input = some f ↔ Passing Signed input f := by
  rw [presence]
  split
  · rename_i hempty
    obtain rfl := List.isEmpty_iff.mp hempty
    refine ⟨nofun, ?_⟩
    rintro ⟨reports, hne, -, hinput, -⟩
    cases reports with
    | nil => exact absurd rfl hne
    | cons r reports =>
      have hlen := render_length r
      have := congrArg List.length hinput
      simp only [flatMap_cons, length_append, length_nil] at this
      omega
  · rename_i hempty
    rw [presenceLoop_iff (Nat.le_refl _)]
    constructor
    · rintro ⟨reports, hall, hinput, hf⟩
      refine ⟨reports, ?_, hall, hinput, hf⟩
      rintro rfl
      exact hempty (List.isEmpty_iff.mpr hinput)
    · rintro ⟨reports, -, hall, hinput, hf⟩
      exact ⟨reports, hall, hinput, hf⟩

/-- A concatenation of reports in which a number has a sign. -/
def SignedInput (input : Bytes) : Prop := (∃ focus, Passing Signed input focus) ∧ 0x2b ∈ input

theorem no_plus_of_unsigned {r : Report} (h : r.Reads Decimal) : 0x2b ∉ r.render := by
  cases r with
  | focusIn => decide
  | focusOut => decide
  | mouse button x y =>
    obtain ⟨⟨_, hb, -⟩, ⟨_, hx, -⟩, ⟨_, hy, -⟩⟩ := h
    simp [Report.render, decimal_no_plus hb, decimal_no_plus hx, decimal_no_plus hy]

theorem unsigned_of_no_plus {r : Report} (h : r.Reads Signed) (hplus : 0x2b ∉ r.render) :
    r.Reads Decimal := by
  cases r with
  | focusIn => trivial
  | focusOut => trivial
  | mouse button x y =>
    have hnumber : ∀ {field : Bytes} {n : Nat}, Signed field n → 0x2b ∉ field → Decimal field n := by
      rintro field n (h | ⟨digits, rfl, -⟩) hfield
      · exact h
      · exact absurd (mem_cons_self ..) hfield
    obtain ⟨⟨b, hb, hlt, hmoved⟩, ⟨n, hx, hn⟩, ⟨m, hy, hm⟩⟩ := h
    simp only [Report.render, mem_cons, mem_append, not_or] at hplus
    exact ⟨⟨b, hnumber hb (by tauto), hlt, hmoved⟩, ⟨n, hnumber hx (by tauto), hn⟩,
      ⟨m, hnumber hy (by tauto), hm⟩⟩

theorem signed_of_unsigned {r : Report} (h : r.Reads Decimal) : r.Reads Signed := by
  cases r with
  | focusIn => trivial
  | focusOut => trivial
  | mouse button x y =>
    obtain ⟨⟨b, hb, hrest⟩, ⟨n, hx, hn⟩, ⟨m, hy, hm⟩⟩ := h
    exact ⟨⟨b, .inl hb, hrest⟩, ⟨n, .inl hx, hn⟩, ⟨m, .inl hy, hm⟩⟩

theorem passing_iff {input focus : Bytes} :
    Passing Decimal input focus ↔ Passing Signed input focus ∧ 0x2b ∉ input := by
  constructor
  · rintro ⟨reports, hne, hall, rfl, hfocus⟩
    refine ⟨⟨reports, hne, fun r hr => signed_of_unsigned (hall r hr), rfl, hfocus⟩, ?_⟩
    intro hplus
    obtain ⟨r, hr, hplus⟩ := mem_flatMap.mp hplus
    exact no_plus_of_unsigned (hall r hr) hplus
  · rintro ⟨⟨reports, hne, hall, rfl, hfocus⟩, hplus⟩
    refine ⟨reports, hne, ?_, rfl, hfocus⟩
    intro r hr
    exact unsigned_of_no_plus (hall r hr) fun h => hplus (mem_flatMap.mpr ⟨r, hr, h⟩)

/-- An input with a sign is taken for no typing, and is no concatenation of reports. -/
theorem signed_wrong {input : Bytes} (h : SignedInput input) :
    ∃ focus, presence input = some focus ∧ ¬ Passing Decimal input focus := by
  obtain ⟨⟨focus, hpassing⟩, hplus⟩ := h
  exact ⟨focus, (presence_iff _ _).mpr hpassing, fun h => (passing_iff.mp h).2 hplus⟩

/-- **When presence is told from typing.** An input is taken for the reports it consists of, and
    for nothing else, exactly where no number of such an input has a sign. -/
theorem presence_exact_iff (input : Bytes) :
    (∀ focus, presence input = some focus ↔ Passing Decimal input focus) ↔
      ¬ SignedInput input := by
  constructor
  · intro h hsigned
    obtain ⟨focus, haccepted, hnot⟩ := signed_wrong hsigned
    exact hnot ((h focus).mp haccepted)
  · intro h focus
    rw [presence_iff, passing_iff]
    constructor
    · intro hpassing
      refine ⟨hpassing, ?_⟩
      intro hplus
      exact h ⟨⟨focus, hpassing⟩, hplus⟩
    · exact And.left

def plusReport : Bytes :=
  [0x1b, 0x5b, 0x3c, 0x2b, 0x33, 0x35, 0x3b, 0x31, 0x32, 0x3b, 0x34, 0x4d]

theorem plusReport_accepted :
    presence plusReport = some [] ∧ ¬ Passing Decimal plusReport [] := by
  refine ⟨by decide +kernel, ?_⟩
  intro h
  exact (passing_iff.mp h).2 (by decide)

end Presence

end Yardsort.Pty
