import Yardsort.Lib.Replace
import Yardsort.Pty.Control

/- What a session sends a program for a paste (`pasted` in `pty-host/src/session.rs`).

   With bracketed paste on, the text goes between two markers, and any end marker
   inside it is taken out first. A text is the bytes of its UTF-8 form: the
   patterns replaced are ASCII, found in the bytes exactly where they stand in
   the text.

   The end marker is taken out in one pass, and what one pass leaves can hold an
   end marker again, put together from the pieces around the ones removed.
   `pasted_endsOnce_iff` says for which texts. -/
namespace Yardsort.Pty
open Yardsort.Lib

def CR : UInt8 := 0x0d
def LF : UInt8 := 0x0a

def pasteStart : Bytes := [ESC, 0x5b, 0x32, 0x30, 0x30, 0x7e]

def pasteEndTail : Bytes := [0x5b, 0x32, 0x30, 0x31, 0x7e]

def pasteEnd : Bytes := ESC :: pasteEndTail

def pasted (text : Bytes) (bracketed : Bool) : Bytes :=
  let normalized := replace [CR, LF] [LF] text
  if bracketed then pasteStart ++ replace pasteEnd [] normalized ++ pasteEnd
  else replace [LF] [CR] normalized

def EndsOnce (payload : Bytes) : Prop :=
  pasteEnd <:+ payload ∧ ∀ pre post, payload = pre ++ pasteEnd ++ post → post = []

/-- Some stretch of `text` is an end marker broken up by whole end markers. -/
def Rejoins (text : Bytes) : Prop := ∃ y, y <:+: text ∧ Broken ESC pasteEndTail y

theorem esc_not_mem_tail : ESC ∉ pasteEndTail := by decide

theorem spliced_mem {n y : Bytes} (hs : Spliced pasteEnd n y) (hn : ∀ x ∈ n, x ∈ pasteEnd) :
    ∀ x ∈ y, x ∈ pasteEnd := by
  induction hs with
  | nil => exact hn
  | @own x m y _ ih =>
    intro z hz
    rcases mem_cons.mp hz with rfl | hz
    · exact hn z mem_cons_self
    · exact ih (fun w hw => hn w (mem_cons_of_mem x hw)) z hz
  | copy _ ih =>
    intro z hz
    rcases mem_append.mp hz with hz | hz
    · exact hz
    · exact ih hn z hz

theorem broken_mem {y : Bytes} (h : Broken ESC pasteEndTail y) : ∀ x ∈ y, x ∈ pasteEnd := by
  obtain ⟨y', rfl, hs, _⟩ := h
  intro x hx
  rcases mem_cons.mp hx with rfl | hx
  · exact mem_cons_self
  · exact spliced_mem hs (fun w hw => mem_cons_of_mem _ hw) x hx

theorem rejoins_normalized (text : Bytes) :
    Rejoins (replace [CR, LF] [LF] text) ↔ Rejoins text := by
  have h : ∀ y, Broken ESC pasteEndTail y →
      (y <:+: replace [CR, LF] [LF] text ↔ y <:+: text) := by
    intro y hy
    have hbytes : ∀ x ∈ pasteEnd, x ≠ CR ∧ x ∉ [LF] := by decide +kernel
    refine replace_contains_iff (fun x hx => hbytes x (broken_mem hy x hx))
      (fun x hx => (hbytes x (broken_mem hy x hx)).2) ?_ text
    obtain ⟨y', rfl, _⟩ := hy
    exact cons_ne_nil _ _
  exact exists_congr (fun y => and_congr_left (h y))

theorem earlier_marker {c : UInt8} {m a pre post : Bytes} (hm : c ∉ m) (hp : post ≠ [])
    (h : a ++ c :: m = pre ++ c :: m ++ post) : c :: m <:+: a := by
  rcases append_eq_append_iff.mp h with ⟨t, ht, hpost⟩ | ⟨t, rfl, _⟩
  · cases t with
    | nil =>
      rw [append_nil] at ht
      exact ⟨pre, [], by rw [← ht, append_nil]⟩
    | cons x t =>
      -- the marker would end inside the last one, whose head would stand in its tail
      rw [cons_append, List.cons.injEq] at hpost
      obtain ⟨rfl, hpost⟩ := hpost
      have hlen : (c :: t).length ≤ m.length := by
        rw [hpost, length_append, length_cons]
        have := length_pos_iff.mpr hp
        omega
      have hsuf : c :: t <:+ m := by
        have hwhole : m <:+ pre ++ c :: m := ⟨pre ++ [c], by simp⟩
        exact List.suffix_of_suffix_length_le ⟨a, ht.symm⟩ hwhole hlen
      exact absurd (hsuf.subset mem_cons_self) hm
  · exact ⟨pre, t, rfl⟩

theorem marker_after_start {body : Bytes} :
    pasteEnd <:+: pasteStart ++ body ↔ pasteEnd <:+: body := by
  simp [pasteEnd, pasteEndTail, pasteStart, ESC, infix_cons_iff, cons_prefix_cons]

theorem endsOnce_iff (body : Bytes) :
    EndsOnce (pasteStart ++ body ++ pasteEnd) ↔ ¬ pasteEnd <:+: body := by
  constructor
  · rintro ⟨_, hlast⟩ ⟨a, b, rfl⟩
    have := hlast (pasteStart ++ a) (b ++ pasteEnd) (by simp)
    simp [pasteEnd] at this
  · intro hno
    refine ⟨List.suffix_append _ _, fun pre post h => ?_⟩
    by_contra hp
    exact hno (marker_after_start.mp (earlier_marker esc_not_mem_tail hp h))

/-- **The payload ends at its first end marker exactly when no stretch of the text
    is an end marker broken up by whole ones.** -/
theorem pasted_endsOnce_iff (text : Bytes) :
    EndsOnce (pasted text true) ↔ ¬ Rejoins text := by
  have hp : pasted text true =
      pasteStart ++ replace pasteEnd [] (replace [CR, LF] [LF] text) ++ pasteEnd := rfl
  rw [hp, endsOnce_iff, ← rejoins_normalized text]
  exact not_congr (remove_contains_iff esc_not_mem_tail _)

/-- `ESC [ 2 0`, a whole end marker, `1 ~` and a command: what is removed leaves
    an end marker behind, and the command after it is typed input. -/
def rejoining : Bytes := [ESC, 0x5b, 0x32, 0x30] ++ pasteEnd ++ [0x31, 0x7e] ++ [0x6c, 0x73, CR]

theorem rejoining_ends_early : ¬ EndsOnce (pasted rejoining true) := by
  rintro ⟨_, h⟩
  have := h pasteStart ([0x6c, 0x73, CR] ++ pasteEnd) (by decide)
  simp [pasteEnd] at this

end Yardsort.Pty
