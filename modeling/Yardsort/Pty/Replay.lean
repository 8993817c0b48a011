import Yardsort.Pty.Session

/- The last stretch of a session's numbered stream, kept for viewers that come back:
   `pty-host/src/replay.rs`, and what numbered viewers are sent (`Numbered` in
   `pty-host/src/types.rs`).

   `Replay.Keeps` says what is kept of a stream: a tail of it, with the size the terminal
   was at before that tail, no bigger than the bound. `push` keeps it, whatever is pushed,
   and `since_eq` reads off it what a viewer that comes back is sent. -/
namespace Yardsort.Pty
open Yardsort.Lib

def REPLAY_BYTES : Nat := 256 * 1024
def RESIZE_COST : Nat := 16

/-- An item of the numbered stream: a batch of output without its queries, or a resize. -/
inductive Kept where
  | output (bytes : Bytes)
  | resized (size : TermSize)
  deriving DecidableEq

def Kept.cost : Kept → Nat
  | .output bytes => bytes.length
  | .resized _ => RESIZE_COST

def Kept.resize (size : TermSize) : Kept → TermSize
  | .output _ => size
  | .resized next => next

def sizeAfter (size : TermSize) (items : List Kept) : TermSize := items.foldl Kept.resize size

theorem sizeAfter_append (size : TermSize) (items items' : List Kept) :
    sizeAfter size (items ++ items') = sizeAfter (sizeAfter size items) items' :=
  foldl_append ..

structure ExitInfo where
  code : Nat
  success : Bool
  signal : Option String
  deriving DecidableEq

inductive Item where
  | snapshot (seq : Nat) (size : TermSize) (bytes : Bytes)
  | resumed (seq : Nat) (size : TermSize)
  | output (seq : Nat) (bytes : Bytes)
  | resized (seq : Nat) (size : TermSize)
  | control (controller : Controller)
  | exited (exit : ExitInfo)
  deriving DecidableEq

def Kept.numbered (seq : Nat) : Kept → Item
  | .output bytes => .output seq bytes
  | .resized size => .resized seq size

def numberFrom (seq : Nat) : List Kept → List Item
  | [] => []
  | item :: items => item.numbered (seq + 1) :: numberFrom (seq + 1) items

theorem numberFrom_append (seq : Nat) (items items' : List Kept) :
    numberFrom seq (items ++ items') =
      numberFrom seq items ++ numberFrom (seq + items.length) items' := by
  induction items generalizing seq with
  | nil => rfl
  | cons item items ih =>
    rw [cons_append, numberFrom, numberFrom, ih, cons_append, length_cons]
    congr 3
    omega

structure Replay where
  /-- The item just before the first one kept, and the size the terminal was at after it. -/
  base : Nat
  baseSize : TermSize
  /-- Every item after `base`. -/
  items : List Kept
  bytes : Nat

namespace Replay

def new (seq : Nat) (size : TermSize) : Replay :=
  { base := seq, baseSize := size, items := [], bytes := 0 }

def evict (base : Nat) (baseSize : TermSize) (bytes : Nat) : List Kept → Replay
  | [] => { base, baseSize, items := [], bytes }
  | oldest :: rest =>
    if REPLAY_BYTES < bytes then
      evict (base + 1) (oldest.resize baseSize) (bytes - oldest.cost) rest
    else { base, baseSize, items := oldest :: rest, bytes }

def push (r : Replay) (item : Kept) : Replay :=
  evict r.base r.baseSize (r.bytes + item.cost) (r.items ++ [item])

def output (r : Replay) (bytes : Bytes) : Replay := r.push (.output bytes)

def resized (r : Replay) (size : TermSize) : Replay := r.push (.resized size)

/-- The items after item `after`, if they are all still kept, and the size the terminal was
    at after it. -/
def since (r : Replay) (after : Nat) : Option (TermSize × List Item) :=
  if after < r.base then none
  else
    let skip := after - r.base
    if r.items.length < skip then none
    else some (sizeAfter r.baseSize (r.items.take skip), numberFrom after (r.items.drop skip))

structure Keeps (r : Replay) (first : TermSize) (stream : List Kept) : Prop where
  base_le : r.base ≤ stream.length
  items : r.items = stream.drop r.base
  baseSize : r.baseSize = sizeAfter first (stream.take r.base)
  bytes : r.bytes = (r.items.map Kept.cost).sum
  bound : r.bytes ≤ REPLAY_BYTES

theorem new_keeps {first : TermSize} {stream : List Kept} {seq : Nat} {size : TermSize}
    (hseq : seq = stream.length) (hsize : size = sizeAfter first stream) :
    (new seq size).Keeps first stream := by
  subst hseq
  refine ⟨Nat.le_refl _, ?_, ?_, rfl, Nat.zero_le _⟩
  · exact (drop_length).symm
  · rw [new, List.take_length, hsize]

theorem evict_keeps {first : TermSize} {stream : List Kept} {base : Nat} {baseSize : TermSize}
    {bytes : Nat} {items : List Kept} (hle : base ≤ stream.length)
    (hitems : items = stream.drop base) (hsize : baseSize = sizeAfter first (stream.take base))
    (hbytes : bytes = (items.map Kept.cost).sum) :
    (evict base baseSize bytes items).Keeps first stream := by
  induction items generalizing base baseSize bytes with
  | nil => exact ⟨hle, hitems, hsize, hbytes, hbytes ▸ Nat.zero_le _⟩
  | cons oldest rest ih =>
    unfold evict
    rw [map_cons, sum_cons] at hbytes
    split
    · have hlt : base < stream.length := by
        by_contra hge
        have hnil : stream.drop base = [] := List.drop_eq_nil_iff.mpr (by omega)
        rw [hnil] at hitems
        exact absurd hitems nofun
      have hcons := List.drop_eq_getElem_cons hlt
      rw [← hitems, List.cons.injEq] at hcons
      obtain ⟨hold, hrest⟩ := hcons
      have hcost : bytes - oldest.cost = (rest.map Kept.cost).sum := by omega
      refine ih hlt hrest ?_ hcost
      have htake : stream.take (base + 1) = stream.take base ++ [stream[base]] :=
        List.take_succ_eq_append_getElem hlt
      rw [htake, sizeAfter_append, ← hsize, hold]
      rfl
    · rename_i hfits
      refine ⟨hle, hitems, hsize, ?_, Nat.not_lt.mp hfits⟩
      rw [map_cons, sum_cons]
      exact hbytes

/-- **What is kept stays a tail of the stream, within the bound, as it grows.** -/
theorem push_keeps {r : Replay} {first : TermSize} {stream : List Kept}
    (h : r.Keeps first stream) (item : Kept) : (r.push item).Keeps first (stream ++ [item]) := by
  have hle : r.base ≤ (stream ++ [item]).length := by
    rw [length_append]
    exact Nat.le_trans h.base_le (Nat.le_add_right _ _)
  refine evict_keeps hle ?_ ?_ ?_
  · rw [drop_append_of_le_length h.base_le, h.items]
  · rw [take_append_of_le_length h.base_le, h.baseSize]
  · rw [map_append, sum_append, h.bytes]
    rfl

theorem since_eq {r : Replay} {first : TermSize} {stream : List Kept} (h : r.Keeps first stream)
    (after : Nat) :
    r.since after = if r.base ≤ after ∧ after ≤ stream.length then
      some (sizeAfter first (stream.take after), numberFrom after (stream.drop after))
    else none := by
  have hlen : r.items.length = stream.length - r.base := by rw [h.items, length_drop]
  have hle := h.base_le
  unfold since
  by_cases hbefore : after < r.base
  · rw [if_pos hbefore, if_neg (by omega)]
  · rw [if_neg hbefore]
    simp only [hlen]
    by_cases hpast : stream.length - r.base < after - r.base
    · rw [if_pos hpast, if_neg (by omega)]
    · rw [if_neg hpast, if_pos (by omega)]
      have hsum : r.base + (after - r.base) = after := by omega
      rw [h.baseSize, h.items, ← sizeAfter_append, drop_drop, hsum]
      congr 3
      -- the items before the tail, and those of the tail up to `after`
      rw [← List.take_add, hsum]

theorem pushes_keep {r : Replay} {first : TermSize} {stream : List Kept} (h : r.Keeps first stream)
    (items : List Kept) : (items.foldl push r).Keeps first (stream ++ items) := by
  induction items generalizing r stream with
  | nil => rwa [append_nil]
  | cons item items ih =>
    have hnext := ih (push_keeps h item)
    rwa [append_assoc, singleton_append] at hnext

theorem cost_pos {item : Kept} (h : item ≠ .output []) : 1 ≤ item.cost := by
  cases item with
  | output bytes => exact length_pos_iff.mpr fun hnil => h (congrArg _ hnil)
  | resized size => exact Nat.le_add_left 1 15

theorem length_le_cost {items : List Kept} (h : Kept.output [] ∉ items) :
    items.length ≤ (items.map Kept.cost).sum := by
  induction items with
  | nil => exact Nat.le_refl 0
  | cons item items ih =>
    obtain ⟨hitem, hitems⟩ := not_or.mp (mt mem_cons.mpr h)
    have hpos := cost_pos (Ne.symm hitem)
    have hrest := ih hitems
    rw [length_cons, map_cons, sum_cons]
    omega

/-- **The window is bounded as long as no empty batch is pushed**: each item it keeps counts
    against its bytes. -/
theorem window_bounded (seq : Nat) (size : TermSize) {items : List Kept}
    (h : Kept.output [] ∉ items) :
    (items.foldl push (new seq size)).items.length ≤ REPLAY_BYTES := by
  -- a stream that stands for what came before the window was made
  have hbefore : sizeAfter size (List.replicate seq (.resized size)) = size := by
    induction seq with
    | zero => rfl
    | succ seq ih => exact ih
  have hkeeps := pushes_keep (new_keeps (length_replicate ..).symm hbefore.symm) items
  refine Nat.le_trans (length_le_cost fun hmem => ?_) (hkeeps.bytes ▸ hkeeps.bound)
  rw [hkeeps.items] at hmem
  obtain hmem | hmem := mem_append.mp (List.mem_of_mem_drop hmem)
  · cases List.eq_of_mem_replicate hmem
  · exact h hmem

theorem window_bounded_two :
    (Kept.output [] ∉ [Kept.output [97], .resized ⟨80, 24⟩]) ∧
      ([Kept.output [97], .resized ⟨80, 24⟩].foldl push (new 0 ⟨80, 24⟩)).items.length ≤
        REPLAY_BYTES :=
  ⟨by decide, window_bounded 0 ⟨80, 24⟩ (by decide)⟩

theorem evict_fits {base bytes : Nat} {size : TermSize} (h : bytes ≤ REPLAY_BYTES)
    (items : List Kept) : evict base size bytes items = ⟨base, size, items, bytes⟩ := by
  cases items with
  | nil => rfl
  | cons oldest rest => rw [evict, if_neg (Nat.not_lt.mpr h)]

theorem push_free {r : Replay} (h : r.bytes ≤ REPLAY_BYTES) :
    r.push (.output []) = { r with items := r.items ++ [.output []] } := evict_fits h _

/-- Batches that are empty once their queries are out are kept for nothing, however many. -/
theorem window_grows : ¬ ∃ most : Nat, ∀ (seq : Nat) (size : TermSize) (items : List Kept),
    (items.foldl push (new seq size)).items.length ≤ most := by
  rintro ⟨most, h⟩
  have hkept : ∀ (n : Nat) (r : Replay), r.bytes ≤ REPLAY_BYTES →
      ((List.replicate n (Kept.output [])).foldl push r).items.length = r.items.length + n := by
    intro n
    induction n with
    | zero => intro r _; rfl
    | succ n ih =>
      intro r hr
      have hnext := ih (r.push (.output [])) (push_free hr ▸ hr)
      rw [push_free hr, length_append, length_singleton] at hnext
      rw [replicate_succ, foldl_cons, push_free hr, hnext]
      omega
  have hlength := hkept (most + 1) (new 0 ⟨80, 24⟩) (Nat.zero_le _)
  have hmost := h 0 ⟨80, 24⟩ (List.replicate (most + 1) (.output []))
  rw [hlength] at hmost
  exact absurd hmost (by simp [new])

end Replay

end Yardsort.Pty
