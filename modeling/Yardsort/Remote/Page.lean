import Yardsort.Remote.Model

/- Pages of lists (`page` and `fitting` of `core/src/remote.rs`): as many items as asked, or as
   many as fit in a frame when fewer do.

   How many fit is searched for by halves. Whatever the size of a page of so many items is, what
   is found fits (`fitting_fits`); that there is room for one item is what makes a list go on
   (`fitting_ok`). -/
namespace Yardsort.Remote
open Yardsort.Lib Yardsort.Proto

/-- Room a frame keeps beside a page: the request's id, the names of the response's fields and
    the reply's kind, and the page's cursors. -/
def FRAME_RESERVE : Nat := 1024

def PAGE_BUDGET : Nat := MAX_CONTROL_FRAME - FRAME_RESERVE

/-- `low` items fit and `high` do not: the middle takes the place of one of them. -/
def search (size : Nat → Nat) (low high : Nat) : Nat :=
  if 1 < high - low then
    if size (low + (high - low) / 2) ≤ PAGE_BUDGET then search size (low + (high - low) / 2) high
    else search size low (low + (high - low) / 2)
  else low
termination_by high - low

/-- How many of `count` items a page can hold, where `size n` is the page of `n` of them. -/
def fitting (count : Nat) (size : Nat → Nat) : Answer Nat :=
  if count = 0 ∨ size count ≤ PAGE_BUDGET then .ok count
  else if PAGE_BUDGET < size 1 then
    .error (.new .internal "The host could not fit its answer in one message.")
  else .ok (search size 1 count)

theorem search_spec (size : Nat → Nat) (low high : Nat) (hlow : size low ≤ PAGE_BUDGET)
    (hlt : low < high) :
    low ≤ search size low high ∧ search size low high < high ∧
      size (search size low high) ≤ PAGE_BUDGET := by
  rw [search]
  split
  · split
    · rename_i hmid
      obtain ⟨hle, hhigh, hfits⟩ :=
        search_spec size (low + (high - low) / 2) high hmid (by omega)
      exact ⟨by omega, hhigh, hfits⟩
    · obtain ⟨hle, hhigh, hfits⟩ := search_spec size low (low + (high - low) / 2) hlow (by omega)
      exact ⟨hle, by omega, hfits⟩
  · exact ⟨Nat.le_refl _, hlt, hlow⟩
termination_by high - low

theorem fitting_fits {count n : Nat} {size : Nat → Nat} (h : fitting count size = .ok n) :
    n ≤ count ∧ (0 < count → 0 < n ∧ size n ≤ PAGE_BUDGET) := by
  unfold fitting at h
  split at h
  · rename_i hall
    cases h
    exact ⟨Nat.le_refl _, fun hpos => ⟨hpos, hall.resolve_left (Nat.ne_of_gt hpos)⟩⟩
  · rename_i hall
    split at h
    · cases h
    rename_i hone
    cases h
    have hne : count ≠ 1 := fun heq => hall (.inr (heq ▸ Nat.not_lt.mp hone))
    have hpos : count ≠ 0 := fun heq => hall (.inl heq)
    obtain ⟨hle, hlt, hfits⟩ := search_spec size 1 count (Nat.not_lt.mp hone) (by omega)
    exact ⟨Nat.le_of_lt hlt, fun _ => ⟨hle, hfits⟩⟩

theorem fitting_ok {count : Nat} {size : Nat → Nat} (h : 0 < count → size 1 ≤ PAGE_BUDGET) :
    ∃ n, fitting count size = .ok n := by
  unfold fitting
  split
  · exact ⟨count, rfl⟩
  rename_i hall
  have hpos : 0 < count := Nat.pos_of_ne_zero fun heq => hall (.inl heq)
  rw [if_neg (Nat.not_lt.mpr (h hpos))]
  exact ⟨_, rfl⟩

/-- Cursors name the last item a page held. -/
def CURSOR_PREFIX : String := "k1."

def stripPrefix (start text : String) : Option String :=
  if start.toList.isPrefixOf text.toList then
    some (String.ofList (text.toList.drop start.toList.length))
  else none

def issue (text : String) : Answer Cursor :=
  match Cursor.new text with
  | .ok cursor => .ok cursor
  | .error _ => .error .unreadable

section
variable {α : Type}

def pageStart (items : List α) (key : α → String) : Option Cursor → Answer Nat
  | none => .ok 0
  | some cursor =>
    match (stripPrefix CURSOR_PREFIX cursor.text).bind fun after =>
        items.findIdx? fun item => key item = after with
    | some index => .ok (index + 1)
    | none => .error .cursorExpired

def page (items : List α) (key : α → String) (cursor : Option Cursor) (limit : Option Nat)
    (size : List α → Nat) : Answer (List α × Option Cursor) := do
  let start ← pageStart items key cursor
  let asked := pageSize limit
  let held := (items.drop start).take asked
  let fit ← fitting held.length fun n => size (held.take n)
  let more := start + asked < items.length || fit < held.length
  let held := held.take fit
  match held.getLast? with
  | some last =>
    if more then do
      let next ← issue (CURSOR_PREFIX ++ key last)
      .ok (held, some next)
    else .ok (held, none)
  | none => .ok (held, none)

end

end Yardsort.Remote
