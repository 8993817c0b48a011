import Yardsort.Lib.Fallible
import Yardsort.Remote.Page

/- Following a list to its end (`page` and its callers, `core/src/remote.rs`): a client asks
   without a cursor, and then with each page's `next` until there is none.

   Where a page starts is a number of items gone by. One page moves it on (`page_from`) and its
   cursor finds it again (`pageStart_next`), so what is left after any page is followed to its end
   (`follow_from`). -/
namespace Yardsort.Remote
open Yardsort.Lib Yardsort.Proto

section
variable {α : Type} (items : List α) (key : α → Proto.Id) (size : List α → Nat)

def pageOf (cursor : Option Cursor) (limit : Option Nat) : Answer (List α × Option Cursor) :=
  page items (fun item => (key item).text) cursor limit size

/-- The pages a client is given in so many steps that starts at a cursor and follows `next`,
    asking for as many items as it likes each time. -/
def follow (limits : Nat → Option Nat) : Nat → Option Cursor → Option (List (List α))
  | 0, _ => none
  | steps + 1, cursor =>
    match pageOf items key size cursor (limits 0) with
    | .ok (held, some next) =>
      (follow (fun n => limits (n + 1)) steps (some next)).map (held :: ·)
    | .ok (held, none) => some [held]
    | .error _ => none

end

theorem graphic_of_idByte {b : UInt8} (h : idByte b = true) : graphicByte b = true := by
  simp only [idByte, graphicByte, Bool.or_eq_true, Bool.and_eq_true, decide_eq_true_eq,
    beq_iff_eq, UInt8.le_iff_toNat_le, ← UInt8.toNat_inj] at h ⊢
  simp at h ⊢
  omega

theorem cursor_of_id (id : Proto.Id) :
    ∃ next, issue (CURSOR_PREFIX ++ id.text) = .ok next ∧
      next.text = CURSOR_PREFIX ++ id.text := by
  have hid := id.ok
  unfold checkId at hid
  split at hid
  · cases hid
  split at hid
  · cases hid
  split at hid
  case isFalse => cases hid
  rename_i hany hlong hall
  have hstart : utf8 CURSOR_PREFIX = [0x6b, 0x31, 0x2e] := by decide +kernel
  have happend : utf8 (CURSOR_PREFIX ++ id.text) = [0x6b, 0x31, 0x2e] ++ utf8 id.text := by
    rw [← hstart]
    simp only [utf8_eq, String.toList_append, flatMap_append]
  have hok : checkCursor (CURSOR_PREFIX ++ id.text) = .ok () := by
    unfold checkCursor
    rw [happend, if_neg (by simp), if_neg, if_pos]
    · rw [List.all_append, Bool.and_eq_true]
      refine ⟨by decide, all_eq_true.mpr fun b hb => ?_⟩
      exact graphic_of_idByte (all_eq_true.mp hall b hb)
    · simp only [length_append, length_cons, length_nil, MAX_ID_LEN,
        MAX_CURSOR_LEN] at hlong ⊢
      omega
  exact ⟨⟨_, hok⟩, by rw [issue, Cursor.new_ok hok], rfl⟩

theorem strip_cursor (text : String) :
    stripPrefix CURSOR_PREFIX (CURSOR_PREFIX ++ text) = some text := by
  have hpre : CURSOR_PREFIX.toList.isPrefixOf (CURSOR_PREFIX ++ text).toList = true := by
    rw [String.toList_append]
    exact List.isPrefixOf_iff_prefix.mpr ⟨_, rfl⟩
  rw [stripPrefix, if_pos hpre, String.toList_append, drop_left, String.ofList_toList]

section
variable {α : Type} {items : List α} {key : α → Proto.Id} {size : List α → Nat}
  {cursor : Option Cursor} {limit : Option Nat}

/-- What a page that starts after so many items holds, and what its cursor names. -/
structure FromStart (items : List α) (key : α → Proto.Id) (size : List α → Nat) (start n : Nat)
    (next : Option Cursor) : Prop where
  /-- Something, where there is something. -/
  any : start < items.length → 0 < n
  fits : size ((items.drop start).take n) ≤ PAGE_BUDGET
  /-- The last page ends the list. -/
  ends : next = none → items.length ≤ start + n
  /-- A cursor names the last item of a page that something comes after. -/
  names : ∀ c, next = some c → start + n < items.length ∧ 0 < n ∧
    ∃ item, items[start + n - 1]? = some item ∧ ((items.drop start).take n).getLast? = some item ∧
      c.text = CURSOR_PREFIX ++ (key item).text

theorem page_from {start : Nat} (limit : Option Nat)
    (hone : ∀ held, held.length ≤ 1 → size held ≤ PAGE_BUDGET)
    (hstart : pageStart items (fun item => (key item).text) cursor = .ok start) :
    ∃ n next, pageOf items key size cursor limit = .ok ((items.drop start).take n, next) ∧
      FromStart items key size start n next := by
  have hasked : 0 < pageSize limit := by unfold pageSize; omega
  let held := (items.drop start).take (pageSize limit)
  have hheld : held.length = min (pageSize limit) (items.length - start) := by
    simp [held]
  obtain ⟨fit, hfit⟩ := @fitting_ok held.length (fun n => size (held.take n))
    fun _ => hone _ (by simp)
  obtain ⟨hle, hpos⟩ := fitting_fits hfit
  have htake : held.take fit = (items.drop start).take fit := by
    rw [take_take, Nat.min_eq_left (by omega)]
  have hfits : size ((items.drop start).take fit) ≤ PAGE_BUDGET := by
    by_cases hany : 0 < held.length
    · exact htake ▸ (hpos hany).2
    · exact hone _ (by simp; omega)
  have hlength : ((items.drop start).take fit).length = fit := by simp [hheld] at hle ⊢; omega
  have hany : start < items.length → 0 < fit := fun hlt => (hpos (by omega)).1
  unfold pageOf page
  simp only [hstart, bind, Except.bind]
  rw [show fitting _ _ = .ok fit from hfit]
  simp only [show (List.take (pageSize limit) (items.drop start)).take fit = _ from htake,
    show (List.take (pageSize limit) (items.drop start)).length = _ from hheld]
  cases hlast : ((items.drop start).take fit).getLast? with
  | none =>
    have hnone := List.getLast?_eq_none_iff.mp hlast
    have hempty : fit = 0 := by rw [← hlength, hnone, length_nil]
    exact ⟨fit, none, rfl, hany, hfits, fun _ => by omega, nofun⟩
  | some last =>
    obtain ⟨next, hissue, htext⟩ := cursor_of_id (key last)
    have hpos : 0 < fit := by
      cases fit with
      | zero => simp at hlast
      | succ fit => omega
    have hitem : items[start + fit - 1]? = some last := by
      rw [List.getLast?_eq_getElem?, hlength, List.getElem?_take_of_lt (by omega),
        List.getElem?_drop] at hlast
      rw [← hlast, Nat.add_sub_assoc hpos]
    simp only [hissue]
    split
    · rename_i hmore
      refine ⟨fit, some next, rfl, hany, hfits, nofun, ?_⟩
      rintro c ⟨rfl⟩
      refine ⟨?_, hpos, last, hitem, hlast, htext⟩
      simp only [Bool.or_eq_true, decide_eq_true_eq] at hmore
      omega
    · rename_i hmore
      refine ⟨fit, none, rfl, hany, hfits, fun _ => ?_, nofun⟩
      simp only [Bool.or_eq_true, decide_eq_true_eq] at hmore
      omega

theorem pageStart_named (items : List α) (key : α → Proto.Id) {next : Cursor} {id : Proto.Id}
    (htext : next.text = CURSOR_PREFIX ++ id.text) :
    ((∀ item ∈ items, key item ≠ id) ∧
        pageStart items (fun item => (key item).text) (some next) = .error .cursorExpired) ∨
      ∃ index item, items[index]? = some item ∧ key item = id ∧
        (∀ before < index, ∀ other, items[before]? = some other → key other ≠ id) ∧
        pageStart items (fun item => (key item).text) (some next) = .ok (index + 1) := by
  simp only [pageStart, htext, strip_cursor, bind_some]
  cases hfind : items.findIdx? fun item => (key item).text = id.text with
  | none =>
    refine .inl ⟨fun item hin heq => ?_, rfl⟩
    have hno := List.findIdx?_eq_none_iff.mp hfind item hin
    simp [heq] at hno
  | some index =>
    obtain ⟨hlt, hkey, hfirst⟩ := List.findIdx?_eq_some_iff_getElem.mp hfind
    simp only [decide_eq_true_eq] at hkey hfirst
    refine .inr ⟨index, items[index], List.getElem?_eq_getElem hlt, Id.eq_of_text hkey, ?_, rfl⟩
    intro before hbefore other hother heq
    obtain ⟨hin, rfl⟩ := List.getElem?_eq_some_iff.mp hother
    exact hfirst before hbefore (congrArg Id.text heq)

theorem pageStart_next {next : Cursor} {item : α} {index : Nat} (hnodup : (items.map key).Nodup)
    (hitem : items[index]? = some item) (htext : next.text = CURSOR_PREFIX ++ (key item).text) :
    pageStart items (fun item => (key item).text) (some next) = .ok (index + 1) := by
  have hkey : (items.map key)[index]? = some (key item) := by rw [List.getElem?_map, hitem]; rfl
  obtain ⟨hgone, -⟩ | ⟨found, other, hother, hsame, -, hstart⟩ := pageStart_named items key htext
  · exact absurd rfl (hgone item (mem_of_getElem? hitem))
  · have hfound : (items.map key)[found]? = some (key item) := by
      rw [List.getElem?_map, hother, map_some, hsame]
    obtain ⟨hlt, -⟩ := List.getElem?_eq_some_iff.mp hfound
    rw [hstart, (List.getElem?_inj hlt hnodup).mp (hfound.trans hkey.symm)]

theorem follow_from (hnodup : (items.map key).Nodup)
    (hone : ∀ held, held.length ≤ 1 → size held ≤ PAGE_BUDGET) (limits : Nat → Option Nat)
    {start steps : Nat} {cursor : Option Cursor} (hsteps : items.length < start + steps)
    (hle : start ≤ items.length)
    (hstart : pageStart items (fun item => (key item).text) cursor = .ok start) :
    ∃ pages, follow items key size limits steps cursor = some pages ∧
      pages.flatten = items.drop start ∧ (∀ held ∈ pages, size held ≤ PAGE_BUDGET) ∧
      (start < items.length → ∀ held ∈ pages, held ≠ []) ∧
      (start = items.length → pages = [[]]) := by
  induction steps generalizing limits start cursor with
  | zero => omega
  | succ steps ih =>
    obtain ⟨n, next, hpage, hfrom⟩ := page_from (limits 0) hone hstart
    have hheld : start < items.length → (items.drop start).take n ≠ [] := by
      intro hlt hnil
      have hlength := congrArg List.length hnil
      have hany := hfrom.any hlt
      simp at hlength
      omega
    unfold follow
    simp only [hpage]
    cases next with
    | none =>
      have hends := hfrom.ends rfl
      refine ⟨[(items.drop start).take n], rfl, ?_, ?_, ?_, ?_⟩
      · simp only [flatten_cons, List.flatten_nil, append_nil]
        exact take_of_length_le (by simp; omega)
      · simpa using hfrom.fits
      · simpa using hheld
      · rintro rfl
        simp
    | some c =>
      obtain ⟨hlt, hpos, item, hitem, -, htext⟩ := hfrom.names c rfl
      have hnext := pageStart_next hnodup hitem htext
      rw [Nat.sub_add_cancel (by omega)] at hnext
      obtain ⟨pages, hpages, hflat, hfits, hsome, -⟩ :=
        ih (fun n => limits (n + 1)) (by omega) (by omega) hnext
      refine ⟨(items.drop start).take n :: pages, congrArg (Option.map _) hpages, ?_, ?_, ?_, ?_⟩
      · rw [flatten_cons, hflat, ← drop_drop, take_append_drop]
      · exact forall_mem_cons.mpr ⟨hfrom.fits, hfits⟩
      · exact fun hstart => forall_mem_cons.mpr ⟨hheld hstart, hsome hlt⟩
      · omega

/-- Following a list that stays as it is gives all of it, in pages that fit; when it changes
    between two pages, the next is refused or starts right after the item its cursor names. -/
theorem list_followed (items : List α) (key : α → Proto.Id) (size : List α → Nat)
    (hone : ∀ held, held.length ≤ 1 → size held ≤ PAGE_BUDGET) :
    ((items.map key).Nodup → ∀ limits : Nat → Option Nat, ∃ pages,
      follow items key size limits (items.length + 1) none = some pages ∧ pages.flatten = items ∧
      (items = [] → pages = [[]]) ∧ (items ≠ [] → ∀ held ∈ pages, held ≠ []) ∧
      ∀ held ∈ pages, size held ≤ PAGE_BUDGET) ∧
    ∀ cursor limit held next, pageOf items key size cursor limit = .ok (held, some next) →
      ∀ items' limit',
        pageOf items' key size (some next) limit' = .error .cursorExpired ∨
        ∃ before item after n next', items' = before ++ item :: after ∧
          (∀ other ∈ before, key other ≠ key item) ∧
          held.getLast?.map key = some (key item) ∧
          pageOf items' key size (some next) limit' = .ok (after.take n, next') ∧
          (after ≠ [] → after.take n ≠ []) ∧ size (after.take n) ≤ PAGE_BUDGET := by
  constructor
  · intro hnodup limits
    obtain ⟨pages, hpages, hflat, hfits, hsome, hnone⟩ :=
      follow_from hnodup hone limits (Nat.lt_of_lt_of_eq (Nat.lt_succ_self _)
        (Nat.zero_add _).symm) (Nat.zero_le _)
        (rfl : pageStart items (fun item => (key item).text) none = .ok 0)
    refine ⟨pages, hpages, hflat, fun h => hnone (by rw [h]; rfl), fun h => ?_, hfits⟩
    exact hsome (length_pos_of_ne_nil h)
  · intro cursor limit held next hpage items' limit'
    have hrest := hpage
    unfold pageOf page at hrest
    obtain ⟨start, hstart, -⟩ := Fallible.bind_ok.mp hrest
    obtain ⟨n, c, hgot, hfrom⟩ := page_from limit hone hstart
    cases hpage.symm.trans hgot
    obtain ⟨-, -, item, -, hlast, htext⟩ := hfrom.names next rfl
    obtain ⟨-, hgone⟩ | ⟨index, other, hother, hkey, hfirst, hnext⟩ :=
      pageStart_named items' key htext
    · left
      unfold pageOf page
      rw [hgone]
      rfl
    · obtain ⟨n', next', hnext, hfrom⟩ := page_from limit' hone hnext
      obtain ⟨hlt, rfl⟩ := List.getElem?_eq_some_iff.mp hother
      refine .inr ⟨items'.take index, items'[index], items'.drop (index + 1), n', next', ?_, ?_, ?_,
        hnext, ?_, hfrom.fits⟩
      · rw [List.cons_getElem_drop_succ, take_append_drop]
      · intro old hold
        obtain ⟨before, hbefore, rfl⟩ := List.mem_take_iff_getElem.mp hold
        rw [hkey]
        exact hfirst before (by omega) _ (List.getElem?_eq_getElem _)
      · rw [hlast, map_some, hkey]
      · intro hsome hnil
        have hlength := congrArg List.length hnil
        have hlong := length_pos_of_ne_nil hsome
        have hany := hfrom.any
        simp at hlength hlong
        omega

theorem list_followed_three :
    let items : List Proto.Id :=
      [⟨"n1", by decide +kernel⟩, ⟨"n2", by decide +kernel⟩, ⟨"n3", by decide +kernel⟩]
    let size : List Proto.Id → Nat := fun held => 30000 * held.length
    ∃ pages, follow items id size (fun _ => none) 4 none = some pages ∧ pages.flatten = items := by
  intro items size
  have hone : ∀ held : List Proto.Id, held.length ≤ 1 → size held ≤ PAGE_BUDGET := by
    intro held hlength
    simp only [size, PAGE_BUDGET, MAX_CONTROL_FRAME, FRAME_RESERVE]
    omega
  obtain ⟨pages, hpages, hflat, -⟩ :=
    (list_followed items id size hone).1 (by decide +kernel) fun _ => none
  exact ⟨pages, hpages, hflat⟩

end

end Yardsort.Remote
