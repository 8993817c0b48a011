import Yardsort.Pty.QuietScan

/- When the quiet copy does just what the program's own output does, but for the queries.

   Two things stand in its way: a query cut by a batch, whose half has gone out and is given up
   (`uncut`), and a query whose `ESC` interrupted something that goes on once it is gone
   (`seamless`). Without either, the copy does the same (`quiet_iff`). With one of them it does
   not; with both, it could by chance, and then it leaves more open than the program did: every
   byte but `CAN` and `SUB` is part of an action or still open (`read_weight`), and a half is
   never empty. -/
namespace Yardsort.Pty
open Yardsort.Lib Unfinished

/-- No query is cut: none that is open at a batch's start is completed in it. -/
def uncut : Viewer → List Bytes → Bool
  | _, [] => true
  | v, batch :: batches => (halfSent v (v.readAll batch).2).isEmpty && uncut (v.readAll batch).1 batches

/-- How many bytes of a stream are still part of something open at its end. -/
def leftOpen (stream : Bytes) : Nat := (Viewer.idle.readAll stream).1.bytes.length

/-- The quiet copy does what the program's own output does with just the queries removed, and asks
    nothing. -/
structure Quiet (batches : List Bytes) : Prop where
  same : actions (quietCopy batches) =
    (actions batches.flatten).filter (fun a => !a.query)
  silent : (Queries.new.feed (quietCopy batches)).2.isEmpty = true

variable {v : Viewer} {batches : List Bytes}

theorem expected_uncut (h : uncut v batches = true) :
    expected v batches = (v.readAll batches.flatten).2.filter (fun a => !a.query) := by
  induction batches generalizing v with
  | nil => rfl
  | cons batch batches ih =>
    rw [uncut, Bool.and_eq_true, List.isEmpty_iff] at h
    rw [expected, unasked, h.1, nil_append, flatten_cons, Viewer.readAll_append, filter_append,
      ih h.2]

def spent (acts : List Action) : Nat := (acts.map (·.bytes.length)).sum

def weight (stream : Bytes) : Nat := stream.countP fun b => !(b == CAN || b == SUB)

theorem spent_append (acts more : List Action) : spent (acts ++ more) = spent acts + spent more := by
  rw [spent, map_append, sum_append]
  rfl

theorem spent_ends (ht : v.Tidy) (byte : UInt8) : spent (v.ends byte) = v.bytes.length := by
  unfold Viewer.ends
  cases hs : v.state with
  | ground =>
    rw [ht hs]
    rfl
  | string e => cases hb : decide (byte = ESC) <;> simp_all [spent, Action.bytes]
  | _ => simp [spent, Action.bytes]

theorem spent_begins (byte : UInt8) :
    spent (Viewer.begins byte).2 + (Viewer.begins byte).1.bytes.length = weight [byte] := by
  unfold Viewer.begins
  by_cases hopens : (step .ground byte).1 = .ground
  · rw [if_neg (not_not_intro hopens)]
    by_cases hends : byte = CAN ∨ byte = SUB
    · rw [if_pos hends]
      obtain rfl | rfl := hends <;> rfl
    · have hweight : weight [byte] = 1 := by simp_all [weight]
      rw [if_neg hends, hweight]
      split <;> rfl
  · have hne : ¬ (byte = CAN ∨ byte = SUB) := by
      rintro (rfl | rfl) <;> exact hopens (by decide)
    have hweight : weight [byte] = 1 := by simp_all [weight]
    rw [if_pos hopens, hweight]
    rfl

theorem read_weight (ht : v.Tidy) (byte : UInt8) :
    spent (v.read byte).2 + (v.read byte).1.bytes.length = v.bytes.length + weight [byte] := by
  cases hr : (step v.state byte).2 with
  | true =>
    -- what was open ends, and the byte begins afresh
    have hbegins := spent_begins byte
    rw [Viewer.read_restart hr, spent_append, spent_ends ht]
    dsimp only
    omega
  | false =>
    obtain ⟨-, hc⟩ := not_restart hr
    have hweight : weight [byte] = 1 := by simp_all [weight]
    rw [hweight]
    by_cases hn : (step v.state byte).1 = .ground
    · rw [Viewer.read_finish hr hn, Viewer.finish]
      cases v.state <;> simp [spent, Action.bytes, Viewer.idle]
    · cases hctl : (v.state.inSequence && isControl byte) with
      | true =>
        rw [Viewer.read_control hr hn hctl]
        simp [spent, Action.bytes, Nat.add_comm]
      | false =>
        rw [Viewer.read_keep hr hn hctl]
        simp [spent]

theorem weight_cons (byte : UInt8) (rest : Bytes) :
    weight (byte :: rest) = weight [byte] + weight rest := by
  rw [weight, weight, weight, ← singleton_append, countP_append]

theorem readAll_weight (ht : v.Tidy) (l : Bytes) :
    spent (v.readAll l).2 + (v.readAll l).1.bytes.length = v.bytes.length + weight l := by
  induction l generalizing v with
  | nil => exact Nat.add_comm ..
  | cons b l ih =>
    have hone := read_weight ht b
    have hrest := ih (v.read_tidy b)
    rw [Viewer.readAll, spent_append, weight_cons]
    dsimp only
    omega

theorem readMarks_weight (ht : v.Tidy) (marks : List Mark) :
    spent (v.readMarks marks).2 + (v.readMarks marks).1.bytes.length =
      v.bytes.length + weight (staying marks) := by
  induction marks generalizing v with
  | nil => exact Nat.add_comm ..
  | cons mark marks ih =>
    cases mark with
    | stay b =>
      have hone := read_weight ht b
      have hrest := ih (v.read_tidy b)
      rw [Viewer.readMarks, spent_append, staying, weight_cons]
      dsimp only
      omega
    | gone =>
      have hrest := ih Viewer.tidy_idle
      rw [Viewer.readMarks, spent_append, spent_ends ht, staying]
      dsimp only [Viewer.idle, length_nil] at hrest ⊢
      omega

def Viewer.Opened (v : Viewer) : Prop := v.state ≠ .ground → v.bytes ≠ []

theorem read_opened (h : v.Opened) (byte : UInt8) : (v.read byte).1.Opened := by
  cases hr : (step v.state byte).2 with
  | true =>
    rw [Viewer.read_restart hr]
    unfold Viewer.begins
    split
    · exact fun _ => cons_ne_nil byte []
    · split
      · exact fun hs => absurd rfl hs
      · split <;> exact fun hs => absurd rfl hs
  | false =>
    by_cases hn : (step v.state byte).1 = .ground
    · rw [Viewer.read_finish hr hn]
      exact fun hs => absurd rfl hs
    · cases hctl : (v.state.inSequence && isControl byte) with
      | true =>
        rw [Viewer.read_control hr hn hctl]
        refine fun _ => h fun hground => ?_
        rw [hground] at hctl
        cases hctl
      | false =>
        rw [Viewer.read_keep hr hn hctl]
        exact fun _ => by simp

theorem readAll_opened (h : v.Opened) (l : Bytes) : (v.readAll l).1.Opened := by
  induction l generalizing v with
  | nil => exact h
  | cons b l ih => exact ih (read_opened h b)

theorem halfSent_spent (h : v.Opened) {acts : List Action} (hspent : spent (halfSent v acts) = 0) :
    halfSent v acts = [] := by
  unfold halfSent at hspent ⊢
  split
  · rename_i hcut
    rw [if_pos hcut] at hspent
    have hstate : v.state ≠ .ground := by
      intro hground
      rw [Bool.and_eq_true, hground] at hcut
      cases hcut.1
    have hbytes : v.bytes.length = 0 := by simpa [spent, Action.bytes] using hspent
    exact absurd (length_eq_zero_iff.mp hbytes) (h hstate)
  · rfl

theorem expected_spent (h : v.Opened) :
    spent ((v.readAll batches.flatten).2.filter (fun a => !a.query)) ≤ spent (expected v batches) ∧
      (spent (expected v batches) =
          spent ((v.readAll batches.flatten).2.filter (fun a => !a.query)) →
        uncut v batches = true) := by
  induction batches generalizing v with
  | nil => exact ⟨Nat.le_refl _, fun _ => rfl⟩
  | cons batch batches ih =>
    obtain ⟨hle, hcut⟩ := ih (readAll_opened h batch)
    rw [expected, unasked, flatten_cons, Viewer.readAll_append, filter_append, spent_append,
      spent_append, spent_append]
    -- no batch adds weight, so none gives a half up
    refine ⟨by omega, fun heq => ?_⟩
    rw [uncut, Bool.and_eq_true, List.isEmpty_iff]
    exact ⟨halfSent_spent h (by omega), hcut (by omega)⟩

theorem silent_of_same (h : actions (quietCopy batches) =
    (actions batches.flatten).filter (fun a => !a.query)) :
    (Queries.new.feed (quietCopy batches)).2.isEmpty = true := by
  have hnone : (actions (quietCopy batches)).countP Action.query = 0 := by
    rw [h]
    exact countP_eq_zero.mpr fun a ha => by simpa using (mem_filter.mp ha).2
  have hcount := (feed_batch follows_new (quietCopy batches)).2.2
  rw [show (Viewer.idle.readAll (quietCopy batches)).2 = actions (quietCopy batches) from rfl,
    hnone] at hcount
  exact List.isEmpty_iff.mpr (length_eq_zero_iff.mp hcount)

theorem same_expected_iff (batches : List Bytes) :
    actions (quietCopy batches) = expected Viewer.idle batches ↔
      seamless .ground (marks batches) = true := by
  have hcopy : quietCopy batches = staying (marks batches) := quietCopies_eq follows_new batches
  have hmarks : (Viewer.idle.readMarks (marks batches)).2 = expected Viewer.idle batches := by
    rw [marks, readMarks_marksFrom]
  rw [hcopy, actions, ← hmarks]
  exact Viewer.seamless_iff Viewer.tidy_idle (marks batches)

/-- What the copy does and leaves open weighs what is expected and the program leaves open. -/
theorem copy_weight (batches : List Bytes) :
    spent (actions (quietCopy batches)) + leftOpen (quietCopy batches) =
      spent (expected Viewer.idle batches) + leftOpen batches.flatten := by
  have hcopy := readAll_weight Viewer.tidy_idle (quietCopy batches)
  have hmarks := readMarks_weight Viewer.tidy_idle (marks batches)
  rw [marks, readMarks_marksFrom, ← quietCopies_eq follows_new batches] at hmarks
  exact hcopy.trans hmarks.symm

/-- **The quiet copy is quiet and otherwise the same**, with no more left open than the program
    left, exactly when no query is cut by a batch and nothing that a query's `ESC` interrupted goes
    on after the query is gone. Where only one of the two is not so, it is not the same at all. -/
theorem quiet_iff (batches : List Bytes) :
    (Quiet batches ∧ leftOpen (quietCopy batches) ≤ leftOpen batches.flatten ↔
      uncut Viewer.idle batches = true ∧ seamless .ground (marks batches) = true) ∧
    (uncut Viewer.idle batches = true ∨ seamless .ground (marks batches) = true →
      (Quiet batches ↔
        uncut Viewer.idle batches = true ∧ seamless .ground (marks batches) = true)) := by
  have hweight := copy_weight batches
  have hboth : uncut Viewer.idle batches = true → seamless .ground (marks batches) = true →
      Quiet batches ∧ leftOpen (quietCopy batches) ≤ leftOpen batches.flatten := by
    intro huncut hseamless
    have hexpected := (same_expected_iff batches).mpr hseamless
    have hsame := hexpected.trans (expected_uncut huncut)
    rw [hexpected] at hweight
    exact ⟨⟨hsame, silent_of_same hsame⟩, by omega⟩
  obtain ⟨hle, hcut⟩ := @expected_spent Viewer.idle batches fun hs => absurd rfl hs
  have huncutOf : uncut Viewer.idle batches = true → Quiet batches →
      seamless .ground (marks batches) = true := by
    intro huncut hquiet
    exact (same_expected_iff batches).mp (hquiet.same.trans (expected_uncut huncut).symm)
  refine ⟨⟨?_, fun h => hboth h.1 h.2⟩, fun hone => ⟨fun hquiet => ?_, fun h => (hboth h.1 h.2).1⟩⟩
  · rintro ⟨hquiet, hopen⟩
    -- a half given up would be made up for by more left open
    rw [hquiet.same, actions] at hweight
    have huncut := hcut (by omega)
    exact ⟨huncut, huncutOf huncut hquiet⟩
  · obtain huncut | hseamless := hone
    · exact ⟨huncut, huncutOf huncut hquiet⟩
    · have hexpected := (same_expected_iff batches).mpr hseamless
      refine ⟨hcut ?_, hseamless⟩
      rw [← hexpected, hquiet.same, actions]

/-- `ESC [ 3`, a whole cursor query, then `1 m` and a letter. -/
def interrupted : Bytes :=
  [ESC, 0x5b, 0x33] ++ [ESC, 0x5b, 0x36, 0x6e] ++ [0x31, 0x6d] ++ [0x78]

def halved : List Bytes := [[ESC, 0x5b, 0x36], [0x6e]]

/-- The query taken out, the two halves close up to `ESC [ 3 1 m`: the copy's letter is
    red, where the program's own output prints `1mx`. And of a query in two batches, the copy
    gives the first half up. -/
theorem interrupted_not_quiet : ¬ Quiet [interrupted] ∧
    actions (quietCopy [interrupted]) =
      [.completed [ESC, 0x5b, 0x33, 0x31, 0x6d] [ESC, 0x5b, 0x33, 0x31, 0x6d], .printed [0x78]] ∧
    (actions [interrupted].flatten).filter (fun a => !a.query) =
      [.abandoned [ESC, 0x5b, 0x33], .printed [0x31], .printed [0x6d], .printed [0x78]] ∧
    ¬ Quiet halved ∧ actions (quietCopy halved) = [.abandoned [ESC, 0x5b, 0x36]] ∧
    (actions halved.flatten).filter (fun a => !a.query) = [] := by
  have hcopy : actions (quietCopy [interrupted]) =
      [.completed [ESC, 0x5b, 0x33, 0x31, 0x6d] [ESC, 0x5b, 0x33, 0x31, 0x6d],
        .printed [0x78]] := by decide
  have hown : (actions [interrupted].flatten).filter (fun a => !a.query) =
      [.abandoned [ESC, 0x5b, 0x33], .printed [0x31], .printed [0x6d], .printed [0x78]] := by
    decide
  have hhalf : actions (quietCopy halved) = [.abandoned [ESC, 0x5b, 0x36]] := by decide
  have hnone : (actions halved.flatten).filter (fun a => !a.query) = [] := by decide
  refine ⟨fun h => ?_, hcopy, hown, fun h => ?_, hhalf, hnone⟩
  · have hsame := h.same
    rw [hcopy, hown] at hsame
    cases hsame
  · have hsame := h.same
    rw [hhalf, hnone] at hsame
    cases hsame

end Yardsort.Pty
