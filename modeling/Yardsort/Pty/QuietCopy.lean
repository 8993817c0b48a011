import Yardsort.Pty.Viewer

/- The quiet copy of a session's output: every batch without its queries, one after
   another, as `Queries.feed` and `Scan.without` make it.

   `Sifter` says what the copy is without positions in batches: the bytes of an open
   sequence are held until it ends or the batch does, and a query's are not let go.
   `quietCopies_eq` is that the code computes just this. `readMarks_marksFrom` is that
   the marks it leaves, read with every query's `ESC` in place, give the program's own
   actions without the queries, but for the half of one that a batch has cut. -/
namespace Yardsort.Pty
open Yardsort.Lib Unfinished

def quietCopies : Queries → List Bytes → Bytes
  | _, [] => []
  | q, batch :: batches => (q.feed batch).2.without batch ++ quietCopies (q.feed batch).1 batches

def quietCopy (batches : List Bytes) : Bytes := quietCopies Queries.new batches

def escaped : State → Bool
  | .ground | .utf8 _ => false
  | _ => true

/-- What a query that was open at the batch's start leaves behind: its half had gone out,
    and is given up. -/
def halfSent (v : Viewer) (acts : List Action) : List Action :=
  if escaped v.state && (acts.find? (fun a => !a.isControl)).any Action.query then
    [.abandoned v.bytes]
  else []

def unasked (v : Viewer) (acts : List Action) : List Action :=
  halfSent v acts ++ acts.filter (fun a => !a.query)

/-- The actions the batches make a terminal complete, without the queries; of one cut by
    a batch, the half sent before is given up at that batch's start. -/
def expected : Viewer → List Bytes → List Action
  | _, [] => []
  | v, batch :: batches => unasked v (v.readAll batch).2 ++ expected (v.readAll batch).1 batches

/-- Follows the batches, holding this batch's bytes of the open sequence. -/
structure Sifter where
  viewer : Viewer
  held : Bytes
  /-- The controls carried out among the bytes held. -/
  kept : Bytes
  /-- The sequence began in an earlier batch. -/
  cut : Bool

namespace Sifter

def at_ (v : Viewer) : Sifter := { viewer := v, held := [], kept := [], cut := escaped v.state }

def dropped (t : Sifter) : List Mark :=
  (if t.cut then [Mark.stay CAN] else [.gone]) ++ t.kept.map Mark.stay

def goesOn (t : Sifter) (byte : UInt8) : Bool :=
  escaped t.viewer.state && !(step t.viewer.state byte).2 &&
    (step t.viewer.state byte).1 ≠ .ground

def take (t : Sifter) (byte : UInt8) : List Mark × Sifter :=
  let (viewer, acts) := t.viewer.read byte
  if t.goesOn byte then
    ([], { t with viewer := viewer, held := t.held ++ [byte],
                  kept := if acts = [] then t.kept else t.kept ++ [byte] })
  else
    let asked := acts.any Action.query
    let out := if asked then t.dropped else t.held.map .stay
    if byte = ESC then (out, { viewer := viewer, held := [ESC], kept := [], cut := false })
    else
      (if asked then out else out ++ [.stay byte],
        { viewer := viewer, held := [], kept := [], cut := false })

def takeAll : Sifter → Bytes → List Mark × Sifter
  | t, [] => ([], t)
  | t, byte :: rest =>
    ((t.take byte).1 ++ ((t.take byte).2.takeAll rest).1, ((t.take byte).2.takeAll rest).2)

end Sifter

def marksFrom : Viewer → List Bytes → List Mark
  | _, [] => []
  | v, batch :: batches =>
    ((Sifter.at_ v).takeAll batch).1 ++ ((Sifter.at_ v).takeAll batch).2.held.map .stay ++
      marksFrom (v.readAll batch).1 batches

def marks (batches : List Bytes) : List Mark := marksFrom Viewer.idle batches

/-! ## The marks tell the program's own actions -/

theorem not_restart {s : State} {b : UInt8} (hr : (step s b).2 = false) :
    b ≠ ESC ∧ ¬ (b = CAN ∨ b = SUB) := by
  constructor
  · intro h
    simp [step, h] at hr
  · intro h
    simp only [step, h, if_true] at hr
    split at hr <;> cases hr

theorem step_escaped {s : State} {b : UInt8} (hs : escaped s = true)
    (hr : (step s b).2 = false) (hn : (step s b).1 ≠ .ground) : escaped (step s b).1 = true := by
  obtain ⟨he, hc⟩ := not_restart hr
  cases s with
  | ground => cases hs
  | utf8 left => cases hs
  | escape =>
    simp only [step, he, hc, if_false, afterEscape] at hn ⊢
    repeat' split
    all_goals first | rfl | simp_all
  | escapeIntermediate | csi | string e =>
    simp only [step, he, hc, if_false] at hn ⊢
    split at hn
    · exact absurd rfl hn
    · rename_i h
      rw [if_neg h]
      rfl

theorem step_not_escaped {s : State} {b : UInt8} (hb : b ≠ ESC)
    (hs : escaped s = false ∨ (step s b).2 = true ∨ (step s b).1 = .ground) :
    escaped (step s b).1 = false := by
  have hground : escaped (step .ground b).1 = false := by
    simp only [step, hb, if_false]
    split
    · rfl
    · unfold ground
      repeat' split
      all_goals rfl
  cases hs with
  | inl hs =>
    cases s with
    | ground => exact hground
    | utf8 left =>
      cases hr : (step (.utf8 left) b).2 with
      | true => rw [step_restart hr]; exact hground
      | false =>
        obtain ⟨he, hc⟩ := not_restart hr
        simp only [step, he, hc, if_false] at hr ⊢
        split
        · split <;> rfl
        · rename_i h
          rw [if_neg h] at hr
          cases hr
    | _ => cases hs
  | inr hs =>
    cases hs with
    | inl hr => rw [step_restart hr]; exact hground
    | inr hn => rw [hn]; rfl

variable {acts : List Action}

theorem controls_not_query (h : ∀ a ∈ acts, a.isControl = true) :
    ∀ a ∈ acts, a.query = false := by
  intro a ha
  have := h a ha
  cases a <;> first | rfl | cases this

variable {v : Viewer}

theorem unasked_append {more : List Action} (h : ∀ a ∈ more, a.query = false) :
    unasked v (acts ++ more) = unasked v acts ++ more := by
  have hfilter : more.filter (fun a => !a.query) = more :=
    filter_eq_self.mpr (fun a ha => by rw [h a ha]; rfl)
  have hhalf : halfSent v (acts ++ more) = halfSent v acts := by
    unfold halfSent
    rw [List.find?_append]
    cases hf : acts.find? (fun a => !a.isControl) with
    | some a => rfl
    | none =>
      rw [none_or]
      cases hm : more.find? (fun a => !a.isControl) with
      | none => rfl
      | some a => simp [h a (mem_of_find?_eq_some hm)]
  rw [unasked, unasked, hhalf, filter_append, hfilter, append_assoc]

theorem unasked_control_query {q : Action} (b : UInt8) (hq : q.query = true) :
    unasked v (acts ++ [Action.control b] ++ [q]) = unasked v (acts ++ [q]) ++ [Action.control b] := by
  have hhalf : halfSent v (acts ++ [Action.control b] ++ [q]) = halfSent v (acts ++ [q]) := by
    simp [halfSent, List.find?_append, Action.isControl]
  rw [unasked, unasked, hhalf]
  have hc : (Action.control b).query = false := rfl
  simp [filter_append, hq, hc]

theorem unasked_query {q : Action} (hq : q.query = true)
    (hv : escaped v.state = false ∨ ∃ a ∈ acts, a.isControl = false) :
    unasked v (acts ++ [q]) = unasked v acts := by
  have hhalf : halfSent v (acts ++ [q]) = halfSent v acts := by
    cases hv with
    | inl hv => simp [halfSent, hv]
    | inr hv =>
      obtain ⟨a, ha, hc⟩ := hv
      unfold halfSent
      rw [List.find?_append]
      cases hf : acts.find? (fun a => !a.isControl) with
      | some x => rfl
      | none =>
        have := List.find?_eq_none.mp hf a ha
        rw [hc] at this
        exact absurd rfl this
  rw [unasked, unasked, hhalf, filter_append]
  simp [hq]

theorem unasked_cut_query {q : Action} (hq : q.query = true) (hv : escaped v.state = true)
    (hacts : ∀ a ∈ acts, a.isControl = true) :
    unasked v (acts ++ [q]) = .abandoned v.bytes :: acts := by
  have hqc : q.isControl = false := by cases q <;> first | rfl | cases hq
  have hfind : (acts ++ [q]).find? (fun a => !a.isControl) = some q := by
    have hnone : acts.find? (fun a => !a.isControl) = none :=
      List.find?_eq_none.mpr (fun a ha => by simp [hacts a ha])
    simp [List.find?_append, hnone, hqc]
  have hfilter : acts.filter (fun a => !a.query) = acts :=
    filter_eq_self.mpr (fun a ha => by rw [controls_not_query hacts a ha]; rfl)
  simp [unasked, halfSent, hv, hfind, hq, filter_append, hfilter]

/-- What is known within a batch, once `acts` are complete: letting the bytes held go
    tells them without their queries, and dropping them does if a query comes next. -/
structure Sifted (v : Viewer) (acts : List Action) (m : List Mark) (t : Sifter) : Prop where
  go : v.readMarks (m ++ t.held.map Mark.stay) = (t.viewer, unasked v acts)
  drop : escaped t.viewer.state = true → ∀ q : Action, q.query = true →
    v.readMarks (m ++ t.dropped) = (Viewer.idle, unasked v (acts ++ [q]))
  idle : escaped t.viewer.state = false → t.held = [] ∧ t.cut = false
  began : t.cut = false → escaped v.state = false ∨ ∃ a ∈ acts, a.isControl = false

theorem sifted_at (v : Viewer) : Sifted v [] [] (Sifter.at_ v) := by
  refine ⟨by simp [Sifter.at_, unasked, halfSent, Viewer.readMarks], fun hs q hq => ?_,
    fun hs => ⟨rfl, hs⟩, fun hc => Or.inl hc⟩
  have hs : escaped v.state = true := hs
  have hcan : v.read CAN = (Viewer.idle, [.abandoned v.bytes]) := by
    have hr : (step v.state CAN).2 = true := rfl
    rw [Viewer.read_restart hr]
    cases hv : v.state with
    | ground => rw [hv] at hs; cases hs
    | _ => simp only [Viewer.ends, hv]; rfl
  have hq' : unasked v ([] ++ [q]) = [.abandoned v.bytes] :=
    unasked_cut_query hq hs (forall_mem_nil _)
  rw [hq']
  simp [Sifter.dropped, Sifter.at_, hs, Viewer.readMarks, hcan]

theorem read_goesOn {b : UInt8} (hr : (step v.state b).2 = false)
    (hn : (step v.state b).1 ≠ .ground) :
    (v.read b).2 = [] ∨ (v.read b).2 = [.control b] ∧ Viewer.idle.read b = (Viewer.idle, [.control b]) := by
  obtain ⟨he, hc⟩ := not_restart hr
  cases hctl : (v.state.inSequence && isControl b) with
  | false => exact Or.inl (by rw [Viewer.read_keep hr hn hctl])
  | true =>
    refine Or.inr ⟨by rw [Viewer.read_control hr hn hctl], ?_⟩
    have hb : isControl b = true := (Bool.and_eq_true .. ▸ hctl).2
    have hlt : b.toNat < 32 := by simpa [isControl, UInt8.lt_iff_toNat_lt] using hb
    have hg : (step .ground b).1 = .ground := by
      simp only [step, he, hc, if_false, ground, UInt8.le_iff_toNat_le]
      repeat' split
      all_goals first | rfl | simp_all; omega
    rw [Viewer.read_idle, Viewer.begins, if_neg (not_not_intro hg), if_neg hc, if_pos hb]

theorem Sifted.hold {m : List Mark} {t : Sifter} {b : UInt8} (h : Sifted v acts m t)
    (hg : t.goesOn b = true) :
    Sifted v (acts ++ (t.viewer.read b).2) (m ++ (t.take b).1) (t.take b).2 := by
  have hg' := hg
  simp only [Sifter.goesOn, Bool.and_eq_true, Bool.not_eq_true', ne_eq, decide_not,
    decide_eq_false_iff_not] at hg'
  obtain ⟨⟨hs, hr⟩, hn⟩ := hg'
  have hacts : ∀ a ∈ (t.viewer.read b).2, a.query = false := by
    cases read_goesOn hr hn with
    | inl h => rw [h]; exact fun _ ha => by cases ha
    | inr h => rw [h.1]; exact controls_not_query (fun a ha => by cases mem_singleton.mp ha; rfl)
  have hs' : escaped (t.viewer.read b).1.state = true := by
    rw [Viewer.read_state]
    exact step_escaped hs hr hn
  simp only [Sifter.take, hg, if_true, append_nil]
  refine ⟨?_, fun _ q hq => ?_, fun hf => ?_, fun hc => ?_⟩
  · rw [map_append, ← append_assoc, Viewer.readMarks_append, h.go, unasked_append hacts]
    simp [Viewer.readMarks]
  · have hdrop := h.drop hs q hq
    cases read_goesOn hr hn with
    | inl hnil =>
      rw [hnil, append_nil, ← hdrop]
      simp [Sifter.dropped]
    | inr hctl =>
      have hdropped : v.readMarks (m ++ t.dropped ++ [Mark.stay b]) =
          (Viewer.idle, unasked v (acts ++ [q]) ++ [Action.control b]) := by
        rw [Viewer.readMarks_append, hdrop]
        simp [Viewer.readMarks, hctl.2]
      rw [hctl.1, unasked_control_query b hq, ← hdropped]
      simp [Sifter.dropped]
  · rw [hs'] at hf; cases hf
  · cases h.began hc with
    | inl h => exact Or.inl h
    | inr h =>
      obtain ⟨a, ha, hac⟩ := h
      exact Or.inr ⟨a, mem_append_left _ ha, hac⟩

theorem begins_not_query (b : UInt8) : ∀ a ∈ (Viewer.begins b).2, a.query = false := by
  unfold Viewer.begins
  intro a ha
  repeat' split at ha
  all_goals first | cases ha; done | (cases mem_singleton.mp ha; rfl)

@[simp] theorem begins_esc : (Viewer.begins ESC).2 = [] := rfl

theorem read_ended {b : UInt8}
    (h : escaped v.state = false ∨ (step v.state b).2 = true ∨ (step v.state b).1 = .ground) :
    (∀ a ∈ (v.read b).2, a.query = false) ∨
      escaped v.state = true ∧ ∃ q, (v.read b).2 = [q] ∧ q.query = true ∧ q.isControl = false ∧
        (b ≠ ESC → (v.read b).1 = Viewer.idle) ∧
        (b = ESC → (v.read b).1 = (Viewer.idle.read ESC).1) := by
  cases hr : (step v.state b).2 with
  | true =>
    rw [Viewer.read_restart hr]
    have hbegins := begins_not_query b
    cases hs : v.state with
    | string e =>
      by_cases hb : b = ESC
      · subst hb
        have hends : v.ends ESC = [.string v.bytes v.heard] := by simp [Viewer.ends, hs]
        rw [hends]
        cases hq : (Action.string v.bytes v.heard).query with
        | false =>
          refine Or.inl (fun a ha => ?_)
          rw [begins_esc, append_nil] at ha
          cases mem_singleton.mp ha
          exact hq
        | true =>
          exact Or.inr ⟨rfl, _, rfl, hq, rfl, (fun h => absurd rfl h), fun _ => by
            rw [Viewer.read_idle]⟩
      · refine Or.inl (fun a ha => ?_)
        rw [Viewer.ends, hs] at ha
        simp only [hb, if_false, cons_append, nil_append, mem_cons] at ha
        cases ha with
        | inl ha => rw [ha]; rfl
        | inr ha => exact hbegins a ha
    | _ =>
      refine Or.inl (fun a ha => ?_)
      simp only [Viewer.ends, hs, cons_append, nil_append, mem_cons] at ha
      first
        | exact hbegins a ha
        | cases ha with
          | inl ha => rw [ha]; rfl
          | inr ha => exact hbegins a ha
  | false =>
    obtain ⟨he, _⟩ := not_restart hr
    by_cases hn : (step v.state b).1 = .ground
    · rw [Viewer.read_finish hr hn]
      cases hq : (v.finish b).query with
      | false => exact Or.inl (fun a ha => by cases mem_singleton.mp ha; exact hq)
      | true =>
        have hs : escaped v.state = true := by
          cases hv : v.state <;> simp_all [escaped, Viewer.finish, Action.query]
        have hc : (v.finish b).isControl = false := by
          unfold Viewer.finish
          cases v.state <;> rfl
        exact Or.inr ⟨hs, _, rfl, hq, hc, fun _ => rfl, fun h => absurd h he⟩
    -- a character goes on
    · refine Or.inl (fun a ha => ?_)
      have hs : escaped v.state = false := by
        cases h with
        | inl h => exact h
        | inr h =>
          cases h with
          | inl h => rw [hr] at h; cases h
          | inr h => exact absurd h hn
      have hseq : v.state.inSequence = false := by
        cases hv : v.state <;> first | rfl | (rw [hv] at hs; cases hs)
      rw [Viewer.read_keep hr hn (by rw [hseq]; rfl)] at ha
      cases ha

theorem read_ends_something {b : UInt8} (hs : escaped v.state = true)
    (h : (step v.state b).2 = true ∨ (step v.state b).1 = .ground) :
    ∃ a ∈ (v.read b).2, a.isControl = false := by
  cases hr : (step v.state b).2 with
  | true =>
    rw [Viewer.read_restart hr]
    cases hv : v.state with
    | ground => rw [hv] at hs; cases hs
    | string e =>
      simp only [Viewer.ends, hv]
      split
      · exact ⟨_, mem_cons_self, rfl⟩
      · exact ⟨_, mem_cons_self, rfl⟩
    | _ =>
      simp only [Viewer.ends, hv]
      exact ⟨_, mem_cons_self, rfl⟩
  | false =>
    have hn : (step v.state b).1 = .ground := by
      cases h with
      | inl h => rw [hr] at h; cases h
      | inr h => exact h
    rw [Viewer.read_finish hr hn]
    refine ⟨_, mem_cons_self, ?_⟩
    unfold Viewer.finish
    cases v.state <;> rfl

theorem Sifter.ends_of_not_goesOn (t : Sifter) {b : UInt8} (hg : t.goesOn b = false) :
    escaped t.viewer.state = false ∨ (step t.viewer.state b).2 = true ∨
      (step t.viewer.state b).1 = .ground := by
  cases hs : escaped t.viewer.state
  · exact Or.inl rfl
  · cases hr : (step t.viewer.state b).2
    · refine Or.inr (Or.inr ?_)
      simpa [Sifter.goesOn, hs, hr] using hg
    · exact Or.inr (Or.inl rfl)

theorem Sifted.ended {v : Viewer} {acts : List Action} {m : List Mark} {t : Sifter} {b : UInt8}
    (h : Sifted v acts m t) (hg : t.goesOn b = false) :
    Sifted v (acts ++ (t.viewer.read b).2) (m ++ (t.take b).1) (t.take b).2 := by
  have hend := t.ends_of_not_goesOn hg
  have hbegan : escaped v.state = false ∨
      ∃ a ∈ acts ++ (t.viewer.read b).2, a.isControl = false := by
    cases hs : escaped t.viewer.state with
    | false =>
      cases h.began (h.idle hs).2 with
      | inl h => exact Or.inl h
      | inr h =>
        obtain ⟨a, ha, hc⟩ := h
        exact Or.inr ⟨a, mem_append_left _ ha, hc⟩
    | true =>
      obtain ⟨a, ha, hc⟩ := read_ends_something hs (hend.resolve_left (by simp [hs]))
      exact Or.inr ⟨a, mem_append_right _ ha, hc⟩
  have hground : b ≠ ESC → escaped (t.viewer.read b).1.state = false := by
    intro hb
    rw [Viewer.read_state]
    exact step_not_escaped hb hend
  simp only [Sifter.take, hg, Bool.false_eq_true, if_false]
  cases read_ended hend with
  | inl hquiet =>
    have hasked : (t.viewer.read b).2.any Action.query = false :=
      any_eq_false.mpr (fun a ha => by simp [hquiet a ha])
    simp only [hasked, Bool.false_eq_true, if_false]
    by_cases hb : b = ESC
    · subst hb
      simp only [if_true]
      refine ⟨?_, fun _ q hq => ?_, fun hf => ?_, fun _ => hbegan⟩
      · rw [Viewer.readMarks_append, h.go, unasked_append hquiet]
        simp [Viewer.readMarks]
      · rw [unasked_query hq hbegan, Viewer.readMarks_append, h.go, unasked_append hquiet]
        have hr : (step t.viewer.state ESC).2 = true := rfl
        rw [Viewer.read_restart hr]
        simp [Sifter.dropped, Viewer.readMarks]
      · rw [Viewer.read_state] at hf
        cases hf
    · simp only [hb, if_false]
      refine ⟨?_, fun hs => ?_, fun _ => ⟨rfl, rfl⟩, fun _ => hbegan⟩
      · rw [map_nil, append_nil, ← append_assoc, Viewer.readMarks_append, h.go,
          unasked_append hquiet]
        simp [Viewer.readMarks]
      · rw [hground hb] at hs
        cases hs
  | inr hasked =>
    obtain ⟨hs, q, hnew, hq, hqc, hidle, hesc⟩ := hasked
    have hdrop := h.drop hs q hq
    have hasked : (t.viewer.read b).2.any Action.query = true := by simp [hnew, hq]
    rw [hnew] at hbegan
    simp only [hasked, if_true]
    rw [hnew]
    by_cases hb : b = ESC
    · subst hb
      simp only [if_true]
      refine ⟨?_, fun _ q' hq' => ?_, fun hf => ?_, fun _ => hbegan⟩
      · rw [Viewer.readMarks_append, hdrop, hesc rfl]
        simp [Viewer.readMarks, Viewer.read_idle]
      · rw [unasked_query hq' hbegan, Viewer.readMarks_append, hdrop]
        simp [Sifter.dropped, Viewer.readMarks]
      · rw [Viewer.read_state] at hf
        cases hf
    · simp only [hb, if_false]
      refine ⟨?_, fun hs' => ?_, fun _ => ⟨rfl, rfl⟩, fun _ => hbegan⟩
      · rw [map_nil, append_nil, hdrop, hidle hb]
      · rw [hground hb] at hs'
        cases hs'

theorem Sifted.take {m : List Mark} {t : Sifter} (h : Sifted v acts m t) (b : UInt8) :
    Sifted v (acts ++ (t.viewer.read b).2) (m ++ (t.take b).1) (t.take b).2 := by
  cases hg : t.goesOn b with
  | true => exact h.hold hg
  | false => exact h.ended hg

theorem take_viewer (t : Sifter) (b : UInt8) : (t.take b).2.viewer = (t.viewer.read b).1 := by
  simp only [Sifter.take]
  split
  · rfl
  · split <;> rfl

theorem takeAll_viewer (t : Sifter) (batch : Bytes) :
    (t.takeAll batch).2.viewer = (t.viewer.readAll batch).1 := by
  induction batch generalizing t with
  | nil => rfl
  | cons b rest ih => simp only [Sifter.takeAll, Viewer.readAll, ih, take_viewer]

theorem Sifted.takeAll {m : List Mark} {t : Sifter} (h : Sifted v acts m t) (batch : Bytes) :
    Sifted v (acts ++ (t.viewer.readAll batch).2) (m ++ (t.takeAll batch).1)
      (t.takeAll batch).2 := by
  induction batch generalizing acts m t with
  | nil => simpa [Sifter.takeAll, Viewer.readAll] using h
  | cons b rest ih =>
    have := ih (h.take b)
    rw [take_viewer] at this
    simpa only [Sifter.takeAll, Viewer.readAll, append_assoc] using this

/-- The marks, read with every query's `ESC` in its place, tell the program's own actions
    without the queries, and leave open what it did. -/
theorem readMarks_marksFrom (v : Viewer) (batches : List Bytes) :
    v.readMarks (marksFrom v batches) = ((v.readAll batches.flatten).1, expected v batches) := by
  induction batches generalizing v with
  | nil => rfl
  | cons batch batches ih =>
    have h := ((sifted_at v).takeAll batch).go
    rw [takeAll_viewer, nil_append, nil_append] at h
    simp only [marksFrom, expected]
    rw [Viewer.readMarks_append, h, flatten_cons, Viewer.readAll_append]
    show (((v.readAll batch).1.readMarks _).1,
      unasked v (v.readAll batch).2 ++ ((v.readAll batch).1.readMarks _).2) = _
    rw [ih]

end Yardsort.Pty
