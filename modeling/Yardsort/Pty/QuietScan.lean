import Yardsort.Pty.QuietCopy

/- `Queries.feed` and `Scan.without` make the copy that `Sifter` describes.

   `Follows` ties the query follower to the viewer: they are in the same state, and the
   bytes the follower keeps are those the viewer heard, up to `MAX_QUERY`. So a span is
   reported exactly where the viewer completes a query, and `Scanned` carries where each
   span and each byte held stands in the batch. -/
namespace Yardsort.Pty
open Yardsort.Lib Unfinished

structure Follows (q : Queries) (v : Viewer) : Prop where
  state : q.state = v.state
  opened : q.opened = if escaped v.state then v.heard.take MAX_QUERY else []
  overflowed : q.overflowed = (escaped v.state && decide (MAX_QUERY < v.heard.length))

/-! ## One byte -/

variable {q : Queries}

theorem push_take {heard : Bytes} (b : UInt8) (ho : q.opened = heard.take MAX_QUERY)
    (hx : q.overflowed = decide (MAX_QUERY < heard.length)) :
    (q.push b).opened = (heard ++ [b]).take MAX_QUERY ∧
      (q.push b).overflowed = decide (MAX_QUERY < (heard ++ [b]).length) := by
  unfold Queries.push
  rw [length_append, length_singleton]
  by_cases hlt : q.opened.length < MAX_QUERY
  · have hlen : heard.length < MAX_QUERY := by
      rw [ho, length_take] at hlt
      omega
    rw [if_pos hlt]
    have h₁ : heard.take MAX_QUERY = heard := take_of_length_le (Nat.le_of_lt hlen)
    have h₂ : (heard ++ [b]).take MAX_QUERY = heard ++ [b] := by
      apply take_of_length_le
      rw [length_append, length_singleton]
      omega
    refine ⟨by rw [h₂, ho, h₁], ?_⟩
    show q.overflowed = _
    rw [hx]
    exact decide_eq_decide.mpr ⟨fun _ => by omega, fun _ => by omega⟩
  · have hlen : MAX_QUERY ≤ heard.length := by
      rw [ho, length_take] at hlt
      omega
    rw [if_neg hlt]
    refine ⟨?_, ?_⟩
    · show q.opened = _
      rw [ho, take_append_of_le_length hlen]
    · exact (decide_eq_true (by omega)).symm

theorem recognised_iff {heard : Bytes} (ho : q.opened = heard.take MAX_QUERY)
    (hx : q.overflowed = decide (MAX_QUERY < heard.length)) :
    q.recognised.isSome = (decide (heard.length ≤ MAX_QUERY) && (classify heard).isSome) := by
  unfold Queries.recognised
  rw [hx, ho]
  by_cases hle : heard.length ≤ MAX_QUERY
  · have hlt : ¬ MAX_QUERY < heard.length := by omega
    rw [take_of_length_le hle]
    simp [hle, hlt]
  · simp [hle, Nat.lt_of_not_le hle]

theorem follow_goesOn {v : Viewer} {b : UInt8} {i : Nat} (h : Follows q v)
    (hs : escaped v.state = true) (hr : (step v.state b).2 = false)
    (hn : (step v.state b).1 ≠ .ground) :
    (q.follow i b).1 = none ∧ Follows (q.follow i b).2 (v.read b).1 ∧
      (q.follow i b).2.start = q.start ∧
      (q.follow i b).2.kept = if (v.read b).2 = [] then q.kept else q.kept ++ [i] := by
  obtain ⟨he, hc⟩ := not_restart hr
  have ho := h.opened
  have hx := h.overflowed
  rw [hs, if_pos rfl] at ho
  rw [hs, Bool.true_and] at hx
  have hs' := step_escaped hs hr hn
  -- the bytes kept after `b`, whether or not it is pushed
  have hpush : ∀ q', q' = { q with state := (step v.state b).1 } →
      (v.state.inSequence && isControl b) = false →
      (v.state.inSequence && b == DEL) = false →
      Follows (q'.push b) (v.read b).1 := by
    intro q' hq' hctl hdel
    have hp := push_take (q := q') b (by rw [hq']; exact ho) (by rw [hq']; exact hx)
    rw [Viewer.read_keep hr hn hctl]
    simp only [hdel, Bool.false_eq_true, if_false]
    refine ⟨?_, ?_, ?_⟩
    · rw [hq', Queries.push]
      split <;> rfl
    · simp only [hs', if_true]
      exact hp.1
    · simp only [hs', Bool.true_and]
      exact hp.2
  have hstart : ∀ q' : Queries, (q'.push b).start = q'.start ∧ (q'.push b).kept = q'.kept := by
    intro q'
    unfold Queries.push
    split <;> exact ⟨rfl, rfl⟩
  have hstate := h.state
  cases hv : v.state with
  | ground | utf8 left => rw [hv] at hs; cases hs
  | string e =>
    have hbel : ¬ (b = BEL ∧ e = true) := by
      intro ⟨hb, hends⟩
      subst hb hends
      rw [hv] at hn
      exact hn rfl
    have hctl : (v.state.inSequence && isControl b) = false := by rw [hv]; rfl
    have hdel : (v.state.inSequence && b == DEL) = false := by rw [hv]; rfl
    have hfollow : q.follow i b = (none, { q with state := (step v.state b).1 }.push b) := by
      rw [Queries.follow, hstate, hv]
      dsimp only
      rw [if_neg hbel, if_neg he, if_neg hc]
    have hread : (v.read b).2 = [] := by rw [Viewer.read_keep hr hn hctl]
    rw [hfollow, hread, if_pos rfl]
    exact ⟨rfl, hpush _ rfl hctl hdel, (hstart _).1, (hstart _).2⟩
  | escape | escapeIntermediate | csi =>
    have hfollow : q.follow i b =
        if b < 0x20 then
          (none, { q with state := (step v.state b).1, kept := q.kept ++ [i] })
        else (none, if b ≠ DEL then { q with state := (step v.state b).1 }.push b
          else { q with state := (step v.state b).1 }) := by
      rw [hv] at hr hn
      rw [Queries.follow, hstate, hv]
      simp only [hr, hn, Bool.false_eq_true, if_false]
    rw [hfollow]
    have hseq : v.state.inSequence = true := by rw [hv]; rfl
    by_cases hctl : b < 0x20
    · have hctl' : (v.state.inSequence && isControl b) = true := by simp [hseq, isControl, hctl]
      rw [if_pos hctl, Viewer.read_control hr hn hctl']
      refine ⟨rfl, ⟨rfl, ?_, ?_⟩, rfl, rfl⟩
      · simp only [hs', if_true]
        exact ho
      · simp only [hs', Bool.true_and]
        exact hx
    · have hctl' : (v.state.inSequence && isControl b) = false := by simp [hseq, isControl, hctl]
      have hread : (v.read b).2 = [] := by rw [Viewer.read_keep hr hn hctl']
      rw [if_neg hctl, hread, if_pos rfl]
      by_cases hdel : b = DEL
      · rw [if_neg (not_not_intro hdel), Viewer.read_keep hr hn hctl']
        have hdel' : (v.state.inSequence && b == DEL) = true := by simp [hseq, hdel]
        rw [if_pos hdel']
        refine ⟨rfl, ⟨rfl, ?_, ?_⟩, rfl, rfl⟩
        · simp only [hs', if_true]
          exact ho
        · simp only [hs', Bool.true_and]
          exact hx
      · have hdel' : (v.state.inSequence && b == DEL) = false := by simp [hdel]
        rw [if_pos hdel]
        exact ⟨rfl, hpush _ rfl hctl' hdel', (hstart _).1, (hstart _).2⟩

@[simp] theorem forget_push (q : Queries) (b : UInt8) : (q.push b).forget = q.forget := by
  unfold Queries.push
  split <;> rfl

def spanOf (q : Queries) (stop : Nat) : Span :=
  { start := q.start.getD 0, stop := stop, continued := q.start.isNone, kept := q.kept }

theorem complete_eq (q : Queries) (scan : Scan) (stop : Nat) :
    (q.complete scan stop).1 = q.forget ∧
      (q.complete scan stop).2.spans =
        if q.recognised.isSome then scan.spans ++ [spanOf q stop] else scan.spans := by
  unfold Queries.complete
  cases q.recognised <;> exact ⟨rfl, rfl⟩

/-- A byte ends the open sequence: the follower forgets it, and reports it where the viewer finds a
    query. -/
def Reports (q : Queries) (v : Viewer) (scan : Scan) (i : Nat) (b : UInt8) : Prop :=
  (q.feedByte scan i b).1 = ({ q with state := (step v.state b).1 }.forget).open_ i b ∧
    (q.feedByte scan i b).2.spans =
      if (v.read b).2.any Action.query then scan.spans ++ [spanOf q (if b = ESC then i else i + 1)]
      else scan.spans

theorem feedByte_ended {v : Viewer} {b : UInt8} {i : Nat} (scan : Scan) (h : Follows q v)
    (hs : escaped v.state = true)
    (hend : (step v.state b).2 = true ∨ (step v.state b).1 = .ground) : Reports q v scan i b := by
  have ho := h.opened
  have hx := h.overflowed
  have hstate := h.state
  rw [hs, if_pos rfl] at ho
  rw [hs, Bool.true_and] at hx
  -- a sequence that `b` gives up is no query
  have hgiven : q.follow i b = (none, { q with state := (step v.state b).1 }.forget) →
      (v.read b).2.any Action.query = false → Reports q v scan i b := by
    intro hf hq
    rw [Reports, Queries.feedByte, hf, hq]
    exact ⟨rfl, rfl⟩
  -- one that `b` completes is a query where its bytes are
  have hdone : ∀ q' stop, q.follow i b = (some stop, q') →
      q'.forget = { q with state := (step v.state b).1 }.forget →
      q'.start = q.start → q'.kept = q.kept →
      stop = (if b = ESC then i else i + 1) →
      q'.recognised.isSome = (v.read b).2.any Action.query → Reports q v scan i b := by
    intro q' stop hf hforget hstart hkept hstop hrec
    obtain ⟨hc₁, hc₂⟩ := complete_eq q' scan stop
    have hspan : spanOf q' stop = spanOf q stop := by rw [spanOf, spanOf, hstart, hkept]
    rw [hrec, hspan, hstop] at hc₂
    rw [Reports, ← hforget, ← hc₁, ← hc₂, Queries.feedByte, hf, hstop]
    exact ⟨rfl, rfl⟩
  cases hv : v.state with
  | ground | utf8 left => rw [hv] at hs; cases hs
  | string e =>
    have hfollow : q.follow i b =
        if b = BEL ∧ e = true then (some (i + 1), { q with state := (step v.state b).1 })
        else if b = ESC then (some i, { q with state := (step v.state b).1 })
        else if b = CAN ∨ b = SUB then (none, { q with state := (step v.state b).1 }.forget)
        else (none, { q with state := (step v.state b).1 }.push b) := by
      rw [Queries.follow, hstate, hv]
    have hrec : Queries.recognised { q with state := (step v.state b).1 } = q.recognised := rfl
    by_cases hbel : b = BEL ∧ e = true
    · have hne : b ≠ ESC := by
        rw [hbel.1]
        decide
      refine hdone _ (i + 1) (by rw [hfollow, if_pos hbel]) rfl rfl rfl (by rw [if_neg hne]) ?_
      have hr : (step v.state b).2 = false ∧ (step v.state b).1 = .ground := by
        rw [hv]
        obtain ⟨hb, he⟩ := hbel
        rw [hb, he]
        exact ⟨rfl, rfl⟩
      rw [hrec, recognised_iff ho hx, Viewer.read_finish hr.1 hr.2]
      simp [Viewer.finish, hv, Action.query]
    · by_cases hesc : b = ESC
      · refine hdone _ i (by rw [hfollow, if_neg hbel, if_pos hesc]) rfl rfl rfl
          (by rw [if_pos hesc]) ?_
        subst hesc
        have hr : (step v.state ESC).2 = true := rfl
        rw [hrec, recognised_iff ho hx, Viewer.read_restart hr]
        simp [Viewer.ends, hv, Action.query]
      · by_cases hcan : b = CAN ∨ b = SUB
        · refine hgiven (by rw [hfollow, if_neg hbel, if_neg hesc, if_pos hcan]) ?_
          have hr : (step v.state b).2 = true := by simp [step, hesc, hcan]
          rw [Viewer.read_restart hr]
          simp only [Viewer.ends, hv, hesc, if_false, cons_append, nil_append,
            List.any_cons]
          exact Bool.or_eq_false_iff.mpr ⟨rfl, any_eq_false.mpr
            (fun a ha => by simp [begins_not_query b a ha])⟩
        · rw [hv] at hend
          simp [step, hesc, hcan, hbel] at hend
  | escape | escapeIntermediate | csi =>
    have hfollow : q.follow i b =
        if (step v.state b).2 then (none, { q with state := (step v.state b).1 }.forget)
        else if (step v.state b).1 = .ground then
          (some (i + 1), { q with state := (step v.state b).1 }.push b)
        else if b < 0x20 then
          (none, { q with state := (step v.state b).1, kept := q.kept ++ [i] })
        else (none, if b ≠ DEL then { q with state := (step v.state b).1 }.push b
          else { q with state := (step v.state b).1 }) := by
      rw [Queries.follow, hstate, hv]
    cases hr : (step v.state b).2 with
    | true =>
      refine hgiven (by rw [hfollow, if_pos hr]) ?_
      rw [Viewer.read_restart hr]
      simp only [Viewer.ends, hv, cons_append, nil_append, List.any_cons]
      exact Bool.or_eq_false_iff.mpr ⟨rfl, any_eq_false.mpr
        (fun a ha => by simp [begins_not_query b a ha])⟩
    | false =>
      obtain ⟨he, _⟩ := not_restart hr
      have hn : (step v.state b).1 = .ground := hend.resolve_left (by simp [hr])
      have hp := push_take (q := { q with state := (step v.state b).1 }) b ho hx
      have hkeep : ∀ q' : Queries, (q'.push b).start = q'.start ∧ (q'.push b).kept = q'.kept := by
        intro q'
        unfold Queries.push
        split <;> exact ⟨rfl, rfl⟩
      refine hdone _ (i + 1) (by rw [hfollow, if_neg (by simp [hr]), if_pos hn]) (forget_push _ b)
        (hkeep _).1 (hkeep _).2 (by rw [if_neg he]) ?_
      rw [recognised_iff hp.1 hp.2, Viewer.read_finish hr hn]
      simp [Viewer.finish, hv, Action.query]

theorem feedByte_idle {v : Viewer} {b : UInt8} {i : Nat} (scan : Scan) (h : Follows q v)
    (hs : escaped v.state = false) :
    q.feedByte scan i b = ({ q with state := (step v.state b).1 }.open_ i b, scan) := by
  have hstate := h.state
  have hfollow : q.follow i b = (none, { q with state := (step v.state b).1 }) := by
    rw [Queries.follow, hstate]
    cases hv : v.state with
    | ground => rfl
    | utf8 left => rfl
    | _ => rw [hv] at hs; cases hs
  rw [Queries.feedByte, hfollow]

theorem follows_open {v : Viewer} {b : UInt8} {i : Nat} (hstate : q.state = (step v.state b).1)
    (ho : q.opened = []) (hx : q.overflowed = false)
    (hend : escaped v.state = false ∨ (step v.state b).2 = true ∨ (step v.state b).1 = .ground) :
    Follows (q.open_ i b) (v.read b).1 := by
  by_cases hb : b = ESC
  · subst hb
    have hr : (step v.state ESC).2 = true := rfl
    have hread : (v.read ESC).1 = { state := .escape, bytes := [ESC], heard := [ESC] } := by
      rw [Viewer.read_restart hr]
      rfl
    rw [hread, Queries.open_, if_pos rfl]
    refine ⟨hstate, ?_, ?_⟩
    · show q.opened ++ [ESC] = _
      rw [ho]
      rfl
    · show q.overflowed = _
      rw [hx]
      rfl
  · have hs := step_not_escaped hb hend
    rw [Queries.open_, if_neg hb]
    refine ⟨by rw [hstate, Viewer.read_state], ?_, ?_⟩
    · rw [Viewer.read_state, hs, ho]
      rfl
    · rw [Viewer.read_state, hs, hx]
      rfl

/-! ## One batch -/

def letThrough (batch : Bytes) : Nat → List Span → Bytes × Nat
  | at_, [] => ([], at_)
  | at_, span :: spans =>
    ((batch.drop at_).take (span.start - at_) ++ (if span.continued then [CAN] else []) ++
        span.kept.filterMap (fun k => batch[k]?) ++ (letThrough batch span.stop spans).1,
      (letThrough batch span.stop spans).2)

theorem withoutFrom_eq (batch : Bytes) (at_ : Nat) (spans : List Span) :
    withoutFrom batch at_ spans =
      (letThrough batch at_ spans).1 ++ batch.drop (letThrough batch at_ spans).2 := by
  induction spans generalizing at_ with
  | nil => rfl
  | cons span spans ih => rw [withoutFrom, ih, letThrough, append_assoc _ _ (batch.drop _)]

theorem letThrough_append (batch : Bytes) (at_ : Nat) (spans : List Span) (span : Span) :
    letThrough batch at_ (spans ++ [span]) =
      ((letThrough batch at_ spans).1 ++
          (batch.drop (letThrough batch at_ spans).2).take
            (span.start - (letThrough batch at_ spans).2) ++
          (if span.continued then [CAN] else []) ++ span.kept.filterMap (fun k => batch[k]?),
        span.stop) := by
  induction spans generalizing at_ with
  | nil => simp [letThrough]
  | cons s spans ih => simp [letThrough, ih]

theorem staying_append (m m' : List Mark) : staying (m ++ m') = staying m ++ staying m' := by
  induction m with
  | nil => rfl
  | cons mark m ih => cases mark <;> simp [staying, ih]

@[simp] theorem staying_stay (l : Bytes) : staying (l.map .stay) = l := by
  induction l with
  | nil => rfl
  | cons b l ih => simp [staying, ih]

theorem staying_dropped (t : Sifter) :
    staying t.dropped = (if t.cut then [CAN] else []) ++ t.kept := by
  unfold Sifter.dropped
  rw [staying_append, staying_stay]
  cases t.cut <;> rfl

/-- The follower and the sifter after the bytes `before ++ t.held` of `batch`, with `m` let
    go: the open sequence stands at `before.length`, and the spans let through what stays. -/
structure Scanned (batch before rest : Bytes) (q : Queries) (scan : Scan) (m : List Mark)
    (t : Sifter) : Prop where
  split : batch = before ++ t.held ++ rest
  follows : Follows q t.viewer
  idle : escaped t.viewer.state = false → t.held = [] ∧ t.kept = [] ∧ t.cut = false ∧ q.kept = []
  start : escaped t.viewer.state = true → q.start = if t.cut then none else some before.length
  cut : t.cut = true → before = []
  kept : q.kept.filterMap (fun k => batch[k]?) = t.kept
  stopped : (letThrough batch 0 scan.spans).2 ≤ before.length
  out : (letThrough batch 0 scan.spans).1 ++ before.drop (letThrough batch 0 scan.spans).2 =
    staying m

theorem scanned_at {v : Viewer} (h : Follows q v) (batch : Bytes) :
    Scanned batch [] batch { q with start := none, kept := [] } Scan.empty [] (Sifter.at_ v) := by
  refine ⟨rfl, ⟨h.state, h.opened, h.overflowed⟩, fun hs => ⟨rfl, rfl, hs, rfl⟩, fun hs => ?_,
    fun _ => rfl, rfl, Nat.le_refl _, rfl⟩
  have hs : escaped v.state = true := hs
  simp [Sifter.at_, hs]

theorem Scanned.hold {batch before rest : Bytes} {scan : Scan} {m : List Mark} {t : Sifter}
    {b : UInt8} (h : Scanned batch before (b :: rest) q scan m t) (hg : t.goesOn b = true) :
    (q.feedByte scan (before ++ t.held).length b).2.spans = scan.spans ∧
      Scanned batch before rest (q.feedByte scan (before ++ t.held).length b).1
        (q.feedByte scan (before ++ t.held).length b).2 (m ++ (t.take b).1) (t.take b).2 := by
  have hg' := hg
  simp only [Sifter.goesOn, Bool.and_eq_true, Bool.not_eq_true', ne_eq, decide_not,
    decide_eq_false_iff_not] at hg'
  obtain ⟨⟨hs, hr⟩, hn⟩ := hg'
  obtain ⟨hnone, hfollows, hstart, hkept⟩ :=
    follow_goesOn (i := (before ++ t.held).length) h.follows hs hr hn
  have hne : b ≠ ESC := (not_restart hr).1
  have hfeed : q.feedByte scan (before ++ t.held).length b =
      ((q.follow (before ++ t.held).length b).2, scan) := by
    rw [Queries.feedByte, ← Prod.eta (q.follow (before ++ t.held).length b), hnone]
    simp [Queries.open_, hne]
  have hhere : batch[(before ++ t.held).length]? = some b := by
    rw [h.split]
    simp
  rw [hfeed]
  simp only [Sifter.take, hg, if_true, append_nil]
  have hs' : escaped (t.viewer.read b).1.state = true := by
    rw [Viewer.read_state]
    exact step_escaped hs hr hn
  refine ⟨trivial, ⟨?_, hfollows, fun hf => ?_, fun _ => hstart.trans (h.start hs), h.cut, ?_,
    h.stopped, h.out⟩⟩
  · simpa using h.split
  · rw [hs'] at hf
    cases hf
  · rw [hkept]
    split
    · exact h.kept
    · rw [filterMap_append, h.kept, filterMap_cons_some hhere]
      rfl

def begun (v : Viewer) (b : UInt8) : Sifter :=
  { viewer := (v.read b).1, held := if b = ESC then [ESC] else [], kept := [], cut := false }

theorem take_ended {t : Sifter} {b : UInt8} (hg : t.goesOn b = false) :
    t.take b =
      ((if (t.viewer.read b).2.any Action.query then t.dropped
        else t.held.map Mark.stay ++ if b = ESC then [] else [Mark.stay b]), begun t.viewer b) := by
  simp only [Sifter.take, hg, Bool.false_eq_true, if_false, begun]
  by_cases hb : b = ESC
  · simp only [hb, if_true, append_nil]
  · simp only [hb, if_false]
    cases (t.viewer.read b).2.any Action.query <;> rfl

theorem Scanned.begin {batch before held rest : Bytes} {scan : Scan} {m : List Mark} {v : Viewer}
    {b : UInt8} (hsplit : batch = before ++ held ++ b :: rest)
    (hstate : q.state = (step v.state b).1) (ho : q.opened = []) (hx : q.overflowed = false)
    (hk : q.kept = [])
    (hend : escaped v.state = false ∨ (step v.state b).2 = true ∨ (step v.state b).1 = .ground)
    (hstop : (letThrough batch 0 scan.spans).2 ≤
        (before ++ held ++ if b = ESC then [] else [b]).length)
    (hout : (letThrough batch 0 scan.spans).1 ++
        (before ++ held ++ if b = ESC then [] else [b]).drop (letThrough batch 0 scan.spans).2 =
        staying m) :
    Scanned batch (before ++ held ++ if b = ESC then [] else [b]) rest
      (q.open_ (before ++ held).length b) scan m (begun v b) := by
  have hkept : (q.open_ (before ++ held).length b).kept = [] := by
    rw [Queries.open_]
    split <;> exact hk
  refine ⟨?_, follows_open hstate ho hx hend, fun hs => ?_, fun hs => ?_, fun hc => ?_, ?_, hstop,
    hout⟩
  · rw [hsplit, begun]
    by_cases hb : b = ESC
    · simp [hb]
    · simp [hb]
  · have hb : b ≠ ESC := by
      intro hb
      subst hb
      have hs : escaped (v.read ESC).1.state = false := hs
      rw [Viewer.read_state] at hs
      cases hs
    exact ⟨if_neg hb, rfl, rfl, hkept⟩
  · have hb : b = ESC := by
      by_contra hb
      have hs : escaped (v.read b).1.state = true := hs
      rw [Viewer.read_state, step_not_escaped hb hend] at hs
      cases hs
    subst hb
    simp [Queries.open_, begun]
  · cases hc
  · rw [hkept]
    rfl

theorem drop_before {before held : Bytes} {n : Nat} (h : n ≤ before.length) :
    (before ++ held).drop n = before.drop n ++ held := drop_append_of_le_length h

/-- What was open ends, or nothing was: the follower reports a span where the viewer
    finds a query. -/
theorem Scanned.ended {batch before rest : Bytes} {q : Queries} {scan : Scan} {m : List Mark}
    {t : Sifter} {b : UInt8} (h : Scanned batch before (b :: rest) q scan m t)
    (hg : t.goesOn b = false) :
    (q.feedByte scan (before ++ t.held).length b).2.spans.length =
        scan.spans.length + (t.viewer.read b).2.countP Action.query ∧
      Scanned batch (before ++ t.held ++ if b = ESC then [] else [b]) rest
        (q.feedByte scan (before ++ t.held).length b).1
        (q.feedByte scan (before ++ t.held).length b).2 (m ++ (t.take b).1) (t.take b).2 := by
  have hend := t.ends_of_not_goesOn hg
  rw [take_ended hg]
  -- what is let go when nothing is reported
  have hkeep : ∀ scan' : Scan, scan'.spans = scan.spans →
      (t.viewer.read b).2.any Action.query = false →
      (letThrough batch 0 scan'.spans).2 ≤
          (before ++ t.held ++ if b = ESC then [] else [b]).length ∧
        (letThrough batch 0 scan'.spans).1 ++
            (before ++ t.held ++ if b = ESC then [] else [b]).drop
              (letThrough batch 0 scan'.spans).2 =
          staying (m ++ if (t.viewer.read b).2.any Action.query then t.dropped
            else t.held.map Mark.stay ++ if b = ESC then [] else [Mark.stay b]) := by
    intro scan' hscan hq
    have hstop := h.stopped
    rw [hscan, hq, if_neg Bool.false_ne_true]
    constructor
    · rw [length_append, length_append]
      omega
    · rw [append_assoc, drop_before hstop, ← append_assoc, h.out, staying_append,
        staying_append, staying_stay]
      congr 1
      split <;> rfl
  have hcount : (t.viewer.read b).2.countP Action.query =
      if (t.viewer.read b).2.any Action.query then 1 else 0 := by
    cases read_ended hend with
    | inl hquiet =>
      have hany : (t.viewer.read b).2.any Action.query = false :=
        any_eq_false.mpr (fun a ha => by simp [hquiet a ha])
      rw [hany, countP_eq_zero.mpr (fun a ha => by simp [hquiet a ha])]
      rfl
    | inr hq =>
      obtain ⟨_, q, hnew, hq, _⟩ := hq
      simp [hnew, hq]
  cases hs : escaped t.viewer.state with
  | false =>
    have hq : (t.viewer.read b).2.any Action.query = false := by
      cases read_ended hend with
      | inl hquiet => exact any_eq_false.mpr (fun a ha => by simp [hquiet a ha])
      | inr hq => rw [hs] at hq; cases hq.1
    obtain ⟨hstop, hout⟩ := hkeep scan rfl hq
    have ho : q.opened = [] := by rw [h.follows.opened, hs]; rfl
    have hx : q.overflowed = false := by rw [h.follows.overflowed, hs]; rfl
    rw [feedByte_idle scan h.follows hs]
    refine ⟨by rw [hcount, hq]; rfl, ?_⟩
    exact Scanned.begin h.split rfl ho hx (h.idle hs).2.2.2 hend hstop hout
  | true =>
    obtain ⟨hfeed, hspans⟩ := feedByte_ended (i := (before ++ t.held).length) scan h.follows hs
      (hend.resolve_left (by simp [hs]))
    generalize q.feedByte scan (before ++ t.held).length b = res at *
    obtain ⟨q', scan'⟩ := res
    dsimp only at hfeed hspans ⊢
    subst hfeed
    cases hq : (t.viewer.read b).2.any Action.query with
    | false =>
      rw [hq, if_neg Bool.false_ne_true] at hspans
      obtain ⟨hstop, hout⟩ := hkeep scan' hspans hq
      rw [hq] at hout
      refine ⟨by rw [hcount, hq, hspans]; rfl, ?_⟩
      exact Scanned.begin h.split rfl rfl rfl rfl hend hstop hout
    | true =>
      rw [hq, if_pos rfl] at hspans
      have hstart : (spanOf q (if b = ESC then (before ++ t.held).length
          else (before ++ t.held).length + 1)).start = before.length := by
        show q.start.getD 0 = _
        rw [h.start hs]
        cases hc : t.cut with
        | true => rw [h.cut hc]; rfl
        | false => rfl
      have hcont : (spanOf q (if b = ESC then (before ++ t.held).length
          else (before ++ t.held).length + 1)).continued = t.cut := by
        show q.start.isNone = _
        rw [h.start hs]
        cases t.cut <;> rfl
      have htake : (batch.drop (letThrough batch 0 scan.spans).2).take
          (before.length - (letThrough batch 0 scan.spans).2) =
          before.drop (letThrough batch 0 scan.spans).2 := by
        have hbatch : batch = before ++ (t.held ++ b :: rest) := by
          rw [h.split, append_assoc]
        have hstop := h.stopped
        generalize (letThrough batch 0 scan.spans).2 = n at hstop ⊢
        rw [hbatch, drop_before hstop]
        exact List.take_left' (length_drop ..)
      have hlet : letThrough batch 0 scan'.spans =
          (staying (m ++ t.dropped), if b = ESC then (before ++ t.held).length
            else (before ++ t.held).length + 1) := by
        rw [hspans, letThrough_append, hstart, htake, h.out, hcont, staying_append,
          staying_dropped, ← h.kept, append_assoc]
        rfl
      have hlen : (if b = ESC then (before ++ t.held).length
          else (before ++ t.held).length + 1) =
          (before ++ t.held ++ if b = ESC then [] else [b]).length := by
        split <;> simp [Nat.add_assoc]
      refine ⟨by rw [hcount, hq, hspans, length_append]; rfl, ?_⟩
      refine Scanned.begin h.split rfl rfl rfl rfl hend ?_ ?_
      · rw [hlet]
        exact Nat.le_of_eq hlen
      · rw [hlet, hlen, drop_length, append_nil, if_pos rfl]

theorem Scanned.feedFrom {batch before rest : Bytes} {scan : Scan} {m : List Mark} {t : Sifter}
    (h : Scanned batch before rest q scan m t) :
    (q.feedFrom scan (before ++ t.held).length rest).2.spans.length =
        scan.spans.length + (t.viewer.readAll rest).2.countP Action.query ∧
      ∃ before', Scanned batch before' [] (q.feedFrom scan (before ++ t.held).length rest).1
        (q.feedFrom scan (before ++ t.held).length rest).2 (m ++ (t.takeAll rest).1)
        (t.takeAll rest).2 := by
  induction rest generalizing before q scan m t with
  | nil => exact ⟨rfl, before, by simpa [Queries.feedFrom, Sifter.takeAll] using h⟩
  | cons b rest ih =>
    -- either way `before` and what is held grow by `b` together
    suffices hstep : (q.feedByte scan (before ++ t.held).length b).2.spans.length =
          scan.spans.length + (t.viewer.read b).2.countP Action.query ∧
        ∃ before', (before' ++ (t.take b).2.held).length = (before ++ t.held).length + 1 ∧
          Scanned batch before' rest (q.feedByte scan (before ++ t.held).length b).1
            (q.feedByte scan (before ++ t.held).length b).2 (m ++ (t.take b).1) (t.take b).2 by
      obtain ⟨hcount, before', hlen, h'⟩ := hstep
      have := ih h'
      rw [hlen, hcount, take_viewer] at this
      obtain ⟨hall, hend⟩ := this
      refine ⟨?_, by simpa only [Queries.feedFrom, Sifter.takeAll, append_assoc] using hend⟩
      rw [Viewer.readAll, countP_append, ← Nat.add_assoc]
      exact hall
    cases hg : t.goesOn b with
    | true =>
      obtain ⟨hspans, h'⟩ := h.hold hg
      have hg' := hg
      simp only [Sifter.goesOn, Bool.and_eq_true, Bool.not_eq_true', ne_eq, decide_not,
        decide_eq_false_iff_not] at hg'
      have hquiet : (t.viewer.read b).2.countP Action.query = 0 := by
        cases read_goesOn hg'.1.2 hg'.2 with
        | inl hn => rw [hn]; rfl
        | inr hc => rw [hc.1]; rfl
      refine ⟨by rw [hspans, hquiet]; rfl, before, ?_, h'⟩
      simp only [Sifter.take, hg, if_true, length_append, length_singleton]
      omega
    | false =>
      obtain ⟨hspans, h'⟩ := h.ended hg
      refine ⟨hspans, _, ?_, h'⟩
      rw [take_ended hg]
      simp only [begun, length_append]
      split <;> simp

/-- A batch is fed: the follower goes on following, the copy is what stays of the batch,
    and as many spans are found as the viewer completes queries. -/
theorem feed_batch {v : Viewer} (h : Follows q v) (batch : Bytes) :
    Follows (q.feed batch).1 (v.readAll batch).1 ∧
      (q.feed batch).2.without batch = staying (((Sifter.at_ v).takeAll batch).1 ++
        ((Sifter.at_ v).takeAll batch).2.held.map .stay) ∧
      (q.feed batch).2.spans.length = (v.readAll batch).2.countP Action.query := by
  obtain ⟨hcount, before, hend⟩ := (scanned_at h batch).feedFrom
  have hfollows := hend.follows
  rw [takeAll_viewer] at hfollows
  refine ⟨hfollows, ?_, hcount.trans (Nat.zero_add _)⟩
  have hsplit := hend.split
  rw [append_nil] at hsplit
  rw [staying_append, staying_stay, ← nil_append ((Sifter.at_ v).takeAll batch).1, ← hend.out,
    append_assoc, ← drop_before hend.stopped, ← hsplit, ← withoutFrom_eq]
  rfl

/-- **The code's quiet copy is what stays.** -/
theorem quietCopies_eq {v : Viewer} (h : Follows q v) (batches : List Bytes) :
    quietCopies q batches = staying (marksFrom v batches) := by
  induction batches generalizing q v with
  | nil => rfl
  | cons batch batches ih =>
    obtain ⟨hfollows, hwithout, _⟩ := feed_batch h batch
    rw [quietCopies, marksFrom, staying_append, hwithout, ih hfollows]

theorem follows_new : Follows Queries.new Viewer.idle := ⟨rfl, rfl, rfl⟩

end Yardsort.Pty
