import Yardsort.Pty.QuietCopy

/- What `is_reply` takes for terminal replies (`pty-host/src/queries.rs`).

   A reply is a `Reply`: a control sequence of one of the shapes a terminal answers in, or an
   operating system command or a device control string with its end. What the code accepts is read
   in `Piece`s, one way only (`pieces_unique`): among them are strings of other kinds, strings that
   are cancelled or whose `ESC \` never comes, an `ESC \` that ends nothing, an `ESC` by itself, and
   control sequences with other bytes inside. `isReply_exact_iff` says that these are all there is
   to it. -/
namespace Yardsort.Pty
open Yardsort.Lib Unfinished

namespace Replies

def Params (bs : Bytes) : Prop := ∀ b ∈ bs, 0x30 ≤ b ∧ b ≤ 0x3f

def Intermediates (bs : Bytes) : Prop := ∀ b ∈ bs, 0x20 ≤ b ∧ b ≤ 0x2f

/-- What a control sequence may end with to be a reply: `R`, `c`, `n`, `y`, `t`, `x` or `|`; `u`
    after `?`; `m` after `>`. -/
def Answers (params : Bytes) (final : UInt8) : Prop :=
  final ∈ ([0x52, 0x63, 0x6e, 0x79, 0x74, 0x78, 0x7c] : Bytes) ∨
    (final = 0x75 ∧ params.head? = some 0x3f) ∨ (final = 0x6d ∧ params.head? = some 0x3e)

def Text (endsOnBel : Bool) (bs : Bytes) : Prop :=
  ∀ b ∈ bs, b ≠ ESC ∧ b ≠ CAN ∧ b ≠ SUB ∧ ¬ (endsOnBel = true ∧ b = BEL)

inductive Reply where
  | csi (params intermediates : Bytes) (final : UInt8)
  | oscBel (body : Bytes)
  | osc (body : Bytes)
  | dcs (body : Bytes)

def Reply.render : Reply → Bytes
  | csi params intermediates final => ESC :: 0x5b :: (params ++ intermediates ++ [final])
  | oscBel body => ESC :: 0x5d :: (body ++ [BEL])
  | osc body => ESC :: 0x5d :: (body ++ [ESC, 0x5c])
  | dcs body => ESC :: 0x50 :: (body ++ [ESC, 0x5c])

def Reply.WellFormed : Reply → Prop
  | csi params intermediates final =>
    Params params ∧ Intermediates intermediates ∧ Answers params final
  | oscBel body | osc body => Text true body
  | dcs body => Text false body

def AllReplies (input : Bytes) : Prop :=
  ∃ replies : List Reply, replies ≠ [] ∧ (∀ r ∈ replies, r.WellFormed) ∧
    input = replies.flatMap Reply.render

inductive Stop where
  | bell
  | next
  | cancelled (byte : UInt8)
  deriving DecidableEq

def Stop.bytes : Stop → Bytes
  | bell => [BEL]
  | next => []
  | cancelled byte => [byte]

def Stop.Leaves (endsOnBel : Bool) : Stop → Prop
  | bell => endsOnBel = true
  | next => True
  | cancelled byte => byte = CAN ∨ byte = SUB

inductive Piece where
  | csi (body : Bytes) (final : UInt8)
  /-- A string of any kind, with anything between the `ESC` and its introducer that `Escape`
      ignores. -/
  | string (ignored : Bytes) (introducer : UInt8) (body : Bytes) (stop : Stop)
  | closing
  | escape
  deriving DecidableEq

def Piece.render : Piece → Bytes
  | csi body final => ESC :: 0x5b :: (body ++ [final])
  | string ignored introducer body stop => ESC :: (ignored ++ introducer :: (body ++ stop.bytes))
  | closing => [ESC, 0x5c]
  | escape => [ESC]

def Stays (s : State) (bs : Bytes) : Prop := ∀ b ∈ bs, step s b = (s, false)

def Piece.Shaped : Piece → Prop
  | csi body final => Stays .csi body ∧ answer (ESC :: 0x5b :: (body ++ [final])) = true
  | string ignored introducer body stop => Stays .escape ignored ∧
    ∃ endsOnBel, step .escape introducer = (.string endsOnBel, false) ∧
      Stays (.string endsOnBel) body ∧ stop.Leaves endsOnBel
  | closing | escape => True

/-- What has to follow: something where a string is left by an `ESC`, and nothing after an `ESC`
    by itself. -/
def Piece.Followed : Piece → List Piece → Prop
  | string _ _ _ .next, pieces => pieces ≠ []
  | escape, pieces => pieces = []
  | _, _ => True

def Read : List Piece → Prop
  | [] => True
  | p :: pieces => p.Shaped ∧ p.Followed pieces ∧ Read pieces

def Piece.counts : Piece → Bool
  | string _ _ _ (.cancelled _) | escape => false
  | _ => true

/-- Pieces that are replies: control sequences with nothing else inside, and operating system
    commands and device control strings with their end. -/
def Tight : List Piece → Prop
  | [] => True
  | .csi body _ :: pieces =>
    (∃ params intermediates, body = params ++ intermediates ∧ Params params ∧
      Intermediates intermediates) ∧ Tight pieces
  | .string [] introducer _ .bell :: pieces => introducer = 0x5d ∧ Tight pieces
  | .string [] introducer _ .next :: .closing :: pieces =>
    (introducer = 0x5d ∨ introducer = 0x50) ∧ Tight pieces
  | _ => False

def Mistaken (input : Bytes) : Prop :=
  ∃ pieces, Read pieces ∧ (∃ p ∈ pieces, p.counts = true) ∧ input = pieces.flatMap Piece.render ∧
    ¬ Tight pieces

theorem isReplyFrom_stays {s : State} {bs : Bytes} (hs : escaped s = true) (h : Stays s bs)
    (sequence : Bytes) (n : Nat) (rest : Bytes) :
    isReplyFrom s sequence n (bs ++ rest) = isReplyFrom s (sequence ++ bs) n rest := by
  induction bs generalizing sequence with
  | nil => rw [nil_append, append_nil]
  | cons b bs ih =>
    have hstep := h b (mem_cons_self ..)
    have hesc : b ≠ ESC := (not_restart (by rw [hstep])).1
    have hrest := ih (fun c hc => h c (mem_cons_of_mem _ hc)) (sequence ++ [b])
    rw [append_assoc, singleton_append] at hrest
    rw [cons_append, isReplyFrom, hstep]
    cases s with
    | ground | utf8 left => cases hs
    | string e =>
      have hbel : ¬ (e = true ∧ b = BEL) := by
        rintro ⟨rfl, rfl⟩
        cases hstep
      dsimp only
      rw [if_neg (by simp [hesc, hbel]), if_neg hesc]
      exact hrest
    | escape | escapeIntermediate | csi =>
      dsimp only
      rw [if_neg (by decide), if_neg (by decide), if_neg hesc]
      exact hrest

theorem isReplyFrom_ground (sequence : Bytes) (n : Nat) (input : Bytes) :
    isReplyFrom .ground sequence n input = isReplyFrom .ground [] n input := by
  cases input with
  | nil => simp [isReplyFrom]
  | cons b input =>
    rw [isReplyFrom, isReplyFrom]
    dsimp only
    by_cases hesc : b = ESC
    · simp [hesc]
    · rw [if_pos hesc, if_pos hesc]

theorem isReplyFrom_esc (n : Nat) (rest : Bytes) :
    isReplyFrom .ground [] n (ESC :: rest) = isReplyFrom .escape [ESC] n rest := rfl

theorem stays_or (s : State) (input : Bytes) : Stays s input ∨
    ∃ bs b rest, input = bs ++ b :: rest ∧ Stays s bs ∧ step s b ≠ (s, false) := by
  induction input with
  | nil => exact .inl (forall_mem_nil _)
  | cons b input ih =>
    by_cases hb : step s b = (s, false)
    · obtain h | ⟨bs, c, rest, rfl, hbs, hc⟩ := ih
      · exact .inl (forall_mem_cons.mpr ⟨hb, h⟩)
      · exact .inr ⟨b :: bs, c, rest, rfl, forall_mem_cons.mpr ⟨hb, hbs⟩, hc⟩
    · exact .inr ⟨[], b, input, rfl, forall_mem_nil _, hb⟩

theorem stays_unique {s : State} {bs bs' : Bytes} {b b' : UInt8} {rest rest' : Bytes}
    (hbs : Stays s bs) (hbs' : Stays s bs') (hb : step s b ≠ (s, false))
    (hb' : step s b' ≠ (s, false)) (h : bs ++ b :: rest = bs' ++ b' :: rest') :
    bs = bs' ∧ b = b' ∧ rest = rest' := by
  induction bs generalizing bs' with
  | nil =>
    cases bs' with
    | nil =>
      obtain ⟨rfl, rfl⟩ := cons_eq_cons.mp h
      exact ⟨rfl, rfl, rfl⟩
    | cons c bs' =>
      obtain ⟨rfl, -⟩ := cons_eq_cons.mp h
      exact absurd (hbs' b (mem_cons_self ..)) hb
  | cons c bs ih =>
    cases bs' with
    | nil =>
      obtain ⟨rfl, -⟩ := cons_eq_cons.mp h
      exact absurd (hbs c (mem_cons_self ..)) hb'
    | cons c' bs' =>
      obtain ⟨rfl, htail⟩ := cons_eq_cons.mp h
      obtain ⟨rfl, hrest⟩ := ih (fun d hd => hbs d (mem_cons_of_mem _ hd))
        (fun d hd => hbs' d (mem_cons_of_mem _ hd)) htail
      exact ⟨rfl, hrest⟩

/-! ## From the input to the pieces -/

theorem step_escape (b : UInt8) (h : step .escape b ≠ (.escape, false)) :
    (step .escape b).2 = true ∨ step .escape b = (.ground, false) ∧ b ≠ 0x5b ∨
      step .escape b = (.escapeIntermediate, false) ∨ step .escape b = (.csi, false) ∧ b = 0x5b ∨
      ∃ e, step .escape b = (.string e, false) := by
  by_cases hesc : b = ESC
  · exact .inl (by simp [step, hesc])
  · by_cases hcan : b = CAN ∨ b = SUB
    · exact .inl (by simp [step, hesc, hcan])
    · right
      simp only [step, hesc, hcan, if_false, afterEscape] at h ⊢
      split
      · exact .inr (.inl rfl)
      split
      · rename_i hb
        exact .inr (.inr (.inl ⟨rfl, hb⟩))
      · rename_i hb
        split
        · exact .inr (.inr (.inr ⟨true, rfl⟩))
        split
        · exact .inr (.inr (.inr ⟨false, rfl⟩))
        · split
          · exact .inl ⟨rfl, hb⟩
          · rename_i h₁ h₂ h₃ h₄
            simp [h₁, hb, h₂, h₃, h₄] at h

theorem step_string {e : Bool} {b : UInt8} (h : step (.string e) b ≠ (.string e, false)) :
    b = ESC ∨ (e = true ∧ b = BEL) ∨ b = CAN ∨ b = SUB := by
  by_contra hnot
  push Not at hnot
  obtain ⟨hesc, hbel, hcan, hsub⟩ := hnot
  have hbel' : ¬ (b = BEL ∧ e = true) := fun ⟨hb, he⟩ => hbel he hb
  exact h (by simp [step, hesc, hcan, hsub, hbel'])

theorem step_leaves {s : State} {b : UInt8} (hs : escaped s = true) (hne : s ≠ .escape)
    (h : step s b ≠ (s, false)) : (step s b).2 = true ∨ (step s b).1 = .ground := by
  by_contra hnot
  push Not at hnot
  obtain ⟨hr, hn⟩ := hnot
  have hr : (step s b).2 = false := by simpa using hr
  apply h
  obtain ⟨hesc, hcan⟩ := not_restart hr
  cases s with
  | escape => exact absurd rfl hne
  | ground | utf8 left => cases hs
  | escapeIntermediate | csi | string e =>
    simp only [step, hesc, hcan, if_false] at hn ⊢
    split at hn
    · exact absurd rfl hn
    · rename_i hstays
      rw [if_neg hstays]

theorem isReplyFrom_open {s : State} (hs : escaped s = true) {sequence : Bytes}
    (hlong : sequence ≠ [ESC]) (n : Nat) : isReplyFrom s sequence n [] = false := by
  have hground : s ≠ .ground := by
    rintro rfl
    cases hs
  rw [isReplyFrom, decide_eq_false hground, Bool.false_or]
  simp [hlong]

theorem isReplyFrom_final {s : State} (hs : s.inSequence = true) {b : UInt8}
    (hb : (step s b).2 = true ∨ (step s b).1 = .ground) {sequence : Bytes} {n : Nat} {rest : Bytes} :
    isReplyFrom s sequence n (b :: rest) = true ↔ step s b = (.ground, false) ∧
      answer (sequence ++ [b]) = true ∧ isReplyFrom .ground [] (n + 1) rest = true := by
  rw [isReplyFrom]
  have hsplit : ∀ (p : State × Bool), p = step s b → (p.2 = true ∨ p.1 = .ground) →
      ((if p.2 = true then false
        else if p.1 = .ground then
          if answer (sequence ++ [b]) = true then
            isReplyFrom p.1 (if b = ESC then [ESC] else []) (n + 1) rest else false
        else isReplyFrom p.1 (if b = ESC then [ESC] else sequence ++ [b]) n rest) = true ↔
        p = (.ground, false) ∧ answer (sequence ++ [b]) = true ∧
          isReplyFrom .ground [] (n + 1) rest = true) := by
    rintro ⟨next, restart⟩ - hp
    dsimp only at hp ⊢
    cases restart with
    | true => simp
    | false =>
      obtain rfl : next = .ground := hp.resolve_left (by simp)
      rw [if_neg (by simp), if_pos rfl, isReplyFrom_ground]
      simp
  have h := hsplit (step s b) rfl hb
  cases s with
  | ground | utf8 left | string e => cases hs
  | escape | escapeIntermediate | csi => exact h

theorem isReplyFrom_opens {s : State} {i : UInt8} (hs : s ≠ .ground)
    (hi : step .escape i = (s, false)) (sequence : Bytes) (n : Nat) (rest : Bytes) :
    isReplyFrom .escape sequence n (i :: rest) = isReplyFrom s (sequence ++ [i]) n rest := by
  have hesc : i ≠ ESC := (not_restart (by rw [hi])).1
  rw [isReplyFrom, hi]
  dsimp only
  rw [if_neg (by decide), if_neg hs, if_neg hesc]

theorem isReplyFrom_next (e : Bool) (sequence : Bytes) (n : Nat) (rest : Bytes) :
    isReplyFrom (.string e) sequence n (ESC :: rest) =
      isReplyFrom .ground [] (n + 1) (ESC :: rest) := by
  rw [isReplyFrom_esc, isReplyFrom, step]
  simp

theorem isReplyFrom_bell (sequence : Bytes) (n : Nat) (rest : Bytes) :
    isReplyFrom (.string true) sequence n (BEL :: rest) = isReplyFrom .ground [] (n + 1) rest := by
  have hstep : step (.string true) BEL = (.ground, false) := rfl
  have hne : BEL ≠ ESC := by decide
  rw [isReplyFrom, hstep]
  dsimp only
  rw [if_pos (.inr ⟨rfl, rfl⟩), if_neg hne]

theorem isReplyFrom_cancelled (e : Bool) {b : UInt8} (hb : b = CAN ∨ b = SUB) (sequence : Bytes)
    (n : Nat) (rest : Bytes) :
    isReplyFrom (.string e) sequence n (b :: rest) = isReplyFrom .ground [] n rest := by
  have hesc : b ≠ ESC := by
    obtain rfl | rfl := hb <;> decide
  have hbel : b ≠ BEL := by
    obtain rfl | rfl := hb <;> decide
  have hstep : step (.string e) b = (.ground, true) := by simp [step, hesc, hb]
  rw [isReplyFrom, hstep]
  dsimp only
  rw [if_neg (by simp [hesc, hbel]), if_neg hesc, isReplyFrom_ground]

theorem answer_second {junk : Bytes} {i : UInt8} {rest : Bytes} (hjunk : Stays .escape junk)
    (h : answer (ESC :: (junk ++ i :: rest)) = true) :
    junk = [] ∧ (i = 0x5c ∧ rest = [] ∨ i = 0x5b) := by
  have hignored : ∀ b ∈ junk, b ≠ 0x5b ∧ b ≠ 0x5c := by
    intro b hb
    constructor
    · rintro rfl
      have := hjunk _ hb
      revert this
      decide
    · rintro rfl
      have := hjunk _ hb
      revert this
      decide
  cases junk with
  | nil =>
    refine ⟨rfl, ?_⟩
    rw [nil_append] at h
    unfold answer at h
    split at h
    · rename_i hseq
      simp only [List.cons.injEq] at hseq
      exact .inl ⟨hseq.2.1, hseq.2.2⟩
    · rename_i hseq
      simp only [List.cons.injEq] at hseq
      exact .inr hseq.2.1
    · cases h
  | cons b junk =>
    exfalso
    obtain ⟨h₁, h₂⟩ := hignored b (mem_cons_self ..)
    unfold answer at h
    split at h
    · rename_i hseq
      simp only [cons_append, List.cons.injEq] at hseq
      exact h₂ hseq.2.1
    · rename_i hseq
      simp only [cons_append, List.cons.injEq] at hseq
      exact h₁ hseq.2.1
    · cases h

/-- A whole input, from where nothing is open, with the replies counted before. -/
def Accepted (n : Nat) (input : Bytes) : Prop :=
  ∃ pieces, Read pieces ∧ (0 < n ∨ ∃ p ∈ pieces, p.counts = true) ∧
    input = pieces.flatMap Piece.render

theorem Accepted.cons {n m : Nat} {p : Piece} {rest : Bytes} (hshaped : p.Shaped)
    (hfollowed : ∀ pieces, rest = pieces.flatMap Piece.render → p.Followed pieces)
    (hcounts : m = 0 ∨ p.counts = true ∨ 0 < n) (h : Accepted m rest) :
    Accepted n (p.render ++ rest) := by
  obtain ⟨pieces, hread, hcount, hrest⟩ := h
  refine ⟨p :: pieces, ⟨hshaped, hfollowed pieces hrest, hread⟩, ?_, ?_⟩
  · obtain rfl | hp | hn := hcounts
    · obtain hzero | ⟨q, hq, hcounted⟩ := hcount
      · exact absurd hzero (Nat.lt_irrefl 0)
      · exact .inr ⟨q, mem_cons_of_mem _ hq, hcounted⟩
    · exact .inr ⟨p, mem_cons_self .., hp⟩
    · exact .inl hn
  · rw [flatMap_cons, hrest]

theorem accepted_of (input : Bytes) (n : Nat) (h : isReplyFrom .ground [] n input = true) :
    Accepted n input := by
  -- By induction on the length: a piece takes at least its `ESC`.
  induction hlen : input.length using Nat.strongRecOn generalizing input n with
  | ind len ih =>
    have hagain : ∀ (rest : Bytes) (m : Nat), rest.length < len →
        isReplyFrom .ground [] m rest = true → Accepted m rest :=
      fun rest m hlt hrest => ih rest.length hlt rest m hrest rfl
    cases input with
    | nil =>
      refine ⟨[], trivial, .inl ?_, rfl⟩
      simpa [isReplyFrom] using h
    | cons first input =>
      have hesc : first = ESC := by
        by_contra hne
        rw [isReplyFrom] at h
        dsimp only at h
        rw [if_pos hne] at h
        cases h
      subst hesc
      rw [isReplyFrom_esc] at h
      rw [length_cons] at hlen
      obtain hall | ⟨ignored, i, rest, rfl, hignored, hi⟩ := stays_or .escape input
      -- An `ESC` and nothing that leaves it.
      · have hrun := isReplyFrom_stays (s := .escape) rfl hall [ESC] n []
        rw [append_nil] at hrun
        rw [hrun] at h
        by_cases hnil : input = []
        · subst hnil
          refine ⟨[.escape], ⟨trivial, rfl, trivial⟩, .inl ?_, rfl⟩
          rw [isReplyFrom] at h
          exact of_decide_eq_true (Bool.and_eq_true_iff.mp h).1
        · rw [isReplyFrom_open rfl (by simp [hnil])] at h
          cases h
      · rw [isReplyFrom_stays rfl hignored] at h
        have hlen : ignored.length + rest.length + 2 = len := by
          rw [← hlen, length_append, length_cons]
          omega
        have hlong : [ESC] ++ ignored ++ [i] ≠ [ESC] := by simp
        obtain hr | ⟨hstep, hbracket⟩ | hstep | ⟨hstep, rfl⟩ | ⟨e, hstep⟩ := step_escape i hi
        -- Given up.
        · rw [isReplyFrom_final rfl (.inl hr)] at h
          rw [h.1] at hr
          cases hr
        -- A whole escape: the one that closes a string.
        · rw [isReplyFrom_final rfl (.inr (by rw [hstep]))] at h
          obtain ⟨-, hanswer, hrest⟩ := h
          rw [append_assoc, singleton_append] at hanswer
          obtain ⟨rfl, ⟨rfl, -⟩ | rfl⟩ := answer_second hignored hanswer
          · exact Accepted.cons (p := .closing) trivial (fun _ _ => trivial) (.inr (.inl rfl))
              (hagain rest (n + 1) (by omega) hrest)
          · exact absurd rfl hbracket
        -- Intermediate bytes: no answer has them there.
        · rw [isReplyFrom_opens (by decide) hstep] at h
          obtain hall | ⟨body, b, rest, rfl, hbody, hb⟩ := stays_or .escapeIntermediate rest
          · have hrun := isReplyFrom_stays (s := .escapeIntermediate) rfl hall
              ([ESC] ++ ignored ++ [i]) n []
            rw [append_nil] at hrun
            rw [hrun, isReplyFrom_open rfl (by simp)] at h
            cases h
          · rw [isReplyFrom_stays rfl hbody,
              isReplyFrom_final rfl (step_leaves rfl (by decide) hb)] at h
            obtain ⟨-, hanswer, -⟩ := h
            simp only [append_assoc, singleton_append] at hanswer
            obtain ⟨-, ⟨rfl, -⟩ | rfl⟩ := answer_second hignored hanswer <;> cases hstep
        -- A control sequence.
        · rw [isReplyFrom_opens (by decide) hstep] at h
          obtain hall | ⟨body, b, rest, rfl, hbody, hb⟩ := stays_or .csi rest
          · have hrun := isReplyFrom_stays (s := .csi) rfl hall ([ESC] ++ ignored ++ [0x5b]) n []
            rw [append_nil] at hrun
            rw [hrun, isReplyFrom_open rfl (by simp)] at h
            cases h
          · rw [isReplyFrom_stays rfl hbody,
              isReplyFrom_final rfl (step_leaves rfl (by decide) hb)] at h
            obtain ⟨-, hanswer, hrest⟩ := h
            simp only [append_assoc, singleton_append] at hanswer
            obtain ⟨rfl, -⟩ := answer_second hignored hanswer
            simp only [length_append, length_cons] at hlen
            have hpiece := Accepted.cons (n := n) (p := .csi body b) ⟨hbody, hanswer⟩
              (fun _ _ => trivial) (.inr (.inl rfl)) (hagain rest (n + 1) (by omega) hrest)
            simpa [Piece.render] using hpiece
        -- A string.
        · rw [isReplyFrom_opens State.noConfusion hstep] at h
          obtain hall | ⟨body, b, rest, rfl, hbody, hb⟩ := stays_or (.string e) rest
          · have hrun := isReplyFrom_stays (s := .string e) rfl hall ([ESC] ++ ignored ++ [i]) n []
            rw [append_nil] at hrun
            rw [hrun, isReplyFrom_open rfl (by simp)] at h
            cases h
          · rw [isReplyFrom_stays rfl hbody] at h
            simp only [length_append, length_cons] at hlen
            obtain rfl | ⟨rfl, rfl⟩ | hcan := step_string hb
            · rw [isReplyFrom_next] at h
              have hpiece := Accepted.cons (n := n) (p := .string ignored i body .next)
                ⟨hignored, e, hstep, hbody, trivial⟩ (by rintro _ hrest rfl; cases hrest)
                (.inr (.inl rfl)) (hagain (ESC :: rest) (n + 1) (by simp; omega) h)
              simpa [Piece.render, Stop.bytes] using hpiece
            · rw [isReplyFrom_bell] at h
              have hpiece := Accepted.cons (n := n) (p := .string ignored i body .bell)
                ⟨hignored, true, hstep, hbody, rfl⟩ (fun _ _ => trivial) (.inr (.inl rfl))
                (hagain rest (n + 1) (by omega) h)
              simpa [Piece.render, Stop.bytes] using hpiece
            · rw [isReplyFrom_cancelled e hcan] at h
              have hpiece := Accepted.cons (n := n) (m := n)
                (p := .string ignored i body (.cancelled b))
                ⟨hignored, e, hstep, hbody, hcan⟩ (fun _ _ => trivial)
                (n.eq_zero_or_pos.imp_right .inr) (hagain rest n (by omega) h)
              simpa [Piece.render, Stop.bytes] using hpiece

theorem answer_csi (body : Bytes) (final : UInt8) :
    answer (ESC :: 0x5b :: (body ++ [final])) = true ↔ Answers body final := by
  have hlast : (body ++ [final]).getLast? = some final := List.getLast?_concat ..
  have hrest : (body ++ [final]).dropLast = body := dropLast_concat ..
  simp only [answer, ESC, hlast, hrest, Answers, mem_cons, not_mem_nil, or_false]
  split <;> simp_all

theorem answers_final {body : Bytes} {final : UInt8} (h : Answers body final) :
    step .csi final = (.ground, false) := by
  have hall : ∀ b ∈ ([0x52, 0x63, 0x6e, 0x79, 0x74, 0x78, 0x7c, 0x75, 0x6d] : Bytes),
      step .csi b = (.ground, false) := by decide +kernel
  apply hall
  obtain h | ⟨rfl, -⟩ | ⟨rfl, -⟩ := h
  · exact mem_append_left [0x75, 0x6d] h
  · decide
  · decide

theorem render_esc (p : Piece) : ∃ rest, p.render = ESC :: rest := by
  cases p <;> exact ⟨_, rfl⟩

theorem flatMap_render_esc {pieces : List Piece} (h : pieces ≠ []) :
    ∃ rest, pieces.flatMap Piece.render = ESC :: rest := by
  cases pieces with
  | nil => exact absurd rfl h
  | cons p pieces =>
    obtain ⟨rest, hrest⟩ := render_esc p
    exact ⟨rest ++ pieces.flatMap Piece.render, by rw [flatMap_cons, hrest, cons_append]⟩

theorem accepts_pieces {pieces : List Piece} (h : Read pieces) (n : Nat)
    (hcount : 0 < n ∨ ∃ p ∈ pieces, p.counts = true) :
    isReplyFrom .ground [] n (pieces.flatMap Piece.render) = true := by
  induction pieces generalizing n with
  | nil =>
    have hn : 0 < n := hcount.resolve_right (by simp)
    simp [isReplyFrom, hn]
  | cons p pieces ih =>
    obtain ⟨hshaped, hfollowed, hread⟩ := h
    have hmore : ∀ m, 0 < m → isReplyFrom .ground [] m (pieces.flatMap Piece.render) = true :=
      fun m hm => ih hread m (.inl hm)
    rw [flatMap_cons]
    cases p with
    | csi body final =>
      obtain ⟨hbody, hanswer⟩ := hshaped
      have hfinal := answers_final ((answer_csi body final).mp hanswer)
      show isReplyFrom .ground [] n (ESC :: 0x5b :: (body ++ [final] ++ _)) = true
      rw [isReplyFrom_esc, isReplyFrom_opens (by decide) (s := .csi) rfl, append_assoc,
        isReplyFrom_stays rfl hbody]
      show isReplyFrom .csi ([ESC, 0x5b] ++ body) n (final :: _) = true
      rw [isReplyFrom_final rfl (.inr (by rw [hfinal]))]
      refine ⟨hfinal, ?_, hmore _ (Nat.succ_pos n)⟩
      simpa using hanswer
    | string ignored i body stop =>
      obtain ⟨hignored, e, hstep, hbody, hstop⟩ := hshaped
      show isReplyFrom .ground [] n
        (ESC :: (ignored ++ i :: (body ++ stop.bytes) ++ pieces.flatMap Piece.render)) = true
      rw [isReplyFrom_esc, append_assoc, isReplyFrom_stays rfl hignored]
      show isReplyFrom .escape _ n (i :: (body ++ stop.bytes ++ _)) = true
      rw [isReplyFrom_opens State.noConfusion hstep, append_assoc body,
        isReplyFrom_stays rfl hbody]
      cases stop with
      | bell =>
        obtain rfl : e = true := hstop
        show isReplyFrom (.string true) _ n (BEL :: pieces.flatMap Piece.render) = true
        rw [isReplyFrom_bell]
        exact hmore _ (Nat.succ_pos n)
      | next =>
        obtain ⟨rest, hrest⟩ := flatMap_render_esc hfollowed
        rw [Stop.bytes, nil_append, hrest, isReplyFrom_next, ← hrest]
        exact hmore _ (Nat.succ_pos n)
      | cancelled b =>
        show isReplyFrom (.string e) _ n (b :: pieces.flatMap Piece.render) = true
        rw [isReplyFrom_cancelled e hstop]
        refine ih hread n (hcount.imp_right ?_)
        rintro ⟨q, hq, hcounted⟩
        obtain rfl | hq := mem_cons.mp hq
        · cases hcounted
        · exact ⟨q, hq, hcounted⟩
    | closing =>
      show isReplyFrom .ground [] n (ESC :: 0x5c :: pieces.flatMap Piece.render) = true
      rw [isReplyFrom_esc, isReplyFrom_final rfl (.inr rfl)]
      exact ⟨rfl, rfl, hmore _ (Nat.succ_pos n)⟩
    | escape =>
      obtain rfl : pieces = [] := hfollowed
      have hn : 0 < n := by
        obtain hn | ⟨q, hq, hcounted⟩ := hcount
        · exact hn
        · rw [mem_singleton.mp hq] at hcounted
          cases hcounted
      show isReplyFrom .escape [ESC] n [] = true
      simp [isReplyFrom, hn]

/-- What the code accepts: an input that reads in pieces of which one counts. -/
theorem isReply_iff (input : Bytes) : isReply input = true ↔ Accepted 0 input := by
  constructor
  · exact accepted_of input 0
  · rintro ⟨pieces, hread, hcount, rfl⟩
    exact accepts_pieces hread 0 hcount

def Stop.byte : Stop → UInt8
  | bell => BEL
  | next => ESC
  | cancelled byte => byte

theorem stop_byte {ignored body : Bytes} {i : UInt8} {stop : Stop} {pieces : List Piece}
    (h : (Piece.string ignored i body stop).Followed pieces) :
    ∃ rest, stop.bytes ++ pieces.flatMap Piece.render = stop.byte :: rest ∧
      pieces.flatMap Piece.render = (if stop = .next then [ESC] else []) ++ rest := by
  cases stop with
  | bell | cancelled b => exact ⟨_, rfl, rfl⟩
  | next =>
    obtain ⟨rest, hrest⟩ := flatMap_render_esc h
    exact ⟨rest, hrest, hrest⟩

theorem stop_leaves {e : Bool} {stop : Stop} (h : stop.Leaves e) :
    step (.string e) stop.byte ≠ (.string e, false) := by
  cases stop with
  | bell =>
    obtain rfl : e = true := h
    decide
  | next => simp [Stop.byte, step]
  | cancelled b =>
    obtain rfl | rfl := h <;> cases e <;> decide

theorem stop_unique {e : Bool} {stop stop' : Stop} (h : stop.Leaves e) (h' : stop'.Leaves e)
    (hbyte : stop.byte = stop'.byte) : stop = stop' := by
  have hother : ∀ {b : UInt8}, b = CAN ∨ b = SUB → b ≠ BEL ∧ b ≠ ESC := by
    rintro b (rfl | rfl) <;> decide
  cases stop with
  | bell =>
    cases stop' with
    | bell => rfl
    | next => cases hbyte
    | cancelled b => exact absurd hbyte.symm (hother h').1
  | next =>
    cases stop' with
    | bell => cases hbyte
    | next => rfl
    | cancelled b => exact absurd hbyte.symm (hother h').2
  | cancelled b =>
    cases stop' with
    | bell => exact absurd hbyte (hother h).1
    | next => exact absurd hbyte (hother h).2
    | cancelled b' => exact congrArg _ hbyte

theorem piece_head {p : Piece} (h : p.Shaped) :
    p = .escape ∨ ∃ ignored i tail, p.render = ESC :: (ignored ++ i :: tail) ∧
      Stays .escape ignored ∧ step .escape i ≠ (.escape, false) := by
  cases p with
  | csi body final =>
    exact .inr ⟨[], 0x5b, body ++ [final], rfl, forall_mem_nil _, by decide⟩
  | string ignored i body stop =>
    obtain ⟨hignored, e, hstep, -⟩ := h
    exact .inr ⟨ignored, i, body ++ stop.bytes, rfl, hignored, by rw [hstep]; simp⟩
  | closing => exact .inr ⟨[], 0x5c, [], rfl, forall_mem_nil _, by decide⟩
  | escape => exact .inl rfl

theorem piece_unique {p p' : Piece} {pieces pieces' : List Piece} (h : p.Shaped) (h' : p'.Shaped)
    (hfollowed : p.Followed pieces) (hfollowed' : p'.Followed pieces')
    (heq : p.render ++ pieces.flatMap Piece.render = p'.render ++ pieces'.flatMap Piece.render) :
    p = p' ∧ pieces.flatMap Piece.render = pieces'.flatMap Piece.render := by
  -- An `ESC` by itself is the last byte; every other piece goes on to one that is not ignored.
  have hlast : ∀ {q : Piece} {rest : Bytes}, q.Shaped → [ESC] = q.render ++ rest →
      q = .escape := by
    intro q rest hq hrest
    obtain rfl | ⟨ignored, i, tail, hrender, -, -⟩ := piece_head hq
    · rfl
    · rw [hrender] at hrest
      simp at hrest
  by_cases hp : p = .escape
  · subst hp
    obtain rfl : pieces = [] := hfollowed
    obtain rfl := hlast h' heq
    obtain rfl : pieces' = [] := hfollowed'
    exact ⟨rfl, rfl⟩
  by_cases hp' : p' = .escape
  · subst hp'
    obtain rfl : pieces' = [] := hfollowed'
    exact absurd (hlast h heq.symm) hp
  cases p with
  | escape => exact absurd rfl hp
  | csi body final =>
    obtain ⟨hbody, hanswer⟩ := h
    have hfinal : step .csi final ≠ (.csi, false) := by
      rw [answers_final ((answer_csi body final).mp hanswer)]
      simp
    cases p' with
    | escape => exact absurd rfl hp'
    | csi body' final' =>
      obtain ⟨hbody', hanswer'⟩ := h'
      have hfinal' : step .csi final' ≠ (.csi, false) := by
        rw [answers_final ((answer_csi body' final').mp hanswer')]
        simp
      simp only [Piece.render, cons_append, append_assoc, nil_append,
        List.cons.injEq, true_and] at heq
      obtain ⟨rfl, rfl, hrest⟩ := stays_unique hbody hbody' hfinal hfinal' heq
      exact ⟨rfl, hrest⟩
    | string ignored i body' stop =>
      obtain ⟨hignored, e, hstep, -⟩ := h'
      simp only [Piece.render, cons_append, append_assoc, nil_append,
        List.cons.injEq, true_and] at heq
      obtain ⟨-, rfl, -⟩ := stays_unique (s := .escape) (forall_mem_nil _) hignored
        (by decide) (by rw [hstep]; simp) heq
      cases hstep
    | closing =>
      simp only [Piece.render, cons_append, List.cons.injEq] at heq
      exact absurd heq.2.1 (by decide)
  | string ignored i body stop =>
    obtain ⟨hignored, e, hstep, hbody, hstop⟩ := h
    have hi : step .escape i ≠ (.escape, false) := by
      rw [hstep]
      simp
    cases p' with
    | escape => exact absurd rfl hp'
    | csi body' final' | closing =>
      simp only [Piece.render, cons_append, append_assoc, nil_append,
        List.cons.injEq, true_and] at heq
      obtain ⟨-, rfl, -⟩ := stays_unique (s := .escape) hignored (forall_mem_nil _)
        hi (by decide) heq
      cases hstep
    | string ignored' i' body' stop' =>
      obtain ⟨hignored', e', hstep', hbody', hstop'⟩ := h'
      obtain ⟨rest, hrest, hpieces⟩ := stop_byte hfollowed
      obtain ⟨rest', hrest', hpieces'⟩ := stop_byte hfollowed'
      simp only [Piece.render, cons_append, append_assoc, hrest, hrest',
        List.cons.injEq, true_and] at heq
      obtain ⟨rfl, rfl, hbodies⟩ := stays_unique hignored hignored' hi (by rw [hstep']; simp) heq
      obtain ⟨he, -⟩ := Prod.mk.inj (hstep.symm.trans hstep')
      cases he
      obtain ⟨rfl, hbyte, rfl⟩ :=
        stays_unique hbody hbody' (stop_leaves hstop) (stop_leaves hstop') hbodies
      obtain rfl := stop_unique hstop hstop' hbyte
      exact ⟨rfl, hpieces.trans hpieces'.symm⟩
  | closing =>
    cases p' with
    | escape => exact absurd rfl hp'
    | csi body' final' =>
      simp only [Piece.render, cons_append, List.cons.injEq] at heq
      exact absurd heq.2.1 (by decide)
    | string ignored i body' stop =>
      obtain ⟨hignored, e, hstep, -⟩ := h'
      simp only [Piece.render, cons_append, append_assoc, nil_append,
        List.cons.injEq, true_and] at heq
      obtain ⟨-, rfl, -⟩ := stays_unique (s := .escape) (forall_mem_nil _) hignored
        (by decide) (by rw [hstep]; simp) heq
      cases hstep
    | closing => exact ⟨rfl, append_cancel_left heq⟩

theorem pieces_unique {pieces pieces' : List Piece} (h : Read pieces) (h' : Read pieces')
    (heq : pieces.flatMap Piece.render = pieces'.flatMap Piece.render) : pieces = pieces' := by
  induction pieces generalizing pieces' with
  | nil =>
    cases pieces' with
    | nil => rfl
    | cons p pieces' =>
      obtain ⟨rest, hrest⟩ := flatMap_render_esc (cons_ne_nil p pieces')
      rw [hrest] at heq
      cases heq
  | cons p pieces ih =>
    cases pieces' with
    | nil =>
      obtain ⟨rest, hrest⟩ := flatMap_render_esc (cons_ne_nil p pieces)
      rw [hrest] at heq
      cases heq
    | cons p' pieces' =>
      obtain ⟨hshaped, hfollowed, hread⟩ := h
      obtain ⟨hshaped', hfollowed', hread'⟩ := h'
      rw [flatMap_cons, flatMap_cons] at heq
      obtain ⟨rfl, hrest⟩ := piece_unique hshaped hshaped' hfollowed hfollowed' heq
      rw [ih hread hread' hrest]

theorem text_iff {e : Bool} {bs : Bytes} : Text e bs ↔ Stays (.string e) bs := by
  constructor
  · intro h b hb
    by_contra hleaves
    obtain ⟨hesc, hcan, hsub, hbel⟩ := h b hb
    obtain rfl | hbell | rfl | rfl := step_string hleaves
    · exact hesc rfl
    · exact hbel hbell
    · exact hcan rfl
    · exact hsub rfl
  · intro h b hb
    have hstep := h b hb
    obtain ⟨hesc, hcan⟩ := not_restart (by rw [hstep])
    refine ⟨hesc, fun h => hcan (.inl h), fun h => hcan (.inr h), ?_⟩
    rintro ⟨rfl, rfl⟩
    cases hstep

theorem middle_stays {params intermediates : Bytes} (hparams : Params params)
    (hinter : Intermediates intermediates) : Stays .csi (params ++ intermediates) := by
  intro b hb
  have hrange : 0x20 ≤ b.toNat ∧ b.toNat ≤ 0x3f := by
    obtain hb | hb := mem_append.mp hb
    · obtain ⟨h₁, h₂⟩ := hparams b hb
      have h₁ := UInt8.le_iff_toNat_le.mp h₁
      have h₂ := UInt8.le_iff_toNat_le.mp h₂
      exact ⟨Nat.le_trans (by decide) h₁, h₂⟩
    · obtain ⟨h₁, h₂⟩ := hinter b hb
      have h₁ := UInt8.le_iff_toNat_le.mp h₁
      have h₂ := UInt8.le_iff_toNat_le.mp h₂
      exact ⟨h₁, Nat.le_trans h₂ (by decide)⟩
  have hne : ∀ c : UInt8, c.toNat < 0x20 → b ≠ c := by
    rintro c hc rfl
    omega
  have hfinal : ¬ (0x40 ≤ b ∧ b ≤ 0x7e) := by
    rintro ⟨hlow, -⟩
    have hlow : 0x40 ≤ b.toNat := UInt8.le_iff_toNat_le.mp hlow
    omega
  simp [step, hne ESC (by decide), hne CAN (by decide), hne SUB (by decide), hfinal]

theorem answers_middle {params intermediates : Bytes} (hinter : Intermediates intermediates)
    (final : UInt8) : Answers (params ++ intermediates) final ↔ Answers params final := by
  have hhead : ∀ c : UInt8, 0x2f < c.toNat →
      ((params ++ intermediates).head? = some c ↔ params.head? = some c) := by
    intro c hc
    cases params with
    | cons b params => simp
    | nil =>
      cases intermediates with
      | nil => simp
      | cons b intermediates =>
        simp only [nil_append, List.head?_cons, Option.some.injEq, List.head?_nil,
          reduceCtorEq, iff_false]
        rintro rfl
        have := UInt8.le_iff_toNat_le.mp (hinter b (mem_cons_self ..)).2
        exact absurd this (Nat.not_le_of_lt hc)
  rw [Answers, Answers, hhead 0x3f (by decide), hhead 0x3e (by decide)]

def Reply.pieces : Reply → List Piece
  | csi params intermediates final => [.csi (params ++ intermediates) final]
  | oscBel body => [.string [] 0x5d body .bell]
  | osc body => [.string [] 0x5d body .next, .closing]
  | dcs body => [.string [] 0x50 body .next, .closing]

theorem pieces_of_replies {replies : List Reply} (h : ∀ r ∈ replies, r.WellFormed) :
    Read (replies.flatMap Reply.pieces) ∧ Tight (replies.flatMap Reply.pieces) ∧
      (replies.flatMap Reply.pieces).flatMap Piece.render = replies.flatMap Reply.render ∧
      (replies ≠ [] → ∃ p ∈ replies.flatMap Reply.pieces, p.counts = true) := by
  induction replies with
  | nil => exact ⟨trivial, trivial, rfl, fun hne => absurd rfl hne⟩
  | cons r replies ih =>
    obtain ⟨hread, htight, hrender, -⟩ := ih fun s hs => h s (mem_cons_of_mem _ hs)
    have hr := h r (mem_cons_self ..)
    simp only [flatMap_cons, flatMap_append, hrender]
    cases r with
    | csi params intermediates final =>
      obtain ⟨hparams, hinter, hanswers⟩ := hr
      have hanswer := (answer_csi _ final).mpr ((answers_middle hinter final).mpr hanswers)
      refine ⟨⟨⟨middle_stays hparams hinter, hanswer⟩, trivial, hread⟩,
        ⟨⟨params, intermediates, rfl, hparams, hinter⟩, htight⟩, ?_,
        fun _ => ⟨_, mem_cons_self .., rfl⟩⟩
      simp [Reply.pieces, Reply.render, Piece.render]
    | oscBel body =>
      refine ⟨⟨⟨forall_mem_nil _, true, rfl, text_iff.mp hr, rfl⟩, trivial, hread⟩,
        ⟨rfl, htight⟩, ?_, fun _ => ⟨_, mem_cons_self .., rfl⟩⟩
      simp [Reply.pieces, Reply.render, Piece.render, Stop.bytes]
    | osc body =>
      refine ⟨⟨⟨forall_mem_nil _, true, rfl, text_iff.mp hr, trivial⟩, cons_ne_nil _ _,
        trivial, trivial, hread⟩, ⟨.inl rfl, htight⟩, ?_, fun _ => ⟨_, mem_cons_self .., rfl⟩⟩
      simp [Reply.pieces, Reply.render, Piece.render, Stop.bytes]
    | dcs body =>
      refine ⟨⟨⟨forall_mem_nil _, false, rfl, text_iff.mp hr, trivial⟩, cons_ne_nil _ _,
        trivial, trivial, hread⟩, ⟨.inr rfl, htight⟩, ?_, fun _ => ⟨_, mem_cons_self .., rfl⟩⟩
      simp [Reply.pieces, Reply.render, Piece.render, Stop.bytes]

theorem replies_of_tight : ∀ pieces, Read pieces → Tight pieces →
    ∃ replies : List Reply, (∀ r ∈ replies, r.WellFormed) ∧
      pieces.flatMap Piece.render = replies.flatMap Reply.render ∧ (pieces ≠ [] → replies ≠ [])
  | [], _, _ => ⟨[], forall_mem_nil _, rfl, fun h => absurd rfl h⟩
  | .csi body final :: pieces, hread, htight => by
    obtain ⟨⟨-, hanswer⟩, -, hread⟩ := hread
    obtain ⟨⟨params, intermediates, rfl, hparams, hinter⟩, htight⟩ := htight
    obtain ⟨replies, hwell, hrender, -⟩ := replies_of_tight pieces hread htight
    have hanswers := (answers_middle hinter final).mp ((answer_csi _ final).mp hanswer)
    refine ⟨.csi params intermediates final :: replies,
      forall_mem_cons.mpr ⟨⟨hparams, hinter, hanswers⟩, hwell⟩, ?_,
      fun _ => cons_ne_nil _ _⟩
    simp [Reply.render, Piece.render, hrender]
  | .string [] introducer body .bell :: pieces, hread, htight => by
    obtain ⟨⟨-, e, hstep, hbody, hbell⟩, -, hread⟩ := hread
    obtain ⟨rfl, htight⟩ := htight
    obtain ⟨replies, hwell, hrender, -⟩ := replies_of_tight pieces hread htight
    obtain rfl : e = true := hbell
    refine ⟨.oscBel body :: replies, forall_mem_cons.mpr ⟨text_iff.mpr hbody, hwell⟩, ?_,
      fun _ => cons_ne_nil _ _⟩
    simp [Reply.render, Piece.render, Stop.bytes, hrender]
  | .string [] introducer body .next :: .closing :: pieces, hread, htight => by
    obtain ⟨⟨-, e, hstep, hbody, -⟩, -, -, -, hread⟩ := hread
    obtain ⟨hkind, htight⟩ := htight
    obtain ⟨replies, hwell, hrender, -⟩ := replies_of_tight pieces hread htight
    obtain rfl | rfl := hkind
    · obtain rfl : true = e := State.string.inj (Prod.mk.inj hstep).1
      refine ⟨.osc body :: replies, forall_mem_cons.mpr ⟨text_iff.mpr hbody, hwell⟩, ?_,
        fun _ => cons_ne_nil _ _⟩
      simp [Reply.render, Piece.render, Stop.bytes, hrender]
    · obtain rfl : false = e := State.string.inj (Prod.mk.inj hstep).1
      refine ⟨.dcs body :: replies, forall_mem_cons.mpr ⟨text_iff.mpr hbody, hwell⟩, ?_,
        fun _ => cons_ne_nil _ _⟩
      simp [Reply.render, Piece.render, Stop.bytes, hrender]
  | .string (_ :: _) _ _ _ :: _, _, htight | .string [] _ _ (.cancelled _) :: _, _, htight
  | [.string [] _ _ .next], _, htight | .string [] _ _ .next :: .csi _ _ :: _, _, htight
  | .string [] _ _ .next :: .string _ _ _ _ :: _, _, htight
  | .string [] _ _ .next :: .escape :: _, _, htight | .closing :: _, _, htight
  | .escape :: _, _, htight => by simp [Tight] at htight

theorem mistaken_wrong {input : Bytes} (h : Mistaken input) :
    isReply input = true ∧ ¬ AllReplies input := by
  obtain ⟨pieces, hread, hcount, rfl, htight⟩ := h
  refine ⟨(isReply_iff _).mpr ⟨pieces, hread, .inr hcount, rfl⟩, ?_⟩
  rintro ⟨replies, -, hwell, hinput⟩
  obtain ⟨hread', htight', hrender, -⟩ := pieces_of_replies hwell
  rw [pieces_unique hread hread' (hinput.trans hrender.symm)] at htight
  exact htight htight'

/-- **When a reply is told from typing.** What is accepted is one or more replies and nothing else
    exactly where none of its pieces is anything else. -/
theorem isReply_exact_iff (input : Bytes) :
    (isReply input = true ↔ AllReplies input) ↔ ¬ Mistaken input := by
  constructor
  · intro h hmistaken
    obtain ⟨haccepted, hnot⟩ := mistaken_wrong hmistaken
    exact hnot (h.mp haccepted)
  · intro h
    constructor
    · intro haccepted
      obtain ⟨pieces, hread, hcount, rfl⟩ := (isReply_iff input).mp haccepted
      have hcount := hcount.resolve_left (Nat.lt_irrefl 0)
      have htight : Tight pieces := by
        by_contra htight
        exact h ⟨pieces, hread, hcount, rfl, htight⟩
      obtain ⟨replies, hwell, hrender, hne⟩ := replies_of_tight pieces hread htight
      obtain ⟨p, hp, -⟩ := hcount
      exact ⟨replies, hne (ne_nil_of_mem hp), hwell, hrender⟩
    · rintro ⟨replies, hne, hwell, rfl⟩
      obtain ⟨hread, -, hrender, hcount⟩ := pieces_of_replies hwell
      exact (isReply_iff _).mpr ⟨_, hread, .inr (hcount hne), hrender.symm⟩

theorem alt_backslash_accepted : isReply [ESC, 0x5c] = true ∧ ¬ AllReplies [ESC, 0x5c] :=
  mistaken_wrong ⟨[.closing], ⟨trivial, trivial, trivial⟩, ⟨.closing, by simp, rfl⟩, rfl, id⟩

end Replies

end Yardsort.Pty
