import Yardsort.Pty.UnfinishedRuns

/- What the headless terminal's parser is given (`Headless` of `pty-host/src/snapshot.rs`).

   A batch goes to the parser as it is, after what was held back of the one before, but for a
   character it ends inside, which is held back. The cut is taken from the length of the follower's
   buffer; `parser_given_stream` says that it falls where the character begins. The parser is a
   third-party one, and stands here as the calls it was given. -/
namespace Yardsort.Pty
open Yardsort.Lib Unfinished

def Unfinished.inCharacter (u : Unfinished) : Bool :=
  match u.state with
  | .utf8 _ => true
  | _ => false

structure Headless where
  unfinished : Unfinished
  /-- The start of a character the last batch ended inside, not yet given to the parser. -/
  held : Bytes
  /-- The calls of `parser.process` so far. -/
  processed : List Bytes

namespace Headless

def new : Headless := { unfinished := Unfinished.new, held := [], processed := [] }

def feed (h : Headless) (batch : Bytes) : Headless :=
  let unfinished := h.unfinished.feed batch
  let input := h.held ++ batch
  if unfinished.inCharacter then
    let cut := input.length - unfinished.bytes.length
    { unfinished := unfinished, held := input.drop cut, processed := h.processed ++ [input.take cut] }
  else { unfinished := unfinished, held := [], processed := h.processed ++ [input] }

def fed (batches : List Bytes) : Headless := batches.foldl feed new

/-! ## The character a stream ends inside -/

def Continues (b : UInt8) : Prop := 0x80 ≤ b ∧ b ≤ 0xbf

/-- A stream ends inside a character, of which it has these bytes: one that announces a length,
    with no escape sequence or string open before it, and fewer of those announced. -/
def Inside (stream tail : Bytes) : Prop :=
  ∃ before lead rest n, stream = before ++ tail ∧ tail = lead :: rest ∧
    escaped (follow .ground before) = false ∧ ground lead = .utf8 n ∧ rest.length < n ∧
    ∀ b ∈ rest, Continues b

theorem ground_utf8 {lead : UInt8} {n : Nat} (h : ground lead = .utf8 n) :
    ¬ Continues lead ∧ ∀ s, escaped s = false → step s lead = (.utf8 n, true) := by
  have hlow : 0xc2 ≤ lead := by
    by_contra hlow
    have hle : lead.toNat < 0xc2 := Nat.lt_of_not_le fun hle => hlow (UInt8.le_iff_toNat_le.mpr hle)
    have hnot : ∀ c : UInt8, 0xc2 ≤ c.toNat → ¬ c ≤ lead := by
      intro c hc hle'
      have := UInt8.le_iff_toNat_le.mp hle'
      omega
    simp [ground, hnot] at h
  have hlow := UInt8.le_iff_toNat_le.mp hlow
  have hcont : ¬ Continues lead := by
    rintro ⟨-, hhigh⟩
    have := UInt8.le_iff_toNat_le.mp hhigh
    have h₁ : (0xc2 : UInt8).toNat = 0xc2 := rfl
    have h₂ : (0xbf : UInt8).toNat = 0xbf := rfl
    omega
  refine ⟨hcont, ?_⟩
  have hne : ∀ c : UInt8, c.toNat < 0xc2 → lead ≠ c := by
    rintro c hc rfl
    have h₁ : (0xc2 : UInt8).toNat = 0xc2 := rfl
    omega
  intro s hs
  have hesc := hne ESC (by decide)
  have hcan := hne CAN (by decide)
  have hsub := hne SUB (by decide)
  cases s with
  | ground => simp [step, hesc, hcan, hsub, h]
  | utf8 left =>
    have hcont : ¬ (0x80 ≤ lead ∧ lead ≤ 0xbf) := hcont
    simp [step, hesc, hcan, hsub, hcont, h]
  | escape | escapeIntermediate | csi | string e => cases hs

theorem step_continues {n : Nat} {b : UInt8} (h : Continues b) (hn : 1 < n) :
    step (.utf8 n) b = (.utf8 (n - 1), false) := by
  have hlow := UInt8.le_iff_toNat_le.mp h.1
  have hne : ∀ c : UInt8, c.toNat < 0x80 → b ≠ c := by
    rintro c hc rfl
    have h₁ : (0x80 : UInt8).toNat = 0x80 := rfl
    omega
  have hcont : 0x80 ≤ b ∧ b ≤ 0xbf := h
  simp [step, hne ESC (by decide), hne CAN (by decide), hne SUB (by decide), hcont, hn]

theorem goesOn_continues {n : Nat} {rest : Bytes} (hlen : rest.length < n)
    (h : ∀ b ∈ rest, Continues b) : GoesOn (.utf8 n) rest := by
  induction rest generalizing n with
  | nil => trivial
  | cons b rest ih =>
    simp only [length_cons] at hlen
    have hstep := step_continues (h b (mem_cons_self ..)) (n := n) (by omega)
    refine ⟨by rw [hstep], by rw [hstep]; exact State.noConfusion, ?_⟩
    rw [hstep]
    exact ih (by omega) fun c hc => h c (mem_cons_of_mem _ hc)

theorem begins_outside {s : State} {b : UInt8} {n : Nat} (hr : (step s b).2 = true)
    (hn : (step .ground b).1 = .utf8 n) : escaped s = false ∧ ground b = .utf8 n := by
  have hesc : b ≠ ESC := by
    rintro rfl
    cases hn
  have hcan : ¬ (b = CAN ∨ b = SUB) := by
    intro hcan
    simp [step, hesc, hcan] at hn
  refine ⟨?_, by simpa [step, hesc, hcan] using hn⟩
  cases s with
  | ground | utf8 left => rfl
  | escape | escapeIntermediate | csi | string e => simp [step, hesc, hcan] at hr

theorem inside_iff {stream tail : Bytes} :
    Inside stream tail ↔ (∃ n, (whole stream).state = .utf8 n) ∧ (whole stream).bytes = tail := by
  constructor
  · rintro ⟨before, lead, rest, n, hcut, rfl, hout, hlead, hlen, hrest⟩
    obtain ⟨-, hstep⟩ := ground_utf8 hlead
    have hgo := goesOn_continues hlen hrest
    have hground : (step .ground lead).1 = .utf8 n := by rw [hstep _ rfl]
    have hopened : Opened stream before lead rest :=
      ⟨hcut, by rw [hstep _ hout], by rw [hground]; exact State.noConfusion, hground ▸ hgo⟩
    obtain ⟨-, -, hfollow, hkept⟩ := goesOn_utf8 hgo (by omega)
    rw [hopened.whole, hground, hfollow, hkept]
    exact ⟨⟨_, rfl⟩, rfl⟩
  · rintro ⟨⟨m, hstate⟩, hbytes⟩
    obtain hidle | ⟨before, first, rest, hopened⟩ := opened_or_idle stream
    · rw [hidle] at hstate
      cases hstate
    · have hgo := hopened.goesOn
      have hwhole := hopened.whole
      obtain hground | rfl | ⟨n, hn, hpos, -⟩ := step_ground first
      · exact absurd hground hopened.opens
      -- An escape's bytes never leave a character open.
      · rw [hwhole] at hstate
        exfalso
        have hescaped : ∀ s, escaped s = true → GoesOn s rest → escaped (follow s rest) = true := by
          clear hwhole hstate hgo hopened
          induction rest with
          | nil => exact fun _ hs _ => hs
          | cons b rest ih =>
            exact fun s hs hgo => ih _ (step_escaped hs hgo.1 hgo.2.1) hgo.2.2
        have := hescaped .escape rfl hgo
        rw [show follow .escape rest = .utf8 m from hstate] at this
        cases this
      · obtain ⟨hout, hlead⟩ := begins_outside hopened.begins hn
        rw [hn] at hgo
        obtain ⟨hlen, hall, -, hkept⟩ := goesOn_utf8 hgo hpos
        rw [hwhole, hn, hkept] at hbytes
        exact ⟨before, first, rest, n, hbytes ▸ hopened.cut, hbytes.symm, hout, hlead, hlen, hall⟩

theorem inside_short {stream tail : Bytes} (h : Inside stream tail) :
    tail.length ≤ MAX_UNFINISHED := by
  obtain ⟨before, lead, rest, n, -, rfl, -, hlead, hlen, -⟩ := h
  have hmax : 4 ≤ MAX_UNFINISHED := by decide
  have hn : n ≤ 3 := by
    unfold ground at hlead
    split at hlead
    · cases hlead
      decide
    · split at hlead
      · cases hlead
        decide
      · split at hlead <;> cases hlead
        decide
  simp only [length_cons]
  omega

theorem Inside.before {stream batch tail : Bytes} (h : Inside (stream ++ batch) tail)
    (hlong : batch.length < tail.length) : ∃ tail', Inside stream tail' ∧ tail = tail' ++ batch := by
  obtain ⟨before, lead, rest, n, hcut, rfl, hout, hlead, hlen, hrest⟩ := h
  simp only [length_cons] at hlong
  have hlengths := congrArg List.length hcut
  simp only [length_append, length_cons] at hlengths
  have hstream : before.length < stream.length := by omega
  obtain ⟨more, hmore⟩ : ∃ more, stream = before ++ lead :: more := by
    have hstarts : before ++ [lead] <+: stream := by
      apply @List.prefix_of_prefix_length_le _ _ _ (stream ++ batch)
      · exact ⟨rest, by rw [hcut, append_assoc]; rfl⟩
      · exact prefix_append ..
      · simp only [length_append, length_singleton]
        omega
    obtain ⟨more, hmore⟩ := hstarts
    exact ⟨more, by rw [← hmore, append_assoc]; rfl⟩
  have hrest' : rest = more ++ batch := by
    rw [hmore, append_assoc, cons_append] at hcut
    exact (List.cons_inj_right lead).mp (append_cancel_left hcut.symm)
  refine ⟨lead :: more, ⟨before, lead, more, n, hmore, rfl, hout, hlead, ?_, ?_⟩, ?_⟩
  · rw [hrest', length_append] at hlen
    omega
  · intro b hb
    exact hrest b (hrest' ▸ mem_append_left _ hb)
  · rw [hrest', cons_append]

/-- What holds after every batch: the follower has followed the stream, what was given to the
    parser and what is held are the stream, and what is held is the character it ends inside. -/
structure Exact (h : Headless) (stream : Bytes) : Prop where
  follower : h.unfinished = Unfinished.new.feed stream
  given : h.processed.flatten ++ h.held = stream
  inside : ∀ tail, Inside stream tail → h.held = tail
  outside : h.held ≠ [] → Inside stream h.held

theorem inCharacter_iff (stream : Bytes) : (Unfinished.new.feed stream).inCharacter = true ↔
    ∃ n, (whole stream).state = .utf8 n := by
  rw [Unfinished.inCharacter, (holds_feed stream).state]
  split
  · rename_i n hn
    exact ⟨fun _ => ⟨n, hn⟩, fun _ => rfl⟩
  · rename_i hother
    exact ⟨nofun, fun ⟨n, hn⟩ => absurd hn (hother n)⟩

theorem feeds_on {h : Headless} {stream : Bytes} (hexact : Exact h stream) (batch : Bytes) :
    Exact (h.feed batch) (stream ++ batch) := by
  obtain ⟨hfollower, hgiven, hinside, houtside⟩ := hexact
  have hfed : h.unfinished.feed batch = Unfinished.new.feed (stream ++ batch) := by
    rw [hfollower, feed_append]
  have hinput : h.processed.flatten ++ (h.held ++ batch) = stream ++ batch := by
    rw [← append_assoc, hgiven]
  rw [feed, hfed]
  dsimp only
  split
  · rename_i hin
    have htail : Inside (stream ++ batch) (whole (stream ++ batch)).bytes :=
      inside_iff.mpr ⟨(inCharacter_iff _).mp hin, rfl⟩
    have hbytes : (Unfinished.new.feed (stream ++ batch)).bytes = (whole (stream ++ batch)).bytes := by
      rw [(holds_feed _).bytes, short, if_neg (Nat.not_lt.mpr (inside_short htail))]
    generalize (whole (stream ++ batch)).bytes = tail at htail hbytes
    -- The character's bytes are the last of what is to be given.
    have hsuffix : tail <:+ h.held ++ batch := by
      by_cases hlong : batch.length < tail.length
      · obtain ⟨tail', htail', rfl⟩ := htail.before hlong
        exact ⟨[], by rw [hinside tail' htail', nil_append]⟩
      · obtain ⟨before, -, -, -, hcut, -⟩ := htail
        apply @List.suffix_of_suffix_length_le _ _ (stream ++ batch)
        · exact ⟨before, hcut.symm⟩
        · exact ⟨_, hinput⟩
        · rw [length_append]
          omega
    obtain ⟨given, hcut⟩ := hsuffix
    have hlen : (h.held ++ batch).length - tail.length = given.length := by
      rw [← hcut, length_append]
      omega
    rw [hbytes, hlen, ← hcut, drop_left, take_left]
    refine ⟨rfl, ?_, ?_, fun _ => htail⟩
    · rw [flatten_append, flatten_singleton, append_assoc, hcut, hinput]
    · intro other hother
      exact (inside_iff.mp htail).2.symm.trans (inside_iff.mp hother).2
  · rename_i hout
    have hnone : ∀ tail, ¬ Inside (stream ++ batch) tail := fun tail htail =>
      hout ((inCharacter_iff _).mpr (inside_iff.mp htail).1)
    refine ⟨rfl, ?_, fun tail htail => absurd htail (hnone tail), fun hne => absurd rfl hne⟩
    rw [flatten_append, flatten_singleton, append_nil]
    exact hinput

theorem fed_exact (batches : List Bytes) : Exact (fed batches) batches.flatten := by
  induction batches using List.reverseRecOn with
  | nil =>
    refine ⟨rfl, rfl, ?_, fun hne => absurd rfl hne⟩
    rintro tail ⟨before, lead, rest, n, hcut, rfl, -⟩
    simp at hcut
  | append_singleton batches batch ih =>
    rw [fed, foldl_append, flatten_append, flatten_singleton]
    exact feeds_on ih batch

/-- **The parser is given the stream.** After any batches: what it was given and what is held are
    the bytes fed; what is held is the character these end inside, and nothing if they end inside
    none; and the last call ends inside a character only where the next byte breaks it. -/
theorem parser_given_stream (batches : List Bytes) :
    (fed batches).processed.flatten ++ (fed batches).held = batches.flatten ∧
    (∀ tail, Inside batches.flatten tail → (fed batches).held = tail) ∧
    ((∀ tail, ¬ Inside batches.flatten tail) → (fed batches).held = []) ∧
    ∀ tail, Inside (fed batches).processed.flatten tail →
      ∃ lead rest, (fed batches).held = lead :: rest ∧ ¬ Continues lead := by
  obtain ⟨-, hgiven, hinside, houtside⟩ := fed_exact batches
  refine ⟨hgiven, hinside, ?_, ?_⟩
  · intro hnone
    by_contra hne
    exact hnone _ (houtside hne)
  · intro tail htail
    have hne : (fed batches).held ≠ [] := by
      intro hnil
      rw [hnil, append_nil] at hgiven
      have hheld := hinside tail (hgiven ▸ htail)
      obtain ⟨-, lead, rest, -, -, rfl, -⟩ := htail
      rw [hnil] at hheld
      cases hheld
    obtain ⟨-, lead, rest, n, -, hheld, -, hlead, -⟩ := houtside hne
    exact ⟨lead, rest, hheld, (ground_utf8 hlead).1⟩

end Headless

end Yardsort.Pty
