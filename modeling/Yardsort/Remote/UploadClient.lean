import Yardsort.Remote.UploadRuns

/- The client's side of an upload (`upload` in `packages/remote-client/src/channel.ts`, `base64` in
   `crypto.ts`): which pieces it sends, that the bounds of a piece let each through, and that all
   are accepted among whatever else the channel is asked. -/
namespace Yardsort.Remote.Uploads
open Yardsort.Lib

def BASE64 : List Char := "ABCDEFGHIJKLMNOPQRSTUVWXYZabcdefghijklmnopqrstuvwxyz0123456789+/".toList

def encode (alphabet : List Char) : Bytes → List Char
  | [] => []
  | [a] => [alphabet.getD (a.toNat >>> 2) '?', alphabet.getD ((a.toNat &&& 3) <<< 4) '?']
  | [a, b] =>
    [alphabet.getD (a.toNat >>> 2) '?',
      alphabet.getD ((a.toNat &&& 3) <<< 4 ||| b.toNat >>> 4) '?',
      alphabet.getD ((b.toNat &&& 15) <<< 2) '?']
  | a :: b :: c :: rest =>
    alphabet.getD (a.toNat >>> 2) '?' ::
      alphabet.getD ((a.toNat &&& 3) <<< 4 ||| b.toNat >>> 4) '?' ::
      alphabet.getD ((b.toNat &&& 15) <<< 2 ||| c.toNat >>> 6) '?' ::
      alphabet.getD (c.toNat &&& 63) '?' :: encode alphabet rest

def base64 (bytes : Bytes) : String :=
  let out := encode BASE64 bytes
  String.ofList (out ++ List.replicate ((out.length + 3) / 4 * 4 - out.length) '=')

def pieces (bytes : Bytes) (offset : Nat) : List (Nat × Bytes) :=
  if offset < bytes.length then
    (offset, (bytes.drop offset).take MAX_UPLOAD_CHUNK) :: pieces bytes (offset + MAX_UPLOAD_CHUNK)
  else []
termination_by bytes.length - offset
decreasing_by simp only [MAX_UPLOAD_CHUNK]; omega

theorem pieces_ne_nil {bytes : Bytes} {offset : Nat} (h : offset < bytes.length) :
    pieces bytes offset ≠ [] := by
  rw [pieces, if_pos h]
  simp

def sending (n : UInt32) (piece : Nat × Bytes) : UploadChunkParams :=
  ⟨n, UInt64.ofNat piece.1, base64 piece.2⟩

def plain (c : Char) : Bool :=
  (String.utf8EncodeChar c).length == 1 && (String.utf8EncodeChar c).all base64Byte

theorem plain_digit {n : Nat} (h : n < 64) : plain (BASE64.getD n '?') = true := by
  revert n
  decide +kernel

theorem encode_plain (bytes : Bytes) : ∀ c ∈ encode BASE64 bytes, plain c = true := by
  have hright (a : UInt8) {k : Nat} (hk : 2 ≤ k) : a.toNat >>> k < 2 ^ 6 := by
    have hle := Nat.pow_le_pow_right (n := 2) (by decide) hk
    rw [Nat.shiftRight_eq_div_pow]
    exact Nat.div_lt_of_lt_mul (a.toNat_lt.trans_le (Nat.mul_le_mul_right (2 ^ 6) hle))
  have hleft (n : Nat) : (n &&& 3) <<< 4 < 2 ^ 6 ∧ (n &&& 15) <<< 2 < 2 ^ 6 := by
    have h3 : n &&& 3 ≤ 3 := Nat.and_le_right
    have h15 : n &&& 15 ≤ 15 := Nat.and_le_right
    rw [Nat.shiftLeft_eq, Nat.shiftLeft_eq]
    omega
  fun_induction encode BASE64 bytes with
  | case1 => nofun
  | case2 a =>
    simp only [forall_mem_cons]
    exact ⟨plain_digit (hright a le_rfl), plain_digit (hleft _).1, nofun⟩
  | case3 a b =>
    simp only [forall_mem_cons]
    exact ⟨plain_digit (hright a le_rfl),
      plain_digit (Nat.or_lt_two_pow (hleft _).1 (hright b (by decide))),
      plain_digit (hleft _).2, nofun⟩
  | case4 a b c rest ih =>
    simp only [forall_mem_cons]
    exact ⟨plain_digit (hright a le_rfl),
      plain_digit (Nat.or_lt_two_pow (hleft _).1 (hright b (by decide))),
      plain_digit (Nat.or_lt_two_pow (hleft _).2 (hright c (by decide))),
      plain_digit (Nat.and_lt_two_pow (n := 6) _ (by decide)), ih⟩

theorem encode_length (bytes : Bytes) :
    (encode BASE64 bytes).length = bytes.length + (bytes.length + 2) / 3 := by
  fun_induction encode BASE64 bytes with
  | case1 => rfl
  | case2 => simp
  | case3 => simp
  | case4 a b c rest ih =>
    simp only [length_cons, ih]
    omega

theorem utf8_plain {digits : List Char} (h : ∀ c ∈ digits, plain c = true) :
    (digits.flatMap String.utf8EncodeChar).length = digits.length ∧
      (digits.flatMap String.utf8EncodeChar).all base64Byte = true := by
  induction digits with
  | nil => exact ⟨rfl, rfl⟩
  | cons c digits ih =>
    obtain ⟨hc, hdigits⟩ := forall_mem_cons.mp h
    obtain ⟨hlength, hbyte⟩ := Bool.and_eq_true_iff.mp hc
    obtain ⟨ihlength, ihbyte⟩ := ih hdigits
    rw [flatMap_cons, length_append, List.all_append, ihlength, eq_of_beq hlength,
      length_cons, Nat.add_comm, hbyte, ihbyte]
    exact ⟨rfl, rfl⟩

theorem unpadded_padding {data : Bytes} (h : data.all base64Byte = true) {n : Nat} (hn : n ≤ 2) :
    unpadded (data ++ List.replicate n 0x3d) = data := by
  have hlast : data.reverse.head? ≠ some 0x3d := by
    rw [List.head?_reverse]
    intro hin
    exact absurd (all_eq_true.mp h _ (mem_of_getLast? hin)) (by decide)
  unfold unpadded List.isSuffixOf
  simp only [reverse_append, List.reverse_replicate, length_append, length_replicate]
  cases hrev : data.reverse with
  | nil =>
    obtain rfl := List.reverse_eq_nil_iff.mp hrev
    obtain rfl | rfl | rfl : n = 0 ∨ n = 1 ∨ n = 2 := by omega
    all_goals decide
  | cons b rest =>
    have hb : b ≠ 0x3d := by
      rintro rfl
      exact hlast (by rw [hrev]; rfl)
    obtain rfl | rfl | rfl : n = 0 ∨ n = 1 ∨ n = 2 := by omega
    all_goals simp [List.replicate, List.isPrefixOf, hb.symm]

theorem sending_valid {n : UInt32} {piece : Nat × Bytes} (hsome : piece.2 ≠ [])
    (hmost : piece.2.length ≤ MAX_UPLOAD_CHUNK) : (sending n piece).validate = .ok () := by
  have hpos := length_pos_iff.mpr hsome
  obtain ⟨hlength, hall⟩ := utf8_plain (encode_plain piece.2)
  have hpad : ∀ k, (List.replicate k '=').flatMap String.utf8EncodeChar = List.replicate k 0x3d := by
    intro k
    induction k with
    | zero => rfl
    | succ k ih => rw [replicate_succ, flatMap_cons, ih]; rfl
  have hdata : utf8 (base64 piece.2) = (encode BASE64 piece.2).flatMap String.utf8EncodeChar ++
      List.replicate (((encode BASE64 piece.2).length + 3) / 4 * 4 -
        (encode BASE64 piece.2).length) 0x3d := by
    rw [utf8_eq, base64, String.toList_ofList, flatMap_append, hpad]
  have hdigits := encode_length piece.2
  unfold UploadChunkParams.validate sending
  simp only [hdata]
  rw [unpadded_padding hall (by omega)]
  generalize (encode BASE64 piece.2).flatMap String.utf8EncodeChar = data at hlength hall ⊢
  generalize (encode BASE64 piece.2).length = digits at hlength hdigits ⊢
  rw [MAX_UPLOAD_CHUNK] at hmost
  rw [if_neg, if_neg]
  · simp only [length_append, length_replicate, hall]
    simp
    omega
  · rw [not_or, MAX_UPLOAD_CHUNK, append_eq_nil_iff, ← length_eq_zero_iff,
      length_append, length_replicate]
    omega

/-! ## An upload among whatever else is asked -/

def Ask.isOf (n : UInt32) : Ask → Bool
  | .chunk params _ _ => params.upload = n
  | _ => false

namespace Channel
variable (decode : String → Option Bytes)

def answersTo (n : UInt32) : Channel → List Ask → List (Answer Reply)
  | _, [] => []
  | s, ask :: asks =>
    match s.step decode ask with
    | none => []
    | some s' =>
      if ask.isOf n then (s.visitor.answer decode ask).2 :: answersTo n s' asks
      else answersTo n s' asks

variable {decode} {s s' : Channel} {n : UInt32} {u : Uploading} {asks : List Ask}

theorem answersTo_none (hnone : asks.filter (Ask.isOf n) = []) : answersTo decode n s asks = [] := by
  induction asks generalizing s with
  | nil => rfl
  | cons ask asks ih =>
    obtain ⟨hask, hasks⟩ := forall_mem_cons.mp (filter_eq_nil_iff.mp hnone)
    unfold answersTo
    cases s.step decode ask with
    | none => rfl
    | some s' => simp only [hask, ih (filter_eq_nil_iff.mpr hasks), Bool.false_eq_true, if_false]

theorem step_other {ask : Ask} (hcareful : s.Careful decode ask)
    (hstep : s.step decode ask = some s') (hother : ask.isOf n = false)
    (hbegun : place n < s.visitor.begun) (hn : s.visitor.uploads.lookup n = some u) :
    s'.visitor.uploads.lookup n = some u ∨ s'.isOpen = false := by
  cases ask with
  | begin params path forgotten =>
    obtain rfl | rfl | ⟨made, -, -, -, -, rfl⟩ := step_begin hstep
    · exact .inl hn
    · exact .inl hn
    · refine .inl (lookup_inserted.mpr (.inr ⟨?_, hn⟩))
      rintro rfl
      exact absurd ((place_number hcareful.1).symm.trans_lt hbegun) (lt_irrefl _)
  | chunk params kept synced =>
    have hne : n ≠ params.upload := fun hsame => of_decide_eq_false hother hsame.symm
    cases hu : s.visitor.uploads.lookup params.upload with
    | none => exact .inl ((step_stray (AList.lookup_eq_none.mp hu)).2 s' hstep ▸ hn)
    | some w =>
      obtain ⟨hvalid, hdecode⟩ := hcareful (mem_of_lookup hu)
      obtain ⟨piece, hpiece⟩ := isSome_iff_exists.mp hdecode
      obtain ⟨e, -, rfl⟩ | ⟨-, -, -, rfl⟩ | ⟨-, -, -, rfl⟩ := step_chunk hu hvalid hpiece hstep
      · exact .inl (lookup_erased.mpr ⟨hne, hn⟩)
      · exact .inl (lookup_inserted.mpr (.inr ⟨hne, hn⟩))
      · exact .inl (lookup_erased.mpr ⟨hne, hn⟩)
  | close =>
    obtain ⟨-, rfl⟩ := step_some.mp hstep
    exact .inr rfl

theorem answer_next (params : UploadChunkParams) {piece : Bytes}
    (hn : s.visitor.uploads.lookup params.upload = some u) (hvalid : params.validate = .ok ())
    (hpiece : decode params.data = some piece) (hoffset : params.offset.toNat = u.written)
    (hroom : u.written + piece.length ≤ u.size) :
    s.visitor.answer decode (.chunk params true true) =
      if u.written + piece.length < u.size then (s.visitor.grown params.upload u piece, .ok .done)
      else (s.visitor.completed params.upload u piece, .ok (.uploaded params.upload u.path)) := by
  simp only [Visitor.answer, hvalid, Visitor.chunk, hn, hpiece]
  rw [if_neg (by simpa using hoffset), if_neg (Nat.not_lt.mpr hroom)]
  rfl

theorem step_visitor {ask : Ask} (hstep : s.step decode ask = some s') :
    s'.visitor = (s.visitor.answer decode ask).1 := by
  obtain ⟨-, rfl⟩ := step_some.mp hstep
  generalize s.visitor.answer decode ask = answered
  unfold hear
  split <;> rfl

theorem answer_sent {bytes : Bytes} {offset : Nat} {path : String} (hsome : offset < bytes.length)
    (hmost : bytes.length ≤ MAX_UPLOAD) {piece : Bytes}
    (hpiece : piece = (bytes.drop offset).take MAX_UPLOAD_CHUNK)
    (hdecode : decode (base64 piece) = some piece)
    (hn : s.visitor.uploads.lookup n = some ⟨path, bytes.length, offset⟩) :
    piece.length = min MAX_UPLOAD_CHUNK (bytes.length - offset) ∧
    s.visitor.answer decode (.chunk (sending n (offset, piece)) true true) =
      if offset + MAX_UPLOAD_CHUNK < bytes.length then
        (s.visitor.grown n ⟨path, bytes.length, offset⟩ piece, .ok .done)
      else (s.visitor.completed n ⟨path, bytes.length, offset⟩ piece, .ok (.uploaded n path)) := by
  have hlength : piece.length = min MAX_UPLOAD_CHUNK (bytes.length - offset) := by
    rw [hpiece, length_take, length_drop]
  have hchunk : 0 < MAX_UPLOAD_CHUNK := by decide
  have hoffset : (UInt64.ofNat offset).toNat = offset := by
    refine UInt64.toNat_ofNat_of_lt' (hsome.trans_le (hmost.trans ?_))
    decide
  have hvalid : (sending n (offset, piece)).validate = .ok () := by
    refine sending_valid (List.ne_nil_of_length_pos ?_) ?_ <;> (show _ ; dsimp only; omega)
  refine ⟨hlength, (answer_next (sending n (offset, piece)) hn hvalid hdecode hoffset
    (by dsimp only; omega)).trans ?_⟩
  exact if_congr (by dsimp only; omega) rfl rfl

/-- **What the client sends is accepted.** All pieces but the last are taken, and the last ends
    the upload. -/
theorem sent_answers {bytes : Bytes} {offset : Nat} {path : String} (hsome : offset < bytes.length)
    (hmost : bytes.length ≤ MAX_UPLOAD)
    (hdecode : ∀ piece ∈ pieces bytes offset, decode (base64 piece.2) = some piece.2)
    (hn : s.visitor.uploads.lookup n = some ⟨path, bytes.length, offset⟩) (hkept : Kept s)
    (hrun : run (step decode) s asks = some s')
    (hcareful : Meets (step decode) (Careful decode) s asks)
    (hsent : asks.filter (Ask.isOf n) =
      (pieces bytes offset).map fun piece => .chunk (sending n piece) true true) :
    answersTo decode n s asks =
      List.replicate ((pieces bytes offset).length - 1) (.ok .done) ++ [.ok (.uploaded n path)] := by
  induction asks generalizing s offset with
  | nil => exact absurd (map_eq_nil_iff.mp hsent.symm) (pieces_ne_nil hsome)
  | cons ask asks ih =>
    obtain ⟨s₁, hstep, hlater⟩ := run_cons.mp hrun
    obtain ⟨hask, hcareful⟩ := hcareful
    replace hcareful := hcareful s₁ hstep
    have hkept₁ := hkept.step hask hstep
    unfold answersTo
    simp only [hstep]
    cases hof : ask.isOf n with
    | false =>
      rw [filter_cons_of_neg (by simp [hof])] at hsent
      obtain hn | hshut := step_other hask hstep hof (hkept.numbered n (mem_of_lookup hn)) hn
      · exact ih hsome hdecode hn hkept₁ hlater hcareful hsent
      · cases asks with
        | nil => exact absurd (map_eq_nil_iff.mp hsent.symm) (pieces_ne_nil hsome)
        | cons ask asks =>
          obtain ⟨s₂, hstep, -⟩ := run_cons.mp hlater
          have hopen := (Bool.and_eq_true_iff.mp (step_some.mp hstep).1).1
          exact absurd (hopen.symm.trans hshut) nofun
    | true =>
      rw [pieces, if_pos hsome] at hsent hdecode ⊢
      rw [filter_cons_of_pos hof, map_cons, List.cons.injEq] at hsent
      obtain ⟨rfl, hsent⟩ := hsent
      obtain ⟨hpiece, hdecode⟩ := forall_mem_cons.mp hdecode
      obtain ⟨hlength, hanswer⟩ := answer_sent hsome hmost rfl hpiece hn
      have hvisitor := step_visitor hstep
      rw [hanswer] at hvisitor ⊢
      by_cases hlast : offset + MAX_UPLOAD_CHUNK < bytes.length
      · rw [if_pos hlast] at hvisitor ⊢
        have hn₁ : s₁.visitor.uploads.lookup n =
            some ⟨path, bytes.length, offset + MAX_UPLOAD_CHUNK⟩ := by
          rw [hvisitor, Visitor.grown, AList.lookup_insert, hlength, Nat.min_eq_left (by omega)]
        have hcount := length_pos_iff.mpr (pieces_ne_nil hlast)
        rw [if_pos rfl, ih hlast hdecode hn₁ hkept₁ hlater hcareful hsent, length_cons,
          Nat.add_sub_cancel, ← Nat.sub_add_cancel hcount, Nat.add_sub_cancel,
          replicate_succ, cons_append]
      · rw [if_neg hlast]
        rw [pieces, if_neg hlast] at hsent ⊢
        rw [if_pos rfl, answersTo_none hsent]
        rfl

end Channel

section
open Channel

/-- **Uploads in every careful run of a channel.** At most `MAX_UPLOADS` are under way, and every
    file is of one of them or was finished; none but those once the channel is closed. A piece of
    one is answered `uploaded` exactly if it is accepted and what was accepted is what was said,
    and that is the file then; if it is refused the upload ends, and its file with it. A number
    that ended is never taken again. All that the client sends of a file is accepted. -/
theorem uploads_kept (decode : String → Option Bytes) {asks : List Ask} {s : Channel}
    (hcareful : Meets (step decode) (Careful decode) .new asks)
    (hrun : run (step decode) .new asks = some s) :
    s.visitor.uploads.entries.length ≤ MAX_UPLOADS ∧
    (∀ path, s.visitor.files path ≠ none → path ∈ s.finished ∨
      s.isOpen = true ∧ ∃ n u, s.visitor.uploads.lookup n = some u ∧ u.path = path) ∧
    (∀ params kept synced s' u, s.visitor.uploads.lookup params.upload = some u →
      s.Careful decode (.chunk params kept synced) →
      s.step decode (.chunk params kept synced) = some s' →
      let answer := (s.visitor.answer decode (.chunk params kept synced)).2
      ((∃ path, answer = .ok (.uploaded params.upload path)) ↔
        (∃ reply, answer = .ok reply) ∧ Tiles 0 (s'.taken params.upload) (s'.said params.upload)) ∧
      (∀ path, answer = .ok (.uploaded params.upload path) → path = u.path ∧
        s'.visitor.files path = some (joined (s'.taken params.upload))) ∧
      (∀ e, answer = .error e →
        params.upload ∉ s'.visitor.uploads ∧ s'.visitor.files u.path = none)) ∧
    (∀ n, place n < s.visitor.begun → n ∉ s.visitor.uploads → ∀ later s',
      Meets (step decode) (Careful decode) s later → run (step decode) s later = some s' →
      ∀ params kept synced, params.upload = n →
        ∃ e, (s'.visitor.answer decode (.chunk params kept synced)).2 = .error e) ∧
    (∀ bytes n path, 1 ≤ bytes.length → bytes.length ≤ MAX_UPLOAD →
      (∀ piece ∈ pieces bytes 0, decode (base64 piece.2) = some piece.2) →
      s.visitor.uploads.lookup n = some ⟨path, bytes.length, 0⟩ → ∀ later s',
      Meets (step decode) (Careful decode) s later → run (step decode) s later = some s' →
      later.filter (Ask.isOf n) =
        ((pieces bytes 0).map fun piece => .chunk (sending n piece) true true) →
      answersTo decode n s later =
        List.replicate ((pieces bytes 0).length - 1) (.ok .done) ++ [.ok (.uploaded n path)]) := by
  have hkept : Kept s :=
    hcareful.invariant (fun _ _ _ h hask hstep => h.step hask hstep) hrun kept_new
  refine ⟨hkept.few, ?_, ?_, ?_, ?_⟩
  · intro path hpath
    refine (hkept.left path hpath).imp id fun hopen => ⟨?_, hopen⟩
    obtain ⟨n, u, hn, -⟩ := hopen
    by_contra hshut
    rw [hkept.shut (Bool.eq_false_iff.mpr hshut)] at hn
    cases hn
  · intro params kept synced s' u hn hask hstep
    obtain ⟨hvalid, hdecode⟩ := hask (mem_of_lookup hn)
    obtain ⟨piece, hpiece⟩ := isSome_iff_exists.mp hdecode
    obtain ⟨htiles, hfile, -⟩ := hkept.taken _ u hn
    have hsaid := (hkept.said _ u hn).1
    have htaken : Tiles 0 (s.taking params.upload u piece params.upload)
        (u.written + piece.length) := by
      rw [taking, update_self]
      exact htiles.snoc piece
    obtain ⟨e, hanswer, rfl⟩ | ⟨-, hroom, hanswer, rfl⟩ | ⟨-, hroom, hanswer, rfl⟩ :=
      step_chunk hn hvalid hpiece hstep <;> simp only [hanswer]
    · refine ⟨by simp, (fun _ h => by cases h), fun _ _ => ⟨fun hin => ?_, ?_⟩⟩
      · exact (AList.mem_erase.mp hin).1 rfl
      · exact update_self ..
    · refine ⟨⟨(fun h => by cases h.choose_spec), fun hwhole => ?_⟩, (fun _ h => by cases h),
        fun _ h => by cases h⟩
      have hsame := htaken.unique hwhole.2
      rw [← hsaid] at hsame
      exact absurd hsame hroom.ne
    · refine ⟨⟨fun _ => ⟨⟨_, rfl⟩, ?_⟩, fun _ => ⟨_, rfl⟩⟩, ?_, fun _ h => by cases h⟩
      · rw [← hsaid, ← hroom]
        exact htaken
      · rintro path ⟨⟩
        refine ⟨rfl, (update_self ..).trans ?_⟩
        rw [hfile, taking, update_self, joined_snoc, map_some]
  · rintro n hbegun hn later s' hcareful hrun params kept synced rfl
    exact (step_stray (run_ended hcareful hrun hbegun hn).2).1
  · intro bytes n path hsome hmost hdecode hn later s' hcareful hrun hsent
    exact sent_answers hsome hmost hdecode hn hkept hrun hcareful hsent

def oneByte (data : String) : Option Bytes := if data = "QQ==" then some [0x41] else none

def beginning : Ask := .begin ⟨⟨"w1", by decide⟩, "a.txt", 1⟩ (some "/uploads/a.txt") []

theorem uploads_kept_one : ∃ s, run (step oneByte) .new [beginning] = some s ∧
    answersTo oneByte 1 s [.chunk (sending 1 (0, [0x41])) true true] =
      [.ok (.uploaded 1 "/uploads/a.txt")] := by
  have hpieces : pieces [0x41] 0 = [(0, [0x41])] := by simp [pieces, MAX_UPLOAD_CHUNK]
  have hcareful : Meets (step oneByte) (Careful oneByte) .new [beginning] :=
    And.intro ⟨by decide, by simp [Channel.new, Visitor.new]⟩ fun _ _ => trivial
  refine ⟨_, rfl, ?_⟩
  have hkept := (uploads_kept oneByte hcareful rfl).2.2.2.2 [0x41] 1 "/uploads/a.txt"
    (by decide) (by decide)
  rw [hpieces] at hkept
  refine hkept (by simp; decide +kernel) rfl _ _ (And.intro ?_ fun _ _ => trivial) rfl rfl
  exact fun _ => ⟨rfl, by decide +kernel⟩

/-- A piece that is not base64 is refused, and its upload stays under way with its file: the next
    piece is taken. -/
theorem malformed_piece_stays : ∃ s s' e, run (step oneByte) .new [beginning] = some s ∧
    s.step oneByte (.chunk ⟨1, 0, "QR=="⟩ true true) = some s' ∧
    (s.visitor.answer oneByte (.chunk ⟨1, 0, "QR=="⟩ true true)).2 = .error e ∧
    1 ∈ s'.visitor.uploads ∧ s'.visitor.files "/uploads/a.txt" = some [] ∧
    (s'.visitor.answer oneByte (.chunk ⟨1, 0, "QQ=="⟩ true true)).2 =
      .ok (.uploaded 1 "/uploads/a.txt") := by
  refine ⟨_, _, _, rfl, rfl, rfl, ?_, rfl, rfl⟩
  decide

end

end Yardsort.Remote.Uploads
