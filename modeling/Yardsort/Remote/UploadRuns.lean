import Yardsort.Remote.Uploads

/- What a run of requests keeps of a channel's uploads. Beside the host's own state stands what a
   device could know: the size it said of each upload and the pieces of it that were accepted.

   A piece that is not base64 is the one refusal that leaves its upload under way
   (`malformed_piece_stays`), so the results are about runs without one (`Careful`). -/
namespace Yardsort.Remote.Uploads
open Yardsort.Lib

def Tiles : Nat → List (Nat × Bytes) → Nat → Prop
  | lo, [], hi => lo = hi
  | lo, (at', piece) :: rest, hi => at' = lo ∧ Tiles (lo + piece.length) rest hi

def joined (pieces : List (Nat × Bytes)) : Bytes := pieces.flatMap Prod.snd

theorem Tiles.snoc {lo hi : Nat} {pieces : List (Nat × Bytes)} (h : Tiles lo pieces hi)
    (piece : Bytes) : Tiles lo (pieces ++ [(hi, piece)]) (hi + piece.length) := by
  induction pieces generalizing lo with
  | nil =>
    obtain rfl := h
    exact ⟨rfl, rfl⟩
  | cons first rest ih => exact ⟨h.1, ih h.2⟩

theorem Tiles.unique {lo hi hi' : Nat} {pieces : List (Nat × Bytes)} (h : Tiles lo pieces hi)
    (h' : Tiles lo pieces hi') : hi = hi' := by
  induction pieces generalizing lo with
  | nil => exact h.symm.trans h'
  | cons first rest ih => exact ih h.2 h'.2

theorem joined_snoc (pieces : List (Nat × Bytes)) (at' : Nat) (piece : Bytes) :
    joined (pieces ++ [(at', piece)]) = joined pieces ++ piece := by
  simp [joined]

structure Channel where
  visitor : Visitor
  isOpen : Bool
  /-- The size said of each upload. -/
  said : UInt32 → Nat
  /-- The pieces of it that were accepted: where each begins, and its bytes. -/
  taken : UInt32 → List (Nat × Bytes)
  /-- The paths answered, while no other file is made there. -/
  finished : List String

namespace Channel

def new : Channel := ⟨.new, true, fun _ => 0, fun _ => [], []⟩

variable (decode : String → Option Bytes)

def hear (s : Channel) : Ask → Visitor × Answer Reply → Channel
  | .begin params path _, (visitor, .ok (.upload n)) =>
    { s with
      visitor
      finished := s.finished.filter (some · ≠ path)
      said := Function.update s.said n params.size.toNat
      taken := Function.update s.taken n [] }
  | .chunk params _ _, (visitor, .ok reply) =>
    let piece := (params.offset.toNat, (decode params.data).getD [])
    { s with
      visitor
      taken := Function.update s.taken params.upload (s.taken params.upload ++ [piece])
      finished := match reply with
        | .uploaded _ path => path :: s.finished
        | _ => s.finished }
  | .close, (visitor, _) => { s with visitor, isOpen := false }
  | _, (visitor, _) => { s with visitor }

/-- A file is made where there is none. -/
def possible (s : Channel) : Ask → Bool
  | .begin _ (some path) forgotten => ((s.visitor.forget forgotten).files path).isNone
  | _ => true

def step (s : Channel) (ask : Ask) : Option Channel :=
  if s.isOpen && s.possible ask then some (s.hear decode ask (s.visitor.answer decode ask)) else none

/-- There are numbers left and no file of an upload under way is forgotten; a piece of one is well
    formed. -/
def Careful (s : Channel) : Ask → Prop
  | .begin _ _ forgotten => s.visitor.begun < 2 ^ 32 ∧
      ∀ n u, s.visitor.uploads.lookup n = some u → u.path ∉ forgotten
  | .chunk params _ _ => params.upload ∈ s.visitor.uploads →
      params.validate = .ok () ∧ (decode params.data).isSome = true
  | .close => True

/-- What is so of every upload under way, and of every file. -/
structure Kept (s : Channel) : Prop where
  few : s.visitor.uploads.entries.length ≤ MAX_UPLOADS
  numbers : s.visitor.begun ≤ 2 ^ 32
  numbered : ∀ n ∈ s.visitor.uploads, place n < s.visitor.begun
  said : ∀ n u, s.visitor.uploads.lookup n = some u → u.size = s.said n ∧ u.written < u.size
  taken : ∀ n u, s.visitor.uploads.lookup n = some u → Tiles 0 (s.taken n) u.written ∧
    s.visitor.files u.path = some (joined (s.taken n)) ∧ u.path ∉ s.finished
  apart : ∀ n m u w, s.visitor.uploads.lookup n = some u → s.visitor.uploads.lookup m = some w →
    u.path = w.path → n = m
  left : ∀ path, s.visitor.files path ≠ none → path ∈ s.finished ∨
    ∃ n u, s.visitor.uploads.lookup n = some u ∧ u.path = path
  shut : s.isOpen = false → s.visitor.uploads = ∅

theorem kept_new : Kept .new where
  few := Nat.zero_le _
  numbers := Nat.zero_le _
  numbered n hn := by simp [new, Visitor.new] at hn
  said n u hn := by simp [new, Visitor.new] at hn
  taken n u hn := by simp [new, Visitor.new] at hn
  apart n m u w hn := by simp [new, Visitor.new] at hn
  left path hpath := by simp [new, Visitor.new] at hpath
  shut _ := rfl

end Channel

def Visitor.grown (v : Visitor) (n : UInt32) (u : Uploading) (piece : Bytes) : Visitor :=
  { v with
    uploads := v.uploads.insert n { u with written := u.written + piece.length }
    files := Function.update v.files u.path ((v.files u.path).map (· ++ piece)) }

def Visitor.completed (v : Visitor) (n : UInt32) (u : Uploading) (piece : Bytes) : Visitor :=
  { v with
    uploads := v.uploads.erase n
    files := Function.update v.files u.path ((v.files u.path).map (· ++ piece)) }

def Channel.taking (s : Channel) (n : UInt32) (u : Uploading) (piece : Bytes) :
    UInt32 → List (Nat × Bytes) :=
  Function.update s.taken n (s.taken n ++ [(u.written, piece)])

def Channel.started (s : Channel) (path : String) (size : Nat) : Channel :=
  let n := UInt32.ofNat (s.visitor.begun + 1)
  { s with
    visitor := {
      uploads := s.visitor.uploads.insert n ⟨path, size, 0⟩
      begun := s.visitor.begun + 1
      files := Function.update s.visitor.files path (some []) }
    said := Function.update s.said n size
    taken := Function.update s.taken n []
    finished := s.finished.filter (some · ≠ some path) }

section
variable {decode : String → Option Bytes} {v : Visitor} {params : UploadChunkParams} {u : Uploading}
  {piece : Bytes} {kept synced : Bool}

theorem Visitor.chunk_cases (kept synced : Bool)
    (hn : v.uploads.lookup params.upload = some u)
    (hpiece : decode params.data = some piece) :
    (∃ e, v.chunk decode params kept synced = (v.abandon params.upload u, .error e)) ∨
      (params.offset.toNat = u.written ∧ u.written + piece.length < u.size ∧
        v.chunk decode params kept synced = (v.grown params.upload u piece, .ok .done)) ∨
      (params.offset.toNat = u.written ∧ u.written + piece.length = u.size ∧
        v.chunk decode params kept synced =
          (v.completed params.upload u piece, .ok (.uploaded params.upload u.path))) := by
  unfold Visitor.chunk
  simp only [hn, hpiece]
  split
  · exact .inl ⟨_, rfl⟩
  rename_i hoffset
  rw [not_not] at hoffset
  split
  · exact .inl ⟨_, rfl⟩
  rename_i hroom
  split
  · exact .inl ⟨_, rfl⟩
  split
  · rename_i hpart
    exact .inr (.inl ⟨hoffset, hpart, rfl⟩)
  rename_i hwhole
  split
  · exact .inr (.inr ⟨hoffset, by omega, rfl⟩)
  · exact .inl ⟨_, rfl⟩

end

/-! ## What a step keeps -/

section
variable {uploads : AList fun _ : UInt32 => Uploading} {n m : UInt32} {u w : Uploading}

theorem lookup_erased : (uploads.erase n).lookup m = some w ↔ m ≠ n ∧ uploads.lookup m = some w := by
  by_cases hm : m = n
  · subst hm
    simp [AList.lookup_erase]
  · simp [AList.lookup_erase_ne hm, hm]

theorem lookup_inserted : (uploads.insert n u).lookup m = some w ↔
    m = n ∧ u = w ∨ m ≠ n ∧ uploads.lookup m = some w := by
  by_cases hm : m = n
  · subst hm
    simp [AList.lookup_insert]
  · simp [AList.lookup_insert_ne hm, hm]

theorem length_erased : (uploads.erase n).entries.length ≤ uploads.entries.length :=
  (List.kerase_sublist n uploads.entries).length_le

theorem length_inserted : (uploads.insert n u).entries.length ≤ uploads.entries.length + 1 :=
  Nat.succ_le_succ length_erased

theorem length_replaced (hn : n ∈ uploads) :
    (uploads.insert n u).entries.length = uploads.entries.length := by
  have hkeys : n ∈ uploads.keys := hn
  have hlength := List.length_erase_add_one hkeys
  have hsize : ∀ v : AList fun _ : UInt32 => Uploading, v.entries.length = v.keys.length :=
    fun v => (length_map ..).symm
  rw [hsize, hsize, AList.keys_insert, length_cons, hlength]

theorem mem_of_lookup (hn : uploads.lookup n = some u) : n ∈ uploads :=
  AList.lookup_isSome.mp (by rw [hn]; rfl)

end

namespace Channel
variable {decode : String → Option Bytes} {s s' : Channel} {n : UInt32} {u : Uploading}

theorem Kept.abandon (h : Kept s) (hn : s.visitor.uploads.lookup n = some u) :
    Kept { s with visitor := s.visitor.abandon n u } where
  few := length_erased.trans h.few
  numbers := h.numbers
  numbered m hm := h.numbered m (AList.mem_erase.mp hm).2
  said m w hm := h.said m w (lookup_erased.mp hm).2
  taken m w hm := by
    obtain ⟨hne, hlookup⟩ := lookup_erased.mp hm
    obtain ⟨htiles, hfile, hopen⟩ := h.taken m w hlookup
    refine ⟨htiles, ?_, hopen⟩
    have hpath : w.path ≠ u.path := fun hpath => hne (h.apart m n w u hlookup hn hpath)
    rw [← hfile]
    exact update_of_ne hpath ..
  apart m k w x hm hk := h.apart m k w x (lookup_erased.mp hm).2 (lookup_erased.mp hk).2
  left path hpath := by
    by_cases heq : path = u.path
    · exact absurd (heq ▸ update_self ..) hpath
    · have hold : s.visitor.files path ≠ none := by
        intro hnone
        exact hpath ((update_of_ne heq ..).trans hnone)
      obtain hdone | ⟨m, w, hm, rfl⟩ := h.left path hold
      · exact .inl hdone
      · refine .inr ⟨m, w, lookup_erased.mpr ⟨?_, hm⟩, rfl⟩
        rintro rfl
        rw [hn, Option.some.injEq] at hm
        exact heq (hm ▸ rfl)
  shut hshut := by
    rw [show (s.visitor.abandon n u).uploads = s.visitor.uploads.erase n from rfl,
      h.shut hshut]
    rfl

theorem Kept.forget (h : Kept s) {forgotten : List String}
    (hopen : ∀ n u, s.visitor.uploads.lookup n = some u → u.path ∉ forgotten) :
    Kept { s with visitor := s.visitor.forget forgotten } where
  few := h.few
  numbers := h.numbers
  numbered := h.numbered
  said := h.said
  taken m w hm := by
    obtain ⟨htiles, hfile, hnot⟩ := h.taken m w hm
    exact ⟨htiles, (if_neg (hopen m w hm)).trans hfile, hnot⟩
  apart := h.apart
  left path hpath := by
    refine h.left path fun hnone => hpath ?_
    simp [Visitor.forget, hnone]
  shut := h.shut

theorem Kept.begun (h : Kept s) {path : String} {size : Nat} (hsize : 0 < size)
    (hopen : s.isOpen = true) (hfew : s.visitor.uploads.entries.length < MAX_UPLOADS)
    (hnumber : s.visitor.begun < 2 ^ 32) (hfree : s.visitor.files path = none) :
    Kept (s.started path size) := by
  unfold started
  have hnat := place_number hnumber
  generalize UInt32.ofNat (s.visitor.begun + 1) = n at hnat ⊢
  have hother : ∀ {m w}, s.visitor.uploads.lookup m = some w → w.path ≠ path := by
    rintro m w hm rfl
    have hfile := (h.taken m w hm).2.1
    rw [hfree] at hfile
    cases hfile
  constructor
  case few => exact length_inserted.trans hfew
  case numbers => exact hnumber
  case numbered =>
    intro m hm
    obtain rfl | hm := (AList.mem_insert _).mp hm
    · exact Nat.lt_succ_of_le hnat.le
    · exact Nat.lt_succ_of_lt (h.numbered m hm)
  case said =>
    intro m w hm
    obtain ⟨rfl, rfl⟩ | ⟨hne, hm⟩ := lookup_inserted.mp hm
    · exact ⟨by simp, hsize⟩
    · exact ⟨(h.said m w hm).1.trans (update_of_ne hne ..).symm, (h.said m w hm).2⟩
  case taken =>
    intro m w hm
    obtain ⟨rfl, rfl⟩ | ⟨hne, hm⟩ := lookup_inserted.mp hm
    · simp [Tiles, joined]
    · obtain ⟨htiles, hfile, hnot⟩ := h.taken m w hm
      simp only [update_of_ne hne, update_of_ne (hother hm)]
      exact ⟨htiles, hfile, fun hin => hnot (mem_filter.mp hin).1⟩
  case apart =>
    intro m k w x hm hk hpath
    obtain ⟨hmn, hw⟩ | ⟨-, hm⟩ := lookup_inserted.mp hm <;>
      obtain ⟨hkn, hx⟩ | ⟨-, hk⟩ := lookup_inserted.mp hk
    · rw [hmn, hkn]
    · exact absurd (by rw [← hpath, ← hw]) (hother hk)
    · exact absurd (by rw [hpath, ← hx]) (hother hm)
    · exact h.apart m k w x hm hk hpath
  case left =>
    intro other hfile
    by_cases heq : other = path
    · exact .inr ⟨n, _, AList.lookup_insert .., heq.symm⟩
    · obtain hdone | ⟨m, w, hm, hw⟩ := h.left other (by simpa [heq] using hfile)
      · exact .inl (mem_filter.mpr ⟨hdone, by simpa using heq⟩)
      · refine .inr ⟨m, w, lookup_inserted.mpr (.inr ⟨?_, hm⟩), hw⟩
        rintro rfl
        exact absurd (h.numbered _ (mem_of_lookup hm)) (by omega)
  case shut => exact fun hshut => absurd (hopen.symm.trans hshut) nofun

theorem Kept.more (h : Kept s) (hn : s.visitor.uploads.lookup n = some u) {piece : Bytes}
    (hroom : u.written + piece.length < u.size) :
    Kept { s with visitor := s.visitor.grown n u piece, taken := s.taking n u piece } := by
  unfold Visitor.grown taking
  obtain ⟨htiles, hfile, hnot⟩ := h.taken n u hn
  constructor
  case few => exact (length_replaced (mem_of_lookup hn)).le.trans h.few
  case numbers => exact h.numbers
  case numbered =>
    intro m hm
    obtain rfl | hm := (AList.mem_insert _).mp hm
    · exact h.numbered _ (mem_of_lookup hn)
    · exact h.numbered m hm
  case said =>
    intro m w hm
    obtain ⟨rfl, rfl⟩ | ⟨-, hm⟩ := lookup_inserted.mp hm
    · exact ⟨(h.said _ u hn).1, hroom⟩
    · exact h.said m w hm
  case taken =>
    intro m w hm
    obtain ⟨rfl, rfl⟩ | ⟨hne, hm⟩ := lookup_inserted.mp hm
    · simp only [update_self, hfile, map_some, joined_snoc]
      exact ⟨htiles.snoc piece, trivial, hnot⟩
    · have hpath : w.path ≠ u.path := fun hpath => hne (h.apart m n w u hm hn hpath)
      simp only [update_of_ne hne, update_of_ne hpath]
      exact h.taken m w hm
  case apart =>
    intro m k w x hm hk hpath
    obtain ⟨hmn, hw⟩ | ⟨-, hm⟩ := lookup_inserted.mp hm <;>
      obtain ⟨hkn, hx⟩ | ⟨-, hk⟩ := lookup_inserted.mp hk
    · rw [hmn, hkn]
    · exact hmn.trans (h.apart n k u x hn hk (by rw [← hpath, ← hw]))
    · exact (h.apart m n w u hm hn (by rw [hpath, ← hx])).trans hkn.symm
    · exact h.apart m k w x hm hk hpath
  case left =>
    intro path hpath
    by_cases heq : path = u.path
    · exact .inr ⟨n, _, AList.lookup_insert .., heq.symm⟩
    · obtain hdone | ⟨m, w, hm, hw⟩ := h.left path (by simpa [heq] using hpath)
      · exact .inl hdone
      · refine .inr ⟨m, w, lookup_inserted.mpr (.inr ⟨?_, hm⟩), hw⟩
        rintro rfl
        rw [hn, Option.some.injEq] at hm
        exact heq (hm ▸ hw.symm)
  case shut =>
    intro hshut
    rw [show s.visitor.uploads = ∅ from h.shut hshut] at hn
    cases hn

theorem Kept.whole (h : Kept s) (hn : s.visitor.uploads.lookup n = some u) (piece : Bytes) :
    Kept { s with
      visitor := s.visitor.completed n u piece
      taken := s.taking n u piece
      finished := u.path :: s.finished } := by
  unfold Visitor.completed taking
  constructor
  case few => exact length_erased.trans h.few
  case numbers => exact h.numbers
  case numbered => exact fun m hm => h.numbered m (AList.mem_erase.mp hm).2
  case said => exact fun m w hm => h.said m w (lookup_erased.mp hm).2
  case taken =>
    intro m w hm
    obtain ⟨hne, hm⟩ := lookup_erased.mp hm
    have hpath : w.path ≠ u.path := fun hpath => hne (h.apart m n w u hm hn hpath)
    obtain ⟨htiles, hfile, hnot⟩ := h.taken m w hm
    simp only [update_of_ne hne, update_of_ne hpath]
    exact ⟨htiles, hfile, List.not_mem_cons_of_ne_of_not_mem hpath hnot⟩
  case apart =>
    exact fun m k w x hm hk => h.apart m k w x (lookup_erased.mp hm).2 (lookup_erased.mp hk).2
  case left =>
    intro path hpath
    by_cases heq : path = u.path
    · exact .inl (heq ▸ mem_cons_self)
    · obtain hdone | ⟨m, w, hm, hw⟩ := h.left path (by simpa [heq] using hpath)
      · exact .inl (mem_cons_of_mem _ hdone)
      · refine .inr ⟨m, w, lookup_erased.mpr ⟨?_, hm⟩, hw⟩
        rintro rfl
        rw [hn, Option.some.injEq] at hm
        exact heq (hm ▸ hw.symm)
  case shut =>
    intro hshut
    rw [show s.visitor.uploads = ∅ from h.shut hshut] at hn
    cases hn

theorem Kept.close (h : Kept s) : Kept { s with visitor := s.visitor.close, isOpen := false } where
  few := Nat.zero_le _
  numbers := h.numbers
  numbered m hm := absurd hm (AList.notMem_empty m)
  said m w hm := nomatch hm
  taken m w hm := nomatch hm
  apart m k w x hm := nomatch hm
  left path hpath := by
    simp only [Visitor.close, ne_eq, ite_eq_left_iff, not_forall] at hpath
    obtain ⟨hgone, hfile⟩ := hpath
    obtain hdone | ⟨m, w, hm, rfl⟩ := h.left path hfile
    · exact .inl hdone
    · refine absurd (List.any_eq_true.mpr ⟨⟨m, w⟩, ?_, by simp⟩) hgone
      exact AList.mem_lookup_iff.mp hm
  shut _ := rfl

theorem step_some {ask : Ask} : s.step decode ask = some s' ↔
    (s.isOpen && s.possible ask) = true ∧ s.hear decode ask (s.visitor.answer decode ask) = s' := by
  simp only [step, ite_none_right_eq_some, Option.some.injEq]

section
variable {params : UploadChunkParams} {kept synced : Bool} {piece : Bytes}

theorem step_chunk (hn : s.visitor.uploads.lookup params.upload = some u)
    (hvalid : params.validate = .ok ()) (hpiece : decode params.data = some piece)
    (hstep : s.step decode (.chunk params kept synced) = some s') :
    (∃ e, (s.visitor.answer decode (.chunk params kept synced)).2 = .error e ∧
        s' = { s with visitor := s.visitor.abandon params.upload u }) ∨
      (params.offset.toNat = u.written ∧ u.written + piece.length < u.size ∧
        (s.visitor.answer decode (.chunk params kept synced)).2 = .ok .done ∧
        s' = { s with
          visitor := s.visitor.grown params.upload u piece
          taken := s.taking params.upload u piece }) ∨
      (params.offset.toNat = u.written ∧ u.written + piece.length = u.size ∧
        (s.visitor.answer decode (.chunk params kept synced)).2 =
          .ok (.uploaded params.upload u.path) ∧
        s' = { s with
          visitor := s.visitor.completed params.upload u piece
          taken := s.taking params.upload u piece
          finished := u.path :: s.finished }) := by
  obtain ⟨-, rfl⟩ := step_some.mp hstep
  have hanswer : s.visitor.answer decode (.chunk params kept synced) =
      s.visitor.chunk decode params kept synced := by
    simp only [Visitor.answer, hvalid]
  rw [hanswer]
  obtain ⟨e, hchunk⟩ | ⟨hoffset, hroom, hchunk⟩ | ⟨hoffset, hroom, hchunk⟩ :=
    Visitor.chunk_cases kept synced hn hpiece <;> rw [hchunk]
  · exact .inl ⟨e, rfl, rfl⟩
  · refine .inr (.inl ⟨hoffset, hroom, rfl, ?_⟩)
    simp only [hear, hpiece, getD_some, hoffset, taking]
  · refine .inr (.inr ⟨hoffset, hroom, rfl, ?_⟩)
    simp only [hear, hpiece, getD_some, hoffset, taking]

theorem step_stray (hn : params.upload ∉ s.visitor.uploads) :
    (∃ e, (s.visitor.answer decode (.chunk params kept synced)).2 = .error e) ∧
      ∀ s', s.step decode (.chunk params kept synced) = some s' → s' = s := by
  have hanswer : ∃ e, s.visitor.answer decode (.chunk params kept synced) =
      (s.visitor, .error e) := by
    simp only [Visitor.answer]
    split
    · exact ⟨_, rfl⟩
    · exact ⟨.notFound, by simp only [Visitor.chunk, AList.lookup_eq_none.mpr hn]⟩
  obtain ⟨e, hanswer⟩ := hanswer
  refine ⟨⟨e, by rw [hanswer]⟩, fun s' hstep => ?_⟩
  obtain ⟨-, rfl⟩ := step_some.mp hstep
  rw [hanswer]
  rfl

end

theorem step_begin {params : UploadBeginParams} {path : Option String} {forgotten : List String}
    (hstep : s.step decode (.begin params path forgotten) = some s') :
    s' = s ∨ s' = { s with visitor := s.visitor.forget forgotten } ∨
      ∃ made, s.isOpen = true ∧ 0 < params.size.toNat ∧
        s.visitor.uploads.entries.length < MAX_UPLOADS ∧
        (s.visitor.forget forgotten).files made = none ∧
        s' = { s with visitor := s.visitor.forget forgotten }.started made params.size.toNat := by
  obtain ⟨hmay, rfl⟩ := step_some.mp hstep
  obtain ⟨hopen, hmay⟩ := Bool.and_eq_true_iff.mp hmay
  simp only [Visitor.answer]
  split
  · exact .inl rfl
  rename_i hvalid
  have hsize : 0 < params.size.toNat := by
    unfold UploadBeginParams.validate at hvalid
    split at hvalid
    · cases hvalid
    rename_i hbounds
    rw [not_or] at hbounds
    exact Nat.pos_of_ne_zero fun hzero => hbounds.1 (UInt64.toNat_inj.mp hzero)
  unfold Visitor.begin
  split
  · exact .inl rfl
  rename_i hfew
  cases path with
  | none => exact .inr (.inl rfl)
  | some made =>
    exact .inr (.inr ⟨made, hopen, hsize, Nat.lt_of_not_le hfew,
      isNone_iff_eq_none.mp hmay, rfl⟩)

theorem Kept.step (h : Kept s) {ask : Ask} (hcareful : s.Careful decode ask)
    (hstep : s.step decode ask = some s') : Kept s' := by
  cases ask with
  | begin params path forgotten =>
    obtain ⟨hnumber, hunder⟩ := hcareful
    have hforget := h.forget hunder
    obtain rfl | rfl | ⟨made, hopen, hsize, hfew, hfree, rfl⟩ := step_begin hstep
    · exact h
    · exact hforget
    · exact hforget.begun hsize hopen hfew hnumber hfree
  | chunk params kept synced =>
    cases hn : s.visitor.uploads.lookup params.upload with
    | none => exact (step_stray (AList.lookup_eq_none.mp hn)).2 s' hstep ▸ h
    | some u =>
      obtain ⟨hvalid, hdecode⟩ := hcareful (mem_of_lookup hn)
      obtain ⟨piece, hpiece⟩ := isSome_iff_exists.mp hdecode
      obtain ⟨e, -, rfl⟩ | ⟨-, hroom, -, rfl⟩ | ⟨-, -, -, rfl⟩ := step_chunk hn hvalid hpiece hstep
      · exact h.abandon hn
      · exact h.more hn hroom
      · exact h.whole hn piece
  | close =>
    obtain ⟨-, rfl⟩ := step_some.mp hstep
    exact h.close

theorem step_ended {ask : Ask} (hcareful : s.Careful decode ask)
    (hstep : s.step decode ask = some s') (hbegun : place n < s.visitor.begun)
    (hn : n ∉ s.visitor.uploads) : place n < s'.visitor.begun ∧ n ∉ s'.visitor.uploads := by
  cases ask with
  | begin params path forgotten =>
    obtain rfl | rfl | ⟨made, -, -, -, -, rfl⟩ := step_begin hstep
    · exact ⟨hbegun, hn⟩
    · exact ⟨hbegun, hn⟩
    · refine ⟨Nat.lt_succ_of_lt hbegun, fun hin => ?_⟩
      obtain rfl | hin := (AList.mem_insert _).mp hin
      · exact absurd ((place_number hcareful.1).symm.trans_lt hbegun) (lt_irrefl _)
      · exact hn hin
  | chunk params kept synced =>
    cases hu : s.visitor.uploads.lookup params.upload with
    | none => exact (step_stray (AList.lookup_eq_none.mp hu)).2 s' hstep ▸ ⟨hbegun, hn⟩
    | some u =>
      obtain ⟨hvalid, hdecode⟩ := hcareful (mem_of_lookup hu)
      obtain ⟨piece, hpiece⟩ := isSome_iff_exists.mp hdecode
      obtain ⟨e, -, rfl⟩ | ⟨-, -, -, rfl⟩ | ⟨-, -, -, rfl⟩ := step_chunk hu hvalid hpiece hstep
      · exact ⟨hbegun, fun hin => hn (AList.mem_erase.mp hin).2⟩
      · refine ⟨hbegun, fun hin => ?_⟩
        obtain rfl | hin := (AList.mem_insert _).mp hin
        · exact hn (mem_of_lookup hu)
        · exact hn hin
      · exact ⟨hbegun, fun hin => hn (AList.mem_erase.mp hin).2⟩
  | close =>
    obtain ⟨-, rfl⟩ := step_some.mp hstep
    exact ⟨hbegun, AList.notMem_empty n⟩

theorem run_ended {asks : List Ask} (hcareful : Meets (step decode) (Careful decode) s asks)
    (hrun : run (step decode) s asks = some s') (hbegun : place n < s.visitor.begun)
    (hn : n ∉ s.visitor.uploads) : place n < s'.visitor.begun ∧ n ∉ s'.visitor.uploads := by
  have hstep : ∀ (s : Channel) ask (s' : Channel),
      place n < s.visitor.begun ∧ n ∉ s.visitor.uploads → s.Careful decode ask →
      s.step decode ask = some s' → place n < s'.visitor.begun ∧ n ∉ s'.visitor.uploads :=
    fun _ _ _ h hask hstep => step_ended hask hstep h.1 h.2
  exact hcareful.invariant hstep hrun ⟨hbegun, hn⟩

end Channel

end Yardsort.Remote.Uploads
