import Mathlib.Data.Prod.Lex
import Yardsort.Activity.Locate

/- Whose transcripts `locate` gives to whom.

   What it gives to the conversations that have none by an id is what the library's walk takes of
   the pairs, the closest first (`given_iff`), which is the one stable matching of them. A
   conversation whose reported transcripts are all gone is among those, though nobody's transcript
   is its own any more, and a transcript two conversations reported is given to both:
   `locate_sound_iff` says that nothing else goes wrong. -/
namespace Yardsort.Activity.Locate
open Yardsort.Lib Matching

variable {s : Session}

section
variable {τ : Type}

def Pair.key (p : Pair τ) : Int ×ₗ String ×ₗ String := toLex (p.apart, toLex (p.session, p.id))

theorem le_iff {a b : Pair τ} : Pair.le a b = true ↔ a.key ≤ b.key := by
  simp only [Pair.le, Pair.key, Prod.Lex.toLex_le_toLex, Bool.or_eq_true, Bool.and_eq_true,
    decide_eq_true_eq]

def Closer (a b : Pair τ) : Prop := Pair.le a b = true

theorem Closer.apart_le {a b : Pair τ} (h : Closer a b) : a.apart ≤ b.apart := by
  simp only [Closer, Pair.le, Bool.or_eq_true, Bool.and_eq_true, decide_eq_true_eq] at h
  omega

theorem Closer.antisymm (a b : Pair τ) (hab : Closer a b) (hba : Closer b a) :
    a.session = b.session ∧ a.id = b.id := by
  have hkey : a.key = b.key := le_antisymm (le_iff.mp hab) (le_iff.mp hba)
  have hrest := (Prod.mk.inj (toLex.injective hkey)).2
  exact Prod.mk.inj (toLex.injective hrest)

theorem sorted_pairs (ps : List (Pair τ)) : (ps.mergeSort Pair.le).Pairwise Closer := by
  apply List.pairwise_mergeSort
  · intro a b c hab hbc
    exact le_iff.mpr ((le_iff.mp hab).trans (le_iff.mp hbc))
  · intro a b
    simp only [Bool.or_eq_true, le_iff]
    exact le_total _ _

/-! ## What is found -/

def Pair.entry (p : Pair τ) : String × List τ := (p.session, [p.at_])

theorem claim_walk {base : List (String × List τ)} {claimed : List String}
    {ps taken : List (Pair τ)} {f : Found τ} (hfound : f.found = base ++ taken.map Pair.entry)
    (hclaimed : ∀ id, id ∈ f.claimed ↔ id ∈ claimed ∨ ∃ p ∈ taken, p.id = id)
    (hnew : ∀ p ∈ ps, p.session ∉ base.map (·.1) ∧ p.id ∉ claimed) :
    (Found.claim ps f).found = base ++ (walk Pair.session Pair.id taken ps).map Pair.entry := by
  induction ps generalizing taken f with
  | nil => exact hfound
  | cons p ps ih =>
    obtain ⟨hsession, hid⟩ := hnew p (mem_cons_self ..)
    have hnew := fun q hq => hnew q (mem_cons_of_mem _ hq)
    have hcheck : (f.found.any (·.1 = p.session) || p.id ∈ f.claimed) =
        blocked Pair.session Pair.id taken p := by
      rw [Bool.eq_iff_iff, blocked_iff, Bool.or_eq_true, decide_eq_true_eq, hclaimed, hfound,
        List.any_append, Bool.or_eq_true]
      have hbase : base.any (fun entry => decide (entry.1 = p.session)) = false := by
        apply any_eq_false.mpr
        intro entry hentry heq
        exact hsession (of_decide_eq_true heq ▸ mem_map_of_mem hentry)
      simp only [hbase, Bool.false_eq_true, false_or, hid, List.any_map, List.any_eq_true,
        comp_apply, Pair.entry, Matching.Meets]
      constructor
      · rintro (⟨q, hq, heq⟩ | ⟨q, hq, heq⟩)
        · exact ⟨q, hq, .inl (of_decide_eq_true heq)⟩
        · exact ⟨q, hq, .inr heq⟩
      · rintro ⟨q, hq, heq | heq⟩
        · exact .inl ⟨q, hq, decide_eq_true heq⟩
        · exact .inr ⟨q, hq, heq⟩
    rw [Found.claim, walk, hcheck]
    split
    · exact ih hfound hclaimed hnew
    refine ih ?_ ?_ hnew
    · rw [hfound, append_assoc, map_append]
      rfl
    · intro id
      simp only [mem_cons, hclaimed, mem_append, not_mem_nil, or_false]
      constructor
      · rintro (rfl | h | ⟨q, hq, heq⟩)
        · exact .inr ⟨p, .inr rfl, rfl⟩
        · exact .inl h
        · exact .inr ⟨q, .inl hq, heq⟩
      · rintro (h | ⟨q, hq | rfl, heq⟩)
        · exact .inr (.inl h)
        · exact .inr (.inr ⟨q, hq, heq⟩)
        · exact .inl heq.symm

variable {disk : Disk τ} {asked : Asked} {sessions : Conversations}

theorem mem_pairs {rows : List Session} {p : Pair τ} (h : p ∈ pairs disk asked rows) :
    ∃ s ∈ rows, own disk asked s = [] ∧ p.session = s.id ∧ p.id = disk.idOf p.at_ ∧
      (∀ other ∈ rows, disk.idOf p.at_ ∉ asked.reported other.id) ∧
      ∃ startedAt, (startedAt, p.at_) ∈ window disk asked s ∧
        p.apart = (startedAt - s.beganAt).natAbs := by
  obtain ⟨s, hs, hp⟩ := mem_flatMap.mp h
  obtain ⟨⟨startedAt, at_⟩, hentry, hp⟩ := mem_filterMap.mp hp
  dsimp only at hp
  split at hp
  · cases hp
  rename_i hfree
  cases hp
  obtain ⟨hin, hown⟩ := mem_filter.mp hs
  refine ⟨s, hin, isEmpty_iff.mp hown, rfl, rfl, ?_, startedAt, hentry, rfl⟩
  intro other hother hreported
  exact hfree (mem_flatMap.mpr ⟨other, hother, hreported⟩)

theorem pairs_mem {rows : List Session} (hs : s ∈ rows) (hown : own disk asked s = [])
    {startedAt : Int} {at_ : τ} (hentry : (startedAt, at_) ∈ window disk asked s)
    (hfree : ∀ other ∈ rows, disk.idOf at_ ∉ asked.reported other.id) :
    ⟨(startedAt - s.beganAt).natAbs, s.id, disk.idOf at_, at_⟩ ∈ pairs disk asked rows := by
  refine mem_flatMap.mpr ⟨s, mem_filter.mpr ⟨hs, isEmpty_iff.mpr hown⟩, ?_⟩
  refine mem_filterMap.mpr ⟨(startedAt, at_), hentry, ?_⟩
  have hnot : disk.idOf at_ ∉ rows.flatMap fun s => asked.reported s.id := by
    intro hin
    obtain ⟨other, hother, hreported⟩ := mem_flatMap.mp hin
    exact hfree other hother hreported
  dsimp only
  rw [if_neg hnot]

def matched (disk : Disk τ) (asked : Asked) (sessions : Conversations) : List (Pair τ) :=
  walk Pair.session Pair.id [] ((pairs disk asked sessions.rows).mergeSort Pair.le)

theorem matched_stable : Stable Pair.session Pair.id Closer
    ((pairs disk asked sessions.rows).mergeSort Pair.le) (matched disk asked sessions) :=
  walk_stable (fun _ => le_iff.mpr le_rfl) (sorted_pairs _)

theorem mem_matched {p : Pair τ} (h : p ∈ matched disk asked sessions) :
    p ∈ pairs disk asked sessions.rows := mem_mergeSort.mp (matched_stable.part p h)

theorem session_eq {s' : Session} (hs : s ∈ sessions.rows) (hs' : s' ∈ sessions.rows)
    (h : s.id = s'.id) : s = s' := List.inj_on_of_nodup_map sessions.ids hs hs' h

theorem locate_eq : locate disk asked sessions =
    (reportedFound disk asked sessions.rows).found ++
      (matched disk asked sessions).map Pair.entry := by
  refine @claim_walk _ _ (reportedFound disk asked sessions.rows).claimed _ [] _
    (by simp) (by simp) ?_
  intro p hp
  obtain ⟨s, hs, hown, hsession, hid, hfree, -⟩ := mem_pairs (mem_mergeSort.mp hp)
  constructor
  · intro hin
    obtain ⟨entry, hentry, heq⟩ := mem_map.mp hin
    obtain ⟨s', hs', rfl⟩ := mem_map.mp hentry
    obtain ⟨hs', hown'⟩ := mem_filter.mp hs'
    rw [session_eq hs' hs (heq.trans hsession), hown] at hown'
    cases hown'
  · intro hin
    obtain ⟨other, hother, hreported⟩ := mem_flatMap.mp hin
    exact hfree other hother (hid ▸ hreported)

theorem given_own (hs : s ∈ sessions.rows) (hown : own disk asked s ≠ []) :
    given disk asked sessions s = own disk asked s := by
  have hnodup : ((reportedFound disk asked sessions.rows).found.map (·.1)).Nodup := by
    rw [reportedFound, map_map]
    exact sessions.ids.sublist ((filter_sublist).map _)
  have hin : (s.id, own disk asked s) ∈ (reportedFound disk asked sessions.rows).found :=
    mem_map.mpr ⟨s, mem_filter.mpr ⟨hs, by simpa using hown⟩, rfl⟩
  rw [given, locate_eq, lookup_append, lookup_of_mem hnodup hin]
  rfl

theorem given_matched (hs : s ∈ sessions.rows) (hown : own disk asked s = []) :
    given disk asked sessions s =
      (((matched disk asked sessions).map Pair.entry).lookup s.id).getD [] := by
  have hnone : (reportedFound disk asked sessions.rows).found.lookup s.id = none := by
    apply List.lookup_eq_none_iff.mpr
    intro entry hentry
    obtain ⟨s', hs', rfl⟩ := mem_map.mp hentry
    obtain ⟨hs', hown'⟩ := mem_filter.mp hs'
    have hne : s.id ≠ s'.id := by
      intro heq
      rw [← session_eq hs hs' heq, hown] at hown'
      cases hown'
    simpa using hne
  rw [given, locate_eq, lookup_append, hnone]
  rfl

theorem given_of_matched (hs : s ∈ sessions.rows) (hown : own disk asked s = []) {p : Pair τ}
    (hp : p ∈ matched disk asked sessions) (hsession : p.session = s.id) :
    given disk asked sessions s = [p.at_] := by
  have hnodup : (((matched disk asked sessions).map Pair.entry).map (·.1)).Nodup := by
    rw [map_map, List.Nodup, pairwise_map]
    exact (walk_pairwise List.Pairwise.nil).imp fun h heq => h (.inl heq)
  have hin : (s.id, [p.at_]) ∈ (matched disk asked sessions).map Pair.entry :=
    mem_map.mpr ⟨p, hp, by rw [Pair.entry, hsession]⟩
  rw [given_matched hs hown, lookup_of_mem hnodup hin]
  rfl

theorem matched_of_given (hs : s ∈ sessions.rows) (hown : own disk asked s = []) {t : τ}
    (h : t ∈ given disk asked sessions s) :
    ∃ p ∈ matched disk asked sessions, p.session = s.id ∧ p.at_ = t := by
  rw [given_matched hs hown] at h
  cases hlookup : ((matched disk asked sessions).map Pair.entry).lookup s.id with
  | none => rw [hlookup] at h; cases h
  | some ts =>
    rw [hlookup] at h
    obtain ⟨p, hp, heq⟩ := mem_map.mp (mem_of_lookup hlookup)
    obtain ⟨hsession, rfl⟩ := Prod.mk.inj heq
    exact ⟨p, hp, hsession, (mem_singleton.mp h).symm⟩

theorem mem_own {t : τ} (h : t ∈ own disk asked s) :
    disk.idOf t ∈ asked.reported s.id ∧ disk.byId (disk.idOf t) = some t := by
  obtain ⟨id, hid, hfound⟩ := mem_filterMap.mp h
  have hidOf := disk.byId_id id t hfound
  exact ⟨hidOf ▸ hid, hidOf ▸ hfound⟩

theorem mem_given (hs : s ∈ sessions.rows) {t : τ} (h : t ∈ given disk asked sessions s) :
    (own disk asked s ≠ [] ∧ disk.idOf t ∈ asked.reported s.id ∧
      disk.byId (disk.idOf t) = some t) ∨
    (own disk asked s = [] ∧ (∀ other ∈ sessions.rows, disk.idOf t ∉ asked.reported other.id) ∧
      ∃ p ∈ matched disk asked sessions, p.session = s.id ∧ p.id = disk.idOf t) := by
  by_cases hown : own disk asked s = []
  · right
    obtain ⟨p, hp, hsession, rfl⟩ := matched_of_given hs hown h
    obtain ⟨-, -, -, -, hid, hfree, -⟩ := mem_pairs (mem_matched hp)
    exact ⟨hown, hfree, p, hp, hsession, hid⟩
  · left
    rw [given_own hs hown] at h
    exact ⟨hown, mem_own h⟩

/-- A transcript in a conversation's window, which began that far from it. -/
def Away (disk : Disk τ) (asked : Asked) (s : Session) (t : τ) (d : Nat) : Prop :=
  ∃ startedAt, (startedAt, t) ∈ window disk asked s ∧ d = (startedAt - s.beganAt).natAbs

def Free (disk : Disk τ) (asked : Asked) (sessions : Conversations) (t : τ) : Prop :=
  ∀ other ∈ sessions.rows, disk.idOf t ∉ asked.reported other.id

/-- What one may rely on: a transcript is one conversation's; a conversation that reported ids is
    given transcripts of these alone, and nobody else is; and for every free transcript in the
    window of a conversation that reported none, the conversation has one no farther, or another
    to which it is no farther has it. -/
structure Sound (disk : Disk τ) (asked : Asked) (sessions : Conversations) : Prop where
  once : ∀ s ∈ sessions.rows, ∀ s' ∈ sessions.rows, ∀ t ∈ given disk asked sessions s,
    ∀ t' ∈ given disk asked sessions s', disk.idOf t = disk.idOf t' → s = s'
  reported : ∀ s ∈ sessions.rows, asked.reported s.id ≠ [] →
    ∀ t ∈ given disk asked sessions s, disk.idOf t ∈ asked.reported s.id
  others : ∀ s ∈ sessions.rows, ∀ s' ∈ sessions.rows, ∀ t ∈ given disk asked sessions s',
    disk.idOf t ∈ asked.reported s.id → s = s'
  closest : ∀ s ∈ sessions.rows, asked.reported s.id = [] → ∀ t d, Away disk asked s t d →
    Free disk asked sessions t →
    (∃ mine d', given disk asked sessions s = [mine] ∧ Away disk asked s mine d' ∧ d' ≤ d) ∨
    ∃ other ∈ sessions.rows, ∃ theirs d', given disk asked sessions other = [theirs] ∧
      disk.idOf theirs = disk.idOf t ∧ Away disk asked other theirs d' ∧ d' ≤ d

/-- Where it goes wrong otherwise: an id whose transcript is there was reported by two, or the
    matching of the pairs, the closest first, has one of a conversation that reported ids, all of
    them gone. -/
structure Clear (disk : Disk τ) (asked : Asked) (sessions : Conversations) : Prop where
  shared : ∀ s ∈ sessions.rows, ∀ s' ∈ sessions.rows, ∀ id ∈ asked.reported s.id,
    id ∈ asked.reported s'.id → (disk.byId id).isSome → s = s'
  gone : ∀ chosen, Stable Pair.session Pair.id Closer (pairs disk asked sessions.rows) chosen →
    ∀ p ∈ chosen, asked.reported p.session = []

theorem stable_sorted {chosen : List (Pair τ)} :
    Stable Pair.session Pair.id Closer (pairs disk asked sessions.rows) chosen ↔
      Stable Pair.session Pair.id Closer
        ((pairs disk asked sessions.rows).mergeSort Pair.le) chosen := by
  constructor
  · intro h
    exact ⟨fun p hp => mem_mergeSort.mpr (h.part p hp), h.apart,
      fun p hp => h.settled p (mem_mergeSort.mp hp)⟩
  · intro h
    exact ⟨fun p hp => mem_mergeSort.mp (h.part p hp), h.apart,
      fun p hp => h.settled p (mem_mergeSort.mpr hp)⟩

theorem Clear.own_ne (h : Clear disk asked sessions) (hs : s ∈ sessions.rows)
    (hreported : asked.reported s.id ≠ []) {t : τ} (ht : t ∈ given disk asked sessions s) :
    own disk asked s ≠ [] := by
  intro hown
  obtain ⟨p, hp, hsession, -⟩ := matched_of_given hs hown ht
  have hnone := h.gone _ (stable_sorted.mpr matched_stable) p hp
  exact hreported (hsession ▸ hnone)

theorem sound_closest (hs : s ∈ sessions.rows) (hown : own disk asked s = []) {t : τ} {d : Nat}
    (haway : Away disk asked s t d) (hfree : Free disk asked sessions t) :
    (∃ mine d', given disk asked sessions s = [mine] ∧ Away disk asked s mine d' ∧ d' ≤ d) ∨
    ∃ other ∈ sessions.rows, ∃ theirs d', given disk asked sessions other = [theirs] ∧
      disk.idOf theirs = disk.idOf t ∧ Away disk asked other theirs d' ∧ d' ≤ d := by
  obtain ⟨startedAt, hentry, rfl⟩ := haway
  have hpair := (@mem_mergeSort _ Pair.le _ _).mpr (pairs_mem hs hown hentry hfree)
  obtain ⟨q, hq, hcloser, hmeets⟩ := matched_stable.settled _ hpair
  obtain ⟨other, hother, hown', hsession, hid, -, startedAt', hentry', hapart⟩ :=
    mem_pairs (mem_matched hq)
  have hgiven := given_of_matched hother hown' hq hsession
  have hle : (startedAt' - other.beganAt).natAbs ≤ (startedAt - s.beganAt).natAbs := by
    have := hcloser.apart_le
    rw [hapart] at this
    exact Int.ofNat_le.mp this
  obtain hsame | hsame := hmeets
  · left
    obtain rfl := session_eq hother hs (hsession.symm.trans hsame)
    exact ⟨q.at_, _, hgiven, ⟨startedAt', hentry', rfl⟩, hle⟩
  · right
    exact ⟨other, hother, q.at_, _, hgiven, hid.symm.trans hsame, ⟨startedAt', hentry', rfl⟩, hle⟩

theorem sound_of_clear (h : Clear disk asked sessions) : Sound disk asked sessions where
  once s hs s' hs' t ht t' ht' hsame := by
    obtain ⟨-, hid, hfound⟩ | ⟨-, hfree, p, hp, hsession, hid⟩ := mem_given hs ht <;>
      obtain ⟨-, hid', -⟩ | ⟨-, hfree', p', hp', hsession', hid'⟩ := mem_given hs' ht'
    · exact h.shared s hs s' hs' _ hid (hsame ▸ hid') (by simp [hfound])
    · exact absurd (hsame ▸ hid) (hfree' s hs)
    · exact absurd (hsame ▸ hid') (hfree s' hs')
    · have hmeets : Matching.Meets Pair.session Pair.id p p' := .inr (hid.trans (hsame.trans hid'.symm))
      have hone := (matched_stable.apart p hp p' hp' hmeets).1
      exact session_eq hs hs' (hsession.symm.trans (hone.trans hsession'))
  reported s hs hreported t ht := by
    rw [given_own hs (h.own_ne hs hreported ht)] at ht
    exact (mem_own ht).1
  others s hs s' hs' t ht hid := by
    obtain ⟨-, hid', hfound⟩ | ⟨-, hfree, -⟩ := mem_given hs' ht
    · exact h.shared s hs s' hs' _ hid hid' (by simp [hfound])
    · exact absurd hid (hfree s hs)
  closest s hs hreported t d haway hfree := by
    have hown : own disk asked s = [] := by rw [own, hreported, filterMap_nil]
    exact sound_closest hs hown haway hfree

theorem clear_of_sound (h : Sound disk asked sessions) : Clear disk asked sessions where
  shared s hs s' hs' id hid hid' hfound := by
    obtain ⟨t, ht⟩ := isSome_iff_exists.mp hfound
    have hgiven : ∀ c ∈ sessions.rows, id ∈ asked.reported c.id →
        t ∈ given disk asked sessions c := by
      intro c hc hin
      have hown : t ∈ own disk asked c := mem_filterMap.mpr ⟨id, hin, ht⟩
      rw [given_own hc (ne_nil_of_mem hown)]
      exact hown
    exact h.once s hs s' hs' t (hgiven s hs hid) t (hgiven s' hs' hid') rfl
  gone chosen hchosen p hp := by
    obtain ⟨q, hq, hsession, -⟩ :=
      (stable_sorted.mp hchosen).unique Closer.antisymm (sorted_pairs _) matched_stable p hp
    obtain ⟨s, hs, hown, hs_id, -, hfree, -⟩ := mem_pairs (mem_matched hq)
    -- What is taken is free, so its conversation has not reported it.
    by_contra hreported
    have hne : asked.reported s.id ≠ [] := hs_id ▸ hsession ▸ hreported
    have hgiven : q.at_ ∈ given disk asked sessions s := by
      rw [given_of_matched hs hown hq hs_id]
      exact mem_singleton_self _
    exact hfree s hs (h.reported s hs hne q.at_ hgiven)

/-- **Where `locate` tells the transcripts apart.** It gives each conversation its own, and the
    rest the closest first, exactly where no id is two conversations' and the closest-first
    matching has no conversation whose reported transcripts are gone. -/
theorem locate_sound_iff (disk : Disk τ) (asked : Asked) (sessions : Conversations) :
    Sound disk asked sessions ↔ Clear disk asked sessions :=
  ⟨clear_of_sound, sound_of_clear⟩

end

def leftOver : Disk String where
  idOf t := t
  byId id := if id = "new" then some id else none
  begun from' till' := if from' ≤ 100 ∧ 100 ≤ till' then [(100, "new")] else []
  byId_id id t h := by
    split at h
    · exact (Option.some.inj h).symm
    · cases h

def oneGone : Asked where
  reported session := if session = "first" then ["old"] else []
  slack := 10
  now := 200

def twoConversations : Conversations where
  rows := [⟨"first", 100, none⟩, ⟨"second", 101, none⟩]
  ids := by decide

/-- The one whose transcript is gone is given the other's. -/
theorem gone_takes_another : ¬ Sound leftOver oneGone twoConversations := by
  intro h
  have hpairs : (pairs leftOver oneGone twoConversations.rows).mergeSort Pair.le =
      [⟨0, "first", "new", "new"⟩, ⟨1, "second", "new", "new"⟩] :=
    List.mergeSort_of_pairwise (by decide +kernel)
  have hgiven : given leftOver oneGone twoConversations ⟨"first", 100, none⟩ = ["new"] := by
    rw [given, locate, hpairs]
    decide +kernel
  have hin := h.reported ⟨"first", 100, none⟩ (by decide) (by decide) "new" (by rw [hgiven]; simp)
  revert hin
  decide

end Yardsort.Activity.Locate
