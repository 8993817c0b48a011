import Mathlib.Algebra.BigOperators.Group.List.Basic
import Mathlib.Data.List.Forall2
import Yardsort.Activity.Digest

/- What a digest is, whatever the budget: which turns it shows, in which order, and how many
   characters they take. -/
namespace Yardsort.Activity.Digest
open Yardsort.Lib Stamps

variable {o : Offer Place Form}

section
variable {wanted : List Conversation} {since : Option Int} {c : Conversation} {ci i : Nat}

def placesOf (f : Conversation → List Nat) (wanted : List Conversation) : List Place :=
  wanted.zipIdx.flatMap fun (c, ci) => (f c).map (ci, ·)

def places (wanted : List Conversation) : List Place :=
  placesOf (fun c => List.range c.turns.length) wanted

theorem mem_placesOf {f : Conversation → List Nat} :
    (ci, i) ∈ placesOf f wanted ↔ ∃ c, wanted[ci]? = some c ∧ i ∈ f c := by
  simp only [placesOf, mem_flatMap, mem_map, Prod.mk.injEq, Prod.exists]
  constructor
  · rintro ⟨c, ci', hc, i', hi, rfl, rfl⟩
    exact ⟨c, mem_zipIdx_iff_getElem?.mp hc, hi⟩
  · rintro ⟨c, hc, hi⟩
    exact ⟨c, ci, mem_zipIdx_iff_getElem?.mpr hc, i, hi, rfl, rfl⟩

theorem mem_places : (ci, i) ∈ places wanted ↔ ∃ c, wanted[ci]? = some c ∧ i < c.turns.length := by
  simp only [places, mem_placesOf, mem_range]

theorem zipIdx_distinct {α : Type} (l : List α) : l.zipIdx.Pairwise fun a b => a.2 ≠ b.2 := by
  have h : (l.zipIdx.map Prod.snd).Nodup := by
    rw [List.zipIdx_map_snd]
    exact List.nodup_range'
  exact pairwise_map.mp h

theorem nodup_placesOf {f : Conversation → List Nat} (h : ∀ c, (f c).Nodup) :
    (placesOf f wanted).Nodup := by
  refine List.nodup_flatMap.mpr ⟨?_, ?_⟩
  · rintro ⟨c, ci⟩ -
    exact (h c).map fun a b hab => (Prod.mk.inj hab).2
  · refine (zipIdx_distinct wanted).imp ?_
    rintro ⟨c, ci⟩ ⟨d, di⟩ hne p hp hp'
    obtain ⟨i, -, rfl⟩ := mem_map.mp hp
    obtain ⟨j, -, hj⟩ := mem_map.mp hp'
    exact hne (Prod.mk.inj hj).1.symm

theorem nodup_places : (places wanted).Nodup := nodup_placesOf fun _ => nodup_range

theorem eligible_lt (h : eligible since c i = true) : i < c.turns.length := by
  by_contra hge
  rw [eligible, List.getElem?_eq_none (by omega)] at h
  cases h

inductive Offers (since : Option Int) (wanted : List Conversation) : Offer Place Form → Prop where
  | task (c : Conversation) (ci : Nat) (hc : wanted[ci]? = some c) (he : eligible since c 0 = true)
    (hlong : RECENT_TURNS < c.turns.length) : Offers since wanted ⟨(ci, 0), [.user FIRST_CHARS]⟩
  | newest (c : Conversation) (ci i : Nat) (hc : wanted[ci]? = some c)
    (he : eligible since c i = true) (hrecent : recentFrom c ≤ i) :
    Offers since wanted ⟨(ci, i), recent⟩
  | older (c : Conversation) (ci i : Nat) (hc : wanted[ci]? = some c)
    (he : eligible since c i = true) (holder : i < recentFrom c) :
    Offers since wanted ⟨(ci, i), if i = 0 then first else older⟩

theorem mem_tasks (h : o ∈ tasks since wanted) : Offers since wanted o ∧
    ∃ ci c, wanted[ci]? = some c ∧ o.place = (ci, 0) ∧ RECENT_TURNS < c.turns.length := by
  obtain ⟨⟨c, ci⟩, hc, hsome⟩ := mem_filterMap.mp h
  dsimp only at hsome
  split at hsome
  · rename_i hlong
    cases hsome
    have hget := mem_zipIdx_iff_getElem?.mp hc
    exact ⟨.task c ci hget hlong.2.1 hlong.2.2, ci, c, hget, rfl, hlong.2.2⟩
  · cases hsome

theorem mem_recent : i ∈ (List.range c.turns.length).drop (recentFrom c) ↔
    recentFrom c ≤ i ∧ i < c.turns.length := by
  rw [List.range_eq_range', List.drop_range', List.mem_range'_1]
  rw [recentFrom]
  omega

theorem mem_newest : o ∈ newest since wanted ↔
    ∃ ci c i, wanted[ci]? = some c ∧ eligible since c i = true ∧ recentFrom c ≤ i ∧
      o = ⟨(ci, i), recent⟩ := by
  simp only [newest, mem_flatMap, mem_map, mem_filter, mem_reverse, mem_recent,
    Prod.exists]
  constructor
  · rintro ⟨c, ci, hc, i, ⟨⟨hrecent, -⟩, he⟩, rfl⟩
    exact ⟨ci, c, i, mem_zipIdx_iff_getElem?.mp hc, he, hrecent, rfl⟩
  · rintro ⟨ci, c, i, hc, he, hrecent, rfl⟩
    exact ⟨c, ci, mem_zipIdx_iff_getElem?.mpr hc, i, ⟨⟨hrecent, eligible_lt he⟩, he⟩, rfl⟩

theorem mem_olders : o ∈ olders since wanted ↔
    ∃ ci c i, wanted[ci]? = some c ∧ eligible since c i = true ∧ i < recentFrom c ∧
      o = ⟨(ci, i), if i = 0 then first else older⟩ := by
  simp only [olders, mem_flatMap, mem_map, mem_filter, mem_reverse,
    mem_range, Prod.exists]
  constructor
  · rintro ⟨c, ci, hc, i, ⟨holder, he⟩, rfl⟩
    exact ⟨ci, c, i, mem_zipIdx_iff_getElem?.mp hc, he, holder, rfl⟩
  · rintro ⟨ci, c, i, hc, he, holder, rfl⟩
    exact ⟨c, ci, mem_zipIdx_iff_getElem?.mpr hc, i, ⟨holder, he⟩, rfl⟩

def allOffers (since : Option Int) (wanted : List Conversation) : List (Offer Place Form) :=
  tasks since wanted ++ (newest since wanted ++ olders since wanted)

theorem mem_allOffers {o : Offer Place Form} (h : o ∈ allOffers since wanted) :
    Offers since wanted o := by
  obtain h | h := mem_append.mp h
  · exact (mem_tasks h).1
  obtain h | h := mem_append.mp h
  · obtain ⟨ci, c, i, hc, he, hrecent, rfl⟩ := mem_newest.mp h
    exact .newest c ci i hc he hrecent
  · obtain ⟨ci, c, i, hc, he, holder, rfl⟩ := mem_olders.mp h
    exact .older c ci i hc he holder

theorem Offers.place (h : Offers since wanted o) :
    ∃ c, wanted[o.place.1]? = some c ∧ eligible since c o.place.2 = true := by
  cases h with
  | task c ci hc he | newest c ci i hc he | older c ci i hc he => exact ⟨c, hc, he⟩

theorem Offers.mem_places (h : Offers since wanted o) :
    o.place ∈ places wanted := by
  obtain ⟨c, hc, he⟩ := h.place
  exact Digest.mem_places.mpr ⟨c, hc, eligible_lt he⟩

theorem Offers.forms_ne (h : Offers since wanted o) : o.forms ≠ [] := by
  cases h with
  | task => nofun
  | newest => nofun
  | older c ci i =>
    split <;> nofun

end

def headers (wanted : List Conversation) : Nat :=
  (wanted.map fun c => (renderHeader (header c []) 2).length).sum

def nothing (wanted : List Conversation) : Choice Place Form := ⟨fun _ => none, headers wanted⟩

section
variable {wanted : List Conversation} {since : Option Int} {budget : Nat} {s : Choice Place Form}

theorem sum_zero (l : List Place) :
    (l.map (Budget.had (cost wanted) (nothing wanted))).sum = 0 := by
  induction l with
  | nil => rfl
  | cons x l ih =>
    rw [map_cons, sum_cons, ih]
    rfl

theorem nothing_sums :
    Budget.Sums (cost wanted) (places wanted) (headers wanted) (nothing wanted) where
  used := by
    rw [sum_zero]
    rfl
  only := fun _ h => absurd rfl h

/-- A choice is made within every budget: the total never underflows. -/
theorem choose_spec (budget : Nat) (since : Option Int) (wanted : List Conversation) :
    ∃ s, choose budget since wanted = some s ∧
      Budget.Ran (cost wanted) budget (nothing wanted) (allOffers since wanted) s ∧
      Budget.Sums (cost wanted) (places wanted) (headers wanted) s :=
  Budget.offers_ran nothing_sums nodup_places fun _ ho => (mem_allOffers ho).mem_places

theorem chosen_offered
    (h : Budget.Ran (cost wanted) budget (nothing wanted) (allOffers since wanted) s)
    {place : Place} {form : Form} (hf : s.chosen place = some form) :
    ∃ o, Offers since wanted o ∧ o.place = place ∧ ∃ before after,
      o.forms = before ++ form :: after ∧
      ∀ other ∈ before, cost wanted place form < cost wanted place other := by
  obtain hnone | ⟨o, ho, hrest⟩ := h.chosen hf
  · cases hnone
  · exact ⟨o, mem_allOffers ho, hrest⟩

theorem chosen_eligible
    (h : Budget.Ran (cost wanted) budget (nothing wanted) (allOffers since wanted) s)
    {ci i : Nat} {c : Conversation} (hc : wanted[ci]? = some c) (hf : s.chosen (ci, i) ≠ none) :
    eligible since c i = true := by
  obtain ⟨form, hform⟩ := Option.ne_none_iff_exists'.mp hf
  obtain ⟨o, ho, hplace, -⟩ := chosen_offered h hform
  obtain ⟨c', hc', he⟩ := ho.place
  rw [hplace] at hc' he
  cases hc.symm.trans hc'
  exact he

end

/-- A conversation is shown as it should be: its turns newest first, each one of its own, and they
    and those left out are exactly the eligible ones. -/
structure Shows (since : Option Int) (c : Conversation) (shown : Shown) : Prop where
  newestFirst : shown.turns.Pairwise fun a b => b.n < a.n
  own : ∀ t ∈ shown.turns, ∃ turn form, c.turns[t.n - 1]? = some turn ∧ t = shownTurn t.n turn form
  exactly : (shown.turns.map (·.n) ++ shown.omitted).Perm
    (((List.range c.turns.length).filter (eligible since c)).map (· + 1))

section
variable {c : Conversation} {since : Option Int} {chosen : Nat → Option Form}

def shownAt (c : Conversation) (chosen : Nat → Option Form) (i : Nat) : Option ShownTurn :=
  (chosen i).bind fun form => c.turns[i]?.map fun turn => shownTurn (i + 1) turn form

theorem mem_turns {t : ShownTurn} : t ∈ (show_ since chosen c).turns ↔
    ∃ i form turn, chosen i = some form ∧ c.turns[i]? = some turn ∧
      t = shownTurn (i + 1) turn form := by
  simp only [show_, mem_filterMap, mem_reverse, mem_range, bind_eq_some_iff,
    map_eq_some_iff]
  constructor
  · rintro ⟨i, -, form, hform, turn, hturn, rfl⟩
    exact ⟨i, form, turn, hform, hturn, rfl⟩
  · rintro ⟨i, form, turn, hform, hturn, rfl⟩
    exact ⟨i, (List.getElem?_eq_some_iff.mp hturn).1, form, hform, turn, hturn, rfl⟩

theorem numbers_eq (l : List Nat) (h : ∀ i ∈ l, i < c.turns.length) :
    (l.filterMap (shownAt c chosen)).map (·.n) =
      (l.filter fun i => chosen i ≠ none).map (· + 1) := by
  induction l with
  | nil => rfl
  | cons i l ih =>
    have hi := h i mem_cons_self
    have hrest := ih fun j hj => h j (mem_cons_of_mem _ hj)
    cases hchosen : chosen i with
    | none =>
      have hat : shownAt c chosen i = none := by rw [shownAt, hchosen]; rfl
      rw [filterMap_cons_none hat, filter_cons_of_neg (by simp [hchosen]), hrest]
    | some form =>
      have hat : shownAt c chosen i = some (shownTurn (i + 1) c.turns[i] form) := by
        rw [shownAt, hchosen, bind_some, List.getElem?_eq_getElem hi]
        rfl
      rw [filterMap_cons_some hat, filter_cons_of_pos (by simp [hchosen]), map_cons,
        map_cons, hrest]
      rfl

theorem show_shows (h : ∀ i, chosen i ≠ none → eligible since c i = true) :
    Shows since c (show_ since chosen c) := by
  have hnumbers : (show_ since chosen c).turns.map (·.n) =
      ((List.range c.turns.length).reverse.filter fun i => chosen i ≠ none).map (· + 1) :=
    numbers_eq _ fun i hi => mem_range.mp (mem_reverse.mp hi)
  refine ⟨?_, ?_, ?_⟩
  · have hsorted : ((show_ since chosen c).turns.map (·.n)).Pairwise fun a b => b < a := by
      rw [hnumbers, pairwise_map]
      apply List.Pairwise.filter
      exact List.pairwise_reverse.mpr (List.pairwise_lt_range.imp fun hab => by omega)
    exact pairwise_map.mp hsorted
  · intro t ht
    obtain ⟨i, form, turn, -, hturn, rfl⟩ := mem_turns.mp ht
    exact ⟨turn, form, hturn, rfl⟩
  · rw [hnumbers]
    have homitted : (show_ since chosen c).omitted =
        ((List.range c.turns.length).filter fun i => chosen i = none && eligible since c i).map
          (· + 1) := rfl
    rw [homitted, ← map_append]
    refine List.Perm.map _ ?_
    rw [List.filter_reverse]
    refine ((List.reverse_perm _).append_right _).trans ?_
    have hsplit := List.filter_append_perm (fun i => decide (chosen i ≠ none))
      ((List.range c.turns.length).filter (eligible since c))
    rw [filter_filter, filter_filter] at hsplit
    refine List.Perm.trans (.of_eq ?_) hsplit
    congr 1
    · apply filter_congr
      intro i _
      by_cases hi : chosen i ≠ none
      · simp [hi, h i hi]
      · simp [hi]
    · apply filter_congr
      intro i _
      by_cases hi : chosen i = none <;> simp [hi]

end

section
variable {wanted : List Conversation} {since : Option Int} {s : Choice Place Form}

theorem sum_filterMap {α β : Type} (f : α → Option β) (g : β → Nat) (l : List α) :
    ((l.filterMap f).map g).sum = (l.map fun a => ((f a).map g).getD 0).sum := by
  induction l with
  | nil => rfl
  | cons a l ih =>
    rw [map_cons, sum_cons, ← ih]
    cases hf : f a with
    | none =>
      rw [filterMap_cons_none hf]
      simp
    | some b =>
      rw [filterMap_cons_some hf]
      simp

theorem sum_flatMap {α β : Type} (f : α → List β) (g : β → Nat) (l : List α) :
    ((l.flatMap f).map g).sum = (l.map fun a => ((f a).map g).sum).sum := by
  induction l with
  | nil => rfl
  | cons a l ih => rw [flatMap_cons, map_append, sum_append, map_cons,
      sum_cons, ih]

theorem renderTurn_succ (turn : ShownTurn) (level : Nat) :
    (renderTurn turn (level + 1)).length = (renderTurn turn level).length + 1 := by
  simp only [renderTurn, length_append, length_replicate]
  omega

theorem turns_written {c : Conversation} {ci : Nat} (hc : wanted[ci]? = some c) :
    ((show_ since (fun i => s.chosen (ci, i)) c).turns.map
        fun turn => (renderTurn turn 3).length).sum =
      ((List.range c.turns.length).map fun i => Budget.had (cost wanted) s (ci, i)).sum +
        (show_ since (fun i => s.chosen (ci, i)) c).turns.length := by
  have hlevels : ∀ l : List ShownTurn, (l.map fun turn => (renderTurn turn 3).length).sum =
      (l.map fun turn => (renderTurn turn 2).length).sum + l.length := by
    intro l
    induction l with
    | nil => rfl
    | cons turn l ih =>
      rw [map_cons, sum_cons, ih, map_cons, sum_cons, renderTurn_succ,
        length_cons]
      omega
  have hcosts : ((show_ since (fun i => s.chosen (ci, i)) c).turns.map
      fun turn => (renderTurn turn 2).length).sum =
      ((List.range c.turns.length).map fun i => Budget.had (cost wanted) s (ci, i)).sum := by
    have hsum := sum_filterMap (shownAt c fun i => s.chosen (ci, i))
      (fun turn => (renderTurn turn 2).length) (List.range c.turns.length).reverse
    refine hsum.trans ?_
    rw [List.map_reverse, List.sum_reverse]
    congr 1
    apply map_congr_left
    intro i hi
    have hturn := List.getElem?_eq_getElem (mem_range.mp hi)
    rw [shownAt, Budget.had]
    cases hchosen : s.chosen (ci, i) with
    | none => rfl
    | some form => simp [cost, hc, hturn]
  rw [hlevels, hcosts]

def shownCount (digest : List Shown) : Nat := (digest.map (·.turns.length)).sum

def digestOf (since : Option Int) (wanted : List Conversation) (s : Choice Place Form) :
    List Shown :=
  wanted.zipIdx.map fun (c, ci) => show_ since (fun i => s.chosen (ci, i)) c

theorem written_eq (h : Budget.Sums (cost wanted) (places wanted) (headers wanted) s) :
    written (digestOf since wanted s) = s.used + shownCount (digestOf since wanted s) := by
  have hplaces : ((places wanted).map (Budget.had (cost wanted) s)).sum =
      (wanted.zipIdx.map fun x => ((List.range x.1.turns.length).map
        fun i => Budget.had (cost wanted) s (x.2, i)).sum).sum := by
    rw [places, placesOf, sum_flatMap]
    congr 1
    apply map_congr_left
    rintro ⟨c, ci⟩ -
    rw [map_map]
    rfl
  have hheaders : headers wanted =
      (wanted.zipIdx.map fun x => (renderHeader (header x.1 []) 2).length).sum := by
    have hfst : wanted.zipIdx.map Prod.fst = wanted := List.zipIdx_map_fst 0 wanted
    rw [headers]
    nth_rewrite 1 [← hfst]
    rw [map_map]
    rfl
  have hcount : shownCount (digestOf since wanted s) = (wanted.zipIdx.map fun x =>
      (show_ since (fun i => s.chosen (x.2, i)) x.1).turns.length).sum := by
    rw [shownCount, digestOf, map_map]
    rfl
  rw [h.used, hplaces, hheaders, hcount, ← List.sum_map_add, ← List.sum_map_add, written, digestOf,
    map_map]
  refine congrArg List.sum (map_congr_left ?_)
  rintro ⟨c, ci⟩ hx
  have hturns := @turns_written wanted since s c ci (mem_zipIdx_iff_getElem?.mp hx)
  have hheader : renderHeader (show_ since (fun i => s.chosen (ci, i)) c) 2 =
      renderHeader (header c []) 2 := rfl
  simp only [comp_apply, hheader, hturns]
  omega

theorem shownCount_pos
    (h : Budget.Ran (cost wanted) budget (nothing wanted) (allOffers since wanted) s)
    {ci i : Nat} (hf : s.chosen (ci, i) ≠ none) : 0 < shownCount (digestOf since wanted s) := by
  obtain ⟨form, hform⟩ := Option.ne_none_iff_exists'.mp hf
  obtain ⟨o, ho, hplace, -⟩ := chosen_offered h hform
  obtain ⟨c, hc, he⟩ := ho.place
  rw [hplace] at hc he
  have hlt := eligible_lt he
  have hmem : shownTurn (i + 1) c.turns[i] form ∈
      (show_ since (fun i => s.chosen (ci, i)) c).turns :=
    mem_turns.mpr ⟨i, form, c.turns[i], hform, List.getElem?_eq_getElem hlt, rfl⟩
  have hin : show_ since (fun i => s.chosen (ci, i)) c ∈ digestOf since wanted s :=
    mem_map.mpr ⟨(c, ci), mem_zipIdx_iff_getElem?.mpr hc, rfl⟩
  have hle := Budget.le_sum hin (·.turns.length)
  have hpos := List.length_pos_of_mem hmem
  rw [shownCount]
  omega

end

end Yardsort.Activity.Digest
