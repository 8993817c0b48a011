import Yardsort.Activity.DigestKept

/- For which conversations a digest is within its budget, and true, whatever the budget. -/
namespace Yardsort.Activity.Digest
open Yardsort.Lib

variable {c : Conversation}

section
variable {wanted : List Conversation} {since : Option Int} {budget : Nat} {s : Choice Place Form}

theorem offered_of_eligible {c : Conversation} {ci i : Nat} (hc : wanted[ci]? = some c)
    (he : eligible since c i = true) : ∃ o ∈ allOffers since wanted, o.place = (ci, i) := by
  by_cases hrecent : recentFrom c ≤ i
  · refine ⟨⟨(ci, i), recent⟩, ?_, rfl⟩
    exact mem_append_right _ (mem_append_left _
      (mem_newest.mpr ⟨ci, c, i, hc, he, hrecent, rfl⟩))
  · refine ⟨⟨(ci, i), if i = 0 then first else older⟩, ?_, rfl⟩
    exact mem_append_right _ (mem_append_right _
      (mem_olders.mpr ⟨ci, c, i, hc, he, by omega, rfl⟩))

theorem had_ge (h : Budget.Ran (cost wanted) budget (nothing wanted) (allOffers since wanted) s)
    {least : Nat} (hleast : ∀ o ∈ allOffers since wanted, ∀ form ∈ o.forms,
      least ≤ cost wanted o.place form) {x : Place} (hx : s.chosen x ≠ none) :
    least ≤ Budget.had (cost wanted) s x := by
  obtain ⟨form, hform⟩ := Option.ne_none_iff_exists'.mp hx
  obtain hnone | ⟨o, ho, rfl, before, after, hforms, -⟩ := h.chosen hform
  · cases hnone
  · rw [Budget.had, hform]
    exact hleast o ho form (by rw [hforms]; simp)

theorem some_budget_exceeded {c : Conversation} {ci i : Nat} (hc : wanted[ci]? = some c)
    (he : eligible since c i = true) :
    ∃ budget s, choose budget since wanted = some s ∧
      max budget (headers wanted) < written (digestOf since wanted s) := by
  have hsome : ∃ n, ∃ o ∈ allOffers since wanted, ∃ form ∈ o.forms,
      cost wanted o.place form = n := by
    obtain ⟨o, ho, -⟩ := offered_of_eligible hc he
    obtain ⟨form, hform⟩ := exists_mem_of_ne_nil _ (mem_allOffers ho).forms_ne
    exact ⟨_, o, ho, form, hform, rfl⟩
  classical
  obtain ⟨o, ho, form, hform, hcost⟩ := Nat.find_spec hsome
  have hleast : ∀ o ∈ allOffers since wanted, ∀ form ∈ o.forms,
      Nat.find hsome ≤ cost wanted o.place form := fun o' ho' form' hform' =>
    Nat.find_min' hsome ⟨o', ho', form', hform', rfl⟩
  generalize Nat.find hsome = least at hcost hleast
  obtain ⟨s, hs, hran, hsums⟩ := choose_spec (headers wanted + least) since wanted
  refine ⟨headers wanted + least, s, hs, ?_⟩
  -- the cheapest form is taken, if nothing was before it
  have hchosen : ∃ x, s.chosen x ≠ none := by
    obtain ⟨before, after, hsplit⟩ := append_of_mem ho
    have hran' := hran
    rw [hsplit] at hran'
    obtain ⟨mid, mid', hbefore, hoffered, hafter⟩ := hran'.split
    by_cases hmid : ∃ x, mid.chosen x ≠ none
    · obtain ⟨x, hx⟩ := hmid
      exact ⟨x, hafter.stays (hoffered.stays hx)⟩
    · have hmidsums := hbefore.sums nothing_sums nodup_places fun o' ho' =>
        (@mem_allOffers wanted since o' (by rw [hsplit]; simp [ho'])).mem_places
      have hzero : mid.used ≤ headers wanted + (places wanted).length * 0 := by
        apply hmidsums.used_le
        intro x
        have hx : mid.chosen x = none := by
          by_contra hne
          exact hmid ⟨x, hne⟩
        rw [Budget.had, hx]
        exact Nat.le_refl 0
      exact ⟨o.place, hafter.stays (hoffered.gets hform (by omega))⟩
  obtain ⟨⟨ci', i'⟩, hx⟩ := hchosen
  have hpos := shownCount_pos hran hx
  have hhad := had_ge hran hleast hx
  have hle := Budget.le_sum (hsums.only _ hx) (Budget.had (cost wanted) s)
  have hused := hsums.used
  have hwritten := @written_eq wanted since s hsums
  omega

/-! ## True of each turn -/

theorem leftOut_second : LEFT_OUT[1]? = some 'T' := by decide +kernel

theorem noReply_second : NO_REPLY[1]? = some 'N' := by decide +kernel

theorem agent_second (text : Text) : ("\nAgent:\n".toList ++ text)[1]? = some 'A' := by
  have hstart : "\nAgent:\n".toList = '\n' :: 'A' :: "gent:\n".toList := by decide +kernel
  rw [hstart]
  rfl

theorem renderReply_some {t : ShownTurn} {reply : Text} (h : t.reply = some reply) :
    (renderReply t)[1]? = some 'A' := by
  rw [renderReply, h]
  exact agent_second _

theorem renderReply_none {t : ShownTurn} (h : t.reply = none) :
    renderReply t = if t.shortened then LEFT_OUT else NO_REPLY := by
  rw [renderReply, h]

theorem renderReply_leftOut {t : ShownTurn} :
    renderReply t = LEFT_OUT ↔ t.reply = none ∧ t.shortened = true := by
  cases hreply : t.reply with
  | some reply =>
    have hsecond := renderReply_some hreply
    constructor
    · intro h
      rw [h, leftOut_second] at hsecond
      cases hsecond
    · intro h
      cases h.1
  | none =>
    rw [renderReply_none hreply]
    cases t.shortened with
    | true => simp
    | false =>
      constructor
      · intro h
        have hsecond := leftOut_second
        rw [← h, if_neg (by simp), noReply_second] at hsecond
        cases hsecond
      · intro h
        cases h.2

theorem renderReply_noReply {t : ShownTurn} :
    renderReply t = NO_REPLY ↔ t.reply = none ∧ t.shortened = false := by
  cases hreply : t.reply with
  | some reply =>
    have hsecond := renderReply_some hreply
    constructor
    · intro h
      rw [h, noReply_second] at hsecond
      cases hsecond
    · intro h
      cases h.1
  | none =>
    rw [renderReply_none hreply]
    cases t.shortened with
    | false => simp
    | true =>
      constructor
      · intro h
        have hsecond := noReply_second
        rw [← h, if_pos rfl, leftOut_second] at hsecond
        cases hsecond
      · intro h
        cases h.2

structure Tells (turn : Turn) (t : ShownTurn) : Prop where
  leftOut : renderReply t = LEFT_OUT → turn.reply ≠ none ∧ t.reply ≠ turn.reply
  noReply : renderReply t = NO_REPLY → turn.reply = none

/-- How many characters of its message an older turn keeps, and a newer one that is cut. -/
def userChars (c : Conversation) (i : Nat) : Nat :=
  if i = 0 ∧ i < recentFrom c then FIRST_CHARS else OLDER_USER_CHARS

def Form.userChars : Form → Option Nat
  | user n => some n
  | both n _ => some n
  | whole => none

theorem shownTurn_user {n : Nat} {turn : Turn} {form : Form} :
    (shownTurn n turn form).user = (form.userChars.map (cut turn.user)).getD turn.user := by
  cases form <;> rfl

theorem shownTurn_noReply {n : Nat} {turn : Turn} {form : Form} (h : turn.reply = none) :
    (shownTurn n turn form).reply = none ∧
      ((shownTurn n turn form).shortened = true ↔ (shownTurn n turn form).user ≠ turn.user) := by
  cases form <;> simp [shownTurn, h]

/-- A turn without a reply is told of truly exactly if its message is as it was. -/
theorem tells_iff {n : Nat} {turn : Turn} {form : Form} (h : turn.reply = none) :
    Tells turn (shownTurn n turn form) ↔ (shownTurn n turn form).user = turn.user := by
  obtain ⟨hreply, hshort⟩ := @shownTurn_noReply n turn form h
  constructor
  · intro htells
    by_contra hne
    exact (htells.leftOut (renderReply_leftOut.mpr ⟨hreply, hshort.mpr hne⟩)).1 h
  · intro hsame
    refine ⟨fun hleft => ?_, fun _ => h⟩
    exact absurd hsame (hshort.mp (renderReply_leftOut.mp hleft).2)

theorem tells_reply {n : Nat} {turn : Turn} {form : Form} (h : turn.reply ≠ none) :
    Tells turn (shownTurn n turn form) := by
  obtain ⟨reply, hreply⟩ := Option.ne_none_iff_exists'.mp h
  constructor
  · intro hleft
    refine ⟨h, ?_⟩
    rw [(renderReply_leftOut.mp hleft).1, hreply]
    nofun
  · intro hno
    obtain ⟨hnone, hshort⟩ := renderReply_noReply.mp hno
    cases form <;> simp [shownTurn, hreply] at hnone hshort

theorem cost_noReply {ci i : Nat} {turn : Turn} {form : Form} {n : Nat} (hc : wanted[ci]? = some c)
    (ht : c.turns[i]? = some turn) (h : turn.reply = none) (hform : form.userChars = some n) :
    cost wanted (ci, i) form = cost wanted (ci, i) (.user n) := by
  cases form with
  | user m =>
    cases hform
    rfl
  | both m r =>
    cases hform
    simp [cost, hc, ht, shownTurn, h]
  | whole => cases hform

theorem Offers.userChars {o : Offer Place Form} {ci i n : Nat} {form : Form}
    (h : Offers since wanted o) (hplace : o.place = (ci, i)) (hc : wanted[ci]? = some c)
    (hform : form ∈ o.forms) (hn : form.userChars = some n) : n = Digest.userChars c i := by
  cases h with
  | task c' ci' hc' he hlong =>
    cases hplace
    cases hc.symm.trans hc'
    have hpos : 0 < recentFrom c := by rw [recentFrom]; omega
    obtain rfl := mem_singleton.mp hform
    cases hn
    exact (if_pos ⟨rfl, hpos⟩).symm
  | newest c' ci' i' hc' he hrecent =>
    cases hplace
    cases hc.symm.trans hc'
    rw [Digest.userChars, if_neg (by omega)]
    simp only [recent, Digest.older, mem_cons, not_mem_nil, or_false] at hform
    obtain rfl | rfl | rfl := hform
    · cases hn
    · exact (Option.some.inj hn).symm
    · exact (Option.some.inj hn).symm
  | older c' ci' i' hc' he holder =>
    obtain ⟨rfl, rfl⟩ := Prod.mk.inj hplace
    obtain rfl := Option.some.inj (hc.symm.trans hc')
    rw [Digest.userChars]
    by_cases hzero : i' = 0
    · rw [if_pos ⟨hzero, holder⟩]
      rw [if_pos hzero] at hform
      simp only [first, mem_cons, not_mem_nil, or_false] at hform
      obtain rfl | rfl := hform <;> exact (Option.some.inj hn).symm
    · rw [if_neg (fun h => hzero h.1)]
      rw [if_neg hzero] at hform
      simp only [Digest.older, mem_cons, not_mem_nil, or_false] at hform
      obtain rfl | rfl := hform <;> exact (Option.some.inj hn).symm

theorem Offers.whole {o : Offer Place Form} {c : Conversation} {ci i : Nat}
    (h : Offers since wanted o) (hplace : o.place = (ci, i)) (hc : wanted[ci]? = some c) :
    (recentFrom c ≤ i ∧ o.forms = recent) ∨ (i < recentFrom c ∧ Form.whole ∉ o.forms) := by
  cases h with
  | task c' ci' hc' he hlong =>
    cases hplace
    cases hc.symm.trans hc'
    exact .inr ⟨by rw [recentFrom]; omega, by simp⟩
  | newest c' ci' i' hc' he hrecent =>
    cases hplace
    cases hc.symm.trans hc'
    exact .inl ⟨hrecent, rfl⟩
  | older c' ci' i' hc' he holder =>
    cases hplace
    cases hc.symm.trans hc'
    refine .inr ⟨holder, ?_⟩
    split <;> simp [first, Digest.older]

/-- Each eligible turn without a reply has a message that no cut changes, or, if it is a newer one,
    one that is not written shorter for being cut. -/
def Telling (since : Option Int) (c : Conversation) : Prop :=
  ∀ i turn, c.turns[i]? = some turn → eligible since c i = true → turn.reply = none →
    cut turn.user (userChars c i) = turn.user ∨
      (recentFrom c ≤ i ∧ (renderTurn (shownTurn (i + 1) turn .whole) 2).length ≤
        (renderTurn (shownTurn (i + 1) turn (.user OLDER_USER_CHARS)) 2).length)

def Truthful (c : Conversation) (shown : Shown) : Prop :=
  ∀ t ∈ shown.turns, ∀ turn, c.turns[t.n - 1]? = some turn → Tells turn t

theorem cost_eq {ci i : Nat} {turn : Turn} (hc : wanted[ci]? = some c)
    (ht : c.turns[i]? = some turn) (form : Form) :
    cost wanted (ci, i) form = (renderTurn (shownTurn (i + 1) turn form) 2).length := by
  simp [cost, hc, ht]

theorem truthful_of_telling {ci : Nat}
    (h : Budget.Ran (cost wanted) budget (nothing wanted) (allOffers since wanted) s)
    (hc : wanted[ci]? = some c) (htelling : Telling since c) :
    Truthful c (show_ since (fun i => s.chosen (ci, i)) c) := by
  intro t ht turn hturn
  obtain ⟨i, form, turn', hform, hturn', rfl⟩ := mem_turns.mp ht
  obtain rfl := Option.some.inj (hturn'.symm.trans hturn)
  by_cases hreply : turn'.reply = none
  · rw [tells_iff hreply, shownTurn_user]
    cases hchars : form.userChars with
    | none => rfl
    | some n =>
      obtain ⟨o, ho, hplace, before, after, hforms, hless⟩ := chosen_offered h hform
      have hmem : form ∈ o.forms := by
        rw [hforms]
        simp
      obtain rfl := ho.userChars hplace hc hmem hchars
      have he := chosen_eligible h hc (by rw [hform]; nofun)
      obtain hsame | ⟨hrecent, hlonger⟩ := htelling i turn' hturn' he hreply
      · exact hsame
      -- a newer turn is cut only to be shorter
      · obtain ⟨-, hwhole⟩ | ⟨hold, -⟩ := ho.whole hplace hc
        · have hbefore : Form.whole ∈ before := by
            cases before with
            | nil =>
              rw [hwhole] at hforms
              obtain rfl := (List.cons.inj hforms).1
              cases hchars
            | cons other before =>
              rw [hwhole] at hforms
              rw [← (List.cons.inj hforms).1]
              exact mem_cons_self
          have hcost := hless .whole hbefore
          have hchars' : userChars c i = OLDER_USER_CHARS := if_neg (by omega)
          rw [cost_noReply hc hturn' hreply hchars, hchars', cost_eq hc hturn', cost_eq hc hturn']
            at hcost
          omega
        · omega
  · exact tells_reply hreply

/-! ## A budget in which a turn is cut -/

def most (since : Option Int) (wanted : List Conversation) : Nat :=
  ((allOffers since wanted).map fun o => (o.forms.map (cost wanted o.place)).sum).sum

theorem le_most {o : Offer Place Form} {form : Form} (ho : o ∈ allOffers since wanted)
    (hform : form ∈ o.forms) : cost wanted o.place form ≤ most since wanted :=
  Nat.le_trans (Budget.le_sum hform (cost wanted o.place))
    (Budget.le_sum ho fun o => (o.forms.map (cost wanted o.place)).sum)

def ample (since : Option Int) (wanted : List Conversation) : Nat :=
  headers wanted + (places wanted).length * most since wanted + most since wanted

theorem used_ample {os : List (Offer Place Form)} {mid : Choice Place Form}
    (h : Budget.Ran (cost wanted) budget (nothing wanted) os mid)
    (hos : ∀ o ∈ os, o ∈ allOffers since wanted) :
    mid.used + most since wanted ≤ ample since wanted := by
  have hsums := h.sums nothing_sums nodup_places fun o ho => (mem_allOffers (hos o ho)).mem_places
  have hle : mid.used ≤ headers wanted + (places wanted).length * most since wanted := by
    apply hsums.used_le
    intro x
    cases hx : mid.chosen x with
    | none =>
      rw [Budget.had, hx]
      exact Nat.zero_le _
    | some form =>
      rw [Budget.had, hx]
      obtain hnone | ⟨o, ho, rfl, before, after, hforms, -⟩ := h.chosen hx
      · cases hnone
      · exact le_most (hos o ho) (by rw [hforms]; simp)
  rw [ample]
  omega

theorem not_truthful {ci i : Nat} {turn : Turn} {form : Form} (hturn : c.turns[i]? = some turn)
    (hreply : turn.reply = none) (hform : s.chosen (ci, i) = some form)
    (hcut : (shownTurn (i + 1) turn form).user ≠ turn.user) :
    ¬ Truthful c (show_ since (fun i => s.chosen (ci, i)) c) := by
  intro htrue
  have hmem := (@mem_turns c since (fun i => s.chosen (ci, i)) _).mpr
    ⟨i, form, turn, hform, hturn, rfl⟩
  exact hcut ((tells_iff hreply).mp (htrue _ hmem turn hturn))

theorem older_cut {ci i : Nat} {turn : Turn} (hc : wanted[ci]? = some c)
    (hturn : c.turns[i]? = some turn) (he : eligible since c i = true) (hreply : turn.reply = none)
    (holder : i < recentFrom c) (hcut : cut turn.user (userChars c i) ≠ turn.user) :
    ∃ budget s, choose budget since wanted = some s ∧
      ¬ Truthful c (show_ since (fun i => s.chosen (ci, i)) c) := by
  obtain ⟨s, hs, hran, hsums⟩ := choose_spec (ample since wanted) since wanted
  obtain ⟨o, ho, hplace⟩ := @offered_of_eligible wanted since c ci i hc he
  obtain ⟨form, hform⟩ := exists_mem_of_ne_nil _ (mem_allOffers ho).forms_ne
  obtain ⟨before, after, hsplit⟩ := append_of_mem ho
  have hran' := hran
  rw [hsplit] at hran'
  obtain ⟨mid, mid', hbefore, hoffered, hafter⟩ := hran'.split
  have hroom := @used_ample wanted since _ _ _ hbefore fun o' ho' => by
    rw [hsplit]
    exact mem_append_left _ ho'
  have hmost := le_most ho hform
  have hgets := hafter.stays (hoffered.gets hform (by omega))
  rw [hplace] at hgets
  obtain ⟨taken, htaken⟩ := Option.ne_none_iff_exists'.mp hgets
  refine ⟨_, s, hs, not_truthful hturn hreply htaken ?_⟩
  obtain ⟨o', ho', hplace', first, last, hforms, -⟩ := chosen_offered hran htaken
  have hmem : taken ∈ o'.forms := by
    rw [hforms]
    simp
  rw [shownTurn_user]
  cases hchars : taken.userChars with
  | none =>
    have hwhole : taken = .whole := by
      cases taken with
      | whole => rfl
      | user n | both n m => cases hchars
    obtain ⟨hrecent, -⟩ | ⟨-, hno⟩ := ho'.whole hplace' hc
    · omega
    · exact absurd (hwhole ▸ hmem) hno
  | some n =>
    obtain rfl := ho'.userChars hplace' hc hmem hchars
    exact hcut

theorem nodup_newest :
    ((tasks since wanted ++ newest since wanted).map (·.place)).Nodup := by
  have htasks : (tasks since wanted).map (·.place) = placesOf (fun c =>
      if c.turns ≠ [] ∧ eligible since c 0 = true ∧ RECENT_TURNS < c.turns.length then [0] else [])
      wanted := by
    rw [tasks, placesOf]
    induction wanted.zipIdx with
    | nil => rfl
    | cons x l ih =>
      obtain ⟨c, ci⟩ := x
      rw [flatMap_cons, ← ih]
      by_cases hlong : c.turns ≠ [] ∧ eligible since c 0 = true ∧ RECENT_TURNS < c.turns.length
      · simp [hlong]
      · simp [hlong]
  have hnewest : (newest since wanted).map (·.place) = placesOf (fun c =>
      ((List.range c.turns.length).drop (recentFrom c)).reverse.filter (eligible since c))
      wanted := by
    rw [newest, placesOf, List.map_flatMap]
    simp [comp_def]
  rw [map_append]
  refine List.Nodup.append ?_ ?_ ?_
  · rw [htasks]
    exact nodup_placesOf fun c => by split <;> simp
  · rw [hnewest]
    refine nodup_placesOf fun c => List.Nodup.filter _ ?_
    exact List.nodup_reverse.mpr (nodup_range.sublist (List.drop_sublist _ _))
  · intro place htask hnew
    obtain ⟨o, ho, rfl⟩ := mem_map.mp htask
    obtain ⟨o', ho', hplace⟩ := mem_map.mp hnew
    obtain ⟨-, ci, c, hc, hzero, hlong⟩ := mem_tasks ho
    obtain ⟨ci', c', i, hc', -, hrecent, rfl⟩ := mem_newest.mp ho'
    rw [hzero] at hplace
    cases hplace
    cases hc.symm.trans hc'
    rw [recentFrom] at hrecent
    omega

theorem newest_cut {ci i : Nat} {turn : Turn} (hc : wanted[ci]? = some c)
    (hturn : c.turns[i]? = some turn) (he : eligible since c i = true) (hreply : turn.reply = none)
    (hrecent : recentFrom c ≤ i) (hcut : cut turn.user (userChars c i) ≠ turn.user)
    (hshorter : cost wanted (ci, i) (.user OLDER_USER_CHARS) < cost wanted (ci, i) .whole) :
    ∃ budget s, choose budget since wanted = some s ∧
      ¬ Truthful c (show_ since (fun i => s.chosen (ci, i)) c) := by
  have ho : (⟨(ci, i), recent⟩ : Offer Place Form) ∈ newest since wanted :=
    mem_newest.mpr ⟨ci, c, i, hc, he, hrecent, rfl⟩
  obtain ⟨before, after, hsplit⟩ := append_of_mem ho
  have hall : allOffers since wanted =
      (tasks since wanted ++ before) ++ ⟨(ci, i), recent⟩ :: (after ++ olders since wanted) := by
    rw [allOffers, hsplit]
    simp
  have hpre : ∀ o ∈ tasks since wanted ++ before, o ∈ allOffers since wanted := fun o h => by
    rw [hall]
    exact mem_append_left _ h
  have hnodup := @nodup_newest wanted since
  rw [hsplit, ← append_assoc, map_append, map_cons, List.nodup_middle,
    nodup_cons, mem_append, not_or, ← map_append] at hnodup
  obtain ⟨⟨hnotpre, hnotafter⟩, honce⟩ := hnodup
  rw [map_append] at honce
  have hfresh : Budget.Fresh (tasks since wanted ++ before) (nothing wanted) :=
    ⟨(nodup_append.mp honce).1, fun _ _ => rfl⟩
  -- what comes before it, with room for everything, and then with just enough
  obtain ⟨mid, hmid, hran, hsums⟩ := @Budget.offers_ran Place Form _ _ _ (cost wanted)
    (ample since wanted) (nothing wanted) _ (places wanted) (headers wanted)
    nothing_sums nodup_places fun o h => (mem_allOffers (hpre o h)).mem_places
  have hboth : cost wanted (ci, i) (.both OLDER_USER_CHARS OLDER_REPLY_CHARS) =
      cost wanted (ci, i) (.user OLDER_USER_CHARS) := cost_noReply hc hturn hreply rfl
  have hle : mid.used + cost wanted (ci, i) (.user OLDER_USER_CHARS) ≤ ample since wanted := by
    have hmost : cost wanted (ci, i) (.user OLDER_USER_CHARS) ≤ most since wanted :=
      le_most (o := ⟨(ci, i), recent⟩) (by rw [hall]; simp) (by simp [recent, older])
    have := used_ample hran hpre
    omega
  have hsame := Budget.offers_same nothing_sums nodup_places
    (fun o h => (mem_allOffers (hpre o h)).mem_places) hfresh hle hmid (by omega)
  obtain ⟨s, hs, -, -⟩ :=
    choose_spec (mid.used + cost wanted (ci, i) (.user OLDER_USER_CHARS)) since wanted
  refine ⟨_, s, hs, ?_⟩
  obtain ⟨mid', hoffer, hoffered⟩ := @Budget.offer_spec Place Form _ _ _ (cost wanted)
    (mid.used + cost wanted (ci, i) (.user OLDER_USER_CHARS)) mid ⟨(ci, i), recent⟩
    (hsums.had_le _)
  have hrest : ∀ o ∈ after ++ olders since wanted, o ∈ allOffers since wanted := fun o h => by
    rw [hall]
    exact mem_append_right _ (mem_cons_of_mem _ h)
  obtain ⟨s', hs', hran', -⟩ := @Budget.offers_ran Place Form _ _ _ (cost wanted)
    (mid.used + cost wanted (ci, i) (.user OLDER_USER_CHARS)) mid' _ (places wanted)
    (headers wanted)
    (hsums.offered nodup_places (mem_places.mpr ⟨c, hc, eligible_lt he⟩) hoffered) nodup_places
    fun o h => (mem_allOffers (hrest o h)).mem_places
  have hsame' : s' = s := by
    have hchoose : choose (mid.used + cost wanted (ci, i) (.user OLDER_USER_CHARS)) since wanted =
        some s' := by
      have heq : choose (mid.used + cost wanted (ci, i) (.user OLDER_USER_CHARS)) since wanted =
          Budget.offers (cost wanted) _ (nothing wanted) (allOffers since wanted) := rfl
      rw [heq, hall, Budget.offers_append, hsame, bind_some, Budget.offers, hoffer,
        bind_some, hs']
    exact Option.some.inj (hchoose.symm.trans hs)
  subst hsame'
  -- it is offered whole, which does not fit, and then cut, which does
  have hnone : mid.chosen (ci, i) = none := by
    rw [hran.untouched fun o h hplace => hnotpre (mem_map.mpr ⟨o, h, hplace⟩)]
    rfl
  have hhad : Budget.had (cost wanted) mid (ci, i) = 0 := by
    rw [Budget.had, hnone]
    rfl
  have hlater : ∀ o ∈ after ++ olders since wanted, o.place ≠ (ci, i) := by
    intro o h hplace
    obtain h | h := mem_append.mp h
    · exact hnotafter (mem_map.mpr ⟨o, h, hplace⟩)
    · obtain ⟨ci', c', i', hc', -, holder, rfl⟩ := mem_olders.mp h
      cases hplace
      cases hc.symm.trans hc'
      omega
  cases hoffered with
  | kept hall =>
    have := hall hnone (.both OLDER_USER_CHARS OLDER_REPLY_CHARS) (by simp [recent, older])
    dsimp only at this
    omega
  | took first form last hforms hfits =>
    dsimp only at hfits
    have hmem : form ∈ recent := by
      have hin : form ∈ first ++ form :: last := by simp
      rwa [← hforms] at hin
    have hchars : form.userChars = some OLDER_USER_CHARS := by
      simp only [recent, older, mem_cons, not_mem_nil, or_false] at hmem
      obtain rfl | rfl | rfl := hmem
      · omega
      · rfl
      · rfl
    have hchosen : s'.chosen (ci, i) = some form := by
      rw [hran'.untouched hlater]
      exact Budget.put_self _ _ _ _
    apply not_truthful hturn hreply hchosen
    have hkeeps : userChars c i = OLDER_USER_CHARS := if_neg (by omega)
    rw [shownTurn_user, hchars, ← hkeeps]
    exact hcut

end

section
variable {wanted : List Conversation} {since : Option Int} {s : Choice Place Form}

theorem forall₂_digest {R : Conversation → Shown → Prop} :
    List.Forall₂ R wanted (digestOf since wanted s) ↔ ∀ ci c, wanted[ci]? = some c →
      R c (show_ since (fun i => s.chosen (ci, i)) c) := by
  have hfst : wanted.zipIdx.map Prod.fst = wanted := List.zipIdx_map_fst 0 wanted
  have hself : List.Forall₂ R wanted (digestOf since wanted s) ↔
      List.Forall₂ R (wanted.zipIdx.map Prod.fst) (digestOf since wanted s) := by rw [hfst]
  rw [hself, digestOf, List.forall₂_map_left_iff, List.forall₂_map_right_iff, List.forall₂_same]
  constructor
  · intro h ci c hc
    exact h (c, ci) (mem_zipIdx_iff_getElem?.mpr hc)
  · rintro h ⟨c, ci⟩ hx
    exact h ci c (mem_zipIdx_iff_getElem?.mp hx)

end

theorem select_eq (conversations : List Conversation) (budget : Nat) (conversation : Option Text)
    (since : Option Int) :
    select conversations ⟨budget, conversation, since⟩ =
      (choose budget since (wanted conversations conversation)).map
        (digestOf since (wanted conversations conversation)) := rfl

/-- **The digest**: within every budget there is one; it shows each wanted conversation's turns
    newest first and once, and they and those left out are exactly the eligible ones; what is
    written is at most a character for each turn beyond the budget, or beyond the headers. It is
    within the budget, whatever that is, only where no turn is eligible; and what it says of replies
    is true, whatever the budget, exactly if each eligible turn without a reply has a message that
    no cut changes, or, if it is a newer one, one that is not written shorter for being cut. -/
theorem digest_tells (conversations : List Conversation) (conversation : Option Text)
    (since : Option Int) :
    (∀ budget, ∃ digest, select conversations ⟨budget, conversation, since⟩ = some digest ∧
        List.Forall₂ (Shows since) (wanted conversations conversation) digest ∧
        written digest ≤ max budget (headers (wanted conversations conversation)) +
          shownCount digest) ∧
      ((∀ budget digest, select conversations ⟨budget, conversation, since⟩ = some digest →
          written digest ≤ max budget (headers (wanted conversations conversation))) ↔
        ∀ c ∈ wanted conversations conversation, ∀ i, eligible since c i = false) ∧
      ((∀ budget digest, select conversations ⟨budget, conversation, since⟩ = some digest →
          List.Forall₂ Truthful (wanted conversations conversation) digest) ↔
        ∀ c ∈ wanted conversations conversation, Telling since c) := by
  generalize hwanted : wanted conversations conversation = chosen
  have hselect : ∀ budget, select conversations ⟨budget, conversation, since⟩ =
      (choose budget since chosen).map (digestOf since chosen) := by
    intro budget
    rw [select_eq, hwanted]
  refine ⟨fun budget => ?_, ⟨fun hwithin c hc i => ?_, fun hnone budget digest hdigest => ?_⟩,
    ⟨fun htrue c hc i turn hturn he hreply => ?_, fun htelling budget digest hdigest => ?_⟩⟩
  · obtain ⟨s, hs, hran, hsums⟩ := choose_spec budget since chosen
    refine ⟨digestOf since chosen s, by rw [hselect, hs]; rfl, ?_, ?_⟩
    · refine forall₂_digest.mpr fun ci c hc => show_shows fun i hi => ?_
      exact chosen_eligible hran hc hi
    · have hused := hran.used_le
      have hwritten := @written_eq chosen since s hsums
      have hstart : (nothing chosen).used = headers chosen := rfl
      omega
  · by_contra he
    obtain ⟨ci, hci⟩ := mem_iff_getElem?.mp hc
    obtain ⟨budget, s, hs, hover⟩ :=
      @some_budget_exceeded chosen since c ci i hci (Bool.not_eq_false _ ▸ he)
    have := hwithin budget _ (by rw [hselect, hs]; rfl)
    omega
  · obtain ⟨s, hs, hran, hsums⟩ := choose_spec budget since chosen
    have heq : digestOf since chosen s = digest := by
      rw [hselect, hs] at hdigest
      exact Option.some.inj hdigest
    subst heq
    have hused := hran.used_le
    have hwritten := @written_eq chosen since s hsums
    have hstart : (nothing chosen).used = headers chosen := rfl
    have hcount : shownCount (digestOf since chosen s) = 0 := by
      refine List.sum_eq_zero fun n hn => ?_
      obtain ⟨shown, hshown, rfl⟩ := mem_map.mp hn
      obtain ⟨⟨c, ci⟩, hc, rfl⟩ := mem_map.mp hshown
      have hget := mem_zipIdx_iff_getElem?.mp hc
      refine length_eq_zero_iff.mpr (eq_nil_iff_forall_not_mem.mpr fun t ht => ?_)
      obtain ⟨i, form, turn, hform, -, -⟩ := mem_turns.mp ht
      have he := chosen_eligible hran hget (by rw [hform]; nofun)
      rw [hnone c (mem_of_getElem? hget)] at he
      cases he
    omega
  · by_contra hno
    obtain ⟨hcut, hlong⟩ := not_or.mp hno
    obtain ⟨ci, hci⟩ := mem_iff_getElem?.mp hc
    have hsome : ∃ budget s, choose budget since chosen = some s ∧
        ¬ Truthful c (show_ since (fun i => s.chosen (ci, i)) c) := by
      by_cases hrecent : recentFrom c ≤ i
      · refine newest_cut hci hturn he hreply hrecent hcut ?_
        rw [cost_eq hci hturn, cost_eq hci hturn]
        have := not_and.mp hlong hrecent
        omega
      · exact older_cut hci hturn he hreply (by omega) hcut
    obtain ⟨budget, s, hs, hfalse⟩ := hsome
    have hall := htrue budget _ (by rw [hselect, hs]; rfl)
    exact hfalse (forall₂_digest.mp hall ci c hci)
  · obtain ⟨s, hs, hran, -⟩ := choose_spec budget since chosen
    have heq : digestOf since chosen s = digest := by
      rw [hselect, hs] at hdigest
      exact Option.some.inj hdigest
    subst heq
    refine forall₂_digest.mpr fun ci c hc => ?_
    exact truthful_of_telling hran hc (htelling c (mem_of_getElem? hc))

/-- A conversation of one message, of so many characters, that has no reply. -/
def asked (n : Nat) : Conversation :=
  ⟨"conv-0001".toList, "claude".toList, none, 0, false, none, [⟨0, List.replicate n 'a', []⟩], none⟩

/-- A message that just fits is written with a character too many, and one that is cut is said to
    have a reply that is left out. -/
theorem asked_not_told :
    (select [asked 2] ⟨177, none, none⟩).map written = some 178 ∧
      headers [asked 2] = 116 ∧
      (select [asked 1100] ⟨1205, none, none⟩).map (fun digest =>
        digest.map fun shown => shown.turns.map fun t => (t.n, renderReply t)) =
        some [[(1, LEFT_OUT)]] ∧
      (asked 1100).turns.map (·.reply) = [none] := by
  decide +kernel

end Yardsort.Activity.Digest
