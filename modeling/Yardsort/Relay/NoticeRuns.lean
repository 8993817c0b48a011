import Yardsort.Relay.Notices

/- What telling hosts keeps. A notice is queued at most once on a link, whatever the order
   of sections (`Once`): remembering comes first, and only one task can be between
   remembering a grant and queueing it. That every round leaves nothing untold takes
   `Careful`: then a grant a round has read is remembered on its link, still to be told
   by the round, or found by it (`Covers`), and what is remembered is queued. -/
namespace Yardsort.Relay.Notices
open Yardsort.Lib Yardsort.Proto

variable {w w' : World} {a : Action}

def Asked (w : World) (host : HostId) (grant : GrantId) : Prop :=
  ∃ g ∈ w.grants, g.host = host ∧ g.id = grant

/-- A link after a step that tells it nothing. -/
structure Keeps (l l' : HostLink) : Prop where
  inst : l'.inst = l.inst
  host : l'.host = l.host
  told : l'.told = l.told
  noticed : l'.noticed = l.noticed
  stage : l.stage ≠ .noted → l'.stage ≠ .noted ∧ (l'.stage = .attached → l.stage = .attached)
  closing : l'.out.closing = none → l.out.closing = none

theorem Keeps.refl (l : HostLink) : Keeps l l :=
  ⟨rfl, rfl, rfl, rfl, fun h => ⟨h, id⟩, id⟩

theorem Keeps.opened {l l' : HostLink} (h : Keeps l l') (hstage : l.stage ≠ .noted)
    (hopen : l'.opened = true) : l.opened = true := by
  simp only [HostLink.opened, Bool.and_eq_true, decide_eq_true_eq, isNone_iff_eq_none] at *
  exact ⟨(h.stage hstage).2 hopen.1, h.closing hopen.2⟩

structure Quiet (w w' : World) : Prop where
  tellers : w'.tellers = w.tellers
  asked : ∀ host grant, Asked w host grant → Asked w' host grant
  back : ∀ (k : Nat) (l' : HostLink), w'.links[k]? = some l' →
    (l'.told = [] ∧ l'.noticed = [] ∧ l'.stage = .noted) ∨ ∃ l, w.links[k]? = some l ∧ Keeps l l'
  forth : ∀ (k : Nat) (l : HostLink), w.links[k]? = some l →
    ∃ l', w'.links[k]? = some l' ∧ Keeps l l'
  one : (∀ (k j : Nat) (l x : HostLink), w.links[k]? = some l → w.links[j]? = some x →
      l.stage = .attached → x.stage = .attached → l.inst = x.inst → l.host = x.host → k = j) →
    ∀ (k j : Nat) (l x : HostLink), w'.links[k]? = some l → w'.links[j]? = some x →
      l.stage = .attached → x.stage = .attached → l.inst = x.inst → l.host = x.host → k = j

theorem Quiet.of_links (htellers : w'.tellers = w.tellers) (hlinks : w'.links = w.links)
    (hasked : ∀ host grant, Asked w host grant → Asked w' host grant) : Quiet w w' where
  tellers := htellers
  asked := hasked
  back k l' h := .inr ⟨l', hlinks ▸ h, .refl l'⟩
  forth k l h := ⟨l, hlinks ▸ h, .refl l⟩
  one h := by rw [hlinks]; exact h

theorem Quiet.putLink {k : Nat} {l l' : HostLink} (hl : w.links[k]? = some l) (hkeeps : Keeps l l')
    (hstage : l'.stage = .attached → l.stage = .attached) : Quiet w (w.putLink k l') where
  tellers := rfl
  asked _ _ h := h
  back := forall_set hl (fun _ x h => .inr ⟨x, h, .refl x⟩) (.inr ⟨l, hl, hkeeps⟩)
  forth j x h := by
    by_cases hj : j = k
    · subst hj
      cases hl.symm.trans h
      exact ⟨l', get_set_self hl, hkeeps⟩
    · exact ⟨x, (get_set_ne hj).trans h, .refl x⟩
  one hone := by
    have back {j : Nat} {x : HostLink} (h : (w.links.set k l')[j]? = some x)
        (hx : x.stage = .attached) : ∃ x₀, w.links[j]? = some x₀ ∧ x₀.stage = .attached ∧
          x.inst = x₀.inst ∧ x.host = x₀.host := by
      obtain ⟨rfl, rfl⟩ | ⟨-, h⟩ := get_set hl h
      · exact ⟨l, hl, hstage hx, hkeeps.inst, hkeeps.host⟩
      · exact ⟨x, h, hx, rfl, rfl⟩
    intro j i x y hx hy hxs hys hinst hhost
    obtain ⟨x₀, hx₀, hxs₀, hxi, hxh⟩ := back hx hxs
    obtain ⟨y₀, hy₀, hys₀, hyi, hyh⟩ := back hy hys
    exact hone j i x₀ y₀ hx₀ hy₀ hxs₀ hys₀ (by rw [← hxi, ← hyi, hinst]) (by rw [← hxh, ← hyh, hhost])

theorem Quiet.note {inst : Instance} {host : HostId} {places : HostId → Option LinkPlace} :
    Quiet w { w with
      places := places
      links := w.links ++ [⟨inst, host, .new, [], .noted, []⟩] } where
  tellers := rfl
  asked _ _ h := h
  back k l' h := by
    obtain h | ⟨-, rfl⟩ := get_append h
    · exact .inr ⟨l', h, .refl l'⟩
    · exact .inl ⟨rfl, rfl, rfl⟩
  forth k l h := ⟨l, get_append_left h, .refl l⟩
  one hone := by
    intro j i x y hx hy hxs hys
    obtain hx | ⟨-, rfl⟩ := get_append hx
    · obtain hy | ⟨-, rfl⟩ := get_append hy
      · exact hone j i x y hx hy hxs hys
      · cases hys
    · cases hxs

theorem Quiet.attach {k : Nat} {l : HostLink} (hl : w.links[k]? = some l)
    (hnoted : l.stage = .noted) : Quiet w (w.attach k l) := by
  -- what replacing does to a link
  let replaced (x : HostLink) : HostLink :=
    if x.inst = l.inst && x.host = l.host && x.stage = .attached then { x with stage := .gone }
    else x
  have hreplaced (x : HostLink) : Keeps x (replaced x) := by
    unfold replaced
    split
    · rename_i h
      simp only [Bool.and_eq_true, decide_eq_true_eq] at h
      exact ⟨rfl, rfl, rfl, rfl, fun _ => ⟨by simp, by simp⟩, id⟩
    · exact .refl x
  have hkeeps : Keeps l { l with stage := .attached } :=
    ⟨rfl, rfl, rfl, rfl, fun h => absurd hnoted h, id⟩
  have hmap : (w.links.map replaced)[k]? = some (replaced l) := by
    rw [List.getElem?_map, hl]
    rfl
  refine ⟨rfl, fun _ _ h => h, ?_, ?_, ?_⟩
  · intro j x h
    obtain ⟨rfl, rfl⟩ | ⟨-, h⟩ := get_set hmap h
    · exact .inr ⟨l, hl, hkeeps⟩
    · rw [List.getElem?_map] at h
      obtain ⟨x₀, hx₀, rfl⟩ := map_eq_some_iff.mp h
      exact .inr ⟨x₀, hx₀, hreplaced x₀⟩
  · intro j x h
    by_cases hj : j = k
    · subst hj
      cases hl.symm.trans h
      exact ⟨_, get_set_self hmap, hkeeps⟩
    · refine ⟨replaced x, (get_set_ne hj).trans ?_, hreplaced x⟩
      rw [List.getElem?_map, h]
      rfl
  · intro hone
    -- another link attached there was replaced
    have back {j : Nat} {x : HostLink}
        (h : ((w.links.map replaced).set k { l with stage := .attached })[j]? = some x)
        (hx : x.stage = .attached) : (j = k ∧ x.inst = l.inst ∧ x.host = l.host) ∨
          (j ≠ k ∧ w.links[j]? = some x ∧ ¬ (x.inst = l.inst ∧ x.host = l.host)) := by
      obtain ⟨rfl, rfl⟩ | ⟨hj, h⟩ := get_set hmap h
      · exact .inl ⟨rfl, rfl, rfl⟩
      · rw [List.getElem?_map] at h
        obtain ⟨x₀, hx₀, rfl⟩ := map_eq_some_iff.mp h
        right
        unfold replaced at hx ⊢
        split at hx
        · cases hx
        rename_i hnot
        simp only [hx, decide_true, Bool.and_true, Bool.and_eq_true, decide_eq_true_eq] at hnot
        simp only [hnot, hx, decide_true, Bool.and_true, Bool.and_eq_true, decide_eq_true_eq,
          if_false]
        exact ⟨hj, hx₀, not_false⟩
    intro j i x y hx hy hxs hys hinst hhost
    obtain ⟨rfl, hxi, hxh⟩ | ⟨hjk, hx, hxn⟩ := back hx hxs
    · obtain ⟨rfl, -, -⟩ | ⟨-, -, hyn⟩ := back hy hys
      · rfl
      · exact absurd ⟨hinst.symm.trans hxi, hhost.symm.trans hxh⟩ hyn
    · obtain ⟨rfl, hyi, hyh⟩ | ⟨-, hy, -⟩ := back hy hys
      · exact absurd ⟨hinst.trans hyi, hhost.trans hyh⟩ hxn
      · exact hone j i x y hx hy hxs hys hinst hhost

inductive Takes (w : World) : Action → World → Prop
  | quiet {a : Action} {w' : World} (quiet : Quiet w w') : Takes w a w'
  | starts {a : Action} (t : Teller) (links : t.links = [])
      (turn : t.turn = .next ∨ t.turn = .reading) (todo : ∀ p ∈ t.todo, Asked w p.1 p.2) :
    Takes w a { w with tellers := w.tellers ++ [t] }
  | reads (i : Nat) (t : Teller) (teller : w.tellers[i]? = some t) (turn : t.turn = .reading) :
    Takes w (.read i true) (w.putTeller i (w.read t))
  | fails (i : Nat) (t : Teller) (teller : w.tellers[i]? = some t) (turn : t.turn = .reading) :
    Takes w (.read i false) (w.putTeller i { t with turn := .failed })
  | ends (i : Nat) (t : Teller) (teller : w.tellers[i]? = some t) (turn : t.turn = .next)
      (todo : t.todo = []) : Takes w (.go i) (w.putTeller i { t with turn := .ended })
  | skips (i : Nat) (t : Teller) (host : HostId) (grant : GrantId)
      (rest : List (HostId × GrantId)) (teller : w.tellers[i]? = some t) (turn : t.turn = .next)
      (todo : t.todo = (host, grant) :: rest) (current : w.current t.inst host = none) :
    Takes w (.go i) (w.putTeller i { t with todo := rest })
  | finds (i : Nat) (t : Teller) (host : HostId) (grant : GrantId)
      (rest : List (HostId × GrantId)) (k : Nat) (teller : w.tellers[i]? = some t)
      (turn : t.turn = .next) (todo : t.todo = (host, grant) :: rest)
      (current : w.current t.inst host = some k) :
    Takes w (.go i) (w.putTeller i { t with todo := rest, turn := .found k grant })
  | knows (i : Nat) (t : Teller) (k : Nat) (grant : GrantId) (l : HostLink)
      (teller : w.tellers[i]? = some t) (turn : t.turn = .found k grant)
      (link : w.links[k]? = some l) (told : grant ∈ l.told) :
    Takes w (.go i) (w.putTeller i { t with turn := .next })
  | remembers (i : Nat) (t : Teller) (k : Nat) (grant : GrantId) (l : HostLink)
      (teller : w.tellers[i]? = some t) (turn : t.turn = .found k grant)
      (link : w.links[k]? = some l) (told : grant ∉ l.told) :
    Takes w (.go i) ((w.putLink k { l with told := grant :: l.told }).putTeller i
      { t with turn := .remembered k grant })
  | queues (i : Nat) (t : Teller) (k : Nat) (grant : GrantId) (l : HostLink)
      (teller : w.tellers[i]? = some t) (turn : t.turn = .remembered k grant)
      (link : w.links[k]? = some l) :
    Takes w (.go i) ((w.putLink k { l with
      out := (l.out.push (pairingRequested grant)).2
      noticed := if (l.out.push (pairingRequested grant)).1 then grant :: l.noticed
        else l.noticed }).putTeller i { t with turn := .next })

theorem takes_of_go {i : Nat} {t : Teller} (ht : w.tellers[i]? = some t)
    (h : w.go i t = some w') : Takes w (.go i) w' := by
  unfold World.go at h
  split at h
  · rename_i hturn
    split at h
    · rename_i htodo
      cases h
      exact .ends i t ht hturn htodo
    · rename_i host grant rest htodo
      split at h
      · rename_i hcurrent
        cases h
        exact .skips i t host grant rest ht hturn htodo hcurrent
      · rename_i k hcurrent
        cases h
        exact .finds i t host grant rest k ht hturn htodo hcurrent
  · rename_i k grant hturn
    split at h
    · cases h
    rename_i l hl
    split at h
    · rename_i htold
      cases h
      exact .knows i t k grant l ht hturn hl htold
    · rename_i htold
      cases h
      exact .remembers i t k grant l ht hturn hl htold
  · rename_i k grant hturn
    split at h
    · cases h
    · rename_i l hl
      cases h
      exact .queues i t k grant l ht hturn hl
  · cases h
  · cases h
  · cases h

theorem takes_of_step (h : w.step a = some w') : Takes w a w' := by
  cases a with
  | later ms =>
    cases h
    exact .quiet (.of_links rfl rfl fun _ _ h => h)
  | ask host grant expiresAt =>
    simp only [World.step, ite_none_right_eq_some, Option.some.injEq] at h
    obtain ⟨-, rfl⟩ := h
    refine .quiet (.of_links rfl rfl ?_)
    intro host grant ⟨g, hg, hsame⟩
    exact ⟨g, mem_append_left _ hg, hsame⟩
  | settle grant =>
    cases h
    refine .quiet (.of_links rfl rfl ?_)
    intro host other ⟨g, hg, hhost, hid⟩
    refine ⟨_, mem_map_of_mem hg, ?_⟩
    split
    · exact ⟨hhost, hid⟩
    · exact ⟨hhost, hid⟩
  | note inst host =>
    cases h
    exact .quiet .note
  | attach k =>
    simp only [World.step] at h
    split at h
    · rename_i l hl
      rw [ite_none_right_eq_some, Option.some.injEq] at h
      obtain ⟨hnoted, rfl⟩ := h
      exact .quiet (.attach hl hnoted)
    · cases h
  | close k reason =>
    simp only [World.step] at h
    split at h
    · rename_i l hl
      cases h
      refine .quiet (.putLink hl ⟨rfl, rfl, rfl, rfl, fun h => ⟨h, id⟩, ?_⟩ id)
      exact fun hnone => absurd hnone (l.out.close_closing reason)
    · cases h
  | detach k =>
    simp only [World.step] at h
    split at h
    · rename_i l hl
      rw [ite_none_right_eq_some, Option.some.injEq] at h
      obtain ⟨hstage, rfl⟩ := h
      exact .quiet (.putLink hl ⟨rfl, rfl, rfl, rfl, fun _ => ⟨by simp, by simp⟩, id⟩ (by simp))
    · cases h
  | forget k =>
    simp only [World.step] at h
    split at h
    · rename_i l hl
      rw [ite_none_right_eq_some, Option.some.injEq] at h
      obtain ⟨-, rfl⟩ := h
      refine .quiet (.of_links ?_ ?_ ?_)
      all_goals unfold World.forget; split
      all_goals first | rfl | exact fun _ _ h => h
    · cases h
  | carry k message =>
    simp only [World.step] at h
    split at h
    · rename_i l hl
      cases h
      refine .quiet (.putLink hl ⟨rfl, rfl, rfl, rfl, fun h => ⟨h, id⟩, ?_⟩ id)
      exact fun hnone => (l.out.push_closing message) ▸ hnone
    · cases h
  | send k =>
    simp only [World.step] at h
    split at h
    · rename_i l hl
      obtain ⟨⟨next, out⟩, hnext, rfl⟩ := map_eq_some_iff.mp h
      refine .quiet (.putLink hl ⟨rfl, rfl, rfl, rfl, fun h => ⟨h, id⟩, ?_⟩ id)
      exact fun hnone => (Outbox.next_closing hnext) ▸ hnone
    · cases h
  | notice inst host grant =>
    simp only [World.step, ite_none_right_eq_some, Option.some.injEq] at h
    obtain ⟨hasked, rfl⟩ := h
    refine .starts _ rfl (.inl rfl) ?_
    intro p hp
    rw [mem_singleton.mp hp]
    exact hasked
  | round inst =>
    cases h
    exact .starts _ rfl (.inr rfl) fun _ hp => (not_mem_nil hp).elim
  | read i answered =>
    simp only [World.step] at h
    split at h
    · rename_i t ht
      rw [ite_none_right_eq_some, Option.some.injEq] at h
      obtain ⟨hturn, rfl⟩ := h
      cases answered with
      | true => exact .reads i t ht hturn
      | false => exact .fails i t ht hturn
    · cases h
  | go i =>
    simp only [World.step] at h
    split at h
    · rename_i t ht
      exact takes_of_go ht h
    · cases h

/-- A notice is queued once: it was remembered before, by the one that queues it. -/
structure Once (w : World) : Prop where
  noticed : ∀ (k : Nat) (l : HostLink), w.links[k]? = some l →
    l.noticed.Nodup ∧ ∀ grant ∈ l.noticed, grant ∈ l.told
  told : ∀ (k : Nat) (l : HostLink), w.links[k]? = some l → ∀ grant ∈ l.told, Asked w l.host grant
  todo : ∀ (i : Nat) (t : Teller), w.tellers[i]? = some t → ∀ p ∈ t.todo, Asked w p.1 p.2
  found : ∀ (i : Nat) (t : Teller), w.tellers[i]? = some t → ∀ k grant, t.turn = .found k grant →
    ∃ l, w.links[k]? = some l ∧ Asked w l.host grant
  remembered : ∀ (i : Nat) (t : Teller), w.tellers[i]? = some t →
    ∀ k grant, t.turn = .remembered k grant →
      ∃ l, w.links[k]? = some l ∧ grant ∈ l.told ∧ grant ∉ l.noticed
  single : ∀ (i j : Nat) (t u : Teller), w.tellers[i]? = some t → w.tellers[j]? = some u →
    ∀ k grant, t.turn = .remembered k grant → u.turn = .remembered k grant → i = j

theorem once_new : Once .new where
  noticed k l h := by simp [World.new] at h
  told k l h := by simp [World.new] at h
  todo i t h := by simp [World.new] at h
  found i t h := by simp [World.new] at h
  remembered i t h := by simp [World.new] at h
  single i j t u h := by simp [World.new] at h

theorem Once.quiet (h : Once w) (hq : Quiet w w') : Once w' where
  noticed k l' hl' := by
    obtain ⟨-, hnoticed, -⟩ | ⟨l, hl, hk⟩ := hq.back k l' hl'
    · simp [hnoticed]
    · rw [hk.noticed, hk.told]
      exact h.noticed k l hl
  told k l' hl' grant hg := by
    obtain ⟨htold, -⟩ | ⟨l, hl, hk⟩ := hq.back k l' hl'
    · simp [htold] at hg
    · rw [hk.host]
      exact hq.asked _ _ (h.told k l hl grant (hk.told ▸ hg))
  todo i t ht p hp := hq.asked _ _ (h.todo i t (hq.tellers ▸ ht) p hp)
  found i t ht k grant hturn := by
    obtain ⟨l, hl, hasked⟩ := h.found i t (hq.tellers ▸ ht) k grant hturn
    obtain ⟨l', hl', hk⟩ := hq.forth k l hl
    exact ⟨l', hl', hk.host ▸ hq.asked _ _ hasked⟩
  remembered i t ht k grant hturn := by
    obtain ⟨l, hl, htold, hnot⟩ := h.remembered i t (hq.tellers ▸ ht) k grant hturn
    obtain ⟨l', hl', hk⟩ := hq.forth k l hl
    exact ⟨l', hl', by rwa [hk.told], by rwa [hk.noticed]⟩
  single i j t u ht hu := h.single i j t u (hq.tellers ▸ ht) (hq.tellers ▸ hu)

theorem Once.putTeller {i : Nat} {t t' : Teller} (h : Once w) (ht : w.tellers[i]? = some t)
    (htodo : ∀ p ∈ t'.todo, Asked w p.1 p.2)
    (hfound : ∀ k grant, t'.turn = .found k grant → ∃ l, w.links[k]? = some l ∧ Asked w l.host grant)
    (hturn : ∀ k grant, t'.turn ≠ .remembered k grant) : Once (w.putTeller i t') where
  noticed := h.noticed
  told := h.told
  todo := forall_set ht h.todo htodo
  found := forall_set ht h.found hfound
  remembered := forall_set ht h.remembered fun k grant hr => absurd hr (hturn k grant)
  single j m u v hu hv k grant hr hr' := by
    obtain ⟨-, rfl⟩ | ⟨-, hu⟩ := get_set ht hu
    · exact absurd hr (hturn k grant)
    · obtain ⟨-, rfl⟩ | ⟨-, hv⟩ := get_set ht hv
      · exact absurd hr' (hturn k grant)
      · exact h.single j m u v hu hv k grant hr hr'

theorem current_spec {inst : Instance} {host : HostId} {k : Nat}
    (h : w.current inst host = some k) :
    ∃ l, w.links[k]? = some l ∧ l.inst = inst ∧ l.host = host ∧ l.stage = .attached := by
  obtain ⟨hlt, hp, -⟩ := List.findIdx?_eq_some_iff_getElem.mp h
  simp only [Bool.and_eq_true, decide_eq_true_eq] at hp
  exact ⟨w.links[k], List.getElem?_eq_getElem hlt, hp.1.1, hp.1.2, hp.2⟩

theorem waiting_asked {p : HostId × GrantId} (h : p ∈ w.waiting) : Asked w p.1 p.2 := by
  obtain ⟨g, hg, rfl⟩ := mem_map.mp h
  exact ⟨g, (mem_filter.mp hg).1, rfl, rfl⟩

theorem Once.starts {t : Teller} (h : Once w) (hturn : t.turn = .next ∨ t.turn = .reading)
    (htodo : ∀ p ∈ t.todo, Asked w p.1 p.2) : Once { w with tellers := w.tellers ++ [t] } := by
  have hnot : ∀ k grant, t.turn ≠ .remembered k grant := by
    intro k grant
    obtain hturn | hturn := hturn <;> simp [hturn]
  exact
    { noticed := h.noticed
      told := h.told
      todo := by
        intro i u hu
        obtain hu | ⟨-, rfl⟩ := get_append hu
        · exact h.todo i u hu
        · exact htodo
      found := by
        intro i u hu k grant hfound
        obtain hu | ⟨-, rfl⟩ := get_append hu
        · exact h.found i u hu k grant hfound
        · obtain hturn | hturn := hturn <;> simp [hturn] at hfound
      remembered := by
        intro i u hu k grant hr
        obtain hu | ⟨-, rfl⟩ := get_append hu
        · exact h.remembered i u hu k grant hr
        · exact absurd hr (hnot k grant)
      single := by
        intro i j u v hu hv k grant hr hr'
        obtain hu | ⟨-, rfl⟩ := get_append hu
        · obtain hv | ⟨-, rfl⟩ := get_append hv
          · exact h.single i j u v hu hv k grant hr hr'
          · exact absurd hr' (hnot k grant)
        · exact absurd hr (hnot k grant) }

section
variable {i k : Nat} {t : Teller} {l : HostLink} {grant : GrantId} (h : Once w)
  (ht : w.tellers[i]? = some t) (hl : w.links[k]? = some l)
include h ht hl

theorem Once.remembers (hturn : t.turn = .found k grant) (htold : grant ∉ l.told) :
    Once ((w.putLink k { l with told := grant :: l.told }).putTeller i
      { t with turn := .remembered k grant }) := by
  obtain ⟨l', hl', hasked⟩ := h.found i t ht k grant hturn
  cases hl.symm.trans hl'
  exact
    { noticed := by
        obtain ⟨hnodup, hsub⟩ := h.noticed k l hl
        exact forall_set hl h.noticed ⟨hnodup, fun g hg => mem_cons_of_mem _ (hsub g hg)⟩
      told := forall_set hl h.told (forall_mem_cons.mpr ⟨hasked, h.told k l hl⟩)
      todo := forall_set ht h.todo (h.todo i t ht)
      found := by
        refine forall_set ht (fun j u hu m g hfound => ?_) nofun
        obtain ⟨x, hx, hxa⟩ := h.found j u hu m g hfound
        exact get_set_some hl id hx hxa
      remembered := by
        refine forall_set ht (fun j u hu m g hr => ?_) fun m g hr => ?_
        · obtain ⟨x, hx, hxt⟩ := h.remembered j u hu m g hr
          exact get_set_some hl (fun ha => ⟨mem_cons_of_mem _ ha.1, ha.2⟩) hx hxt
        · cases hr
          exact ⟨_, get_set_self hl, mem_cons_self .., fun hg => htold ((h.noticed k l hl).2 _ hg)⟩
      single := by
        -- no one had remembered it before
        have hfresh {j : Nat} {u : Teller} (hu : w.tellers[j]? = some u) :
            u.turn ≠ .remembered k grant := by
          intro hr
          obtain ⟨x, hx, hxt, -⟩ := h.remembered j u hu k grant hr
          cases hl.symm.trans hx
          exact htold hxt
        intro j m u v hu hv k' g hr hr'
        obtain ⟨rfl, rfl⟩ | ⟨-, hu'⟩ := get_set ht hu
        · obtain ⟨rfl, -⟩ | ⟨-, hv'⟩ := get_set ht hv
          · rfl
          · cases hr
            exact absurd hr' (hfresh hv')
        · obtain ⟨rfl, rfl⟩ | ⟨-, hv'⟩ := get_set ht hv
          · cases hr'
            exact absurd hr (hfresh hu')
          · exact h.single j m u v hu' hv' k' g hr hr' }

theorem Once.queues (hturn : t.turn = .remembered k grant) :
    Once ((w.putLink k { l with
      out := (l.out.push (pairingRequested grant)).2
      noticed := if (l.out.push (pairingRequested grant)).1 then grant :: l.noticed
        else l.noticed }).putTeller i { t with turn := .next }) := by
  obtain ⟨l', hl', htold, hnot⟩ := h.remembered i t ht k grant hturn
  cases hl.symm.trans hl'
  exact
    { noticed := by
        refine forall_set hl h.noticed ?_
        obtain ⟨hnodup, hsub⟩ := h.noticed k l hl
        dsimp only
        split
        · exact ⟨nodup_cons.mpr ⟨hnot, hnodup⟩, by simpa [htold] using hsub⟩
        · exact ⟨hnodup, hsub⟩
      told := forall_set hl h.told (h.told k l hl)
      todo := forall_set ht h.todo (h.todo i t ht)
      found := by
        refine forall_set ht (fun j u hu m g hfound => ?_) nofun
        obtain ⟨x, hx, hxa⟩ := h.found j u hu m g hfound
        exact get_set_some hl id hx hxa
      remembered := by
        intro j u hu m g hr
        obtain ⟨-, rfl⟩ | ⟨hji, hu'⟩ := get_set ht hu
        · cases hr
        · obtain ⟨x, hx, hxt, hxn⟩ := h.remembered j u hu' m g hr
          by_cases hm : m = k
          · subst hm
            cases hl.symm.trans hx
            -- only this teller had remembered this grant
            have hne : g ≠ grant := by
              rintro rfl
              exact hji (h.single j i u t hu' ht m g hr hturn)
            refine ⟨_, get_set_self hl, hxt, ?_⟩
            dsimp only
            split
            · simp [hne, hxn]
            · exact hxn
          · exact ⟨x, (get_set_ne hm).trans hx, hxt, hxn⟩
      single := by
        intro j m u v hu hv k' g hr hr'
        obtain ⟨-, rfl⟩ | ⟨-, hu⟩ := get_set ht hu
        · cases hr
        · obtain ⟨-, rfl⟩ | ⟨-, hv⟩ := get_set ht hv
          · cases hr'
          · exact h.single j m u v hu hv k' g hr hr' }

end

theorem once_step (h : Once w) (hs : Takes w a w') : Once w' := by
  cases hs with
  | quiet hq => exact h.quiet hq
  | starts t hlinks hturn htodo => exact h.starts hturn htodo
  | reads i t ht hturn =>
    refine h.putTeller ht ?_ (by simp [World.read]) (by simp [World.read])
    exact fun p hp => waiting_asked (mem_filter.mp hp).1
  | fails i t ht hturn
  | ends i t ht hturn htodo => exact h.putTeller ht (h.todo i t ht) (by simp) (by simp)
  | skips i t host grant rest ht hturn htodo hcurrent =>
    refine h.putTeller ht ?_ (by simp [hturn]) (by simp [hturn])
    exact fun p hp => h.todo i t ht p (by simp [htodo, hp])
  | finds i t host grant rest k ht hturn htodo hcurrent =>
    refine h.putTeller ht ?_ ?_ (by simp)
    · exact fun p hp => h.todo i t ht p (by simp [htodo, hp])
    · intro k' grant' hfound
      cases hfound
      obtain ⟨l, hl, -, rfl, -⟩ := current_spec hcurrent
      exact ⟨l, hl, h.todo i t ht (l.host, grant) (by simp [htodo])⟩
  | knows i t k grant l ht hturn hl htold =>
    exact h.putTeller ht (h.todo i t ht) (by simp) (by simp)
  | remembers i t k grant l ht hturn hl htold => exact h.remembers ht hl hturn htold
  | queues i t k grant l ht hturn hl => exact h.queues ht hl hturn

theorem Once.toldOnce (h : Once w) : w.ToldOnce := by
  intro k l hl
  obtain ⟨hnodup, hsub⟩ := h.noticed k l hl
  exact ⟨hnodup, fun grant hg => h.told k l hl grant (hsub grant hg)⟩

/-! ## Nothing left untold -/

/-- What a careful run keeps: a grant remembered on an open link is queued or about to be, and one
    a round has read is remembered, found or still to be told. -/
structure Covers (w : World) : Prop where
  one : ∀ (k j : Nat) (l x : HostLink), w.links[k]? = some l → w.links[j]? = some x →
    l.stage = .attached → x.stage = .attached → l.inst = x.inst → l.host = x.host → k = j
  noted : ∀ (k : Nat) (l : HostLink), w.links[k]? = some l → l.stage = .noted → l.told = []
  found : ∀ (i : Nat) (t : Teller), w.tellers[i]? = some t → ∀ k grant, t.turn = .found k grant →
    ∃ l, w.links[k]? = some l ∧ l.stage ≠ .noted
  told : ∀ (k : Nat) (l : HostLink), w.links[k]? = some l → l.opened = true →
    ∀ grant ∈ l.told, grant ∈ l.noticed ∨
      ∃ (i : Nat) (t : Teller), w.tellers[i]? = some t ∧ t.turn = .remembered k grant
  round : ∀ (i : Nat) (t : Teller), w.tellers[i]? = some t → ∀ k ∈ t.links,
    ∃ l, w.links[k]? = some l ∧ l.stage ≠ .noted ∧ (l.opened = true → l.inst = t.inst ∧
      ∀ grant, (l.host, grant) ∈ t.pending →
        grant ∈ l.told ∨ (l.host, grant) ∈ t.todo ∨ t.turn = .found k grant)
  ended : w.ToldAll

theorem covers_new : Covers .new where
  one k j l x h := by simp [World.new] at h
  noted k l h := by simp [World.new] at h
  found i t h := by simp [World.new] at h
  told k l h := by simp [World.new] at h
  round i t h := by simp [World.new] at h
  ended t h := by simp [World.new] at h

theorem HostLink.opened_attached {l : HostLink} (h : l.opened = true) : l.stage = .attached := by
  simp only [HostLink.opened, Bool.and_eq_true, decide_eq_true_eq] at h
  exact h.1

theorem Covers.quiet (h : Covers w) (hq : Quiet w w') : Covers w' where
  one := hq.one h.one
  noted k l' hl' hnoted := by
    obtain ⟨htold, -⟩ | ⟨l, hl, hk⟩ := hq.back k l' hl'
    · exact htold
    · rw [hk.told]
      by_contra hne
      have hstage : l.stage ≠ .noted := fun heq => hne (h.noted k l hl heq)
      exact (hk.stage hstage).1 hnoted
  found i t ht k grant hturn := by
    obtain ⟨l, hl, hstage⟩ := h.found i t (hq.tellers ▸ ht) k grant hturn
    obtain ⟨l', hl', hk⟩ := hq.forth k l hl
    exact ⟨l', hl', (hk.stage hstage).1⟩
  told k l' hl' hopen grant hg := by
    obtain ⟨htold, -⟩ | ⟨l, hl, hk⟩ := hq.back k l' hl'
    · simp [htold] at hg
    · rw [hk.told] at hg
      rw [hk.noticed, hq.tellers]
      have hstage : l.stage ≠ .noted := fun heq => by simp [h.noted k l hl heq] at hg
      exact h.told k l hl (hk.opened hstage hopen) grant hg
  round i t ht k hk := by
    obtain ⟨l, hl, hstage, hround⟩ := h.round i t (hq.tellers ▸ ht) k hk
    obtain ⟨l', hl', hkeeps⟩ := hq.forth k l hl
    refine ⟨l', hl', (hkeeps.stage hstage).1, ?_⟩
    rw [hkeeps.inst, hkeeps.host, hkeeps.told]
    exact fun hopen => hround (hkeeps.opened hstage hopen)
  ended t ht hturn k hk l' hl' hopen grant hg := by
    rw [hq.tellers] at ht
    obtain ⟨i, hi⟩ := mem_iff_getElem?.mp ht
    obtain ⟨l, hl, hstage, -⟩ := h.round i t hi k hk
    obtain ⟨l'', hl'', hkeeps⟩ := hq.forth k l hl
    cases hl'.symm.trans hl''
    rw [hkeeps.noticed]
    exact h.ended t ht hturn k hk l hl (hkeeps.opened hstage hopen) grant (hkeeps.host ▸ hg)

theorem Covers.putTeller {i : Nat} {t t' : Teller} (h : Covers w) (ht : w.tellers[i]? = some t)
    (hnot : ∀ k grant, t.turn ≠ .remembered k grant)
    (hfound : ∀ k grant, t'.turn = .found k grant → ∃ l, w.links[k]? = some l ∧ l.stage ≠ .noted)
    (hround : ∀ k ∈ t'.links, ∃ l, w.links[k]? = some l ∧ l.stage ≠ .noted ∧
      (l.opened = true → l.inst = t'.inst ∧ ∀ grant, (l.host, grant) ∈ t'.pending →
        grant ∈ l.told ∨ (l.host, grant) ∈ t'.todo ∨ t'.turn = .found k grant))
    (hended : t'.turn = .ended → ∀ k ∈ t'.links, ∀ l, w.links[k]? = some l → l.opened = true →
      ∀ grant, (l.host, grant) ∈ t'.pending → grant ∈ l.noticed) : Covers (w.putTeller i t') where
  one := h.one
  noted := h.noted
  found := forall_set ht h.found hfound
  told k l hl hopen grant hg := by
    obtain hnoticed | ⟨j, u, hu, hturn⟩ := h.told k l hl hopen grant hg
    · exact .inl hnoticed
    · have hji : j ≠ i := by
        rintro rfl
        cases ht.symm.trans hu
        exact hnot k grant hturn
      exact .inr ⟨j, u, (get_set_ne hji).trans hu, hturn⟩
  round := forall_set ht h.round hround
  ended u hu := by
    obtain ⟨j, hj⟩ := mem_iff_getElem?.mp hu
    obtain ⟨-, rfl⟩ | ⟨-, hj⟩ := get_set ht hj
    · exact hended
    · exact h.ended u (mem_of_getElem? hj)

theorem Covers.putBoth {i k : Nat} {t : Teller} {l l' : HostLink} {turn : Turn} (h : Covers w)
    (ht : w.tellers[i]? = some t) (hl : w.links[k]? = some l)
    (hsame : l'.inst = l.inst ∧ l'.host = l.host ∧ l'.stage = l.stage)
    (hopen : l'.opened = true → l.opened = true) (hnoted : l.stage ≠ .noted)
    (htold : ∀ g ∈ l.told, g ∈ l'.told) (hnoticed : ∀ g ∈ l.noticed, g ∈ l'.noticed)
    (hfound : ∀ j g, t.turn = .found j g → j = k ∧ g ∈ l'.told)
    (hqueued : ∀ j g, t.turn = .remembered j g → j = k)
    (hended : turn ≠ .ended) (hnot : ∀ j g, turn ≠ .found j g)
    (hqueue : l'.opened = true → ∀ g ∈ l'.told, g ∈ l'.noticed ∨ turn = .remembered k g ∨
      ∃ j u, j ≠ i ∧ w.tellers[j]? = some u ∧ u.turn = .remembered k g) :
    Covers ((w.putLink k l').putTeller i { t with turn := turn }) := by
  obtain ⟨hinst, hhost, hstage⟩ := hsame
  -- where a link of the new state comes from
  have back {j : Nat} {x : HostLink} (hx : (w.links.set k l')[j]? = some x) :
      ∃ x₀, w.links[j]? = some x₀ ∧ x.inst = x₀.inst ∧ x.host = x₀.host ∧ x.stage = x₀.stage ∧
        (x.opened = true → x₀.opened = true) ∧ ∀ g ∈ x₀.noticed, g ∈ x.noticed := by
    obtain ⟨rfl, rfl⟩ | ⟨-, hx⟩ := get_set hl hx
    · exact ⟨l, hl, hinst, hhost, hstage, hopen, hnoticed⟩
    · exact ⟨x, hx, rfl, rfl, rfl, id, fun _ => id⟩
  have forth {j : Nat} {x : HostLink} (hx : w.links[j]? = some x) :
      ∃ x', (w.links.set k l')[j]? = some x' ∧ x'.inst = x.inst ∧ x'.host = x.host ∧
        x'.stage = x.stage ∧ (x'.opened = true → x.opened = true) ∧ ∀ g ∈ x.told, g ∈ x'.told := by
    by_cases hj : j = k
    · subst hj
      cases hl.symm.trans hx
      exact ⟨l', get_set_self hl, hinst, hhost, hstage, hopen, htold⟩
    · exact ⟨x, (get_set_ne hj).trans hx, rfl, rfl, rfl, id, fun _ => id⟩
  refine ⟨?_, ?_, ?_, ?_, ?_, ?_⟩
  · intro j m x y hx hy hxs hys hxy hxy'
    obtain ⟨x₀, hx₀, hxi, hxh, hxt, -⟩ := back hx
    obtain ⟨y₀, hy₀, hyi, hyh, hyt, -⟩ := back hy
    exact h.one j m x₀ y₀ hx₀ hy₀ (hxt ▸ hxs) (hyt ▸ hys) (by rw [← hxi, ← hyi, hxy])
      (by rw [← hxh, ← hyh, hxy'])
  · exact forall_set hl h.noted fun hxn => absurd (hstage ▸ hxn) hnoted
  · intro j u hu m g hturn
    obtain ⟨-, rfl⟩ | ⟨-, hu⟩ := get_set ht hu
    · exact absurd hturn (hnot m g)
    · obtain ⟨x, hx, hxs⟩ := h.found j u hu m g hturn
      obtain ⟨x', hx', -, -, hxs', -⟩ := forth hx
      exact ⟨x', hx', hxs' ▸ hxs⟩
  · intro j x hx hxo g hg
    obtain ⟨rfl, rfl⟩ | ⟨hj, hx⟩ := get_set hl hx
    · obtain hin | hturn | ⟨m, u, hm, hu, hturn⟩ := hqueue hxo g hg
      · exact .inl hin
      · exact .inr ⟨i, _, get_set_self ht, hturn⟩
      · exact .inr ⟨m, u, (get_set_ne hm).trans hu, hturn⟩
    · obtain hin | ⟨m, u, hu, hturn⟩ := h.told j x hx hxo g hg
      · exact .inl hin
      · have hm : m ≠ i := by
          rintro rfl
          cases ht.symm.trans hu
          exact hj (hqueued j g hturn)
        exact .inr ⟨m, u, (get_set_ne hm).trans hu, hturn⟩
  · intro j u hu m hm
    obtain ⟨-, rfl⟩ | ⟨-, hu⟩ := get_set ht hu
    · obtain ⟨x, hx, hxs, hround⟩ := h.round i t ht m hm
      obtain ⟨x', hx', hxi, hxh, hxs', hxo, hxt⟩ := forth hx
      refine ⟨x', hx', hxs' ▸ hxs, fun hopen' => ?_⟩
      rw [hxi, hxh]
      refine ⟨(hround (hxo hopen')).1, fun g hg => ?_⟩
      obtain hin | hmem | hturn := (hround (hxo hopen')).2 g hg
      · exact .inl (hxt g hin)
      · exact .inr (.inl hmem)
      · obtain ⟨rfl, hin⟩ := hfound m g hturn
        cases (get_set_self hl).symm.trans hx'
        exact .inl hin
    · obtain ⟨x, hx, hxs, hround⟩ := h.round j u hu m hm
      obtain ⟨x', hx', hxi, hxh, hxs', hxo, hxt⟩ := forth hx
      refine ⟨x', hx', hxs' ▸ hxs, fun hopen' => ?_⟩
      rw [hxi, hxh]
      exact ⟨(hround (hxo hopen')).1, fun g hg => ((hround (hxo hopen')).2 g hg).imp (hxt g) id⟩
  · intro u hu hturn m hm x hx hxo g hg
    obtain ⟨j, hj⟩ := mem_iff_getElem?.mp hu
    obtain ⟨-, rfl⟩ | ⟨-, hj⟩ := get_set ht hj
    · exact absurd hturn hended
    · obtain ⟨x₀, hx₀, -, hxh, -, hxo', hxn⟩ := back hx
      exact hxn g (h.ended u (mem_of_getElem? hj) hturn m hm x₀ hx₀ (hxo' hxo) g (hxh ▸ hg))

theorem mem_attachedAt {inst : Instance} {k : Nat} (h : k ∈ w.attachedAt inst) :
    ∃ l, w.links[k]? = some l ∧ l.inst = inst ∧ l.stage = .attached := by
  have hp := (mem_filter.mp h).2
  cases hl : w.links[k]? with
  | none => simp [hl] at hp
  | some l =>
    simp only [hl, any_some, Bool.and_eq_true, decide_eq_true_eq] at hp
    exact ⟨l, rfl, hp.1, hp.2⟩

theorem current_of_attached (h : Covers w) {k : Nat} {l : HostLink} (hl : w.links[k]? = some l)
    (hstage : l.stage = .attached) : w.current l.inst l.host = some k := by
  cases hc : w.current l.inst l.host with
  | none =>
    have hnone := List.findIdx?_eq_none_iff.mp hc l (mem_of_getElem? hl)
    simp [hstage] at hnone
  | some j =>
    obtain ⟨x, hx, hinst, hhost, hattached⟩ := current_spec hc
    rw [h.one j k x l hx hl hattached hstage hinst hhost]

theorem Covers.goesOn {i : Nat} {t t' : Teller} (h : Covers w) (ht : w.tellers[i]? = some t)
    (hsame : t'.inst = t.inst ∧ t'.links = t.links ∧ t'.pending = t.pending)
    (hnot : ∀ k grant, t.turn ≠ .remembered k grant) (hended : t'.turn ≠ .ended)
    (hfound : ∀ k grant, t'.turn = .found k grant → ∃ l, w.links[k]? = some l ∧ l.stage ≠ .noted)
    (hgoes : ∀ k l, w.links[k]? = some l → l.opened = true → l.inst = t.inst →
      ∀ grant, (l.host, grant) ∈ t.todo ∨ t.turn = .found k grant →
        grant ∈ l.told ∨ (l.host, grant) ∈ t'.todo ∨ t'.turn = .found k grant) :
    Covers (w.putTeller i t') := by
  obtain ⟨hinst, hlinks, hpending⟩ := hsame
  refine h.putTeller ht hnot hfound ?_ fun heq => absurd heq hended
  rw [hinst, hlinks, hpending]
  intro k hk
  obtain ⟨l, hl, hstage, hround⟩ := h.round i t ht k hk
  refine ⟨l, hl, hstage, fun hopen => ⟨(hround hopen).1, fun grant hg => ?_⟩⟩
  obtain htold | htodo := (hround hopen).2 grant hg
  · exact .inl htold
  · exact hgoes k l hl hopen (hround hopen).1 grant htodo

theorem Covers.starts {t : Teller} (h : Covers w) (hlinks : t.links = [])
    (hturn : t.turn = .next ∨ t.turn = .reading) :
    Covers { w with tellers := w.tellers ++ [t] } where
  one := h.one
  noted := h.noted
  found i u hu k grant hfound := by
    obtain hu | ⟨-, rfl⟩ := get_append hu
    · exact h.found i u hu k grant hfound
    · obtain hturn | hturn := hturn <;> simp [hturn] at hfound
  told k l hl hopen grant hg := by
    obtain hnoticed | ⟨i, u, hu, hr⟩ := h.told k l hl hopen grant hg
    · exact .inl hnoticed
    · exact .inr ⟨i, u, get_append_left hu, hr⟩
  round i u hu k hk := by
    obtain hu | ⟨-, rfl⟩ := get_append hu
    · exact h.round i u hu k hk
    · simp [hlinks] at hk
  ended u hu hended := by
    obtain hu | rfl := mem_snoc.mp hu
    · exact h.ended u hu hended
    · simp [hlinks]

section
variable {i k : Nat} {t : Teller} {grant : GrantId} {l : HostLink} (h : Covers w)
  (ht : w.tellers[i]? = some t)

include h ht

theorem Covers.ends (hturn : t.turn = .next) (htodo : t.todo = []) (halone : Alone w t) :
    Covers (w.putTeller i { t with turn := .ended }) := by
  have hround : ∀ k ∈ t.links, ∃ l, w.links[k]? = some l ∧ l.stage ≠ .noted ∧
      (l.opened = true → l.inst = t.inst ∧
        ∀ grant, (l.host, grant) ∈ t.pending → grant ∈ l.told) := by
    intro k hk
    obtain ⟨l, hl, hstage, hround⟩ := h.round i t ht k hk
    refine ⟨l, hl, hstage, fun hopen => ⟨(hround hopen).1, fun grant hg => ?_⟩⟩
    simpa [hturn, htodo] using (hround hopen).2 grant hg
  refine h.putTeller ht (by simp [hturn]) (by simp) ?_ ?_
  · intro k hk
    obtain ⟨l, hl, hstage, hround⟩ := hround k hk
    exact ⟨l, hl, hstage, fun hopen =>
      ⟨(hround hopen).1, fun grant hg => .inl ((hround hopen).2 grant hg)⟩⟩
  · intro _ k hk l hl hopen grant hg
    obtain ⟨l', hl', -, hround⟩ := hround k hk
    cases hl.symm.trans hl'
    obtain hnoticed | ⟨j, u, hu, hr⟩ := h.told k l hl hopen grant ((hround hopen).2 grant hg)
    · exact hnoticed
    -- someone would be about to queue it
    · have halone := halone u (mem_of_getElem? hu) (k, grant) (by simp [hr, Turn.queueing])
      simp [Concerns, hk, hl, hopen, hg] at halone

theorem Covers.remembers (hturn : t.turn = .found k grant) (hl : w.links[k]? = some l) :
    Covers ((w.putLink k { l with told := grant :: l.told }).putTeller i
      { t with turn := .remembered k grant }) := by
  obtain ⟨l', hl', hstage⟩ := h.found i t ht k grant hturn
  cases hl.symm.trans hl'
  refine h.putBoth ht hl ⟨rfl, rfl, rfl⟩ id hstage (fun g => mem_cons_of_mem grant)
    (fun _ => id) ?_ (by simp [hturn]) (by simp) (by simp) ?_
  · intro j g hfound
    rw [hturn] at hfound
    cases hfound
    exact ⟨rfl, mem_cons_self ..⟩
  · intro hopen g hg
    obtain rfl | hg := mem_cons.mp hg
    · exact .inr (.inl rfl)
    · obtain hin | ⟨j, u, hu, hr⟩ := h.told k l hl hopen g hg
      · exact .inl hin
      · have hj : j ≠ i := by
          rintro rfl
          cases ht.symm.trans hu
          simp [hturn] at hr
        exact .inr (.inr ⟨j, u, hj, hu, hr⟩)

theorem Covers.queues (ho : Once w) (hturn : t.turn = .remembered k grant)
    (hl : w.links[k]? = some l)
    (hroom : l.opened = true → l.out.refuses (pairingRequested grant) = false) :
    Covers ((w.putLink k { l with
      out := (l.out.push (pairingRequested grant)).2
      noticed := if (l.out.push (pairingRequested grant)).1 then grant :: l.noticed
        else l.noticed }).putTeller i { t with turn := .next }) := by
  obtain ⟨l', hl', htold, hnot⟩ := ho.remembered i t ht k grant hturn
  cases hl.symm.trans hl'
  have hstage : l.stage ≠ .noted := fun heq => by simp [h.noted k l hl heq] at htold
  have hopened : ∀ {noticed : List GrantId},
      { l with out := (l.out.push (pairingRequested grant)).2, noticed := noticed }.opened = true →
        l.opened = true := by
    intro noticed hopen
    rwa [HostLink.opened, Outbox.push_closing] at hopen
  refine h.putBoth ht hl ⟨rfl, rfl, rfl⟩ hopened hstage (fun _ => id) ?_ (by simp [hturn]) ?_
    (by simp) (by simp) ?_
  · intro g hg
    dsimp only
    split
    · exact mem_cons_of_mem _ hg
    · exact hg
  · intro j g hr
    rw [hturn] at hr
    exact (Turn.remembered.inj hr).1.symm
  · intro hopen g hg
    have hpush : (l.out.push (pairingRequested grant)).1 = true := by
      simp [Outbox.push, hroom (hopened hopen)]
    simp only [hpush, if_true]
    obtain hin | ⟨j, u, hu, hr⟩ := h.told k l hl (hopened hopen) g hg
    · exact .inl (mem_cons_of_mem _ hin)
    · by_cases hj : j = i
      · subst hj
        cases ht.symm.trans hu
        rw [hturn] at hr
        cases hr
        exact .inl (mem_cons_self ..)
      · exact .inr (.inr ⟨j, u, hj, hu, hr⟩)

end

theorem covers_step (h : Covers w) (ho : Once w) (hc : Careful w a) (hs : Takes w a w') : Covers w' := by
  cases hs with
  | quiet hq => exact h.quiet hq
  | starts t hlinks hturn htodo => exact h.starts hlinks hturn
  | reads i t ht hturn =>
    refine h.putTeller ht (by simp [hturn]) (by simp [World.read]) ?_ (by simp [World.read])
    intro k hk
    obtain ⟨l, hl, hinst, hstage⟩ := mem_attachedAt hk
    refine ⟨l, hl, by simp [hstage], fun hopen => ⟨hinst, fun grant hg => ?_⟩⟩
    by_cases htold : grant ∈ l.told
    · exact .inl htold
    · have hplaced : (w.places l.host).any (·.inst = t.inst) = true :=
        hc t ht k hk l hl hopen (l.host, grant) hg rfl htold
      exact .inr (.inl (mem_filter.mpr ⟨hg, hplaced⟩))
  | fails i t ht hturn =>
    refine h.goesOn ht ⟨rfl, rfl, rfl⟩ (by simp [hturn]) (by simp) (by simp) ?_
    intro k l _ _ _ grant hg
    exact .inr (by simpa [hturn] using hg)
  | ends i t ht hturn htodo => exact h.ends ht hturn htodo ((hc t ht).2 hturn htodo)
  | skips i t host grant rest ht hturn htodo hcurrent =>
    refine h.goesOn ht ⟨rfl, rfl, rfl⟩ (by simp [hturn]) (by simp [hturn]) (by simp [hturn]) ?_
    intro k l hl hopen hinst other hmem
    simp only [htodo, hturn, mem_cons, reduceCtorEq, or_false] at hmem ⊢
    obtain heq | hmem := hmem
    -- its link would have been found
    · cases heq
      have hsome := current_of_attached h hl (HostLink.opened_attached hopen)
      rw [hinst, hcurrent] at hsome
      cases hsome
    · exact .inr hmem
  | finds i t host grant rest j ht hturn htodo hcurrent =>
    obtain ⟨x, hx, -, -, hattached⟩ := current_spec hcurrent
    refine h.goesOn ht ⟨rfl, rfl, rfl⟩ (by simp [hturn]) (by simp) ?_ ?_
    · intro k' grant' hfound
      cases hfound
      exact ⟨x, hx, by simp [hattached]⟩
    · intro k l hl hopen hinst other hmem
      simp only [htodo, hturn, mem_cons, reduceCtorEq, or_false] at hmem
      obtain heq | hmem := hmem
      · cases heq
        have hsome := current_of_attached h hl (HostLink.opened_attached hopen)
        rw [hinst, hcurrent, Option.some.injEq] at hsome
        exact .inr (.inr (by rw [hsome]))
      · exact .inr (.inl hmem)
  | knows i t k grant l ht hturn hl htold =>
    refine h.goesOn ht ⟨rfl, rfl, rfl⟩ (by simp [hturn]) (by simp) (by simp) ?_
    intro j x hx _ _ other hmem
    obtain hmem | hfound := hmem
    · exact .inr (.inl hmem)
    · rw [hturn] at hfound
      cases hfound
      cases hl.symm.trans hx
      exact .inl htold
  | remembers i t k grant l ht hturn hl htold => exact h.remembers ht hturn hl
  | queues i t k grant l ht hturn hl =>
    exact h.queues ht ho hturn hl
      ((hc t ht).1 (k, grant) (by simp [hturn, Turn.queueing]) l hl)

/-- **Hosts are told.** In every run, each link is told of each grant at most once, and only of
    its host's; and if the run is careful, a round that has ended leaves no open link untold of
    a grant that waited. -/
theorem hosts_told {as : List Action} (hr : run World.step .new as = some w) :
    w.ToldOnce ∧ (Meets World.step Careful .new as → w.ToldAll) := by
  constructor
  · have honce : Once w := run_invariant (fun s a s' hi hs => once_step hi (takes_of_step hs)) hr once_new
    exact honce.toldOnce
  · intro hm
    have hstep : ∀ s a s', Once s ∧ Covers s → Careful s a → World.step s a = some s' →
        Once s' ∧ Covers s' := by
      intro s a s' hi hc hs
      have ht := takes_of_step hs
      exact ⟨once_step hi.1 ht, covers_step hi.2 hi.1 hc ht⟩
    exact (hm.invariant hstep hr ⟨once_new, covers_new⟩).2.ended

theorem run_carry {k : Nat} {l : HostLink} {message : Message} (hl : w.links[k]? = some l)
    (hopen : l.out.closing = none) (n : Nat)
    (hroom : l.out.bytes + n * message.size ≤ MAX_QUEUED) :
    run World.step w (List.replicate n (.carry k message)) = some (w.putLink k { l with
      out := { l.out with
        messages := l.out.messages ++ List.replicate n message
        bytes := l.out.bytes + n * message.size } }) := by
  induction n generalizing w l with
  | zero =>
    have hsame : w.links.set k l = w.links := by
      rw [← List.getElem?_eq_some_iff.mp hl |>.2, set_getElem_self]
    simp [World.putLink, hsame]
  | succ n ih =>
    have hsize : (n + 1) * message.size = message.size + n * message.size := by
      rw [Nat.add_mul, Nat.one_mul, Nat.add_comm]
    have hpush : l.out.push message = (true, { l.out with
        messages := l.out.messages ++ [message], bytes := l.out.bytes + message.size }) := by
      have hnot : ¬ MAX_QUEUED < l.out.bytes + message.size := by omega
      simp [Outbox.push, Outbox.refuses, hopen, hnot]
    have hstep : w.step (.carry k message) = some (w.putLink k { l with
        out := { l.out with
          messages := l.out.messages ++ [message], bytes := l.out.bytes + message.size } }) := by
      simp only [World.step, hl, hpush]
    let next : HostLink := { l with
      out := { l.out with
        messages := l.out.messages ++ [message], bytes := l.out.bytes + message.size } }
    have hroom' : next.out.bytes + n * message.size ≤ MAX_QUEUED := by
      show l.out.bytes + message.size + n * message.size ≤ MAX_QUEUED
      omega
    have hrest := ih (w := w.putLink k next) (l := next) (get_set_self hl) hopen hroom'
    rw [replicate_succ, run_cons]
    refine ⟨_, hstep, ?_⟩
    rw [hrest]
    simp only [World.putLink, List.set_set, next, append_assoc, hsize, Nat.add_assoc]
    rfl

def desk : HostId := ⟨"h1", by decide⟩
def phone : GrantId := ⟨"g1", by decide⟩

def chunk : Message := .binary (List.replicate 65536 0)

theorem chunk_size : chunk.size = 65536 := length_replicate

def linked : World :=
  { now := 0
    grants := []
    places := Function.update (fun _ => none) desk (some ⟨"i1", 0⟩)
    links := [⟨"i1", desk, .new, [], .attached, []⟩]
    tellers := [] }

def full : World :=
  { linked with
    links := [⟨"i1", desk, ⟨List.replicate 32 chunk, MAX_QUEUED, none⟩, [], .attached, []⟩] }

theorem run_full : run World.step linked (List.replicate 32 (.carry 0 chunk)) = some full := by
  have hl : linked.links[0]? = some ⟨"i1", desk, .new, [], .attached, []⟩ := rfl
  rw [run_carry hl rfl 32 (by rw [chunk_size]; decide), chunk_size]
  rfl

/-- A device asks, and the notice is refused. Then there is room again, and a round comes. -/
def refusedRun : List Action :=
  [.ask desk phone 1000, .notice "i1" desk phone, .go 0, .go 0, .go 0, .go 0, .send 0,
    .round "i1", .read 1 true, .go 1, .go 1, .go 1]

/-- A round has ended, and an open link was not told of what the round found waiting. -/
def untold (w : World) : Bool :=
  w.tellers.any fun t => t.turn = .ended && t.links.any fun k => w.links[k]?.any fun l =>
    l.opened && t.pending.any fun p => p.1 = l.host && p.2 ∉ l.noticed

theorem not_toldAll_of_untold (h : untold w = true) : ¬ w.ToldAll := by
  intro htold
  simp only [untold, List.any_eq_true, any_eq_true, Bool.and_eq_true, decide_eq_true_eq] at h
  obtain ⟨t, ht, hturn, k, hk, l, hl, hopen, p, hp, hhost, hnot⟩ := h
  exact hnot (htold t ht hturn k hk l hl hopen p.2 (hhost ▸ hp))

/-- A notice the link's queue refused is remembered as told: the rounds that follow skip it. -/
theorem refused_notice_lost : ∃ w, run World.step .new
    ([Action.note "i1" desk, .attach 0] ++ List.replicate 32 (Action.carry 0 chunk) ++
      refusedRun) = some w ∧ ¬ w.ToldAll := by
  have hlinked : run World.step .new [Action.note "i1" desk, .attach 0] = some linked := rfl
  have hrest : (run World.step full refusedRun).any untold = true := by decide +kernel
  obtain ⟨w, hw, huntold⟩ := (any_eq_true _ _).mp hrest
  exact ⟨w, run_append.mpr ⟨full, run_append.mpr ⟨linked, hlinked, run_full⟩, hw⟩,
    not_toldAll_of_untold huntold⟩

/-- A device asks while its host's link is open, and a round finds nothing left to tell. -/
def toldRun : List Action :=
  [.note "i1" desk, .attach 0, .ask desk phone 1000, .notice "i1" desk phone, .go 0, .go 0, .go 0,
    .go 0, .round "i1", .read 1 true, .go 1, .go 1, .go 1]

theorem hosts_told_once : ∃ w, run World.step .new toldRun = some w ∧ w.ToldOnce ∧ w.ToldAll := by
  have hrun : (run World.step .new toldRun).isSome = true := by decide +kernel
  obtain ⟨w, hw⟩ := isSome_iff_exists.mp hrun
  have hcareful : meets World.step (fun w a => decide (Careful w a)) .new toldRun = true := by
    decide +kernel
  have hm : Meets World.step Careful .new toldRun := by
    simpa only [decide_eq_true_eq] using meets_iff.mp hcareful
  obtain ⟨honce, hall⟩ := hosts_told hw
  exact ⟨w, hw, honce, hall hm⟩

end Yardsort.Relay.Notices
