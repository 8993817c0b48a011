import Mathlib.Data.List.Chain
import Mathlib.Data.List.Nodup
import Mathlib.Data.List.Perm.Subperm
import Mathlib.Data.List.TakeWhile
import Mathlib.Data.Set.Finite.List
import Mathlib.Logic.Function.Basic
import Mathlib.Logic.Relation
import Mathlib.Order.WellFounded

/- Directed graphs given by a list of edges, and two searches over them: a
   depth-first search that looks for a circle by marking nodes (`circle`), and a
   stack that collects what can be reached from a node (`reached`).

   The marked search is right both ways: what it returns is a circle
   (`circle_isCircle`), and a graph it returns none for has none (`circle_none`).
   The marks carry the second: what follows a done node is done, and no walk
   leads from a done node back to itself (`Finished`). The stack collects the
   transitive closure, no more and no less (`mem_reached`). -/
namespace Yardsort.Lib.Graph
open Relation

section
variable {ν : Type} [DecidableEq ν] (edges : List (ν × ν))

def next (v : ν) : List ν := (edges.filter (fun e => e.1 = v)).map Prod.snd

def Edge (a b : ν) : Prop := (a, b) ∈ edges

/-- No walk leads from a node back to itself. -/
def Acyclic : Prop := ∀ v, ¬ TransGen (Edge edges) v v

theorem mem_next {v w : ν} : w ∈ next edges v ↔ Edge edges v w := by
  simp only [next, List.mem_map, List.mem_filter, decide_eq_true_eq, Edge]
  constructor
  · rintro ⟨⟨a, b⟩, ⟨he, rfl⟩, rfl⟩
    exact he
  · intro h
    exact ⟨(v, w), ⟨h, rfl⟩, rfl⟩

theorem length_next_le (v : ν) : (next edges v).length ≤ edges.length := by
  rw [next, List.length_map]
  exact List.length_filter_le _ _

omit [DecidableEq ν] in
theorem exists_last {R : ν → ν → Prop} (h : ∀ v, ¬ TransGen R v v) {l : List ν} (hl : l ≠ []) :
    ∃ v ∈ l, ∀ w ∈ l, ¬ R v w := by
  let above (a b : {v // v ∈ l}) : Prop := TransGen R b.1 a.1
  have : Finite {v // v ∈ l} := List.finite_toSet l
  have : IsTrans _ above := ⟨fun _ _ _ hab hbc => hbc.trans hab⟩
  have : Std.Irrefl above := ⟨fun a => h a.1⟩
  have hwf : WellFounded above := Finite.wellFounded_of_trans_of_irrefl above
  obtain ⟨u, hu⟩ := List.exists_mem_of_ne_nil l hl
  obtain ⟨v, -, hv⟩ := hwf.has_min Set.univ ⟨⟨u, hu⟩, trivial⟩
  exact ⟨v.1, v.2, fun w hw hvw => hv ⟨w, hw⟩ trivial (.single hvw)⟩

inductive Mark where
  | fresh
  | opened
  | done
  deriving DecidableEq

abbrev Marks (ν : Type) := ν → Mark

/-- Look at the nodes a node leads to: an open one closes a circle, a fresh one is
    visited, a done one is passed. -/
def visitNext (visit : ν → Marks ν → Except (List ν) (Marks ν)) (path : List ν) :
    List ν → Marks ν → Except (List ν) (Marks ν)
  | [], marks => .ok marks
  | n :: ns, marks =>
    match marks n with
    | .opened => .error (path.dropWhile (· ≠ n) ++ [n])
    | .fresh =>
      match visit n marks with
      | .error found => .error found
      | .ok marks => visitNext visit path ns marks
    | .done => visitNext visit path ns marks

/-- Visit a node, `path` being the open nodes that led to it. Each visit opens a node, so
    as many nested ones as there are nodes are enough. -/
def visit : Nat → List ν → ν → Marks ν → Except (List ν) (Marks ν)
  | 0, path, _, _ => .error path
  | fuel + 1, path, node, marks =>
    match visitNext (visit fuel (path ++ [node])) (path ++ [node]) (next edges node)
        (Function.update marks node .opened) with
    | .error found => .error found
    | .ok marks => .ok (Function.update marks node .done)

def visitAll (fuel : Nat) : List ν → Marks ν → Option (List ν)
  | [], _ => none
  | v :: vs, marks =>
    if marks v = .fresh then
      match visit edges fuel [] v marks with
      | .error found => some found
      | .ok marks => visitAll fuel vs marks
    else visitAll fuel vs marks

/-- One circle in the graph, in order with the first node repeated at the end. -/
def circle (nodes : List ν) : Option (List ν) :=
  visitAll edges nodes.length nodes (fun _ => .fresh)

/-- What follows a done node is done, and no walk leads from a done node to itself. -/
structure Finished (marks : Marks ν) : Prop where
  closed : ∀ v w, marks v = .done → Edge edges v w → marks w = .done
  acyclic : ∀ v, marks v = .done → ¬ TransGen (Edge edges) v v

/-- What a visit may do to the marks: fresh nodes become done, all else stays. -/
structure Extends (marks marks' : Marks ν) : Prop where
  kept : ∀ v, marks v ≠ .fresh → marks' v = marks v
  fresh : ∀ v, marks v = .fresh → marks' v = .fresh ∨ marks' v = .done

omit [DecidableEq ν] in
theorem Extends.refl (marks : Marks ν) : Extends marks marks :=
  ⟨fun _ _ => rfl, fun _ h => .inl h⟩

omit [DecidableEq ν] in
theorem Extends.trans {a b c : Marks ν} (h : Extends a b) (h' : Extends b c) : Extends a c where
  kept v hv := by
    have hb := h.kept v hv
    rw [h'.kept v (hb ▸ hv), hb]
  fresh v hv := by
    obtain hf | hd := h.fresh v hv
    · exact h'.fresh v hf
    · right
      rw [h'.kept v (by rw [hd]; decide), hd]

variable {edges}

theorem Finished.close {marks : Marks ν} (h : Finished edges marks) {node : ν}
    (hopen : marks node = .opened) (hnext : ∀ w, Edge edges node w → marks w = .done) :
    Finished edges (Function.update marks node .done) := by
  have hne : ∀ {w}, marks w = .done → w ≠ node := by
    rintro w hw rfl
    rw [hopen] at hw
    cases hw
  have hreach : ∀ {w}, TransGen (Edge edges) node w → marks w = .done := by
    intro w hw
    induction hw with
    | single he => exact hnext _ he
    | tail _ he ih => exact h.closed _ _ ih he
  constructor
  · intro v w hv he
    by_cases hvn : v = node
    · subst hvn
      rw [Function.update_of_ne (hne (hnext w he))]
      exact hnext w he
    · rw [Function.update_of_ne hvn] at hv
      have hw := h.closed v w hv he
      rw [Function.update_of_ne (hne hw)]
      exact hw
  · intro v hv hcyc
    by_cases hvn : v = node
    · subst hvn
      exact hne (hreach hcyc) rfl
    · rw [Function.update_of_ne hvn] at hv
      exact h.acyclic v hv hcyc

/-- What a visit that finds no circle leaves, as `visitNext` needs it of the visits it makes. -/
def Visits (edges : List (ν × ν)) (visit : ν → Marks ν → Except (List ν) (Marks ν)) : Prop :=
  ∀ node marks marks', Finished edges marks → marks node = .fresh → visit node marks = .ok marks' →
    Finished edges marks' ∧ Extends marks marks' ∧ marks' node = .done

theorem visitNext_ok {visit : ν → Marks ν → Except (List ν) (Marks ν)} {path ns : List ν}
    {marks marks' : Marks ν} (hvisit : Visits edges visit) (hf : Finished edges marks)
    (h : visitNext visit path ns marks = .ok marks') :
    Finished edges marks' ∧ Extends marks marks' ∧ ∀ n ∈ ns, marks' n = .done := by
  induction ns generalizing marks with
  | nil =>
    rw [visitNext, Except.ok.injEq] at h
    subst h
    exact ⟨hf, .refl _, nofun⟩
  | cons n ns ih =>
    -- `n` is done once it has been passed or visited, and stays so
    have hstay : ∀ {marks₁ : Marks ν}, marks₁ n = .done → Finished edges marks₁ →
        Extends marks marks₁ → visitNext visit path ns marks₁ = .ok marks' →
        Finished edges marks' ∧ Extends marks marks' ∧ ∀ m ∈ n :: ns, marks' m = .done := by
      intro marks₁ hn hf₁ he₁ h₁
      obtain ⟨hf', he', hall⟩ := ih hf₁ h₁
      refine ⟨hf', he₁.trans he', ?_⟩
      intro m hm
      obtain rfl | hm := List.mem_cons.mp hm
      · rw [he'.kept m (by rw [hn]; decide), hn]
      · exact hall m hm
    rw [visitNext] at h
    split at h
    · cases h
    · rename_i hfresh
      split at h
      · cases h
      · rename_i marks₁ hv
        obtain ⟨hf₁, he₁, hn⟩ := hvisit n marks marks₁ hf hfresh hv
        exact hstay hn hf₁ he₁ h
    · rename_i hdone
      exact hstay hdone hf (.refl _) h

theorem visit_ok (fuel : Nat) (path : List ν) : Visits edges (visit edges fuel path) := by
  induction fuel generalizing path with
  | zero => intro _ _ _ _ _ h; cases h
  | succ fuel ih =>
    intro node marks marks' hf hfresh h
    rw [visit] at h
    split at h
    · cases h
    rename_i marks₁ hn
    cases h
    have hne : ∀ {w}, marks w = .done → w ≠ node := by
      rintro w hw rfl
      rw [hfresh] at hw
      cases hw
    have hf₀ : Finished edges (Function.update marks node .opened) := by
      have hback : ∀ {v}, Function.update marks node Mark.opened v = .done → marks v = .done := by
        intro v hv
        by_cases hvn : v = node
        · subst hvn
          rw [Function.update_self] at hv
          cases hv
        · rwa [Function.update_of_ne hvn] at hv
      constructor
      · intro v w hv he
        have hw := hf.closed v w (hback hv) he
        rw [Function.update_of_ne (hne hw)]
        exact hw
      · intro v hv
        exact hf.acyclic v (hback hv)
    obtain ⟨hf₁, he₁, hall⟩ := visitNext_ok (ih (path ++ [node])) hf₀ hn
    have hopen : marks₁ node = .opened := by
      have := he₁.kept node (by rw [Function.update_self]; decide)
      rwa [Function.update_self] at this
    refine ⟨hf₁.close hopen (fun w hw => hall w ((mem_next edges).mpr hw)), ⟨?_, ?_⟩,
      Function.update_self ..⟩
    · intro v hv
      have hvn : v ≠ node := by
        rintro rfl
        exact hv hfresh
      have := he₁.kept v (by rwa [Function.update_of_ne hvn])
      rw [Function.update_of_ne hvn, this, Function.update_of_ne hvn]
    · intro v hv
      by_cases hvn : v = node
      · subst hvn
        exact .inr (Function.update_self ..)
      · rw [Function.update_of_ne hvn]
        exact he₁.fresh v (by rwa [Function.update_of_ne hvn])

theorem visitAll_none {fuel : Nat} {vs : List ν} {marks : Marks ν} (hf : Finished edges marks)
    (hopen : ∀ v, marks v ≠ .opened) (h : visitAll edges fuel vs marks = none) :
    ∀ v, (v ∈ vs ∨ marks v = .done) → ¬ TransGen (Edge edges) v v := by
  induction vs generalizing marks with
  | nil =>
    intro v hv
    obtain hv | hv := hv
    · cases hv
    · exact hf.acyclic v hv
  | cons n ns ih =>
    rw [visitAll] at h
    split at h
    · rename_i hfresh
      split at h
      · cases h
      rename_i marks₁ hv
      obtain ⟨hf₁, he₁, hn⟩ := visit_ok fuel [] n marks marks₁ hf hfresh hv
      have hopen₁ : ∀ v, marks₁ v ≠ .opened := by
        intro v hvo
        by_cases hm : marks v = .fresh
        · obtain h₁ | h₁ := he₁.fresh v hm <;> rw [h₁] at hvo <;> cases hvo
        · exact hopen v ((he₁.kept v hm).symm.trans hvo)
      intro v hv'
      apply ih hf₁ hopen₁ h v
      obtain hv' | hv' := hv'
      · obtain rfl | hv' := List.mem_cons.mp hv'
        · exact .inr hn
        · exact .inl hv'
      · exact .inr ((he₁.kept v (by rw [hv']; decide)).trans hv')
    · rename_i hfresh
      intro v hv
      apply ih hf hopen h v
      obtain hv | hv := hv
      · obtain rfl | hv := List.mem_cons.mp hv
        · right
          cases hm : marks v with
          | fresh => exact absurd hm hfresh
          | opened => exact absurd hm (hopen v)
          | done => rfl
        · exact .inl hv
      · exact .inr hv

/-- **No circle is missed.** -/
theorem circle_none {nodes : List ν} (hfrom : ∀ e ∈ edges, e.1 ∈ nodes)
    (h : circle edges nodes = none) : Acyclic edges := by
  intro v hv
  have hf : Finished edges (fun _ : ν => Mark.fresh) := ⟨nofun, nofun⟩
  obtain ⟨w, hw, -⟩ := TransGen.head'_iff.mp hv
  exact visitAll_none hf (fun _ => nofun) h v (.inl (hfrom _ hw)) hv

/-! ## What is found is a circle -/

def IsCircle (edges : List (ν × ν)) (found : List ν) : Prop :=
  found.IsChain (Edge edges) ∧ ∃ v between, found = v :: (between ++ [v])

def OnPath (path : List ν) (marks : Marks ν) : Prop := ∀ v, marks v = .opened ↔ v ∈ path

/-- How a visit or a look at some nodes may end, from the open nodes `path`. -/
def Ends (edges : List (ν × ν)) (path : List ν) : Except (List ν) (Marks ν) → Prop
  | .error found => IsCircle edges found
  | .ok marks => OnPath path marks

theorem isCircle_back {path : List ν} {node n : ν} (hchain : (path ++ [node]).IsChain (Edge edges))
    (hn : n ∈ path ++ [node]) (he : Edge edges node n) :
    IsCircle edges ((path ++ [node]).dropWhile (· ≠ n) ++ [n]) := by
  obtain ⟨before, hsplit⟩ := List.dropWhile_suffix (l := path ++ [node]) (fun v => decide (v ≠ n))
  cases hl : (path ++ [node]).dropWhile (· ≠ n) with
  | nil =>
    have := List.dropWhile_eq_nil_iff.mp hl n hn
    simp at this
  | cons v between =>
    have hv : v = n := by
      have := List.head?_dropWhile_not (fun v => decide (v ≠ n)) (path ++ [node])
      rw [hl] at this
      simpa using this
    subst hv
    rw [hl] at hsplit
    have hlast : (v :: between).getLast? = some node := by
      have := congrArg List.getLast? hsplit
      rwa [List.getLast?_append, List.getLast?_append, List.getLast?_singleton, Option.some_or,
        List.getLast?_cons, Option.some_or, ← List.getLast?_cons] at this
    rw [← hsplit] at hchain
    refine ⟨List.isChain_append.mpr ⟨(List.isChain_append.mp hchain).2.1, .singleton _, ?_⟩, ?_⟩
    · intro x hx y hy
      rw [hlast] at hx
      obtain rfl := Option.some.inj hx
      obtain rfl := Option.some.inj hy
      exact he
    · exact ⟨v, between, rfl⟩

theorem visitNext_ends {visit : ν → Marks ν → Except (List ν) (Marks ν)} {path ns : List ν}
    {node : ν} {marks : Marks ν} (hchain : (path ++ [node]).IsChain (Edge edges))
    (hns : ∀ n ∈ ns, Edge edges node n) (hon : OnPath (path ++ [node]) marks)
    (hvisit : ∀ n marks, Edge edges node n → OnPath (path ++ [node]) marks → marks n = .fresh →
      Ends edges (path ++ [node]) (visit n marks)) :
    Ends edges (path ++ [node]) (visitNext visit (path ++ [node]) ns marks) := by
  induction ns generalizing marks with
  | nil => exact hon
  | cons n ns ih =>
    have he := hns n (List.mem_cons_self ..)
    have hns' : ∀ m ∈ ns, Edge edges node m := fun m hm => hns m (List.mem_cons_of_mem _ hm)
    rw [visitNext]
    split
    · rename_i hopen
      exact isCircle_back hchain ((hon n).mp hopen) he
    · rename_i hfresh
      have hv := hvisit n marks he hon hfresh
      split
      · rename_i found hfound
        rwa [hfound] at hv
      · rename_i marks₁ hok
        rw [hok] at hv
        exact ih hns' hv
    · exact ih hns' hon

theorem visit_ends {nodes : List ν} (hto : ∀ e ∈ edges, e.2 ∈ nodes) {fuel : Nat} {path : List ν}
    {node : ν} {marks : Marks ν} (hchain : (path ++ [node]).IsChain (Edge edges))
    (hnodup : (path ++ [node]).Nodup) (hin : ∀ v ∈ path ++ [node], v ∈ nodes)
    (hon : OnPath path marks) (hfuel : nodes.length ≤ fuel + path.length) :
    Ends edges path (visit edges fuel path node marks) := by
  induction fuel generalizing path node marks with
  | zero =>
    -- The path is of distinct nodes, so it would be longer than there are.
    have := (hnodup.subperm hin).length_le
    rw [List.length_append, List.length_singleton] at this
    omega
  | succ fuel ih =>
    have hnode : node ∉ path := by
      intro h
      exact (List.nodup_append.mp hnodup).2.2 node h node (List.mem_singleton_self _) rfl
    have hon' : OnPath (path ++ [node]) (Function.update marks node .opened) := by
      intro v
      by_cases hvn : v = node
      · subst hvn
        simp
      · rw [Function.update_of_ne hvn, hon v]
        simp [hvn]
    have hvisit : ∀ n marks, Edge edges node n → OnPath (path ++ [node]) marks → marks n = .fresh →
        Ends edges (path ++ [node]) (visit edges fuel (path ++ [node]) n marks) := by
      intro n marks₁ he hon₁ hfresh
      have hn : n ∉ path ++ [node] := by
        intro hn
        rw [(hon₁ n).mpr hn] at hfresh
        cases hfresh
      have hlen : nodes.length ≤ fuel + (path ++ [node]).length := by
        rw [List.length_append, List.length_singleton]
        omega
      refine ih ?_ ?_ ?_ hon₁ hlen
      · refine List.isChain_append.mpr ⟨hchain, .singleton _, ?_⟩
        intro x hx y hy
        rw [List.getLast?_concat] at hx
        obtain rfl := Option.some.inj hx
        obtain rfl := Option.some.inj hy
        exact he
      · refine List.nodup_append.mpr ⟨hnodup, List.nodup_singleton n, ?_⟩
        rintro a ha b hb rfl
        exact hn (List.mem_singleton.mp hb ▸ ha)
      · intro v hv
        obtain hv | hv := List.mem_append.mp hv
        · exact hin v hv
        · exact List.mem_singleton.mp hv ▸ hto _ he
    have hends := visitNext_ends hchain (fun n hn => (mem_next edges).mp hn) hon' hvisit
    rw [visit]
    split
    · rename_i found hfound
      rwa [hfound] at hends
    · rename_i marks₁ hok
      rw [hok] at hends
      intro v
      by_cases hvn : v = node
      · subst hvn
        simp [hnode]
      · rw [Function.update_of_ne hvn, hends v]
        simp [hvn]

theorem visitAll_ends {nodes vs : List ν} (hto : ∀ e ∈ edges, e.2 ∈ nodes) {marks : Marks ν}
    {found : List ν} (hvs : ∀ v ∈ vs, v ∈ nodes) (hon : OnPath [] marks)
    (h : visitAll edges nodes.length vs marks = some found) : IsCircle edges found := by
  induction vs generalizing marks with
  | nil => cases h
  | cons v vs ih =>
    have hvs' : ∀ w ∈ vs, w ∈ nodes := fun w hw => hvs w (List.mem_cons_of_mem _ hw)
    have hends : Ends edges [] (visit edges nodes.length [] v marks) :=
      visit_ends hto (.singleton _) (List.nodup_singleton v)
        (fun w hw => hvs w (List.mem_singleton.mp hw ▸ List.mem_cons_self ..)) hon
        (Nat.le_add_right nodes.length 0)
    rw [visitAll] at h
    split at h
    · split at h
      · rename_i found' hfound
        rw [hfound] at hends
        obtain rfl := Option.some.inj h
        exact hends
      · rename_i marks₁ hok
        rw [hok] at hends
        exact ih hvs' hends h
    · exact ih hvs' hon h

/-- **Nothing but a circle is reported.** -/
theorem circle_isCircle {nodes found : List ν} (hto : ∀ e ∈ edges, e.2 ∈ nodes)
    (h : circle edges nodes = some found) : IsCircle edges found :=
  visitAll_ends hto (fun _ hv => hv) (fun v => by simp) h

variable (edges) in
/-- Take nodes off a stack, its top first, until it is empty; a node met for the first time
    is kept and what it leads to is put on the stack. -/
def reachFrom : Nat → List ν → List ν → List ν
  | 0, _, found => found
  | _ + 1, [], found => found
  | fuel + 1, v :: stack, found =>
    if v ∈ found then reachFrom fuel stack found
    else reachFrom fuel ((next edges v).reverse ++ stack) (found ++ [v])

variable (edges) in
/-- The nodes that can be reached from `v`. Each edge puts a node on the stack at most once
    more than the first ones, so there are never more than twice as many turns as edges. -/
def reached (v : ν) : List ν := reachFrom edges (2 * edges.length) (next edges v).reverse []

/-- Where the search from `v` is: what it found and what is on the stack can be reached, and
    what they lead to is found or on the stack. -/
structure Reaching (edges : List (ν × ν)) (v : ν) (stack found : List ν) : Prop where
  sound : ∀ w, w ∈ stack ∨ w ∈ found → TransGen (Edge edges) v w
  first : ∀ w, Edge edges v w → w ∈ stack ∨ w ∈ found
  closed : ∀ u ∈ found, ∀ w, Edge edges u w → w ∈ stack ∨ w ∈ found

def ahead (edges : List (ν × ν)) (found : List ν) : Nat :=
  (edges.filter (fun e => e.1 ∉ found)).length

theorem ahead_add_next {found : List ν} {v : ν} (hv : v ∉ found) :
    ahead edges (found ++ [v]) + (next edges v).length = ahead edges found := by
  induction edges with
  | nil => rfl
  | cons e edges ih =>
    simp only [ahead, next, List.length_map, List.mem_append, List.mem_singleton, not_or,
      Bool.decide_and, decide_not] at ih ⊢
    by_cases hev : e.1 = v
    · simp [hev, hv]
      omega
    · by_cases hef : e.1 ∈ found
      · simp [hev, hef]
        omega
      · simp [hev, hef]
        omega

omit [DecidableEq ν] in
theorem Reaching.keep {v u : ν} {stack found : List ν} (h : Reaching edges v (u :: stack) found)
    (hu : u ∈ found) : Reaching edges v stack found := by
  have hdrop : ∀ {w}, w ∈ u :: stack ∨ w ∈ found → w ∈ stack ∨ w ∈ found := by
    intro w hw
    obtain hw | hw := hw
    · obtain rfl | hw := List.mem_cons.mp hw
      · exact .inr hu
      · exact .inl hw
    · exact .inr hw
  exact ⟨fun w hw => h.sound w (hw.imp_left (List.mem_cons_of_mem _)),
    fun w hw => hdrop (h.first w hw), fun a ha w hw => hdrop (h.closed a ha w hw)⟩

theorem Reaching.add {v u : ν} {stack found : List ν} (h : Reaching edges v (u :: stack) found) :
    Reaching edges v ((next edges u).reverse ++ stack) (found ++ [u]) := by
  have hkeep : ∀ {w}, w ∈ u :: stack ∨ w ∈ found →
      w ∈ (next edges u).reverse ++ stack ∨ w ∈ found ++ [u] := by
    intro w hw
    simp only [List.mem_cons, List.mem_append] at hw ⊢
    tauto
  constructor
  · intro w hw
    simp only [List.mem_append, List.mem_reverse, List.mem_singleton] at hw
    have hu := h.sound u (.inl (List.mem_cons_self ..))
    obtain (hw | hw) | hw | rfl := hw
    · exact hu.tail ((mem_next edges).mp hw)
    · exact h.sound w (.inl (List.mem_cons_of_mem _ hw))
    · exact h.sound w (.inr hw)
    · exact hu
  · intro w hw
    exact hkeep (h.first w hw)
  · intro a ha w hw
    obtain ha | ha := List.mem_append.mp ha
    · exact hkeep (h.closed a ha w hw)
    · obtain rfl := List.mem_singleton.mp ha
      left
      simp only [List.mem_append, List.mem_reverse]
      exact .inl ((mem_next edges).mpr hw)

theorem Reaching.mem_reachFrom {v : ν} {fuel : Nat} {stack found : List ν}
    (h : Reaching edges v stack found) (hfuel : stack.length + ahead edges found ≤ fuel) (w : ν) :
    w ∈ reachFrom edges fuel stack found ↔ TransGen (Edge edges) v w := by
  have hdone : ∀ {found : List ν}, Reaching edges v [] found →
      (w ∈ found ↔ TransGen (Edge edges) v w) := by
    intro found h
    have hin : ∀ {u}, u ∈ ([] : List ν) ∨ u ∈ found → u ∈ found := fun hu => hu.resolve_left nofun
    constructor
    · intro hw
      exact h.sound w (.inr hw)
    · intro hw
      induction hw with
      | single he => exact hin (h.first _ he)
      | tail _ he ih => exact hin (h.closed _ ih _ he)
  induction fuel generalizing stack found with
  | zero =>
    have : stack = [] := List.eq_nil_of_length_eq_zero (by omega)
    subst this
    exact hdone h
  | succ fuel ih =>
    cases stack with
    | nil => exact hdone h
    | cons u stack =>
      rw [List.length_cons] at hfuel
      rw [reachFrom]
      split
      · rename_i hu
        exact ih (h.keep hu) (by omega)
      · rename_i hu
        apply ih h.add
        have : ahead edges (found ++ [u]) + (next edges u).length = ahead edges found :=
          ahead_add_next hu
        rw [List.length_append, List.length_reverse]
        omega

/-- **The stack collects the transitive closure.** -/
theorem mem_reached {v w : ν} : w ∈ reached edges v ↔ TransGen (Edge edges) v w := by
  have h : Reaching edges v (next edges v).reverse [] := by
    refine ⟨?_, ?_, nofun⟩
    · intro w hw
      have hw := hw.resolve_right nofun
      exact .single ((mem_next edges).mp (List.mem_reverse.mp hw))
    · intro w hw
      exact .inl (List.mem_reverse.mpr ((mem_next edges).mpr hw))
  apply h.mem_reachFrom
  have hnext := length_next_le edges v
  have hahead : ahead edges ([] : List ν) ≤ edges.length := List.length_filter_le _ _
  rw [List.length_reverse]
  omega

end

end Yardsort.Lib.Graph
