import Yardsort.Workspaces.Worktrees

/- The runs of creating, opening, discarding and adopting workspaces. A worktree is on disk before
   it has a row, and still there for a moment once its row is gone, so an adoption may record it in
   between and the undoing that follows removes what is then on record. `Pc.Minds` says when an
   undoing, an adoption and a failure do no harm; the invariant (`Kept`) is that every row has its
   worktree, and every worktree its row or a call that is about to record it or take it back. -/
namespace Yardsort.Workspaces
open Yardsort.Lib

structure Start (w : World) : Prop where
  points : ∀ row ∈ w.rows, ∃ t ∈ w.trees, t.repo = row.projectId ∧ t.path = row.path
  ours : ∀ row ∈ w.rows, ∀ b, row.undoing.branch = some b → ∀ branch ∈ w.branches,
    branch.repo = row.projectId → branch.name = b → branch.maker ≠ .elsewhere
  trees : ∀ t ∈ w.trees, ∀ k, t.maker ≠ .call k
  branches : ∀ b ∈ w.branches, ∀ k, b.maker ≠ .call k

def World.system (w : World) : System := ⟨w, [], []⟩

/-- Nothing the call made is left, and no row is of what it made. -/
structure LeftNothing (w : World) (k : Nat) (c : Creation) : Prop where
  folder : ∀ t ∈ w.trees, t.maker ≠ .call k
  branch : ∀ b ∈ w.branches, b.maker ≠ .call k
  row : ∀ row ∈ w.rows, row.path = c.path → ∃ t ∈ w.trees, t.path = c.path ∧ t.maker ≠ .call k

/-- What holds when all calls of a run from `w₀` have returned. -/
structure Whole (config : Config) (w₀ : World) (s : System) : Prop where
  /-- A worktree under the root has one row, unless it had none to begin with. -/
  recorded : ∀ t ∈ s.world.trees, config.worktreeRoot.isPrefixOf t.path = true →
    (∃! row, row ∈ s.world.rows ∧ row.path = t.path) ∨ (t ∈ w₀.trees ∧ ¬ w₀.known t.path)
  /-- A workspace that was returned has its row, with its base branch, unless it was discarded. -/
  created : ∀ (k : Nat) c row, s.threads[k]? = some (.created c row) →
    row.path = c.path ∧ row.baseBranch = c.base ∧ (row ∈ s.world.rows ∨ row.id ∈ s.dropped)
  unrecorded : ∀ (k : Nat) c, s.threads[k]? = some (.unrecorded c) ∨
    (∃ row, s.threads[k]? = some (.unmarked c row)) → LeftNothing s.world k c
  points : ∀ row ∈ s.world.rows, ∃ t ∈ s.world.trees, t.repo = row.projectId ∧ t.path = row.path
  elsewhere : ∀ b ∈ w₀.branches, b.maker = .elsewhere → b ∈ s.world.branches

def Returned (s : System) : Prop := ∀ pc ∈ s.threads, pc.returned = true

def Pc.records (repo : String) (path : Path) : Pc → Bool
  | .insert c => c.repo = repo && c.path = path
  | _ => false

/-- When a step of a call does no harm.
    - a worktree is taken back without failure, and while no row has it and no call is about to
      record it;
    - the branch of a worktree that was not recorded is taken back with it;
    - a row that was added is marked;
    - a worktree is adopted while it is still there. -/
def Pc.Minds (w : World) (threads : List Pc) (ok : Bool) : Pc → Prop
  | .removeTree u => ∀ t ∈ w.trees, t.repo = u.repo → t.path = u.path →
      ok = true ∧ ¬ w.known u.path ∧ ∀ pc ∈ threads, pc.records u.repo u.path = false
  | .deleteBranch ⟨repo, _, _, .unrecorded _⟩ branch => w.branchExists repo branch = true →
      ok = true ∧ w.checkedOut repo branch = false
  | .mark _ _ => ok = true
  | .adopt repo entry _ => ok = true → ¬ w.known entry.path →
      ∃ t ∈ w.trees, t.repo = repo ∧ t.path = entry.path
  | _ => True

/-- What is discarded is a workspace that was read from the store. -/
def Called (s : System) : Act → Prop
  | .calls (.discard row) => row ∈ s.world.rows
  | _ => True

structure InStep (s : System) (a : Act) : Prop where
  called : Called s a
  minds : ∀ k ok, a = .does k ok → ∀ pc ∈ (s.threads[k]? : Option _),
    pc.Minds s.world s.threads ok

def Ours (w : World) (repo branch : String) : Prop :=
  ∀ b ∈ w.branches, b.repo = repo → b.name = branch → b.maker ≠ .elsewhere

def Undoing.Ours (w : World) (u : Undoing) : Prop :=
  ∀ b, u.branch = some b → Workspaces.Ours w u.repo b

structure Made (w : World) (k : Nat) (repo : String) (path : Option Path) (branch : Option String) :
    Prop where
  trees : ∀ t ∈ w.trees, t.maker = .call k → t.repo = repo ∧ path = some t.path
  branches : ∀ b ∈ w.branches, b.maker = .call k → b.repo = repo ∧ branch = some b.name

def Recorded (w : World) (dropped : List Nat) (c : Creation) (row : WorkspaceRow) : Prop :=
  row.path = c.path ∧ row.baseBranch = c.base ∧ (row ∈ w.rows ∨ row.id ∈ dropped)

def Pc.Good (w : World) (dropped : List Nat) (k : Nat) : Pc → Prop
  | .checkBranch _ | .probeBranch _ _ | .probeFolder _ _ | .add _ => Made w k "" none none
  | .insert c => (∃ t ∈ w.trees, t.repo = c.repo ∧ t.path = c.path) ∧
      Made w k c.repo (some c.path) c.undoing.branch ∧ c.undoing.Ours w
  | .mark c row | .prepare c row | .created c row | .unprepared c row => Recorded w dropped c row
  | .removeTree u => u.Ours w ∧ ∀ c, u.cause = .unrecorded c →
      u = c.undoing ∧ Made w k c.repo (some c.path) u.branch
  | .deleteBranch u branch => Workspaces.Ours w u.repo branch ∧ ∀ c, u.cause = .unrecorded c →
      u = c.undoing ∧ Made w k c.repo none (some branch)
  | .removeRow row => row.undoing.Ours w ∧ row.id ∈ dropped ∧ row.id < w.nextId ∧
      ∀ r ∈ w.rows, r.id = row.id → r = row
  | .unrecorded c => Made w k c.repo none none
  | .unmarked _ _ => False
  | .paths _ | .list _ _ | .look _ _ | .adopt _ _ _ | .discarded _ | .adopted | .refused | .gaveUp =>
    True

/-- The call is about to record the worktree, or to take it back. -/
def Pc.holds (repo : String) (path : Path) : Pc → Bool
  | .insert c => c.repo = repo && c.path = path
  | .removeTree u => u.repo = repo && u.path = path
  | _ => false

structure Kept (config : Config) (w₀ : World) (s : System) : Prop where
  good : ∀ (k : Nat) pc, s.threads[k]? = some pc → pc.Good s.world s.dropped k
  trees : ∀ t ∈ s.world.trees, ∀ k, t.maker = .call k → k < s.threads.length
  branches : ∀ b ∈ s.world.branches, ∀ k, b.maker = .call k → k < s.threads.length
  points : ∀ row ∈ s.world.rows, ∃ t ∈ s.world.trees, t.repo = row.projectId ∧ t.path = row.path
  held : ∀ t ∈ s.world.trees, config.worktreeRoot.isPrefixOf t.path = true →
    s.world.known t.path ∨ (t ∈ w₀.trees ∧ ¬ w₀.known t.path) ∨
      ∃ pc ∈ s.threads, pc.holds t.repo t.path = true
  ours : ∀ row ∈ s.world.rows, row.undoing.Ours s.world
  elsewhere : ∀ b ∈ w₀.branches, b.maker = .elsewhere → b ∈ s.world.branches

/-- All a step of the call of thread `k` does to the world, as far as the others can tell. -/
structure Goes (k : Nat) (dropped : List Nat) (w w' : World) : Prop where
  trees : ∀ t ∈ w'.trees, t ∈ w.trees ∨ t.maker = .call k
  branches : ∀ b ∈ w'.branches, b ∈ w.branches ∨ b.maker = .call k
  rows : ∀ r ∈ w'.rows, r ∈ w.rows ∨ w.nextId ≤ r.id
  kept : ∀ r ∈ w.rows, r ∈ w'.rows ∨ r.id ∈ dropped
  nextId : w.nextId ≤ w'.nextId

section
variable {w w' : World} {k j : Nat} {dropped : List Nat}

theorem Goes.refl (k : Nat) (dropped : List Nat) (w : World) : Goes k dropped w w :=
  ⟨fun _ => .inl, fun _ => .inl, fun _ => .inl, fun _ => .inl, Nat.le_refl _⟩

theorem Ours.goes (hg : Goes k dropped w w') {repo branch : String} (h : Ours w repo branch) :
    Ours w' repo branch := by
  intro b hb hrepo hname
  obtain hold | hmade := hg.branches b hb
  · exact h b hold hrepo hname
  · simp [hmade]

theorem Undoing.Ours.goes (hg : Goes k dropped w w') {u : Undoing} (h : u.Ours w) : u.Ours w' :=
  fun b hb => (h b hb).goes hg

theorem Made.goes (hg : Goes k dropped w w') (hjk : j ≠ k) {repo : String} {path : Option Path}
    {branch : Option String} (h : Made w j repo path branch) : Made w' j repo path branch := by
  constructor
  · intro t ht hmaker
    obtain hold | hmade := hg.trees t ht
    · exact h.trees t hold hmaker
    · exact absurd (Maker.call.inj (hmaker.symm.trans hmade)) hjk
  · intro b hb hmaker
    obtain hold | hmade := hg.branches b hb
    · exact h.branches b hold hmaker
    · exact absurd (Maker.call.inj (hmaker.symm.trans hmade)) hjk

theorem Recorded.goes (hg : Goes k dropped w w') {c : Creation} {row : WorkspaceRow}
    (h : Recorded w dropped c row) : Recorded w' dropped c row := by
  obtain ⟨hpath, hbase, hrow | hdropped⟩ := h
  · exact ⟨hpath, hbase, hg.kept row hrow⟩
  · exact ⟨hpath, hbase, .inr hdropped⟩

theorem Pc.Good.goes (hg : Goes k dropped w w') (hjk : j ≠ k) {pc : Pc}
    (htree : ∀ c, pc = .insert c → ∃ t ∈ w'.trees, t.repo = c.repo ∧ t.path = c.path)
    (h : pc.Good w dropped j) : pc.Good w' dropped j := by
  cases pc with
  | checkBranch | probeBranch | probeFolder | add | unrecorded => exact Made.goes hg hjk h
  | insert c => exact ⟨htree c rfl, h.2.1.goes hg hjk, h.2.2.goes hg⟩
  | mark | prepare | created | unprepared => exact Recorded.goes hg h
  | removeTree u | deleteBranch u branch =>
    refine ⟨h.1.goes hg, fun c hc => ?_⟩
    obtain ⟨hu, hmade⟩ := h.2 c hc
    exact ⟨hu, hmade.goes hg hjk⟩
  | removeRow row =>
    obtain ⟨hours, hdropped, hid, hsame⟩ := h
    refine ⟨hours.goes hg, hdropped, Nat.lt_of_lt_of_le hid hg.nextId, fun r hr heq => ?_⟩
    obtain hold | hnew := hg.rows r hr
    · exact hsame r hold heq
    · omega
  | unmarked => exact h.elim
  | paths | list | look | adopt | discarded | adopted | refused | gaveUp => trivial

end

section
variable {w w' : World} {k : Nat} {dropped : List Nat} {repo branch : String} {path : Path}

theorem branchExists_iff : w.branchExists repo branch = true ↔
    ∃ b ∈ w.branches, b.repo = repo ∧ b.name = branch := by
  simp [World.branchExists]

theorem worktreeAdd_eq (h : w.worktreeAdd k repo path branch = some w') :
    w'.trees = w.trees ++ [⟨repo, path, some branch, .call k⟩] ∧
      w'.branches = w.branches ++ [⟨repo, branch, .call k⟩] ∧ w'.rows = w.rows ∧
      w'.nextId = w.nextId ∧ w.branchExists repo branch = false := by
  unfold World.worktreeAdd at h
  split at h
  · cases h
  split at h
  · cases h
  · rename_i hnone
    cases h
    exact ⟨rfl, rfl, rfl, rfl, by simpa using hnone⟩

theorem worktreeAddExisting_eq (h : w.worktreeAddExisting k repo path branch = some w') :
    w'.trees = w.trees ++ [⟨repo, path, some branch, .call k⟩] ∧ w'.branches = w.branches ∧
      w'.rows = w.rows ∧ w'.nextId = w.nextId := by
  unfold World.worktreeAddExisting at h
  split at h
  · cases h
  split at h
  · cases h
  · cases h
    exact ⟨rfl, rfl, rfl, rfl⟩

theorem addWorktree_eq {name : String} {branch base : Option String} {row : WorkspaceRow}
    (h : w.addWorktree repo name path branch base = some (row, w')) :
    row = ⟨w.nextId, repo, name, path, branch, base⟩ ∧ w'.rows = w.rows ++ [row] ∧
      w'.trees = w.trees ∧ w'.branches = w.branches ∧ w'.nextId = w.nextId + 1 := by
  unfold World.addWorktree at h
  split at h
  · cases h
  · cases h
    exact ⟨rfl, rfl, rfl, rfl, rfl⟩

theorem mem_worktreeRemove {t : Worktree} : t ∈ (w.worktreeRemove repo path).trees ↔
    t ∈ w.trees ∧ ¬ (t.repo = repo ∧ t.path = path) := by
  simp [World.worktreeRemove, imp_iff_not_or]

theorem mem_removeWorktree {id : Nat} {row : WorkspaceRow} : row ∈ (w.removeWorktree id).rows ↔
    row ∈ w.rows ∧ row.id ≠ id := by
  simp [World.removeWorktree]

theorem mem_branchDelete {b : Branch} (h : b ∈ (w.branchDelete repo branch).branches) :
    b ∈ w.branches := by
  unfold World.branchDelete at h
  split at h
  · exact h
  · exact mem_of_mem_filter h

theorem branchDelete_stays {b : Branch} (hb : b ∈ w.branches)
    (hne : ¬ (b.repo = repo ∧ b.name = branch)) : b ∈ (w.branchDelete repo branch).branches := by
  unfold World.branchDelete
  split
  · exact hb
  · refine mem_filter.mpr ⟨hb, ?_⟩
    simpa [imp_iff_not_or] using hne

theorem branchDelete_gone (hfree : w.checkedOut repo branch = false) {b : Branch}
    (hb : b ∈ (w.branchDelete repo branch).branches) : ¬ (b.repo = repo ∧ b.name = branch) := by
  rw [World.branchDelete, if_neg (by simp [hfree])] at hb
  simpa [imp_iff_not_or] using (mem_filter.mp hb).2

theorem branchDelete_rest :
    (w.branchDelete repo branch).trees = w.trees ∧ (w.branchDelete repo branch).rows = w.rows ∧
      (w.branchDelete repo branch).nextId = w.nextId := by
  unfold World.branchDelete
  split <;> exact ⟨rfl, rfl, rfl⟩

end

/-! ## A step of a call -/

section
variable {config : Config} {w₀ : World} {s : System} {k : Nat} {pc pc' : Pc} {w' : World}

/-- What is to be shown of a step, so that the invariant is kept. -/
structure Keeps (s : System) (k : Nat) (pc : Pc) (w' : World) (pc' : Pc) : Prop where
  goes : Goes k s.dropped s.world w'
  good : pc'.Good w' s.dropped k
  inserting : ∀ j ≠ k, ∀ c, s.threads[j]? = some (.insert c) →
    ∃ t ∈ w'.trees, t.repo = c.repo ∧ t.path = c.path
  points : ∀ row ∈ w'.rows, ∃ t ∈ w'.trees, t.repo = row.projectId ∧ t.path = row.path
  held : ∀ t ∈ w'.trees, (t ∈ s.world.trees → s.world.known t.path ∨ pc.holds t.repo t.path = true) →
    w'.known t.path ∨ pc'.holds t.repo t.path = true
  ours : ∀ row ∈ w'.rows, row.undoing.Ours w'
  elsewhere : ∀ b ∈ s.world.branches, b.maker = .elsewhere → b ∈ w'.branches

theorem Kept.keeps (hi : Kept config w₀ s) (hpc : s.threads[k]? = some pc)
    (h : Keeps s k pc w' pc') : Kept config w₀ ⟨w', s.threads.set k pc', s.dropped⟩ := by
  have hlt : k < s.threads.length := (List.getElem?_eq_some_iff.mp hpc).1
  constructor
  · intro j pc₁ hj
    obtain ⟨rfl, rfl⟩ | ⟨hjk, hold⟩ := get_set hpc hj
    · exact h.good
    · exact (hi.good j pc₁ hold).goes h.goes hjk fun c hc => h.inserting j hjk c (hc ▸ hold)
  · intro t ht j hmaker
    rw [List.length_set]
    obtain hold | hmade := h.goes.trees t ht
    · exact hi.trees t hold j hmaker
    · exact Maker.call.inj (hmaker.symm.trans hmade) ▸ hlt
  · intro b hb j hmaker
    rw [List.length_set]
    obtain hold | hmade := h.goes.branches b hb
    · exact hi.branches b hold j hmaker
    · exact Maker.call.inj (hmaker.symm.trans hmade) ▸ hlt
  · exact h.points
  · intro t ht hroot
    by_cases hold : t ∈ s.world.trees
    · obtain hknown | horphan | ⟨pc₁, hpc₁, hholds⟩ := hi.held t hold hroot
      · obtain hknown | hholds := h.held t ht fun _ => .inl hknown
        · exact .inl hknown
        · exact .inr (.inr ⟨pc', mem_set_self hpc, hholds⟩)
      · exact .inr (.inl horphan)
      · obtain rfl | hstays := mem_set_or (b := pc') hpc hpc₁
        · obtain hknown | hholds := h.held t ht fun _ => .inr hholds
          · exact .inl hknown
          · exact .inr (.inr ⟨pc', mem_set_self hpc, hholds⟩)
        · exact .inr (.inr ⟨pc₁, hstays, hholds⟩)
    · obtain hknown | hholds := h.held t ht fun h => absurd h hold
      · exact .inl hknown
      · exact .inr (.inr ⟨pc', mem_set_self hpc, hholds⟩)
  · exact h.ours
  · exact fun b hb hmaker => h.elsewhere b (hi.elsewhere b hb hmaker) hmaker

variable (hi : Kept config w₀ s) (hpc : s.threads[k]? = some pc)
include hi

theorem keeps_same (hgood : pc'.Good s.world s.dropped k)
    (hholds : ∀ repo path, pc.holds repo path = true → pc'.holds repo path = true) :
    Keeps s k pc s.world pc' where
  goes := .refl ..
  good := hgood
  inserting := fun j _ c hj => (hi.good j _ hj).1
  points := hi.points
  held := by
    intro t ht h
    obtain hknown | hheld := h ht
    · exact .inl hknown
    · exact .inr (hholds _ _ hheld)
  ours := hi.ours
  elsewhere := fun _ hb _ => hb

include hpc

theorem keeps_add {c : Creation} (hadd : pc = .add c)
    (htrees : w'.trees = s.world.trees ++ [⟨c.repo, c.path, some c.branch, .call k⟩])
    (hbranches : ∀ b ∈ w'.branches, b ∈ s.world.branches ∨
      (b = ⟨c.repo, c.branch, .call k⟩ ∧ c.undoing.branch = some c.branch))
    (hstay : ∀ b ∈ s.world.branches, b ∈ w'.branches) (hrows : w'.rows = s.world.rows)
    (hid : w'.nextId = s.world.nextId) (hours : c.undoing.Ours w') :
    Keeps s k pc w' (.insert c) := by
  subst hadd
  have hnothing : Made s.world k "" none none := hi.good k _ hpc
  have hsub : ∀ t ∈ s.world.trees, t ∈ w'.trees := fun t ht => by
    rw [htrees]
    exact mem_append_left _ ht
  have hcame : ∀ t ∈ w'.trees,
      t ∈ s.world.trees ∨ t = ⟨c.repo, c.path, some c.branch, .call k⟩ := fun t ht => by
    rw [htrees] at ht
    exact (mem_append.mp ht).imp_right mem_singleton.mp
  have hgoes : Goes k s.dropped s.world w' := by
    refine ⟨fun t ht => ?_, fun b hb => ?_, fun r hr => .inl (hrows ▸ hr),
      fun r hr => .inl (hrows ▸ hr), Nat.le_of_eq hid.symm⟩
    · obtain hold | rfl := hcame t ht
      · exact .inl hold
      · exact .inr rfl
    · obtain hold | ⟨rfl, -⟩ := hbranches b hb
      · exact .inl hold
      · exact .inr rfl
  refine ⟨hgoes, ⟨⟨_, by rw [htrees]; exact mem_append_right _ mem_cons_self, rfl, rfl⟩,
    ⟨fun t ht hmaker => ?_, fun b hb hmaker => ?_⟩, hours⟩, fun j _ c' hj => ?_, ?_, ?_, ?_,
    fun b hb _ => hstay b hb⟩
  · obtain hold | rfl := hcame t ht
    · exact nomatch (hnothing.trees t hold hmaker).2
    · exact ⟨rfl, rfl⟩
  · obtain hold | ⟨rfl, hnew⟩ := hbranches b hb
    · exact nomatch (hnothing.branches b hold hmaker).2
    · exact ⟨rfl, hnew⟩
  · obtain ⟨t, ht, hat⟩ := (hi.good j _ hj).1
    exact ⟨t, hsub t ht, hat⟩
  · intro row hrow
    obtain ⟨t, ht, hat⟩ := hi.points row (hrows ▸ hrow)
    exact ⟨t, hsub t ht, hat⟩
  · intro t ht h
    obtain hold | rfl := hcame t ht
    · obtain hknown | hholds := h hold
      · left
        unfold World.known
        rwa [hrows]
      · cases hholds
    · exact .inr (by simp [Pc.holds])
  · exact fun row hrow => (hi.ours row (hrows ▸ hrow)).goes hgoes

omit hpc in
theorem keeps_row {projectId name : String} {path : Path} {branch base : Option String}
    {row : WorkspaceRow} (h : s.world.addWorktree projectId name path branch base = some (row, w'))
    (hpoints : ∃ t ∈ s.world.trees, t.repo = projectId ∧ t.path = path)
    (hours : row.undoing.Ours s.world) (hgood : pc'.Good w' s.dropped k)
    (hholds : ∀ repo p, pc.holds repo p = true → p = path) : Keeps s k pc w' pc' := by
  obtain ⟨hrow, hrows, htrees, hbranches, hid⟩ := addWorktree_eq h
  have hmem : ∀ r, r ∈ w'.rows ↔ r ∈ s.world.rows ∨ r = row := by simp [hrows]
  have hgoes : Goes k s.dropped s.world w' := by
    refine ⟨fun t ht => .inl (htrees ▸ ht), fun b hb => .inl (hbranches ▸ hb), fun r hr => ?_,
      fun r hr => .inl ((hmem r).mpr (.inl hr)), by omega⟩
    obtain hold | rfl := (hmem r).mp hr
    · exact .inl hold
    · exact .inr (by simp [hrow])
  refine ⟨hgoes, hgood, fun j _ c hj => ?_, fun r hr => ?_, fun t ht h => ?_, fun r hr => ?_,
    fun b hb _ => hbranches ▸ hb⟩
  · rw [htrees]
    exact (hi.good j _ hj).1
  · rw [htrees]
    obtain hold | rfl := (hmem r).mp hr
    · exact hi.points r hold
    · subst hrow
      exact hpoints
  · left
    unfold World.known
    rw [hrows, map_append]
    obtain hknown | hheld := h (htrees ▸ ht)
    · exact mem_append_left _ hknown
    · rw [hholds _ _ hheld]
      exact mem_append_right _ (by simp [hrow])
  · obtain hold | rfl := (hmem r).mp hr
    · exact (hi.ours r hold).goes hgoes
    · exact hours.goes hgoes

theorem keeps_removeTree {ok : Bool} {u : Undoing} (hremove : pc = .removeTree u)
    (hmind : pc.Minds s.world s.threads ok) :
    Keeps s k pc (perform config s.world k ok pc).1 (perform config s.world k ok pc).2 := by
  subst hremove
  obtain ⟨hours, hcause⟩ := hi.good k _ hpc
  generalize hw : (perform config s.world k ok (.removeTree u)).1 = w'
  have hshape : w' = if ok then s.world.worktreeRemove u.repo u.path else s.world := hw.symm
  have hsub : ∀ t ∈ w'.trees, t ∈ s.world.trees := by
    intro t ht
    rw [hshape] at ht
    split at ht
    · exact (mem_worktreeRemove.mp ht).1
    · exact ht
  -- It is gone, whatever git answered.
  have hgone : ∀ t ∈ w'.trees, ¬ (t.repo = u.repo ∧ t.path = u.path) := by
    intro t ht hat
    have hok := (hmind t (hsub t ht) hat.1 hat.2).1
    rw [hshape, if_pos hok] at ht
    exact (mem_worktreeRemove.mp ht).2 hat
  have hstays : ∀ t ∈ s.world.trees, ¬ (t.repo = u.repo ∧ t.path = u.path) → t ∈ w'.trees := by
    intro t ht hne
    rw [hshape]
    split
    · exact mem_worktreeRemove.mpr ⟨ht, hne⟩
    · exact ht
  have hbranches : w'.branches = s.world.branches := by
    rw [hshape]
    split <;> rfl
  have hrows : w'.rows = s.world.rows := by
    rw [hshape]
    split <;> rfl
  have hid : w'.nextId = s.world.nextId := by
    rw [hshape]
    split <;> rfl
  have hgoes : Goes k s.dropped s.world w' :=
    ⟨fun t ht => .inl (hsub t ht), fun b hb => .inl (hbranches ▸ hb), fun r hr => .inl (hrows ▸ hr),
      fun r hr => .inl (hrows ▸ hr), Nat.le_of_eq hid.symm⟩
  refine ⟨hgoes, ?_, fun j _ c hj => ?_, fun row hrow => ?_, fun t ht h => ?_,
    fun row hrow => (hi.ours row (hrows ▸ hrow)).goes hgoes, fun b hb _ => hbranches ▸ hb⟩
  · have hmade : ∀ c, u.cause = .unrecorded c → u = c.undoing ∧ Made w' k c.repo none u.branch := by
      intro c hc
      obtain ⟨rfl, hmade⟩ := hcause c hc
      refine ⟨rfl, fun t ht hmaker => ?_, fun b hb hmaker => hmade.branches b (hbranches ▸ hb) hmaker⟩
      obtain ⟨hrepo, hpath⟩ := hmade.trees t (hsub t ht) hmaker
      exact absurd ⟨hrepo, (Option.some.inj hpath).symm⟩ (hgone t ht)
    dsimp only [perform]
    split
    · rename_i hnone
      unfold Undoing.undone
      split
      · rename_i c hc
        have := (hmade c hc).2
        rwa [hnone] at this
      · trivial
    · rename_i branch hbranch
      refine ⟨(hours branch hbranch).goes hgoes, fun c hc => ?_⟩
      obtain ⟨heq, this⟩ := hmade c hc
      exact ⟨heq, hbranch ▸ this⟩
  · obtain ⟨t, ht, hat⟩ := (hi.good j _ hj).1
    refine ⟨t, hstays t ht fun hplace => ?_, hat⟩
    have hnone := (hmind t ht hplace.1 hplace.2).2.2 _ (mem_of_getElem? hj)
    simp [Pc.records, ← hat.1, ← hat.2, hplace.1, hplace.2] at hnone
  · obtain ⟨t, ht, hat⟩ := hi.points row (hrows ▸ hrow)
    refine ⟨t, hstays t ht fun hplace => ?_, hat⟩
    refine (hmind t ht hplace.1 hplace.2).2.1 ?_
    exact mem_map.mpr ⟨row, hrows ▸ hrow, hat.2.symm.trans hplace.2⟩
  · obtain hknown | hholds := h (hsub t ht)
    · left
      unfold World.known
      rwa [hrows]
    · have hat : u.repo = t.repo ∧ u.path = t.path := by simpa [Pc.holds] using hholds
      exact absurd ⟨hat.1.symm, hat.2.symm⟩ (hgone t ht)

theorem keeps_deleteBranch {ok : Bool} {u : Undoing} {branch : String}
    (hdelete : pc = .deleteBranch u branch) (hmind : pc.Minds s.world s.threads ok) :
    Keeps s k pc (perform config s.world k ok pc).1 (perform config s.world k ok pc).2 := by
  subst hdelete
  obtain ⟨hours, hcause⟩ := hi.good k _ hpc
  generalize hw : (perform config s.world k ok (.deleteBranch u branch)).1 = w'
  have hshape : w' = if ok then s.world.branchDelete u.repo branch else s.world := hw.symm
  have hrest : w'.trees = s.world.trees ∧ w'.rows = s.world.rows ∧
      w'.nextId = s.world.nextId := by
    rw [hshape]
    split
    · exact branchDelete_rest
    · exact ⟨rfl, rfl, rfl⟩
  obtain ⟨htrees, hrows, hid⟩ := hrest
  have hsub : ∀ b ∈ w'.branches, b ∈ s.world.branches := by
    intro b hb
    rw [hshape] at hb
    split at hb
    · exact mem_branchDelete hb
    · exact hb
  have hgoes : Goes k s.dropped s.world w' :=
    ⟨fun t ht => .inl (htrees ▸ ht), fun b hb => .inl (hsub b hb), fun r hr => .inl (hrows ▸ hr),
      fun r hr => .inl (hrows ▸ hr), Nat.le_of_eq hid.symm⟩
  refine ⟨hgoes, ?_, fun j _ c hj => ?_, fun row hrow => ?_, fun t ht h => ?_,
    fun row hrow => (hi.ours row (hrows ▸ hrow)).goes hgoes, fun b hb hmaker => ?_⟩
  · dsimp only [perform, Undoing.undone]
    split
    · rename_i c hc
      obtain ⟨rfl, hmade⟩ := hcause c hc
      refine ⟨fun t ht hmaker => ?_, fun b hb hmaker => ?_⟩
      · exact nomatch (hmade.trees t (htrees ▸ ht) hmaker).2
      · obtain ⟨hrepo, hname⟩ := hmade.branches b (hsub b hb) hmaker
        have hname := Option.some.inj hname
        obtain ⟨hok, hfree⟩ := hmind (branchExists_iff.mpr ⟨b, hsub b hb, hrepo, hname.symm⟩)
        rw [hshape, if_pos hok] at hb
        exact absurd ⟨hrepo, hname.symm⟩ (branchDelete_gone hfree hb)
    · trivial
  · rw [htrees]
    exact (hi.good j _ hj).1
  · rw [htrees]
    exact hi.points row (hrows ▸ hrow)
  · obtain hknown | hholds := h (htrees ▸ ht)
    · left
      unfold World.known
      rwa [hrows]
    · cases hholds
  · rw [hshape]
    split
    · exact branchDelete_stays hb fun hat => hours b hb hat.1 hat.2 hmaker
    · exact hb

theorem keeps_removeRow {row : WorkspaceRow} (hremove : pc = .removeRow row) :
    Keeps s k pc (s.world.removeWorktree row.id) (.removeTree row.undoing) := by
  subst hremove
  obtain ⟨hours, hdropped, -, hsame⟩ := hi.good k _ hpc
  have hgoes : Goes k s.dropped s.world (s.world.removeWorktree row.id) := by
    refine ⟨fun _ => .inl, fun _ => .inl, fun r hr => .inl (mem_removeWorktree.mp hr).1,
      fun r hr => ?_, Nat.le_refl _⟩
    by_cases hid : r.id = row.id
    · exact .inr (hid ▸ hdropped)
    · exact .inl (mem_removeWorktree.mpr ⟨hr, hid⟩)
  refine ⟨hgoes, ⟨hours.goes hgoes, fun c hc => nomatch hc⟩, fun j _ c hj => (hi.good j _ hj).1,
    fun r hr => hi.points r (mem_removeWorktree.mp hr).1, fun t ht h => ?_,
    fun r hr => (hi.ours r (mem_removeWorktree.mp hr).1).goes hgoes, fun b hb _ => hb⟩
  obtain hknown | hholds := h ht
  · obtain ⟨r, hr, hpath⟩ := mem_map.mp hknown
    by_cases hid : r.id = row.id
    -- The worktree the row points at is the one that is there.
    · obtain rfl := hsame r hr hid
      obtain ⟨t', ht', hrepo, hpath'⟩ := hi.points r hr
      obtain rfl := List.inj_on_of_nodup_map s.world.folders ht' ht (hpath'.trans hpath)
      exact .inr (by simp [Pc.holds, WorkspaceRow.undoing, hrepo, hpath'])
    · exact .inl (mem_map.mpr ⟨r, mem_removeWorktree.mpr ⟨hr, hid⟩, hpath⟩)
  · cases hholds

/-- Each step of a call that does no harm keeps the invariant. -/
theorem perform_keeps {ok : Bool} (hmind : pc.Minds s.world s.threads ok) :
    Keeps s k pc (perform config s.world k ok pc).1 (perform config s.world k ok pc).2 := by
  have hgood := hi.good k pc hpc
  cases pc with
  | checkBranch plan =>
    refine keeps_same hi ?_ fun _ _ h => nomatch h
    dsimp only [perform]
    split
    · exact hgood
    · trivial
  | probeBranch plan n =>
    refine keeps_same hi ?_ fun _ _ h => nomatch h
    dsimp only [perform]
    split
    · trivial
    · split <;> exact hgood
  | probeFolder plan n =>
    refine keeps_same hi ?_ fun _ _ h => nomatch h
    dsimp only [perform, Plan.next]
    split
    · exact hgood
    · split <;> exact hgood
  | add c =>
    dsimp only [perform]
    split
    · exact keeps_same hi trivial fun _ _ h => nomatch h
    rename_i w' hadd
    split at hadd
    · cases hadd
    split at hadd
    · rename_i hbase
      obtain ⟨htrees, hbranches, hrows, hid, hfree⟩ := worktreeAdd_eq hadd
      obtain ⟨base, hbase⟩ := isSome_iff_exists.mp hbase
      have hnew : c.undoing.branch = some c.branch := by
        rw [Creation.undoing, hbase]
        rfl
      have hcame : ∀ b ∈ w'.branches,
          b ∈ s.world.branches ∨ b = ⟨c.repo, c.branch, .call k⟩ := fun b hb =>
        (mem_append.mp (hbranches ▸ hb)).imp_right mem_singleton.mp
      refine keeps_add hi hpc rfl htrees (fun b hb => (hcame b hb).imp_right fun h => ⟨h, hnew⟩)
        (fun b hb => by simp [hbranches, hb]) hrows hid fun b hb branch hmem hrepo hname => ?_
      obtain hold | rfl := hcame branch hmem
      · rw [hnew] at hb
        cases hb
        have hexists := branchExists_iff.mpr ⟨branch, hold, hrepo, hname⟩
        exact absurd (hfree.symm.trans hexists) (by simp)
      · exact nofun
    · rename_i hbase
      obtain ⟨htrees, hbranches, hrows, hid⟩ := worktreeAddExisting_eq hadd
      have hnone : c.undoing.branch = none := by
        simpa [Creation.undoing] using hbase
      refine keeps_add hi hpc rfl htrees (fun b hb => .inl (hbranches ▸ hb))
        (fun b hb => hbranches ▸ hb) hrows hid fun b hb => ?_
      rw [hnone] at hb
      cases hb
  | insert c =>
    obtain ⟨htree, hmade, hours⟩ := hgood
    dsimp only [perform]
    split
    · refine keeps_same hi ⟨hours, fun c' hc => ?_⟩ fun _ _ h => h
      cases hc
      exact ⟨rfl, hmade⟩
    · rename_i row w' hinsert
      split at hinsert
      · obtain ⟨hrow, hrows, -⟩ := addWorktree_eq hinsert
        refine keeps_row hi hinsert htree ?_ ⟨by rw [hrow], by rw [hrow], .inl (by simp [hrows])⟩
          fun repo p h => ?_
        · intro b hb
          refine hrow ▸ hours b ?_
          simpa [hrow, WorkspaceRow.undoing, Creation.undoing, bind_eq_some_iff] using hb
        · have hat : c.repo = repo ∧ c.path = p := by simpa [Pc.holds] using h
          exact hat.2.symm
      · cases hinsert
  | mark c row =>
    obtain rfl : ok = true := hmind
    exact keeps_same hi hgood fun _ _ h => nomatch h
  | prepare c row =>
    refine keeps_same hi ?_ fun _ _ h => nomatch h
    dsimp only [perform]
    split <;> exact hgood
  | removeTree u => exact keeps_removeTree hi hpc rfl hmind
  | deleteBranch u branch => exact keeps_deleteBranch hi hpc rfl hmind
  | removeRow row =>
    dsimp only [perform]
    split
    · exact keeps_removeRow hi hpc rfl
    · exact keeps_same hi trivial fun _ _ h => nomatch h
  | paths repo | list repo known =>
    refine keeps_same hi ?_ fun _ _ h => nomatch h
    dsimp only [perform]
    split <;> trivial
  | look repo entries =>
    cases entries with
    | nil => exact keeps_same hi trivial fun _ _ h => nomatch h
    | cons entry entries =>
      refine keeps_same hi ?_ fun _ _ h => nomatch h
      dsimp only [perform]
      split
      · trivial
      · split <;> trivial
  | adopt repo entry entries =>
    dsimp only [perform]
    split
    · exact keeps_same hi trivial fun _ _ h => nomatch h
    rename_i hok
    split
    · exact keeps_same hi trivial fun _ _ h => nomatch h
    rename_i row w' hadopt
    obtain ⟨hrow, -⟩ := addWorktree_eq hadopt
    have hunknown : ¬ s.world.known entry.path := by
      intro hknown
      have hmem : entry.path ∈ s.world.rows.map (·.path) := hknown
      rw [World.addWorktree, dif_pos hmem] at hadopt
      cases hadopt
    refine keeps_row hi hadopt (hmind (by simpa using hok) hunknown) (fun b hb => ?_) trivial
      fun _ _ h => nomatch h
    rw [hrow] at hb
    cases hb
  | created | unprepared | unrecorded | discarded | adopted | refused | gaveUp =>
    exact keeps_same hi hgood fun _ _ h => nomatch h
  | unmarked => exact hgood.elim

end

section
variable {config : Config} {w₀ : World} {s s' : System} {a : Act}

theorem call_good (hi : Kept config w₀ s) {call : Call} (hcalled : Called s (.calls call)) :
    call.pc.Good s.world (call.drops ++ s.dropped) s.threads.length := by
  have hnothing : Made s.world s.threads.length "" none none :=
    ⟨fun t ht hmaker => absurd (hi.trees t ht _ hmaker) (Nat.lt_irrefl _),
      fun b hb hmaker => absurd (hi.branches b hb _ hmaker) (Nat.lt_irrefl _)⟩
  cases call with
  | createNamed | openBranch => exact hnothing
  | discard row =>
    refine ⟨hi.ours row hcalled, by simp [Call.drops], s.world.ids row hcalled, fun r hr hid => ?_⟩
    exact List.inj_on_of_nodup_map s.world.idKey hr hcalled hid
  | adoptUnknown => trivial

theorem Pc.Good.drops {w : World} {k : Nat} {pc : Pc} {dropped : List Nat} (more : List Nat)
    (h : pc.Good w dropped k) : pc.Good w (more ++ dropped) k := by
  cases pc with
  | mark | prepare | created | unprepared =>
    obtain ⟨hpath, hbase, hrow⟩ := h
    exact ⟨hpath, hbase, hrow.imp_right (mem_append_right _)⟩
  | removeRow row =>
    obtain ⟨hours, hdropped, hrest⟩ := h
    exact ⟨hours, mem_append_right _ hdropped, hrest⟩
  | _ => exact h

theorem step_kept (hi : Kept config w₀ s) (hm : InStep s a) (h : step config s a = some s') :
    Kept config w₀ s' := by
  cases a with
  | calls call =>
    cases h
    have hlonger : s.threads.length < (s.threads ++ [call.pc]).length := by simp
    refine ⟨fun k pc hpc => ?_, fun t ht k hmaker => ?_, fun b hb k hmaker => ?_, hi.points,
      fun t ht hroot => ?_, hi.ours, hi.elsewhere⟩
    · obtain hold | ⟨rfl, rfl⟩ := get_append hpc
      · exact (hi.good k pc hold).drops _
      · exact call_good hi hm.called
    · exact Nat.lt_trans (hi.trees t ht k hmaker) hlonger
    · exact Nat.lt_trans (hi.branches b hb k hmaker) hlonger
    · obtain hknown | horphan | ⟨pc, hpc, hholds⟩ := hi.held t ht hroot
      · exact .inl hknown
      · exact .inr (.inl horphan)
      · exact .inr (.inr ⟨pc, mem_append_left _ hpc, hholds⟩)
  | does k ok =>
    unfold step at h
    dsimp only at h
    split at h
    · cases h
    rename_i pc hpc
    split at h
    · cases h
    · cases h
      exact hi.keeps hpc (perform_keeps hi hpc (hm.minds k ok rfl pc hpc))

theorem start_kept (hstart : Start w₀) : Kept config w₀ w₀.system where
  good := fun k pc h => by simp [World.system] at h
  trees := fun t ht k hmaker => absurd hmaker (hstart.trees t ht k)
  branches := fun b hb k hmaker => absurd hmaker (hstart.branches b hb k)
  points := hstart.points
  held := fun t ht _ => by
    by_cases hknown : w₀.known t.path
    · exact .inl hknown
    · exact .inr (.inl ⟨ht, hknown⟩)
  ours := hstart.ours
  elsewhere := fun b hb _ => hb

theorem Kept.whole (hi : Kept config w₀ s) (hreturned : Returned s) : Whole config w₀ s := by
  refine ⟨fun t ht hroot => ?_, fun k c row hk => ?_, fun k c hk => ?_, hi.points, hi.elsewhere⟩
  · obtain hknown | horphan | ⟨pc, hpc, hholds⟩ := hi.held t ht hroot
    · obtain ⟨row, hrow, hpath⟩ := mem_map.mp hknown
      refine .inl ⟨row, ⟨hrow, hpath⟩, fun row' hrow' => ?_⟩
      exact List.inj_on_of_nodup_map s.world.onePerPath hrow'.1 hrow (hrow'.2.trans hpath.symm)
    · exact .inr horphan
    · have hover := hreturned pc hpc
      cases pc <;> simp [Pc.holds, Pc.returned] at hholds hover
  · exact hi.good k _ hk
  · obtain hk | ⟨row, hk⟩ := hk
    · have hmade : Made s.world k c.repo none none := hi.good k _ hk
      have hfolder : ∀ t ∈ s.world.trees, t.maker ≠ .call k :=
        fun t ht hmaker => nomatch (hmade.trees t ht hmaker).2
      refine ⟨hfolder, fun b hb hmaker => (nomatch (hmade.branches b hb hmaker).2),
        fun row hrow hpath => ?_⟩
      obtain ⟨t, ht, -, hat⟩ := hi.points row hrow
      exact ⟨t, ht, hat.trans hpath, hfolder t ht⟩
    · exact (hi.good k _ hk).elim

/-- **Worktrees and rows stay one.** In every run whose steps do no harm, when all calls have
    returned, each worktree under the root has one row, each row its worktree, a workspace that was
    returned its row, and one that could not be recorded has left nothing; no branch made elsewhere
    is gone. -/
theorem worktrees_whole {as : List Act} (hstart : Start w₀)
    (hm : Meets (step config) InStep w₀.system as)
    (hr : Lib.run (step config) w₀.system as = some s) (hreturned : Returned s) :
    Whole config w₀ s := by
  have hkeeps : ∀ s a s', Kept config w₀ s → InStep s a → step config s a = some s' →
      Kept config w₀ s' := fun _ _ _ hi hm h => step_kept hi hm h
  exact (hm.invariant hkeeps hr (start_kept hstart)).whole hreturned

end

instance (w : World) (threads : List Pc) (ok : Bool) : (pc : Pc) → Decidable (pc.Minds w threads ok)
  | .removeTree u => inferInstanceAs (Decidable (∀ t ∈ w.trees, t.repo = u.repo →
      t.path = u.path → ok = true ∧ ¬ w.known u.path ∧
        ∀ pc ∈ threads, pc.records u.repo u.path = false))
  | .deleteBranch ⟨repo, _, _, .unrecorded _⟩ branch =>
    inferInstanceAs (Decidable (w.branchExists repo branch = true →
      ok = true ∧ w.checkedOut repo branch = false))
  | .deleteBranch ⟨_, _, _, .discard _⟩ _ => isTrue trivial
  | .mark _ _ => inferInstanceAs (Decidable (ok = true))
  | .adopt repo entry _ => inferInstanceAs (Decidable (ok = true → ¬ w.known entry.path →
      ∃ t ∈ w.trees, t.repo = repo ∧ t.path = entry.path))
  | .checkBranch _ | .probeBranch _ _ | .probeFolder _ _ | .add _ | .insert _ | .prepare _ _
  | .removeRow _ | .paths _ | .list _ _ | .look _ _ | .created _ _ | .unprepared _ _
  | .unrecorded _ | .unmarked _ _ | .discarded _ | .adopted | .refused | .gaveUp => isTrue trivial

instance (s : System) : (a : Act) → Decidable (Called s a)
  | .calls (.discard row) => inferInstanceAs (Decidable (row ∈ s.world.rows))
  | .calls (.createNamed _ _ _ _) | .calls (.openBranch _ _ _ _) | .calls (.adoptUnknown _)
  | .does _ _ => isTrue trivial

instance (s : System) : (a : Act) → Decidable (InStep s a)
  | .calls call => decidable_of_iff (Called s (.calls call))
      ⟨fun h => ⟨h, fun _ _ heq => nomatch heq⟩, fun h => h.called⟩
  | .does k ok => decidable_of_iff (∀ pc ∈ (s.threads[k]? : Option _),
      pc.Minds s.world s.threads ok)
      ⟨fun h => ⟨trivial, fun _ _ heq => by obtain ⟨rfl, rfl⟩ := Act.does.inj heq; exact h⟩,
        fun h => h.minds k ok rfl⟩

instance (s : System) : Decidable (Returned s) := inferInstanceAs (Decidable (∀ pc ∈ _, _))

def oneBranch : World where
  trees := []
  folders := .nil
  branches := [⟨"p", "main", .elsewhere⟩]
  rows := []
  onePerPath := .nil
  nextId := 0
  ids := fun _ h => (not_mem_nil h).elim
  idKey := .nil

theorem oneBranch_start : Start oneBranch where
  points := fun _ h => (not_mem_nil h).elim
  ours := fun _ h => (not_mem_nil h).elim
  trees := fun _ h => (not_mem_nil h).elim
  branches := by simp [oneBranch]

def inRoot : Config := ⟨["home", "yardsort"], "ys"⟩

def added : List Act :=
  [.calls (.createNamed "p" ["home", "yardsort", "p"] "main" "fix"), .does 0 true, .does 0 true,
    .does 0 true]

def recordedRun : List Act :=
  [.does 0 true, .does 0 true, .does 0 true, .calls (.adoptUnknown "p"), .does 1 true,
    .does 1 true, .does 1 true]

/-- An adoption records it first, so that it is taken back. -/
def adoptedRun : List Act :=
  [.calls (.adoptUnknown "p"), .does 1 true, .does 1 true, .does 1 true, .does 1 true, .does 1 true,
    .does 0 true, .does 0 true, .does 0 true]

theorem worktrees_whole_one : ∃ s,
    Lib.run (step inRoot) oneBranch.system (added ++ recordedRun) = some s ∧
      Whole inRoot oneBranch s := by
  have hmeets : meets (step inRoot) (fun s a => decide (InStep s a)) oneBranch.system
      (added ++ recordedRun) = true := by decide +kernel
  have hstate : (Lib.run (step inRoot) oneBranch.system (added ++ recordedRun)).any (fun s =>
      decide (Returned s)) = true := by
    decide +kernel
  obtain ⟨s, hs, hreturned⟩ := (any_eq_true _ _).mp hstate
  have hinstep : Meets (step inRoot) InStep oneBranch.system (added ++ recordedRun) := by
    simpa only [decide_eq_true_eq] using meets_iff.mp hmeets
  exact ⟨s, hs, worktrees_whole oneBranch_start hinstep hs (of_decide_eq_true hreturned)⟩

def adoptedRow : WorkspaceRow :=
  ⟨0, "p", "fix", ["home", "yardsort", "p", "fix"], some "ys/fix", none⟩

/-- A row may be left that points at a worktree which was taken back. -/
theorem adopted_undone : ¬ ∀ config w₀ as s, Start w₀ →
    Meets (step config) Called w₀.system as → Lib.run (step config) w₀.system as = some s →
      Returned s → Whole config w₀ s := by
  intro h
  have hmeets : meets (step inRoot) (fun s a => decide (Called s a)) oneBranch.system
      (added ++ adoptedRun) = true := by decide +kernel
  have hstate : (Lib.run (step inRoot) oneBranch.system (added ++ adoptedRun)).any (fun s =>
      decide (Returned s ∧ adoptedRow ∈ s.world.rows ∧ s.world.trees = [])) = true := by
    decide +kernel
  obtain ⟨s, hs, hend⟩ := (any_eq_true _ _).mp hstate
  obtain ⟨hreturned, hrow, hnone⟩ := of_decide_eq_true hend
  have hcalled : Meets (step inRoot) Called oneBranch.system (added ++ adoptedRun) := by
    simpa only [decide_eq_true_eq] using meets_iff.mp hmeets
  obtain ⟨t, ht, -⟩ := (h inRoot oneBranch _ s oneBranch_start hcalled hs hreturned).points _ hrow
  rw [hnone] at ht
  cases ht

end Yardsort.Workspaces
