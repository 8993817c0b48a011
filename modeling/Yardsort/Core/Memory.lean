import Yardsort.Lib.Fallible
import Yardsort.Lib.Run
import Yardsort.Lib.Text

/- Project memory (`core/src/memory.rs`, over `propose_memory` and `change_memory` of
   `core/src/store.rs`).

   A decision and an edit read an entry, check it, and write it back by another statement; between
   the two any other window or process may write. Each statement of the store is one step here, so
   a run is any interleaving. An entry's state follows the decisions as long as no other write moves
   the entry between a caller's read and its write (`memory_runs`); an edit whose entry was moved
   puts an old state back (`an_edit_undoes_a_revocation`). -/
namespace Yardsort.Memory
open Yardsort.Lib Yardsort.Lib.Fallible

def MAX_CHARS : Nat := 500
def MAX_WAITING : Nat := 50

inductive State where
  | candidate
  | approved
  | rejected
  | revoked
  deriving DecidableEq

def State.name : State → String
  | candidate => "candidate"
  | approved => "approved"
  | rejected => "rejected"
  | revoked => "revoked"

inductive Author where
  | user
  | agent

structure MemoryRow where
  id : String
  projectId : String
  text : String
  state : State
  author : Author

inductive Deed where
  | proposed
  | written
  | approved
  | edited
  | rejected
  | revoked
  | restored

structure HistoryLine where
  entryId : String
  action : Deed
  author : Author
  previousText : Option String

structure IpcError where
  code : String
  message : String

def isControl (c : Char) : Bool :=
  let n := c.val.toNat
  n < 0x20 || (0x7f ≤ n && n ≤ 0x9f)

def words (text : Text) : List Text := (text.splitOnP Text.isWhitespace).filter (· ≠ [])

/-- One paragraph, trimmed, with control characters and line breaks folded to spaces. -/
def clean (text : String) : Except IpcError String :=
  let folded := text.toList.map fun c => if isControl c then ' ' else c
  let cleaned := [' '].intercalate (words folded)
  if cleaned = [] then .error ⟨"memory_empty", "A memory entry needs some text."⟩
  else if MAX_CHARS < cleaned.length then
    .error ⟨"memory_too_long", "A memory entry is one short paragraph: at most " ++
      toString MAX_CHARS ++ " characters, and this is " ++ toString cleaned.length ++ "."⟩
  else .ok (String.ofList cleaned)

/-- The same text, ASCII case aside (`COLLATE NOCASE`). -/
def sameText (a b : String) : Bool := a.toList.map Char.toLower = b.toList.map Char.toLower

structure Store where
  entries : List MemoryRow
  history : List HistoryLine
  key : (entries.map (·.id)).Nodup

namespace Store

def empty : Store := ⟨[], [], nodup_nil⟩

def entry (store : Store) (id : String) : Option MemoryRow := store.entries.find? (·.id = id)

def waiting (store : Store) (projectId : String) : Nat :=
  store.entries.countP fun e => e.projectId = projectId && e.state = .candidate

/-- `add_memory`: an id that is taken makes the statement fail. -/
def add (store : Store) (row : MemoryRow) (action : Deed) : Option Store :=
  if h : row.id ∈ store.entries.map (·.id) then none
  else some
    { entries := store.entries ++ [row]
      history := store.history ++ [⟨row.id, action, row.author, none⟩]
      key := by
        rw [map_append, map_singleton]
        exact nodup_append.mpr ⟨store.key, pairwise_singleton .., fun a ha b hb heq =>
          h (mem_singleton.mp hb ▸ heq ▸ ha)⟩ }

def changed (id : String) (state : State) (text : Option String) (row : MemoryRow) : MemoryRow :=
  if row.id = id then { row with state, text := text.getD row.text } else row

theorem changed_id (id : String) (state : State) (text : Option String) (row : MemoryRow) :
    (changed id state text row).id = row.id := by
  unfold changed
  split <;> rfl

def change (store : Store) (id : String) (state : State) (text : Option String) (action : Deed) :
    Store :=
  match store.entry id with
  | none => store
  | some previous =>
    { entries := store.entries.map (changed id state text)
      history := store.history ++
        [⟨id, action, .user, (text.filter (· ≠ previous.text)).map fun _ => previous.text⟩]
      key := by
        rw [map_map]
        have hids : (fun row : MemoryRow => row.id) ∘ changed id state text = (·.id) :=
          funext fun row => changed_id id state text row
        rw [hids]
        exact store.key }

/-- `propose_memory`: a candidate, unless the same text is already in the project or the queue is
    full, decided in one transaction. -/
def propose (store : Store) (id projectId text : String) : Option Store :=
  if store.entries.any fun e => e.projectId = projectId && sameText e.text text then some store
  else if MAX_WAITING ≤ store.waiting projectId then some store
  else store.add ⟨id, projectId, text, .candidate, .agent⟩ .proposed

end Store

inductive Decision where
  | approve
  | reject
  | revoke
  | restore
  deriving DecidableEq

namespace Decision

def fits : Decision → List State
  | approve => [.candidate, .rejected]
  | reject => [.candidate]
  | revoke => [.approved]
  | restore => [.revoked]

def leads : Decision → State
  | approve => .approved
  | reject => .rejected
  | revoke => .revoked
  | restore => .approved

def action : Decision → Deed
  | approve => .approved
  | reject => .rejected
  | revoke => .revoked
  | restore => .restored

end Decision

/-- A write still to come, and the state the entry was read in. -/
inductive Pending where
  | deciding (id : String) (read : State) (decision : Decision)
  | editing (id : String) (read : State) (text : String)
  deriving DecidableEq

def existing (store : Store) (id : String) : Except IpcError MemoryRow :=
  match store.entry id with
  | some entry => .ok entry
  | none => .error ⟨"memory_unknown", "That memory entry no longer exists."⟩

def decideRead (store : Store) (id : String) (decision : Decision) : Except IpcError Pending := do
  let entry ← existing store id
  if entry.state ∈ decision.fits then .ok (.deciding id entry.state decision)
  else .error ⟨"memory_state",
    "This entry is " ++ entry.state.name ++ "; that cannot be done to it."⟩

def editRead (store : Store) (id text : String) : Except IpcError Pending := do
  let entry ← existing store id
  if entry.state = .candidate ∨ entry.state = .approved then do
    let text ← clean text
    .ok (.editing id entry.state text)
  else .error ⟨"memory_state",
    "This entry is " ++ entry.state.name ++ "; restore it before editing it."⟩

def Pending.commit (pending : Pending) (store : Store) : Store :=
  match pending with
  | deciding id _ decision => store.change id decision.leads none decision.action
  | editing id read text => store.change id read (some text) .edited

/-- The store, and what each caller has read and not yet written. -/
structure System where
  store : Store
  pending : Nat → Option Pending

def System.set (s : System) (caller : Nat) (pending : Option Pending) : System :=
  { s with pending := fun c => if c = caller then pending else s.pending c }

inductive Act where
  /-- `decide` reads. -/
  | decides (caller : Nat) (id : String) (decision : Decision)
  | edits (caller : Nat) (id text : String)
  | commits (caller : Nat)
  /-- It fails, or its process is gone. -/
  | fails (caller : Nat)
  | writes (id projectId text : String)
  | proposes (id projectId text : String)

def System.reads (s : System) (caller : Nat) (read : Except IpcError Pending) : Option System :=
  if (s.pending caller).isSome then none
  else match read with
    | .ok pending => some (s.set caller (some pending))
    | .error _ => some s

def step (s : System) : Act → Option System
  | .decides caller id decision => s.reads caller (decideRead s.store id decision)
  | .edits caller id text => s.reads caller (editRead s.store id text)
  | .commits caller =>
    match s.pending caller with
    | none => none
    | some pending => some { s.set caller none with store := pending.commit s.store }
  | .fails caller => some (s.set caller none)
  | .writes id projectId text =>
    match clean text with
    | .error _ => some s
    | .ok text =>
      (s.store.add ⟨id, projectId, text, .approved, .user⟩ .written).map fun store =>
        { s with store }
  | .proposes id projectId text =>
    match clean text with
    | .error _ => some s
    | .ok text => (s.store.propose id projectId text).map fun store => { s with store }

/-- Nothing has moved the entry since the caller read it, or only to where its write leads. -/
def Unmoved (s : System) : Act → Prop
  | .commits caller => ∀ entry ∈ s.store.entries,
      match s.pending caller with
      | some (.deciding id read decision) => entry.id = id →
          entry.state = read ∨ entry.state = decision.leads
      | some (.editing id read _) => entry.id = id → entry.state = read
      | none => True
  | _ => True

/-- A decision under way has been checked against the state it read. -/
def Checked (s : System) : Prop :=
  ∀ caller id read decision, s.pending caller = some (.deciding id read decision) →
    read ∈ decision.fits

/-! ## What a step does to the entries -/

/-- How one entry may change: its state stays, or a decision of the user for just that step moves
    it. -/
structure Moves (s : System) (a : Act) (old new : MemoryRow) : Prop where
  id : new.id = old.id
  projectId : new.projectId = old.projectId
  author : new.author = old.author
  state : new.state = old.state ∨ ∃ caller decision, a = .commits caller ∧
    s.pending caller = some (.deciding old.id old.state decision) ∧ old.state ∈ decision.fits ∧
    new.state = decision.leads

/-- How an entry may come: an agent's, as a candidate whose text is new to its project, or the
    user's own. -/
def Comes (s : System) (a : Act) (new : MemoryRow) : Prop :=
  (∃ id text, a = .proposes id new.projectId text ∧ new.author = .agent ∧
    new.state = .candidate ∧ ∀ old ∈ s.store.entries, old.projectId = new.projectId →
      sameText old.text new.text = false) ∨
  ∃ id text, a = .writes id new.projectId text ∧ new.author = .user ∧ new.state = .approved

theorem Moves.refl (s : System) (a : Act) (row : MemoryRow) : Moves s a row row :=
  ⟨rfl, rfl, rfl, .inl rfl⟩

/-- All a step does to the entries: they move one by one, or one comes. -/
inductive Does (s : System) (a : Act) : List MemoryRow → Prop
  | moves (move : MemoryRow → MemoryRow)
      (h : ∀ old ∈ s.store.entries, Moves s a old (move old)) :
      Does s a (s.store.entries.map move)
  | comes (row : MemoryRow) (h : Comes s a row)
      (room : row.state = .candidate → s.store.waiting row.projectId < MAX_WAITING) :
      Does s a (s.store.entries ++ [row])

theorem Does.same (s : System) (a : Act) : Does s a s.store.entries := by
  have h : Does s a (s.store.entries.map id) := .moves id fun old _ => Moves.refl s a old
  rwa [map_id] at h

section
variable {s s' : System} {a : Act}

theorem reads_entries {caller : Nat} {read : Except IpcError Pending}
    (h : s.reads caller read = some s') : s'.store.entries = s.store.entries := by
  unfold System.reads at h
  split at h
  · cases h
  split at h
  · cases h
    rfl
  · cases h
    rfl

theorem Does.add {row : MemoryRow} {action : Deed} {store : Store}
    (h : s.store.add row action = some store) (hcomes : Comes s a row)
    (hroom : row.state = .candidate → s.store.waiting row.projectId < MAX_WAITING) :
    Does s a store.entries := by
  unfold Store.add at h
  split at h
  · cases h
  · cases h
    exact .comes row hcomes hroom

theorem Does.propose {id projectId text cleaned : String} {store : Store}
    (h : s.store.propose id projectId cleaned = some store) :
    Does s (.proposes id projectId text) store.entries := by
  unfold Store.propose at h
  split at h
  · cases h
    exact .same ..
  · rename_i hknown
    split at h
    · cases h
      exact .same ..
    · rename_i hfull
      refine .add h (.inl ⟨id, text, rfl, rfl, rfl, fun old hold hproject => ?_⟩)
        fun _ => Nat.not_le.mp hfull
      rw [← Bool.not_eq_true]
      intro hsame
      refine hknown (List.any_eq_true.mpr ⟨old, hold, ?_⟩)
      rw [Bool.and_eq_true, decide_eq_true_eq]
      exact ⟨hproject, hsame⟩

theorem Does.change {caller : Nat} {pending : Pending}
    (hpending : s.pending caller = some pending) {id : String} {state : State}
    {text : Option String} {action : Deed}
    (h : ∀ old ∈ s.store.entries, old.id = id →
      state = old.state ∨ ∃ decision, pending = .deciding old.id old.state decision ∧
        old.state ∈ decision.fits ∧ state = decision.leads) :
    Does s (.commits caller) (s.store.change id state text action).entries := by
  unfold Store.change
  split
  · exact .same ..
  refine .moves (Store.changed id state text) fun old hold => ?_
  unfold Store.changed
  split
  · rename_i hid
    refine ⟨rfl, rfl, rfl, ?_⟩
    obtain hstate | ⟨decision, rfl, hfrom, hto⟩ := h old hold hid
    · exact .inl hstate
    · exact .inr ⟨caller, decision, rfl, hpending, hfrom, hto⟩
  · exact Moves.refl ..

theorem decideRead_checked {store : Store} {id id' : String} {asked decision : Decision}
    {read : State} (h : decideRead store id asked = .ok (.deciding id' read decision)) :
    read ∈ decision.fits := by
  unfold decideRead at h
  obtain ⟨entry, -, h⟩ := bind_ok.mp h
  split at h
  · rename_i hfits
    cases h
    exact hfits
  · cases h

theorem editRead_no_decision {store : Store} {id id' text : String} {decision : Decision}
    {read : State} : editRead store id text ≠ .ok (.deciding id' read decision) := by
  intro h
  unfold editRead at h
  obtain ⟨entry, -, h⟩ := bind_ok.mp h
  split at h
  · obtain ⟨cleaned, -, h⟩ := bind_ok.mp h
    cases h
  · cases h

theorem Checked.set (hchecked : Checked s) {caller : Nat} {pending : Option Pending}
    (h : ∀ id read decision, pending = some (.deciding id read decision) → read ∈ decision.fits) :
    Checked (s.set caller pending) := by
  intro other id read decision hother
  unfold System.set at hother
  dsimp only at hother
  split at hother
  · exact h id read decision hother
  · exact hchecked other id read decision hother

theorem Checked.reads (hchecked : Checked s) {caller : Nat} {read : Except IpcError Pending}
    (hread : ∀ id state decision, read = .ok (.deciding id state decision) → state ∈ decision.fits)
    (h : s.reads caller read = some s') : Checked s' := by
  unfold System.reads at h
  split at h
  · cases h
  split at h
  · cases h
    refine hchecked.set fun id state decision hpending => hread id state decision ?_
    rw [Option.some.inj hpending]
  · cases h
    exact hchecked

theorem step_checked (hchecked : Checked s) (h : step s a = some s') : Checked s' := by
  cases a with
  | decides caller id decision =>
    exact hchecked.reads (fun _ _ _ hread => decideRead_checked hread) h
  | edits caller id text =>
    exact hchecked.reads (fun _ _ _ hread => absurd hread editRead_no_decision) h
  | commits caller =>
    unfold step at h
    dsimp only at h
    split at h
    · cases h
    · cases h
      exact @Checked.set _ hchecked caller none nofun
  | fails caller =>
    cases h
    exact hchecked.set nofun
  | writes id projectId text | proposes id projectId text =>
    unfold step at h
    dsimp only at h
    split at h
    · cases h
      exact hchecked
    · obtain ⟨store, -, rfl⟩ := map_eq_some_iff.mp h
      exact hchecked

theorem step_does (hchecked : Checked s) (hunmoved : Unmoved s a) (h : step s a = some s') :
    Does s a s'.store.entries := by
  cases a with
  | decides caller id decision | edits caller id text => exact reads_entries h ▸ .same ..
  | fails caller =>
    cases h
    exact .same ..
  | writes id projectId text =>
    unfold step at h
    dsimp only at h
    split at h
    · cases h
      exact .same ..
    · obtain ⟨store, hstore, rfl⟩ := map_eq_some_iff.mp h
      exact .add hstore (.inr ⟨id, text, rfl, rfl, rfl⟩) nofun
  | proposes id projectId text =>
    unfold step at h
    dsimp only at h
    split at h
    · cases h
      exact .same ..
    · obtain ⟨store, hstore, rfl⟩ := map_eq_some_iff.mp h
      exact .propose hstore
  | commits caller =>
    unfold step at h
    dsimp only at h
    split at h
    · cases h
    rename_i pending hpending
    cases h
    unfold Unmoved at hunmoved
    dsimp only at hunmoved
    rw [hpending] at hunmoved
    cases pending with
    | deciding id read decision =>
      refine .change hpending fun old hold hid => ?_
      obtain hread | hto := hunmoved old hold hid
      -- the entry is where the decision was checked, or there already
      · have hfits := hchecked caller id read decision hpending
        exact .inr ⟨decision, by rw [hid, hread], hread ▸ hfits, rfl⟩
      · exact .inl hto.symm
    | editing id read text =>
      -- an edit writes the state it read, which the entry still has
      exact .change hpending fun old hold hid => .inl (hunmoved old hold hid).symm

theorem Does.waiting {entries : List MemoryRow} (h : Does s a entries) {projectId : String}
    (hroom : s.store.waiting projectId ≤ MAX_WAITING) :
    entries.countP (fun e => e.projectId = projectId && e.state = .candidate) ≤ MAX_WAITING := by
  cases h with
  | moves move hmoves =>
    rw [countP_map]
    refine Nat.le_trans (List.countP_mono_left fun old hold hcandidate => ?_) hroom
    rw [comp_apply, Bool.and_eq_true, decide_eq_true_eq, decide_eq_true_eq] at hcandidate
    rw [Bool.and_eq_true, decide_eq_true_eq, decide_eq_true_eq]
    have hmove := hmoves old hold
    refine ⟨hmove.projectId ▸ hcandidate.1, ?_⟩
    obtain hstate | ⟨-, decision, -, -, -, hto⟩ := hmove.state
    -- no decision leads to a candidate
    · exact hstate ▸ hcandidate.2
    · rw [hcandidate.2] at hto
      cases decision <;> cases hto
  | comes row _ hroomRow =>
    rw [countP_append, countP_singleton]
    have hwaiting : s.store.entries.countP
        (fun e => e.projectId = projectId && e.state = .candidate) = s.store.waiting projectId := rfl
    split
    · rename_i hrow
      rw [Bool.and_eq_true, decide_eq_true_eq, decide_eq_true_eq] at hrow
      have := hroomRow hrow.2
      rw [hrow.1] at this
      omega
    · omega

/-- **Memory under any interleaving.** In a run that starts with no call under way, and in which no
    other write moves an entry between a caller's read and its write, at every step: each entry is
    still there and its state stays or a decision of the user for just that step moves it; what
    comes is an agent's candidate with a text its project did not hold, or what the user wrote;
    and no more candidates wait than may. -/
theorem memory_runs {s₀ : System} {as : List Act}
    (hroom : ∀ projectId, s₀.store.waiting projectId ≤ MAX_WAITING)
    (hidle : ∀ caller, s₀.pending caller = none)
    (hunmoved : Meets step Unmoved s₀ (as ++ [a])) (hrun : run step s₀ as = some s)
    (hstep : step s a = some s') :
    (∀ old ∈ s.store.entries, ∃ new ∈ s'.store.entries, Moves s a old new) ∧
      (∀ new ∈ s'.store.entries, (∃ old ∈ s.store.entries, Moves s a old new) ∨ Comes s a new) ∧
      ∀ projectId, s'.store.waiting projectId ≤ MAX_WAITING := by
  obtain ⟨hbefore, hlast⟩ := hunmoved.append hrun
  have hkeeps : ∀ s₁ a s₂, (Checked s₁ ∧ ∀ projectId, s₁.store.waiting projectId ≤ MAX_WAITING) →
      Unmoved s₁ a → step s₁ a = some s₂ →
      Checked s₂ ∧ ∀ projectId, s₂.store.waiting projectId ≤ MAX_WAITING :=
    fun _ _ _ hinv hmoves hs => ⟨step_checked hinv.1 hs, fun projectId =>
      (step_does hinv.1 hmoves hs).waiting (hinv.2 projectId)⟩
  have hidle' : Checked s₀ := fun caller id read decision hpending => by
    rw [hidle] at hpending
    cases hpending
  obtain ⟨hchecked, hwaiting⟩ := hbefore.invariant hkeeps hrun ⟨hidle', hroom⟩
  have hdoes := step_does hchecked hlast.1 hstep
  refine ⟨?_, ?_, fun projectId => hdoes.waiting (hwaiting projectId)⟩
  · intro old hold
    generalize s'.store.entries = entries at hdoes
    cases hdoes with
    | moves move hmoves => exact ⟨move old, mem_map_of_mem hold, hmoves old hold⟩
    | comes row _ _ => exact ⟨old, mem_append_left _ hold, Moves.refl ..⟩
  · intro new hnew
    generalize s'.store.entries = entries at hdoes hnew
    cases hdoes with
    | moves move hmoves =>
      obtain ⟨old, hold, rfl⟩ := mem_map.mp hnew
      exact .inl ⟨old, hold, hmoves old hold⟩
    | comes row hcomes _ =>
      obtain hold | hrow := mem_snoc.mp hnew
      · exact .inl ⟨new, hold, Moves.refl ..⟩
      · exact .inr (hrow ▸ hcomes)

end

def System.empty : System := ⟨.empty, fun _ => none⟩

def approveRun : List Act :=
  [.proposes "m1" "p1" "the tests need TZ=UTC", .decides 0 "m1" .approve]

def approveState : System := (run step .empty approveRun).getD .empty

theorem memory_runs_approve :
    approveState.store.entries.map (·.state) = [.candidate] ∧
      ∃ s', step approveState (.commits 0) = some s' ∧
        s'.store.entries.map (·.state) = [.approved] ∧
        ∀ old ∈ approveState.store.entries, ∃ new ∈ s'.store.entries,
          Moves approveState (.commits 0) old new := by
  have hsome : (run step .empty approveRun).isSome = true := by decide +kernel
  obtain ⟨s, hs⟩ := isSome_iff_exists.mp hsome
  have hstate : run step .empty approveRun = some approveState := by
    rw [hs, approveState, hs]
    rfl
  have hpending : approveState.pending 0 = some (.deciding "m1" .candidate .approve) := by
    decide +kernel
  have hentries : approveState.store.entries.map (·.state) = [.candidate] := by decide +kernel
  have hcommit : step approveState (.commits 0) = some
      { approveState.set 0 none with
        store := (Pending.deciding "m1" .candidate .approve).commit approveState.store } := by
    unfold step
    dsimp only
    rw [hpending]
  have hunmoved : Meets step Unmoved .empty (approveRun ++ [.commits 0]) := by
    refine ⟨trivial, fun s₁ hs₁ => ⟨trivial, fun s₂ hs₂ => ⟨?_, fun _ _ => trivial⟩⟩⟩
    have hs₂' : run step .empty approveRun = some s₂ :=
      run_cons.mpr ⟨s₁, hs₁, run_cons.mpr ⟨s₂, hs₂, rfl⟩⟩
    cases hstate.symm.trans hs₂'
    intro entry hentry
    rw [hpending]
    intro _
    have hstateEntry : entry.state ∈ approveState.store.entries.map (·.state) :=
      mem_map_of_mem hentry
    rw [hentries, mem_singleton] at hstateEntry
    exact .inl hstateEntry
  refine ⟨hentries, _, hcommit, by decide +kernel, ?_⟩
  exact (memory_runs (fun _ => Nat.zero_le _) (fun _ => rfl) hunmoved hstate hcommit).1

/-- A window edits an entry while another revokes it: the edit puts it back to approved, with no
    decision of the user. -/
theorem an_edit_undoes_a_revocation :
    (run step .empty
      [.proposes "m1" "p1" "the tests need TZ=UTC", .decides 0 "m1" .approve, .commits 0,
        .edits 0 "m1" "the tests need a time zone", .decides 1 "m1" .revoke, .commits 1]).map
        (fun s => (s.store.entries.map (·.state),
          (step s (.commits 0)).map fun s' => s'.store.entries.map (·.state))) =
      some ([.revoked], some [.approved]) := by
  decide +kernel

end Yardsort.Memory
