import Yardsort.Lib.Run
import Yardsort.Lib.Table
import Yardsort.Host.Account

/- Calls on one host's grants running at once, while the server's records change.

   A list read from the server is acted on later (`requests` cuts the record down to
   it), and so is a decision (`answer` keeps what it decided). `clear` says when neither
   comes too late: a list that is acted on names every grant of the record that is in
   force, a grant that is kept puts out none in force and was not revoked here, and a
   grant in force that is revoked here is revoked at the server. A run of clear steps
   keeps `Inv`, and `grants_agree` reads off it that the two records agree. -/
namespace Yardsort.Host
open Yardsort.Lib Yardsort.Proto Yardsort.Server

structure Calls where
  home : Home
  calls : List Call

inductive Act where
  | requests
  | answer (grant : String) (said : Answer)
  | revoke (grant : String)
  | goes (call : Nat) (now : Int)
  | fails (call : Nat) (why : Failure)
  | server (change : Change)

namespace Calls

def start : Calls := ⟨⟨⟨[], [], []⟩, [], none⟩, []⟩

def step (row : RemoteHostRow) (s : Calls) : Act → Option Calls
  | .requests => some ⟨s.home, s.calls ++ [.requests .started]⟩
  | .answer grant said => some ⟨s.home, s.calls ++ [.answer grant said .started]⟩
  | .revoke grant => some ⟨s.home, s.calls ++ [.revoke grant .started]⟩
  | .goes call now =>
    (s.calls[call]?.bind (·.next row s.home call now)).map fun (home, c) =>
      ⟨home, s.calls.set call c⟩
  | .fails call why =>
    (s.calls[call]?.bind (·.fails why)).map fun c => ⟨s.home.leaves call, s.calls.set call c⟩
  | .server change =>
    (s.home.server.change change).map fun server => ⟨{ s.home with server }, s.calls⟩

end Calls

def Approved (server : Records) (grant : String) : Prop :=
  ∃ g ∈ server.grants, g.id.text = grant ∧ server.InForce g

instance (server : Records) (grant : String) : Decidable (Approved server grant) :=
  inferInstanceAs (Decidable (∃ g ∈ server.grants, _))

namespace Call

/-- The host's person said yes to this grant. -/
def allows (grant : String) : Call → Bool
  | .answer grant' said _ => grant' = grant && said.allows
  | _ => false

def answering (grant : String) : Call → Bool
  | .answer _ _ (.returned _) => false
  | .answer grant' _ _ => grant' = grant
  | _ => false

def revokes (grant : String) : Call → Bool
  | .revoke grant' _ => grant' = grant
  | _ => false

def dropped (grant : String) : Call → Bool
  | .revoke _ .started => false
  | .revoke grant' _ => grant' = grant
  | _ => false

end Call

def RemoteGrantRow.Says (r : RemoteGrantRow) (grant : String) (d : GrantDecision) : Prop :=
  r.id = grant ∧ r.scopes = d.scopes ∧ r.projects = d.projects

namespace Calls

/-- What holds once every call has returned. -/
structure Agrees (s : Calls) : Prop where
  /-- Allowed here and in force at the server: in the record, as it was chosen. -/
  held : ∀ grant said, .answer grant said (.returned (.ok ())) ∈ s.calls → said.allows = true →
    ∀ g ∈ s.home.server.grants, g.id.text = grant → s.home.server.InForce g →
      ∃ d, said.decision g.requested = .ok (some d) ∧ ∃ r ∈ s.home.kept, r.Says grant d
  /-- In the record: allowed here. -/
  allowed : ∀ r ∈ s.home.kept, ∃ c ∈ s.calls, c.allows r.id = true
  /-- Revoked here, and no answer to it still running: not in the record. -/
  revoked : ∀ grant, (∃ c ∈ s.calls, c.revokes grant = true) →
    (∀ c ∈ s.calls, c.answering grant = false) → ∀ r ∈ s.home.kept, r.id ≠ grant

/-- **Whether a step comes in time.** -/
def clear (row : RemoteHostRow) (s : Calls) : Act → Bool
  | .goes call _ =>
    match s.calls[call]? with
    | some (.requests (.listed grants)) =>
      -- The list the record is cut down to has every grant of it that is in force.
      decide (∀ r ∈ s.home.kept, Approved s.home.server r.id →
        r.id ∈ (grants.filter (·.state = .approved)).map (·.id.text))
    | some (.answer grant _ (.viewed (some _) decided)) =>
      -- The row that is kept puts out none that is in force, and was not revoked here.
      decide (decided.state = .approved →
        (∀ r ∈ s.home.kept, r.deviceId = decided.device.text → r.id ≠ grant →
          ¬ Approved s.home.server r.id) ∧
        ∀ c ∈ s.calls, c.dropped grant = false)
    | some (.revoke grant .dropped) =>
      -- The server finds the grant, if it has it in force.
      !decide (Approved s.home.server grant) ||
        match Id.new grant with
        | .ok id => (s.home.server.grantView row.device id).toBool
        | .error _ => false
    | _ => true
  | .fails call _ =>
    match s.calls[call]? with
    | some (.revoke grant .dropped) | some (.revoke grant .seen) =>
      !decide (Approved s.home.server grant)
    | _ => true
  | _ => true

end Calls

/-! ## What one step does -/

namespace Call

def settled : Call → Option String
  | .answer grant _ (.decided _) | .answer grant _ (.viewed _ _)
  | .answer grant _ (.returned (.ok ())) => some grant
  | _ => none

def halfway (grant : String) : Call → Bool
  | .revoke grant' .dropped | .revoke grant' .seen => grant' = grant
  | _ => false

def Chose (g : GrantRecord) (grant : String) (said : Answer) (d : Option GrantDecision) : Prop :=
  g.id.text = grant ∧ said.decision g.requested = .ok d

def Known (server : Records) : Call → Prop
  | .answer _ _ (.listed grants) =>
    ∀ v ∈ grants, ∃ g ∈ server.grants, g.id = v.id ∧ g.requested = v.requested
  | .answer grant said (.asked d) | .answer grant said (.checked d) =>
    ∃ g ∈ server.grants, Chose g grant said d
  | .answer grant said (.decided d) =>
    ∃ g ∈ server.grants, Chose g grant said d ∧ g.status ≠ .pending
  | .answer grant said (.viewed d v) =>
    ∃ g ∈ server.grants, Chose g grant said d ∧ g.status ≠ .pending ∧ v.id = g.id ∧
      (v.state = .approved ∨ ¬ server.InForce g)
  | .answer grant said (.returned (.ok ())) =>
    ∃ g ∈ server.grants, ∃ d, Chose g grant said d ∧ g.status ≠ .pending
  | _ => True

theorem Chose.becomes {g g' : GrantRecord} {grant : String} {said : Answer}
    {d : Option GrantDecision} (h : Chose g grant said d) (hb : g.Becomes g') :
    Chose g' grant said d :=
  ⟨by rw [hb.id]; exact h.1, by rw [hb.requested]; exact h.2⟩

theorem status_becomes {g g' : GrantRecord} (hb : g.Becomes g') (h : g.status ≠ .pending) :
    g'.status ≠ .pending := by
  intro h'
  rcases hb.status h with heq | hrev
  · exact h (heq.symm.trans h')
  · exact GrantStatus.noConfusion (hrev.symm.trans h')

theorem returned_not_halfway {c : Call} {grant : String} (h : c.returned = true) :
    ¬ c.halfway grant = true := by
  cases c with
  | revoke grant' phase =>
    cases phase with
    | returned => exact nofun
    | _ => exact absurd h nofun
  | _ => exact nofun

theorem Known.mono {server server' : Records} (hw : server.WellFormed)
    (he : server.Evolves server') {c : Call} (h : c.Known server) : c.Known server' := by
  unfold Known at h ⊢
  split
  · intro v hv
    obtain ⟨g, hg, hid, hreq⟩ := h v hv
    obtain ⟨g', hg', hb⟩ := he.grants g hg
    exact ⟨g', hg', hb.id.trans hid, hb.requested.trans hreq⟩
  · obtain ⟨g, hg, hch⟩ := h
    obtain ⟨g', hg', hb⟩ := he.grants g hg
    exact ⟨g', hg', hch.becomes hb⟩
  · obtain ⟨g, hg, hch⟩ := h
    obtain ⟨g', hg', hb⟩ := he.grants g hg
    exact ⟨g', hg', hch.becomes hb⟩
  · obtain ⟨g, hg, hch, hst⟩ := h
    obtain ⟨g', hg', hb⟩ := he.grants g hg
    exact ⟨g', hg', hch.becomes hb, status_becomes hb hst⟩
  · obtain ⟨g, hg, hch, hst, hid, hin⟩ := h
    obtain ⟨g', hg', hb⟩ := he.grants g hg
    refine ⟨g', hg', hch.becomes hb, status_becomes hb hst, hid.trans hb.id.symm, ?_⟩
    rcases hin with happ | hno
    · exact .inl happ
    · exact .inr (he.notInForce hw hg hb hst hno)
  · obtain ⟨g, hg, d, hch, hst⟩ := h
    obtain ⟨g', hg', hb⟩ := he.grants g hg
    exact ⟨g', hg', d, hch.becomes hb, status_becomes hb hst⟩
  · trivial

/-- A step that leaves both records as they are: what it may make of a call. -/
structure Quiet (home : Home) (c c' : Call) : Prop where
  known : home.server.WellFormed → c.Known home.server → c'.Known home.server
  settled : ∀ grant, c'.settled = some grant → c.settled = some grant
  allows : ∀ grant, c.allows grant = true → c'.allows grant = true
  dropped : ∀ grant, c'.dropped grant = true → c.dropped grant = true
  /-- An answer that returns without a word to the record decided nothing that is in force. -/
  unsaid : home.server.WellFormed → c.Known home.server →
    ∀ grant said, c' = .answer grant said (.returned (.ok ())) →
    ∀ g ∈ home.server.grants, g.id.text = grant → home.server.InForce g →
    ∀ d, said.decision g.requested ≠ .ok (some d)

inductive Moves (home : Home) (now : Int) : Call → Home → Call → Prop
  | quiet {c c'} (session) : Quiet home c c' → Moves home now c { home with session } c'
  | retains (grants result) :
    Moves home now (.requests (.listed grants))
      { home with
        kept := (retainRemoteGrants home.kept
          ((grants.filter (·.state = .approved)).map (·.id.text))).2 }
      (.requests (.returned result))
  | decides (grant said d) (id : GrantId) (server) : id.text = grant →
    home.server.decide id d now = some server →
    Moves home now (.answer grant said (.checked d)) { home with server }
      (.answer grant said (.decided d))
  | keeps (grant said d) (v : GrantSummary) : v.state = .approved →
    Moves home now (.answer grant said (.viewed (some d) v))
      { home with
        kept := keepRemoteGrant home.kept
          ⟨v.id.text, v.device.text, v.deviceName, d.scopes, d.projects, now⟩ }
      (.answer grant said (.returned (.ok ())))
  | drops (grant) :
    Moves home now (.revoke grant .started)
      { home with kept := (dropRemoteGrant home.kept grant).2 } (.revoke grant .dropped)
  | revokes (grant) (id : GrantId) : id.text = grant →
    Moves home now (.revoke grant .seen)
      { home with server := home.server.revokeGrant id now } (.revoke grant .told)

end Call

theorem Home.asking_cases {α β : Type} {home home' : Home} {me : Nat} {ask : Except RemoteError α}
    {next : α → β} {refused : Failure → β} {b : β}
    (h : home.asking me ask next refused = some (home', b)) :
    ∃ session, home' = { home with session } ∧
      ((∃ a, ask = .ok a ∧ b = next a) ∨ ∃ e, ask = .error e ∧ b = refused (refusedHere e)) := by
  unfold asking at h
  split at h
  · exact absurd h nofun
  split at h
  · rename_i a
    cases h
    exact ⟨_, rfl, .inl ⟨a, rfl, rfl⟩⟩
  · rename_i e
    cases h
    exact ⟨home.session, rfl, .inr ⟨e, rfl, rfl⟩⟩

namespace Call

theorem quiet_requests (home : Home) (phase phase' : Listing) :
    Quiet home (.requests phase) (.requests phase') :=
  ⟨fun _ _ => trivial, nofun, nofun, nofun, fun _ _ => nofun⟩

theorem quiet_failed (home : Home) (grant : String) (said : Answer) (phase : Answering)
    (why : Failure) :
    Quiet home (.answer grant said phase) (.answer grant said (.returned (.error why))) :=
  ⟨fun _ _ => trivial, nofun, fun _ h => h, nofun, fun _ _ => nofun⟩

theorem quiet_answer {home : Home} {grant : String} {said : Answer} {phase phase' : Answering}
    (hs : (answer grant said phase').settled = none)
    (hk : (answer grant said phase).Known home.server → (answer grant said phase').Known home.server) :
    Quiet home (.answer grant said phase) (.answer grant said phase') := by
  refine ⟨fun _ => hk, fun g h => ?_, fun _ h => h, nofun, fun _ _ g said' h => ?_⟩
  · rw [hs] at h
    exact absurd h nofun
  · rw [h] at hs
    exact absurd hs nofun

end Call

theorem Home.requests_moves {row : RemoteHostRow} {home home' : Home} {me : Nat} {now : Int}
    {phase phase' : Listing} (h : home.requests row me now phase = some (home', phase')) :
    Call.Moves home now (.requests phase) home' (.requests phase') := by
  cases phase with
  | started =>
    obtain ⟨session, rfl, -⟩ := asking_cases h
    exact .quiet _ (Call.quiet_requests _ _ _)
  | owned =>
    cases h
    exact .quiet _ (Call.quiet_requests _ _ _)
  | listed grants =>
    cases h
    exact .retains grants _
  | returned => exact absurd h nofun

theorem Home.answer_moves {row : RemoteHostRow} {home home' : Home} {me : Nat} {now : Int}
    {grant : String} {said : Answer} {phase phase' : Answering}
    (h : home.answer row grant said me now phase = some (home', phase')) :
    Call.Moves home now (.answer grant said phase) home' (.answer grant said phase') := by
  cases phase with
  | started =>
    simp only [Home.answer] at h
    split at h
    · cases h
      exact .quiet _ (Call.quiet_failed _ _ _ _ _)
    · obtain ⟨session, rfl, ⟨a, -, rfl⟩ | ⟨e, -, rfl⟩⟩ := asking_cases h
      · exact .quiet _ (Call.quiet_answer rfl id)
      · exact .quiet _ (Call.quiet_failed _ _ _ _ _)
  | owned =>
    cases h
    refine .quiet _ (Call.quiet_answer rfl fun _ v hv => ?_)
    obtain ⟨g, hg, -, rfl⟩ := Records.hostGrants_mem hv
    exact ⟨g, hg, rfl, rfl⟩
  | listed grants =>
    simp only [Home.answer] at h
    split at h
    · cases h
      exact .quiet _ (Call.quiet_failed _ _ _ _ _)
    · rename_i asked hfind
      split at h
      · cases h
        exact .quiet _ (Call.quiet_failed _ _ _ _ _)
      · rename_i d hd
        cases h
        refine .quiet _ (Call.quiet_answer rfl fun hk => ?_)
        obtain ⟨g, hg, hid, hreq⟩ := hk asked (mem_of_find?_eq_some hfind)
        have hp := List.find?_some hfind
        simp only [Bool.and_eq_true, decide_eq_true_eq] at hp
        exact ⟨g, hg, by rw [hid]; exact hp.1, by rw [hreq]; exact hd⟩
  | asked d =>
    simp only [Home.answer] at h
    split at h
    · exact absurd h nofun
    · obtain ⟨session, rfl, ⟨a, -, rfl⟩ | ⟨e, -, rfl⟩⟩ := asking_cases h
      · exact .quiet _ (Call.quiet_answer rfl id)
      · exact .quiet _ (Call.quiet_failed _ _ _ _ _)
  | checked d =>
    simp only [Home.answer] at h
    split at h
    · exact absurd h nofun
    rename_i id hid
    split at h
    · rename_i server hd
      cases h
      exact .decides grant said d id server (Id.text_of_new hid) hd
    · cases h
      exact .quiet _ (Call.quiet_failed _ _ _ _ _)
  | decided d =>
    simp only [Home.answer] at h
    split at h
    · exact absurd h nofun
    rename_i id hid
    split at h
    · rename_i v hv
      cases h
      refine .quiet _ ⟨fun hw hk => ?_, fun _ h => h, fun _ h => h, nofun, fun _ _ => nofun⟩
      obtain ⟨g', hg', hid', rfl⟩ := Records.grantView_ok hv
      obtain ⟨g, hg, hch, hst⟩ := hk
      have hsame : g' = g := hw.eq hg' hg (by
        rw [hid']
        exact Id.eq_of_text ((Id.text_of_new hid).trans hch.1.symm))
      refine ⟨g, hg, hch, hst, by rw [hsame]; rfl, ?_⟩
      rw [hsame, Records.grantSummary_approved]
      exact Classical.em _
    · cases h
      exact .quiet _ (Call.quiet_failed _ _ _ _ _)
  | viewed d v =>
    simp only [Home.answer] at h
    split at h
    · rename_i d' hv
      cases h
      exact .keeps grant said d' v hv
    · rename_i hno
      cases h
      refine .quiet _ ⟨fun _ hk => ?_, fun _ h => h, fun _ h => h, nofun, ?_⟩
      · obtain ⟨g, hg, hch, hst, -⟩ := hk
        exact ⟨g, hg, _, hch, hst⟩
      · intro hw hk grant' said' heq g hg hid hin d' hd'
        cases heq
        obtain ⟨g', hg', hch, -, -, happ⟩ := hk
        have hsame : g' = g := hw.eq hg' hg (Id.eq_of_text (hch.1.trans hid.symm))
        subst hsame
        cases hch.2.symm.trans hd'
        rcases happ with happ | hnot
        · exact hno d' rfl happ
        · exact hnot hin
  | returned => exact absurd h nofun

theorem Home.revoke_moves {row : RemoteHostRow} {home home' : Home} {me : Nat} {now : Int}
    {grant : String} {phase phase' : Revoking}
    (h : home.revoke row grant me now phase = some (home', phase')) :
    Call.Moves home now (.revoke grant phase) home' (.revoke grant phase') := by
  have quiet (p p' : Revoking) (hp : p ≠ .started) :
      Call.Quiet home (.revoke grant p) (.revoke grant p') := by
    refine ⟨fun _ _ => trivial, nofun, nofun, fun g hg => ?_, fun _ _ => nofun⟩
    cases p with
    | started => exact absurd rfl hp
    | _ =>
      cases p' with
      | started => exact absurd hg nofun
      | _ => exact hg
  cases phase with
  | started =>
    cases h
    exact .drops grant
  | dropped =>
    simp only [Home.revoke] at h
    split at h
    · cases h
      exact .quiet _ (quiet _ _ nofun)
    · obtain ⟨session, rfl, -⟩ := asking_cases h
      exact .quiet _ (quiet _ _ nofun)
  | seen =>
    simp only [Home.revoke] at h
    split at h
    · exact absurd h nofun
    · rename_i id hid
      cases h
      exact .revokes grant id (Id.text_of_new hid)
  | told =>
    cases h
    exact .quiet _ (quiet _ _ nofun)
  | returned => exact absurd h nofun

theorem Call.next_moves {row : RemoteHostRow} {home home' : Home} {me : Nat} {now : Int}
    {c c' : Call} (h : c.next row home me now = some (home', c')) : c.Moves home now home' c' := by
  cases c with
  | requests phase =>
    obtain ⟨⟨home, phase'⟩, hn, heq⟩ := map_eq_some_iff.mp h
    cases heq
    exact Home.requests_moves hn
  | answer grant said phase =>
    obtain ⟨⟨home, phase'⟩, hn, heq⟩ := map_eq_some_iff.mp h
    cases heq
    exact Home.answer_moves hn
  | revoke grant phase =>
    obtain ⟨⟨home, phase'⟩, hn, heq⟩ := map_eq_some_iff.mp h
    cases heq
    exact Home.revoke_moves hn

theorem Call.next_halfway {row : RemoteHostRow} {home home' : Home} {me : Nat} {now : Int}
    {c c' : Call} {grant : String} (h : c.next row home me now = some (home', c'))
    (hc : c = .revoke grant .dropped → Approved home.server grant →
      ∃ id, Id.new grant = .ok id ∧ (home.server.grantView row.device id).toBool = true)
    (hh : c.halfway grant = true) :
    c'.halfway grant = true ∨ ¬ Approved home'.server grant := by
  cases c with
  | requests | answer => exact absurd hh nofun
  | revoke grant' phase =>
    obtain ⟨⟨home, phase'⟩, hn, heq⟩ := map_eq_some_iff.mp h
    cases heq
    cases phase with
    | dropped =>
      obtain rfl : grant' = grant := by simpa [halfway] using hh
      simp only [Home.revoke] at hn
      split at hn
      · rename_i hid
        cases hn
        refine .inr fun happ => ?_
        obtain ⟨id, hok, -⟩ := hc rfl happ
        rw [hid] at hok
        exact absurd hok nofun
      · rename_i id hid
        obtain ⟨session, rfl, ⟨a, -, rfl⟩ | ⟨e, he, rfl⟩⟩ := Home.asking_cases hn
        · exact .inl (by simp [halfway])
        · refine .inr fun happ => ?_
          obtain ⟨id', hok, hview⟩ := hc rfl happ
          cases hid.symm.trans hok
          rw [he] at hview
          exact absurd hview nofun
    | seen =>
      obtain rfl : grant' = grant := by simpa [halfway] using hh
      simp only [Home.revoke] at hn
      split at hn
      · exact absurd hn nofun
      rename_i id hid
      cases hn
      refine .inr ?_
      rintro ⟨g, hg, htext, hin⟩
      have hgid : g.id = id := Id.eq_of_text (htext.trans (Id.text_of_new hid).symm)
      exact Records.revokeGrant_notInForce hg hgid hin
    | started | told | returned => exact absurd hh nofun

namespace Calls

structure Inv (s : Calls) : Prop where
  formed : s.home.server.WellFormed
  known : ∀ c ∈ s.calls, c.Known s.home.server
  once : ∀ (i j : Nat) (grant : String), s.calls[i]?.bind Call.settled = some grant →
    s.calls[j]?.bind Call.settled = some grant → i = j
  held : ∀ grant said, .answer grant said (.returned (.ok ())) ∈ s.calls →
    ∀ g ∈ s.home.server.grants, g.id.text = grant → s.home.server.InForce g →
    ∀ d, said.decision g.requested = .ok (some d) →
      (∃ r ∈ s.home.kept, r.Says grant d) ∨ ∃ c ∈ s.calls, c.halfway grant = true
  allowed : ∀ r ∈ s.home.kept, ∃ c ∈ s.calls, c.allows r.id = true
  dropped : ∀ grant, (∃ c ∈ s.calls, c.dropped grant = true) → ∀ r ∈ s.home.kept, r.id ≠ grant

theorem start_inv : start.Inv :=
  { formed := ⟨nodup_nil, fun _ h => absurd h not_mem_nil⟩
    known := fun _ h => absurd h not_mem_nil
    once := fun i _ _ h => by simp [start] at h
    held := fun _ _ h => absurd h not_mem_nil
    allowed := fun _ h => absurd h not_mem_nil
    dropped := fun _ _ _ h => absurd h not_mem_nil }

section
variable {calls : List Call} {i : Nat} {c c' : Call} (hget : calls[i]? = some c)

include hget

theorem halfway_set {grant : String} {server : Records}
    (hh : c.halfway grant = true → c'.halfway grant = true ∨ ¬ Approved server grant)
    (h : ∃ x ∈ calls, x.halfway grant = true) :
    (∃ x ∈ calls.set i c', x.halfway grant = true) ∨ ¬ Approved server grant := by
  by_cases happ : Approved server grant
  · refine .inl (exists_set hget (fun hc => ?_) h)
    rcases hh hc with hc' | hno
    · exact hc'
    · exact absurd happ hno
  · exact .inr happ

theorem dropped_set {grant : String} (hd : c'.dropped grant = true → c.dropped grant = true)
    (h : ∃ x ∈ calls.set i c', x.dropped grant = true) :
    ∃ x ∈ calls, x.dropped grant = true := by
  obtain ⟨x, hx, hp⟩ := h
  rcases mem_or_eq_of_mem_set hx with hx | rfl
  · exact ⟨x, hx, hp⟩
  · exact ⟨c, mem_of_getElem? hget, hd hp⟩

theorem once_set
    (ho : ∀ (i j : Nat) (grant : String), calls[i]?.bind Call.settled = some grant →
      calls[j]?.bind Call.settled = some grant → i = j)
    (hs : ∀ grant, c'.settled = some grant →
      c.settled = some grant ∨ ∀ x ∈ calls, x.settled ≠ some grant)
    (j k : Nat) (grant : String) (hj : (calls.set i c')[j]?.bind Call.settled = some grant)
    (hk : (calls.set i c')[k]?.bind Call.settled = some grant) : j = k := by
  obtain ⟨x, hx, hxs⟩ := bind_eq_some_iff.mp hj
  obtain ⟨y, hy, hys⟩ := bind_eq_some_iff.mp hk
  have back {z : Call} {l : Nat} (hz : (calls.set i c')[l]? = some z)
      (hzs : z.settled = some grant) :
      calls[l]?.bind Call.settled = some grant ∨
        (l = i ∧ ∀ x ∈ calls, x.settled ≠ some grant) := by
    rcases get_set hget hz with ⟨rfl, rfl⟩ | ⟨-, hz⟩
    · rcases hs grant hzs with hc | hno
      · exact .inl (by rw [hget]; exact hc)
      · exact .inr ⟨rfl, hno⟩
    · exact .inl (by rw [hz]; exact hzs)
  rcases back hx hxs with hx' | ⟨rfl, hno⟩ <;> rcases back hy hys with hy' | ⟨hki, hno'⟩
  · exact ho j k grant hx' hy'
  · obtain ⟨x', hx₁, hx₂⟩ := bind_eq_some_iff.mp hx'
    exact absurd hx₂ (hno' x' (mem_of_getElem? hx₁))
  · obtain ⟨y', hy₁, hy₂⟩ := bind_eq_some_iff.mp hy'
    exact absurd hy₂ (hno y' (mem_of_getElem? hy₁))
  · exact hki.symm

end

theorem held_evolves {server server' : Records} (hw : server.WellFormed) (hw' : server'.WellFormed)
    (he : server.Evolves server') {grant : String} {said : Answer}
    (hk : (Call.answer grant said (.returned (.ok ()))).Known server) {g' : GrantRecord}
    (hg' : g' ∈ server'.grants) (htext : g'.id.text = grant) (hin : server'.InForce g') :
    ∃ g ∈ server.grants, g.id.text = grant ∧ server.InForce g ∧ g'.requested = g.requested := by
  obtain ⟨g, hg, d, hch, hst⟩ := hk
  obtain ⟨g₁, hg₁, hb⟩ := he.grants g hg
  have hid : g₁.id = g'.id := Id.eq_of_text (by rw [hb.id, htext]; exact hch.1)
  obtain rfl := hw'.eq hg₁ hg' hid
  refine ⟨g, hg, hch.1, ?_, hb.requested⟩
  by_contra hno
  exact he.notInForce hw hg hb hst hno hin

/-! ### Each kind of step -/

/-- What an answer decides: no grant, or of the scopes asked for those that are offered, in every
    project or in the ones named. -/
inductive Decides (requested : Finset Scope) : Answer → Option GrantDecision → Prop where
  | deny : Decides requested .deny none
  | all {control : Bool} (given : requested ∩ offered control ≠ ∅) :
      Decides requested (.allow control none) (some ⟨requested ∩ offered control, .all⟩)
  | only {control : Bool} {names : List String} {ids : List ProjectId}
      (given : requested ∩ offered control ≠ ∅) (named : names.mapM Proto.Id.new = .ok ids) :
      Decides requested (.allow control (some names))
        (some ⟨requested ∩ offered control, .only ids.toFinset⟩)

theorem decision_iff {requested : Finset Scope} {said : Answer} {d : Option GrantDecision} :
    said.decision requested = .ok d ↔ Decides requested said d := by
  constructor
  · intro h
    cases said with
    | deny =>
      cases h
      exact .deny
    | allow control projects =>
      simp only [Answer.decision] at h
      split at h
      · cases h
      rename_i hsome
      split at h
      · cases h
        exact .all hsome
      · split at h
        · rename_i ids hids
          cases h
          exact .only hsome hids
        · cases h
  · intro h
    cases h with
    | deny => rfl
    | all hsome => simp only [Answer.decision, if_neg hsome]
    | only hsome hids => simp only [Answer.decision, if_neg hsome, hids]

theorem allows_decision {requested : Finset Scope} {said : Answer} {d : Option GrantDecision}
    (hs : said.allows = true) (h : said.decision requested = .ok d) : ∃ d', d = some d' := by
  cases decision_iff.mp h with
  | deny => cases hs
  | all | only => exact ⟨_, rfl⟩

theorem settled_answered {server : Records} {c : Call} {grant : String} (hk : c.Known server)
    (hs : c.settled = some grant) :
    ∃ g ∈ server.grants, g.id.text = grant ∧ g.status ≠ .pending := by
  cases c with
  | answer grant' said phase =>
    cases phase with
    | decided d =>
      cases hs
      obtain ⟨g, hg, hch, hst⟩ := hk
      exact ⟨g, hg, hch.1, hst⟩
    | viewed d v =>
      cases hs
      obtain ⟨g, hg, hch, hst, -⟩ := hk
      exact ⟨g, hg, hch.1, hst⟩
    | returned result =>
      cases result with
      | ok =>
        cases hs
        obtain ⟨g, hg, d, hch, hst⟩ := hk
        exact ⟨g, hg, hch.1, hst⟩
      | error => exact absurd hs nofun
    | _ => exact absurd hs nofun
  | _ => exact absurd hs nofun

theorem decision_allows {requested : Finset Scope} {said : Answer} {d : GrantDecision}
    (h : said.decision requested = .ok (some d)) : said.allows = true := by
  cases said with
  | deny => exact absurd h nofun
  | allow => rfl

section
variable {s : Calls} {i : Nat} {c c' : Call} (hi : s.Inv) (hget : s.calls[i]? = some c)

include hi hget

theorem quiet_inv {session : Option Nat} (hq : c.Quiet s.home c')
    (hh : ∀ grant, c.halfway grant = true →
      c'.halfway grant = true ∨ ¬ Approved s.home.server grant) :
    Inv ⟨{ s.home with session }, s.calls.set i c'⟩ := by
  have hkc := hi.known c (mem_of_getElem? hget)
  refine ⟨hi.formed, forall_mem_set hi.known (hq.known hi.formed hkc),
    once_set hget hi.once (fun g h => .inl (hq.settled g h)), ?_, ?_, ?_⟩
  · intro grant said hmem g hg htext hin d hd
    rcases mem_or_eq_of_mem_set hmem with hx | heq
    · rcases hi.held grant said hx g hg htext hin d hd with hrow | hhalf
      · exact .inl hrow
      · rcases halfway_set hget (hh grant) hhalf with h | hno
        · exact .inr h
        · exact absurd ⟨g, hg, htext, hin⟩ hno
    · exact absurd hd (hq.unsaid hi.formed hkc grant said heq.symm g hg htext hin d)
  · intro r hr
    exact exists_set hget (hq.allows r.id) (hi.allowed r hr)
  · intro grant hd
    exact hi.dropped grant (dropped_set hget (hq.dropped grant) hd)

theorem retains_inv {grants : List GrantSummary} {result : Except Failure (List Request)}
    (hc : c = .requests (.listed grants))
    (hclear : ∀ r ∈ s.home.kept, Approved s.home.server r.id →
      r.id ∈ (grants.filter (·.state = .approved)).map (·.id.text)) :
    Inv ⟨{ s.home with
        kept := (retainRemoteGrants s.home.kept
          ((grants.filter (·.state = .approved)).map (·.id.text))).2 },
      s.calls.set i (.requests (.returned result))⟩ := by
  subst hc
  refine ⟨hi.formed, forall_mem_set hi.known trivial, once_set hget hi.once nofun, ?_, ?_, ?_⟩
  · intro grant said hmem g hg htext hin d hd
    rcases mem_or_eq_of_mem_set hmem with hx | heq
    · rcases hi.held grant said hx g hg htext hin d hd with ⟨r, hr, hsaid⟩ | hhalf
      · refine .inl ⟨r, mem_filter.mpr ⟨hr, ?_⟩, hsaid⟩
        exact decide_eq_true (hclear r hr ⟨g, hg, htext.trans hsaid.1.symm, hin⟩)
      · exact .inr (exists_set hget nofun hhalf)
    · exact absurd heq nofun
  · intro r hr
    exact exists_set hget nofun (hi.allowed r (mem_of_mem_filter hr))
  · intro grant hd r hr
    exact hi.dropped grant (dropped_set hget (fun h => absurd h (by simp [Call.dropped])) hd) r
      (mem_of_mem_filter hr)

theorem drops_inv {grant : String} (hc : c = .revoke grant .started) :
    Inv ⟨{ s.home with kept := (dropRemoteGrant s.home.kept grant).2 },
      s.calls.set i (.revoke grant .dropped)⟩ := by
  subst hc
  refine ⟨hi.formed, forall_mem_set hi.known trivial, once_set hget hi.once nofun, ?_, ?_, ?_⟩
  · intro grant' said hmem g hg htext hin d hd
    rcases mem_or_eq_of_mem_set hmem with hx | heq
    · rcases hi.held grant' said hx g hg htext hin d hd with ⟨r, hr, hsaid⟩ | hhalf
      -- The row that goes is the one whose revocation is now half way.
      · by_cases hg' : grant' = grant
        · exact .inr ⟨_, mem_set_self hget, by simp [Call.halfway, hg']⟩
        · refine .inl ⟨r, mem_filter.mpr ⟨hr, decide_eq_true ?_⟩, hsaid⟩
          rw [hsaid.1]
          exact hg'
      · exact .inr (exists_set hget (fun h => absurd h (by simp [Call.halfway])) hhalf)
    · exact absurd heq nofun
  · intro r hr
    exact exists_set hget nofun (hi.allowed r (mem_of_mem_filter hr))
  · intro grant' ⟨x, hx, hxd⟩ r hr
    obtain ⟨hr, hne⟩ := mem_filter.mp hr
    rcases mem_or_eq_of_mem_set hx with hx | rfl
    · exact hi.dropped grant' ⟨x, hx, hxd⟩ r hr
    · obtain rfl : grant = grant' := by simpa [Call.dropped] using hxd
      exact of_decide_eq_true hne

theorem keeps_inv {grant : String} {said : Answer} {d : GrantDecision} {v : GrantSummary}
    {now : Int} (hc : c = .answer grant said (.viewed (some d) v))
    (hfree : ∀ r ∈ s.home.kept, r.deviceId = v.device.text → r.id ≠ grant →
      ¬ Approved s.home.server r.id)
    (hnot : ∀ x ∈ s.calls, x.dropped grant = false) :
    Inv ⟨{ s.home with
        kept := keepRemoteGrant s.home.kept
          ⟨v.id.text, v.device.text, v.deviceName, d.scopes, d.projects, now⟩ },
      s.calls.set i (.answer grant said (.returned (.ok ())))⟩ := by
  subst hc
  obtain ⟨g₀, hg₀, hch, hst, hvid, -⟩ := hi.known _ (mem_of_getElem? hget)
  have hvtext : v.id.text = grant := by rw [hvid]; exact hch.1
  have hmem {r : RemoteGrantRow} (hr : r ∈ keepRemoteGrant s.home.kept
      ⟨v.id.text, v.device.text, v.deviceName, d.scopes, d.projects, now⟩) :
      r ∈ s.home.kept ∨ r.id = grant := by
    rcases mem_append.mp hr with hr | hr
    · exact .inl (mem_of_mem_filter hr)
    · exact .inr (by rw [mem_singleton.mp hr]; exact hvtext)
  refine ⟨hi.formed, forall_mem_set hi.known ⟨g₀, hg₀, some d, hch, hst⟩,
    once_set hget hi.once (fun _ h => .inl h), ?_, ?_, ?_⟩
  · intro grant' said' hx g hg htext hin d' hd'
    obtain ⟨j, hj⟩ := mem_iff_getElem?.mp hx
    rcases get_set hget hj with ⟨-, heq⟩ | ⟨hji, hj'⟩
    -- The answer itself: its row was just put in.
    · cases heq
      obtain rfl := hi.formed.eq hg₀ hg (Id.eq_of_text (hch.1.trans htext.symm))
      cases hch.2.symm.trans hd'
      exact .inl ⟨_, mem_append_right _ mem_cons_self, hvtext, rfl, rfl⟩
    -- Another answer settled another grant, whose row stays.
    · have hne : grant' ≠ grant := by
        rintro rfl
        exact hji (hi.once j i grant' (by rw [hj']; rfl) (by rw [hget]; rfl))
      rcases hi.held grant' said' (mem_of_getElem? hj') g hg htext hin d' hd' with
        ⟨r, hr, hsaid⟩ | hhalf
      · refine .inl ⟨r, mem_append_left _ (mem_filter.mpr ⟨hr, ?_⟩), hsaid⟩
        have hrid : r.id ≠ grant := by rw [hsaid.1]; exact hne
        have hdev : r.deviceId ≠ v.device.text := fun hdev =>
          hfree r hr hdev hrid ⟨g, hg, htext.trans hsaid.1.symm, hin⟩
        simp [hdev, hvtext, hrid]
      · exact .inr (exists_set hget nofun hhalf)
  · intro r hr
    rcases hmem hr with hr | hrid
    · exact exists_set hget (fun h => h) (hi.allowed r hr)
    · exact ⟨_, mem_set_self hget, by simp [Call.allows, hrid, decision_allows hch.2]⟩
  · intro grant' hd r hr
    obtain ⟨x, hx, hxd⟩ := dropped_set hget (fun h => absurd h (by simp [Call.dropped])) hd
    rcases hmem hr with hr | hrid
    · exact hi.dropped grant' ⟨x, hx, hxd⟩ r hr
    · rw [hrid]
      rintro rfl
      rw [hnot x hx] at hxd
      exact absurd hxd nofun

theorem server_inv {server : Records} (hw : server.WellFormed)
    (he : s.home.server.Evolves server) (hkc : c'.Known server)
    (hs : ∀ grant, c'.settled = some grant →
      c.settled = some grant ∨ ∀ x ∈ s.calls, x.settled ≠ some grant)
    (hn : ∀ grant said, c' ≠ .answer grant said (.returned (.ok ())))
    (ha : ∀ grant, c.allows grant = true → c'.allows grant = true)
    (hd : ∀ grant, c'.dropped grant = true → c.dropped grant = true)
    (hh : ∀ grant, c.halfway grant = true →
      c'.halfway grant = true ∨ ¬ Approved server grant) :
    Inv ⟨{ s.home with server }, s.calls.set i c'⟩ := by
  refine ⟨hw, forall_mem_set (fun x hx => (hi.known x hx).mono hi.formed he) hkc,
    once_set hget hi.once hs, ?_, ?_, ?_⟩
  · intro grant said hmem g' hg' htext hin d hd'
    rcases mem_or_eq_of_mem_set hmem with hx | heq
    · obtain ⟨g, hg, hgtext, hgin, hreq⟩ :=
        held_evolves hi.formed hw he (hi.known _ hx) hg' htext hin
      rw [hreq] at hd'
      rcases hi.held grant said hx g hg hgtext hgin d hd' with hrow | hhalf
      · exact .inl hrow
      · rcases halfway_set hget (hh grant) hhalf with h | hno
        · exact .inr h
        · exact absurd ⟨g', hg', htext, hin⟩ hno
    · exact absurd heq.symm (hn grant said)
  · intro r hr
    exact exists_set hget (ha r.id) (hi.allowed r hr)
  · intro grant hd'
    exact hi.dropped grant (dropped_set hget (hd grant) hd')

theorem decides_inv {grant : String} {said : Answer} {d : Option GrantDecision} {id : GrantId}
    {server : Records} {now : Int} (hc : c = .answer grant said (.checked d))
    (hid : id.text = grant) (hdec : s.home.server.decide id d now = some server) :
    Inv ⟨{ s.home with server }, s.calls.set i (.answer grant said (.decided d))⟩ := by
  subst hc
  obtain ⟨f, rfl, hf, g, hg, hgid, hpend, hfg⟩ := Records.decide_spec hi.formed hdec
  obtain ⟨g₀, hg₀, hch⟩ := hi.known _ (mem_of_getElem? hget)
  obtain rfl : g₀ = g := hi.formed.eq hg₀ hg (Id.eq_of_text (by rw [hgid, hid]; exact hch.1))
  refine server_inv hi hget (Records.mapGrants_wellFormed hi.formed hf)
    (Records.mapGrants_evolves hf) ?_ ?_ nofun (fun _ h => h) nofun nofun
  · refine ⟨f g₀, mem_map_of_mem hg, hch.becomes (hf g₀ hg), ?_⟩
    rw [hfg]
    exact g₀.decided_status now d
  -- The grant still waited, so no other call had settled it.
  · intro grant' hs
    obtain rfl : grant = grant' := Option.some.inj hs
    refine .inr fun x hx hxs => ?_
    obtain ⟨g₁, hg₁, htext, hst⟩ := settled_answered (hi.known x hx) hxs
    obtain rfl := hi.formed.eq hg₁ hg (Id.eq_of_text (htext.trans hch.1.symm))
    exact hst hpend

theorem revokes_inv {grant : String} {id : GrantId} {now : Int} (hc : c = .revoke grant .seen)
    (hid : id.text = grant) :
    Inv ⟨{ s.home with server := s.home.server.revokeGrant id now },
      s.calls.set i (.revoke grant .told)⟩ := by
  subst hc
  have hf := fun g (_ : g ∈ s.home.server.grants) => Records.becomes_revokeGrant id now g
  refine server_inv hi hget (Records.mapGrants_wellFormed hi.formed hf)
    (Records.mapGrants_evolves hf) trivial nofun nofun nofun (fun _ h => h) ?_
  intro grant' hh
  obtain rfl : grant = grant' := by simpa [Call.halfway] using hh
  refine .inr ?_
  rintro ⟨g, hg, htext, hin⟩
  exact Records.revokeGrant_notInForce hg (Id.eq_of_text (htext.trans hid.symm)) hin

theorem goes_inv {row : RemoteHostRow} {home : Home} {now : Int}
    (hn : c.next row s.home i now = some (home, c')) (hc : clear row s (.goes i now) = true) :
    Inv ⟨home, s.calls.set i c'⟩ := by
  simp only [clear, hget] at hc
  have hh (grant : String) : c.halfway grant = true →
      c'.halfway grant = true ∨ ¬ Approved home.server grant := by
    refine Call.next_halfway hn ?_
    rintro rfl happ
    simp only [happ, decide_true, Bool.not_true, Bool.false_or] at hc
    split at hc
    · rename_i id hid
      exact ⟨id, hid, hc⟩
    · exact absurd hc nofun
  cases Call.next_moves hn with
  | quiet session hq => exact quiet_inv hi hget hq hh
  | retains grants result => exact retains_inv hi hget rfl (of_decide_eq_true hc)
  | decides grant said d id server hid hdec => exact decides_inv hi hget rfl hid hdec
  | keeps grant said d v hv =>
    obtain ⟨hfree, hnot⟩ := of_decide_eq_true hc hv
    exact keeps_inv hi hget rfl hfree hnot
  | drops grant => exact drops_inv hi hget rfl
  | revokes grant id hid => exact revokes_inv hi hget rfl hid

end

theorem fails_quiet {home : Home} {c c' : Call} {why : Failure} (h : c.fails why = some c') :
    c.Quiet home c' := by
  cases c with
  | requests phase =>
    cases phase with
    | started | owned => exact Option.some.inj h ▸ Call.quiet_requests home _ _
    | _ => exact absurd h nofun
  | answer grant said phase =>
    cases phase with
    | started | owned | asked | checked | decided =>
      exact Option.some.inj h ▸ Call.quiet_failed home _ _ _ _
    | _ => exact absurd h nofun
  | revoke grant phase =>
    cases phase with
    | dropped | seen | told =>
      exact Option.some.inj h ▸ ⟨fun _ _ => trivial, nofun, nofun, fun _ h => h, fun _ _ => nofun⟩
    | _ => exact absurd h nofun

theorem fails_inv {s : Calls} (hi : s.Inv) {row : RemoteHostRow} {i : Nat} {c c' : Call}
    {why : Failure} (hget : s.calls[i]? = some c) (hf : c.fails why = some c')
    (hc : clear row s (.fails i why) = true) : Inv ⟨s.home.leaves i, s.calls.set i c'⟩ := by
  refine quiet_inv hi hget (fails_quiet hf) fun grant hh => .inr fun happ => ?_
  simp only [clear, hget] at hc
  cases c with
  | revoke grant' phase =>
    cases phase with
    | dropped | seen =>
      obtain rfl : grant' = grant := by simpa [Call.halfway] using hh
      simp [happ] at hc
    | _ => exact absurd hh nofun
  | _ => exact absurd hh nofun

theorem made_inv {s : Calls} (hi : s.Inv) {c : Call} (hk : c.Known s.home.server)
    (hs : c.settled = none) (hh : ∀ grant, c.dropped grant = false) :
    Inv ⟨s.home, s.calls ++ [c]⟩ := by
  have hnew {x : Call} (hx : x ∈ s.calls ++ [c]) : x ∈ s.calls ∨ x = c := by
    simpa using hx
  have hget {j : Nat} {grant : String} (h : (s.calls ++ [c])[j]?.bind Call.settled = some grant) :
      s.calls[j]?.bind Call.settled = some grant := by
    obtain ⟨x, hx, hxs⟩ := bind_eq_some_iff.mp h
    rw [List.getElem?_append] at hx
    split at hx
    · rw [hx]
      exact hxs
    · rw [mem_singleton.mp (mem_of_getElem? hx), hs] at hxs
      exact absurd hxs nofun
  refine ⟨hi.formed, ?_, fun j k grant hj hk => hi.once j k grant (hget hj) (hget hk), ?_, ?_, ?_⟩
  · intro x hx
    rcases hnew hx with hx | rfl
    · exact hi.known x hx
    · exact hk
  · intro grant said hmem g hg htext hin d hd
    rcases hnew hmem with hx | rfl
    · rcases hi.held grant said hx g hg htext hin d hd with hrow | ⟨x, hx, hxh⟩
      · exact .inl hrow
      · exact .inr ⟨x, mem_append_left _ hx, hxh⟩
    · exact absurd hs nofun
  · intro r hr
    obtain ⟨x, hx, hxa⟩ := hi.allowed r hr
    exact ⟨x, mem_append_left _ hx, hxa⟩
  · intro grant ⟨x, hx, hxd⟩
    rcases hnew hx with hx | rfl
    · exact hi.dropped grant ⟨x, hx, hxd⟩
    · rw [hh] at hxd
      exact absurd hxd nofun

theorem changed_inv {s : Calls} (hi : s.Inv) {change : Change} {server : Records}
    (h : s.home.server.change change = some server) :
    Inv ⟨{ s.home with server }, s.calls⟩ := by
  obtain ⟨hw, he⟩ := Records.change_keeps hi.formed h
  refine ⟨hw, fun x hx => (hi.known x hx).mono hi.formed he, hi.once, ?_, hi.allowed, hi.dropped⟩
  intro grant said hx g' hg' htext hin d hd
  obtain ⟨g, hg, hgtext, hgin, hreq⟩ :=
    held_evolves hi.formed hw he (hi.known _ hx) hg' htext hin
  rw [hreq] at hd
  exact hi.held grant said hx g hg hgtext hgin d hd

theorem step_inv {row : RemoteHostRow} {s s' : Calls} {a : Act} (hi : s.Inv)
    (hc : clear row s a = true) (h : step row s a = some s') : s'.Inv := by
  cases a with
  | requests | answer grant said | revoke grant =>
    cases h
    exact made_inv hi trivial rfl fun _ => rfl
  | goes i now =>
    obtain ⟨⟨home, c'⟩, hn, rfl⟩ := map_eq_some_iff.mp h
    obtain ⟨c, hget, hn⟩ := bind_eq_some_iff.mp hn
    exact goes_inv hi hget hn hc
  | fails i why =>
    obtain ⟨c', hf, rfl⟩ := map_eq_some_iff.mp h
    obtain ⟨c, hget, hf⟩ := bind_eq_some_iff.mp hf
    exact fails_inv hi hget hf hc
  | server change =>
    obtain ⟨server, hs, rfl⟩ := map_eq_some_iff.mp h
    exact changed_inv hi hs

theorem Inv.agrees {s : Calls} (hi : s.Inv) (hall : ∀ c ∈ s.calls, c.returned = true) :
    s.Agrees := by
  refine ⟨?_, hi.allowed, ?_⟩
  · intro grant said hmem hsaid g hg htext hin
    obtain ⟨g₀, hg₀, d, hch, -⟩ := hi.known _ hmem
    obtain rfl := hi.formed.eq hg₀ hg (Id.eq_of_text (hch.1.trans htext.symm))
    obtain ⟨d, rfl⟩ := allows_decision hsaid hch.2
    refine ⟨d, hch.2, ?_⟩
    rcases hi.held grant said hmem g₀ hg htext hin d hch.2 with hrow | ⟨c, hc, hhalf⟩
    · exact hrow
    · exact absurd hhalf (Call.returned_not_halfway (hall c hc))
  · intro grant ⟨c, hc, hrev⟩ _
    refine hi.dropped grant ⟨c, hc, ?_⟩
    have hret := hall c hc
    cases c with
    | revoke grant' phase =>
      cases phase with
      | returned => exact hrev
      | _ => exact absurd hret nofun
    | _ => exact absurd hrev nofun

end Calls

/-- **The host's record and the server's agree after every run whose steps come in time.** -/
theorem grants_agree {row : RemoteHostRow} {acts : List Act} {s : Calls}
    (hm : Meets (Calls.step row) (fun s a => Calls.clear row s a = true) Calls.start acts)
    (hr : run (Calls.step row) Calls.start acts = some s)
    (hall : ∀ c ∈ s.calls, c.returned = true) : s.Agrees :=
  (hm.invariant (fun _ _ _ hi hc h => Calls.step_inv hi hc h) hr Calls.start_inv).agrees hall

theorem laptop_ok : checkId "laptop" = .ok () := by decide
theorem desk_ok : checkId "desk" = .ok () := by decide
theorem phone_ok : checkId "phone" = .ok () := by decide
theorem g1_ok : checkId "g1" = .ok () := by decide

def laptop : RemoteHostRow := ⟨⟨"laptop", laptop_ok⟩, ⟨"desk", desk_ok⟩⟩
def phone : DeviceId := ⟨"phone", phone_ok⟩

def watching : GrantRecord :=
  { id := ⟨"g1", g1_ok⟩, host := laptop.host, device := phone, requested := {.terminalRead}
    scopes := ∅, projects := none, status := .pending, createdAt := 0, expiresAt := 100
    decidedAt := none }

def paired : List Act :=
  [ .server (.enrolled ⟨laptop.device, "Laptop", false⟩), .server (.enrolled ⟨phone, "Phone", false⟩),
    .server (.hostAdded ⟨laptop.host, laptop.device, false⟩), .server (.asked watching) ]

def allowed : Answer := .allow false none

/-- The phone is let in, and the list is read and cut down to. -/
def letIn : List Act :=
  paired ++ (Act.answer "g1" allowed :: List.replicate 7 (.goes 0 1)) ++
    (Act.requests :: List.replicate 3 (.goes 1 2))

def inTurn : List Act := letIn ++ Act.revoke "g1" :: List.replicate 4 (.goes 2 3)

def after (acts : List Act) : Calls := (run (Calls.step laptop) Calls.start acts).getD Calls.start

theorem run_after {acts : List Act}
    (h : (run (Calls.step laptop) Calls.start acts).isSome = true) :
    run (Calls.step laptop) Calls.start acts = some (after acts) := by
  obtain ⟨s, hs⟩ := isSome_iff_exists.mp h
  rw [after, hs, getD_some]

theorem inTurn_agrees :
    (∃ s, run (Calls.step laptop) Calls.start letIn = some s ∧
      s.home.kept.map (fun r => (r.id, r.scopes, r.projects)) = [("g1", {.terminalRead}, .all)] ∧
      s.Agrees) ∧
    ∃ s, run (Calls.step laptop) Calls.start inTurn = some s ∧ s.calls.length = 3 ∧
      s.home.kept.length = 0 ∧ s.Agrees := by
  have agrees : ∀ {acts : List Act}, run (Calls.step laptop) Calls.start acts = some (after acts) →
      meets (Calls.step laptop) (Calls.clear laptop) Calls.start acts = true →
      (∀ c ∈ (after acts).calls, c.returned = true) → (after acts).Agrees :=
    fun hrun hclear hall => grants_agree (meets_iff.mp hclear) hrun hall
  have hletIn := @run_after letIn (by decide +kernel)
  have hrun := @run_after inTurn (by decide +kernel)
  exact ⟨⟨_, hletIn, by decide +kernel, agrees hletIn (by decide +kernel) (by decide +kernel)⟩,
    _, hrun, by decide +kernel, by decide +kernel,
    agrees hrun (by decide +kernel) (by decide +kernel)⟩

/-- `requests` reads the list while the phone waits, and cuts the record down to it once
    the phone was let in. -/
def staleList : List Act :=
  paired ++ (Act.answer "g1" allowed :: List.replicate 2 (.goes 0 1)) ++
    (Act.requests :: List.replicate 2 (.goes 1 1)) ++
    List.replicate 5 (Act.goes 0 1) ++ [Act.goes 1 1]

/-- The phone is let in at the server, put out by `revoke`, and then kept in the record. -/
def lateKeep : List Act :=
  paired ++ (Act.answer "g1" allowed :: List.replicate 6 (.goes 0 1)) ++
    (Act.revoke "g1" :: List.replicate 4 (.goes 1 1)) ++ [Act.goes 0 1]

theorem stale_list_and_late_keep :
    (∃ s, run (Calls.step laptop) Calls.start staleList = some s ∧
      (∀ c ∈ s.calls, c.returned = true) ∧ ¬ s.Agrees) ∧
    (∃ s, run (Calls.step laptop) Calls.start lateKeep = some s ∧
      (∀ c ∈ s.calls, c.returned = true) ∧ ¬ s.Agrees) := by
  refine ⟨⟨_, run_after (by decide +kernel), by decide +kernel, fun h => ?_⟩,
    ⟨_, run_after (by decide +kernel), by decide +kernel, fun h => ?_⟩⟩
  -- In force at the server, and not in the record.
  · have hmem : .answer "g1" allowed (.returned (.ok ())) ∈ (after staleList).calls := by
      decide +kernel
    have happ : Approved (after staleList).home.server "g1" := by decide +kernel
    have hnone : (after staleList).home.kept = [] := by decide +kernel
    obtain ⟨g, hg, htext, hin⟩ := happ
    obtain ⟨d, -, r, hr, -⟩ := h.held "g1" allowed hmem rfl g hg htext hin
    rw [hnone] at hr
    exact absurd hr not_mem_nil
  -- Revoked here, and in the record.
  · have hrow : ¬ ∀ r ∈ (after lateKeep).home.kept, r.id ≠ "g1" := by decide +kernel
    exact hrow (h.revoked "g1" (by decide +kernel) (by decide +kernel))

end Yardsort.Host
