import Mathlib.Logic.Function.Basic
import Mathlib.Tactic.Common
import Yardsort.Lib.Run

/- One device's credentials as `MemoryRecords` of `server/src/records.rs` keeps them:
   `access` and `rotate`, each one step under the store's lock.

   Everything here is of one device, so a credential's own `device` column is left out.
   A refresh credential that was traded in is kept with what was issued in its place,
   to tell a device whose answer was lost (`retried`) from a copy (`reused`). `mark`
   is what `access` does to the records: the last section says what a first use of a
   credential, moved before a rotation, changes of it. -/
namespace Yardsort.Server.Credentials
open Yardsort.Lib

abbrev TokenHash := Nat

abbrev AccountId := String

inductive DeviceKind where
  | phone
  | computer
  | host
  | other
  deriving DecidableEq

inductive Platform where
  | linux
  | macos
  | windows
  | ios
  | android
  | other
  deriving DecidableEq

inductive RevokeReason where
  | byOwner
  | refreshReused
  | byOperator
  deriving DecidableEq

structure Revoked where
  time : Int
  reason : RevokeReason
  deriving DecidableEq

structure Device where
  id : String
  account : AccountId
  name : String
  kind : DeviceKind
  platform : Platform
  createdAt : Int
  lastSeenAt : Option Int
  revoked : Option Revoked
  deriving DecidableEq

structure Issued where
  access : TokenHash
  accessExpiresAt : Int
  refresh : TokenHash
  refreshExpiresAt : Int
  deriving DecidableEq

inductive Rotation where
  | rotated (device : Device)
  | retried (device : Device)
  | reused (account : AccountId)
  | expired
  | revoked
  | unknown
  deriving DecidableEq

/-- How long after a rotation its refresh credential may be presented again. -/
def REFRESH_RETRY_MS : Int := 30000

structure Access where
  expiresAt : Int
  used : Bool

structure Refresh where
  expiresAt : Int
  spentAt : Option Int
  /-- What was issued in its place: refresh, then access. -/
  successor : Option (TokenHash × TokenHash)
  retried : Bool

structure State where
  device : Device
  access : TokenHash → Option Access
  refresh : TokenHash → Option Refresh

def modify {α : Type} (m : TokenHash → Option α) (key : TokenHash) (f : α → α) :
    TokenHash → Option α :=
  Function.update m key ((m key).map f)

namespace State

def issue (s : State) (issued : Issued) : State :=
  { s with
    access := Function.update s.access issued.access (some ⟨issued.accessExpiresAt, false⟩)
    refresh :=
      Function.update s.refresh issued.refresh (some ⟨issued.refreshExpiresAt, none, none, false⟩) }

def mark (s : State) (access : TokenHash) : State :=
  { s with access := modify s.access access fun row => { row with used := true } }

def present (s : State) (access : TokenHash) : Option (Device × Int) × State :=
  match s.access access with
  | none => (none, s)
  | some row => (some (s.device, row.expiresAt), s.mark access)

def unused (s : State) (old : Refresh) : Bool :=
  old.successor.any fun (refresh, access) =>
    (s.refresh refresh).any (·.spentAt.isNone) && (s.access access).any (!·.used)

def drop (s : State) : Option (TokenHash × TokenHash) → State
  | none => s
  | some (refresh, access) =>
    { s with
      refresh := Function.update s.refresh refresh none
      access := Function.update s.access access none }

/-- The spent credential presented again: what was issued in its place is replaced. -/
def retry (s : State) (refresh : TokenHash) (old : Refresh) (issued : Issued) : State :=
  let s := s.drop old.successor
  State.issue
    { s with
      refresh := modify s.refresh refresh fun row =>
        { row with retried := true, successor := some (issued.refresh, issued.access) } }
    issued

def revoke (s : State) (now : Int) : State :=
  { s with device := { s.device with revoked := some ⟨now, .refreshReused⟩ } }

def spend (s : State) (refresh : TokenHash) (issued : Issued) (now : Int) : State :=
  State.issue
    { s with
      refresh := modify s.refresh refresh fun row =>
        { row with spentAt := some now, successor := some (issued.refresh, issued.access) } }
    issued

def rotate (s : State) (refresh : TokenHash) (issued : Issued) (now : Int) : Rotation × State :=
  match s.refresh refresh with
  | none => (.unknown, s)
  | some old =>
    if s.device.revoked.isSome then (.revoked, s)
    else match old.spentAt with
      | some spentAt =>
        -- a retry: soon after, once, and with nothing issued in its place used
        if !old.retried && now - spentAt < REFRESH_RETRY_MS && s.unused old then
          (.retried s.device, s.retry refresh old issued)
        else (.reused s.device.account, s.revoke now)
      | none =>
        if old.expiresAt ≤ now then (.expired, s)
        else (.rotated s.device, s.spend refresh issued now)

end State

inductive Call where
  | access (access : TokenHash)
  | rotate (refresh : TokenHash) (issued : Issued) (now : Int)
  deriving DecidableEq

inductive Answer where
  | access (found : Option (Device × Int))
  | rotation (outcome : Rotation)
  deriving DecidableEq

def State.call (s : State) : Call → Answer × State
  | .access access => ((s.present access).map .access id)
  | .rotate refresh issued now => ((s.rotate refresh issued now).map .rotation id)

/-- A call of `MemoryRecords`, if this is what it answers. -/
def State.answers (s : State) (entry : Call × Answer) : Option State :=
  if (s.call entry.1).1 = entry.2 then some (s.call entry.1).2 else none

theorem State.answers_iff {s s' : State} {call : Call} {answer : Answer} :
    s.answers (call, answer) = some s' ↔ s.call call = (answer, s') := by
  unfold State.answers
  constructor
  · intro h
    split at h
    · rename_i heq
      exact Prod.ext heq (Option.some.inj h)
    · cases h
  · intro h
    rw [h]
    exact if_pos rfl

theorem State.answers_access {s s' : State} {access : TokenHash} {answer : Answer} :
    s.answers (.access access, answer) = some s' ↔
      answer = .access (s.present access).1 ∧ s' = (s.present access).2 := by
  rw [State.answers_iff, State.call, Prod.map, Prod.mk.injEq]
  exact and_congr eq_comm eq_comm

theorem State.answers_rotate {s s' : State} {refresh : TokenHash} {issued : Issued} {now : Int}
    {answer : Answer} :
    s.answers (.rotate refresh issued now, answer) = some s' ↔
      answer = .rotation (s.rotate refresh issued now).1 ∧
        s' = (s.rotate refresh issued now).2 := by
  rw [State.answers_iff, State.call, Prod.map, Prod.mk.injEq]
  exact and_congr eq_comm eq_comm

section
variable {α : Type} {m : TokenHash → Option α} {key : TokenHash} {f : α → α}

theorem modify_self : modify m key f key = (m key).map f := update_self ..

theorem modify_of_ne {k : TokenHash} (h : k ≠ key) : modify m key f k = m k :=
  update_of_ne h ..

theorem update_some {k : TokenHash} {v : Option α} {x : α}
    (h : Function.update m key v k = some x) :
    (k = key ∧ v = some x) ∨ (k ≠ key ∧ m k = some x) := by
  obtain rfl | hne := eq_or_ne k key
  · rw [update_self] at h
    exact .inl ⟨rfl, h⟩
  · rw [update_of_ne hne] at h
    exact .inr ⟨hne, h⟩

theorem modify_some {k : TokenHash} {x : α} (h : modify m key f k = some x) :
    (k = key ∧ ∃ y, m k = some y ∧ f y = x) ∨ (k ≠ key ∧ m k = some x) := by
  obtain ⟨rfl, h⟩ | h := update_some h
  · exact .inl ⟨rfl, map_eq_some_iff.mp h⟩
  · exact .inr h

theorem some_modify {k : TokenHash} {x : α} (h : m k = some x) :
    modify m key f k = some (if k = key then f x else x) := by
  split
  · rename_i heq
    subst heq
    rw [modify_self, h, map_some]
  · rename_i hne
    rw [modify_of_ne hne, h]

end

namespace State
variable {s s' : State} {a b : TokenHash}

@[simp] theorem mark_device : (s.mark a).device = s.device := rfl
theorem mark_access_self :
    (s.mark a).access a = (s.access a).map fun row => { row with used := true } :=
  modify_self

theorem mark_access_of_ne (h : b ≠ a) : (s.mark a).access b = s.access b := modify_of_ne h

theorem mark_eq_self (h : ∀ row, s.access a = some row → row.used = true) : s.mark a = s := by
  have hsame : modify s.access a (fun row => { row with used := true }) = s.access := by
    funext b
    by_cases hb : b = a
    · subst hb
      rw [modify_self]
      cases hrow : s.access b with
      | none => rfl
      | some row => rw [map_some, ← h row hrow]
    · exact modify_of_ne hb
  rw [mark, hsame]

theorem mark_comm : (s.mark a).mark b = (s.mark b).mark a := by
  by_cases h : a = b
  · rw [h]
  · have hsame : ((s.mark a).mark b).access = ((s.mark b).mark a).access := by
      funext c
      by_cases hca : c = a
      · subst hca
        rw [mark_access_of_ne h, mark_access_self, mark_access_self, mark_access_of_ne h]
      · rw [mark_access_of_ne hca]
        by_cases hcb : c = b
        · subst hcb
          rw [mark_access_self, mark_access_self, mark_access_of_ne hca]
        · rw [mark_access_of_ne hcb, mark_access_of_ne hcb, mark_access_of_ne hca]
    exact congrArg (fun access => { s with access }) hsame

def lapses (s : State) (access : TokenHash) : Option Int := (s.access access).map (·.expiresAt)

theorem mark_lapses : (s.mark a).lapses = s.lapses := by
  funext b
  unfold lapses
  by_cases hb : b = a
  · subst hb
    rw [mark_access_self, Option.map_map]
    rfl
  · rw [mark_access_of_ne hb]

theorem present_eq : s.present a = ((s.lapses a).map (s.device, ·), s.mark a) := by
  unfold present lapses
  cases h : s.access a with
  | none => rw [mark_eq_self fun row hrow => by rw [h] at hrow; cases hrow]; rfl
  | some row => rfl

theorem unused_of_mark {old : Refresh} (h : (s.mark a).unused old = true) :
    s.unused old = true := by
  unfold unused at h ⊢
  cases hs : old.successor with
  | none => rw [hs] at h; exact h
  | some pair =>
    obtain ⟨refresh, access⟩ := pair
    rw [hs, any_some, Bool.and_eq_true] at h
    rw [any_some, Bool.and_eq_true]
    refine ⟨h.1, ?_⟩
    by_cases hb : access = a
    · subst hb
      rw [mark_access_self] at h
      cases hrow : s.access access with
      | none => rw [hrow] at h; exact h.2
      | some row => rw [hrow] at h; exact absurd h.2 Bool.false_ne_true
    · rw [mark_access_of_ne hb] at h
      exact h.2

variable {refresh : TokenHash} {issued : Issued} {now : Int} {old : Refresh}

def retries (s : State) (old : Refresh) (now : Int) : Bool :=
  old.spentAt.any fun spentAt => !old.retried && now - spentAt < REFRESH_RETRY_MS && s.unused old

theorem rotate_unknown (h : s.refresh refresh = none) :
    s.rotate refresh issued now = (.unknown, s) := by
  rw [rotate, h]

theorem rotate_revoked (h : s.refresh refresh = some old) (hrevoked : s.device.revoked.isSome) :
    s.rotate refresh issued now = (.revoked, s) := by
  rw [rotate, h]
  exact if_pos hrevoked

section
variable (h : s.refresh refresh = some old) (hlive : s.device.revoked = none)
include h hlive

theorem rotate_retried (hretry : s.retries old now = true) :
    s.rotate refresh issued now = (.retried s.device, s.retry refresh old issued) := by
  obtain ⟨spentAt, hspent, hnow⟩ := (any_eq_true _ _).mp hretry
  rw [rotate, h, hlive]
  simp only [hspent, hnow, isSome_none, Bool.false_eq_true, if_false, if_true]

theorem rotate_reused (hspent : old.spentAt.isSome = true) (hretry : s.retries old now = false) :
    s.rotate refresh issued now = (.reused s.device.account, s.revoke now) := by
  obtain ⟨spentAt, hspent⟩ := isSome_iff_exists.mp hspent
  rw [retries, hspent, any_some] at hretry
  rw [rotate, h, hlive]
  simp only [hspent, hretry, isSome_none, Bool.false_eq_true, if_false]

theorem rotate_expired (hspent : old.spentAt = none) (hlapsed : old.expiresAt ≤ now) :
    s.rotate refresh issued now = (.expired, s) := by
  rw [rotate, h, hlive]
  simp only [hspent, hlapsed, isSome_none, Bool.false_eq_true, if_false, if_true]

theorem rotate_rotated (hspent : old.spentAt = none) (hcurrent : ¬ old.expiresAt ≤ now) :
    s.rotate refresh issued now = (.rotated s.device, s.spend refresh issued now) := by
  rw [rotate, h, hlive]
  simp only [hspent, hcurrent, isSome_none, Bool.false_eq_true, if_false]

end

theorem rotate_revokes (hlive : s.device.revoked = none)
    (hrevoked : (s.rotate refresh issued now).2.device.revoked.isSome = true) :
    s.rotate refresh issued now = (.reused s.device.account, s.revoke now) ∧
      (s.mark a).rotate refresh issued now = (.reused s.device.account, (s.revoke now).mark a) := by
  have hsame : (s.device.revoked.isSome = true) → False := fun h => by rw [hlive] at h; cases h
  cases h : s.refresh refresh with
  | none =>
    rw [rotate_unknown h] at hrevoked
    exact (hsame hrevoked).elim
  | some old =>
    cases hspent : old.spentAt with
    | none =>
      by_cases hlapsed : old.expiresAt ≤ now
      · rw [rotate_expired h hlive hspent hlapsed] at hrevoked
        exact (hsame hrevoked).elim
      · rw [rotate_rotated h hlive hspent hlapsed] at hrevoked
        exact (hsame hrevoked).elim
    | some spentAt =>
      have hspent : old.spentAt.isSome = true := by rw [hspent]; rfl
      cases hretry : s.retries old now with
      | true =>
        rw [rotate_retried h hlive hretry] at hrevoked
        have hdevice : (s.retry refresh old issued).device = s.device := by
          unfold retry drop
          cases old.successor <;> rfl
        exact (hsame (hdevice ▸ hrevoked)).elim
      | false =>
        refine ⟨rotate_reused h hlive hspent hretry, rotate_reused h hlive hspent ?_⟩
        refine Bool.eq_false_iff.mpr fun hmarked => Bool.eq_false_iff.mp hretry ?_
        obtain ⟨spentAt, hat, hnow⟩ := (any_eq_true _ _).mp hmarked
        rw [Bool.and_eq_true] at hnow
        refine (any_eq_true _ _).mpr ⟨spentAt, hat, ?_⟩
        rw [hnow.1, unused_of_mark hnow.2]
        rfl

theorem answers_revoked {entry : Call × Answer} (hrevoked : s.device.revoked.isSome = true)
    (h : s.answers entry = some s') :
    s'.device = s.device ∧ s'.lapses = s.lapses ∧
      (s.mark a).answers entry = some (s'.mark a) := by
  obtain ⟨call, answer⟩ := entry
  cases call with
  | access b =>
    rw [answers_access, present_eq] at h
    obtain ⟨rfl, rfl⟩ := h
    refine ⟨rfl, mark_lapses, answers_access.mpr ?_⟩
    rw [present_eq, mark_lapses, mark_comm]
    exact ⟨rfl, rfl⟩
  | rotate refresh issued now =>
    rw [answers_rotate] at h
    obtain ⟨rfl, rfl⟩ := h
    cases hold : s.refresh refresh with
    | none =>
      rw [rotate_unknown hold, answers_rotate, rotate_unknown (s := s.mark a) hold]
      exact ⟨rfl, rfl, rfl, rfl⟩
    | some old =>
      rw [rotate_revoked hold hrevoked, answers_rotate,
        rotate_revoked (s := s.mark a) hold hrevoked]
      exact ⟨rfl, rfl, rfl, rfl⟩

theorem run_revoked {entries : List (Call × Answer)} (hrevoked : s.device.revoked.isSome = true)
    (h : run answers s entries = some s') :
    s'.device = s.device ∧ s'.lapses = s.lapses ∧
      run answers (s.mark a) entries = some (s'.mark a) := by
  induction entries generalizing s with
  | nil =>
    cases h
    exact ⟨rfl, rfl, rfl⟩
  | cons entry rest ih =>
    obtain ⟨s₁, hentry, hrest⟩ := run_cons.mp h
    obtain ⟨hdevice, hlapses, hmarked⟩ := answers_revoked (a := a) hrevoked hentry
    obtain ⟨hdevice', hlapses', hrun⟩ := ih (hdevice ▸ hrevoked) hrest
    exact ⟨hdevice'.trans hdevice, hlapses'.trans hlapses, run_cons.mpr ⟨_, hmarked, hrun⟩⟩

/-- These calls were answered in this order, and one of them revoked the device, which was `old`
    until then. -/
def Turned (m : State) (order : List (Call × Answer)) (old : Device) (s : State) : Prop :=
  old.revoked = none ∧ s.device.revoked.isSome = true ∧
    ∃ before entry after u u',
      order = before ++ entry :: after ∧ run answers m before = some u ∧ u.device = old ∧
        u.answers entry = some u' ∧ u'.device.revoked.isSome = true ∧
        run answers u' after = some s

theorem Turned.run {m : State} {order : List (Call × Answer)} {old : Device}
    (h : Turned m order old s) : Lib.run answers m order = some s := by
  obtain ⟨-, -, before, entry, after, u, u', rfl, hbefore, -, hentry, -, hafter⟩ := h
  exact run_append.mpr ⟨u, hbefore, run_cons.mpr ⟨u', hentry, hafter⟩⟩

theorem turned_of_answers {m : State} {order : List (Call × Answer)} {entry : Call × Answer}
    (h : Lib.run answers m order = some s) (hlive : s.device.revoked = none)
    (hentry : s.answers entry = some s') (hrevoked : s'.device.revoked.isSome = true) :
    Turned m (order ++ [entry]) s.device s' :=
  ⟨hlive, hrevoked, order, entry, [], s, s', rfl, h, rfl, hentry, hrevoked, rfl⟩

theorem Turned.snoc {m : State} {order : List (Call × Answer)} {old : Device}
    {entry : Call × Answer} (h : Turned m order old s) (hentry : s.answers entry = some s') :
    Turned m (order ++ [entry]) old s' := by
  obtain ⟨hlive, hrevoked, before, first, after, u, u', rfl, hbefore, hdevice, hfirst, hu,
    hafter⟩ := h
  obtain ⟨hsame, -⟩ := answers_revoked (a := 0) hrevoked hentry
  refine ⟨hlive, hsame ▸ hrevoked, before, first, after ++ [entry], u, u', ?_, hbefore, hdevice,
    hfirst, hu, run_append.mpr ⟨s, hafter, run_cons.mpr ⟨s', hentry, rfl⟩⟩⟩
  rw [append_assoc, cons_append]

/-- **A first use that saw the device before it was revoked** comes right before the call that
    revoked it. -/
theorem Turned.insert {m : State} {order : List (Call × Answer)} {old : Device}
    (h : Turned m order old s) {row : Access} (hrow : s.access a = some row) :
    ∃ order', order'.Perm ((.access a, .access (some (old, row.expiresAt))) :: order) ∧
      Turned m order' old (s.mark a) := by
  obtain ⟨hlive, hrevoked, before, entry, after, u, u', rfl, hbefore, rfl, hentry, hu, hafter⟩ := h
  obtain ⟨call, answer⟩ := entry
  cases call with
  | access b =>
    -- a use does not revoke the device
    rw [answers_access, present_eq] at hentry
    obtain ⟨-, rfl⟩ := hentry
    rw [mark_device, hlive] at hu
    cases hu
  | rotate refresh issued now =>
    rw [answers_rotate] at hentry
    obtain ⟨rfl, rfl⟩ := hentry
    obtain ⟨hrotate, hmarked⟩ := rotate_revokes (a := a) hlive hu
    obtain ⟨-, hlapses, hrun⟩ := run_revoked (a := a) hu hafter
    have hlapse : u.lapses a = some row.expiresAt := by
      have hthere : u.lapses a = s.lapses a := by
        rw [hlapses, hrotate]
        rfl
      rw [hthere, lapses, hrow, map_some]
    refine ⟨before ++ (.access a, .access (some (u.device, row.expiresAt))) ::
      (.rotate refresh issued now, .rotation (u.rotate refresh issued now).1) :: after,
      List.perm_middle, hlive, hrevoked, before ++ [(.access a, _)], _, after, u.mark a,
      ((u.rotate refresh issued now).2).mark a, by rw [append_assoc]; rfl, ?_, rfl, ?_, hu,
      hrun⟩
    · refine run_append.mpr ⟨u, hbefore, run_cons.mpr ⟨u.mark a, answers_access.mpr ?_, rfl⟩⟩
      rw [present_eq, hlapse]
      exact ⟨rfl, rfl⟩
    · rw [answers_rotate, hmarked, hrotate]
      exact ⟨rfl, rfl⟩

end State

end Yardsort.Server.Credentials
