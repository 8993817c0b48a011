import Yardsort.Server.Login

/- Where each device comes from, over the runs of the sign-in calls.

   A login and a handoff are told by the hash of a secret that was drawn once. So what is kept under
   it was put there by one call (`Pending`, `Kept`), and once a call took it no other finds it:
   `Logins` and `Handoffs` say so of the two tables together with the calls that took from them.
   What a call took it keeps, with what it made of it (`Stands`); the chain from a device back to
   the login is put together of these (`Good.led`). -/
namespace Yardsort.Server.Login
open Yardsort.Lib Yardsort.Server.Oidc
open Yardsort.Server.Credentials (AccountId Device)

def Finish.random (f : Finish) : Option Text :=
  match f.out with
  | .signedIn _ _ random _ => some random
  | .unknown _ | .refused _ _ | .trading _ _ | .naming _ _ | .keeping _ _ _ => none

def SignIn.device (t : SignIn) : Option Device :=
  match t.out with
  | .issued _ device _ => some device
  | .refused _ | .counting _ | .adding _ => none

section
variable (service : Service)

def Pending (begins : List Begin) (login : PendingLogin) : Prop :=
  ∃ b ∈ begins, (∃ url, b.out = .sent url) ∧ login = b.login service

def Finish.made (f : Finish) : Option Handoff := do
  let login ← f.login
  match f.out with
  | .signedIn _ account random _ =>
    some ⟨service.tokens.hash (mint .handoff random), account, login.deviceChallenge,
      f.now + HANDOFF_TTL_MS⟩
  | .unknown _ | .refused _ _ | .trading _ _ | .naming _ _ | .keeping _ _ _ => none

def Kept (finishes : List Finish) (handoff : Handoff) : Prop :=
  ∃ f ∈ finishes, f.made service = some handoff

/-- A login was taken in time, and its code is traded with its own verifier. -/
structure Trading (f : Finish) (login : PendingLogin) (back : Url) (form : Form) : Prop where
  took : f.login = some login
  returns : service.urls.parse login.deviceRedirect = some back
  inTime : f.now < login.expiresAt
  code : f.code = some form.code
  verifier : form.codeVerifier = login.providerVerifier

structure Accepted (f : Finish) (login : PendingLogin) (back : Url) (traded : Traded) : Prop
    extends Trading service f login back traded.form where
  accepted : signIn service.tokens service.jwt service.provider login.nonce f.now traded.answer =
    .ok traded.identity

/-- What a call of `finish_login` is at follows from what it took. -/
def Finish.Stands (accounts : List ((Text × Text) × AccountId)) (f : Finish) : Prop :=
  match f.out with
  | .unknown _ => True
  | .refused location _ => ∃ login back value, f.login = some login ∧
      service.urls.parse login.deviceRedirect = some back ∧
      location = back.appendPair "error".toList value
  | .trading back form => ∃ login, Trading service f login back form
  | .naming back traded => ∃ login, Accepted service f login back traded
  | .keeping back traded account => ∃ login, Accepted service f login back traded ∧
      accounts.lookup (traded.identity.issuer, traded.identity.subject) = some account
  | .signedIn traded account random location => ∃ login back,
      Accepted service f login back traded ∧
      accounts.lookup (traded.identity.issuer, traded.identity.subject) = some account ∧
      location = back.appendPair "code".toList (mint .handoff random)

/-- A handoff was taken in time, with the verifier of its challenge. -/
structure Presented (t : SignIn) (handoff : Handoff) : Prop where
  took : t.handoff = some handoff
  inTime : t.now < handoff.expiresAt
  challenged : service.tokens.verifies handoff.deviceChallenge t.request.verifier = true

def SignIn.Stands (t : SignIn) : Prop :=
  match t.out with
  | .refused _ => True
  | .counting handoff | .adding handoff => Presented service t handoff
  | .issued handoff device _ => Presented service t handoff ∧ device.account = handoff.account

structure Begun (begins : List Begin) (drawn : List Text) : Prop where
  once : (begins.map (·.state)).Nodup
  drawn : ∀ b ∈ begins, b.state ∈ drawn
  allowed : ∀ b ∈ begins, service.allowedRedirect b.params.redirect = some b.redirect

structure Logins (begins : List Begin) (logins : List PendingLogin) (finishes : List Finish) :
    Prop where
  pending : ∀ login ∈ logins, Pending service begins login
  once : (logins.map (·.state)).Nodup
  took : ∀ f ∈ finishes, ∀ login ∈ f.login, Pending service begins login ∧
    (∀ other ∈ logins, other.state ≠ login.state) ∧
    ∃ state, f.state = some state ∧ service.tokens.hash state = login.state
  tookOnce : KeyOnce finishes fun f => f.login.map (·.state)

structure Finishes (finishes : List Finish) (accounts : List ((Text × Text) × AccountId))
    (drawn : List Text) : Prop where
  stands : ∀ f ∈ finishes, f.Stands service accounts
  drawn : ∀ f ∈ finishes, ∀ random ∈ f.random, random ∈ drawn
  once : KeyOnce finishes Finish.random

structure Handoffs (finishes : List Finish) (handoffs : List Handoff) (signIns : List SignIn) :
    Prop where
  kept : ∀ handoff ∈ handoffs, Kept service finishes handoff
  once : (handoffs.map (·.code)).Nodup
  presented : ∀ t ∈ signIns, ∀ handoff ∈ t.handoff, Kept service finishes handoff ∧
    (∀ other ∈ handoffs, other.code ≠ handoff.code) ∧
    service.tokens.hash t.request.code = handoff.code
  presentedOnce : KeyOnce signIns fun t => t.handoff.map (·.code)

structure Devices (signIns : List SignIn) (devices : List Device) : Prop where
  stands : ∀ t ∈ signIns, t.Stands service
  once : KeyOnce signIns fun t => t.device.map (·.id)
  issued : ∀ device, device ∈ devices ↔ ∃ t ∈ signIns, t.device = some device
  ids : (devices.map (·.id)).Nodup

structure Good (s : State) : Prop where
  begun : Begun service s.begins s.drawn
  logins : Logins service s.begins s.logins s.finishes
  finishes : Finishes service s.finishes s.accounts s.drawn
  handoffs : Handoffs service s.finishes s.handoffs s.signIns
  devices : Devices service s.signIns s.devices
  accounts : (s.accounts.map (·.1)).Nodup ∧ (s.accounts.map (·.2)).Nodup

end

variable {service : Service}

variable {login : PendingLogin}

theorem Pending.snoc {begins : List Begin} (h : Pending service begins login) (b : Begin) :
    Pending service (begins ++ [b]) login := by
  obtain ⟨c, hc, hsent⟩ := h
  exact ⟨c, mem_append_left _ hc, hsent⟩

variable {k : Nat}

theorem Pending.set {begins : List Begin} {b b' : Begin} (h : Pending service begins login)
    (hk : begins[k]? = some b) (hasking : b.out = .asking) :
    Pending service (begins.set k b') login := by
  obtain ⟨c, hc, ⟨url, hurl⟩, rfl⟩ := h
  obtain rfl | hc := mem_set_or hk hc
  · rw [hasking] at hurl
    cases hurl
  · exact ⟨c, hc, ⟨url, hurl⟩, rfl⟩

variable {finishes : List Finish}

theorem Kept.snoc {handoff : Handoff} (h : Kept service finishes handoff) (f : Finish) :
    Kept service (finishes ++ [f]) handoff := by
  obtain ⟨g, hg, hmade⟩ := h
  exact ⟨g, mem_append_left _ hg, hmade⟩

variable {f : Finish}

theorem Kept.set {handoff : Handoff} {f' : Finish} (h : Kept service finishes handoff)
    (hk : finishes[k]? = some f) (hrandom : f.random = none) :
    Kept service (finishes.set k f') handoff := by
  obtain ⟨g, hg, hmade⟩ := h
  obtain rfl | hg := mem_set_or hk hg
  · unfold Finish.random at hrandom
    obtain ⟨login, -, hmade⟩ := bind_eq_some_iff.mp hmade
    split at hmade
    · rename_i hout
      rw [hout] at hrandom
      cases hrandom
    all_goals cases hmade
  · exact ⟨g, hg, hmade⟩

theorem Logins.set {begins : List Begin} {logins : List PendingLogin}
    (h : Logins service begins logins finishes) (hk : finishes[k]? = some f) (out : FinishOut) :
    Logins service begins logins (finishes.set k { f with out := out }) := by
  exact ⟨h.pending, h.once, forall_mem_set h.took (h.took f (mem_of_getElem? hk)),
    h.tookOnce.set_same hk rfl⟩

theorem Handoffs.set {handoffs : List Handoff} {signIns : List SignIn}
    (h : Handoffs service finishes handoffs signIns) (hk : finishes[k]? = some f)
    (hrandom : f.random = none) (f' : Finish) :
    Handoffs service (finishes.set k f') handoffs signIns := by
  refine ⟨fun handoff hkept => (h.kept handoff hkept).set hk hrandom, h.once, ?_, h.presentedOnce⟩
  intro t ht handoff hhandoff
  obtain ⟨hkept, hrest⟩ := h.presented t ht handoff hhandoff
  exact ⟨hkept.set hk hrandom, hrest⟩

variable {accounts : List ((Text × Text) × AccountId)}

theorem Finishes.set {drawn : List Text} {f' : Finish}
    (h : Finishes service finishes accounts drawn) (hk : finishes[k]? = some f)
    (hrandom : f'.random = none) (hstands : f'.Stands service accounts) :
    Finishes service (finishes.set k f') accounts drawn := by
  have hnone : ∀ random, f'.random ≠ some random := fun random hr => by
    rw [hrandom] at hr
    cases hr
  exact ⟨forall_mem_set h.stands hstands, forall_mem_set h.drawn fun random hr => absurd hr (hnone _),
    h.once.set_new hk fun random hr => absurd hr (hnone _)⟩

theorem Finishes.draws {drawn : List Text} (h : Finishes service finishes accounts drawn)
    (random : List Text) :
    Finishes service finishes accounts (drawn ++ random) :=
  ⟨h.stands, fun f hf r hr => mem_append_left _ (h.drawn f hf r hr), h.once⟩

theorem Begun.draws {begins : List Begin} {drawn : List Text} (h : Begun service begins drawn)
    (random : List Text) : Begun service begins (drawn ++ random) :=
  ⟨h.once, fun b hb => mem_append_left _ (h.drawn b hb), h.allowed⟩

theorem Finish.Stands.more {accounts' : List ((Text × Text) × AccountId)}
    (h : f.Stands service accounts) (hmore : ∀ key account, accounts.lookup key = some account →
        accounts'.lookup key = some account) : f.Stands service accounts' := by
  unfold Finish.Stands at h ⊢
  split at h
  · exact h
  · exact h
  · exact h
  · exact h
  · obtain ⟨login, haccepted, haccount⟩ := h
    exact ⟨login, haccepted, hmore _ _ haccount⟩
  · obtain ⟨login, back, haccepted, haccount, hlocation⟩ := h
    exact ⟨login, back, haccepted, hmore _ _ haccount, hlocation⟩

variable {s s' : State}

theorem Pending.state_ne {begins : List Begin} {drawn : List Text} {b : Begin}
    (h : Pending service begins login) (hbegun : Begun service begins drawn)
    (hk : begins[k]? = some b) (hasking : b.out = .asking) :
    login.state ≠ service.tokens.hash b.state := by
  obtain ⟨c, hc, ⟨url, hurl⟩, rfl⟩ := h
  intro heq
  have hstate : c.state = b.state := service.tokens.injective heq
  obtain ⟨i, hi⟩ := mem_iff_getElem?.mp hc
  have hgeti : (begins.map (·.state))[i]? = some b.state := by
    rw [List.getElem?_map, hi, ← hstate]
    rfl
  have hgetk : (begins.map (·.state))[k]? = some b.state := by
    rw [List.getElem?_map, hk]
    rfl
  have hlt := (List.getElem?_eq_some_iff.mp hgeti).1
  obtain rfl := (List.getElem?_inj hlt hbegun.once).mp (hgeti.trans hgetk.symm)
  cases hi.symm.trans hk
  rw [hasking] at hurl
  cases hurl

namespace Good

theorem beginLogin (h : Good service s) {params : LoginParams} {redirect : Url}
    {state nonce verifier : Text} (now : Int)
    (hallowed : service.allowedRedirect params.redirect = some redirect)
    (hfresh : s.Fresh [state, nonce, verifier]) :
    Good service (s.beginLogin params now redirect state nonce verifier) := by
  have hstate : state ∉ s.drawn := hfresh.2 state mem_cons_self
  refine ⟨⟨?_, ?_, ?_⟩, ⟨?_, h.logins.once, ?_, h.logins.tookOnce⟩, h.finishes.draws _, h.handoffs,
    h.devices, h.accounts⟩
  · refine nodup_snoc h.begun.once ?_
    intro hmem
    obtain ⟨b, hb, heq⟩ := mem_map.mp hmem
    have heq : b.state = state := heq
    exact hstate (heq ▸ h.begun.drawn b hb)
  · intro b hb
    obtain hb | rfl := mem_snoc.mp hb
    · exact mem_append_left _ (h.begun.drawn b hb)
    · exact mem_append_right _ mem_cons_self
  · intro b hb
    obtain hb | rfl := mem_snoc.mp hb
    · exact h.begun.allowed b hb
    · exact hallowed
  · intro login hlogin
    exact (h.logins.pending login hlogin).snoc _
  · intro f hf login hlogin
    obtain ⟨hpending, hrest⟩ := h.logins.took f hf login hlogin
    exact ⟨hpending.snoc _, hrest⟩

theorem answers (h : Good service s) {b : Begin} (hk : s.begins[k]? = some b)
    (hasking : b.out = .asking) (out : BeginOut) :
    Good service { s with begins := s.begins.set k { b with out := out } } := by
  have hmap : (s.begins.set k { b with out := out }).map (·.state) = s.begins.map (·.state) :=
    map_set_same hk rfl
  have hfrom : ∀ c ∈ s.begins.set k { b with out := out }, ∃ d ∈ s.begins,
      c.state = d.state ∧ c.params = d.params ∧ c.redirect = d.redirect := by
    intro c hc
    obtain rfl | hc := mem_set_erase hk hc
    · exact ⟨b, mem_of_getElem? hk, rfl, rfl, rfl⟩
    · exact ⟨c, (eraseIdx_sublist ..).subset hc, rfl, rfl, rfl⟩
  refine ⟨⟨?_, ?_, ?_⟩, ⟨?_, h.logins.once, ?_, h.logins.tookOnce⟩, h.finishes, h.handoffs,
    h.devices, h.accounts⟩
  · rw [hmap]
    exact h.begun.once
  · intro c hc
    obtain ⟨d, hd, hstate, -⟩ := hfrom c hc
    rw [hstate]
    exact h.begun.drawn d hd
  · intro c hc
    obtain ⟨d, hd, -, hparams, hredirect⟩ := hfrom c hc
    rw [hparams, hredirect]
    exact h.begun.allowed d hd
  · intro login hlogin
    exact (h.logins.pending login hlogin).set hk hasking
  · intro f hf login hlogin
    obtain ⟨hpending, hrest⟩ := h.logins.took f hf login hlogin
    exact ⟨hpending.set hk hasking, hrest⟩

theorem loginAuthorized (h : Good service s) {b : Begin} (hk : s.begins[k]? = some b)
    (hasking : b.out = .asking) (endpoint : Except OidcError Url) :
    Good service (s.loginAuthorized service k b endpoint) := by
  cases endpoint with
  | error _ => exact h.answers hk hasking _
  | ok endpoint =>
    let out : BeginOut := .sent (authorizeUrl service.provider service.urls endpoint
      service.callback b.state b.nonce (service.tokens.s256 b.verifier))
    have hanswered := h.answers hk hasking out
    have hsub : ∀ l ∈ s.logins.filter (fun l => b.now < l.expiresAt), l ∈ s.logins :=
      fun l hl => (mem_filter.mp hl).1
    refine ⟨hanswered.begun, ⟨?_, ?_, ?_, h.logins.tookOnce⟩, h.finishes, h.handoffs, h.devices,
      h.accounts⟩
    · intro login hlogin
      obtain hlogin | rfl := mem_snoc.mp hlogin
      · exact hanswered.logins.pending login (hsub login hlogin)
      · exact ⟨{ b with out := out }, mem_set_self hk, ⟨_, rfl⟩, rfl⟩
    · refine nodup_snoc (h.logins.once.sublist (filter_sublist.map _)) ?_
      intro hmem
      obtain ⟨login, hlogin, heq⟩ := mem_map.mp hmem
      exact (h.logins.pending login (hsub login hlogin)).state_ne h.begun hk hasking heq
    · intro f hf login hlogin
      obtain ⟨hpending, hspent, hstate⟩ := h.logins.took f hf login hlogin
      refine ⟨hpending.set hk hasking, ?_, hstate⟩
      intro other hother
      obtain hother | rfl := mem_snoc.mp hother
      · exact hspent other (hsub other hother)
      · exact (hpending.state_ne h.begun hk hasking).symm

end Good

theorem takeLogin_takes (s : State) (state : TokenHash)
    (honce : (s.logins.map (·.state)).Nodup) :
    ∃ taken rest, s.takeLogin state = (taken, { s with logins := rest }) ∧
      (∀ l ∈ rest, l ∈ s.logins ∧ l.state ≠ state) ∧ (rest.map (·.state)).Nodup ∧
      ∀ login ∈ taken, login ∈ s.logins ∧ login.state = state := by
  unfold State.takeLogin
  split
  · rename_i hnone
    refine ⟨none, s.logins, rfl, ?_, honce, fun _ h => by cases h⟩
    intro l hl
    exact ⟨hl, by simpa using List.findIdx?_eq_none_iff.mp hnone l hl⟩
  · rename_i i hi
    obtain ⟨login, hlogin, hstate, hrest, hnodup⟩ := swapRemove_key honce hi
    refine ⟨some login, swapRemove s.logins i, by rw [hlogin], hrest, hnodup, ?_⟩
    rintro _ ⟨rfl⟩
    exact ⟨mem_of_getElem? hlogin, hstate⟩

theorem finishTaken_stands (service : Service) (login : PendingLogin)
    (code state error : Option Text) (now : Int) (accounts : List ((Text × Text) × AccountId)) :
    let f : Finish :=
      ⟨code, state, error, now, some login, finishTaken service login code error now⟩
    f.Stands service accounts ∧ f.random = none := by
  dsimp only
  unfold finishTaken
  split
  · exact ⟨trivial, rfl⟩
  rename_i back hback
  split
  · exact ⟨⟨login, back, _, rfl, hback, rfl⟩, rfl⟩
  rename_i hlapsed
  split
  · exact ⟨⟨login, back, _, rfl, hback, rfl⟩, rfl⟩
  · exact ⟨⟨login, back, _, rfl, hback, rfl⟩, rfl⟩
  · exact ⟨⟨login, rfl, hback, Int.not_le.mp hlapsed, rfl, rfl⟩, rfl⟩

namespace Good

theorem takes (h : Good service s) {rest : List PendingLogin}
    (hrest : ∀ l ∈ rest, l ∈ s.logins ∧ ∀ login ∈ f.login, l.state ≠ login.state)
    (honce : (rest.map (·.state)).Nodup) (htook : ∀ login ∈ f.login, login ∈ s.logins ∧
        ∃ state, f.state = some state ∧ service.tokens.hash state = login.state)
    (hstands : f.Stands service s.accounts) (hrandom : f.random = none) :
    Good service { s with logins := rest, finishes := s.finishes ++ [f] } := by
  refine ⟨h.begun, ⟨?_, honce, ?_, h.logins.tookOnce.snoc ?_⟩, ⟨?_, ?_, h.finishes.once.snoc ?_⟩,
    ⟨?_, h.handoffs.once, ?_, h.handoffs.presentedOnce⟩, h.devices, h.accounts⟩
  · intro login hlogin
    exact h.logins.pending login (hrest login hlogin).1
  · intro g hg login hlogin
    obtain hg | rfl := mem_snoc.mp hg
    · obtain ⟨hpending, hspent, hstate⟩ := h.logins.took g hg login hlogin
      exact ⟨hpending, fun other hother => hspent other (hrest other hother).1, hstate⟩
    · obtain ⟨hin, hstate⟩ := htook login hlogin
      exact ⟨h.logins.pending login hin, fun other hother => (hrest other hother).2 login hlogin,
        hstate⟩
  -- What was taken before was not kept any more.
  · intro state hstate g hg hgstate
    obtain ⟨login, hlogin, rfl⟩ := map_eq_some_iff.mp hstate
    obtain ⟨other, hother, heq⟩ := map_eq_some_iff.mp hgstate
    exact (h.logins.took g hg other hother).2.1 login (htook login hlogin).1 heq.symm
  · intro g hg
    obtain hg | rfl := mem_snoc.mp hg
    · exact h.finishes.stands g hg
    · exact hstands
  · intro g hg random hr
    obtain hg | rfl := mem_snoc.mp hg
    · exact h.finishes.drawn g hg random hr
    · rw [hrandom] at hr
      cases hr
  · intro random hr
    rw [hrandom] at hr
    cases hr
  · intro handoff hhandoff
    exact (h.handoffs.kept handoff hhandoff).snoc f
  · intro t ht handoff hhandoff
    obtain ⟨hkept, hspent⟩ := h.handoffs.presented t ht handoff hhandoff
    exact ⟨hkept.snoc f, hspent⟩

theorem finishLogin (h : Good service s) (code state error : Option Text) (now : Int) :
    Good service (s.finishLogin service code state error now) ∧
      Spends service (s.finishLogin service code state error now)
        (.finishes code state error now) := by
  cases state with
  | none =>
    have hall : ∀ l ∈ s.logins, l ∈ s.logins ∧
        ∀ login ∈ (none : Option PendingLogin), l.state ≠ login.state :=
      fun l hl => ⟨hl, fun _ hlogin => by cases hlogin⟩
    exact ⟨h.takes (f := ⟨code, none, error, now, none, unknownLogin⟩) hall h.logins.once
      (fun _ hlogin => by cases hlogin) trivial rfl, trivial⟩
  | some state =>
    obtain ⟨taken, rest, htake, hrest, honce, htaken⟩ :=
      takeLogin_takes s (service.tokens.hash state) h.logins.once
    unfold State.finishLogin
    dsimp only
    rw [htake]
    refine ⟨?_, fun l hl => (hrest l hl).2⟩
    cases taken with
    | none =>
      refine h.takes ?_ honce (fun _ hlogin => by cases hlogin) trivial rfl
      intro l hl
      exact ⟨(hrest l hl).1, fun _ hlogin => by cases hlogin⟩
    | some login =>
      obtain ⟨hin, hstate⟩ := htaken login rfl
      obtain ⟨hstands, hrandom⟩ := finishTaken_stands service login code (some state) error now
        s.accounts
      refine h.takes ?_ honce ?_ hstands hrandom
      · intro l hl
        refine ⟨(hrest l hl).1, ?_⟩
        rintro _ ⟨rfl⟩
        rw [hstate]
        exact (hrest l hl).2
      · rintro _ ⟨rfl⟩
        exact ⟨hin, state, rfl, hstate.symm⟩

end Good

/-! ## The provider's answer, the account and the code -/

theorem Kept.code_ne {drawn : List Text} {handoff : Handoff} {random : Text}
    (h : Kept service finishes handoff) (hfinishes : Finishes service finishes accounts drawn)
    (hnew : random ∉ drawn) :
    handoff.code ≠ service.tokens.hash (mint .handoff random) := by
  obtain ⟨f, hf, hmade⟩ := h
  obtain ⟨login, -, hmade⟩ := bind_eq_some_iff.mp hmade
  split at hmade
  · rename_i traded account other location hout
    cases hmade
    intro heq
    obtain rfl := mint_inj.mp (service.tokens.injective heq)
    refine hnew (hfinishes.drawn f hf other ?_)
    unfold Finish.random
    rw [hout]
    rfl
  all_goals cases hmade

theorem Accepted.goesOn {back : Url} {traded : Traded} (h : Accepted service f login back traded)
    (out : FinishOut) :
    Accepted service { f with out := out } login back traded :=
  ⟨⟨h.took, h.returns, h.inTime, h.code, h.verifier⟩, h.accepted⟩

namespace Good

theorem goesOn (h : Good service s) (hk : s.finishes[k]? = some f) (hrandom : f.random = none)
    (out : FinishOut) (hout : ({ f with out := out } : Finish).random = none)
    (hstands : ({ f with out := out } : Finish).Stands service s.accounts) :
    Good service { s with finishes := s.finishes.set k { f with out := out } } :=
  ⟨h.begun, h.logins.set hk out, h.finishes.set hk hout hstands, h.handoffs.set hk hrandom _,
    h.devices, h.accounts⟩

theorem loginAnswered (h : Good service s) {back : Url} {form : Form} (hk : s.finishes[k]? = some f)
    (hout : f.out = .trading back form) (hlogin : f.login = some login) (answer : Answer) :
    Good service (s.loginAnswered service k f login back form answer) := by
  have hrandom : f.random = none := by
    unfold Finish.random
    rw [hout]
  have hstands := h.finishes.stands f (mem_of_getElem? hk)
  unfold Finish.Stands at hstands
  rw [hout] at hstands
  obtain ⟨login', htrading⟩ := hstands
  obtain rfl := Option.some.inj (htrading.took.symm.trans hlogin)
  unfold State.loginAnswered finishAnswered
  dsimp only
  split
  · rename_i error _
    refine h.goesOn hk hrandom (refuse back .unauthenticated (.oidc error)) ?_ ?_
    · rfl
    · exact ⟨login', back, _, hlogin, htrading.returns, rfl⟩
  · rename_i identity haccepted
    refine h.goesOn hk hrandom (.naming back ⟨form, answer, identity⟩) ?_ ?_
    · rfl
    · exact ⟨login', ⟨htrading.took, htrading.returns, htrading.inTime, htrading.code,
        htrading.verifier⟩, haccepted⟩

theorem loginNamed (h : Good service s) {back : Url} {traded : Traded} {id : AccountId}
    (hk : s.finishes[k]? = some f) (hout : f.out = .naming back traded)
    (hid : id ∉ s.accounts.map (·.2)) : Good service (s.loginNamed k f back traded id) := by
  have hrandom : f.random = none := by
    unfold Finish.random
    rw [hout]
  have hstands := h.finishes.stands f (mem_of_getElem? hk)
  unfold Finish.Stands at hstands
  rw [hout] at hstands
  obtain ⟨login, haccepted⟩ := hstands
  unfold State.loginNamed
  cases haccount : s.accounts.lookup (traded.identity.issuer, traded.identity.subject) with
  | some account =>
    have heq : s.account traded.identity.issuer traded.identity.subject id = (account, s) := by
      unfold State.account
      rw [haccount]
    rw [heq]
    refine h.goesOn hk hrandom (.keeping back traded account) ?_ ?_
    · rfl
    · exact ⟨login, haccepted.goesOn _, haccount⟩
  | none =>
    let key := (traded.identity.issuer, traded.identity.subject)
    have heq : s.account traded.identity.issuer traded.identity.subject id =
        (id, { s with accounts := s.accounts ++ [(key, id)] }) := by
      unfold State.account
      rw [haccount]
    rw [heq]
    have hmore : ∀ other account, s.accounts.lookup other = some account →
        (s.accounts ++ [(key, id)]).lookup other = some account := by
      intro other account hother
      rw [lookup_append, hother]
      rfl
    have hnew : (s.accounts ++ [(key, id)]).lookup key = some id := by
      rw [lookup_append, haccount]
      simp
    have hgood : Good service { s with accounts := s.accounts ++ [(key, id)] } := by
      refine ⟨h.begun, h.logins, ⟨fun g hg => (h.finishes.stands g hg).more hmore,
        h.finishes.drawn, h.finishes.once⟩, h.handoffs, h.devices, nodup_snoc h.accounts.1 ?_,
        nodup_snoc h.accounts.2 hid⟩
      intro hmem
      obtain ⟨row, hrow, hkey⟩ := mem_map.mp hmem
      have hkey : row.1 = key := hkey
      have hrow : (key, row.2) ∈ s.accounts := by
        rw [← hkey]
        exact hrow
      rw [lookup_of_mem h.accounts.1 hrow] at haccount
      cases haccount
    refine hgood.goesOn hk hrandom (.keeping back traded id) ?_ ?_
    · rfl
    · exact ⟨login, haccepted.goesOn _, hnew⟩

theorem loginKept (h : Good service s) {back : Url} {traded : Traded} {account : AccountId}
    {random : Text} (hk : s.finishes[k]? = some f) (hout : f.out = .keeping back traded account)
    (hlogin : f.login = some login) (hfresh : s.Fresh [random]) :
    Good service (s.loginKept service k f login back traded account random) := by
  have hnew : random ∉ s.drawn := hfresh.2 random mem_cons_self
  have hrandom : f.random = none := by
    unfold Finish.random
    rw [hout]
  have hstands := h.finishes.stands f (mem_of_getElem? hk)
  unfold Finish.Stands at hstands
  rw [hout] at hstands
  obtain ⟨login', haccepted, haccount⟩ := hstands
  obtain rfl := Option.some.inj (haccepted.took.symm.trans hlogin)
  let code := mint .handoff random
  let handoff : Handoff := ⟨service.tokens.hash code, account, login'.deviceChallenge,
    f.now + HANDOFF_TTL_MS⟩
  let out : FinishOut := .signedIn traded account random (back.appendPair "code".toList code)
  have hsub : ∀ g ∈ s.finishes.eraseIdx k, g ∈ s.finishes := fun g hg =>
    (eraseIdx_sublist ..).subset hg
  have hkeeps : ∀ x ∈ s.handoffs.filter (fun x => f.now < x.expiresAt), x ∈ s.handoffs :=
    fun x hx => (mem_filter.mp hx).1
  have hset := h.handoffs.set hk hrandom { f with out := out }
  have hmade : Kept service (s.finishes.set k { f with out := out }) handoff := by
    refine ⟨_, mem_set_self hk, ?_⟩
    rw [show ({ f with out := out } : Finish).login = some login' from hlogin]
    rfl
  refine ⟨h.begun.draws _, h.logins.set hk out, ⟨?_, ?_, h.finishes.once.set_new hk ?_⟩,
    ⟨?_, ?_, ?_, h.handoffs.presentedOnce⟩, h.devices, h.accounts⟩
  · exact forall_mem_set h.finishes.stands ⟨login', back, haccepted.goesOn _, haccount, rfl⟩
  · intro g hg r hr
    obtain rfl | hg := mem_set_erase hk hg
    · cases hr
      exact mem_append_right _ (mem_singleton_self _)
    · exact mem_append_left _ (h.finishes.drawn g (hsub g hg) r hr)
  · intro r hr g hg hgr
    obtain rfl := Option.some.inj hr
    exact hnew (h.finishes.drawn g hg _ hgr)
  · intro x hx
    obtain hx | rfl := mem_snoc.mp hx
    · exact hset.kept x (hkeeps x hx)
    · exact hmade
  · refine nodup_snoc (h.handoffs.once.sublist (filter_sublist.map _)) ?_
    intro hmem
    obtain ⟨x, hx, heq⟩ := mem_map.mp hmem
    exact (h.handoffs.kept x (hkeeps x hx)).code_ne h.finishes hnew heq
  · intro t ht x hx
    obtain ⟨-, hspent, hcode⟩ := h.handoffs.presented t ht x hx
    refine ⟨(hset.presented t ht x hx).1, ?_, hcode⟩
    intro other hother
    obtain hother | rfl := mem_snoc.mp hother
    · exact hspent other (hkeeps other hother)
    · exact ((h.handoffs.presented t ht x hx).1.code_ne h.finishes hnew).symm

end Good

theorem takeHandoff_takes (s : State) (code : TokenHash)
    (honce : (s.handoffs.map (·.code)).Nodup) :
    ∃ taken rest, s.takeHandoff code = (taken, { s with handoffs := rest }) ∧
      (∀ h ∈ rest, h ∈ s.handoffs ∧ h.code ≠ code) ∧ (rest.map (·.code)).Nodup ∧
      ∀ handoff ∈ taken, handoff ∈ s.handoffs ∧ handoff.code = code := by
  unfold State.takeHandoff
  split
  · rename_i hnone
    refine ⟨none, s.handoffs, rfl, ?_, honce, fun _ h => by cases h⟩
    intro h hh
    exact ⟨hh, by simpa using List.findIdx?_eq_none_iff.mp hnone h hh⟩
  · rename_i i hi
    obtain ⟨handoff, hhandoff, hcode, hrest, hnodup⟩ := swapRemove_key honce hi
    refine ⟨some handoff, swapRemove s.handoffs i, by rw [hhandoff], hrest, hnodup, ?_⟩
    rintro _ ⟨rfl⟩
    exact ⟨mem_of_getElem? hhandoff, hcode⟩

theorem signInTaken_stands (service : Service) (handoff : Handoff) (request : TokenRequest) (now : Int) :
    let t : SignIn := ⟨request, now, some handoff, signInTaken service handoff request now⟩
    t.Stands service ∧ t.device = none := by
  dsimp only
  unfold signInTaken
  split
  · exact ⟨trivial, rfl⟩
  · rename_i hgood
    rw [Bool.or_eq_true, not_or, decide_eq_true_eq, Bool.not_eq_true', Bool.not_eq_false] at hgood
    exact ⟨⟨rfl, Int.not_le.mp hgood.1, hgood.2⟩, rfl⟩

namespace Good

theorem presents (h : Good service s) {t : SignIn} {rest : List Handoff}
    (hrest : ∀ x ∈ rest, x ∈ s.handoffs ∧ ∀ handoff ∈ t.handoff, x.code ≠ handoff.code)
    (honce : (rest.map (·.code)).Nodup)
    (htook : ∀ handoff ∈ t.handoff, handoff ∈ s.handoffs ∧
      service.tokens.hash t.request.code = handoff.code)
    (hstands : t.Stands service) (hdevice : t.device = none) :
    Good service { s with handoffs := rest, signIns := s.signIns ++ [t] } := by
  refine ⟨h.begun, h.logins, h.finishes, ⟨fun x hx => h.handoffs.kept x (hrest x hx).1, honce, ?_,
    h.handoffs.presentedOnce.snoc ?_⟩, ⟨?_, h.devices.once.snoc ?_, ?_, h.devices.ids⟩, h.accounts⟩
  · intro u hu handoff hhandoff
    obtain hu | rfl := mem_snoc.mp hu
    · obtain ⟨hkept, hspent, hcode⟩ := h.handoffs.presented u hu handoff hhandoff
      exact ⟨hkept, fun other hother => hspent other (hrest other hother).1, hcode⟩
    · obtain ⟨hin, hcode⟩ := htook handoff hhandoff
      exact ⟨h.handoffs.kept handoff hin,
        fun other hother => (hrest other hother).2 handoff hhandoff, hcode⟩
  · intro code hcode u hu hucode
    obtain ⟨handoff, hhandoff, rfl⟩ := map_eq_some_iff.mp hcode
    obtain ⟨other, hother, heq⟩ := map_eq_some_iff.mp hucode
    exact (h.handoffs.presented u hu other hother).2.1 handoff (htook handoff hhandoff).1 heq.symm
  · intro u hu
    obtain hu | rfl := mem_snoc.mp hu
    · exact h.devices.stands u hu
    · exact hstands
  · intro id hid
    rw [hdevice] at hid
    cases hid
  · intro device
    rw [h.devices.issued device]
    constructor
    · rintro ⟨u, hu, hissued⟩
      exact ⟨u, mem_append_left _ hu, hissued⟩
    · rintro ⟨u, hu, hissued⟩
      obtain hu | rfl := mem_snoc.mp hu
      · exact ⟨u, hu, hissued⟩
      · rw [hdevice] at hissued
        cases hissued

theorem token (h : Good service s) (request : TokenRequest) (now : Int) :
    Good service (s.token service request now (service.tokens.hash request.code)) ∧
      ∀ x ∈ (s.token service request now (service.tokens.hash request.code)).handoffs,
        x.code ≠ service.tokens.hash request.code := by
  obtain ⟨taken, rest, htake, hrest, honce, htaken⟩ :=
    takeHandoff_takes s (service.tokens.hash request.code) h.handoffs.once
  unfold State.token
  dsimp only
  rw [htake]
  refine ⟨?_, fun x hx => (hrest x hx).2⟩
  cases taken with
  | none =>
    refine h.presents ?_ honce (fun _ hhandoff => by cases hhandoff) trivial rfl
    intro x hx
    exact ⟨(hrest x hx).1, fun _ hhandoff => by cases hhandoff⟩
  | some handoff =>
    obtain ⟨hin, hcode⟩ := htaken handoff rfl
    obtain ⟨hstands, hdevice⟩ := signInTaken_stands service handoff request now
    refine h.presents ?_ honce ?_ hstands hdevice
    · intro x hx
      refine ⟨(hrest x hx).1, ?_⟩
      rintro _ ⟨rfl⟩
      rw [hcode]
      exact (hrest x hx).2
    · rintro _ ⟨rfl⟩
      exact ⟨hin, hcode.symm⟩

end Good

namespace Good

theorem tokenCounted (h : Good service s) {t : SignIn} {handoff : Handoff}
    (hk : s.signIns[k]? = some t) (hout : t.out = .counting handoff) :
    Good service (s.tokenCounted k t handoff) := by
  have hdevice : t.device = none := by
    unfold SignIn.device
    rw [hout]
  have hstands := h.devices.stands t (mem_of_getElem? hk)
  unfold SignIn.Stands at hstands
  rw [hout] at hstands
  have hsub : ∀ u ∈ s.signIns.eraseIdx k, u ∈ s.signIns := fun u hu =>
    (eraseIdx_sublist ..).subset hu
  have hgood : ∀ out : SignInOut, ({ t with out := out } : SignIn).Stands service →
      ({ t with out := out } : SignIn).device = none →
      Good service { s with signIns := s.signIns.set k { t with out := out } } := by
    intro out hstands' hdevice'
    refine ⟨h.begun, h.logins, h.finishes, ⟨h.handoffs.kept, h.handoffs.once,
      forall_mem_set h.handoffs.presented (h.handoffs.presented t (mem_of_getElem? hk)),
      h.handoffs.presentedOnce.set_same hk rfl⟩, ⟨forall_mem_set h.devices.stands hstands',
      h.devices.once.set_same hk ?_, ?_, h.devices.ids⟩, h.accounts⟩
    · rw [hdevice', hdevice]
    · intro device
      rw [h.devices.issued device]
      constructor
      · refine exists_set hk ?_
        intro hissued
        rw [hdevice] at hissued
        cases hissued
      · rintro ⟨u, hu, hissued⟩
        obtain rfl | hu := mem_set_erase hk hu
        · rw [hdevice'] at hissued
          cases hissued
        · exact ⟨u, hsub u hu, hissued⟩
  unfold State.tokenCounted
  dsimp only
  split
  · exact hgood _ trivial rfl
  · exact hgood _ ⟨hstands.took, hstands.inTime, hstands.challenged⟩ rfl

theorem tokenAdded (h : Good service s) {t : SignIn} {handoff : Handoff} {id : String}
    (hk : s.signIns[k]? = some t) (hout : t.out = .adding handoff) (hid : id ∉ s.devices.map (·.id))
    (access refresh : Text) :
    Good service
      ((s.tokenAdded service k t handoff id access refresh).draws [access, refresh]) := by
  have hdevice : t.device = none := by
    unfold SignIn.device
    rw [hout]
  have hstands := h.devices.stands t (mem_of_getElem? hk)
  unfold SignIn.Stands at hstands
  rw [hout] at hstands
  have hsub : ∀ u ∈ s.signIns.eraseIdx k, u ∈ s.signIns := fun u hu =>
    (eraseIdx_sublist ..).subset hu
  let device : Device := ⟨id, handoff.account, String.ofList (Text.trim t.request.device.name),
    t.request.device.kind, t.request.device.platform, t.now, none, none⟩
  let credentials : Credentials := ⟨id, mint .access access, ACCESS_TTL_MS, mint .refresh refresh⟩
  let issued : SignIn := { t with out := .issued handoff device credentials }
  refine ⟨h.begun.draws _, h.logins, h.finishes.draws _, ⟨h.handoffs.kept, h.handoffs.once,
    forall_mem_set h.handoffs.presented (h.handoffs.presented t (mem_of_getElem? hk)),
    h.handoffs.presentedOnce.set_same hk rfl⟩, ⟨forall_mem_set h.devices.stands
      ⟨⟨hstands.took, hstands.inTime, hstands.challenged⟩, rfl⟩, h.devices.once.set_new hk ?_, ?_,
    nodup_snoc h.devices.ids hid⟩, h.accounts⟩
  · intro new hnew u hu hu'
    cases hnew
    obtain ⟨other, hother, heq⟩ := map_eq_some_iff.mp hu'
    have hin := (h.devices.issued other).mpr ⟨u, hu, hother⟩
    exact hid (mem_map.mpr ⟨other, hin, heq⟩)
  · intro other
    show other ∈ s.devices ++ [device] ↔ ∃ u ∈ s.signIns.set k issued, u.device = some other
    rw [mem_append, h.devices.issued other, mem_singleton]
    constructor
    · rintro (hold | rfl)
      · refine exists_set hk ?_ hold
        intro hissued
        rw [hdevice] at hissued
        cases hissued
      · exact ⟨issued, mem_set_self hk, rfl⟩
    · rintro ⟨u, hu, hissued⟩
      obtain rfl | hu := mem_set_erase hk hu
      · exact .inr (Option.some.inj hissued).symm
      · exact .inl ⟨u, hsub u hu, hissued⟩

theorem new : Good service State.new := by
  refine ⟨⟨nodup_nil, ?_, ?_⟩, ⟨?_, nodup_nil, ?_, KeyOnce.nil⟩, ⟨?_, ?_, KeyOnce.nil⟩,
    ⟨?_, nodup_nil, ?_, KeyOnce.nil⟩, ⟨?_, KeyOnce.nil, ?_, nodup_nil⟩, nodup_nil,
    nodup_nil⟩
  case refine_10 =>
    intro device
    constructor
    · intro hdevice; cases hdevice
    · rintro ⟨t, ht, -⟩; cases ht
  all_goals intro x hx; cases hx

theorem step (h : Good service s) {act : Act} (hs : step service s act = some s') :
    Good service s' ∧ Spends service s' act := by
  cases act with
  | begins params now state nonce verifier =>
    dsimp only [Login.step] at hs
    split at hs
    · cases hs
      exact ⟨h, trivial⟩
    · rename_i redirect hchecked
      split at hs
      · rename_i hfresh
        cases hs
        refine ⟨h.beginLogin now ?_ hfresh, trivial⟩
        obtain ⟨_, -, hchecked⟩ := Fallible.bind_ok.mp hchecked
        split at hchecked
        · rename_i other hallowed
          cases hchecked
          exact hallowed
        · cases hchecked
      · cases hs
  | authorized k endpoint =>
    obtain ⟨b, hk, hs⟩ := bind_eq_some_iff.mp hs
    split at hs
    · rename_i hasking
      cases hs
      exact ⟨h.loginAuthorized hk hasking endpoint, trivial⟩
    · cases hs
  | finishes code state error now =>
    cases hs
    exact h.finishLogin code state error now
  | answered k answer =>
    obtain ⟨f, hk, hs⟩ := bind_eq_some_iff.mp hs
    split at hs
    · rename_i hout hlogin
      cases hs
      exact ⟨h.loginAnswered hk hout hlogin answer, trivial⟩
    · cases hs
  | named k id =>
    obtain ⟨f, hk, hs⟩ := bind_eq_some_iff.mp hs
    split at hs
    · rename_i hout
      split at hs
      · cases hs
      · rename_i hid
        cases hs
        exact ⟨h.loginNamed hk hout hid, trivial⟩
    · cases hs
  | kept k random =>
    obtain ⟨f, hk, hs⟩ := bind_eq_some_iff.mp hs
    split at hs
    · rename_i hout hlogin
      split at hs
      · rename_i hfresh
        cases hs
        exact ⟨h.loginKept hk hout hlogin hfresh, trivial⟩
      · cases hs
    · cases hs
  | presents request now =>
    dsimp only [Login.step] at hs
    unfold Tokens.presented at hs
    split at hs
    · rename_i hcode
      split at hcode
      · cases hcode
        cases hs
        obtain ⟨hgood, hspent⟩ := h.token request now
        exact ⟨hgood, fun _ _ => hspent⟩
      · cases hcode
    · rename_i hnot
      cases hs
      refine ⟨h, fun hvalid hmarker => ?_⟩
      exact absurd (if_pos hmarker) (hnot () _ hvalid)
  | counted k =>
    obtain ⟨t, hk, hs⟩ := bind_eq_some_iff.mp hs
    split at hs
    · rename_i hout
      cases hs
      exact ⟨h.tokenCounted hk hout, trivial⟩
    · cases hs
  | added k id access refresh =>
    obtain ⟨t, hk, hs⟩ := bind_eq_some_iff.mp hs
    split at hs
    · rename_i hout
      split at hs
      · rename_i hnew
        cases hs
        exact ⟨h.tokenAdded hk hout hnew.1 access refresh, trivial⟩
      · cases hs
    · cases hs

end Good

/-! ## From a device back to its login -/

theorem allowedRedirect_some {asked : Text} {redirect : Url}
    (h : service.allowedRedirect asked = some redirect) :
    service.urls.parse asked = some redirect ∧
      ∃ rule ∈ service.redirects, redirectMatches service.urls rule redirect = true := by
  obtain ⟨parsed, hparsed, h⟩ := bind_eq_some_iff.mp h
  split at h
  · cases h
  split at h
  · rename_i hrule
    cases h
    exact ⟨hparsed, List.any_eq_true.mp hrule⟩
  · cases h

namespace Good

theorem login_of (h : Good service s) (hf : f ∈ s.finishes) (hlogin : f.login = some login) :
    ∃ b ∈ s.begins, login = b.login service ∧ f.state = some b.state := by
  obtain ⟨⟨b, hb, -, rfl⟩, -, state, hstate, hhash⟩ := h.logins.took f hf login hlogin
  obtain rfl := service.tokens.injective hhash
  exact ⟨b, hb, rfl, hstate⟩

theorem led (h : Good service s) {device : Device} (hdevice : device ∈ s.devices) :
    ∃ i j k, Leads service s i j k device := by
  obtain ⟨t, ht, hissued⟩ := (h.devices.issued device).mp hdevice
  obtain ⟨k, hk⟩ := mem_iff_getElem?.mp ht
  -- The call of `token`, and the handoff it took.
  obtain ⟨handoff, credentials, hout⟩ : ∃ handoff credentials,
      t.out = .issued handoff device credentials := by
    unfold SignIn.device at hissued
    split at hissued
    · rename_i hout
      cases hissued
      exact ⟨_, _, hout⟩
    all_goals cases hissued
  have hstands := h.devices.stands t ht
  unfold SignIn.Stands at hstands
  rw [hout] at hstands
  obtain ⟨hpresented, haccount⟩ := hstands
  obtain ⟨⟨f, hf, hmade⟩, -, hcode⟩ := h.handoffs.presented t ht handoff hpresented.took
  obtain ⟨j, hj⟩ := mem_iff_getElem?.mp hf
  -- The call of `finish_login` that made it, and the login it took.
  obtain ⟨login, hlogin, hmade⟩ := bind_eq_some_iff.mp hmade
  split at hmade
  · rename_i traded account random location hsigned
    cases hmade
    have hfinished := h.finishes.stands f hf
    unfold Finish.Stands at hfinished
    rw [hsigned] at hfinished
    obtain ⟨login', back, haccepted, hlookup, -⟩ := hfinished
    cases hlogin.symm.trans haccepted.took
    obtain ⟨b, hb, rfl, hstate⟩ := h.login_of hf hlogin
    obtain ⟨i, hi⟩ := mem_iff_getElem?.mp hb
    refine ⟨i, j, k, b, f, t, traded, random, ⟨hi, hj, hk, hstate, haccepted.inTime,
      haccepted.code, haccepted.verifier, signIn_ok haccepted.accepted, ?_, ?_,
      service.tokens.injective hcode, hpresented.inTime, hpresented.challenged, ⟨_, _, hout⟩⟩⟩
    · rw [haccount]
      exact hlookup
    · exact ⟨location, haccount ▸ hsigned⟩
  all_goals cases hmade

theorem led_took (h : Good service s) {i j : Nat} {device : Device} {b : Begin} {t : SignIn}
    {traded : Traded} {random : Text} (hled : Led service s i j k device b f t traded random) :
    f.login.map (·.state) = some (service.tokens.hash b.state) := by
  have hf := mem_of_getElem? hled.finished
  obtain ⟨location, hsigned⟩ := hled.signedIn
  have hstands := h.finishes.stands f hf
  unfold Finish.Stands at hstands
  rw [hsigned] at hstands
  obtain ⟨login, back, haccepted, -⟩ := hstands
  obtain ⟨c, -, hlogin, hstate⟩ := h.login_of hf haccepted.took
  rw [haccepted.took, hlogin, Option.some.inj (hled.state.symm.trans hstate)]
  rfl

theorem led_presented (h : Good service s) {i j : Nat} {device : Device} {b : Begin} {t : SignIn}
    {traded : Traded} {random : Text} (hled : Led service s i j k device b f t traded random) :
    t.handoff.map (·.code) = some (service.tokens.hash (mint .handoff random)) := by
  have ht := mem_of_getElem? hled.presented
  obtain ⟨handoff, credentials, hout⟩ := hled.issued
  have hstands := h.devices.stands t ht
  unfold SignIn.Stands at hstands
  rw [hout] at hstands
  obtain ⟨-, -, hcode⟩ := h.handoffs.presented t ht handoff hstands.1.took
  rw [hstands.1.took, ← hled.handedOver, hcode]
  rfl

theorem own (h : Good service s) {i j k i' j' k' : Nat} {device device' : Device}
    (hled : Leads service s i j k device) (hled' : Leads service s i' j' k' device')
    (hsame : i = i' ∨ j = j' ∨ k = k' ∨ device = device') :
    i = i' ∧ j = j' ∧ k = k' ∧ device = device' := by
  obtain ⟨b, f, t, traded, random, hled⟩ := hled
  obtain ⟨b', f', t', traded', random', hled'⟩ := hled'
  obtain ⟨location, hsigned⟩ := hled.signedIn
  obtain ⟨location', hsigned'⟩ := hled'.signedIn
  obtain ⟨handoff, credentials, hout⟩ := hled.issued
  obtain ⟨handoff', credentials', hout'⟩ := hled'.issued
  have hfinish : i = i' → j = j' := by
    rintro rfl
    cases hled.began.symm.trans hled'.began
    exact h.logins.tookOnce j j' f f' _ hled.finished hled'.finished (h.led_took hled)
      (h.led_took hled')
  have hpresent : j = j' → k = k' := by
    rintro rfl
    cases hled.finished.symm.trans hled'.finished
    obtain ⟨-, -, rfl, -⟩ := FinishOut.signedIn.inj (hsigned.symm.trans hsigned')
    exact h.handoffs.presentedOnce k k' t t' _ hled.presented hled'.presented
      (h.led_presented hled) (h.led_presented hled')
  have hadded : k = k' → device = device' := by
    rintro rfl
    cases hled.presented.symm.trans hled'.presented
    exact (SignInOut.issued.inj (hout.symm.trans hout')).2.1
  have hdevice : ∀ {u : SignIn} {x d c}, u.out = .issued x d c →
      u.device.map (·.id) = some d.id := by
    intro u x d c hu
    unfold SignIn.device
    rw [hu]
    rfl
  have hback : device = device' → k = k' := by
    rintro rfl
    exact h.devices.once k k' t t' _ hled.presented hled'.presented (hdevice hout) (hdevice hout')
  have hcode : k = k' → j = j' := by
    rintro rfl
    cases hled.presented.symm.trans hled'.presented
    obtain rfl := mint_inj.mp (hled.handedOver.symm.trans hled'.handedOver)
    have hrandom : ∀ {g : Finish} {a b c d}, g.out = .signedIn a b c d → g.random = some c := by
      intro g a b c d hg
      unfold Finish.random
      rw [hg]
    exact h.finishes.once j j' f f' _ hled.finished hled'.finished (hrandom hsigned)
      (hrandom hsigned')
  have hstate : j = j' → i = i' := by
    rintro rfl
    cases hled.finished.symm.trans hled'.finished
    have heq : b.state = b'.state := Option.some.inj (hled.state.symm.trans hled'.state)
    have hget : (s.begins.map (·.state))[i]? = some b.state := by
      rw [List.getElem?_map, hled.began]
      rfl
    have hget' : (s.begins.map (·.state))[i']? = some b.state := by
      rw [List.getElem?_map, hled'.began, heq]
      rfl
    have hlt := (List.getElem?_eq_some_iff.mp hget).1
    exact (List.getElem?_inj hlt h.begun.once).mp (hget.trans hget'.symm)
  obtain hi | hj | hk | hd := hsame
  · have hj := hfinish hi
    exact ⟨hi, hj, hpresent hj, hadded (hpresent hj)⟩
  · exact ⟨hstate hj, hj, hpresent hj, hadded (hpresent hj)⟩
  · have hj := hcode hk
    exact ⟨hstate hj, hj, hk, hadded hk⟩
  · have hk := hback hd
    exact ⟨hstate (hcode hk), hcode hk, hk, hd⟩

theorem sentBack (h : Good service s) {location : Url} (hf : f ∈ s.finishes)
    (hlocation : location ∈ f.out.location) : SentBack service s f location := by
  have hgoes : ∀ {login back key value}, f.login = some login →
      service.urls.parse login.deviceRedirect = some back →
      (key = "code".toList ∨ key = "error".toList) → location = back.appendPair key value →
      SentBack service s f location := by
    intro login back key value hlogin hback hkey heq
    obtain ⟨b, hb, rfl, hstate⟩ := h.login_of hf hlogin
    obtain ⟨hparsed, hrule⟩ := allowedRedirect_some (h.begun.allowed b hb)
    have hsame := service.urls.parse_asStr _ _ hparsed
    cases hback.symm.trans hsame
    exact ⟨b, hb, hstate, hparsed, hrule, key, value, hkey, heq⟩
  have hstands := h.finishes.stands f hf
  unfold Finish.Stands at hstands
  cases hout : f.out with
  | refused other why =>
    rw [hout] at hstands hlocation
    cases hlocation
    obtain ⟨login, back, value, hlogin, hback, heq⟩ := hstands
    exact hgoes hlogin hback (.inr rfl) heq
  | signedIn traded account random other =>
    rw [hout] at hstands hlocation
    cases hlocation
    obtain ⟨login, back, haccepted, -, heq⟩ := hstands
    exact hgoes haccepted.took haccepted.returns (.inl rfl) heq
  | unknown _ | trading _ _ | naming _ _ | keeping _ _ _ =>
    rw [hout] at hlocation
    cases hlocation

theorem sound (h : Good service s) : Sound service s where
  led _ hdevice := h.led hdevice
  own := h.own
  ids := h.devices.ids
  loginOnce := h.logins.tookOnce
  loginSpent f hf login hlogin := (h.logins.took f hf login hlogin).2.1
  handoffOnce := h.handoffs.presentedOnce
  handoffSpent t ht handoff hhandoff := (h.handoffs.presented t ht handoff hhandoff).2.1
  accounts := h.accounts
  sentBack _ hf _ hlocation := h.sentBack hf hlocation

end Good

/-- **In every run of the sign-in calls** each device goes back to a login, its answer and a
    presentation of its own, and what is presented in any next call is kept no longer. -/
theorem sign_ins_sound (service : Service) {acts : List Act}
    (hrun : run (step service) State.new acts = some s) :
    Sound service s ∧ ∀ act s', step service s act = some s' → Spends service s' act := by
  have hgood : Good service s :=
    run_invariant (fun _ _ _ h hs => (h.step hs).1) hrun Good.new
  exact ⟨hgood.sound, fun act s' hs => (hgood.step hs).2⟩

def textNumber : Text → Nat
  | [] => 0
  | c :: cs => (c.toNat + 1) + 2 ^ 33 * textNumber cs

theorem textNumber_injective : Function.Injective textNumber := by
  intro a b h
  induction a generalizing b with
  | nil =>
    cases b with
    | nil => rfl
    | cons c cs =>
      simp only [textNumber] at h
      omega
  | cons c cs ih =>
    cases b with
    | nil =>
      simp only [textNumber] at h
      omega
    | cons d ds =>
      have hc : c.toNat < 2 ^ 32 := c.val.toNat_lt
      have hd : d.toNat < 2 ^ 32 := d.val.toNat_lt
      simp only [textNumber] at h
      have hhead : c.toNat = d.toNat := by omega
      have htail : textNumber cs = textNumber ds := by omega
      rw [Char.toNat_inj.mp hhead, ih htail]

def exampleVerifier : Text := "dBjftJeZ4CVP-mB92K27uhbUJU1p1r_wW1gFWFOEjXk".toList
def exampleChallenge : Text := "E9Melhoa2OwvFrEMTJguCHaoeK1t8URWbuGJSstw-cM".toList

def appRedirect : Text := "yardsort://signed-in".toList
def appUrl : Url := ⟨"yardsort".toList, [], none, some (.domain "signed-in".toList), none, [], none,
  none⟩

def exampleIssuer : Text := "https://auth.example.com".toList

def exampleService : Service where
  tokens := {
    hash := textNumber
    s256 := fun verifier => if verifier = exampleVerifier then exampleChallenge else verifier
    injective := textNumber_injective }
  jwt := {
    decodeHeader := fun _ => some ⟨.rs256, some "k1".toList⟩
    fromJwk := fun _ => some "n".toList
    decode := fun token _ _ =>
      if token = "token".toList then
        some ⟨exampleIssuer, "ana".toList, .one, 2000, 1000, none, some "nonce".toList, none⟩
      else none }
  urls := {
    parse := fun text => if text = appRedirect then some appUrl else none
    asStr := fun url => if url = appUrl then appRedirect else []
    parse_asStr := by
      intro text url h
      split at h
      · cases h
        rfl
      · cases h }
  provider := ⟨exampleIssuer, "yardsort".toList, none⟩
  callback := appUrl
  redirects := [appUrl]

def exampleRequest : TokenRequest :=
  ⟨mint .handoff "code".toList, exampleVerifier, ⟨"Ana's phone".toList, .phone, .ios⟩⟩

/-- A login is begun, the provider's code traded, and the one-time code presented, twice. -/
def signedIn : List Act :=
  let key : Jwk := ⟨none, none, .rsa "n".toList "e".toList⟩
  [.begins ⟨exampleChallenge, "S256".toList, appRedirect⟩ 1000000 "state".toList "nonce".toList
      "verifier".toList,
    .authorized 0 (.ok appUrl), .finishes (some "c".toList) (some "state".toList) none 1001000,
    .answered 0 (.token "token".toList ⟨.ok (some key), .ok none⟩), .named 0 "account-1",
    .kept 0 "code".toList, .presents exampleRequest 1002000, .presents exampleRequest 1002001,
    .counted 0, .added 0 "device-1" "access".toList "refresh".toList]

theorem sign_ins_sound_once : ∃ s, run (step exampleService) State.new signedIn = some s ∧
    s.devices.length = 1 ∧ s.signIns.length = 2 ∧ Sound exampleService s := by
  have hruns : (run (step exampleService) State.new signedIn).any (fun s =>
      s.devices.length = 1 && s.signIns.length = 2) = true := by
    decide +kernel
  obtain ⟨s, hs, hcounts⟩ := (any_eq_true _ _).mp hruns
  obtain ⟨hdevices, hsignIns⟩ := (Bool.and_eq_true _ _).mp hcounts
  exact ⟨s, hs, of_decide_eq_true hdevices, of_decide_eq_true hsignIns,
    (sign_ins_sound exampleService hs).1⟩

end Yardsort.Server.Login
