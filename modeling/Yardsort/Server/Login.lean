import Yardsort.Lib.Table
import Yardsort.Server.Oidc

/- Signing in (`begin_login`, `finish_login` and `token` of `server/src/service.rs`, over
   `MemoryRecords` of `server/src/records.rs`).

   A call is a row of its own, at the records call or the answer of the provider it waits for; each
   records call is one step, and so is what the code does up to the next one. What `random` and the
   ids' generator give is in the action, and has to be new. A call keeps what it took of the
   records, posted and was answered, so that where a device comes from can be read off the rows. -/
namespace Yardsort.Server.Login
open Yardsort.Lib Yardsort.Server.Oidc
open Yardsort.Server.Credentials (AccountId DeviceKind Platform Device Issued)

def LOGIN_TTL_MS : Int := 10 * 60000
def HANDOFF_TTL_MS : Int := 60000
def ACCESS_TTL_MS : Int := 15 * 60000
def REFRESH_TTL_MS : Int := 90 * 24 * 60 * 60000
def MAX_DEVICES_PER_ACCOUNT : Nat := 50

inductive ErrorCode where
  | invalidRequest
  | unauthenticated
  | forbidden
  | internal
  deriving DecidableEq

structure RemoteError where
  code : ErrorCode
  message : Text
  deriving DecidableEq

def invalid (message : String) : RemoteError := ⟨.invalidRequest, message.toList⟩

def unauthenticated (message : String) : RemoteError := ⟨.unauthenticated, message.toList⟩

def providerUnavailable : RemoteError :=
  ⟨.internal,
    "The server could not reach its identity provider. Try again in a moment.".toList⟩

def unreadable : RemoteError :=
  ⟨.internal, "The server could not read its own records. Try again in a moment.".toList⟩

def CHALLENGE_METHOD : Text := "S256".toList
def CHALLENGE_LEN : Nat := 43
def MIN_VERIFIER_LEN : Nat := 43
def MAX_VERIFIER_LEN : Nat := 128
def MAX_REDIRECT_LEN : Nat := 512
def MAX_SECRET_LEN : Nat := 256
def MAX_TEXT : Nat := 256

def unreserved (text : Text) : Bool :=
  text.all fun c => c.isAlphanum || c = '-' || c = '.' || c = '_' || c = '~'

def isControl (c : Char) : Bool := c.toNat < 0x20 || (0x7F ≤ c.toNat && c.toNat < 0xA0)

structure LoginParams where
  challenge : Text
  challengeMethod : Text
  redirect : Text

def LoginParams.validate (params : LoginParams) : Except RemoteError Unit :=
  if params.challengeMethod ≠ CHALLENGE_METHOD then
    .error (invalid "Only S256 challenges are accepted.")
  else if params.challenge.byteLen ≠ CHALLENGE_LEN || !unreserved params.challenge then
    .error (invalid "The challenge is not an S256 challenge.")
  else if params.redirect = [] || MAX_REDIRECT_LEN < params.redirect.byteLen then
    .error (invalid "The redirect is missing or too long.")
  else .ok ()

structure NewDevice where
  name : Text
  kind : DeviceKind
  platform : Platform

structure TokenRequest where
  code : Text
  verifier : Text
  device : NewDevice

def TokenRequest.validate (request : TokenRequest) : Except RemoteError Unit :=
  let length := request.verifier.byteLen
  let name := Text.trim request.device.name
  if request.code = [] || MAX_SECRET_LEN < request.code.byteLen then
    .error (invalid "The sign-in code is missing or too long.")
  else if length < MIN_VERIFIER_LEN || MAX_VERIFIER_LEN < length ||
      !unreserved request.verifier then
    .error (invalid "The verifier is not a PKCE verifier.")
  else if name = [] || MAX_TEXT < name.length || name.any isControl then
    .error (invalid "A device name is one line of at most 256 characters.")
  else .ok ()

structure Service where
  tokens : Tokens
  jwt : Jwt
  urls : Urls
  provider : ProviderConfig
  callback : Url
  redirects : List Url

def isLoopback (url : Url) : Bool := url.scheme = "http".toList && url.host.any (·.isLoopback)

/-- Exactly the same address, except that a loopback rule matches any port. -/
def redirectMatches (urls : Urls) (rule asked : Url) : Bool :=
  if isLoopback rule && isLoopback asked then
    rule.host = asked.host && rule.path = asked.path && rule.query = asked.query
  else urls.asStr rule = urls.asStr asked

def Service.allowedRedirect (service : Service) (asked : Text) : Option Url := do
  let asked ← service.urls.parse asked
  if asked.fragment.isSome || asked.username ≠ [] || asked.password.isSome then none
  else if service.redirects.any (redirectMatches service.urls · asked) then some asked
  else none

def Service.checkLogin (service : Service) (params : LoginParams) : Except RemoteError Url := do
  params.validate
  match service.allowedRedirect params.redirect with
  | some redirect => .ok redirect
  | none => .error (invalid "This server does not send sign-ins back to that address.")

structure PendingLogin where
  state : TokenHash
  nonce : TokenHash
  providerVerifier : Text
  deviceChallenge : Text
  deviceRedirect : Text
  expiresAt : Int

structure Handoff where
  code : TokenHash
  account : AccountId
  deviceChallenge : Text
  expiresAt : Int

structure CredentialRow where
  hash : TokenHash
  device : String
  expiresAt : Int

structure Credentials where
  device : String
  access : Text
  accessExpiresInMs : Int
  refresh : Text

inductive BeginOut where
  | asking
  | unavailable (error : RemoteError)
  | sent (url : Url)
  deriving DecidableEq

structure Begin where
  params : LoginParams
  now : Int
  redirect : Url
  state : Text
  nonce : Text
  verifier : Text
  out : BeginOut

/-- A code that was traded: what was posted, what came back, and whose it is. -/
structure Traded where
  form : Form
  answer : Answer
  identity : Identity

inductive Why where
  | tookTooLong
  | providerAnswered (error : Text)
  | noCode
  | oidc (error : OidcError)

inductive FinishOut where
  | unknown (error : RemoteError)
  | refused (location : Url) (why : Why)
  | trading (back : Url) (form : Form)
  | naming (back : Url) (traded : Traded)
  | keeping (back : Url) (traded : Traded) (account : AccountId)
  | signedIn (traded : Traded) (account : AccountId) (random : Text) (location : Url)

structure Finish where
  code : Option Text
  state : Option Text
  error : Option Text
  now : Int
  login : Option PendingLogin
  out : FinishOut

inductive SignInOut where
  | refused (error : RemoteError)
  | counting (handoff : Handoff)
  | adding (handoff : Handoff)
  | issued (handoff : Handoff) (device : Device) (credentials : Credentials)

/-- A call of `token` with a code that may be one, and the handoff it took. -/
structure SignIn where
  request : TokenRequest
  now : Int
  handoff : Option Handoff
  out : SignInOut

structure State where
  accounts : List ((Text × Text) × AccountId)
  logins : List PendingLogin
  handoffs : List Handoff
  devices : List Device
  access : List CredentialRow
  refresh : List CredentialRow
  begins : List Begin
  finishes : List Finish
  signIns : List SignIn
  /-- What `random` gave so far. -/
  drawn : List Text

def State.new : State := ⟨[], [], [], [], [], [], [], [], [], []⟩

def errorCode : ErrorCode → Text
  | .unauthenticated => "unauthenticated".toList
  | .invalidRequest => "invalid_request".toList
  | .forbidden | .internal => "internal".toList

def refuse (back : Url) (code : ErrorCode) (why : Why) : FinishOut :=
  .refused (back.appendPair "error".toList (errorCode code)) why

section
variable (service : Service)

def Begin.login (b : Begin) : PendingLogin where
  state := service.tokens.hash b.state
  nonce := service.tokens.hash b.nonce
  providerVerifier := b.verifier
  deviceChallenge := b.params.challenge
  deviceRedirect := service.urls.asStr b.redirect
  expiresAt := b.now + LOGIN_TTL_MS

def finishTaken (login : PendingLogin) (code error : Option Text) (now : Int) : FinishOut :=
  match service.urls.parse login.deviceRedirect with
  | none => .unknown unreadable
  | some back =>
    if login.expiresAt ≤ now then refuse back .unauthenticated .tookTooLong
    else
      match error, code with
      | some error, _ => refuse back .unauthenticated (.providerAnswered (error.take 64))
      | none, none => refuse back .invalidRequest .noCode
      | none, some code =>
        .trading back (form service.provider code service.callback login.providerVerifier)

def unknownLogin : FinishOut :=
  .unknown (unauthenticated
    "This sign-in has expired or was already finished. Start again from the app.")

def finishAnswered (login : PendingLogin) (back : Url) (form : Form) (now : Int)
    (answer : Answer) : FinishOut :=
  match signIn service.tokens service.jwt service.provider login.nonce now answer with
  | .error error => refuse back .unauthenticated (.oidc error)
  | .ok identity => .naming back ⟨form, answer, identity⟩

def codeRefused : RemoteError :=
  unauthenticated "That sign-in code has expired or was already used. Sign in again."

def signInTaken (handoff : Handoff) (request : TokenRequest) (now : Int) : SignInOut :=
  if handoff.expiresAt ≤ now ||
      !service.tokens.verifies handoff.deviceChallenge request.verifier then
    .refused codeRefused
  else .counting handoff

namespace State

def account (s : State) (issuer subject : Text) (id : AccountId) : AccountId × State :=
  match s.accounts.lookup (issuer, subject) with
  | some account => (account, s)
  | none => (id, { s with accounts := s.accounts ++ [((issuer, subject), id)] })

def putLogin (s : State) (login : PendingLogin) (now : Int) : State :=
  { s with logins := s.logins.filter (fun l => now < l.expiresAt) ++ [login] }

def takeLogin (s : State) (state : TokenHash) : Option PendingLogin × State :=
  match s.logins.findIdx? (·.state = state) with
  | none => (none, s)
  | some i => (s.logins[i]?, { s with logins := swapRemove s.logins i })

def putHandoff (s : State) (handoff : Handoff) (now : Int) : State :=
  { s with handoffs := s.handoffs.filter (fun h => now < h.expiresAt) ++ [handoff] }

def takeHandoff (s : State) (code : TokenHash) : Option Handoff × State :=
  match s.handoffs.findIdx? (·.code = code) with
  | none => (none, s)
  | some i => (s.handoffs[i]?, { s with handoffs := swapRemove s.handoffs i })

def signedInDevices (s : State) (account : AccountId) (now : Int) : Nat :=
  (s.devices.filter fun d => d.account = account && d.revoked.isNone &&
    s.refresh.any fun r => r.device = d.id && now < r.expiresAt).length

def addDevice (s : State) (device : Device) (issued : Issued) : State :=
  { s with
    access := s.access ++ [⟨issued.access, device.id, issued.accessExpiresAt⟩]
    refresh := s.refresh ++ [⟨issued.refresh, device.id, issued.refreshExpiresAt⟩]
    devices := s.devices ++ [device] }

def draws (s : State) (random : List Text) : State := { s with drawn := s.drawn ++ random }

def beginLogin (s : State) (params : LoginParams) (now : Int) (redirect : Url)
    (state nonce verifier : Text) : State :=
  let s : State := { s with
    begins := s.begins ++ [⟨params, now, redirect, state, nonce, verifier, .asking⟩] }
  s.draws [state, nonce, verifier]

def loginAuthorized (s : State) (k : Nat) (b : Begin) (endpoint : Except OidcError Url) : State :=
  match endpoint with
  | .error _ =>
    { s with begins := s.begins.set k { b with out := .unavailable providerUnavailable } }
  | .ok endpoint =>
    let url := authorizeUrl service.provider service.urls endpoint service.callback b.state b.nonce
      (service.tokens.s256 b.verifier)
    ({ s with begins := s.begins.set k { b with out := .sent url } } : State).putLogin
      (b.login service) b.now

def finishLogin (s : State) (code state error : Option Text) (now : Int) : State :=
  match state with
  | none => { s with finishes := s.finishes ++ [⟨code, none, error, now, none, unknownLogin⟩] }
  | some state =>
    let (login, s) := s.takeLogin (service.tokens.hash state)
    let out := match login with
      | none => unknownLogin
      | some login => finishTaken service login code error now
    { s with finishes := s.finishes ++ [⟨code, some state, error, now, login, out⟩] }

def loginAnswered (s : State) (k : Nat) (f : Finish) (login : PendingLogin) (back : Url)
    (form : Form) (answer : Answer) : State :=
  let out := finishAnswered service login back form f.now answer
  { s with finishes := s.finishes.set k { f with out := out } }

def loginNamed (s : State) (k : Nat) (f : Finish) (back : Url) (traded : Traded) (id : AccountId) :
    State :=
  let (account, s) := s.account traded.identity.issuer traded.identity.subject id
  { s with finishes := s.finishes.set k { f with out := .keeping back traded account } }

def loginKept (s : State) (k : Nat) (f : Finish) (login : PendingLogin) (back : Url)
    (traded : Traded) (account : AccountId) (random : Text) : State :=
  let code := mint .handoff random
  let handoff : Handoff :=
    ⟨service.tokens.hash code, account, login.deviceChallenge, f.now + HANDOFF_TTL_MS⟩
  let location := back.appendPair "code".toList code
  let s : State := { s with
    finishes := s.finishes.set k { f with out := .signedIn traded account random location } }
  (s.putHandoff handoff f.now).draws [random]

def token (s : State) (request : TokenRequest) (now : Int) (code : TokenHash) : State :=
  let (handoff, s) := s.takeHandoff code
  let out := match handoff with
    | none => .refused codeRefused
    | some handoff => signInTaken service handoff request now
  { s with signIns := s.signIns ++ [⟨request, now, handoff, out⟩] }

def tokenCounted (s : State) (k : Nat) (t : SignIn) (handoff : Handoff) : State :=
  let out : SignInOut :=
    if MAX_DEVICES_PER_ACCOUNT ≤ s.signedInDevices handoff.account t.now then
      .refused ⟨.forbidden, ("This account already has 50 devices signed in. " ++
        "Sign one out from another device, then sign in again.").toList⟩
    else .adding handoff
  { s with signIns := s.signIns.set k { t with out := out } }

def tokenAdded (s : State) (k : Nat) (t : SignIn) (handoff : Handoff) (id : String)
    (access refresh : Text) : State :=
  let device : Device := ⟨id, handoff.account, String.ofList (Text.trim t.request.device.name),
    t.request.device.kind, t.request.device.platform, t.now, none, none⟩
  let access := mint .access access
  let refresh := mint .refresh refresh
  let issued : Issued := ⟨service.tokens.hash access, t.now + ACCESS_TTL_MS,
    service.tokens.hash refresh, t.now + REFRESH_TTL_MS⟩
  let credentials : Credentials := ⟨id, access, ACCESS_TTL_MS, refresh⟩
  { s.addDevice device issued with
    signIns := s.signIns.set k { t with out := .issued handoff device credentials } }

end State

end

inductive Act where
  | begins (params : LoginParams) (now : Int) (state nonce verifier : Text)
  | authorized (k : Nat) (endpoint : Except OidcError Url)
  | finishes (code state error : Option Text) (now : Int)
  | answered (k : Nat) (answer : Answer)
  | named (k : Nat) (id : AccountId)
  | kept (k : Nat) (random : Text)
  | presents (request : TokenRequest) (now : Int)
  | counted (k : Nat)
  | added (k : Nat) (id : String) (access refresh : Text)

def State.Fresh (s : State) (random : List Text) : Prop :=
  random.Nodup ∧ ∀ text ∈ random, text ∉ s.drawn

instance (s : State) (random : List Text) : Decidable (s.Fresh random) :=
  inferInstanceAs (Decidable (_ ∧ _))

def step (service : Service) (s : State) : Act → Option State
  | .begins params now state nonce verifier =>
    match service.checkLogin params with
    | .error _ => some s
    | .ok redirect =>
      if s.Fresh [state, nonce, verifier] then
        some (s.beginLogin params now redirect state nonce verifier)
      else none
  | .authorized k endpoint => do
    let b ← s.begins[k]?
    if b.out = .asking then some (s.loginAuthorized service k b endpoint) else none
  | .finishes code state error now => some (s.finishLogin service code state error now)
  | .answered k answer => do
    let f ← s.finishes[k]?
    match f.out, f.login with
    | .trading back form, some login => some (s.loginAnswered service k f login back form answer)
    | _, _ => none
  | .named k id => do
    let f ← s.finishes[k]?
    match f.out with
    | .naming back traded =>
      if id ∈ s.accounts.map (·.2) then none else some (s.loginNamed k f back traded id)
    | _ => none
  | .kept k random => do
    let f ← s.finishes[k]?
    match f.out, f.login with
    | .keeping back traded account, some login =>
      if s.Fresh [random] then
        some (s.loginKept service k f login back traded account random)
      else none
    | _, _ => none
  | .presents request now =>
    match request.validate, service.tokens.presented .handoff request.code with
    | .ok _, some code => some (s.token service request now code)
    | _, _ => some s
  | .counted k => do
    let t ← s.signIns[k]?
    match t.out with
    | .counting handoff => some (s.tokenCounted k t handoff)
    | _ => none
  | .added k id access refresh => do
    let t ← s.signIns[k]?
    match t.out with
    | .adding handoff =>
      if id ∉ s.devices.map (·.id) ∧ s.Fresh [access, refresh] then
        some ((s.tokenAdded service k t handoff id access refresh).draws [access, refresh])
      else none
    | _ => none

def FinishOut.location : FinishOut → Option Url
  | .refused location _ | .signedIn _ _ _ location => some location
  | .unknown _ | .trading _ _ | .naming _ _ | .keeping _ _ _ => none

section
variable (service : Service)

/-- The calls that led to a device: a login was begun, its state came back before it expired, the
    code that came with it was traded with the login's own verifier for a token with its nonce, and
    the one-time code made of that was given in time, with the verifier the login was begun with. -/
structure Led (s : State) (i j k : Nat) (device : Device) (b : Begin) (f : Finish) (t : SignIn)
    (traded : Traded) (random : Text) : Prop where
  began : s.begins[i]? = some b
  finished : s.finishes[j]? = some f
  presented : s.signIns[k]? = some t
  state : f.state = some b.state
  inTime : f.now < b.now + LOGIN_TTL_MS
  code : f.code = some traded.form.code
  verifier : traded.form.codeVerifier = b.verifier
  accepted : ∃ token lookup, traded.answer = .token token lookup ∧
    verify service.tokens service.jwt service.provider token lookup (service.tokens.hash b.nonce)
      f.now = .ok traded.identity
  account : s.accounts.lookup (traded.identity.issuer, traded.identity.subject) =
    some device.account
  signedIn : ∃ location, f.out = .signedIn traded device.account random location
  handedOver : t.request.code = mint .handoff random
  unexpired : t.now < f.now + HANDOFF_TTL_MS
  challenged : service.tokens.verifies b.params.challenge t.request.verifier = true
  issued : ∃ handoff credentials, t.out = .issued handoff device credentials

def Leads (s : State) (i j k : Nat) (device : Device) : Prop :=
  ∃ b f t traded random, Led service s i j k device b f t traded random

/-- A browser was sent to the redirect its login was begun with, which a rule allows. -/
def SentBack (s : State) (f : Finish) (location : Url) : Prop :=
  ∃ b ∈ s.begins, f.state = some b.state ∧
    service.urls.parse b.params.redirect = some b.redirect ∧
    (∃ rule ∈ service.redirects, redirectMatches service.urls rule b.redirect = true) ∧
    ∃ key value, (key = "code".toList ∨ key = "error".toList) ∧
      location = b.redirect.appendPair key value

/-- Each device goes back to calls of its own, a login and a handoff are taken by one call each and
    are gone then, an account is one identity's, and a browser is sent back where its login said. -/
structure Sound (s : State) : Prop where
  led : ∀ device ∈ s.devices, ∃ i j k, Leads service s i j k device
  own : ∀ {i j k device i' j' k' device'}, Leads service s i j k device →
    Leads service s i' j' k' device' → i = i' ∨ j = j' ∨ k = k' ∨ device = device' →
      i = i' ∧ j = j' ∧ k = k' ∧ device = device'
  ids : (s.devices.map (·.id)).Nodup
  loginOnce : KeyOnce s.finishes fun f => f.login.map (·.state)
  loginSpent : ∀ f ∈ s.finishes, ∀ l ∈ f.login, ∀ l' ∈ s.logins, l'.state ≠ l.state
  handoffOnce : KeyOnce s.signIns fun t => t.handoff.map (·.code)
  handoffSpent : ∀ t ∈ s.signIns, ∀ h ∈ t.handoff, ∀ h' ∈ s.handoffs, h'.code ≠ h.code
  accounts : (s.accounts.map (·.1)).Nodup ∧ (s.accounts.map (·.2)).Nodup
  sentBack : ∀ f ∈ s.finishes, ∀ location ∈ f.out.location, SentBack service s f location

/-- What is presented is kept no longer, whatever comes of it. -/
def Spends (s' : State) : Act → Prop
  | .finishes _ (some state) _ _ => ∀ l ∈ s'.logins, l.state ≠ service.tokens.hash state
  | .presents request _ =>
    request.validate = .ok () → Kind.handoff.marker <+: request.code →
      ∀ h ∈ s'.handoffs, h.code ≠ service.tokens.hash request.code
  | _ => True

end

end Yardsort.Server.Login
