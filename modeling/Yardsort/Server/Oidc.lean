import Yardsort.Lib.Fallible
import Yardsort.Lib.Url
import Yardsort.Server.Credentials

/- The server's one-time values (`server/src/tokens.rs`) and the identity provider it signs people
   in with (`server/src/oidc.rs`).

   The provider's answers are data: what its token endpoint gave back, and what looking a key up
   came to. SHA-256 is a parameter of which only injectivity is relied on, and `jsonwebtoken` one of
   which nothing is: what it decodes is checked here. -/
namespace Yardsort.Server.Oidc
open Yardsort.Lib

export Credentials (TokenHash)

structure Tokens where
  hash : Text → TokenHash
  s256 : Text → Text
  injective : Function.Injective hash

inductive Kind where
  | access
  | refresh
  | handoff
  | offer
  | ticket

def Kind.marker : Kind → Text
  | access => "ys1.at.".toList
  | refresh => "ys1.rt.".toList
  | handoff => "ys1.hc.".toList
  | offer => "ys1.po.".toList
  | ticket => "ys1.rl.".toList

def mint (kind : Kind) (random : Text) : Text := kind.marker ++ random

theorem mint_inj {kind : Kind} {a b : Text} : mint kind a = mint kind b ↔ a = b :=
  List.append_right_inj kind.marker

namespace Tokens

def presented (tokens : Tokens) (kind : Kind) (text : Text) : Option TokenHash :=
  if kind.marker <+: text then some (tokens.hash text) else none

def verifies (tokens : Tokens) (challenge verifier : Text) : Bool :=
  tokens.s256 verifier = challenge

end Tokens

def CLOCK_LEEWAY_MS : Int := 60000

structure ProviderConfig where
  issuer : Text
  clientId : Text
  clientSecret : Option Text

inductive OidcError where
  | unreachable (why : Text)
  | misconfigured (why : Text)
  | refused (why : Text)
  | rejected (why : Text)

structure Identity where
  issuer : Text
  subject : Text

inductive Algorithm where
  | hs256 | hs384 | hs512
  | es256 | es384
  | rs256 | rs384 | rs512
  | ps256 | ps384 | ps512
  | edDsa
  deriving DecidableEq

inductive EllipticCurve where
  | p256 | p384 | p521 | ed25519

inductive AlgorithmParameters where
  | rsa (n e : Text)
  | ellipticCurve (curve : EllipticCurve) (x y : Text)
  | octetKey (value : Text)
  | octetKeyPair (curve : EllipticCurve) (x : Text)

inductive PublicKeyUse where
  | signature
  | encryption
  | other (use : Text)
  deriving DecidableEq

inductive KeyAlgorithm where
  | rs256
  | es256
  | other (name : Text)

structure Jwk where
  publicKeyUse : Option PublicKeyUse
  keyAlgorithm : Option KeyAlgorithm
  algorithm : AlgorithmParameters

def algorithmFor (jwk : Jwk) : Option Algorithm :=
  if jwk.publicKeyUse.any (· ≠ .signature) then none
  else
    let algorithm : Option Algorithm :=
      match jwk.algorithm with
      | .rsa _ _ => some .rs256
      | .ellipticCurve .p256 _ _ => some .es256
      | .ellipticCurve _ _ _ | .octetKey _ | .octetKeyPair _ _ => none
    algorithm.filter fun algorithm =>
      match jwk.keyAlgorithm with
      | none => true
      | some .rs256 => algorithm = .rs256
      | some .es256 => algorithm = .es256
      | some (.other _) => false

structure Header where
  alg : Algorithm
  kid : Option Text

inductive Audience where
  | one
  | many (n : Nat)

def Audience.len : Audience → Nat
  | one => 1
  | many n => n

structure Claims where
  iss : Text
  sub : Text
  aud : Audience
  exp : Int
  iat : Int
  nbf : Option Int
  nonce : Option Text
  azp : Option Text

/-- What `decode` is told to require: how the token is signed, by whom issued and for whom. -/
structure Validation where
  algorithm : Algorithm
  issuer : Text
  audience : Text

abbrev DecodingKey := Text

structure Jwt where
  decodeHeader : Text → Option Header
  fromJwk : Jwk → Option DecodingKey
  decode : Text → DecodingKey → Validation → Option Claims

/-- What saturates at the ends of an `i64`. -/
def saturate (n : Int) : Int := max (-2 ^ 63) (min n (2 ^ 63 - 1))

def inMs (seconds : Int) : Int := saturate (seconds * 1000)

/-- The key a token names, looked up as kept and, not found there, once more. -/
structure KeyLookup where
  kept : Except OidcError (Option Jwk)
  refetched : Except OidcError (Option Jwk)

def KeyLookup.key (lookup : KeyLookup) : Except OidcError Jwk := do
  match ← lookup.kept with
  | some jwk => .ok jwk
  | none =>
    match ← lookup.refetched with
    | some jwk => .ok jwk
    | none => .error (.rejected "signed by a key the provider does not publish".toList)

def require (holds : Bool) (why : String) : Except OidcError Unit :=
  if holds then .ok () else .error (.rejected why.toList)

/-- The token was issued to this client. -/
def checkAzp (config : ProviderConfig) (claims : Claims) : Except OidcError Unit :=
  match claims.azp with
  | some azp => require (azp = config.clientId) "issued to another client"
  | none => require (claims.aud.len ≤ 1) "several audiences and no azp"

def checkClaims (tokens : Tokens) (config : ProviderConfig) (claims : Claims) (nonce : TokenHash)
    (now : Int) : Except OidcError Identity := do
  require (claims.iss = config.issuer) "issuer"
  require (now < saturate (inMs claims.exp + CLOCK_LEEWAY_MS)) "expired"
  require (saturate (inMs claims.iat - CLOCK_LEEWAY_MS) ≤ now) "issued in the future"
  require (claims.nbf.all fun nbf => saturate (inMs nbf - CLOCK_LEEWAY_MS) ≤ now) "not valid yet"
  checkAzp config claims
  match claims.nonce with
  | none => .error (.rejected "no nonce".toList)
  | some sent =>
    require (tokens.hash sent = nonce) "nonce"
    require (claims.sub ≠ [] && claims.sub.byteLen ≤ 255) "subject"
    .ok ⟨claims.iss, claims.sub⟩

def verify (tokens : Tokens) (jwt : Jwt) (config : ProviderConfig) (token : Text)
    (lookup : KeyLookup) (nonce : TokenHash) (now : Int) : Except OidcError Identity := do
  let some header := jwt.decodeHeader token | .error (.rejected "malformed".toList)
  require header.kid.isSome "no key id"
  let jwk ← lookup.key
  let some algorithm := algorithmFor jwk | .error (.rejected "unsupported key".toList)
  require (header.alg = algorithm) "algorithm does not match the key"
  let some key := jwt.fromJwk jwk | .error (.rejected "unusable key".toList)
  let some claims := jwt.decode token key ⟨algorithm, config.issuer, config.clientId⟩
    | .error (.rejected "signature, issuer or audience".toList)
  checkClaims tokens config claims nonce now

structure Form where
  code : Text
  redirectUri : Url
  codeVerifier : Text
  clientId : Option Text

def form (config : ProviderConfig) (code : Text) (redirectUri : Url) (verifier : Text) : Form where
  code := code
  redirectUri := redirectUri
  codeVerifier := verifier
  clientId := if config.clientSecret.isSome then none else some config.clientId

/-- What came of posting it, with the ID token where there is one. -/
inductive Answer where
  /-- The token endpoint was not known. -/
  | undiscovered (error : OidcError)
  | unreachable (why : Text)
  | refused (status error : Text)
  | noResponse
  | noToken
  | token (token : Text) (lookup : KeyLookup)

def signIn (tokens : Tokens) (jwt : Jwt) (config : ProviderConfig) (nonce : TokenHash) (now : Int) :
    Answer → Except OidcError Identity
  | .undiscovered error => .error error
  | .unreachable why => .error (.unreachable why)
  | .refused status error => .error (.refused (status ++ ": ".toList ++ error))
  | .noResponse => .error (.refused "the answer was not a token response".toList)
  | .noToken => .error (.refused "the answer had no ID token".toList)
  | .token token lookup => verify tokens jwt config token lookup nonce now

def authorizeUrl (config : ProviderConfig) (urls : Urls) (endpoint callback : Url)
    (state nonce challenge : Text) : Url :=
  [("response_type".toList, "code".toList), ("client_id".toList, config.clientId),
    ("redirect_uri".toList, urls.asStr callback), ("scope".toList, "openid".toList),
    ("state".toList, state), ("nonce".toList, nonce), ("code_challenge".toList, challenge),
    ("code_challenge_method".toList, "S256".toList)].foldl
      (fun url pair => url.appendPair pair.1 pair.2) endpoint

theorem signIn_ok {tokens : Tokens} {jwt : Jwt} {config : ProviderConfig} {nonce : TokenHash}
    {now : Int} {answer : Answer} {identity : Identity}
    (h : signIn tokens jwt config nonce now answer = .ok identity) :
    ∃ token lookup, answer = .token token lookup ∧
      verify tokens jwt config token lookup nonce now = .ok identity := by
  cases answer with
  | token token lookup => exact ⟨token, lookup, rfl, h⟩
  | undiscovered _ | unreachable _ | refused _ _ | noResponse | noToken => cases h

end Yardsort.Server.Oidc
