import Yardsort.Lib.Text

/- Addresses as the `url` crate has them: its parts once parsed, and a pair appended to the query
   as a form would. What parsing and serializing do is a parameter, `Urls`; the one thing relied on
   is that a parsed address reads back as itself. -/
namespace Yardsort.Lib

inductive UrlHost where
  | domain (name : Text)
  | ipv4 (octets : Fin 256 × Fin 256 × Fin 256 × Fin 256)
  | ipv6 (address : BitVec 128)
  deriving DecidableEq

def UrlHost.isLoopback : UrlHost → Bool
  | domain _ => false
  | ipv4 octets => octets.1 = 127
  | ipv6 address => address = 1

structure Url where
  scheme : Text
  username : Text
  password : Option Text
  host : Option UrlHost
  port : Option Nat
  path : Text
  query : Option Text
  fragment : Option Text
  deriving DecidableEq

/-- What the crate parses, and how it writes an address. -/
structure Urls where
  parse : Text → Option Url
  asStr : Url → Text
  parse_asStr : ∀ (text : Text) (url : Url), parse text = some url → parse (asStr url) = some url

def formSafe (c : Char) : Bool := c.isAlphanum || c = '*' || c = '-' || c = '.' || c = '_'

def hexDigit (n : Nat) : Char := if n < 10 then Char.ofNat (48 + n) else Char.ofNat (55 + n)

def formEncode (text : Text) : Text :=
  text.flatMap fun c =>
    if formSafe c then [c]
    else if c = ' ' then ['+']
    else (String.utf8EncodeChar c).flatMap fun byte =>
      ['%', hexDigit (byte.toNat / 16), hexDigit (byte.toNat % 16)]

def Url.appendPair (url : Url) (key value : Text) : Url :=
  let pair := formEncode key ++ '=' :: formEncode value
  { url with query := some (match url.query with
    | none | some [] => pair
    | some query => query ++ '&' :: pair) }

end Yardsort.Lib
