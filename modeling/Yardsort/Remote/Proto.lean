import Yardsort.Lib.JsonSize
import Yardsort.Server.Pairing

/- What every message of the remote protocol is made of (`remote-proto/src/lib.rs`, `ids.rs`,
   `grant.rs` and the texts of `model.rs`): ids, cursors, clipped texts, refusals, and what a
   request may ask for. -/
namespace Yardsort.Remote
open Yardsort.Lib Yardsort.Proto

abbrev ProjectId := Proto.Id
abbrev WorkspaceId := Proto.Id
abbrev SessionRecordId := Proto.Id
abbrev RunId := Proto.Id
abbrev EventId := Proto.Id
export Server (Scope ProjectGrant)

def DEFAULT_PAGE : Nat := 50
def MAX_PAGE : Nat := 200
def MAX_CURSOR_LEN : Nat := 256
def pageSize (limit : Option Nat) : Nat := max 1 (min (limit.getD DEFAULT_PAGE) MAX_PAGE)

def graphicByte (b : UInt8) : Bool := 0x21 ≤ b && b ≤ 0x7e

def checkCursor (text : String) : Except IdError Unit :=
  if utf8 text = [] then .error .empty
  else if MAX_CURSOR_LEN < (utf8 text).length then .error .tooLong
  else if (utf8 text).all graphicByte then .ok ()
  else .error .badCharacter

structure Cursor where
  text : String
  ok : checkCursor text = .ok ()

instance : DecidableEq Cursor := fun a b =>
  decidable_of_iff (a.text = b.text) ⟨fun h => by cases a; cases b; cases h; rfl, congrArg _⟩

def Cursor.new (text : String) : Except IdError Cursor :=
  match h : checkCursor text with
  | .ok () => .ok ⟨text, h⟩
  | .error e => .error e

theorem Cursor.new_ok {text : String} (h : checkCursor text = .ok ()) :
    Cursor.new text = .ok ⟨text, h⟩ := by
  unfold Cursor.new
  split
  · rfl
  · rename_i e heq
    rw [h] at heq
    cases heq

inductive ErrorCode where
  | unauthenticated
  | forbidden
  | notFound
  | sessionEnded
  | controlConflict
  | leaseLost
  | resnapshotRequired
  | cursorExpired
  | rateLimited
  | protocolIncompatible
  | invalidRequest
  | unsupported
  | internal
  deriving DecidableEq

namespace ErrorCode

def retryable (code : ErrorCode) : Bool := code = rateLimited || code = internal

end ErrorCode

structure RemoteError where
  code : ErrorCode
  message : String
  retryable : Bool
  /-- With `protocol_incompatible`: the majors this side speaks. -/
  supportedProtocols : Option (List Nat)
  deriving DecidableEq

abbrev Answer (α : Type) := Except RemoteError α

namespace RemoteError

def new (code : ErrorCode) (message : String) : RemoteError := ⟨code, message, code.retryable, none⟩

def notFound : RemoteError := new .notFound "There is nothing by that id here."

/-- The store would not answer, or holds what is no id. -/
def unreadable : RemoteError :=
  new .internal "The host could not read its own records. Try again in a moment."

def cursorExpired : RemoteError :=
  new .cursorExpired "The list changed since that page. Start again from the top."

end RemoteError

def localId (text : String) : Answer Proto.Id :=
  match Proto.Id.new text with
  | .ok id => .ok id
  | .error _ => .error .unreadable

structure Grant where
  device : DeviceId
  scopes : Finset Scope
  projects : ProjectGrant

namespace Grant

def reaches (grant : Grant) (project : ProjectId) : Bool :=
  match grant.projects with
  | .all => true
  | .only projects => project ∈ projects

end Grant

end Yardsort.Remote
