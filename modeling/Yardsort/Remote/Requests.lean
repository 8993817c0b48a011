import Yardsort.Lib.Text
import Yardsort.Remote.Model

/- What a device may ask of a host's lists and of its uploads (`remote-proto/src/lib.rs` and
   `start.rs`), and the bounds a request must meet. -/
namespace Yardsort.Remote
open Yardsort.Lib Yardsort.Proto

def MAX_UPLOAD : Nat := 20 * 1024 * 1024
def MAX_UPLOAD_CHUNK : Nat := 32 * 1024
def MAX_UPLOAD_NAME : Nat := 128
def MAX_UPLOADS : Nat := 4

structure ActivityListParams where
  workspace : WorkspaceId
  session : Option SessionRecordId
  cursor : Option Cursor
  limit : Option Nat

structure ActivitySubscribeParams where
  workspace : Option WorkspaceId
  session : Option SessionRecordId
  /-- Only what is recorded from now on, without one. -/
  after : Option Cursor

structure UploadBeginParams where
  workspace : WorkspaceId
  name : String
  size : UInt64

structure UploadChunkParams where
  upload : UInt32
  offset : UInt64
  data : String

def invalid (message : String) : Answer Unit := .error (.new .invalidRequest message)

def UploadBeginParams.validate (p : UploadBeginParams) : Answer Unit :=
  if p.size = 0 ∨ MAX_UPLOAD < p.size.toNat then
    invalid "A file to upload is from 1 byte to 20 MB."
  else if p.name = "" ∨ MAX_UPLOAD_NAME < p.name.toList.length then
    invalid "That is not a file name an upload may give."
  else .ok ()

def base64Byte (b : UInt8) : Bool :=
  (0x61 ≤ b && b ≤ 0x7a) || (0x41 ≤ b && b ≤ 0x5a) || (0x30 ≤ b && b ≤ 0x39) || b = 0x2b || b = 0x2f

def unpadded (data : Bytes) : Bytes :=
  if [0x3d, 0x3d].isSuffixOf data then data.take (data.length - 2)
  else if [0x3d].isSuffixOf data then data.take (data.length - 1)
  else data

/-- Shape only: the host decodes it. -/
def UploadChunkParams.validate (p : UploadChunkParams) : Answer Unit :=
  let data := utf8 p.data
  if data = [] ∨ (MAX_UPLOAD_CHUNK + 2) / 3 * 4 < data.length then
    invalid "A piece of an upload carries from 1 byte to 32 KB."
  else if data.length % 4 ≠ 0 ∨ !(unpadded data).all base64Byte then
    invalid "That piece is not base64."
  else .ok ()

end Yardsort.Remote
