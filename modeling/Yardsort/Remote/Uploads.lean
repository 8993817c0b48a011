import Mathlib.Data.List.AList
import Mathlib.Logic.Function.Basic
import Yardsort.Lib.Run
import Yardsort.Remote.Requests

/- Uploads on a device's channel (`Visitor::start` and `Visitor::chunk` of
   `core/src/remote/serve/start.rs`, `Visitor::close` of `serve.rs` and `new_upload` of `start.rs`).

   What `base64` makes of a piece is the parameter `decode`. Where a new file comes to be, which old
   ones are forgotten then, and whether a write or a sync succeeds, are in the request. The grant is
   taken to allow it. -/
namespace Yardsort.Remote.Uploads
open Yardsort.Lib

structure Uploading where
  path : String
  size : Nat
  written : Nat

structure Visitor where
  uploads : AList fun _ : UInt32 => Uploading
  /-- How many were begun. Numbers go on from 1, as far as they go. -/
  begun : Nat
  files : String → Option Bytes

inductive Reply where
  | upload (n : UInt32)
  | done
  | uploaded (n : UInt32) (path : String)

inductive Ask where
  /-- `path` is where the file was made, if it was, and `forgotten` are those older than
      `UPLOADS_KEPT`. -/
  | begin (params : UploadBeginParams) (path : Option String) (forgotten : List String)
  | chunk (params : UploadChunkParams) (kept synced : Bool)
  | close

/-- How many uploads were begun before the one of this number. -/
def place (n : UInt32) : Nat := (n - 1).toNat

theorem place_number {begun : Nat} (h : begun < 2 ^ 32) : place (UInt32.ofNat (begun + 1)) = begun := by
  have hless : UInt32.ofNat (begun + 1) - 1 = UInt32.ofNat begun := by
    rw [UInt32.ofNat_add]
    exact UInt32.add_sub_cancel ..
  rw [place, hless, UInt32.toNat_ofNat_of_lt' h]

def unkept : RemoteError := .new .internal "The computer could not keep the file."

namespace Visitor

def new : Visitor := ⟨∅, 0, fun _ => none⟩

def abandon (v : Visitor) (n : UInt32) (u : Uploading) : Visitor :=
  { v with uploads := v.uploads.erase n, files := Function.update v.files u.path none }

def forget (v : Visitor) (forgotten : List String) : Visitor :=
  { v with files := fun path => if path ∈ forgotten then none else v.files path }

def begin (v : Visitor) (params : UploadBeginParams) (path : Option String)
    (forgotten : List String) : Visitor × Answer Reply :=
  if MAX_UPLOADS ≤ v.uploads.entries.length then
    (v, .error (.new .rateLimited "Too many uploads at once. Wait for one to finish."))
  else
    let v := v.forget forgotten
    match path with
    | none => (v, .error unkept)
    | some path =>
      let n := UInt32.ofNat (v.begun + 1)
      ({ uploads := v.uploads.insert n ⟨path, params.size.toNat, 0⟩
         begun := v.begun + 1
         files := Function.update v.files path (some []) }, .ok (.upload n))

variable (decode : String → Option Bytes)

def chunk (v : Visitor) (params : UploadChunkParams) (kept synced : Bool) :
    Visitor × Answer Reply :=
  let n := params.upload
  match v.uploads.lookup n with
  | none => (v, .error .notFound)
  | some u =>
    match decode params.data with
    | none => (v, .error (.new .invalidRequest "That piece is not base64."))
    | some bytes =>
      if params.offset.toNat ≠ u.written then
        (v.abandon n u, .error (.new .invalidRequest
          "That piece came out of order. Upload the file again."))
      else if u.size < u.written + bytes.length then
        (v.abandon n u, .error (.new .invalidRequest "That is more than the file was said to be."))
      else if !kept then (v.abandon n u, .error unkept)
      else
        let written := u.written + bytes.length
        let files := Function.update v.files u.path ((v.files u.path).map (· ++ bytes))
        if written < u.size then
          ({ v with uploads := v.uploads.insert n { u with written }, files }, .ok .done)
        else if synced then ({ v with uploads := v.uploads.erase n, files }, .ok (.uploaded n u.path))
        else (v.abandon n u, .error unkept)

def close (v : Visitor) : Visitor :=
  { v with
    uploads := ∅
    files := fun path =>
      if v.uploads.entries.any fun e => e.2.path = path then none else v.files path }

/-- What a request is answered: its bounds are checked first. -/
def answer (v : Visitor) : Ask → Visitor × Answer Reply
  | .begin params path forgotten =>
    match params.validate with
    | .error e => (v, .error e)
    | .ok () => v.begin params path forgotten
  | .chunk params kept synced =>
    match params.validate with
    | .error e => (v, .error e)
    | .ok () => v.chunk decode params kept synced
  | .close => (v.close, .ok .done)

end Visitor

end Yardsort.Remote.Uploads
