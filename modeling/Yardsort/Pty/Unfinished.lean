import Yardsort.Lib.Bytes

/- The sequence state machine of `pty-host/src/unfinished.rs`: after each byte a
   program prints, whether a character, an escape or control sequence or a string
   is still open, and its bytes.

   It is the DEC ANSI parser's, closely enough for that: `ESC` starts a sequence
   from anywhere, `CAN` and `SUB` cancel, and a C0 control inside an escape or
   control sequence is carried out without ending it. -/
namespace Yardsort.Pty
open Yardsort.Lib

def ESC : UInt8 := 0x1b
def BEL : UInt8 := 0x07
def CAN : UInt8 := 0x18
def SUB : UInt8 := 0x1a
def DEL : UInt8 := 0x7f

namespace Unfinished

def MAX_UNFINISHED : Nat := 4096

inductive State where
  | ground
  /-- Inside a UTF-8 character, with this many continuation bytes still to come. -/
  | utf8 (left : Nat)
  | escape
  | escapeIntermediate
  | csi
  /-- `ESC ]` (`endsOnBel`), or `ESC P`, `ESC X`, `ESC ^`, `ESC _`: until `ESC \`. -/
  | string (endsOnBel : Bool)
  deriving DecidableEq

def ground (byte : UInt8) : State :=
  if 0xc2 ≤ byte ∧ byte ≤ 0xdf then .utf8 1
  else if 0xe0 ≤ byte ∧ byte ≤ 0xef then .utf8 2
  else if 0xf0 ≤ byte ∧ byte ≤ 0xf4 then .utf8 3
  else .ground

def afterEscape (byte : UInt8) : State :=
  if 0x20 ≤ byte ∧ byte ≤ 0x2f then .escapeIntermediate
  else if byte = 0x5b then .csi
  else if byte = 0x5d then .string true
  else if byte = 0x50 ∨ byte = 0x58 ∨ byte = 0x5e ∨ byte = 0x5f then .string false
  else if 0x30 ≤ byte ∧ byte ≤ 0x7e then .ground
  else .escape

/-- The state after `byte`, and whether `byte` begins a new sequence (abandoning
    any open one). -/
def step (state : State) (byte : UInt8) : State × Bool :=
  -- from anywhere: ESC starts a sequence, ending whatever was open; CAN and SUB cancel
  if byte = ESC then (.escape, true)
  else if byte = CAN ∨ byte = SUB then (.ground, true)
  else
    match state with
    | .ground => (ground byte, true)
    | .utf8 left =>
      if 0x80 ≤ byte ∧ byte ≤ 0xbf then (if 1 < left then .utf8 (left - 1) else .ground, false)
      else (ground byte, true)
    | .escape => (afterEscape byte, false)
    | .escapeIntermediate =>
      (if 0x30 ≤ byte ∧ byte ≤ 0x7e then .ground else .escapeIntermediate, false)
    | .csi => (if 0x40 ≤ byte ∧ byte ≤ 0x7e then .ground else .csi, false)
    | .string endsOnBel => (if byte = BEL ∧ endsOnBel then .ground else .string endsOnBel, false)

def isControl (byte : UInt8) : Bool := byte < 0x20

def State.inSequence : State → Bool
  | .escape | .escapeIntermediate | .csi => true
  | _ => false

end Unfinished

/-- The bytes of a sequence a program has begun printing and not finished. -/
structure Unfinished where
  state : Unfinished.State
  bytes : Bytes
  /-- The open sequence outgrew `MAX_UNFINISHED`; only its introducer is kept. -/
  overflowed : Bool

namespace Unfinished

def new : Unfinished := { state := .ground, bytes := [], overflowed := false }

def keep (u : Unfinished) (byte : UInt8) : Unfinished :=
  if u.overflowed then u
  else if u.bytes.length < MAX_UNFINISHED then { u with bytes := u.bytes ++ [byte] }
  else { u with bytes := u.bytes.take 2, overflowed := true }

def feedByte (u : Unfinished) (byte : UInt8) : Unfinished :=
  let (next, restart) := step u.state byte
  if !restart && isControl byte && u.state.inSequence then { u with state := next }
  else if next = .ground then { state := next, bytes := [], overflowed := false }
  else if restart then { state := next, bytes := [], overflowed := false : Unfinished }.keep byte
  else { u with state := next }.keep byte

def feed (u : Unfinished) (data : Bytes) : Unfinished := data.foldl feedByte u

end Unfinished

end Yardsort.Pty
