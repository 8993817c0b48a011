import Yardsort.Pty.Unfinished

/- Terminal queries in a session's output, and the same output without them
   (`pty-host/src/queries.rs`).

   A terminal answers a query by typing into the program, so only one viewer may
   be shown it. `Queries.feed` follows the output batch by batch with the state
   machine of `Unfinished` and says which queries each batch ended; `Scan.without`
   is the batch as every other viewer should see it. A query cut by a batch has
   gone out half-sent: `CAN` stands in place of the rest. -/
namespace Yardsort.Pty
open Yardsort.Lib Unfinished

/-- Longer than any query. A sequence that outgrows this is not one. -/
def MAX_QUERY : Nat := 256

inductive Kind where
  | cursor
  | other
  deriving DecidableEq

/-- One of `<=>?`, which can only come first in a control sequence. -/
def isPrefix (b : UInt8) : Bool := b = 0x3c || b = 0x3d || b = 0x3e || b = 0x3f

def isIntermediate (b : UInt8) : Bool := 0x20 ≤ b && b ≤ 0x2f

/-- A control sequence, after `ESC [`: whether it asks for an answer. -/
def csi (body : Bytes) : Option Kind :=
  match body.getLast? with
  | none => none
  | some last =>
    let rest := body.dropLast
    let mark := rest.head?.filter isPrefix
    let rest := if mark.isSome then rest.tail else rest
    let (params, intermediates) := rest.span (fun b => !isIntermediate b)
    let first := (params.splitOn 0x3b).headD []
    match mark, intermediates, last with
    -- `n`: device status, and where is the cursor
    | none, [], 0x6e => if params = [0x36] then some .cursor else some .other
    | some 0x3f, [], 0x6e => some .other
    -- `c`: device attributes, all three kinds
    | none, [], 0x63 | some 0x3e, [], 0x63 | some 0x3d, [], 0x63 => some .other
    -- `$p`: whether a mode is set
    | none, [0x24], 0x70 | some 0x3f, [0x24], 0x70 => some .other
    -- `t`: window reports
    | none, [], 0x74 =>
      if first ∈ ([[0x31, 0x31], [0x31, 0x33], [0x31, 0x34], [0x31, 0x35], [0x31, 0x36],
          [0x31, 0x38], [0x31, 0x39], [0x32, 0x30], [0x32, 0x31]] : List Bytes)
      then some .other else none
    -- `>q`; `?u`, `?m`, `?S`; `x`
    | some 0x3e, [], 0x71 => some .other
    | some 0x3f, [], 0x75 | some 0x3f, [], 0x6d | some 0x3f, [], 0x53 => some .other
    | none, [], 0x78 => some .other
    -- `$u`, `$w`, `&u`, `*y`, `#|`
    | none, [0x24], 0x75 | none, [0x24], 0x77 | none, [0x26], 0x75 | none, [0x2a], 0x79 =>
      some .other
    | none, [0x23], 0x7c => some .other
    | _, _, _ => none

/-- The colours (4, 5, 10 to 19, 21) and the clipboard (52). -/
def oscCommands : List Bytes :=
  [[0x34], [0x35], [0x31, 0x30], [0x31, 0x31], [0x31, 0x32], [0x31, 0x33], [0x31, 0x34],
    [0x31, 0x35], [0x31, 0x36], [0x31, 0x37], [0x31, 0x38], [0x31, 0x39], [0x32, 0x31],
    [0x35, 0x32]]

/-- An OSC string's body asks when some field after its command is `?` or ends `=?`. -/
def oscAsks (body : Bytes) : Bool :=
  match body.splitOn 0x3b with
  | command :: fields =>
    command ∈ oscCommands && fields.any (fun f => f == [0x3f] || [0x3d, 0x3f].isSuffixOf f)
  | [] => false

/-- Whether a whole sequence, from its `ESC`, asks the terminal for an answer. -/
def classify (sequence : Bytes) : Option Kind :=
  match sequence with
  | _ :: 0x5b :: body => csi body
  | _ :: 0x5d :: body => if oscAsks body then some .other else none
  | _ :: 0x50 :: body =>
    if [0x24, 0x71].isPrefixOf body || [0x2b, 0x71].isPrefixOf body then some .other else none
  | _ :: 0x5a :: body => if body.isEmpty then some .other else none
  | _ => none

structure Queries where
  state : State
  /-- The open sequence's bytes, from its `ESC`, without controls carried out inside it. -/
  opened : Bytes
  overflowed : Bool
  /-- Where the open sequence began in the batch being scanned; `none` when it began in
      an earlier batch, or when no sequence is open. -/
  start : Option Nat
  /-- Controls carried out inside the open sequence, by position in the batch. -/
  kept : List Nat

structure Span where
  start : Nat
  stop : Nat
  /-- It began in an earlier batch, which every viewer has already been sent. -/
  continued : Bool
  kept : List Nat

structure Scan where
  spans : List Span
  cursor : Nat

def Scan.empty : Scan := { spans := [], cursor := 0 }

def Scan.isEmpty (s : Scan) : Bool := s.spans.isEmpty

def withoutFrom (batch : Bytes) : Nat → List Span → Bytes
  | at_, [] => batch.drop at_
  | at_, span :: spans =>
    (batch.drop at_).take (span.start - at_) ++ (if span.continued then [CAN] else []) ++
      span.kept.filterMap (fun k => batch[k]?) ++ withoutFrom batch span.stop spans

def Scan.without (s : Scan) (batch : Bytes) : Bytes := withoutFrom batch 0 s.spans

namespace Queries

def new : Queries :=
  { state := .ground, opened := [], overflowed := false, start := none, kept := [] }

def push (q : Queries) (byte : UInt8) : Queries :=
  if q.opened.length < MAX_QUERY then { q with opened := q.opened ++ [byte] }
  else { q with overflowed := true }

def forget (q : Queries) : Queries :=
  { q with opened := [], overflowed := false, start := none, kept := [] }

/-- What byte `i` of the batch adds to the open sequence, and where in the batch the
    sequence ended, if this byte ended one. -/
def follow (q : Queries) (i : Nat) (byte : UInt8) : Option Nat × Queries :=
  let (next, restart) := step q.state byte
  let after := { q with state := next }
  match q.state with
  | .string endsOnBel =>
    if byte = BEL ∧ endsOnBel then (some (i + 1), after)
    -- the `ESC` of a string's `ESC \` ends it, and stays
    else if byte = ESC then (some i, after)
    else if byte = CAN ∨ byte = SUB then (none, after.forget)
    else (none, after.push byte)
  | .escape | .escapeIntermediate | .csi =>
    -- abandoned for whatever comes next: never a query
    if restart then (none, after.forget)
    else if next = .ground then (some (i + 1), after.push byte)
    else if byte < 0x20 then (none, { after with kept := after.kept ++ [i] })
    else (none, if byte ≠ DEL then after.push byte else after)
  | .ground | .utf8 _ => (none, after)

/-- The query a sequence that ended is, if it is one. -/
def recognised (q : Queries) : Option Kind :=
  if q.overflowed then none else classify q.opened

def complete (q : Queries) (scan : Scan) (stop : Nat) : Queries × Scan :=
  match q.recognised with
  | none => (q.forget, scan)
  | some kind =>
    let span : Span :=
      { start := q.start.getD 0, stop := stop, continued := q.start.isNone, kept := q.kept }
    (q.forget,
      { spans := scan.spans ++ [span], cursor := scan.cursor + if kind = .cursor then 1 else 0 })

def open_ (q : Queries) (i : Nat) (byte : UInt8) : Queries :=
  if byte = ESC then { q with opened := q.opened ++ [ESC], start := some i } else q

/-- Byte `i` of the batch, with what was found before it. -/
def feedByte (q : Queries) (scan : Scan) (i : Nat) (byte : UInt8) : Queries × Scan :=
  let (ended, q) := q.follow i byte
  let (q, scan) :=
    match ended with
    | none => (q, scan)
    | some stop => q.complete scan stop
  (q.open_ i byte, scan)

def feedFrom (q : Queries) (scan : Scan) : Nat → Bytes → Queries × Scan
  | _, [] => (q, scan)
  | i, byte :: batch =>
    let (q, scan) := q.feedByte scan i byte
    feedFrom q scan (i + 1) batch

/-- Follow `batch`, the next piece of the session's output, and say which queries it ended. -/
def feed (q : Queries) (batch : Bytes) : Queries × Scan :=
  feedFrom { q with start := none, kept := [] } Scan.empty 0 batch

end Queries

/-- A whole escape or control sequence, from its `ESC`, in the shape of an answer. -/
def answer (sequence : Bytes) : Bool :=
  match sequence with
  | [0x1b, 0x5c] => true
  | 0x1b :: 0x5b :: body =>
    match body.getLast? with
    | some 0x52 | some 0x63 | some 0x6e | some 0x79 | some 0x74 | some 0x78 | some 0x7c => true
    | some 0x75 => body.dropLast.head? = some 0x3f
    | some 0x6d => body.dropLast.head? = some 0x3e
    | _ => false
  | _ => false

/-- `isReply`'s loop, with the state, the open sequence and the answers counted so far. -/
def isReplyFrom (state : State) (sequence : Bytes) (replies : Nat) : Bytes → Bool
  | [] => decide (0 < replies) && (decide (state = .ground) || sequence == [ESC])
  | byte :: input =>
    let (next, restart) := step state byte
    let restarted (s : Bytes) : Bytes := if byte = ESC then [ESC] else s
    match state with
    | .ground | .utf8 _ =>
      if byte ≠ ESC then false else isReplyFrom next (restarted (sequence ++ [byte])) replies input
    | .string endsOnBel =>
      if byte = ESC ∨ (endsOnBel ∧ byte = BEL) then
        isReplyFrom next (restarted []) (replies + 1) input
      else isReplyFrom next (restarted (sequence ++ [byte])) replies input
    | .escape | .escapeIntermediate | .csi =>
      if restart then false
      else if next = .ground then
        if answer (sequence ++ [byte]) then isReplyFrom next (restarted []) (replies + 1) input
        else false
      else isReplyFrom next (restarted (sequence ++ [byte])) replies input

def isReply (input : Bytes) : Bool := isReplyFrom .ground [] 0 input

end Yardsort.Pty
