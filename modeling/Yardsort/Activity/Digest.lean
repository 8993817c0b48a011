import Yardsort.Activity.Stamps
import Yardsort.Lib.Budget

/- The conversation digest (`select`, `render` and what they write with,
   `core/src/activity/digest.rs`): the turns of a workspace's conversations, fitted into a budget of
   characters.

   What is chosen is a form for each turn of each wanted conversation, named by its two places; the
   three passes of `select` are the offers they make, in their order. Counting stops where `usize`
   would underflow (`Budget.pick`); turns are fewer than 2^32. -/
namespace Yardsort.Activity.Digest
open Yardsort.Lib Stamps

def RECENT_TURNS : Nat := 5
def FIRST_CHARS : Nat := 2000
def OLDER_USER_CHARS : Nat := 1000
def OLDER_REPLY_CHARS : Nat := 600

structure Turn where
  at_ : Int
  user : Text
  said : List Text
  deriving DecidableEq

def Turn.reply (turn : Turn) : Option Text := turn.said.getLast?

structure Conversation where
  id : Text
  harness : Text
  model : Option Text
  startedAt : Int
  running : Bool
  forkedFrom : Option Text
  turns : List Turn
  unreadable : Option Text

structure Options where
  budget : Nat
  conversation : Option Text
  since : Option Int

structure ShownTurn where
  n : Nat
  at_ : Int
  user : Text
  reply : Option Text
  shortened : Bool

structure Shown where
  id : Text
  harness : Text
  model : Option Text
  startedAt : Int
  lastTurnAt : Option Int
  running : Bool
  forkedFrom : Option Text
  turnCount : Nat
  turns : List ShownTurn
  omitted : List Nat
  unreadable : Option Text

/-- `str::lines`: a carriage return before a line's end is not the line's. -/
def lines (text : Text) : List Text :=
  let pieces := text.splitOn '\n'
  let whole := pieces.dropLast.map fun line =>
    if line.getLast? = some '\r' then line.dropLast else line
  whole ++ (pieces.getLast?.filter (· ≠ [])).toList

def trimEnd (text : Text) : Text := (Text.trimStart text.reverse).reverse

def FENCE : Text := "```".toList

/-- Where the last white space near the end is, if there is any. -/
def nearEnd (kept : Text) : Option Nat :=
  ((kept.reverse.take 80).findIdx? Text.isWhitespace).map fun back => kept.length - 1 - back

/-- At most `max` characters, cut at a space near the end when there is one, marked with `…`, and
    with a code fence closed if the cut left one open. -/
def cut (text : Text) (max : Nat) : Text :=
  if text.length ≤ max then text
  else
    let kept := text.take max
    let kept := match nearEnd kept with
      | some at_ => kept.take at_
      | none => kept
    let kept := trimEnd kept ++ ['…']
    let fences := (lines kept).countP fun line => FENCE.isPrefixOf (Text.trimStart line)
    if fences % 2 = 1 then kept ++ '\n' :: FENCE else kept

def quote (text : Text) : Text :=
  (lines text).flatMap fun line => if line = [] then ">\n".toList else "> ".toList ++ line ++ ['\n']

def number (n : Nat) : Text := Nat.toDigits 10 n

def shortId (id : Text) : Text := (sliceTo 8 id).getD id

def agent (harness : Text) (model : Option Text) : Text :=
  match model with
  | some model => harness ++ " (".toList ++ model ++ [')']
  | none => harness

def renderHeader (shown : Shown) (level : Nat) : Text :=
  List.replicate level '#' ++ ' ' :: agent shown.harness shown.model ++
    " · conversation ".toList ++ shown.id ++
  -- A conversation that could not be read has no count to give.
  (match shown.turnCount, shown.unreadable with
    | 0, some _ => []
    | 1, _ => " · 1 turn".toList
    | n, _ => " · ".toList ++ number n ++ " turns".toList) ++
  " · started ".toList ++ when_ shown.startedAt ++
  (match shown.lastTurnAt with
    | some last => " · last turn ".toList ++ when_ last
    | none => []) ++
  (if shown.running then " · running" else " · ended").toList ++ "\n\n".toList ++
  (match shown.forkedFrom with
    | some from_ => "Forked from conversation ".toList ++ from_ ++
        ": the turns before the fork are that one's.\n\n".toList
    | none => []) ++
  (match shown.unreadable with
    | some why => "Its conversation is not here: ".toList ++ why ++ ".\n\n".toList
    | none => [])

def LEFT_OUT : Text := "\nThe reply is left out, to keep this short.\n".toList
def NO_REPLY : Text := "\nNo reply yet.\n".toList

def renderReply (turn : ShownTurn) : Text :=
  match turn.reply with
  | some reply => "\nAgent:\n".toList ++ quote reply
  | none => if turn.shortened then LEFT_OUT else NO_REPLY

def renderTurn (turn : ShownTurn) (level : Nat) : Text :=
  List.replicate level '#' ++ " Turn ".toList ++ number turn.n ++ " · ".toList ++ when_ turn.at_ ++
    "\n\nUser:\n".toList ++ quote turn.user ++ renderReply turn ++ ['\n']

def ranges : List Nat → List (Nat × Nat)
  | [] => []
  | n :: rest =>
    match ranges rest with
    | (start, end_) :: more =>
      if start = n + 1 then (n, end_) :: more else (n, n) :: (start, end_) :: more
    | [] => [(n, n)]

def renderRanges (numbers : List Nat) : Text :=
  ", ".toList.intercalate ((ranges numbers).map fun (start, end_) =>
    if start = end_ then number start else number start ++ '–' :: number end_)

def renderOmitted (shown : Shown) : Text :=
  if shown.omitted = [] then []
  else "\nNot shown, to keep this short: ".toList ++
    (if shown.omitted.length = 1 then "turn" else "turns").toList ++ ' ' ::
    renderRanges shown.omitted ++ ". `ys workspace context --conversation ".toList ++ shown.id ++
    " --turn N` shows one whole.\n".toList

/-- The conversations, each under a heading of `level`, its turns one below. -/
def renderConversations (level : Nat) : List Shown → Text → Text
  | [], out => out
  | shown :: rest, out =>
    let out := if "\n\n".toList <:+ out then out else out ++ ['\n']
    renderConversations level rest (out ++ renderHeader shown level ++
      shown.turns.flatMap (renderTurn · (level + 1)) ++ renderOmitted shown)

def PREAMBLE : Text :=
  ("# What was said in this workspace\n\n" ++
    "Yardsort read this from each agent's own transcript: every message the user typed, and " ++
    "the agent's reply at the end of each turn, newest turn first. Tool calls, their output " ++
    "and the agents' reasoning are left out; read the files for the state of the work. " ++
    "Times are UTC.\n").toList

def render (digest : List Shown) : Text :=
  if digest = [] then
    PREAMBLE ++ "\nNo other conversation in this workspace has said anything yet.\n".toList
  else renderConversations 2 digest PREAMBLE

inductive Form where
  | user (n : Nat)
  | both (user reply : Nat)
  | whole

def Form.le : Form → Form → Bool
  | user n, user m => n ≤ m
  | user _, _ => true
  | both _ _, user _ => false
  | both u r, both u' r' => u < u' || (u = u' && r ≤ r')
  | both _ _, whole => true
  | whole, whole => true
  | whole, _ => false

instance : LE Form := ⟨fun a b => a.le b = true⟩

instance : DecidableLE Form := fun a b => inferInstanceAs (Decidable (a.le b = true))

def shownTurn (n : Nat) (turn : Turn) (form : Form) : ShownTurn :=
  let (user, reply) := match form with
    | .whole => (turn.user, turn.reply)
    | .both u r => (cut turn.user u, turn.reply.map (cut · r))
    | .user u => (cut turn.user u, none)
  ⟨n, turn.at_, user, reply, user ≠ turn.user || reply ≠ turn.reply⟩

def header (c : Conversation) (omitted : List Nat) : Shown :=
  ⟨shortId c.id, c.harness, c.model, c.startedAt, c.turns.getLast?.map (·.at_), c.running,
    c.forkedFrom.map shortId, c.turns.length, [], omitted, c.unreadable⟩

def wanted (conversations : List Conversation) (conversation : Option Text) : List Conversation :=
  conversations.filter fun c => conversation.all (·.isPrefixOf c.id)

def eligible (since : Option Int) (c : Conversation) (i : Nat) : Bool :=
  c.turns[i]?.any fun turn => since.all (· ≤ turn.at_)

/-- A turn of a wanted conversation, by the place of both. -/
abbrev Place := Nat × Nat

def cost (wanted : List Conversation) (place : Place) (form : Form) : Nat :=
  ((wanted[place.1]?.bind (·.turns[place.2]?)).map fun turn =>
    (renderTurn (shownTurn (place.2 + 1) turn form) 2).length).getD 0

def older : List Form := [.both OLDER_USER_CHARS OLDER_REPLY_CHARS, .user OLDER_USER_CHARS]
def recent : List Form := .whole :: older
/-- The first message keeps its longer cut when it gains its reply. -/
def first : List Form := [.both FIRST_CHARS OLDER_REPLY_CHARS, .user FIRST_CHARS]

def recentFrom (c : Conversation) : Nat := c.turns.length - RECENT_TURNS

def tasks (since : Option Int) (wanted : List Conversation) : List (Offer Place Form) :=
  wanted.zipIdx.filterMap fun (c, ci) =>
    if c.turns ≠ [] ∧ eligible since c 0 ∧ RECENT_TURNS < c.turns.length then
      some ⟨(ci, 0), [.user FIRST_CHARS]⟩
    else none

def newest (since : Option Int) (wanted : List Conversation) : List (Offer Place Form) :=
  wanted.zipIdx.flatMap fun (c, ci) =>
    (((List.range c.turns.length).drop (recentFrom c)).reverse.filter (eligible since c)).map
      fun i => ⟨(ci, i), recent⟩

def olders (since : Option Int) (wanted : List Conversation) : List (Offer Place Form) :=
  wanted.zipIdx.flatMap fun (c, ci) =>
    ((List.range (recentFrom c)).reverse.filter (eligible since c)).map
      fun i => ⟨(ci, i), if i = 0 then first else older⟩

def choose (budget : Nat) (since : Option Int) (wanted : List Conversation) :
    Option (Choice Place Form) :=
  Budget.offers (cost wanted) budget
    ⟨fun _ => none, (wanted.map fun c => (renderHeader (header c []) 2).length).sum⟩
    (tasks since wanted ++ (newest since wanted ++ olders since wanted))

def show_ (since : Option Int) (chosen : Nat → Option Form) (c : Conversation) : Shown :=
  let turns := (List.range c.turns.length).reverse.filterMap fun i =>
    (chosen i).bind fun form => c.turns[i]?.map fun turn => shownTurn (i + 1) turn form
  let omitted := (List.range c.turns.length).filter fun i => chosen i = none && eligible since c i
  { header c (omitted.map (· + 1)) with turns }

def select (conversations : List Conversation) (options : Options) : Option (List Shown) :=
  let wanted := wanted conversations options.conversation
  (choose options.budget options.since wanted).map fun choice =>
    wanted.zipIdx.map fun (c, ci) => show_ options.since (fun i => choice.chosen (ci, i)) c

def written (digest : List Shown) : Nat :=
  (digest.map fun shown => (renderHeader shown 2).length +
    (shown.turns.map fun turn => (renderTurn turn 3).length).sum).sum

end Yardsort.Activity.Digest
