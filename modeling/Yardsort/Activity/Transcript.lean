import Yardsort.Activity.Digest
import Yardsort.Activity.StampTrips
import Yardsort.Lib.Bytes
import Yardsort.Lib.Groups

/- Claude Code's transcripts (`each_line`, `read_claude` and `claude_typed`,
   `core/src/activity/transcript.rs`), and what stands in them.

   A file is its bytes; reading them from the disk does not fail. What `serde_json` makes of a line
   is the parameter `parse`. The reading fails (`none`) where the timestamp of a typed message makes
   `iso_to_ms` panic. -/
namespace Yardsort.Activity.Transcript
open Yardsort.Lib Stamps
open Digest (Turn)

def trimBreaks (line : Text) : Text :=
  (line.reverse.dropWhile fun c => c == '\n' || c == '\r').reverse

def lineText (buffer : Bytes) : Option Text :=
  (fromUtf8 buffer).map fun line => trimBreaks line.toList

/-- The whole lines of what is still to be read, the first of them begun already. What has no
    newline yet is left for the next read. -/
def linesAfter (buffer : Bytes) : Bytes → List Text
  | [] => []
  | b :: rest =>
    if b = 0x0a then (lineText (buffer ++ [b])).toList ++ linesAfter [] rest
    else linesAfter (buffer ++ [b]) rest

def eachLine (bytes : Bytes) : List Text := linesAfter [] bytes

/-- A value of `serde_json`, as far as it is looked at here: numbers are not. -/
inductive Value where
  | null
  | bool (b : Bool)
  | number
  | string (text : Text)
  | array (items : List Value)
  | object (fields : List (Text × Value))

namespace Value

def get (key : String) : Value → Value
  | object fields => (fields.lookup key.toList).getD null
  | _ => null

def asStr : Value → Option Text
  | string text => some text
  | _ => none

def asBool : Value → Option Bool
  | bool b => some b
  | _ => none

def asArray : Value → Option (List Value)
  | array items => some items
  | _ => none

def has (key : String) (text : String) (value : Value) : Bool :=
  (value.get key).asStr == some text.toList

def isTrue (key : String) (value : Value) : Bool := (value.get key).asBool == some true

end Value

/-- What Claude Code puts in a `user` line itself. -/
def CLAUDE_INJECTED : List Text :=
  ["<command-name>".toList, "<command-message>".toList, "<command-args>".toList,
    "<local-command-".toList, "<task-notification>".toList, "<bash-input>".toList,
    "<bash-stdout>".toList, "<bash-stderr>".toList, "<system-reminder>".toList,
    "[Request interrupted".toList]

def textBlock (block : Value) : Option Text :=
  if block.has "type" "text" then (block.get "text").asStr else none

def typedBlock (block : Value) : Option Text :=
  if block.has "type" "text" then (block.get "text").asStr
  else if block.has "type" "image" then some "[image]".toList
  else none

def typedContent : Value → Option Text
  | .string text => some text
  | .array blocks => some (['\n'].intercalate (blocks.filterMap typedBlock))
  | _ => none

/-- Someone other than the user is said to have written it. -/
def byAnother (entry : Value) : Bool :=
  match ((entry.get "origin").get "kind").asStr with
  | some kind => kind != "human".toList
  | none => false

def claudeTyped (entry : Value) : Option Text :=
  if entry.isTrue "isMeta" || entry.isTrue "isCompactSummary" || byAnother entry then none
  else
    (typedContent ((entry.get "message").get "content")).bind fun content =>
      let text := Text.trim content
      if text = [] || CLAUDE_INJECTED.any (·.isPrefixOf text) then none else some text

def messageTexts (message : Value) : List Text :=
  ((((message.get "content").asArray.getD []).filterMap textBlock).map Text.trim).filter (· ≠ [])

/-- A line of the agent's with text on it: the message it is part of, and its texts. -/
structure Written where
  id : Option Text
  texts : List Text
  any : texts ≠ []
  deriving DecidableEq

inductive Line where
  | typed (timestamp : Option Text) (user : Text)
  | wrote (line : Written)
  | other
  deriving DecidableEq

def writtenLine (message : Value) : Line :=
  if message.has "model" "<synthetic>" then .other
  else if h : messageTexts message ≠ [] then
    .wrote ⟨(message.get "id").asStr, messageTexts message, h⟩
  else .other

def entryLine (entry : Value) : Line :=
  if entry.isTrue "isSidechain" then .other
  else if entry.has "type" "user" then
    match claudeTyped entry with
    | some user => .typed (entry.get "timestamp").asStr user
    | none => .other
  else if entry.has "type" "assistant" then writtenLine (entry.get "message")
  else .other

section
variable (parse : Text → Option Value)

def lineOf (line : Text) : Line := ((parse line).map entryLine).getD .other

def contains (pat line : Text) : Bool := (Text.cut pat line).isSome

def TOOL_RESULT : Text := "\"type\":\"tool_result\"".toList
def USER : Text := "\"user\"".toList
def ASSISTANT : Text := "\"assistant\"".toList

/-- The quick tests: a line that is not parsed. -/
def skipped (line : Text) : Bool :=
  contains TOOL_RESULT line || !(contains USER line || contains ASSISTANT line)

def BREAK : Text := ['\n', '\n']

/-- The turns so far, and the message the reply is being built from. -/
structure Reading where
  turns : List Turn
  messageId : Option Text

def sayText (same : Bool) (said : List Text) (text : Text) : List Text :=
  match said.getLast? with
  | some last =>
    if same then
      -- A message written again with the same block is not said twice.
      if text.isSuffixOf last then said else said.dropLast ++ [last ++ BREAK ++ text]
    else said ++ [text]
  | none => said ++ [text]

def Reading.wrote (reading : Reading) (line : Written) : Reading :=
  match reading.turns.getLast? with
  | none => reading
  | some turn =>
    let same := line.id.isSome && line.id == reading.messageId
    let turn := { turn with said := line.texts.foldl (sayText same) turn.said }
    ⟨reading.turns.dropLast ++ [turn], line.id⟩

def typedAt : Option Text → Option Int
  | none => some 0
  | some timestamp => (isoToMs timestamp).map (·.getD 0)

def Reading.add (reading : Reading) : Line → Option Reading
  | .typed timestamp user =>
    (typedAt timestamp).map fun at_ => ⟨reading.turns ++ [⟨at_, user, []⟩], none⟩
  | .wrote line => some (reading.wrote line)
  | .other => some reading

def Reading.read (reading : Reading) (line : Text) : Option Reading :=
  if skipped line then some reading else reading.add (lineOf parse line)

def readLines (lines : List Text) : Option Reading :=
  lines.foldlM (Reading.read parse) ⟨[], none⟩

def readClaude (bytes : Bytes) : Option (List Turn) :=
  (readLines parse (eachLine bytes)).map (·.turns)

end

def addTexts (blocks texts : List Text) : List Text :=
  texts.foldl (fun blocks text => if text ∈ blocks then blocks else blocks ++ [text]) blocks

/-- What tells a turn's messages apart: their ids. A line without one is a message of its own. -/
inductive Source where
  | message (id : Text)
  | line (n : Nat)
  deriving DecidableEq

def source (line : Written × Nat) : Source :=
  match line.1.id with
  | some id => .message id
  | none => .line line.2

def messages (lines : List Written) : List (Source × List Text) :=
  Groups.groups source (fun line => addTexts [] line.1.texts)
    (fun blocks line => addTexts blocks line.1.texts) lines.zipIdx

def writtenNext : List Line → List Written
  | [] => []
  | .typed _ _ :: _ => []
  | .wrote line :: rest => line :: writtenNext rest
  | .other :: rest => writtenNext rest

structure Spoken where
  at_ : Int
  user : Text
  lines : List Written

def conversation : List Line → List Spoken
  | [] => []
  | .typed timestamp user :: rest =>
    ⟨(typedAt timestamp).getD 0, user, writtenNext rest⟩ :: conversation rest
  | .wrote _ :: rest => conversation rest
  | .other :: rest => conversation rest

def said (message : Source × List Text) : Text := BREAK.intercalate message.2

def Spoken.turn (spoken : Spoken) : Turn :=
  ⟨spoken.at_, spoken.user, (messages spoken.lines).map said⟩

def Adds (told : List Spoken) : Line → Prop
  | .typed _ _ => True
  | .wrote line => ∃ turn, told.getLast? = some turn ∧ ∃ text ∈ line.texts,
      ∀ message ∈ messages turn.lines,
        message.1 = source (line, turn.lines.length) → text ∉ message.2
  | .other => False

section
variable (parse : Text → Option Value)

def told (lines : List Text) : List Spoken := conversation (lines.map (lineOf parse))

/-- **A transcript read for what it says**: one turn for each typed message with the messages
    written in answer, each with its own blocks once; and no line left unparsed that adds to it. -/
structure Faithful (bytes : Bytes) : Prop where
  reads : readClaude parse bytes = some ((told parse (eachLine bytes)).map Spoken.turn)
  drops : ∀ before line after, eachLine bytes = before ++ line :: after → skipped line →
    ¬ Adds (told parse before) (lineOf parse line)

/-- Each text, as it comes, is the end of the message so far just where it is a block of it. -/
def Recognised : List Text → List Text → Prop
  | _, [] => True
  | blocks, text :: texts =>
    (text <:+ BREAK.intercalate blocks ↔ text ∈ blocks) ∧ Recognised (addTexts blocks [text]) texts

/-- It has `"user"` or `"assistant"` somewhere in it, and `"type":"tool_result"` nowhere. -/
def Plain (line : Text) : Prop :=
  ¬ TOOL_RESULT <:+: line ∧ (USER <:+: line ∨ ASSISTANT <:+: line)

/-- What a line may say after a conversation. A typed message has a time that can be read. What the
    agent wrote goes on with the turn's last message, and is recognised; or begins a message, with
    one text. -/
def Fits (told : List Spoken) : Line → Prop
  | .typed timestamp _ => ∀ text, timestamp = some text → Readable text
  | .wrote line => ∀ turn, told.getLast? = some turn →
    (∃ id blocks, line.id = some id ∧ (messages turn.lines).getLast? = some (.message id, blocks) ∧
      Recognised blocks line.texts) ∨
    ((∀ id, line.id = some id → ∀ message ∈ messages turn.lines, message.1 ≠ .message id) ∧
      line.texts.length = 1)
  | .other => True

/-- Every line, after those before it: one that adds something is put as the quick tests expect,
    and one that is put so fits. -/
def Clear (bytes : Bytes) : Prop :=
  ∀ before line after, eachLine bytes = before ++ line :: after →
    (Adds (told parse before) (lineOf parse line) → Plain line) ∧
      (Plain line → Fits (told parse before) (lineOf parse line))

/-- A line that goes on with a message of its turn holds one text. -/
def OneEach (bytes : Bytes) : Prop :=
  ∀ before line after written turn, eachLine bytes = before ++ line :: after →
    lineOf parse line = .wrote written → (told parse before).getLast? = some turn →
    (∃ message ∈ messages turn.lines, message.1 = source (written, turn.lines.length)) →
    written.texts.length = 1

end

end Yardsort.Activity.Transcript
