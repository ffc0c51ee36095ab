import Llmctl.Client.EventsSound
import Llmctl.Text.Document
import Llmctl.Text.TagScan
import Llmctl.Text.Utf8

/-!
# Counting the deltas of a stream

`SseContentParser` collects the bytes of a chat's stream and counts its content deltas, those
of a thinking section apart from the others. How `serde_json` keeps numbers and fields is a
parameter.
-/

namespace Llmctl.Observability

open Text Client

def maxSseContentBufferBytes : Nat := 512 * 1024

def tagTailLen : Nat := 8

inductive ContentPhase where
  | output
  | thinking
  deriving DecidableEq, Repr

structure SseContentParser where
  buffer : List Char := []
  phase : ContentPhase := .output
  thinkingDeltas : Nat := 0
  outputDeltas : Nat := 0
  tagTail : List Char := []

def tailStr (s : List Char) (n : Nat) : List Char := s.rtake n

/-- The data of the lines of a frame. -/
def frameData (frame : List Char) : List String :=
  let data := (lines frame).filterMap fun line =>
    let line := line.dropWhile isWhitespace
    if "data:".toList.isPrefixOf line then some (trim (String.ofList (line.drop 5))) else none
  data.filter fun data => !data.isEmpty && data != "[DONE]"

def choiceContent (choice : Value) : Option (List Char) :=
  (((choice.get "delta").bind (Value.get "content")).bind Value.asStr).map String.toList

namespace SseContentParser

def classifyDelta (p : SseContentParser) (delta : List Char) : SseContentParser :=
  let combined := p.tagTail ++ delta
  let enteredThinking := p.phase = .output ∧ "<think>".toList <:+: combined
  let leftThinking := p.phase = .thinking ∧ "</think>".toList <:+: combined
  let p := { p with tagTail := tailStr combined tagTailLen }
  if enteredThinking then { p with phase := .thinking }
  else if leftThinking then { p with phase := .output }
  else
    match p.phase with
    | .thinking => { p with thinkingDeltas := p.thinkingDeltas + 1 }
    | .output => { p with outputDeltas := p.outputDeltas + 1 }

def processDeltaValue (p : SseContentParser) (value : Value) : SseContentParser :=
  match value.get "choices" with
  | some (.array choices) =>
    choices.foldl (fun p choice =>
      match choiceContent choice with
      | some content => p.classifyDelta content
      | none => p) p
  | _ => p

section
variable (numbers : Numbers) (order : FieldOrder)

def processFrame (p : SseContentParser) (frame : List Char) : SseContentParser :=
  (frameData frame).foldl (fun p data =>
    match Value.read numbers order data with
    | some value => p.processDeltaValue value
    | none => p) p

/-- Reads the complete frames of the buffer; each one shortens it. -/
def drain : Nat → SseContentParser → SseContentParser
  | 0, p => p
  | fuel + 1, p =>
    match splitFrame p.buffer with
    | none => p
    | some (frame, rest) =>
      let p := { p with buffer := rest }
      if maxSseContentBufferBytes < utf8Size frame then drain fuel p
      else drain fuel (p.processFrame numbers order frame)

def push (p : SseContentParser) (bytes : List UInt8) : SseContentParser :=
  let p := { p with buffer := p.buffer ++ lossy bytes }
  p.drain numbers order p.buffer.length

end

/-- Feeds the content deltas one after the other. -/
def feed (p : SseContentParser) (deltas : List (List Char)) : SseContentParser := deltas.foldl classifyDelta p

end SseContentParser

end Llmctl.Observability
