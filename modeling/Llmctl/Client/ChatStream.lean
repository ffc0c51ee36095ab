import Llmctl.Client.Types
import Llmctl.Sse
import Llmctl.Text.Lines

/-!
# The stream of a chat

The client collects the texts of a response's chunks and reads every server-sent event
that is complete.
-/

namespace Llmctl.Client

open Text

def eventData (event : List Char) : List Char :=
  let data := (lines event).filterMap fun line =>
    if "data:".toList.isPrefixOf line then some ((line.drop 5).dropWhile isWhitespace) else none
  ['\n'].intercalate data

section
-- What the errors of `serde_json` and of the UTF-8 check say.
variable (jsonError : List Char → String) (utf8Error : ByteArray → String)

def decodeSseEvent (event : List Char) : Except LlmctlError (Option ChatCompletionChunk) :=
  let data := eventData event
  if data = [] ∨ data = "[DONE]".toList then .ok none
  else
    match (Value.fromStr (String.ofList data)).bind ChatCompletionChunk.read with
    | some chunk => .ok (some chunk)
    | none => .error (.decode s!"failed to decode stream event: {jsonError data}")

abbrev Item := Except LlmctlError ChatCompletionChunk

/-- The items of the complete events of the buffer, and what is left of it unless one failed. -/
def drainEvents : Nat → List Char → List Item × Option (List Char)
  | 0, buffer => ([], some buffer)
  | fuel + 1, buffer =>
    match splitFrame buffer with
    | none => ([], some buffer)
    | some (event, rest) =>
      match decodeSseEvent jsonError event with
      | .error e => ([.error e], none)
      | .ok chunk =>
        let (items, left) := drainEvents fuel rest
        (chunk.toList.map .ok ++ items, left)

/-- The items of the stream, from the chunks of the response's body. -/
def chatStream : List Char → List (Except LlmctlError ByteArray) → List Item
  | buffer, [] =>
    if (trim (String.ofList buffer)).isEmpty then []
    else
      match decodeSseEvent jsonError buffer with
      | .error e => [.error e]
      | .ok chunk => chunk.toList.map .ok
  | buffer, chunk :: chunks =>
    match chunk with
    | .error e => [.error e]
    | .ok bytes =>
      match String.fromUTF8? bytes with
      | none => [.error (.decode s!"stream chunk is not utf-8: {utf8Error bytes}")]
      | some text =>
        let buffer := buffer ++ text.toList
        match drainEvents jsonError buffer.length buffer with
        | (items, none) => items
        | (items, some buffer) => items ++ chatStream buffer chunks

end

end Llmctl.Client
