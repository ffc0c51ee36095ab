import Llmctl.Routing

/-!
# Token usage of a streamed body

`SseUsageParser` collects the bytes of a body and reads the usage of every
server-sent event that is complete.
-/

namespace Llmctl

def maxSseUsageBufferBytes : Nat := 1024 * 1024

def frameTooLarge : String := "SSE usage parser buffer exceeded maximum frame size"

def splitFrame : List Char → Option (List Char × List Char)
  | '\n' :: '\n' :: rest => some ([], rest)
  | c :: rest => (splitFrame rest).map fun (frame, rest) => (c :: frame, rest)
  | [] => none

def utf8Size (s : List Char) : Nat := (s.map Char.utf8Size).sum

def saturatingAdd (a b : Nat) : Nat := min (a + b) (2 ^ 64 - 1)

section
-- The `usage` object of a JSON text, read by `serde_json`.
variable (usageTokens : String → Option (Nat × Nat))

def sseFrameUsageTokens (frame : String) : Nat × Nat :=
  let data := (frame.splitOn "\n").filterMap fun line =>
    let line := String.ofList (line.toList.dropWhile isWhitespace)
    if line.startsWith "data:" then some (trim (String.ofList (line.toList.drop 5))) else none
  let usages := (data.filter fun d => !d.isEmpty && d != "[DONE]").filterMap usageTokens
  usages.foldl (fun total usage => (saturatingAdd total.1 usage.1, saturatingAdd total.2 usage.2)) (0, 0)

/-- Reads the complete events of the buffer; each one shortens it. -/
def readFrames : Nat → List Char → Nat × Nat → Except String (List Char × (Nat × Nat))
  | 0, buffer, total => .ok (buffer, total)
  | fuel + 1, buffer, total =>
    match splitFrame buffer with
    | none => .ok (buffer, total)
    | some (frame, rest) =>
      if maxSseUsageBufferBytes < utf8Size frame then .error frameTooLarge
      else
        let usage := sseFrameUsageTokens usageTokens (String.ofList frame)
        readFrames fuel rest (saturatingAdd total.1 usage.1, saturatingAdd total.2 usage.2)

/-- The buffer after `text` and the usage of the events it completed. -/
def ssePush (buffer : List Char) (text : String) : Except String (List Char × (Nat × Nat)) :=
  let buffer := buffer ++ text.toList
  if maxSseUsageBufferBytes < utf8Size buffer ∧ (splitFrame buffer).isNone then .error frameTooLarge
  else readFrames usageTokens buffer.length buffer (0, 0)

end

end Llmctl
