import Llmctl.Server.State
import Llmctl.Value

/-!
# The events of a native stream

The bytes of a native streaming completion: one chunk for each delta, and the chunks and
the sentinel that close it.
-/

namespace Llmctl

/-- The order in which a JSON map lists its fields: by their keys or as they were inserted,
which a feature of `serde_json` decides. -/
structure MapOrder where
  arrange : List (String × Value) → List (String × Value)
  perm : ∀ fields, (arrange fields).Perm fields

def MapOrder.inserted : MapOrder := ⟨id, fun _ => List.Perm.refl _⟩

def MapOrder.object (order : MapOrder) (fields : List (String × Value)) : Value := .object (order.arrange fields)

def sseEvent (chunk : Value) : String := "data: " ++ chunk.render ++ "\n\n"

section
variable (order : MapOrder) (requestId : String)

def chunkChoice (delta : List (String × Value)) (finishReason : Value) : Value :=
  order.object [("index", .number "0"), ("delta", order.object delta), ("finish_reason", finishReason)]

def contentChunk (created : Int64) (model : String) (choice : Value) : Value :=
  order.object [("id", .string ("chatcmpl-" ++ requestId)), ("object", .string "chat.completion.chunk"),
    ("created", .number created.toInt.repr), ("model", .string model), ("choices", .array [choice])]

def errorChunk : Value :=
  order.object [("id", .string ("chatcmpl-" ++ requestId)), ("object", .string "chat.completion.chunk"),
    ("error", order.object [("type", .string "native_runtime_error"),
      ("message", .string "native runtime failed while streaming")])]

/-- The events of a stream with these deltas; `now` gives the time of each chunk, counted
from `sent`. -/
def nativeCompletionEvents (model : String) (now : Nat → Int64) (sent : Nat) :
    List String → NativeStreamOutcome → List String
  | [], outcome =>
    let (failure, finishReason) := match outcome with
      | .done finishReason => ([], finishReason)
      | .failed => ([sseEvent (errorChunk order requestId)], "error")
    failure ++ [sseEvent (contentChunk order requestId (now sent) model (chunkChoice order [] (.string finishReason))),
      "data: [DONE]\n\n"]
  | delta :: deltas, outcome =>
    if delta.isEmpty then nativeCompletionEvents model now sent deltas outcome
    else
      sseEvent (contentChunk order requestId (now sent) model (chunkChoice order [("content", .string delta)] .null)) ::
        nativeCompletionEvents model now (sent + 1) deltas outcome

end

end Llmctl
