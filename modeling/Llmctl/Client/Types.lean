import Llmctl.Text.Json

/-!
# Chunks of a chat completion

The types of the client, as serde derives their readers.
-/

namespace Llmctl.Client

/-! ## Readers -/

/-- The fields of a struct: those of an object that names none of the struct's twice, or
the items of an array in the struct's order. -/
def structFields (names : List String) : Value → Option (List (String × Value))
  | .object fields => if ((fields.map (·.1)).filter fun name => names.contains name).Nodup then some fields else none
  | .array items => if items.length ≤ names.length then some (names.zip items) else none
  | _ => none

def field (fields : List (String × Value)) (name : String) : Option Value :=
  (fields.find? fun field => field.1 == name).map (·.2)

def required {α : Type} (read : Value → Option α) (fields : List (String × Value)) (name : String) : Option α :=
  (field fields name).bind read

/-- An `Option` that is `None` when it is missing or null. -/
def optional {α : Type} (read : Value → Option α) (fields : List (String × Value)) (name : String) :
    Option (Option α) :=
  match field fields name with
  | none | some .null => some none
  | some v => (read v).map some

def readString : Value → Option String
  | .string s => some s
  | _ => none

def integer (text : List Char) : Option Int :=
  let (sign, digits) := Value.parseSign text
  if digits ≠ [] ∧ digits.all Char.isDigit then
    let n : Int := Nat.ofDigitChars 10 digits 0
    some (if sign = [] then n else -n)
  else none

/-- An integer at least `low` and below `high`; `-0` is a float. -/
def readInt (low high : Int) : Value → Option Int
  | .number text => if text = "-0" then none else (integer text.toList).filter fun i => low ≤ i ∧ i < high
  | _ => none

def readU32 : Value → Option Int := readInt 0 (2 ^ 32)

def readU64 : Value → Option Int := readInt 0 (2 ^ 64)

def readI64 : Value → Option Int := readInt (-2 ^ 63) (2 ^ 63)

def readVec {α : Type} (read : Value → Option α) : Value → Option (List α)
  | .array items => items.mapM read
  | _ => none

/-- A `Vec` that is empty when it is missing. -/
def vecOrDefault {α : Type} (read : Value → Option α) (fields : List (String × Value)) (name : String) :
    Option (List α) :=
  match field fields name with
  | none => some []
  | some v => readVec read v

/-! ## Types -/

structure ChatToolCallFunction where
  name : String
  arguments : String
  deriving DecidableEq, Repr

structure ChatToolCall where
  id : String
  kind : String
  function : ChatToolCallFunction
  deriving DecidableEq, Repr

structure ChatMessageDelta where
  role : Option String
  content : Option String
  toolCalls : Option (List ChatToolCall)
  deriving DecidableEq, Repr

structure ChatChunkChoice where
  index : Int
  delta : ChatMessageDelta
  finishReason : Option String
  deriving DecidableEq, Repr

structure TokenUsage where
  promptTokens : Int
  completionTokens : Option Int
  totalTokens : Int
  deriving DecidableEq, Repr

structure ChatCompletionChunk where
  id : String
  object : String
  created : Option Int
  model : String
  choices : List ChatChunkChoice
  usage : Option TokenUsage
  deriving DecidableEq, Repr

def ChatToolCallFunction.read (v : Value) : Option ChatToolCallFunction := do
  let fields ← structFields ["name", "arguments"] v
  some ⟨← required readString fields "name", ← required readString fields "arguments"⟩

def ChatToolCall.read (v : Value) : Option ChatToolCall := do
  let fields ← structFields ["id", "type", "function"] v
  some ⟨← required readString fields "id", ← required readString fields "type",
    ← required ChatToolCallFunction.read fields "function"⟩

def ChatMessageDelta.read (v : Value) : Option ChatMessageDelta := do
  let fields ← structFields ["role", "content", "tool_calls"] v
  some ⟨← optional readString fields "role", ← optional readString fields "content",
    ← optional (readVec ChatToolCall.read) fields "tool_calls"⟩

def ChatChunkChoice.read (v : Value) : Option ChatChunkChoice := do
  let fields ← structFields ["index", "delta", "finish_reason"] v
  some ⟨← required readU32 fields "index", ← required ChatMessageDelta.read fields "delta",
    ← optional readString fields "finish_reason"⟩

def TokenUsage.read (v : Value) : Option TokenUsage := do
  let fields ← structFields ["prompt_tokens", "completion_tokens", "total_tokens"] v
  some ⟨← required readU64 fields "prompt_tokens", ← optional readU64 fields "completion_tokens",
    ← required readU64 fields "total_tokens"⟩

def ChatCompletionChunk.read (v : Value) : Option ChatCompletionChunk := do
  let fields ← structFields ["id", "object", "created", "model", "choices", "usage"] v
  some ⟨← required readString fields "id", ← required readString fields "object", ← optional readI64 fields "created",
    ← required readString fields "model", ← vecOrDefault ChatChunkChoice.read fields "choices",
    ← optional TokenUsage.read fields "usage"⟩

/-! ## Errors -/

inductive LlmctlError where
  | auth (message : String)
  | quota (message : String)
  | rateLimited (message : String)
  | timeout (message : String)
  | modelUnavailable (message : String)
  | badRequest (message : String)
  | server (status : Nat) (message : String)
  | transport (message : String)
  | decode (message : String)
  deriving DecidableEq, Repr

end Llmctl.Client
