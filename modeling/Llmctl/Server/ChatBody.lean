import Llmctl.Text.Deserialize
import Llmctl.Native.Prompt
import Llmctl.Server.Guardrails
import Llmctl.Server.Chat

/-!
# The body of a chat request

How a body is read as a request, what is written back into it when messages are redacted or
the model is another one upstream, and what the audit trail says of its tools.
-/

namespace Llmctl.ChatBody

open De Native

/-! ## Reading a request -/

/-- The fields that the handlers read. The sampling parameters, `stop` and `n` are read by
the native runtime only. -/
structure ChatCompletionRequest where
  model : String
  messages : List NativeChatMessage
  stream : Bool
  metadata : Option Value
  tools : Option Value
  toolChoice : Option Value

section
variable (numbers : Numbers) (order : FieldOrder)

def readOptionValue : Value → De (Option Value) := readOption (readValue numbers order)

def messageFields : List Field :=
  [.of "role" true readString, .of "content" false (readOptionValue numbers order),
    .of "tool_calls" false (readOptionValue numbers order), .of "tool_call_id" false (readOption readString)]

def readMessage (v : Value) : De NativeChatMessage := do
  let entries ← structFields "NativeChatMessage" (messageFields numbers order) v
  let role ← required "role" readString entries
  let content ← optional "content" none (readOptionValue numbers order) entries
  let toolCalls ← optional "tool_calls" none (readOptionValue numbers order) entries
  let toolCallId ← optional "tool_call_id" none (readOption readString) entries
  .ok { role, content, toolCalls, toolCallId }

def readU32 : Value → De Nat := readUnsigned numbers (2 ^ 32) "u32"

def readU64 : Value → De Nat := readUnsigned numbers (2 ^ 64) "u64"

def requestFields : List Field :=
  [.of "model" true readString, .of "messages" false (readVec (readMessage numbers order)),
    .of "temperature" false (readOption (readFloat numbers)), .of "max_tokens" false (readOption (readU32 numbers)),
    .of "top_p" false (readOption (readFloat numbers)), .of "top_k" false (readOption (readU32 numbers)),
    .of "presence_penalty" false (readOption (readFloat numbers)),
    .of "frequency_penalty" false (readOption (readFloat numbers)), .of "seed" false (readOption (readU64 numbers)),
    .of "stop" false (readOptionValue numbers order), .of "n" false (readOption (readU32 numbers)),
    .of "stream" false readBool, .of "metadata" false (readOptionValue numbers order),
    .of "tools" false (readOptionValue numbers order), .of "tool_choice" false (readOptionValue numbers order)]

def readRequest (v : Value) : De ChatCompletionRequest := do
  let entries ← structFields "ChatCompletionRequest" (requestFields numbers order) v
  let model ← required "model" readString entries
  let messages ← optional "messages" [] (readVec (readMessage numbers order)) entries
  let stream ← optional "stream" false readBool entries
  let metadata ← optional "metadata" none (readOptionValue numbers order) entries
  let tools ← optional "tools" none (readOptionValue numbers order) entries
  let toolChoice ← optional "tool_choice" none (readOptionValue numbers order) entries
  .ok { model, messages, stream, metadata, tools, toolChoice }

/-- Why a body is not a request. -/
inductive ParseError where
  | malformed
  | data (e : DeError)

/-- `serde_json::from_slice::<ChatCompletionRequest>` -/
def parse (body : String) : Except ParseError ChatCompletionRequest :=
  match Value.fromStr body with
  | none => .error .malformed
  | some v =>
    match readRequest numbers order v with
    | .ok request => .ok request
    | .error e => .error (.data e)

/-! ## Writing into a body -/

def requestBodyMustBeObject : String := "request body must be a JSON object"

def messagesMustBeArray : String := "request body messages must be a JSON array"

def redactMessage (messages : List Value) (redaction : Nat × String) : List Value :=
  messages.modify redaction.1 fun message => message.setField order "content" (.string redaction.2)

/-- `apply_message_redactions`, where there are any -/
def setMessages (body : String) (redactions : List (Nat × String)) : Except String String :=
  match Value.read numbers order body with
  | none => .error badRequestBody
  | some value =>
    match value.get "messages" with
    | some (.array messages) =>
      .ok (value.setField order "messages" (.array (redactions.foldl (redactMessage order) messages))).render
    | _ => .error messagesMustBeArray

/-- `rewrite_chat_model`, where the alias is another one -/
def setModel (body : String) (upstreamAlias : String) : Except String String :=
  match Value.read numbers order body with
  | none => .error badRequestBody
  | some (.object fields) => .ok ((Value.object fields).setField order "model" (.string upstreamAlias)).render
  | some _ => .error requestBodyMustBeObject

end

/-! ## What the audit trail says of the tools -/

def toolCallCount : Value → Nat
  | .array calls => calls.length
  | _ => 1

def otherTypeName : Value → String
  | .null => "null"
  | .bool _ => "boolean"
  | .number _ => "number"
  | .string _ => "string"
  | .array _ => "array"
  | .object _ => "object"

def safeToolChoice (order : FieldOrder) : Option Value → Value
  | none => .null
  | some (.string choice) => .string choice
  | some (.object fields) =>
    let object := Value.object fields
    .json order
      ((((object.get "type").bind Value.asStr).map fun s => ("type", Value.string s)).toList ++
        ((((object.get "function").bind (·.get "name")).bind Value.asStr).map fun s => ("function_name", Value.string s)).toList)
  | some other => .json order [("type", .string (otherTypeName other))]

def toolSchemaCount : Option Value → Nat
  | some (.array tools) => tools.length
  | _ => 0

def toolAuditDetail (order : FieldOrder) (request : ChatCompletionRequest) : ToolAuditDetail where
  toolSchemaCount := toolSchemaCount request.tools
  toolChoice := (safeToolChoice order request.toolChoice).render
  toolCallCount := ((request.messages.filterMap NativeChatMessage.toolCalls).map toolCallCount).sum

/-! ## The server's codecs -/

def metadataFields : Option Value → Json
  | some (.object fields) => fields.map fun field => (field.1, field.2.render)
  | _ => []

/-- What the handlers read of a request, the contents of its messages as they are scanned. -/
def handlerRequest (order : FieldOrder) (request : ChatCompletionRequest) : Llmctl.ChatCompletionRequest where
  model := request.model
  messages := request.messages.map fun message => ⟨message.role, messageContentText message⟩
  stream := request.stream
  metadata := metadataFields request.metadata
  toolAuditDetail := toolAuditDetail order request

/-- A server that reads and writes JSON, with guardrails. The texts of `serde_json`'s errors
are a parameter. -/
structure Codec where
  numbers : Numbers
  order : FieldOrder
  unicode : Guardrails.Unicode
  guardrails : Guardrails.GuardrailsConfig
  errorText : String → ParseError → String

def Codec.serving (codec : Codec) (st : ServerState) : ServerState :=
  { st with
    guardrails := Guardrails.serverGuardrails codec.unicode codec.order codec.guardrails
    parseChat := fun body =>
      match parse codec.numbers codec.order body with
      | .ok request => .ok (handlerRequest codec.order request)
      | .error e => .error (codec.errorText body e)
    setMessages := setMessages codec.numbers codec.order
    setModel := setModel codec.numbers codec.order }

end Llmctl.ChatBody
