import Mathlib.Data.List.Infix
import Llmctl.Text.Document

/-!
# Runtime telemetry events

What an event exports as the attributes of a span. Attributes that may hold a secret are
redacted when the event is made; those that are arrays or objects are left out.
-/

namespace Llmctl.Observability

/-! ## Redaction -/

def redactedAttributeValue : String := "[REDACTED]"

def contains (s : List Char) (pattern : String) : Bool := decide (pattern.toList <:+: s)

def endsWith (s : List Char) (pattern : String) : Bool := decide (pattern.toList <:+ s)

def toAsciiLowercase (s : String) : List Char := s.toList.map Char.toLower

def secretMarkers : List String := ["bearer ", "api_key=", "authorization=", "x-api-key"]

def textContainsSecret (s : String) : Bool := secretMarkers.any (contains (toAsciiLowercase s))

def stringValueContainsSecret (value : Value) : Bool := value.asStr.any textContainsSecret

def shouldRedactAttribute (key : String) (value : Value) : Bool :=
  let normalized := (toAsciiLowercase key).map fun c => if c = '-' ∨ c = '.' then '_' else c
  if contains normalized "authorization" || contains normalized "api_key" || contains normalized "apikey"
      || contains normalized "secret" || contains normalized "password" || contains normalized "token"
      || contains normalized "bearer" || contains normalized "prompt" || contains normalized "message"
      || normalized == "content".toList || endsWith normalized "_content" || contains normalized "otlp_headers"
      || contains normalized "collector_header" || contains normalized "exporter_header"
      || contains normalized "header_authorization" || endsWith normalized "_path" || contains normalized "_path_"
      || normalized == "path".toList then
    true
  else stringValueContainsSecret value

/-- The attributes are listed by their keys. -/
def sanitizeOtelAttributes (attributes : List (String × Value)) : List (String × Value) :=
  attributes.map fun (key, value) =>
    if shouldRedactAttribute key value then (key, .string redactedAttributeValue) else (key, value)

/-! ## Events -/

inductive TelemetrySignal where
  | metric
  | span
  | log
  deriving DecidableEq, Repr

def TelemetrySignal.name : TelemetrySignal → String
  | .metric => "metric"
  | .span => "span"
  | .log => "log"

inductive TelemetryEventName where
  | requestRouting
  | quotaDecision
  | workerLifecycle
  | circuitBreaker
  | resourceSnapshot
  | driftObservation
  | modelInstallVerification
  | nativeRuntimeStatus
  | runtimeHeartbeat
  deriving DecidableEq, Repr

def TelemetryEventName.asStr : TelemetryEventName → String
  | .requestRouting => "llmctl.request.routing"
  | .quotaDecision => "llmctl.quota.decision"
  | .workerLifecycle => "llmctl.worker.lifecycle"
  | .circuitBreaker => "llmctl.upstream.circuit_breaker"
  | .resourceSnapshot => "llmctl.resource.snapshot"
  | .driftObservation => "llmctl.drift.observation"
  | .modelInstallVerification => "llmctl.model.install.verification"
  | .nativeRuntimeStatus => "llmctl.runtime.native.status"
  | .runtimeHeartbeat => "llmctl.runtime.heartbeat"

structure RuntimeTelemetryEvent where
  signal : TelemetrySignal
  name : TelemetryEventName
  timestamp : Int
  attributes : List (String × Value)

def RuntimeTelemetryEvent.new (signal : TelemetrySignal) (name : TelemetryEventName) (timestamp : Int)
    (attributes : List (String × Value)) : RuntimeTelemetryEvent :=
  ⟨signal, name, timestamp, sanitizeOtelAttributes attributes⟩

/-! ## What is exported -/

/-- The value of an attribute; a float is kept as it prints. -/
inductive AttributeValue where
  | bool (b : Bool)
  | i64 (i : Int)
  | f64 (text : String)
  | string (s : String)
  deriving DecidableEq, Repr

abbrev KeyValue := String × AttributeValue

/-- `Value::as_i64` -/
def asI64 : Value → Option Int
  | .number text =>
    match text.toList with
    | '-' :: digits =>
      if digits ≠ [] ∧ digits.all Char.isDigit ∧ Nat.ofDigitChars 10 digits 0 ≤ 2 ^ 63 then
        some (-Nat.ofDigitChars 10 digits 0)
      else none
    | digits =>
      if digits ≠ [] ∧ digits.all Char.isDigit ∧ Nat.ofDigitChars 10 digits 0 < 2 ^ 63 then
        some (Nat.ofDigitChars 10 digits 0)
      else none
  | _ => none

def i64TryFrom (n : Nat) : Option Int := if n < 2 ^ 63 then some n else none

def jsonToKeyValue (key : String) : Value → Option KeyValue
  | .bool b => some (key, .bool b)
  | .number text =>
    ((asI64 (.number text)).map fun i => (key, .i64 i)).orElse fun _ =>
      (((Value.number text).asU64.bind i64TryFrom).map fun i => (key, AttributeValue.i64 i)).orElse fun _ =>
        some (key, .f64 text)
  | .string s => some (key, .string s)
  | _ => none

def telemetryKeyValues (event : RuntimeTelemetryEvent) : List KeyValue :=
  [("llmctl.telemetry.name", .string event.name.asStr), ("llmctl.telemetry.signal", .string event.signal.name)] ++
    event.attributes.filterMap fun (key, value) => jsonToKeyValue key value

/-! ## Usage -/

section
-- How the id of a request prints.
variable (uuid : Nat → String)

def usageSpanAttributes (event : UsageEvent) (accountingMode genAiSystem : String) : List (String × Value) :=
  Value.collectFields .sorted
    [("llmctl.request_id", .string (uuid event.requestId)), ("llmctl.model", .string event.model),
      ("llmctl.actor", .string event.actor), ("llmctl.team", .string event.team),
      ("llmctl.latency_ms", .number event.latencyMs.repr), ("llmctl.status", .string event.status),
      ("llmctl.token_accounting.mode", .string accountingMode), ("gen_ai.system", .string genAiSystem),
      ("gen_ai.operation.name", .string "chat"), ("gen_ai.request.model", .string event.model),
      ("gen_ai.response.model", .string event.model), ("gen_ai.usage.input_tokens", .number event.inputTokens.repr),
      ("gen_ai.usage.output_tokens", .number event.outputTokens.repr)]

/-- The attributes of the span that `record_usage_telemetry` emits. -/
def usageSpan (event : UsageEvent) (accountingMode genAiSystem : String) (now : Int) : List KeyValue :=
  telemetryKeyValues (.new .span .requestRouting now (usageSpanAttributes uuid event accountingMode genAiSystem))

end

end Llmctl.Observability
