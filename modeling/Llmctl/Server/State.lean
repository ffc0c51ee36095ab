import Mathlib.Data.Fintype.Sigma
import Mathlib.Data.Fintype.Sum
import Mathlib.Tactic.DeriveFintype
import Llmctl.Traffic
import Llmctl.Worker
import Llmctl.Sse

/-!
# The server's state

What a request carries, what its future holds while it runs, and what all
futures share.
-/

namespace Llmctl

open Async

/-! ## Requests -/

structure HttpRequest where
  requestId : Nat
  body : String
  lineageIds : List String
  corpus : Option String
  deriving DecidableEq, Repr

structure ToolAuditDetail where
  toolSchemaCount : Nat
  toolChoice : String
  toolCallCount : Nat
  deriving DecidableEq, Repr

structure ChatMessage where
  role : String
  content : String
  deriving DecidableEq, Repr

structure ChatCompletionRequest where
  model : String
  messages : List ChatMessage
  stream : Bool
  metadata : Json
  toolAuditDetail : ToolAuditDetail
  deriving DecidableEq, Repr

structure EmbeddingRequest where
  model : String
  input : List String
  encodingFormat : Option String
  metadata : Json
  deriving DecidableEq, Repr

structure GuardrailVerdict where
  blockReasons : List String
  findings : Option String
  redactions : List (Nat × String)
  deriving DecidableEq, Repr

/-! ## Native engines -/

structure NativeUsage where
  inputTokens : Nat
  outputTokens : Nat
  accountingMode : String
  deriving DecidableEq, Repr

structure NativeChatRequest where
  model : String
  messages : List ChatMessage
  metadata : Json
  deriving DecidableEq, Repr

structure NativeChatResponse where
  model : String
  content : String
  finishReason : String
  usage : NativeUsage
  deriving DecidableEq, Repr

structure NativeEmbeddingRequest where
  model : String
  input : List String
  metadata : Json
  deriving DecidableEq, Repr

structure NativeEmbeddingResponse where
  model : String
  embeddings : List (List String)
  semantic : Bool
  backend : String
  status : String
  usage : NativeUsage
  deriving DecidableEq, Repr

structure NativeChatContext where
  requestId : Nat
  principal : Principal
  model : String
  upstreamModel : String
  toolAudit : ToolAuditDetail
  started : Nat
  admission : AdmissionPermit
  deriving DecidableEq, Repr

structure StreamDisconnectData where
  requestId : Nat
  principal : Principal
  model : String
  upstreamModel : String
  externalProvider : Option ResolvedExternalProvider
  toolAudit : ToolAuditDetail
  statusCode : Nat
  started : Nat
  inputTokens : Nat
  outputTokens : Nat
  deriving DecidableEq, Repr

/-- The two futures that a request hands to `tokio::spawn`: the decode of a native
stream, and the terminal record of a stream whose client went away. -/
inductive Job where
  | decode (context : NativeChatContext) (request : NativeChatRequest)
  | disconnect (data : StreamDisconnectData)
  deriving DecidableEq, Repr

/-- `failed` also stands for a closed channel. -/
inductive NativeStreamOutcome where
  | done (finishReason : String)
  | failed
  deriving DecidableEq, Repr

/-! ## Upstreams -/

abbrev StatusCode := Nat

def StatusCode.isSuccess (status : StatusCode) : Bool := decide (200 ≤ status ∧ status < 300)

def shouldRetryUpstreamStatus (status : StatusCode) : Bool := decide (500 ≤ status ∧ status < 600) || status == 429

/-- `chunks` is how many pieces of its body can arrive; every run has such a bound. -/
structure UpstreamResponse where
  status : StatusCode
  retryAfter : Option Nat
  chunks : Nat
  deriving DecidableEq, Repr

inductive Sent where
  | response (r : UpstreamResponse)
  | failed (isTimeout : Bool)
  | timedOut
  deriving DecidableEq, Repr

inductive BodyRead where
  | bytes (text : String)
  | failed (isTimeout : Bool)
  | timedOut
  deriving DecidableEq, Repr

inductive StreamEnd where
  | done
  | failed (isTimeout : Bool)
  | timedOut
  deriving DecidableEq, Repr

inductive Chunk where
  | bytes (text : String)
  | ended (e : StreamEnd)
  deriving DecidableEq, Repr

/-! ## `ServerState` -/

/-- How the router sees the workers: no supervisor, one behind its lock only, or one
whose admission registry it shares. -/
inductive WorkerControl where
  | none
  | locked
  | shared
  deriving DecidableEq, Repr

/-- The parts of `ServerState` that no request changes, and the codecs of the bodies. -/
structure ServerState where
  cfg : Config
  host : Host
  storage : Storage
  nativeEngines : List String
  workerControl : WorkerControl
  maxInFlight : Nat
  guardrails : Option (List (Nat × String) → GuardrailVerdict)
  parseChat : String → Except String ChatCompletionRequest
  parseEmbedding : String → Except String EmbeddingRequest
  setMessages : String → List (Nat × String) → Except String String
  setModel : String → String → Except String String
  bodyUsage : String → Nat × Nat
  usageTokens : String → Option (Nat × Nat)
  env : String → Option String
  deterministicEmbeddings : NativeEmbeddingRequest → Result NativeEmbeddingResponse
  modelFootprintBytes : ModelConfig → Option Nat
  swapResourceBudgetBytes : Config → Option Nat

def ServerState.upstreams (st : ServerState) : List (String × String) := servingUpstreams st.host st.cfg

def ServerState.maxConcurrentRequests (st : ServerState) : Nat := max st.cfg.scheduler.maxConcurrentRequests 1

/-! ## Processes -/

/-- A request's own future, and the detached task that it may spawn. -/
inductive Proc (R : Type) where
  | request (r : R)
  | task (r : R)
  deriving DecidableEq, Fintype

def Proc.owner {R : Type} : Proc R → R
  | .request r | .task r => r

/-! ## What a future holds -/

structure Attempt where
  upstreamAlias : String
  upstream : String
  probe : Bool
  deriving DecidableEq, Repr

structure WorkerGuard where
  upstreamAlias : String
  gate : Nat
  deriving DecidableEq, Repr

/-- An upstream's answer whose body is not read to its end. -/
structure OpenBody where
  upstreamAlias : String
  status : StatusCode
  deriving DecidableEq, Repr

/-- The holder of the supervisor's lock: the workers whose status and gate it has
changed and not settled again, and the one whose new gate stands open. -/
structure Tenure where
  unsettled : List String := []
  opened : Option String := none
  deriving DecidableEq, Repr

/-- The values with a destructor that a future owns. -/
structure Holding where
  permit : Option AdmissionPermit := none
  worker : Option WorkerGuard := none
  attempt : Option Attempt := none
  upstream : Option OpenBody := none
  queued : Option String := none
  slot : Option String := none
  decode : Option String := none
  guard : Option StreamDisconnectData := none
  supervisor : Option Tenure := none
  deriving DecidableEq, Repr

inductive Stage where
  | unpolled
  | reading
  | holding
  | failed
  | ended
  | settled
  deriving DecidableEq, Repr

/-- What a future has done so far, kept when it is dropped: the urls it sent to, the
engines it called and those that started a decode for it, the rows its inserts
landed, whether a query of a record failed since the last decode, and the gate it
last looked up. -/
structure Trace where
  stage : Stage := .unpolled
  sent : List String := []
  handed : List String := []
  decoded : List String := []
  usage : List UsageEvent := []
  audit : List AuditEvent := []
  storeFailed : Bool := false
  gate : Option (String × Nat) := none
  deriving DecidableEq, Repr

structure Local where
  call : Call := {}
  holding : Holding := {}
  trace : Trace := {}
  deriving DecidableEq, Repr

/-! ## What all futures share -/

inductive Decode where
  | none
  | running (engine : String)
  | returned (engine : String)
  deriving DecidableEq, Repr

structure Server (R : Type) where
  store : Shared
  instant : Nat
  draining : Bool
  admission : AdmissionController
  breakers : CircuitBreakers
  workers : Workers
  supervisorLocked : Bool
  inFlight : Nat → Nat
  slots : String → Nat
  waiting : String → Nat
  decodes : Proc R → Decode
  jobs : R → Option Job

end Llmctl
