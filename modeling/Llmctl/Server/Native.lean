import Llmctl.Server.Accounting

/-!
# Native engines

The scheduler in front of each engine, and the two ways of answering a chat
request from an engine: whole, or streamed by a detached task.
-/

namespace Llmctl

open Async

/-! ## The scheduler -/

def requestCancelled (metadata : Json) : Bool :=
  metadata.any fun field => field.1 == "llmctl.scheduler.cancelled" && field.2 == "true"

def cancelledBeforeDecode : String := "native scheduler request was cancelled before decode"

def queueFull : String := "native scheduler queue is full"

/-- Awaits the blocking decode; a `JoinError` is one of its errors. -/
def spawnBlockingDecode (engine : String) (request : NativeChatRequest) :
    ServerProg (Result NativeChatResponse) := do
  op (.sched (.spawnBlocking engine request))
  op (.sched .join)

def runScheduledNativeChat (engine : String) (request : NativeChatRequest) :
    ServerProg (Result NativeChatResponse) := do
  if requestCancelled request.metadata then
    op (.sched (.release engine))
    pure (.error cancelledBeforeDecode)
  else
    let result ← spawnBlockingDecode engine request
    op (.sched (.release engine))
    pure result

def scheduledNativeChat (engine : String) (request : NativeChatRequest) :
    ServerProg (Result NativeChatResponse) := do
  op (.sched (.chat engine request))
  if requestCancelled request.metadata then pure (.error cancelledBeforeDecode)
  else if ← op (.sched (.tryAcquire engine)) then runScheduledNativeChat engine request
  else if ← op (.sched (.enterQueue engine)) then
    op (.sched (.acquire engine))
    op (.sched (.leaveQueue engine))
    runScheduledNativeChat engine request
  else pure (.error queueFull)

/-! ## Whole answers -/

def nativeChatNotReady (context : NativeChatContext) (stream : Bool) : ServerProg Response := do
  let latencyMs ← elapsedMs context.started
  recordUsage ⟨context.requestId, context.principal, context.model, 0, 0, latencyMs, "native_runtime_not_ready"⟩
  recordAudit (some context.requestId) context.principal "chat.completions" context.model "error"
    [("reason", "native_runtime_not_ready"), ("runtime_backend", "candle-native"), ("stream", toString stream)]
  op (.permit .drop)
  pure (withRequestId (errorResponse 503 "native_runtime_not_ready"
    "native runtime is not ready to serve chat completions") context.requestId)

def nativeErrorStatus (err : String) : String :=
  if containsText err queueFull then "native_scheduler_queue_full" else "native_runtime_error"

def nativeErrorResponse (err : String) : Response :=
  if containsText err queueFull then
    errorResponse 429 "rate_limit_exceeded" "native scheduler queue is full; retry later"
  else errorResponse 503 "native_runtime_error" "native runtime failed to serve chat completions"

def nativeChatRuntimeError (context : NativeChatContext) (err : String) : ServerProg Response := do
  let latencyMs ← elapsedMs context.started
  recordUsage ⟨context.requestId, context.principal, context.model, 0, 0, latencyMs, nativeErrorStatus err⟩
  recordAudit (some context.requestId) context.principal "chat.completions" context.model "error"
    [("reason", nativeErrorStatus err), ("runtime_backend", "candle-native")]
  op (.permit .drop)
  pure (withRequestId (nativeErrorResponse err) context.requestId)

def nativeChatResponse (context : NativeChatContext) (response : NativeChatResponse) : ServerProg Response := do
  let latencyMs ← elapsedMs context.started
  recordUsage ⟨context.requestId, context.principal, context.model, response.usage.inputTokens,
    response.usage.outputTokens, latencyMs, "ok"⟩
  recordAudit (some context.requestId) context.principal "chat.completions" context.model "ok"
    (chatAuditDetail context.toolAudit
      [("runtime_backend", "candle-native"), ("token_accounting", response.usage.accountingMode)])
  op (.permit .drop)
  let body : Body := .json
    [("id", s!"chatcmpl-{context.requestId}"), ("object", "chat.completion"), ("model", response.model),
      ("content", response.content), ("finish_reason", response.finishReason),
      ("prompt_tokens", toString response.usage.inputTokens),
      ("completion_tokens", toString response.usage.outputTokens),
      ("total_tokens", toString (saturatingAdd response.usage.inputTokens response.usage.outputTokens))]
  pure (withChatMetadata (buildResponse 200 body context.requestId) context.model context.upstreamModel "allowed")

/-! ## Streamed answers -/

/-- The detached task of a native stream: the decode, its records, its permit. -/
def streamTask (context : NativeChatContext) (request : NativeChatRequest) : ServerProg Unit := do
  match ← scheduledNativeChat context.upstreamModel request with
  | .ok response =>
    let latencyMs ← elapsedMs context.started
    recordUsage ⟨context.requestId, context.principal, context.model, response.usage.inputTokens,
      response.usage.outputTokens, latencyMs, "ok"⟩
    recordAudit (some context.requestId) context.principal "chat.completions" context.model "ok"
      (chatAuditDetail context.toolAudit
        [("runtime_backend", "candle-native"), ("stream", "true"),
          ("token_accounting", response.usage.accountingMode)])
    op (.permit .drop)
  | .error _ =>
    let latencyMs ← elapsedMs context.started
    recordUsage ⟨context.requestId, context.principal, context.model, 0, 0, latencyMs, "native_runtime_error"⟩
    recordAudit (some context.requestId) context.principal "chat.completions" context.model "error"
      [("reason", "native_runtime_error"), ("runtime_backend", "candle-native"), ("stream", "true")]
    op (.permit .drop)

def sseData (fields : Json) : String := s!"data: {reprStr fields}\n\n"

def completionChunk (requestId : Nat) (more : Json) : String :=
  sseData ([("id", s!"chatcmpl-{requestId}"), ("object", "chat.completion.chunk")] ++ more)

def nativeStreamCloses (requestId : Nat) (model : String) : ServerProg Unit := do
  let finishReason ← do
    match ← op (.task .recvFinal) with
    | .done finishReason => pure finishReason
    | .failed =>
      op (.body (.yield (.ok (completionChunk requestId
        [("type", "native_runtime_error"), ("message", "native runtime failed while streaming")]))))
      pure "error"
  op (.body (.yield (.ok (completionChunk requestId [("model", model), ("finish_reason", finishReason)]))))
  op (.body (.yield (.ok "data: [DONE]\n\n")))

/-- Relays the deltas of the task, at most `deltas` of them. -/
def nativeCompletionSseStream (requestId : Nat) (model : String) : Nat → ServerProg Unit
  | 0 => do
    op (.task .recvClosed)
    nativeStreamCloses requestId model
  | deltas + 1 => do
    match ← op (.task .recvToken) with
    | none => nativeStreamCloses requestId model
    | some delta =>
      if delta.isEmpty then nativeCompletionSseStream requestId model deltas
      else
        op (.body (.yield (.ok (completionChunk requestId [("model", model), ("content", delta)]))))
        nativeCompletionSseStream requestId model deltas

def nativeChatStreamResponse (context : NativeChatContext) (request : NativeChatRequest) : ServerProg Response := do
  let deltas ← op (.task (.spawn (.decode context request)))
  pure (withChatMetadata
    (buildResponse 200 (.stream (nativeCompletionSseStream context.requestId context.model deltas)) context.requestId)
    context.model context.upstreamModel "allowed")

/-! ## Dispatch -/

def nativeChatMetadata (metadata : Json) (context : NativeChatContext) (stream : Bool) : Json :=
  let metadata := metadata.insert "llmctl.request_id" (toString context.requestId)
  let metadata := metadata.insert "llmctl.requested_model" context.model
  let metadata := metadata.insert "llmctl.upstream_model" context.upstreamModel
  let metadata := metadata.insert "llmctl.stream" (toString stream)
  let metadata := metadata.insert "llmctl.tool_schema_count" (toString context.toolAudit.toolSchemaCount)
  let metadata := metadata.insert "llmctl.tool_choice" context.toolAudit.toolChoice
  metadata.insert "llmctl.tool_call_count" (toString context.toolAudit.toolCallCount)

def dispatchNativeChat (st : ServerState) (context : NativeChatContext) (request : ChatCompletionRequest) :
    ServerProg Response := do
  if !st.nativeEngines.contains context.upstreamModel then nativeChatNotReady context request.stream
  else
    let nativeRequest : NativeChatRequest :=
      { model := context.upstreamModel
        messages := request.messages
        metadata := nativeChatMetadata request.metadata context request.stream }
    if request.stream then nativeChatStreamResponse context nativeRequest
    else
      match ← scheduledNativeChat context.upstreamModel nativeRequest with
      | .error err => nativeChatRuntimeError context err
      | .ok response => nativeChatResponse context response

end Llmctl
