import Llmctl.Server.Dispatch

/-!
# Answers of an upstream

`streamUpstream` relays a streamed answer and `jsonUpstream` a whole one. A guard
records the end of a stream whose client goes away.
-/

namespace Llmctl

open Async

structure UpstreamRequestContext where
  requestId : Nat
  principal : Principal
  model : String
  upstreamModel : String
  externalProvider : Option ResolvedExternalProvider
  toolAudit : ToolAuditDetail
  started : Nat
  admission : AdmissionPermit
  deriving DecidableEq, Repr

def streamStatus (inputTokens outputTokens : Nat) : String :=
  if inputTokens = 0 ∧ outputTokens = 0 then "stream_unmetered" else "ok"

def streamDisconnectStatus : String := "client_disconnected"

/-! ## `StreamDisconnectGuard` -/

def recordTerminal (data : StreamDisconnectData) (status : String) : ServerProg Unit := do
  let metered := decide (0 < data.inputTokens ∨ 0 < data.outputTokens)
  let latencyMs ← elapsedMs data.started
  recordUsage ⟨data.requestId, data.principal, data.model, data.inputTokens, data.outputTokens, latencyMs, status⟩
  recordAudit (some data.requestId) data.principal "chat.completions" data.model status
    (chatRouteAuditDetail data.toolAudit
      [("status", toString data.statusCode), ("stream", "true"), ("disconnected", "true"),
        ("metered", toString metered)]
      data.externalProvider)

/-! ## `stream_upstream` -/

section
variable (st : ServerState) (ctx : UpstreamRequestContext) (status : StatusCode)

def streamDetail (more : Json) : Json :=
  chatRouteAuditDetail ctx.toolAudit ([("status", toString status), ("stream", "true")] ++ more)
    ctx.externalProvider

/-- The branches that end the stream with an error item. -/
def streamFails (total : Nat × Nat) (outcome : String) (more : Json) (item : String) : ServerProg Unit := do
  let latencyMs ← elapsedMs ctx.started
  recordUsage ⟨ctx.requestId, ctx.principal, ctx.model, total.1, total.2, latencyMs, outcome⟩
  recordAudit (some ctx.requestId) ctx.principal "chat.completions" ctx.model outcome (streamDetail ctx status more)
  op (.body .disarm)
  op (.body (.yield (.error item)))

/-- The guard is disarmed before the records are written. -/
def streamCompletes (total : Nat × Nat) : ServerProg Unit := do
  op (.body .disarm)
  let latencyMs ← elapsedMs ctx.started
  recordUsage ⟨ctx.requestId, ctx.principal, ctx.model, total.1, total.2, latencyMs, streamStatus total.1 total.2⟩
  recordAudit (some ctx.requestId) ctx.principal "chat.completions" ctx.model (streamStatus total.1 total.2)
    (streamDetail ctx status [("metered", toString (decide (0 < total.1 ∨ 0 < total.2)))])

def streamEnds (total : Nat × Nat) : StreamEnd → ServerProg Unit
  | .done => streamCompletes ctx status total
  | .failed isTimeout =>
    streamFails ctx status total "stream_error" [("reason", upstreamErrorStatus isTimeout)] "upstream stream failed"
  | .timedOut => streamFails ctx status total "timeout" [] "upstream stream timed out"

def streamChunks : Nat → List Char → Nat × Nat → ServerProg Unit
  | 0, _, total => do
    let e ← op (.upstream .lastChunk)
    streamEnds ctx status total e
  | chunks + 1, buffer, total => do
    match ← op (.upstream .nextChunk) with
    | .ended e => streamEnds ctx status total e
    | .bytes text =>
      match ssePush st.usageTokens buffer text with
      | .error reason => streamFails ctx status total "stream_error" [("reason", reason)] reason
      | .ok (buffer, usage) =>
        let total := (saturatingAdd total.1 usage.1, saturatingAdd total.2 usage.2)
        op (.body (.updateCounts total.1 total.2))
        op (.body (.yield (.ok text)))
        streamChunks chunks buffer total

def streamBody (chunks : Nat) : ServerProg Unit := do
  op (.body (.arm
    { requestId := ctx.requestId
      principal := ctx.principal
      model := ctx.model
      upstreamModel := ctx.upstreamModel
      externalProvider := ctx.externalProvider
      toolAudit := ctx.toolAudit
      statusCode := status
      started := ctx.started
      inputTokens := 0
      outputTokens := 0 }))
  streamChunks st ctx status chunks [] (0, 0)
  op (.upstream .close)
  op (.permit .drop)

end

def streamUpstream (st : ServerState) (response : UpstreamResponse) (ctx : UpstreamRequestContext) :
    ServerProg Response := do
  if response.status.isSuccess then
    pure (withChatMetadata (buildResponse response.status (.stream (streamBody st ctx response.status response.chunks))
      ctx.requestId) ctx.model ctx.upstreamModel "allowed")
  else
    let latencyMs ← elapsedMs ctx.started
    recordUsage ⟨ctx.requestId, ctx.principal, ctx.model, 0, 0, latencyMs, "upstream_error"⟩
    recordAudit (some ctx.requestId) ctx.principal "chat.completions" ctx.model "upstream_error"
      (streamDetail ctx response.status [])
    op (.permit .drop)
    op (.upstream .close)
    pure (withRequestId (errorResponse 502 "upstream_error" "upstream request failed") ctx.requestId)

/-! ## `json_upstream` -/

def jsonFails (ctx : UpstreamRequestContext) (usageStatus : String) (status : StatusCode) (code message : String) :
    ServerProg Response := do
  recordUpstreamFailure ctx.requestId ctx.principal ctx.model ctx.started usageStatus
  op (.permit .drop)
  pure (withRequestId (errorResponse status code message) ctx.requestId)

def jsonUpstream (st : ServerState) (response : UpstreamResponse) (ctx : UpstreamRequestContext) :
    ServerProg Response := do
  match ← op (.upstream .readBody) with
  | .failed isTimeout => jsonFails ctx (upstreamErrorStatus isTimeout) 502 "upstream_error" "upstream request failed"
  | .timedOut => jsonFails ctx "timeout" 504 "timeout" "upstream request timed out"
  | .bytes text =>
    let latencyMs ← elapsedMs ctx.started
    let usage := st.bodyUsage text
    let statusText := if response.status.isSuccess then "ok" else "upstream_error"
    recordUsage ⟨ctx.requestId, ctx.principal, ctx.model, usage.1, usage.2, latencyMs, statusText⟩
    recordAudit (some ctx.requestId) ctx.principal "chat.completions" ctx.model statusText
      (chatRouteAuditDetail ctx.toolAudit [("status", toString response.status)] ctx.externalProvider)
    op (.permit .drop)
    let answer := buildResponse response.status (.bytes text) ctx.requestId
    pure (if response.status.isSuccess then withChatMetadata answer ctx.model ctx.upstreamModel "allowed" else answer)

end Llmctl
