import Llmctl.Server.Accounting

/-!
# The embeddings handler
-/

namespace Llmctl

open Async

def NativeEmbeddingMode.asStr : NativeEmbeddingMode → String
  | .semantic => "semantic"
  | .devFallback => "dev-fallback"

structure NativeEmbeddingSelection where
  mode : NativeEmbeddingMode
  modelAlias : String
  deriving DecidableEq, Repr

def nativeEmbeddingSelection (cfg : Config) (route : ResolvedModelRoute) : Except String NativeEmbeddingSelection :=
  let modelAlias := cfg.embeddings.modelAlias.getD route.requestedAlias
  if cfg.models.any (·.alias_ == modelAlias) then .ok ⟨cfg.embeddings.mode, modelAlias⟩
  else .error s!"native embedding model alias '{modelAlias}' is not configured"

def nativeEmbeddingMetadata (metadata : Json) (requestId : Nat) (route : ResolvedModelRoute)
    (selection : NativeEmbeddingSelection) : Json :=
  let metadata := metadata.insert "llmctl.request_id" (toString requestId)
  let metadata := metadata.insert "llmctl.requested_model" route.requestedAlias
  let metadata := metadata.insert "llmctl.upstream_model" route.upstreamAlias
  let metadata := metadata.insert "llmctl.embedding_mode" selection.mode.asStr
  metadata.insert "llmctl.embedding_model_alias" selection.modelAlias

section
variable (st : ServerState) (request : HttpRequest) (principal : Principal) (started : Nat)

def embeddingDetail (reason : String) (selection : NativeEmbeddingSelection) : Json :=
  [("reason", reason), ("runtime_backend", "candle-native"), ("embedding_mode", selection.mode.asStr),
    ("embedding_model_alias", selection.modelAlias)]

def nativeEmbeddingResponse (route : ResolvedModelRoute) (selection : NativeEmbeddingSelection)
    (response : NativeEmbeddingResponse) : ServerProg Response := do
  let count := toString response.embeddings.length
  let dimensions := toString ((response.embeddings.head?.map (·.length)).getD 0)
  let latencyMs ← elapsedMs started
  recordUsage ⟨request.requestId, principal, route.requestedAlias, response.usage.inputTokens, 0, latencyMs,
    if response.semantic then "native_embedding_semantic" else "native_embedding_dev_fallback"⟩
  recordAudit (some request.requestId) principal "embeddings" route.requestedAlias "ok"
    [("runtime_backend", "candle-native"), ("embedding_backend", response.backend),
      ("embedding_status", response.status), ("embedding_mode", selection.mode.asStr),
      ("embedding_model_alias", selection.modelAlias), ("embedding_count", count),
      ("embedding_dimensions", dimensions), ("token_accounting", response.usage.accountingMode),
      ("semantic", toString response.semantic)]
  let body : Body := .json
    [("object", "list"), ("model", response.model), ("data", reprStr response.embeddings),
      ("prompt_tokens", toString response.usage.inputTokens), ("embedding_dimensions", dimensions)]
  pure (withChatMetadata (buildResponse 200 body request.requestId) route.requestedAlias route.upstreamAlias "allowed")

def semanticEmbeddings (route : ResolvedModelRoute) (selection : NativeEmbeddingSelection)
    (native : NativeEmbeddingRequest) : ServerProg Response := do
  if !st.nativeEngines.contains selection.modelAlias then
    auditReject request.requestId principal "embeddings" route.requestedAlias "error" 503
      "native_embedding_model_unavailable" "semantic native embedding model is not loaded"
      (embeddingDetail "native_embedding_model_unavailable" selection)
  else
    -- The scheduler passes embeddings straight on to its engine.
    match ← op (.sched (.embeddings selection.modelAlias native)) with
    | .ok response => nativeEmbeddingResponse request principal started route selection response
    | .error _ =>
      auditReject request.requestId principal "embeddings" route.requestedAlias "error" 503
        "native_embedding_runtime_error" "native runtime failed to serve semantic embeddings"
        (embeddingDetail "native_embedding_runtime_error" selection)

def fallbackEmbeddings (route : ResolvedModelRoute) (selection : NativeEmbeddingSelection)
    (native : NativeEmbeddingRequest) : ServerProg Response :=
  match st.deterministicEmbeddings native with
  | .ok response => nativeEmbeddingResponse request principal started route selection response
  | .error _ =>
    pure (withRequestId (errorResponse 500 "native_embedding_error" "native embedding fallback failed")
      request.requestId)

def serveEmbeddings (route : ResolvedModelRoute) (embedding : EmbeddingRequest) : ServerProg Response :=
  match nativeEmbeddingSelection st.cfg route with
  | .error err =>
    auditReject request.requestId principal "embeddings" route.requestedAlias "rejected" 503
      "native_embedding_model_unavailable" err [("reason", err)]
  | .ok selection =>
    let native : NativeEmbeddingRequest :=
      { model := selection.modelAlias
        input := embedding.input
        metadata := nativeEmbeddingMetadata embedding.metadata request.requestId route selection }
    match selection.mode with
    | .semantic => semanticEmbeddings st request principal started route selection native
    | .devFallback => fallbackEmbeddings st request principal started route selection native

end

def unsupportedEncodingFormat : String := "native embeddings support only float encoding_format"

def nativeEmbeddings (st : ServerState) (request : HttpRequest) : ServerProg Response := do
  match ← drainingResponse request.requestId with
  | some response => pure response
  | none =>
    let started ← op .instant
    match ← authenticateWithChatScope request.requestId "embeddings" with
    | .error response => pure response
    | .ok principal =>
      match st.parseEmbedding request.body with
      | .error err =>
        auditReject request.requestId principal "embeddings" "unknown" "rejected" 400 "bad_request"
          "request body must be valid JSON" [("reason", err)]
      | .ok embedding =>
        if embedding.encodingFormat.any (· != "float") then
          auditReject request.requestId principal "embeddings" embedding.model "rejected" 400
            "unsupported_encoding_format" unsupportedEncodingFormat [("reason", unsupportedEncodingFormat)]
        else
          match resolveModelRoute st.cfg embedding.model request.requestId with
          | .error err =>
            auditRejectResponse request.requestId principal "embeddings" embedding.model "rejected"
              (modelRouteErrorResponse err) [("reason", err.text)]
          | .ok route => serveEmbeddings st request principal started route embedding

end Llmctl
