import Llmctl.Server.World

/-!
# Responses and accounting

The responses of the handlers, and the usage and audit records that they await.
-/

namespace Llmctl

open Async

/-! ## Responses -/

/-- A streamed body is the generator that the connection polls. -/
inductive Body where
  | error (code message : String)
  | json (fields : Json)
  | bytes (text : String)
  | stream (generator : ServerProg Unit)

structure Response where
  status : StatusCode
  requestId : Option Nat := none
  /-- The `x-llmctl` headers: model, upstream model, quota decision. -/
  metadata : Option (String × String × String) := none
  body : Body

def errorResponse (status : StatusCode) (code message : String) : Response where
  status := status
  body := .error code message

def withRequestId (response : Response) (requestId : Nat) : Response :=
  { response with requestId := some requestId }

def withChatMetadata (response : Response) (model upstreamModel quotaDecision : String) : Response :=
  { response with metadata := some (model, upstreamModel, quotaDecision) }

def buildResponse (status : StatusCode) (body : Body) (requestId : Nat) : Response :=
  withRequestId { status := status, body := body } requestId

/-- `str::contains` -/
def containsText (text part : String) : Bool :=
  text.toList.tails.any fun tail => part.toList.isPrefixOf tail

def authErrorResponse (message : String) : Response :=
  if containsText message "too many failed authentication attempts" then
    errorResponse 429 "rate_limited" message
  else errorResponse 401 "unauthorized" message

def modelRouteErrorResponse (err : ModelRouteError) : Response :=
  match err with
  | .unknownAlias _ | .noConfiguredModels => errorResponse 404 "model_not_found" err.text
  | .externalProviderRoutingDisabled _ => errorResponse 400 "bad_request" err.text

/-! ## Audit detail -/

/-- `entry(key).or_insert(value)` -/
def Json.orInsert (detail : Json) (key value : String) : Json :=
  if detail.any (·.1 == key) then detail else detail ++ [(key, value)]

def Json.insert (detail : Json) (key value : String) : Json :=
  detail.filter (·.1 != key) ++ [(key, value)]

def Json.orInsertSome (detail : Json) (key : String) : Option String → Json
  | some value => detail.orInsert key value
  | none => detail

def apiKeyDetail (principal : Principal) (detail : Json) : Json :=
  match principal.keyId with
  | none => detail
  | some keyId =>
    let detail := detail.orInsert "api_key_id" keyId
    let detail := detail.orInsert "api_key_subject" principal.subject
    let detail := detail.orInsert "api_key_team" principal.team
    let detail := detail.orInsertSome "api_key_owner" principal.keyOwner
    let detail := detail.orInsertSome "api_key_purpose" principal.keyPurpose
    detail.orInsertSome "api_key_status" principal.keyStatus

def chatAuditDetail (tool : ToolAuditDetail) (detail : Json) : Json :=
  let detail := detail.insert "tool_schema_count" (toString tool.toolSchemaCount)
  let detail := detail.insert "tool_choice" tool.toolChoice
  detail.insert "tool_call_count" (toString tool.toolCallCount)

def chatRouteAuditDetail (tool : ToolAuditDetail) (detail : Json) (provider : Option ResolvedExternalProvider) :
    Json :=
  let detail := chatAuditDetail tool detail
  match provider with
  | some provider =>
    let detail := detail.insert "provider_routing" "external"
    let detail := detail.insert "provider_id" provider.id
    detail.insert "provider_api_key_source" "env"
  | none => detail.insert "provider_routing" "local"

/-! ## Records -/

/-- A failed insert is only logged. -/
def recordAudit (requestId : Option Nat) (principal : Principal) (action resource outcome : String)
    (detail : Json) : ServerProg Unit := do
  let now ← op .utcNow
  let _ ← storage (Storage.insertAuditEvent
    { requestId := requestId
      at_ := now
      actor := principal.subject
      team := principal.team
      action := action
      resource := resource
      outcome := outcome
      detailJson := apiKeyDetail principal detail })

def auditRejectResponse (requestId : Nat) (principal : Principal) (action resource outcome : String)
    (response : Response) (detail : Json) : ServerProg Response := do
  recordAudit (some requestId) principal action resource outcome detail
  pure (withRequestId response requestId)

def auditReject (requestId : Nat) (principal : Principal) (action resource outcome : String)
    (status : StatusCode) (code message : String) (detail : Json) : ServerProg Response :=
  auditRejectResponse requestId principal action resource outcome (errorResponse status code message) detail

def elapsedMs (started : Nat) : ServerProg Nat := do
  let now ← op .instant
  pure (now - started)

structure UsageRecordInput where
  requestId : Nat
  principal : Principal
  model : String
  inputTokens : Nat
  outputTokens : Nat
  latencyMs : Nat
  status : String
  deriving DecidableEq, Repr

/-- A failed insert is only logged. -/
def recordUsage (input : UsageRecordInput) : ServerProg Unit := do
  let now ← op .utcNow
  let _ ← storage (Storage.insertUsageEvent
    { requestId := input.requestId
      at_ := now
      model := input.model
      actor := input.principal.subject
      team := input.principal.team
      inputTokens := input.inputTokens
      outputTokens := input.outputTokens
      latencyMs := input.latencyMs
      status := input.status })

def recordUpstreamFailure (requestId : Nat) (principal : Principal) (model : String) (started : Nat)
    (status : String) : ServerProg Unit := do
  let latencyMs ← elapsedMs started
  recordUsage ⟨requestId, principal, model, 0, 0, latencyMs, status⟩

def recordSwapExecution (requestId : Option Nat) (principal : Principal) (execution : SwapExecution) :
    ServerProg Unit :=
  recordAudit requestId principal "admin.swap" execution.plan.replacement
    (if execution.success then "allowed" else "failed")
    [("mode", match execution.mode with | .cold => "cold" | .hot => "hot"),
      ("active", execution.plan.active),
      ("replacement", execution.plan.replacement),
      ("steps", reprStr execution.plan.steps),
      ("statuses", reprStr execution.statuses)]

def recordRequestLineageJoins (requestId : Nat) (corpus model : Option String) (source : String) :
    List String → ServerProg Unit
  | [] => pure ()
  | lineageId :: lineageIds => do
    let now ← op .utcNow
    let _ ← storage (Storage.insertRequestLineageJoin
      { requestId := requestId
        at_ := now
        lineageId := lineageId
        model := model
        corpus := corpus
        source := source })
    recordRequestLineageJoins requestId corpus model source lineageIds

/-! ## The prologue of the handlers -/

def drainingResponse (requestId : Nat) : ServerProg (Option Response) := do
  if ← op .isDraining then
    pure (some (withRequestId
      (errorResponse 503 "server_draining" "server is draining; retry on another node") requestId))
  else pure none

def authenticateWithChatScope (requestId : Nat) (action : String) : ServerProg (Except Response Principal) := do
  match ← op .authenticate with
  | .error err =>
    let response ← auditRejectResponse requestId .anonymous action "unknown" "denied" (authErrorResponse err)
      [("reason", err)]
    pure (.error response)
  | .ok principal =>
    if principal.hasScope "chat" then pure (.ok principal)
    else
      let response ← auditReject requestId principal action "unknown" "denied" 403 "forbidden" "missing chat scope"
        [("reason", "missing chat scope")]
      pure (.error response)

end Llmctl
