import Llmctl.Server.Stream
import Llmctl.Server.Native

/-!
# The chat handler

`chatCompletions` checks, admits and routes a chat request, and answers it from an
upstream or from a native engine.
-/

namespace Llmctl

open Async

/-! ## Admission scopes -/

/-- The pairs of a `BTreeMap` built with the smaller limit on a second entry. -/
def insertScope (scope : String) (limit : Nat) (scopes : List (String × Nat)) : List (String × Nat) :=
  match scopes with
  | [] => [(scope, limit)]
  | e :: scopes =>
    if scope = e.1 then (scope, min e.2 limit) :: scopes
    else if scope < e.1 then (scope, limit) :: e :: scopes
    else e :: insertScope scope limit scopes

def admissionScope (q : QuotaConfig) (principal : Principal) : String :=
  if quotaIsSubjectScoped q principal then s!"subject:{principal.subject}" else s!"team:{principal.team}"

def quotaAdmissionScopes (cfg : Config) (principal : Principal) : List (String × Nat) :=
  (matchingQuotaPolicies cfg.quotas principal).foldl
    (fun scopes q =>
      if q.maxConcurrency = 0 then scopes else insertScope (admissionScope q principal) q.maxConcurrency scopes) []

/-! ## The worker's gate -/

/-- `WorkerAdmission::try_enter` -/
def tryEnter (upstreamAlias : String) (gate : Nat) : ServerProg Bool := do
  if ← op (.gate (.isAdmitting gate)) then
    op (.gate (.increment upstreamAlias gate))
    -- `drain` may have closed the gate since the first look
    if ← op (.gate (.isAdmitting gate)) then pure true
    else
      op (.gate .decrement)
      pure false
  else pure false

def modelUnavailable (requestId : Nat) (upstreamAlias : String) : Response :=
  withRequestId (errorResponse 503 "model_unavailable"
    s!"model {upstreamAlias} is not currently serving; retry shortly") requestId

/-- The gate of the worker, or `none` where no supervisor is present. -/
def workerAdmission (st : ServerState) (upstreamAlias : String) : ServerProg (Option (Option Nat)) := do
  match st.workerControl with
  | .none => pure none
  | .shared =>
    let gate ← op (.worker (.getAdmission upstreamAlias))
    pure (some gate)
  | .locked =>
    op (.worker .lockSupervisor)
    let gate ← op (.worker (.getAdmission upstreamAlias))
    op (.worker .unlockSupervisor)
    pure (some gate)

/-- Whether the request now holds a guard of the worker, or the response that refuses it. -/
def admitToWorker (st : ServerState) (requestId : Nat) (upstreamAlias : String) :
    ServerProg (Except Response Bool) := do
  match ← workerAdmission st upstreamAlias with
  | none => pure (.ok false)
  | some none => pure (.error (modelUnavailable requestId upstreamAlias))
  | some (some gate) =>
    if ← tryEnter upstreamAlias gate then pure (.ok true)
    else pure (.error (modelUnavailable requestId upstreamAlias))

def leaveWorker (guarded : Bool) : ServerProg Unit := do
  if guarded then op (.gate .decrement) else pure ()

/-! ## After the admission -/

section
variable (st : ServerState) (request : HttpRequest) (principal : Principal) (started : Nat)

def upstreamContext (route : ResolvedModelRoute) (chat : ChatCompletionRequest) (upstreamModel : String)
    (admission : AdmissionPermit) : UpstreamRequestContext where
  requestId := request.requestId
  principal := principal
  model := route.requestedAlias
  upstreamModel := upstreamModel
  externalProvider := route.externalProvider
  toolAudit := chat.toolAuditDetail
  started := started
  admission := admission

def dispatchFailed (model : String) : DispatchFailure → ServerProg Response
  | .badRequest err => pure (withRequestId (errorResponse 400 "bad_request" err) request.requestId)
  | .noUpstream message =>
    pure (withRequestId (errorResponse 502 "upstream_unavailable" message) request.requestId)
  | .request status code message usageStatus => do
    let latencyMs ← elapsedMs started
    recordUsage ⟨request.requestId, principal, model, 0, 0, latencyMs, usageStatus⟩
    pure (withRequestId (errorResponse status code message) request.requestId)

/-- The proxied answer; the worker's guard is dropped when the handler returns. -/
def proxyChat (route : ResolvedModelRoute) (chat : ChatCompletionRequest) (outboundBody : String)
    (admission : AdmissionPermit) (guarded : Bool) : ServerProg Response := do
  match ← dispatchChatRequest st route outboundBody ⟨request.requestId, principal, route.requestedAlias, started⟩ with
  | .ok (answer, upstreamModel) =>
    let ctx := upstreamContext request principal started route chat upstreamModel admission
    let response ← if chat.stream then streamUpstream st answer ctx else jsonUpstream st answer ctx
    leaveWorker guarded
    pure response
  | .error failure =>
    let response ← dispatchFailed request principal started route.requestedAlias failure
    leaveWorker guarded
    op (.permit .drop)
    pure response

def hasSubprocessUpstream (route : ResolvedModelRoute) : Bool :=
  (mapGet st.upstreams route.upstreamAlias).isSome || (mapGet st.upstreams "*").isSome

/-- What `chat_completions` does once it holds the permit. -/
def serveChat (route : ResolvedModelRoute) (chat : ChatCompletionRequest) (outboundBody : String)
    (admission : AdmissionPermit) : ServerProg Response := do
  if route.externalProvider.isSome || hasSubprocessUpstream st route then
    if route.externalProvider.isSome then proxyChat st request principal started route chat outboundBody admission false
    else
      match ← admitToWorker st request.requestId route.upstreamAlias with
      | .error response =>
        op (.permit .drop)
        pure response
      | .ok guarded => proxyChat st request principal started route chat outboundBody admission guarded
  else
    dispatchNativeChat st
      { requestId := request.requestId
        principal := principal
        model := route.requestedAlias
        upstreamModel := route.upstreamAlias
        toolAudit := chat.toolAuditDetail
        started := started
        admission := admission }
      chat

/-! ## The admission -/

def admitChat (route : ResolvedModelRoute) (chat : ChatCompletionRequest) (outboundBody : String) :
    ServerProg Response := do
  let model := route.requestedAlias
  recordRequestLineageJoins request.requestId request.corpus (some model) "chat.completions" request.lineageIds
  match ← storage (admitRequest st.storage st.cfg.quotas principal model (some request.requestId)
      [("configured_quotas", toString st.cfg.quotas.length)]) with
  | .error err =>
    auditReject request.requestId principal "chat.completions" model "rejected" 500 "quota_error"
      "quota admission is unavailable" [("reason", err)]
  | .ok quota =>
    if quota.allowed then
      recordAudit (some request.requestId) principal "chat.completions" model "allowed"
        (chatRouteAuditDetail chat.toolAuditDetail
          [("stream", toString chat.stream), ("upstream_model", route.upstreamAlias)] route.externalProvider)
      let scopes := quotaAdmissionScopes st.cfg principal
      if ← op (.permit (.tryAcquireForAll scopes)) then
        serveChat st request principal started route chat outboundBody (scopes.map (·.1))
      else
        auditReject request.requestId principal "chat.completions" model "denied" 429 "rate_limit_exceeded"
          "server is busy; retry later" [("reason", "admission_limit_exceeded")]
    else
      auditReject request.requestId principal "chat.completions" model "denied" 429 "quota_exceeded" quota.reason
        [("reason", quota.reason)]

/-! ## Guardrails -/

def setContent (messages : List ChatMessage) (redaction : Nat × String) : List ChatMessage :=
  messages.modify redaction.1 fun message => { message with content := redaction.2 }

def applyMessageRedactions (body : String) (redactions : List (Nat × String)) : Except String String :=
  if redactions.isEmpty then .ok body else st.setMessages body redactions

def badRequestBody : String := "request body must be valid JSON"

/-- The verdict on the messages, and the request and body that it leaves. -/
def guardChat (route : ResolvedModelRoute) (chat : ChatCompletionRequest) : ServerProg Response := do
  let model := route.requestedAlias
  match st.guardrails with
  | none => admitChat st request principal started route chat request.body
  | some evaluate =>
    let verdict := evaluate (chat.messages.mapIdx fun index message => (index, message.content))
    if !verdict.blockReasons.isEmpty then
      let reasons := ", ".intercalate verdict.blockReasons
      auditReject request.requestId principal "chat.completions" model "denied" 400 "guardrail_blocked"
        s!"request blocked by guardrails: {reasons}"
        [("reason", "guardrail_violation"), ("guardrails", ", ".intercalate verdict.blockReasons),
          ("findings", verdict.findings.getD "")]
    else
      match verdict.findings with
      | some findings =>
        recordAudit (some request.requestId) principal "chat.completions" model "flagged"
          [("reason", "guardrail_match"), ("findings", findings),
            ("redacted", toString (!verdict.redactions.isEmpty))]
      | none => pure ()
      match applyMessageRedactions st request.body verdict.redactions with
      | .error err =>
        auditReject request.requestId principal "chat.completions" model "rejected" 400 "bad_request" badRequestBody
          [("reason", err)]
      | .ok outboundBody =>
        let chat := { chat with messages := verdict.redactions.foldl setContent chat.messages }
        admitChat st request principal started route chat outboundBody

end

/-! ## The handler -/

def chatCompletions (st : ServerState) (request : HttpRequest) : ServerProg Response := do
  match ← drainingResponse request.requestId with
  | some response => pure response
  | none =>
    let started ← op .instant
    match ← authenticateWithChatScope request.requestId "chat.completions" with
    | .error response => pure response
    | .ok principal =>
      match st.parseChat request.body with
      | .error err =>
        auditReject request.requestId principal "chat.completions" "unknown" "rejected" 400 "bad_request"
          badRequestBody [("reason", err)]
      | .ok chat =>
        match resolveModelRoute st.cfg chat.model request.requestId with
        | .error err =>
          auditRejectResponse request.requestId principal "chat.completions" chat.model "rejected"
            (modelRouteErrorResponse err) [("reason", err.text)]
        | .ok route => guardChat st request principal started route chat

end Llmctl
