import Llmctl.Async.Replay
import Llmctl.Client.EventsSound
import Llmctl.Server.ShutdownSound

/-!
# What clients are told

Every error that a request ends with has one of a few codes, each under its own status, and
the client makes of it the error that belongs to the code, with the server's message.
-/

namespace Llmctl

open Async

/-! ## Errors, as the client reads them -/

/-- The object of `error_response`. -/
def errorObject (order : MapOrder) (status : Nat) (code message : String) : Value :=
  order.object
    [("error", order.object
      [("message", .string message), ("type", .string code), ("code", .string code), ("status", .number (toString status))])]

namespace Client

structure ErrorBody where
  message : String
  kind : Option String
  code : Option String
  deriving DecidableEq, Repr

def ErrorBody.read (v : Value) : Option ErrorBody := do
  let fields ← structFields ["message", "type", "code"] v
  some ⟨← required readString fields "message", ← optional readString fields "type", ← optional readString fields "code"⟩

/-- The envelope has no other field. -/
def readErrorEnvelope (v : Value) : Option ErrorBody := do
  let fields ← structFields ["error"] v
  required ErrorBody.read fields "error"

/-- The rows of the match, from the first to the last. -/
def classify (status : Nat) (code message : String) : LlmctlError :=
  if status = 401 ∨ status = 403 then .auth message
  else if status = 429 then if code = "quota_exceeded" then .quota message else .rateLimited message
  else if status = 408 ∨ status = 504 ∨ code = "timeout" then .timeout message
  else if status = 502 ∨ status = 503 ∨ code ∈ ["upstream_unavailable", "upstream_circuit_open", "unknown_model"] then
    .modelUnavailable message
  else if status = 400 ∨ 400 ≤ status ∧ status < 500 then .badRequest message
  else .server status message

section
variable (canonicalReason : Nat → Option String)

/-- The body is missing where it could not be read. -/
def errorFromResponse (status : Nat) (body : Option String) : LlmctlError :=
  let parsed := (body.bind Value.fromStr).bind readErrorEnvelope
  let code := (parsed.bind fun error => error.code.or error.kind).getD ((canonicalReason status).getD "error")
  let message := ((parsed.map (·.message)).or body).getD ((canonicalReason status).getD "request failed")
  classify status code message

variable (order : MapOrder) (status : Nat) (code message : String)

theorem errorObject_integral : (errorObject order status code message).Integral := by
  refine object_integral order fun field hfield => ?_
  simp only [List.mem_singleton] at hfield
  subst hfield
  refine object_integral order fun field hfield => ?_
  simp only [List.mem_cons, List.not_mem_nil, or_false] at hfield
  rcases hfield with rfl | rfl | rfl | rfl
  · trivial
  · trivial
  · trivial
  · exact ⟨status, rfl⟩

theorem readErrorEnvelope_errorObject :
    readErrorEnvelope (errorObject order status code message) = some ⟨message, some code, some code⟩ := by
  have hinner : ErrorBody.read (order.object [("message", .string message), ("type", .string code), ("code", .string code),
      ("status", .number (toString status))]) = some ⟨message, some code, some code⟩ := by
    have hkeys : ([("message", .string message), ("type", .string code), ("code", .string code),
        ("status", .number (toString status))].map fun field : String × Value => field.1).Nodup := by simp
    rw [ErrorBody.read, structFields_object order hkeys, Option.bind_eq_bind, Option.bind_some, required_arrange order hkeys,
      optional_arrange order hkeys, optional_arrange order hkeys]
    simp [required, optional, field, readString]
  unfold readErrorEnvelope errorObject
  rw [structFields_object order (by simp), Option.bind_eq_bind, Option.bind_some, required_arrange order (by simp)]
  simpa [required, field] using hinner

/-- The client finds the code and the message of each error that the server writes. -/
theorem errorFromResponse_errorObject :
    errorFromResponse canonicalReason status (some (errorObject order status code message).render) =
      classify status code message := by
  have hparsed : Value.fromStr (errorObject order status code message).render = some (errorObject order status code message) :=
    Value.fromStr_render (errorObject_integral order status code message).numeric
  simp [errorFromResponse, hparsed, readErrorEnvelope_errorObject]

end

end Client

/-! ## Codes -/

/-- What a code is to the client. -/
def clientError : String → Option (String → Client.LlmctlError)
  | "unauthorized" | "forbidden" => some .auth
  | "quota_exceeded" => some .quota
  | "rate_limited" | "rate_limit_exceeded" => some .rateLimited
  | "timeout" => some .timeout
  | "server_draining" | "model_unavailable" | "upstream_unavailable" | "upstream_error" | "upstream_circuit_open"
  | "provider_api_key_unavailable" | "native_runtime_not_ready" | "native_runtime_error"
  | "native_embedding_model_unavailable" | "native_embedding_runtime_error" => some .modelUnavailable
  | "bad_request" | "guardrail_blocked" | "unsupported_encoding_format" | "unknown_worker" | "model_not_found"
  | "native_swap_unavailable" => some .badRequest
  | "quota_error" | "native_embedding_error" => some (.server 500)
  | _ => none

def errorCodes : List (StatusCode × String) :=
  [(400, "bad_request"), (400, "guardrail_blocked"), (400, "unsupported_encoding_format"), (400, "unknown_worker"),
    (401, "unauthorized"), (403, "forbidden"), (404, "model_not_found"), (404, "native_swap_unavailable"),
    (429, "quota_exceeded"), (429, "rate_limited"), (429, "rate_limit_exceeded"), (500, "quota_error"),
    (500, "native_embedding_error"), (502, "upstream_unavailable"), (502, "upstream_error"), (502, "upstream_circuit_open"),
    (502, "provider_api_key_unavailable"), (503, "server_draining"), (503, "model_unavailable"),
    (503, "native_runtime_not_ready"), (503, "native_runtime_error"), (503, "native_embedding_model_unavailable"),
    (503, "native_embedding_runtime_error"), (504, "timeout")]

theorem classify_errorCodes {status : StatusCode} {code : String} (h : (status, code) ∈ errorCodes) (message : String) :
    (clientError code).map (fun err => err message) = some (Client.classify status code message) := by
  have hall : ∀ entry ∈ errorCodes,
      (clientError entry.2).map (fun err => err message) = some (Client.classify entry.1 entry.2 message) := by
    unfold errorCodes
    simp [clientError, Client.classify]
  exact hall _ h

/-! ## Responses -/

/-- A report of a swap that failed is the one whole answer that is no success. -/
def Response.Known (response : Response) : Prop :=
  match response.body with
  | .error code _ => (response.status, code) ∈ errorCodes
  | .json _ => response.status = 200 ∨ response.status = 409
  | .stream _ => response.status.isSuccess = true
  | .bytes _ => True

abbrev Tells (p : ServerProg Response) : Prop := p.Returns Response.Known

def DispatchFailure.Known : DispatchFailure → Prop
  | .request status code _ _ => (status, code) ∈ errorCodes
  | .noUpstream _ | .badRequest _ => True

section
variable {α β : Type} {st : ServerState} {requestId : Nat} {principal : Principal}

theorem returns_of_forall {Q : α → Prop} (h : ∀ a, Q a) (p : ServerProg α) : p.Returns Q := by
  induction p with
  | done a => exact h a
  | call o k ih => exact ih

/-- Whatever the first program does, the rest returns `Q`. -/
theorem returns_after {Q : β → Prop} (p : ServerProg α) {f : α → ServerProg β} (h : ∀ a, (f a).Returns Q) :
    (p >>= f).Returns Q :=
  Prog.Returns.bind (returns_of_forall (Q := fun _ => True) (fun _ => trivial) p) fun a _ => h a

theorem withRequestId_known {response : Response} (h : response.Known) : (withRequestId response requestId).Known := h

theorem error_tells {status : StatusCode} {code : String} (h : (status, code) ∈ errorCodes) (message : String) (requestId : Nat) :
    Tells (pure (withRequestId (errorResponse status code message) requestId)) := h

theorem authErrorResponse_known (err : String) : (authErrorResponse err).Known := by
  unfold authErrorResponse
  split
  · exact (by decide : ((429 : StatusCode), "rate_limited") ∈ errorCodes)
  · exact (by decide : ((401 : StatusCode), "unauthorized") ∈ errorCodes)

theorem modelRouteErrorResponse_known (err : ModelRouteError) : (modelRouteErrorResponse err).Known := by
  cases err with
  | externalProviderRoutingDisabled _ => exact (by decide : ((400 : StatusCode), "bad_request") ∈ errorCodes)
  | _ => exact (by decide : ((404 : StatusCode), "model_not_found") ∈ errorCodes)

theorem auditRejectResponse_tells (action resource outcome : String) {response : Response} (detail : Json) (h : response.Known) :
    Tells (auditRejectResponse requestId principal action resource outcome response detail) :=
  returns_after _ fun _ => h

theorem auditReject_tells (action resource outcome : String) {status : StatusCode} {code : String} (message : String)
    (detail : Json) (h : (status, code) ∈ errorCodes) :
    Tells (auditReject requestId principal action resource outcome status code message detail) :=
  auditRejectResponse_tells action resource outcome detail h

/-! ## Dispatch -/

theorem upstreamRequestError_known (isTimeout : Bool) : (upstreamRequestError isTimeout).Known := by
  cases isTimeout with
  | true => exact (by decide : ((504 : StatusCode), "timeout") ∈ errorCodes)
  | false => exact (by decide : ((502 : StatusCode), "upstream_error") ∈ errorCodes)

theorem dispatchTarget_known {route : ResolvedModelRoute} {failure : DispatchFailure}
    (h : dispatchTarget st route = .error failure) : failure.Known := by
  have hkey : ∀ message, (providerApiKeyUnavailable message).Known := fun _ =>
    (by decide : ((502 : StatusCode), "provider_api_key_unavailable") ∈ errorCodes)
  unfold dispatchTarget at h
  split at h
  · split at h
    · exact Except.error.inj h ▸ hkey _
    · split at h
      · exact Except.error.inj h ▸ hkey _
      · cases h
  · split at h
    · cases h
    · exact Except.error.inj h ▸ trivial

/-- What a turn of the loop remembers. -/
def KnownTurn (turn : UpstreamResponse ⊕ DispatchFailure) : Prop := ∀ failure, turn = .inr failure → failure.Known

theorem knownTurn_inl (response : UpstreamResponse) : KnownTurn (.inl response) := fun _ h => by cases h

theorem knownTurn_inr {failure : DispatchFailure} (h : failure.Known) : KnownTurn (.inr failure) :=
  fun _ heq => Sum.inr.inj heq ▸ h

theorem sendAttempt_returns (ctx : DispatchContext) (k : String) (target : DispatchTarget) (body : String) :
    (sendAttempt ctx k target body).Returns KnownTurn := by
  have herror : DispatchFailure.Known (.request 502 "upstream_error" "upstream request failed" "upstream_error") :=
    upstreamRequestError_known false
  have htimeout : DispatchFailure.Known (.request 504 "timeout" "upstream request timed out" "timeout") :=
    upstreamRequestError_known true
  refine fun (sent : Sent) => ?_
  cases sent with
  | response r =>
    dsimp only [Prog.bind]
    by_cases hretry : shouldRetryUpstreamStatus r.status = true
    · rw [if_pos hretry]
      exact returns_after _ fun _ => returns_after _ fun _ => returns_after _ fun _ => knownTurn_inr herror
    · rw [if_neg hretry]
      by_cases hsuccess : r.status.isSuccess = true
      · rw [if_pos hsuccess]
        exact returns_after _ fun _ => knownTurn_inl r
      · rw [if_neg hsuccess]
        exact knownTurn_inl r
  | failed isTimeout =>
    dsimp only [Prog.bind]
    exact returns_after _ fun _ => returns_after _ fun _ => knownTurn_inr (upstreamRequestError_known isTimeout)
  | timedOut =>
    dsimp only [Prog.bind]
    exact returns_after _ fun _ => returns_after _ fun _ => knownTurn_inr htimeout

theorem dispatchAttempt_returns (ctx : DispatchContext) (k : String) (target : DispatchTarget) (body : String) :
    (dispatchAttempt ctx k target body).Returns KnownTurn := by
  refine fun (verdict : Verdict) => ?_
  cases verdict with
  | refused => exact knownTurn_inr (by decide : ((502 : StatusCode), "upstream_circuit_open") ∈ errorCodes)
  | closed => exact sendAttempt_returns ctx k target body
  | probe => exact sendAttempt_returns ctx k target body

def KnownEnd (result : Except DispatchFailure (UpstreamResponse × String)) : Prop :=
  ∀ failure, result = .error failure → failure.Known

theorem dispatchAliases_returns (route : ResolvedModelRoute) (body : String) (ctx : DispatchContext) (aliases : List String) :
    ∀ last : Option DispatchFailure, (∀ failure ∈ last, failure.Known) →
      (dispatchAliases st route body ctx last aliases).Returns KnownEnd := by
  have herror : ∀ {failure : DispatchFailure}, failure.Known → KnownEnd (.error failure) :=
    fun h _ heq => Except.error.inj heq ▸ h
  induction aliases with
  | nil =>
    intro last hlast
    cases last with
    | none => exact herror trivial
    | some failure => exact herror (hlast failure rfl)
  | cons k aliases ih =>
    intro last hlast
    unfold dispatchAliases
    split
    · exact herror trivial
    · split
      · rename_i failure htarget
        exact herror (dispatchTarget_known htarget)
      · refine Prog.Returns.bind (dispatchAttempt_returns ctx k _ _) fun turn hturn => ?_
        cases turn with
        | inl response => exact fun _ h => by cases h
        | inr failure =>
          apply ih
          intro other hother
          exact Option.some.inj hother ▸ hturn failure rfl

/-! ## Answers of an upstream -/

theorem streamUpstream_tells (response : UpstreamResponse) (ctx : UpstreamRequestContext) :
    Tells (streamUpstream st response ctx) := by
  unfold streamUpstream
  by_cases hsuccess : response.status.isSuccess = true
  · rw [if_pos hsuccess]
    exact hsuccess
  · rw [if_neg hsuccess]
    exact returns_after _ fun _ => returns_after _ fun _ => returns_after _ fun _ => returns_after _ fun _ =>
      returns_after _ fun _ => error_tells (by decide) _ _

theorem jsonFails_tells (ctx : UpstreamRequestContext) (usageStatus : String) {status : StatusCode} {code : String}
    (message : String) (h : (status, code) ∈ errorCodes) : Tells (jsonFails ctx usageStatus status code message) :=
  returns_after _ fun _ => returns_after _ fun _ => error_tells h _ _

theorem jsonUpstream_tells (response : UpstreamResponse) (ctx : UpstreamRequestContext) : Tells (jsonUpstream st response ctx) := by
  refine fun (read : BodyRead) => ?_
  cases read with
  | failed isTimeout => exact jsonFails_tells ctx _ _ (by decide)
  | timedOut => exact jsonFails_tells ctx _ _ (by decide)
  | bytes text =>
    dsimp only [Prog.bind]
    refine returns_after _ fun latencyMs => returns_after _ fun _ => returns_after _ fun _ => returns_after _ fun _ => ?_
    show Response.Known (if response.status.isSuccess then _ else _)
    split <;> trivial

theorem dispatchFailed_tells (request : HttpRequest) (started : Nat) (model : String) {failure : DispatchFailure}
    (h : failure.Known) : Tells (dispatchFailed request principal started model failure) := by
  cases failure with
  | badRequest err => exact error_tells (by decide) _ _
  | noUpstream message => exact error_tells (by decide) _ _
  | request status code message usageStatus => exact returns_after _ fun _ => returns_after _ fun _ => error_tells h _ _

theorem proxyChat_tells (request : HttpRequest) (started : Nat) (route : ResolvedModelRoute) (chat : ChatCompletionRequest)
    (outboundBody : String) (admission : AdmissionPermit) (guarded : Bool) :
    Tells (proxyChat st request principal started route chat outboundBody admission guarded) := by
  refine Prog.Returns.bind (dispatchAliases_returns route outboundBody _ _ none fun _ h => by cases h) fun result hresult => ?_
  cases result with
  | ok answered =>
    obtain ⟨answer, upstreamModel⟩ := answered
    dsimp only
    split
    · exact (streamUpstream_tells answer _).bind fun response hresponse => returns_after _ fun _ => hresponse
    · exact (jsonUpstream_tells answer _).bind fun response hresponse => returns_after _ fun _ => hresponse
  | error failure =>
    refine Prog.Returns.bind (dispatchFailed_tells request started _ (hresult failure rfl)) fun response hresponse => ?_
    exact returns_after _ fun _ => returns_after _ fun _ => hresponse

/-! ## Native engines -/

theorem nativeErrorResponse_known (err : String) : (nativeErrorResponse err).Known := by
  unfold nativeErrorResponse
  split
  · exact (by decide : ((429 : StatusCode), "rate_limit_exceeded") ∈ errorCodes)
  · exact (by decide : ((503 : StatusCode), "native_runtime_error") ∈ errorCodes)

theorem dispatchNativeChat_tells (context : NativeChatContext) (request : ChatCompletionRequest) :
    Tells (dispatchNativeChat st context request) := by
  unfold dispatchNativeChat
  by_cases hloaded : (!st.nativeEngines.contains context.upstreamModel) = true
  · rw [if_pos hloaded]
    exact returns_after _ fun _ => returns_after _ fun _ => returns_after _ fun _ => returns_after _ fun _ =>
      error_tells (by decide) _ _
  · rw [if_neg hloaded]
    by_cases hstream : request.stream = true
    · simp only [if_pos hstream]
      exact returns_after _ fun _ => (rfl : StatusCode.isSuccess 200 = true)
    · simp only [if_neg hstream]
      refine returns_after _ fun answer => ?_
      cases answer with
      | error err =>
        exact returns_after _ fun _ => returns_after _ fun _ => returns_after _ fun _ => returns_after _ fun _ =>
          nativeErrorResponse_known err
      | ok response =>
        exact returns_after _ fun _ => returns_after _ fun _ => returns_after _ fun _ => returns_after _ fun _ => .inl rfl

/-! ## Chat -/

section
variable (request : HttpRequest) (started : Nat) (route : ResolvedModelRoute) (chat : ChatCompletionRequest) (outboundBody : String)

theorem admitToWorker_returns (upstreamAlias : String) :
    (admitToWorker st requestId upstreamAlias).Returns fun entry => ∀ response, entry = .error response → response.Known := by
  have hrefused : ∀ response, (.error (modelUnavailable requestId upstreamAlias) : Except Response Bool) = .error response →
      response.Known := by
    intro response heq
    exact Except.error.inj heq ▸ (by decide : ((503 : StatusCode), "model_unavailable") ∈ errorCodes)
  refine returns_after _ fun entry => ?_
  cases entry with
  | none => exact fun _ h => by cases h
  | some gate =>
    cases gate with
    | none => exact hrefused
    | some gate =>
      refine returns_after _ fun entered => ?_
      split
      · exact fun _ h => by cases h
      · exact hrefused

theorem serveChat_tells (admission : AdmissionPermit) :
    Tells (serveChat st request principal started route chat outboundBody admission) := by
  unfold serveChat
  split
  · split
    · exact proxyChat_tells request started route chat outboundBody admission false
    · refine Prog.Returns.bind (admitToWorker_returns route.upstreamAlias) fun entry hentry => ?_
      cases entry with
      | error response => exact returns_after _ fun _ => hentry response rfl
      | ok guarded => exact proxyChat_tells request started route chat outboundBody admission guarded
  · exact dispatchNativeChat_tells _ chat

theorem admitChat_tells : Tells (admitChat st request principal started route chat outboundBody) := by
  refine returns_after _ fun _ => returns_after _ fun decision => ?_
  cases decision with
  | error err => exact auditReject_tells _ _ _ _ _ (by decide)
  | ok quota =>
    by_cases hallowed : quota.allowed = true
    · simp only [if_pos hallowed]
      refine returns_after _ fun _ => returns_after _ fun acquired => ?_
      split
      · exact serveChat_tells request started route chat outboundBody _
      · exact auditReject_tells _ _ _ _ _ (by decide)
    · simp only [if_neg hallowed]
      exact auditReject_tells _ _ _ _ _ (by decide)

theorem guardChat_tells : Tells (guardChat st request principal started route chat) := by
  unfold guardChat
  split
  · exact admitChat_tells request started route chat request.body
  · rename_i evaluate _
    dsimp only
    split
    · exact auditReject_tells _ _ _ _ _ (by decide)
    · have hadmitted : ∀ chat outboundBody, Tells (admitChat st request principal started route chat outboundBody) :=
        admitChat_tells request started route
      split
      · refine returns_after _ fun _ => ?_
        split
        · exact auditReject_tells _ _ _ _ _ (by decide)
        · exact hadmitted _ _
      · split
        · exact auditReject_tells _ _ _ _ _ (by decide)
        · exact hadmitted _ _

end

/-! ## Routes -/

/-- A program that refuses or goes on. -/
abbrev Refuses (p : ServerProg (Except Response Principal)) : Prop :=
  p.Returns fun entry => ∀ response, entry = .error response → response.Known

theorem authorizeScope_refuses (action resource scope : String) : Refuses (authorizeScope requestId action resource scope) := by
  have hrefused : ∀ {p : ServerProg Response}, Tells p →
      Refuses (p >>= fun response => pure (.error response)) := fun hp =>
    Prog.Returns.bind hp fun response hresponse other heq => Except.error.inj heq ▸ hresponse
  refine returns_after _ fun identity => ?_
  cases identity with
  | error err => exact hrefused (auditRejectResponse_tells _ _ _ _ (authErrorResponse_known err))
  | ok principal =>
    by_cases hscope : principal.hasScope scope = true
    · simp only [if_pos hscope]
      exact fun _ h => by cases h
    · simp only [if_neg hscope]
      exact hrefused (auditReject_tells _ _ _ _ _ (by decide))

theorem authenticateWithChatScope_refuses (action : String) : Refuses (authenticateWithChatScope requestId action) :=
  authorizeScope_refuses action "unknown" "chat"

theorem drainingResponse_returns :
    (drainingResponse requestId).Returns fun draining => ∀ response, draining = some response → response.Known := by
  refine fun (draining : Bool) => ?_
  cases draining with
  | true =>
    intro response heq
    exact Option.some.inj heq ▸ (by decide : ((503 : StatusCode), "server_draining") ∈ errorCodes)
  | false => exact fun _ h => by cases h

theorem drained_tells {f : Option Response → ServerProg Response} (hdrained : ∀ response, f (some response) = pure response)
    (hserved : Tells (f none)) : Tells (drainingResponse requestId >>= f) := by
  refine Prog.Returns.bind drainingResponse_returns fun draining hdraining => ?_
  cases draining with
  | some response =>
    rw [hdrained]
    exact hdraining response rfl
  | none => exact hserved

theorem chatCompletions_tells (request : HttpRequest) : Tells (chatCompletions st request) := by
  refine drained_tells (fun _ => rfl) ?_
  dsimp only
  refine returns_after _ fun started => ?_
  refine Prog.Returns.bind (authenticateWithChatScope_refuses "chat.completions") fun entry hentry => ?_
  cases entry with
  | error response => exact hentry response rfl
  | ok principal =>
    dsimp only
    split
    · exact auditReject_tells _ _ _ _ _ (by decide)
    · split
      · exact auditRejectResponse_tells _ _ _ _ (modelRouteErrorResponse_known _)
      · exact guardChat_tells request started _ _

theorem nativeEmbeddingResponse_tells (request : HttpRequest) (started : Nat) (route : ResolvedModelRoute)
    (selection : NativeEmbeddingSelection) (response : NativeEmbeddingResponse) :
    Tells (nativeEmbeddingResponse request principal started route selection response) :=
  returns_after _ fun _ => returns_after _ fun _ => returns_after _ fun _ => .inl rfl

theorem serveEmbeddings_tells (request : HttpRequest) (started : Nat) (route : ResolvedModelRoute) (embedding : EmbeddingRequest) :
    Tells (serveEmbeddings st request principal started route embedding) := by
  unfold serveEmbeddings
  split
  · exact auditReject_tells _ _ _ _ _ (by decide)
  · dsimp only
    split
    · unfold semanticEmbeddings
      split
      · exact auditReject_tells _ _ _ _ _ (by decide)
      · refine returns_after _ fun answer => ?_
        cases answer with
        | ok response => exact nativeEmbeddingResponse_tells request started route _ response
        | error err => exact auditReject_tells _ _ _ _ _ (by decide)
    · unfold fallbackEmbeddings
      split
      · exact nativeEmbeddingResponse_tells request started route _ _
      · exact error_tells (by decide) _ _

theorem nativeEmbeddings_tells (request : HttpRequest) : Tells (nativeEmbeddings st request) := by
  refine drained_tells (fun _ => rfl) ?_
  dsimp only
  refine returns_after _ fun started => ?_
  refine Prog.Returns.bind (authenticateWithChatScope_refuses "embeddings") fun entry hentry => ?_
  cases entry with
  | error response => exact hentry response rfl
  | ok principal =>
    dsimp only
    split
    · exact auditReject_tells _ _ _ _ _ (by decide)
    · split
      · exact auditReject_tells _ _ _ _ _ (by decide)
      · split
        · exact auditRejectResponse_tells _ _ _ _ (modelRouteErrorResponse_known _)
        · exact serveEmbeddings_tells request started _ _

theorem adminSwap_tells (request : AdminSwapRequest) : Tells (adminSwap st request) := by
  refine returns_after _ fun identity => ?_
  cases identity with
  | error err => exact withRequestId_known (authErrorResponse_known err)
  | ok principal =>
    have hrejected : ∀ {status : StatusCode} {code : String} (outcome reason message : String), (status, code) ∈ errorCodes →
        Tells (swapRejected request principal outcome reason (errorResponse status code message)) := fun _ _ _ h =>
      auditRejectResponse_tells _ _ _ _ h
    dsimp only
    split
    · exact hrejected _ _ _ (by decide)
    · split
      · exact hrejected _ _ _ (by decide)
      · split
        · exact hrejected _ _ _ (by decide)
        · refine returns_after _ fun _ => returns_after _ fun execution => returns_after _ fun _ => returns_after _ fun _ => ?_
          by_cases hsuccess : execution.success = true
          · exact .inl (if_pos hsuccess)
          · exact .inr (if_neg hsuccess)

theorem listModels_tells : Tells (listModels st requestId) := by
  refine drained_tells (fun _ => rfl) ?_
  dsimp only
  refine Prog.Returns.bind (authorizeScope_refuses "models.list" "models" "models.read") fun entry hentry => ?_
  cases entry with
  | error response => exact hentry response rfl
  | ok principal => exact returns_after _ fun _ => .inl rfl

theorem authorizeAdmin_refuses (action : String) : Refuses (authorizeAdmin requestId action) := by
  refine Prog.Returns.bind (authorizeScope_refuses action "admin_ui" "admin") fun entry hentry => ?_
  cases entry with
  | error response => exact hentry
  | ok principal => exact returns_after _ fun _ => fun _ h => by cases h

theorem adminPage_tells (page : AdminPage) (fields : Json) : Tells (adminPage requestId page fields) := by
  refine Prog.Returns.bind (authorizeAdmin_refuses page.action) fun entry hentry => ?_
  cases entry with
  | error response => exact hentry response rfl
  | ok principal => exact Or.inl rfl

theorem serveLocal_tells (request : LocalRequest) (action : String) (detail fields : Json) :
    Tells (serveLocal request action detail fields) := by
  refine drained_tells (fun _ => rfl) ?_
  dsimp only
  refine returns_after _ fun identity => ?_
  cases identity with
  | error err => exact withRequestId_known (authErrorResponse_known err)
  | ok principal =>
    dsimp only
    split
    · exact returns_after _ fun _ => returns_after _ fun _ => .inl rfl
    · exact error_tells (by decide) _ _

/-! ## Every run -/

/-- What a request ends with, if it was not an operator's. -/
def Ending (result : Option Response) : Prop := ∀ response, result = some response → response.Known

theorem respond_returns_known {p : ServerProg Response} (h : Tells p) : (p >>= respond).Returns Ending := by
  refine Prog.Returns.bind h fun response hresponse => ?_
  have hending : Ending (some response) := fun other heq => Option.some.inj heq ▸ hresponse
  unfold respond
  split
  · exact returns_after _ fun _ => returns_after _ fun _ => hending
  · exact hending

theorem serve_returns (route : Route) : (route.serve st).Returns Ending := by
  have hoperator : ∀ p : WorkerProg WorkerStatus, (underSupervisorLock p).Returns Ending := fun p =>
    returns_after _ fun _ => returns_after _ fun _ => returns_after _ fun _ _ h => by cases h
  cases route with
  | served input =>
    cases input with
    | chat request => exact respond_returns_known (chatCompletions_tells request)
    | embeddings request => exact respond_returns_known (nativeEmbeddings_tells request)
    | swap request => exact respond_returns_known (adminSwap_tells request)
    | drain id => exact hoperator _
    | stop id => exact hoperator _
  | models requestId => exact respond_returns_known listModels_tells
  | admin requestId page fields => exact respond_returns_known (adminPage_tells page fields)
  | search request => exact respond_returns_known (serveLocal_tells request _ _ _)
  | recommendations request => exact respond_returns_known (serveLocal_tells request _ _ _)

end

section
variable {R : Type} [DecidableEq R] {st : ServerState} {workers : Workers} {routes : R → Route}
  {ok : ServerConf R → Label ServerSig (Proc R) (ServerEvent R) → Prop} {c : ServerConf R} {r : R} {response : Response}

theorem always_of_returns {α L G E ι : Type} {S : Sig} {W : World S ι L G E} {i : ι} {Q : α → Prop} {p : Prog S α}
    (h : p.Returns Q) (l : L) : Always W i (fun _ _ => True) (fun a _ => Q a) p l := by
  induction p generalizing l with
  | done a => exact h
  | call o k ih => exact ⟨trivial, fun a _ _ => ih a (h a) _⟩

theorem known_of_result (hr : Reach (serverWorld R st) ok (routerStart st workers routes) c)
    (hresult : c.result (.request r) = some (some response)) : response.Known := by
  have htyped : Typed (serverWorld R st) (fun _ _ _ => True) (fun i a _ => ∀ r, i = .request r → Ending a)
      (routerStart st workers routes) := by
    intro i p hp
    cases i with
    | request r =>
      cases hp
      exact (always_of_returns (serve_returns (routes r)) _).mono (fun _ _ _ => trivial) fun a _ ha _ _ => ha
    | task r =>
      cases hp
      have htask : detachedTask.Returns fun _ => True := returns_of_forall (fun _ => trivial) _
      refine (always_of_returns htask _).mono (fun _ _ _ => trivial) ?_
      intro a _ _ r h
      cases h
  exact htyped.reach hr _ _ (Conf.prog_of_result hresult) r rfl response rfl

end

end Llmctl
