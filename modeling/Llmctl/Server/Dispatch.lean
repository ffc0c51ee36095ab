import Llmctl.Server.Accounting

/-!
# Dispatch to an upstream

`dispatchChatRequest` tries the route's own alias and then its fallbacks, each one
through the circuit breaker of its upstream.
-/

namespace Llmctl

open Async

inductive DispatchFailure where
  | noUpstream (message : String)
  | badRequest (err : String)
  | request (status : StatusCode) (code message usageStatus : String)
  deriving DecidableEq, Repr

structure DispatchTarget where
  baseUrl : String
  apiKey : Option String
  deriving DecidableEq, Repr

def upstreamForAlias (st : ServerState) (upstreamAlias : String) : Option String :=
  (mapGet st.upstreams upstreamAlias).or (mapGet st.upstreams "*")

def noUpstreamMessage (upstreamAlias : String) : String := s!"no upstream configured for model {upstreamAlias}"

def providerApiKeyUnavailable (message : String) : DispatchFailure :=
  .request 502 "provider_api_key_unavailable" message "provider_api_key_unavailable"

def dispatchTarget (st : ServerState) (route : ResolvedModelRoute) : Except DispatchFailure DispatchTarget :=
  match route.externalProvider with
  | some provider =>
    match st.env provider.apiKeyEnv with
    | none => .error (providerApiKeyUnavailable
        s!"external provider {provider.id} API key is not available from configured environment reference")
    | some apiKey =>
      if (trim apiKey).isEmpty then .error (providerApiKeyUnavailable
          s!"external provider {provider.id} API key is empty in configured environment reference")
      else .ok ⟨provider.baseUrl, some (trim apiKey)⟩
  | none =>
    match upstreamForAlias st route.upstreamAlias with
    | some base => .ok ⟨base, none⟩
    | none => .error (.noUpstream (noUpstreamMessage route.upstreamAlias))

def rewriteChatModel (st : ServerState) (body : String) (route : ResolvedModelRoute) : Except String String :=
  if route.requestedAlias = route.upstreamAlias then .ok body else st.setModel body route.upstreamAlias

def attemptRoute (route : ResolvedModelRoute) (k : String) : ResolvedModelRoute where
  requestedAlias := route.requestedAlias
  upstreamAlias := k
  fallbackAliases := []
  externalProvider := if k = route.upstreamAlias then route.externalProvider else none

def retryAfterMillis (response : UpstreamResponse) : Nat :=
  match response.retryAfter with
  | some seconds => millis (min seconds 2)
  | none => 100

def upstreamRequestError (isTimeout : Bool) : DispatchFailure :=
  if isTimeout then .request 504 "timeout" "upstream request timed out" "timeout"
  else .request 502 "upstream_error" "upstream request failed" "upstream_error"

def upstreamErrorStatus (isTimeout : Bool) : String := if isTimeout then "timeout" else "upstream_error"

structure DispatchContext where
  requestId : Nat
  principal : Principal
  model : String
  started : Nat
  deriving DecidableEq, Repr

/-- What an attempt does once the breaker has let it through. -/
def sendAttempt (ctx : DispatchContext) (k : String) (target : DispatchTarget) (body : String) :
    ServerProg (UpstreamResponse ⊕ DispatchFailure) := do
  match ← op (.upstream (.send k s!"{target.baseUrl}/v1/chat/completions" body target.apiKey)) with
  | .response response =>
    if shouldRetryUpstreamStatus response.status then
      op (.breaker (.recordFailure target.baseUrl))
      op (.upstream (.sleep (retryAfterMillis response)))
      op (.upstream .close)
      pure (.inr (.request 502 "upstream_error" "upstream request failed" "upstream_error"))
    else if response.status.isSuccess then
      op (.breaker (.recordSuccess target.baseUrl))
      pure (.inl response)
    else pure (.inl response)
  | .failed isTimeout =>
    op (.breaker (.recordFailure target.baseUrl))
    recordUpstreamFailure ctx.requestId ctx.principal ctx.model ctx.started (upstreamErrorStatus isTimeout)
    pure (.inr (upstreamRequestError isTimeout))
  | .timedOut =>
    op (.breaker (.recordFailure target.baseUrl))
    recordUpstreamFailure ctx.requestId ctx.principal ctx.model ctx.started "timeout"
    pure (.inr (.request 504 "timeout" "upstream request timed out" "timeout"))

/-- One turn of the loop: an answer to hand on, or the failure to remember. -/
def dispatchAttempt (ctx : DispatchContext) (k : String) (target : DispatchTarget) (body : String) :
    ServerProg (UpstreamResponse ⊕ DispatchFailure) := do
  match ← op (.breaker (.allowRequest k target.baseUrl)) with
  | .refused =>
    pure (.inr (.request 502 "upstream_circuit_open" "upstream circuit breaker is open" "upstream_circuit_open"))
  | _ => sendAttempt ctx k target body

def dispatchAliases (st : ServerState) (route : ResolvedModelRoute) (body : String) (ctx : DispatchContext) :
    Option DispatchFailure → List String → ServerProg (Except DispatchFailure (UpstreamResponse × String))
  | lastFailure, [] => pure (.error (lastFailure.getD (.noUpstream (noUpstreamMessage route.upstreamAlias))))
  | _, k :: aliases =>
    match rewriteChatModel st body (attemptRoute route k) with
    | .error err => pure (.error (.badRequest err))
    | .ok rewritten =>
      match dispatchTarget st (attemptRoute route k) with
      | .error failure => pure (.error failure)
      | .ok target => do
        match ← dispatchAttempt ctx k target rewritten with
        | .inl response => pure (.ok (response, k))
        | .inr failure => dispatchAliases st route body ctx (some failure) aliases

def dispatchChatRequest (st : ServerState) (route : ResolvedModelRoute) (body : String) (ctx : DispatchContext) :
    ServerProg (Except DispatchFailure (UpstreamResponse × String)) :=
  dispatchAliases st route body ctx none (route.upstreamAlias :: route.fallbackAliases)

end Llmctl
