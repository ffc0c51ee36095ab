import Llmctl.Server.Admin

/-!
# The other routes

The handlers that only authenticate a request, audit it and read: the model list, the
admin pages, and the local search. `Route` is every route that authenticates.
-/

namespace Llmctl

open Async

/-! ## `list_models` and the admin pages -/

/-- Authenticates and asks for `scope`; a refusal is audited. -/
def authorizeScope (requestId : Nat) (action resource scope : String) : ServerProg (Except Response Principal) := do
  match ← op .authenticate with
  | .error err =>
    let response ← auditRejectResponse requestId .anonymous action resource "denied" (authErrorResponse err)
      [("reason", err)]
    pure (.error response)
  | .ok principal =>
    if principal.hasScope scope then pure (.ok principal)
    else
      let response ← auditReject requestId principal action resource "denied" 403 "forbidden" s!"missing {scope} scope"
        [("reason", s!"missing {scope} scope")]
      pure (.error response)

/-- The capabilities of each model are not part of the list here. -/
def listModels (st : ServerState) (requestId : Nat) : ServerProg Response := do
  match ← drainingResponse requestId with
  | some response => pure response
  | none =>
    match ← authorizeScope requestId "models.list" "models" "models.read" with
    | .error response => pure response
    | .ok principal =>
      recordAudit (some requestId) principal "models.list" "models" "allowed" []
      pure (buildResponse 200
        (.json [("object", "list"), ("data", ",".intercalate ((routedModels st.cfg).map (·.alias_)))]) requestId)

def authorizeAdmin (requestId : Nat) (action : String) : ServerProg (Except Response Principal) := do
  match ← authorizeScope requestId action "admin_ui" "admin" with
  | .error response => pure (.error response)
  | .ok principal =>
    recordAudit (some requestId) principal action "admin_ui" "allowed" []
    pure (.ok principal)

inductive AdminPage where
  | status
  | models
  | quotas
  | usage
  | audit
  | keys
  deriving DecidableEq, Repr

def AdminPage.action : AdminPage → String
  | .status => "admin.status"
  | .models => "admin.models"
  | .quotas => "admin.quotas"
  | .usage => "admin.usage"
  | .audit => "admin.audit"
  | .keys => "admin.keys"

/-- The handlers of the admin pages, up to the fields that each one reads together. -/
def adminPage (requestId : Nat) (page : AdminPage) (fields : Json) : ServerProg Response := do
  match ← authorizeAdmin requestId page.action with
  | .error response => pure response
  | .ok _ => pure (buildResponse 200 (.json fields) requestId)

/-! ## The local search -/

/-- `hits` is what `lexical_search` finds among the documents. -/
structure LocalRequest where
  requestId : Nat
  query : String
  documents : Nat
  hits : List String
  lineageIds : List String
  corpus : Option String
  deriving DecidableEq, Repr

/-- The common body of `local_search` and `local_recommendations`; a refusal is not audited. -/
def serveLocal (request : LocalRequest) (action : String) (detail fields : Json) : ServerProg Response := do
  match ← drainingResponse request.requestId with
  | some response => pure response
  | none =>
    match ← op .authenticate with
    | .error err => pure (withRequestId (authErrorResponse err) request.requestId)
    | .ok principal =>
      if principal.hasScope "chat" then
        recordRequestLineageJoins request.requestId request.corpus none action request.lineageIds
        recordAudit (some request.requestId) principal action "documents" "allowed" detail
        pure (buildResponse 200 (.json fields) request.requestId)
      else
        pure (withRequestId (errorResponse 403 "forbidden" "missing chat scope") request.requestId)

def localSearch (request : LocalRequest) : ServerProg Response :=
  serveLocal request "local.search"
    [("documents", toString request.documents), ("hits", toString request.hits.length)]
    [("object", "search.results"), ("query", request.query), ("data", ",".intercalate request.hits)]

def localRecommendations (request : LocalRequest) : ServerProg Response :=
  let recommendations := request.hits.take 5
  serveLocal request "local.recommendations"
    [("documents", toString request.documents), ("hits", toString request.hits.length),
      ("recommendations", toString recommendations.length)]
    [("object", "recommendation.results"), ("task", request.query), ("data", ",".intercalate request.hits),
      ("recommendations", ",".intercalate recommendations)]

/-! ## Routes -/

inductive Route where
  | served (input : Input)
  | models (requestId : Nat)
  | admin (requestId : Nat) (page : AdminPage) (fields : Json)
  | search (request : LocalRequest)
  | recommendations (request : LocalRequest)
  deriving DecidableEq, Repr

def Route.serve (st : ServerState) : Route → ServerProg (Option Response)
  | .served input => input.serve st
  | .models requestId => listModels st requestId >>= respond
  | .admin requestId page fields => adminPage requestId page fields >>= respond
  | .search request => localSearch request >>= respond
  | .recommendations request => localRecommendations request >>= respond

/-- An operator's own drain or stop is no request. -/
def Input.requestId : Input → Option Nat
  | .chat request | .embeddings request => some request.requestId
  | .swap request => some request.requestId
  | .drain _ | .stop _ => none

def Route.requestId : Route → Option Nat
  | .served input => input.requestId
  | .models requestId | .admin requestId _ _ => some requestId
  | .search request | .recommendations request => some request.requestId

def routerStart {R : Type} (st : ServerState) (workers : Workers) (routes : R → Route) : ServerConf R where
  prog
    | .request r => some ((routes r).serve st)
    | .task _ => some detachedTask
  loc _ := {}
  sh := restingServer R st workers

end Llmctl
