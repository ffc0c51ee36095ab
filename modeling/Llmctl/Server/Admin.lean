import Llmctl.Server.Chat
import Llmctl.Server.Embeddings

/-!
# The admin handler and the server as a whole

`adminSwap` runs a swap under the supervisor's lock. `serverStart` is a server at
rest with every request still to come.
-/

namespace Llmctl

open Async

/-! ## `admin_swap` -/

structure AdminSwapRequest where
  requestId : Nat
  active : String
  replacement : String
  mode : SwapMode
  deriving DecidableEq, Repr

def replacementWorker (st : ServerState) (replacement : String) : Option PlannedWorker :=
  (StartupPlan.fromConfig st.host st.cfg).find? fun planned => planned.worker.id == replacement

def swapBudget (st : ServerState) (active : String) (replacement : PlannedWorker) : Option SwapBudget := do
  let activePlanned ← (StartupPlan.fromConfig st.host st.cfg).find? fun planned => planned.worker.id == active
  let activeBytes ← st.modelFootprintBytes activePlanned.worker.model
  let replacementBytes ← st.modelFootprintBytes replacement.worker.model
  let budgetBytes ← st.swapResourceBudgetBytes st.cfg
  some ⟨activeBytes, replacementBytes, budgetBytes⟩

def swapUnavailable : String :=
  "model swap is not supported in native in-process mode; restart the server to apply model changes"

def unknownReplacement : String := "replacement worker is not in startup plan"

def swapRejected (request : AdminSwapRequest) (principal : Principal) (outcome reason : String) (response : Response) :
    ServerProg Response :=
  auditRejectResponse request.requestId principal "admin.swap" request.replacement outcome response
    [("reason", reason)]

def adminSwap (st : ServerState) (request : AdminSwapRequest) : ServerProg Response := do
  match ← op .authenticate with
  | .error err => pure (withRequestId (authErrorResponse err) request.requestId)
  | .ok principal =>
    if !principal.hasScope "admin" then
      swapRejected request principal "denied" "missing admin scope"
        (errorResponse 403 "forbidden" "missing admin scope")
    else if st.workerControl = .none then
      swapRejected request principal "failed" "model swap is not supported in native in-process mode"
        (errorResponse 404 "native_swap_unavailable" swapUnavailable)
    else
      match replacementWorker st request.replacement with
      | none =>
        swapRejected request principal "rejected" unknownReplacement
          (errorResponse 400 "unknown_worker" unknownReplacement)
      | some replacement =>
        op (.worker .lockSupervisor)
        let execution ← supervisor (executeSwapWithBudget request.mode request.active replacement
          (swapBudget st request.active replacement))
        op (.worker .unlockSupervisor)
        recordSwapExecution (some request.requestId) principal execution
        pure (withRequestId
          { status := if execution.success then 200 else 409
            body := .json [("mode", reprStr execution.mode), ("plan", reprStr execution.plan),
              ("statuses", reprStr execution.statuses), ("success", toString execution.success)] }
          request.requestId)

/-! ## Requests and operators -/

/-- What arrives: requests to the routes, and an operator's own drains and stops. -/
inductive Input where
  | chat (request : HttpRequest)
  | embeddings (request : HttpRequest)
  | swap (request : AdminSwapRequest)
  | drain (id : String)
  | stop (id : String)
  deriving DecidableEq, Repr

/-- The connection sends the response and polls a streamed body to its end. -/
def respond (response : Response) : ServerProg (Option Response) := do
  match response.body with
  | .stream generator =>
    op (.body .firstPoll)
    generator
    pure (some response)
  | _ => pure (some response)

def underSupervisorLock (p : WorkerProg WorkerStatus) : ServerProg (Option Response) := do
  op (.worker .lockSupervisor)
  let _ ← supervisor p
  op (.worker .unlockSupervisor)
  pure none

def Input.serve (st : ServerState) : Input → ServerProg (Option Response)
  | .chat request => chatCompletions st request >>= respond
  | .embeddings request => nativeEmbeddings st request >>= respond
  | .swap request => adminSwap st request >>= respond
  | .drain id => underSupervisorLock (Llmctl.drain id)
  | .stop id => underSupervisorLock (Llmctl.stop id)

/-- The detached task of a request, once there is one. -/
def detachedTask : ServerProg (Option Response) := do
  match ← op (.task .start) with
  | .decode context request =>
    streamTask context request
    pure none
  | .disconnect data =>
    recordTerminal data streamDisconnectStatus
    pure none

/-! ## Runs -/

abbrev ServerConf (R : Type) := Conf ServerSig (Option Response) (Proc R) Local (Server R)

def restingServer (R : Type) (st : ServerState) (workers : Workers) : Server R where
  store := {}
  instant := 0
  draining := false
  admission := .new st.maxInFlight
  breakers := ∅
  workers := workers
  supervisorLocked := false
  inFlight _ := 0
  slots _ := 0
  waiting _ := 0
  decodes _ := .none
  jobs _ := none

def serverStart {R : Type} (st : ServerState) (workers : Workers) (inputs : R → Input) : ServerConf R where
  prog
    | .request r => some ((inputs r).serve st)
    | .task _ => some detachedTask
  loc _ := {}
  sh := restingServer R st workers

end Llmctl
