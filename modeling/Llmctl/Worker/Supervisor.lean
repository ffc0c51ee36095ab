import Llmctl.Worker
import Llmctl.Async.Serial

/-!
# The supervisor over any runner

`WorkerSupervisor<R>` as it is written: its calls of the runner are operations,
which `TokioWorkerRunner` is one way to carry out. The operations take the
supervisor by `&mut self`, so that one runs at a time; the router reads the
admission gates beside them.
-/

namespace Llmctl

open Async

/-! ## Operations -/

inductive SupervisorOp where
  | updateStatus (id : String) (change : StatusChange)
  | workerState (id : String)
  | getAdmission (id : String)
  | inFlight (gate : Nat)
  | stopAdmitting (id : String)
  | insertAdmission (id : String)
  | instant
  | sleepUntil (wake : Nat)
  | spawn (planned : PlannedWorker)
  | stop (id : String)
  | waitReady (planned : PlannedWorker)
  | pollExited
  deriving DecidableEq

@[reducible] def SupervisorSig : Sig where
  Op := SupervisorOp
  Ans
    | .updateStatus .. => WorkerStatus
    | .workerState _ => Option WorkerState
    | .getAdmission _ => Option Nat
    | .inFlight _ | .instant => Nat
    | .stopAdmitting _ | .insertAdmission _ | .sleepUntil _ => Unit
    | .spawn _ => Result Nat
    | .stop _ | .waitReady _ => Result Unit
    | .pollExited => List String

abbrev SupervisorProg := Prog SupervisorSig

namespace WorkerSupervisor

def updateStatus (id : String) (change : StatusChange) : SupervisorProg WorkerStatus :=
  Prog.op (S := SupervisorSig) (.updateStatus id change)

def stopAdmitting (id : String) : SupervisorProg Unit := Prog.op (S := SupervisorSig) (.stopAdmitting id)

def start (planned : PlannedWorker) : SupervisorProg WorkerStatus := do
  let id := planned.worker.id
  let _ ← updateStatus id .starting
  match ← Prog.op (S := SupervisorSig) (.spawn planned) with
  | .ok pid =>
    let _ ← updateStatus id (.warming pid)
    match ← Prog.op (S := SupervisorSig) (.waitReady planned) with
    | .ok _ =>
      let _ ← Prog.op (S := SupervisorSig) (.insertAdmission id)
      updateStatus id .ready
    | .error error =>
      let _ ← Prog.op (S := SupervisorSig) (.stop id)
      stopAdmitting id
      updateStatus id (.startFailed error)
  | .error error =>
    stopAdmitting id
    updateStatus id (.startFailed error)

def awaitDrained (gate deadline : Nat) : Nat → SupervisorProg Unit
  | 0 => pure ()
  | polls + 1 => do
    let inFlight ← Prog.op (S := SupervisorSig) (.inFlight gate)
    if inFlight = 0 then pure ()
    else
      let now ← Prog.op (S := SupervisorSig) .instant
      if now < deadline then
        let _ ← Prog.op (S := SupervisorSig) (.sleepUntil (now + drainPollInterval))
        awaitDrained gate deadline polls
      else pure ()

def drain (timeout : Nat) (id : String) : SupervisorProg WorkerStatus := do
  stopAdmitting id
  match ← Prog.op (S := SupervisorSig) (.getAdmission id) with
  | some gate =>
    let now ← Prog.op (S := SupervisorSig) .instant
    awaitDrained gate (now + timeout) (timeout / drainPollInterval + 1)
  | none => pure ()
  updateStatus id .draining

def stop (id : String) : SupervisorProg WorkerStatus := do
  stopAdmitting id
  let _ ← updateStatus id .stopping
  match ← Prog.op (S := SupervisorSig) (.stop id) with
  | .ok _ => updateStatus id .stopped
  | .error error => updateStatus id (.stopFailed error)

def wasLive (state : Option WorkerState) : Bool :=
  state == some .ready || state == some .warming || state == some .draining

/-- A crashed worker gets the status of one that failed to start. -/
def reap : List String → SupervisorProg (List WorkerStatus)
  | [] => pure []
  | id :: exited => do
    let state ← Prog.op (S := SupervisorSig) (.workerState id)
    if wasLive state then
      stopAdmitting id
      let status ← updateStatus id (.startFailed "worker process exited unexpectedly")
      let reaped ← reap exited
      pure (status :: reaped)
    else reap exited

def reapCrashed : SupervisorProg (List WorkerStatus) := do
  let exited ← Prog.op (S := SupervisorSig) .pollExited
  reap exited

def restart (planned : PlannedWorker) : SupervisorProg WorkerStatus := do
  let id := planned.worker.id
  let stopped ← stop id
  if stopped.state = .failed then pure stopped
  else
    let _ ← updateStatus id .restarted
    start planned

def executeColdSwap (timeout : Nat) (active : String) (replacement : PlannedWorker) : SupervisorProg SwapExecution := do
  let plan := SwapPlan.cold active replacement.worker.id
  let drained ← drain timeout active
  let stopped ← stop active
  if stopped.state ≠ .stopped then
    pure ⟨.cold, plan, [drained, stopped], false⟩
  else
    let started ← start replacement
    pure ⟨.cold, plan, [drained, stopped, started], started.state == .ready⟩

def executeHotSwap (timeout : Nat) (active : String) (replacement : PlannedWorker) : SupervisorProg SwapExecution := do
  let plan := SwapPlan.hot active replacement.worker.id
  let started ← start replacement
  if started.state ≠ .ready then
    pure ⟨.hot, plan, [started], false⟩
  else
    let drained ← drain timeout active
    let stopped ← stop active
    pure ⟨.hot, plan, [started, drained, stopped], stopped.state == .stopped⟩

def executeSwapWithBudget (timeout : Nat) (mode : SwapMode) (active : String) (replacement : PlannedWorker)
    (budget : Option SwapBudget) : SupervisorProg SwapExecution :=
  match effectiveMode mode budget with
  | .cold => executeColdSwap timeout active replacement
  | .hot => executeHotSwap timeout active replacement

end WorkerSupervisor

/-- What `drain` does while it waits. -/
def SupervisorOp.waits : SupervisorOp → Prop
  | .inFlight _ | .instant | .sleepUntil _ => True
  | _ => False

theorem all_awaitDrained (gate deadline polls : Nat) :
    (WorkerSupervisor.awaitDrained gate deadline polls).All SupervisorOp.waits := by
  induction polls with
  | zero => trivial
  | succ polls ih =>
    refine ⟨trivial, fun (inFlight : Nat) => ?_⟩
    by_cases hzero : inFlight = 0
    · simp only [Prog.bind, hzero, if_true]; trivial
    · simp only [Prog.bind, hzero, if_false]
      refine ⟨trivial, fun (now : Nat) => ?_⟩
      by_cases hnow : now < deadline
      · simp only [Prog.bind, hnow, if_true]
        exact ⟨trivial, fun _ => ih⟩
      · simp only [Prog.bind, hnow, if_false]; trivial

/-! ## Calls -/

/-- The operations that callers run under the supervisor's lock; `execute_swap` is a
swap without a budget. -/
inductive SupervisorCall where
  | start (planned : PlannedWorker)
  | drain (id : String)
  | stop (id : String)
  | restart (planned : PlannedWorker)
  | reapCrashed
  | executeSwapWithBudget (mode : SwapMode) (active : String) (replacement : PlannedWorker)
      (budget : Option SwapBudget)
  deriving DecidableEq

open WorkerSupervisor in
/-- Its result is the call that has returned. -/
def SupervisorCall.prog (timeout : Nat) (call : SupervisorCall) : SupervisorProg SupervisorCall := do
  match call with
  | .start planned => let _ ← WorkerSupervisor.start planned
  | .drain id => let _ ← WorkerSupervisor.drain timeout id
  | .stop id => let _ ← WorkerSupervisor.stop id
  | .restart planned => let _ ← WorkerSupervisor.restart planned
  | .reapCrashed => let _ ← WorkerSupervisor.reapCrashed
  | .executeSwapWithBudget mode active replacement budget =>
    let _ ← WorkerSupervisor.executeSwapWithBudget timeout mode active replacement budget
  pure call

/-! ## `TokioWorkerRunner` as the runner -/

inductive TokioOp where
  | worker (o : WorkerOp)
  | workerState (id : String)
  | pollExited

@[reducible] def TokioSig : Sig where
  Op := TokioOp
  Ans
    | .worker o => WorkerSig.Ans o
    | .workerState _ => Option WorkerState
    | .pollExited => List String

/-- A program of the server's supervisor. -/
def WorkerProg.tokio {α : Type} (p : WorkerProg α) : Prog TokioSig α := p.lift (T := TokioSig) TokioOp.worker fun _ a => a

def SupervisorOp.tokio : (o : SupervisorOp) → Prog TokioSig (SupervisorSig.Ans o)
  | .updateStatus id change => Prog.op (S := TokioSig) (.worker (.updateStatus id change))
  | .workerState id => Prog.op (S := TokioSig) (.workerState id)
  | .getAdmission id => Prog.op (S := TokioSig) (.worker (.getAdmission id))
  | .inFlight gate => Prog.op (S := TokioSig) (.worker (.inFlight gate))
  | .stopAdmitting id => Prog.op (S := TokioSig) (.worker (.stopAdmitting id))
  | .insertAdmission id => Prog.op (S := TokioSig) (.worker (.insertAdmission id))
  | .instant => Prog.op (S := TokioSig) (.worker .instant)
  | .sleepUntil wake => Prog.op (S := TokioSig) (.worker (.sleepUntil wake))
  | .spawn planned => WorkerProg.tokio (TokioWorkerRunner.spawn planned)
  | .stop id => WorkerProg.tokio (TokioWorkerRunner.stop id)
  | .waitReady planned => WorkerProg.tokio (TokioWorkerRunner.waitReady planned)
  | .pollExited => Prog.op (S := TokioSig) .pollExited

/-! ### The operations on `TokioWorkerRunner` -/

section
variable {α β : Type}

theorem tokio_bind {p : SupervisorProg α} {q : WorkerProg α} {f : α → SupervisorProg β} {g : α → WorkerProg β}
    (hp : p.interp SupervisorOp.tokio = WorkerProg.tokio q)
    (h : ∀ a, (f a).interp SupervisorOp.tokio = WorkerProg.tokio (g a)) :
    (p >>= f).interp SupervisorOp.tokio = WorkerProg.tokio (q >>= g) := by
  unfold WorkerProg.tokio at *
  rw [Prog.interp_bind, Prog.lift_bind, hp]
  congr
  funext a
  exact h a

theorem tokio_op {o : SupervisorOp} {q : WorkerProg (SupervisorSig.Ans o)} (h : o.tokio = WorkerProg.tokio q) :
    (Prog.op (S := SupervisorSig) o).interp SupervisorOp.tokio = WorkerProg.tokio q := by
  rw [Prog.interp_op, h]

theorem start_tokio (planned : PlannedWorker) :
    (WorkerSupervisor.start planned).interp SupervisorOp.tokio = WorkerProg.tokio (start planned) := by
  refine tokio_bind (tokio_op rfl) fun _ => tokio_bind (tokio_op rfl) fun spawned => ?_
  cases spawned with
  | error error => exact tokio_bind (tokio_op rfl) fun _ => tokio_op rfl
  | ok pid =>
    refine tokio_bind (tokio_op rfl) fun _ => tokio_bind (tokio_op rfl) fun ready => ?_
    cases ready with
    | ok _ => exact tokio_bind (tokio_op rfl) fun _ => tokio_op rfl
    | error error => exact tokio_bind (tokio_op rfl) fun _ => tokio_bind (tokio_op rfl) fun _ => tokio_op rfl

theorem awaitDrained_tokio (gate deadline polls : Nat) :
    (WorkerSupervisor.awaitDrained gate deadline polls).interp SupervisorOp.tokio =
      WorkerProg.tokio (awaitDrained gate deadline polls) := by
  induction polls with
  | zero => rfl
  | succ polls ih =>
    refine tokio_bind (tokio_op rfl) fun (inFlight : Nat) => ?_
    by_cases hzero : inFlight = 0
    · rw [if_pos hzero, if_pos hzero]; rfl
    · rw [if_neg hzero, if_neg hzero]
      refine tokio_bind (tokio_op rfl) fun (now : Nat) => ?_
      by_cases hnow : now < deadline
      · rw [if_pos hnow, if_pos hnow]
        exact tokio_bind (tokio_op rfl) fun _ => ih
      · rw [if_neg hnow, if_neg hnow]; rfl

theorem drain_tokio (id : String) :
    (WorkerSupervisor.drain drainTimeout id).interp SupervisorOp.tokio = WorkerProg.tokio (drain id) := by
  refine tokio_bind (tokio_op rfl) fun _ => tokio_bind (tokio_op rfl) fun gate => ?_
  cases gate with
  | none => exact tokio_op rfl
  | some gate =>
    refine tokio_bind (tokio_op rfl) fun now => ?_
    exact tokio_bind (awaitDrained_tokio gate _ _) fun _ => tokio_op rfl

theorem stop_tokio (id : String) :
    (WorkerSupervisor.stop id).interp SupervisorOp.tokio = WorkerProg.tokio (stop id) := by
  refine tokio_bind (tokio_op rfl) fun _ => tokio_bind (tokio_op rfl) fun _ => tokio_bind (tokio_op rfl) fun stopped => ?_
  cases stopped with
  | ok _ => exact tokio_op rfl
  | error error => exact tokio_op rfl

/-- The server's swap is the supervisor's with `TokioWorkerRunner` and the default timeout. -/
theorem executeSwapWithBudget_tokio (mode : SwapMode) (active : String) (replacement : PlannedWorker)
    (budget : Option SwapBudget) :
    (WorkerSupervisor.executeSwapWithBudget drainTimeout mode active replacement budget).interp SupervisorOp.tokio =
      WorkerProg.tokio (executeSwapWithBudget mode active replacement budget) := by
  unfold WorkerSupervisor.executeSwapWithBudget executeSwapWithBudget
  cases effectiveMode mode budget with
  | cold =>
    refine tokio_bind (drain_tokio active) fun drained => tokio_bind (stop_tokio active) fun stopped => ?_
    by_cases hstop : stopped.state ≠ .stopped
    · rw [if_pos hstop, if_pos hstop]; rfl
    · rw [if_neg hstop, if_neg hstop]
      exact tokio_bind (start_tokio replacement) fun _ => rfl
  | hot =>
    refine tokio_bind (start_tokio replacement) fun started => ?_
    by_cases hstart : started.state ≠ .ready
    · rw [if_pos hstart, if_pos hstart]; rfl
    · rw [if_neg hstart, if_neg hstart]
      exact tokio_bind (drain_tokio active) fun _ => tokio_bind (stop_tokio active) fun _ => rfl

end

end Llmctl
