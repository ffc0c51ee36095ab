import Llmctl.Routing

/-!
# The worker supervisor

Lifecycle states, admission gates and processes of the supervised workers, and
the operations that start, drain, stop and swap them. Times are milliseconds.
-/

namespace Llmctl

open Async

/-! ## State -/

inductive WorkerState where
  | stopped
  | starting
  | warming
  | ready
  | draining
  | stopping
  | failed
  deriving DecidableEq, Repr

structure WorkerStatus where
  workerId : String
  pid : Option Nat
  state : WorkerState
  restartCount : Nat
  lastError : Option String
  deriving DecidableEq, Repr

def WorkerStatus.new (workerId : String) : WorkerStatus := ⟨workerId, none, .stopped, 0, none⟩

/-- The ways in which the supervisor updates a status. -/
inductive StatusChange where
  | starting
  | warming (pid : Nat)
  | ready
  | startFailed (error : String)
  | draining
  | stopping
  | stopped
  | stopFailed (error : String)
  | restarted
  deriving DecidableEq, Repr

def StatusChange.apply : StatusChange → WorkerStatus → WorkerStatus
  | .starting, s => { s with pid := none, state := .starting, lastError := none }
  | .warming pid, s => { s with pid := some pid, state := .warming, lastError := none }
  | .ready, s => { s with state := .ready, lastError := none }
  | .startFailed error, s => { s with pid := none, state := .failed, lastError := some error }
  | .draining, s => { s with state := .draining, lastError := none }
  | .stopping, s => { s with state := .stopping, lastError := none }
  | .stopped, s => { s with pid := none, state := .stopped, lastError := none }
  | .stopFailed error, s => { s with state := .failed, lastError := some error }
  | .restarted, s => { s with restartCount := min (s.restartCount + 1) (2 ^ 32 - 1) }

/-- The supervisor and the gates of its registry; a gate is named by a number, so
that the gate a request holds outlives its replacement. -/
structure Workers where
  statuses : String → Option WorkerStatus := fun _ => none
  children : String → Bool := fun _ => false
  registry : String → Option Nat := fun _ => none
  admitting : Nat → Bool := fun _ => false
  nextGate : Nat := 0

namespace Workers

def status (w : Workers) (id : String) : WorkerStatus := (w.statuses id).getD (.new id)

def updateStatus (w : Workers) (id : String) (change : StatusChange) : Workers :=
  { w with statuses := Function.update w.statuses id (some (change.apply (w.status id))) }

def stopAdmitting (w : Workers) (id : String) : Workers :=
  match w.registry id with
  | some gate => { w with admitting := Function.update w.admitting gate false }
  | none => w

/-- Installs `WorkerAdmission::ready()` as the gate of `id`. -/
def insertAdmission (w : Workers) (id : String) : Workers :=
  { w with
    registry := Function.update w.registry id (some w.nextGate)
    admitting := Function.update w.admitting w.nextGate true
    nextGate := w.nextGate + 1 }

def removeChild (w : Workers) (id : String) : Workers :=
  { w with children := Function.update w.children id false }

def insertChild (w : Workers) (id : String) : Workers :=
  { w with children := Function.update w.children id true }

end Workers

/-! ## Operations -/

inductive WorkerOp where
  | lockSupervisor
  | unlockSupervisor
  | updateStatus (id : String) (change : StatusChange)
  | getAdmission (id : String)
  | inFlight (gate : Nat)
  | stopAdmitting (id : String)
  | insertAdmission (id : String)
  | removeChild (id : String)
  | killChild
  | insertChild (id : String)
  | probe (url : String)
  | sleepUntil (wake : Nat)
  | instant
  deriving DecidableEq

@[reducible] def WorkerSig : Sig where
  Op := WorkerOp
  Ans
    | .updateStatus .. => WorkerStatus
    | .getAdmission _ => Option Nat
    | .inFlight _ | .instant => Nat
    | .removeChild _ | .probe _ => Bool
    | .killChild => Result Unit
    | .insertChild _ => Result Nat
    | .lockSupervisor | .unlockSupervisor | .stopAdmitting _ | .insertAdmission _ | .sleepUntil _ => Unit

namespace WorkerOp

def workers : (o : WorkerOp) → WorkerSig.Ans o → Workers → Workers
  | .updateStatus id change, _, w => w.updateStatus id change
  | .stopAdmitting id, _, w => w.stopAdmitting id
  | .insertAdmission id, _, w => w.insertAdmission id
  | .removeChild id, _, w => w.removeChild id
  | .insertChild id, .ok _, w => w.insertChild id
  | _, _, w => w

/-- The answers that the supervisor, its lock, the gates and the clock decide. -/
def can (w : Workers) (locked : Bool) (inFlight : Nat → Nat) (instant : Nat) : (o : WorkerOp) → WorkerSig.Ans o → Bool
  | .lockSupervisor, _ => !locked
  | .updateStatus id change, s => s == change.apply (w.status id)
  | .getAdmission id, gate => gate == w.registry id
  | .inFlight gate, n => n == inFlight gate
  | .removeChild id, found => found == w.children id
  | .sleepUntil wake, _ => decide (wake ≤ instant)
  | .instant, now => now == instant
  | _, _ => true

def isAwait : WorkerOp → Bool
  | .lockSupervisor | .killChild | .probe _ | .sleepUntil _ => true
  | _ => false

end WorkerOp

abbrev WorkerProg := Prog WorkerSig

def updateStatus (id : String) (change : StatusChange) : WorkerProg WorkerStatus :=
  Prog.op (S := WorkerSig) (.updateStatus id change)

def stopAdmitting (id : String) : WorkerProg Unit := Prog.op (S := WorkerSig) (.stopAdmitting id)

/-! ## `TokioWorkerRunner` -/

namespace TokioWorkerRunner

def spawn (planned : PlannedWorker) : WorkerProg (Result Nat) := do
  if planned.launch.isInProcess then
    pure (.error ("candle-native runtime is planned as an in-process worker, " ++
      "but the engine implementation is not available yet"))
  else
    if ← Prog.op (S := WorkerSig) (.removeChild planned.worker.id) then
      let _ ← Prog.op (S := WorkerSig) .killChild
    Prog.op (S := WorkerSig) (.insertChild planned.worker.id)

def stop (id : String) : WorkerProg (Result Unit) := do
  if ← Prog.op (S := WorkerSig) (.removeChild id) then Prog.op (S := WorkerSig) .killChild
  else pure (.ok ())

def readyProbeAttempts : Nat := 120

def readyProbeInterval : Nat := 500

def readyUrls (planned : PlannedWorker) : List String :=
  [s!"{planned.worker.upstream}/health", s!"{planned.worker.upstream}/healthz",
    s!"{planned.worker.upstream}/v1/models"]

/-- Whether one of the `urls` answers with success. -/
def probeAny : List String → WorkerProg Bool
  | [] => pure false
  | url :: urls => do
    if ← Prog.op (S := WorkerSig) (.probe url) then pure true else probeAny urls

def waitReadyFor (planned : PlannedWorker) : Nat → WorkerProg (Result Unit)
  | 0 => pure (.error s!"worker {planned.worker.id} did not become ready at {planned.worker.upstream}")
  | attempts + 1 => do
    if ← probeAny (readyUrls planned) then pure (.ok ())
    else
      let now ← Prog.op (S := WorkerSig) .instant
      let _ ← Prog.op (S := WorkerSig) (.sleepUntil (now + readyProbeInterval))
      waitReadyFor planned attempts

def waitReady (planned : PlannedWorker) : WorkerProg (Result Unit) := waitReadyFor planned readyProbeAttempts

section
variable {P : WorkerOp → Prop} (hprobe : ∀ url, P (.probe url)) (hinstant : P .instant) (hsleep : ∀ wake, P (.sleepUntil wake))

include hprobe in
theorem probeAny_all : ∀ urls : List String, (probeAny urls).All P
  | [] => trivial
  | url :: urls => by
    refine ⟨hprobe url, fun ready => ?_⟩
    cases ready with
    | true => trivial
    | false => exact probeAny_all urls

include hprobe hinstant hsleep in
/-- Waiting for a worker probes and sleeps, and does nothing else. -/
theorem waitReadyFor_all (planned : PlannedWorker) : ∀ attempts : Nat, (waitReadyFor planned attempts).All P
  | 0 => trivial
  | attempts + 1 => by
    refine Prog.All.bind (probeAny_all hprobe _) fun ready => ?_
    cases ready with
    | true => trivial
    | false => exact ⟨hinstant, fun _ => ⟨hsleep _, fun _ => waitReadyFor_all planned attempts⟩⟩

end

end TokioWorkerRunner

/-! ## `WorkerSupervisor` -/

def start (planned : PlannedWorker) : WorkerProg WorkerStatus := do
  let id := planned.worker.id
  let _ ← updateStatus id .starting
  match ← TokioWorkerRunner.spawn planned with
  | .ok pid =>
    let _ ← updateStatus id (.warming pid)
    match ← TokioWorkerRunner.waitReady planned with
    | .ok _ =>
      let _ ← Prog.op (S := WorkerSig) (.insertAdmission id)
      updateStatus id .ready
    | .error error =>
      let _ ← TokioWorkerRunner.stop id
      stopAdmitting id
      updateStatus id (.startFailed error)
  | .error error =>
    stopAdmitting id
    updateStatus id (.startFailed error)

def drainTimeout : Nat := 30000

def drainPollInterval : Nat := 50

/-- Waits until `gate` has nothing in flight or `deadline` has passed. Each sleep
lasts the poll interval, so that many `polls` reach the deadline. -/
def awaitDrained (gate deadline : Nat) : Nat → WorkerProg Unit
  | 0 => pure ()
  | polls + 1 => do
    let inFlight ← Prog.op (S := WorkerSig) (.inFlight gate)
    if inFlight = 0 then pure ()
    else
      let now ← Prog.op (S := WorkerSig) .instant
      if now < deadline then
        let _ ← Prog.op (S := WorkerSig) (.sleepUntil (now + drainPollInterval))
        awaitDrained gate deadline polls
      else pure ()

def drain (id : String) : WorkerProg WorkerStatus := do
  stopAdmitting id
  match ← Prog.op (S := WorkerSig) (.getAdmission id) with
  | some gate =>
    let now ← Prog.op (S := WorkerSig) .instant
    awaitDrained gate (now + drainTimeout) (drainTimeout / drainPollInterval + 1)
  | none => pure ()
  updateStatus id .draining

def stop (id : String) : WorkerProg WorkerStatus := do
  stopAdmitting id
  let _ ← updateStatus id .stopping
  match ← TokioWorkerRunner.stop id with
  | .ok _ => updateStatus id .stopped
  | .error error => updateStatus id (.stopFailed error)

/-! ## Swaps -/

inductive SwapMode where
  | cold
  | hot
  deriving DecidableEq, Repr

structure SwapBudget where
  activeBytes : Nat
  replacementBytes : Nat
  budgetBytes : Nat
  deriving DecidableEq, Repr

def SwapBudget.hotSwapFits (b : SwapBudget) : Bool :=
  decide (min (b.activeBytes + b.replacementBytes) (2 ^ 64 - 1) ≤ b.budgetBytes)

structure LifecycleStep where
  workerId : String
  target : WorkerState
  deriving DecidableEq, Repr

structure SwapPlan where
  active : String
  replacement : String
  steps : List LifecycleStep
  deriving DecidableEq, Repr

def SwapPlan.cold (active replacement : String) : SwapPlan where
  active := active
  replacement := replacement
  steps := [⟨active, .draining⟩, ⟨active, .stopping⟩, ⟨active, .stopped⟩, ⟨replacement, .starting⟩, ⟨replacement, .ready⟩]

def SwapPlan.hot (active replacement : String) : SwapPlan where
  active := active
  replacement := replacement
  steps := [⟨replacement, .starting⟩, ⟨replacement, .warming⟩, ⟨replacement, .ready⟩, ⟨active, .draining⟩,
    ⟨active, .stopping⟩, ⟨active, .stopped⟩]

structure SwapExecution where
  mode : SwapMode
  plan : SwapPlan
  statuses : List WorkerStatus
  success : Bool
  deriving DecidableEq, Repr

def executeColdSwap (active : String) (replacement : PlannedWorker) : WorkerProg SwapExecution := do
  let plan := SwapPlan.cold active replacement.worker.id
  let drained ← drain active
  let stopped ← stop active
  if stopped.state ≠ .stopped then
    pure ⟨.cold, plan, [drained, stopped], false⟩
  else
    let started ← start replacement
    pure ⟨.cold, plan, [drained, stopped, started], started.state == .ready⟩

def executeHotSwap (active : String) (replacement : PlannedWorker) : WorkerProg SwapExecution := do
  let plan := SwapPlan.hot active replacement.worker.id
  let started ← start replacement
  if started.state ≠ .ready then
    pure ⟨.hot, plan, [started], false⟩
  else
    let drained ← drain active
    let stopped ← stop active
    pure ⟨.hot, plan, [started, drained, stopped], stopped.state == .stopped⟩

def effectiveMode : SwapMode → Option SwapBudget → SwapMode
  | .hot, some budget => if budget.hotSwapFits then .hot else .cold
  | mode, _ => mode

def executeSwapWithBudget (mode : SwapMode) (active : String) (replacement : PlannedWorker)
    (budget : Option SwapBudget) : WorkerProg SwapExecution :=
  match effectiveMode mode budget with
  | .cold => executeColdSwap active replacement
  | .hot => executeHotSwap active replacement

end Llmctl
