import Llmctl.Async.Trace
import Llmctl.Server.Native

/-!
# The native scheduler, step by step

`scheduledNativeChat` with each operation on the semaphore and on the shared counter a
step of its own. Calls interleave between the steps, and a call can be dropped where it
awaits a permit or the inner engine. The counter is an unbounded number upwards: each
call that it counts is a future on the heap.
-/

namespace Llmctl.Scheduler

open Async

/-! ## The scheduler -/

structure NativeSchedulerConfig where
  maxConcurrentRequests : Nat := 1
  maxQueuedRequests : Nat := 127
  maxBatchSize : Nat := 1
  maxBatchWaitMs : Nat := 0
  kvCacheBudgetBytes : Nat := 0
  deriving DecidableEq, Repr

/-- What `NativeSchedulerEngine::new` makes of a configuration. -/
def NativeSchedulerConfig.new (config : NativeSchedulerConfig) : NativeSchedulerConfig :=
  { config with
    maxConcurrentRequests := max config.maxConcurrentRequests 1
    maxBatchSize := max config.maxBatchSize 1 }

inductive NativeScheduledOperation where
  | chat
  | stream
  | streamTokens
  deriving DecidableEq, Repr

inductive SchedulerOp where
  | now
  | tryAcquire
  | fetchAdd
  | fetchSub
  | newGuard
  | acquire
  | dropGuard
  | inner (operation : NativeScheduledOperation) (request : NativeChatRequest)
  | dropPermit
  deriving DecidableEq

@[reducible] def SchedulerSig : Sig where
  Op := SchedulerOp
  Ans
    | .now | .fetchAdd => Nat
    | .tryAcquire => Bool
    | .inner .. => Result NativeChatResponse
    | _ => Unit

abbrev SchedulerProg := Prog SchedulerSig

/-- `NativeSchedulerWaitGuard::enter`: what the counter was before, once a guard is made. -/
def enter (maxQueuedRequests : Nat) : SchedulerProg (Result Nat) := do
  let queuedBefore ← Prog.op (S := SchedulerSig) .fetchAdd
  if maxQueuedRequests ≤ queuedBefore then
    Prog.op (S := SchedulerSig) .fetchSub
    pure (.error queueFull)
  else
    Prog.op (S := SchedulerSig) .newGuard
    pure (.ok queuedBefore)

/-- Waits for a permit if none is free; the number of requests queued before this one. -/
def takePermit (config : NativeSchedulerConfig) : SchedulerProg (Result Nat) := do
  if ← Prog.op (S := SchedulerSig) .tryAcquire then pure (.ok 0)
  else
    match ← enter config.maxQueuedRequests with
    | .error err => pure (.error err)
    | .ok queuedBefore =>
      Prog.op (S := SchedulerSig) .acquire
      Prog.op (S := SchedulerSig) .dropGuard
      pure (.ok queuedBefore)

def stampSchedulerMetadata (metadata : Json) (waitMs queuedBeforeAdmit : Nat) (config : NativeSchedulerConfig) : Json :=
  let metadata := metadata.insert "llmctl.scheduler.discipline" "fifo"
  let metadata := metadata.insert "llmctl.scheduler.queue.implemented" "true"
  let metadata := metadata.insert "llmctl.scheduler.queue_wait_ms" (toString waitMs)
  let metadata := metadata.insert "llmctl.scheduler.admission_wait_ms" (toString waitMs)
  let metadata := metadata.insert "llmctl.scheduler.queued_requests_before_admit" (toString queuedBeforeAdmit)
  let metadata := metadata.insert "llmctl.scheduler.max_concurrent_requests" (toString config.maxConcurrentRequests)
  let metadata := metadata.insert "llmctl.scheduler.max_queued_requests" (toString config.maxQueuedRequests)
  let metadata := metadata.insert "llmctl.scheduler.batching.continuous.implemented" "false"
  let metadata := metadata.insert "llmctl.scheduler.batching.phase_scheduling.implemented" "true"
  let metadata := metadata.insert "llmctl.scheduler.phase" "prefill-then-decode"
  let metadata := metadata.insert "llmctl.scheduler.prefill.phase" "scheduled"
  let metadata := metadata.insert "llmctl.scheduler.decode.phase" "scheduled"
  let metadata := metadata.insert "llmctl.scheduler.max_batch_size" (toString config.maxBatchSize)
  let metadata := metadata.insert "llmctl.scheduler.max_wait_ms" (toString config.maxBatchWaitMs)
  let metadata := metadata.insert "llmctl.scheduler.kv_cache_budget_bytes" (toString config.kvCacheBudgetBytes)
  let metadata := metadata.insert "llmctl.scheduler.kv_cache.reuse_implemented" "false"
  let metadata := metadata.insert "llmctl.scheduler.kv_cache.policy" "request-local-reset"
  let metadata := metadata.insert "llmctl.scheduler.cancellation.admission_check_implemented" "true"
  metadata.insert "llmctl.scheduler.cancellation.decode_loop_check_implemented" "false"

def runScheduledNativeChat (request : NativeChatRequest) (operation : NativeScheduledOperation) :
    SchedulerProg (Result NativeChatResponse) := do
  let response ← Prog.op (S := SchedulerSig) (.inner operation request)
  Prog.op (S := SchedulerSig) .dropPermit
  pure response

def scheduledNativeChat (config : NativeSchedulerConfig) (request : NativeChatRequest)
    (operation : NativeScheduledOperation) : SchedulerProg (Result NativeChatResponse) := do
  if requestCancelled request.metadata then pure (.error cancelledBeforeDecode)
  else
    let queuedAt ← Prog.op (S := SchedulerSig) .now
    match ← takePermit config with
    | .error err => pure (.error err)
    | .ok queuedBeforeAdmit =>
      if requestCancelled request.metadata then
        Prog.op (S := SchedulerSig) .dropPermit
        pure (.error cancelledBeforeDecode)
      else
        let now ← Prog.op (S := SchedulerSig) .now
        runScheduledNativeChat
          { request with
            metadata := stampSchedulerMetadata request.metadata (now - queuedAt) queuedBeforeAdmit config }
          operation

/-! ## Calls side by side -/

/-- Where a call stands: `entered` is what it read from the counter while it is inside
`enter`; `guard` and `permit` are the values that it owns. -/
structure Caller where
  started : Bool := false
  entered : Option Nat := none
  guard : Bool := false
  permit : Bool := false
  rejected : Bool := false
  handed : Bool := false
  deriving DecidableEq, Repr

structure Counters where
  permits : Nat := 0
  waiting : Nat := 0
  deriving DecidableEq, Repr

/-- `fetch_sub(1)` on an `AtomicUsize` -/
def wrappingPred (n : Nat) : Nat := if n = 0 then 2 ^ 64 - 1 else n - 1

namespace SchedulerOp

def can (config : NativeSchedulerConfig) (g : Counters) : (o : SchedulerOp) → SchedulerSig.Ans o → Bool
  -- A freed permit may already be assigned to a waiter: `false` can come at any time.
  | .tryAcquire, (ok : Bool) => !ok || decide (g.permits < config.maxConcurrentRequests)
  | .acquire, _ => decide (g.permits < config.maxConcurrentRequests)
  | .fetchAdd, (n : Nat) => n == g.waiting
  | _, _ => true

def loc : (o : SchedulerOp) → SchedulerSig.Ans o → Caller → Caller
  | .now, _, l => { l with started := true }
  | .tryAcquire, (ok : Bool), l => { l with permit := ok }
  | .fetchAdd, (n : Nat), l => { l with entered := some n }
  | .fetchSub, _, l => { l with entered := none, rejected := true }
  | .newGuard, _, l => { l with entered := none, guard := true }
  | .acquire, _, l => { l with permit := true }
  | .dropGuard, _, l => { l with guard := false }
  | .dropPermit, _, l => { l with permit := false }
  | .inner .., _, l => { l with handed := true }

def sh : (o : SchedulerOp) → SchedulerSig.Ans o → Counters → Counters
  | .tryAcquire, (ok : Bool), g => if ok then { g with permits := g.permits + 1 } else g
  | .acquire, _, g => { g with permits := g.permits + 1 }
  | .dropPermit, _, g => { g with permits := g.permits - 1 }
  | .fetchAdd, _, g => { g with waiting := g.waiting + 1 }
  | .fetchSub, _, g | .dropGuard, _, g => { g with waiting := wrappingPred g.waiting }
  | _, _, g => g

def isAwait : SchedulerOp → Bool
  | .acquire | .inner .. => true
  | _ => false

end SchedulerOp

/-- A dropped call drops its guard and its permit. -/
def Counters.drop (l : Caller) (g : Counters) : Counters where
  permits := if l.permit then g.permits - 1 else g.permits
  waiting := if l.guard then wrappingPred g.waiting else g.waiting

def schedulerWorld (ι : Type) (config : NativeSchedulerConfig) : World SchedulerSig ι Caller Counters Empty where
  can _ o a _ g := o.can config g a
  loc _ o a l := o.loc a l
  sh _ o a _ g := o.sh a g
  canDrop _ o := o.isAwait
  dropLoc _ _ l := { l with guard := false, permit := false }
  dropSh _ _ l g := g.drop l
  canEnv e _ := e.elim
  env e _ := e.elim

structure ScheduledCall where
  request : NativeChatRequest
  operation : NativeScheduledOperation
  deriving DecidableEq, Repr

abbrev SchedulerConf (ι : Type) := Conf SchedulerSig (Result NativeChatResponse) ι Caller Counters

def schedulerStart {ι : Type} (config : NativeSchedulerConfig) (calls : ι → ScheduledCall) : SchedulerConf ι where
  prog i := some (scheduledNativeChat config (calls i).request (calls i).operation)
  loc _ := {}
  sh := {}

def runsInner {ι : Type} (c : SchedulerConf ι) (i : ι) : Bool :=
  match c.pending i with
  | some (.inner ..) => true
  | _ => false

section
variable {ι : Type} [Fintype ι]

/-- The calls that run the inner engine. -/
def running (c : SchedulerConf ι) : Finset ι := Finset.univ.filter fun i => runsInner c i = true

/-- The live wait guards. -/
def holders (c : SchedulerConf ι) : Finset ι := Finset.univ.filter fun i => (c.loc i).guard = true

/-- The calls that have raised the counter and have neither a guard yet nor taken the
increment back. -/
def entering (c : SchedulerConf ι) : Finset ι := Finset.univ.filter fun i => (c.loc i).entered.isSome = true

end

end Llmctl.Scheduler
