import Llmctl.Server.State

/-!
# The world of the server

The operations that handlers and detached tasks call, and what each one does to
the caller's holdings and to the shared state.
-/

namespace Llmctl

open Async

/-! ## Operations -/

inductive PermitOp where
  | tryAcquireForAll (scopes : List (String × Nat))
  | drop

inductive BreakerOp where
  | allowRequest (upstreamAlias upstream : String)
  | recordSuccess (upstream : String)
  | recordFailure (upstream : String)

inductive GateOp where
  | isAdmitting (gate : Nat)
  | increment (upstreamAlias : String) (gate : Nat)
  | decrement

inductive UpstreamOp where
  | send (upstreamAlias url body : String) (apiKey : Option String)
  | sleep (millis : Nat)
  | readBody
  | nextChunk
  | lastChunk
  | close

/-- `chat` is the call of the scheduled engine, `spawnBlocking` the start of its decode. -/
inductive SchedOp where
  | chat (engine : String) (request : NativeChatRequest)
  | tryAcquire (engine : String)
  | enterQueue (engine : String)
  | acquire (engine : String)
  | leaveQueue (engine : String)
  | release (engine : String)
  | spawnBlocking (engine : String) (request : NativeChatRequest)
  | join
  | embeddings (engine : String) (request : NativeEmbeddingRequest)

inductive BodyOp where
  | firstPoll
  | yield (item : Except String String)
  | arm (data : StreamDisconnectData)
  | updateCounts (inputTokens outputTokens : Nat)
  | disarm

/-- `spawn` answers with the number of deltas that the task can send back. -/
inductive TaskOp where
  | spawn (job : Job)
  | start
  | recvToken
  | recvClosed
  | recvFinal

inductive ServerOp where
  | store (o : StoreOp)
  | worker (o : WorkerOp)
  | permit (o : PermitOp)
  | breaker (o : BreakerOp)
  | gate (o : GateOp)
  | upstream (o : UpstreamOp)
  | sched (o : SchedOp)
  | body (o : BodyOp)
  | task (o : TaskOp)
  | authenticate
  | isDraining
  | instant
  | utcNow

@[reducible] def ServerSig : Sig where
  Op := ServerOp
  Ans
    | .store o => StoreSig.Ans o
    | .worker o => WorkerSig.Ans o
    | .permit (.tryAcquireForAll _) => Bool
    | .breaker (.allowRequest ..) => Verdict
    | .gate (.isAdmitting _) => Bool
    | .upstream (.send ..) => Sent
    | .upstream .readBody => BodyRead
    | .upstream .nextChunk => Chunk
    | .upstream .lastChunk => StreamEnd
    | .sched (.tryAcquire _) | .sched (.enterQueue _) => Bool
    | .sched .join => Result NativeChatResponse
    | .sched (.embeddings ..) => Result NativeEmbeddingResponse
    | .task (.spawn _) => Nat
    | .task .start => Job
    | .task .recvToken => Option String
    | .task .recvFinal => NativeStreamOutcome
    | .authenticate => Result Principal
    | .isDraining => Bool
    | .instant => Nat
    | .utcNow => Int
    | _ => Unit

abbrev ServerProg := Prog ServerSig

abbrev op (o : ServerOp) : ServerProg (ServerSig.Ans o) := Prog.op (S := ServerSig) o

def storage {α : Type} (p : StoreProg α) : ServerProg α := p.lift (T := ServerSig) .store fun _ a => a

def supervisor {α : Type} (p : WorkerProg α) : ServerProg α := p.lift (T := ServerSig) .worker fun _ a => a

/-! ## Suspension points -/

def ServerOp.isAwait : ServerOp → Bool
  | .store o => o.isAwait
  | .worker o => o.isAwait
  | .upstream .close => false
  | .upstream _ => true
  | .sched (.acquire _) | .sched .join | .sched (.embeddings ..) => true
  | .body .firstPoll | .body (.yield _) => true
  | .task .recvToken | .task .recvClosed | .task .recvFinal => true
  | _ => false

/-! ## Answers -/

def millis (seconds : Nat) : Nat := 1000 * seconds

def SchedOp.can (st : ServerState) (slots waiting : String → Nat) (decode : Decode) :
    (o : SchedOp) → ServerSig.Ans (.sched o) → Bool
  -- A released permit may already be assigned to a waiter: `false` can come at any time.
  | .tryAcquire e, (ok : Bool) => !ok || decide (slots e < st.maxConcurrentRequests)
  | .enterQueue e, (ok : Bool) => !ok || decide (waiting e < st.cfg.scheduler.maxQueuedRequests)
  | .acquire e, _ => decide (slots e < st.maxConcurrentRequests)
  | .join, _ => match decode with
    | .returned _ => true
    | _ => false
  | _, _ => true

variable {R : Type} [DecidableEq R]

def Server.job (g : Server R) : Proc R → Option Job
  | .request _ => none
  | .task r => g.jobs r

omit [DecidableEq R] in
/-- The answers that the shared state decides; the environment decides the others. -/
def ServerOp.can (st : ServerState) (i : Proc R) (g : Server R) : (o : ServerOp) → ServerSig.Ans o → Bool
  | .store o, a => o.can st.storage g.store a
  | .worker o, a => o.can g.workers g.supervisorLocked g.inFlight g.instant a
  | .permit (.tryAcquireForAll scopes), (ok : Bool) => ok == (g.admission.tryAcquireForAll scopes).1
  | .breaker (.allowRequest _ u), v =>
    v == g.breakers.verdict u (millis st.cfg.server.circuitBreakerResetSeconds) g.instant
  | .gate (.isAdmitting n), (b : Bool) => b == g.workers.admitting n
  | .sched o, a => o.can st g.slots g.waiting (g.decodes i) a
  | .task .start, job => g.job i == some job
  | .isDraining, (b : Bool) => b == g.draining
  | .instant, (n : Nat) => n == g.instant
  | .utcNow, (t : Int) => decide (g.store.clock < t)
  | _, _ => true

/-! ## Effects on the caller -/

def BreakerOp.attempt : (o : BreakerOp) → ServerSig.Ans (.breaker o) → Option Attempt → Option Attempt
  | .allowRequest k u, (v : Verdict), attempt => match v with
    | .refused => attempt
    | .closed => some ⟨k, u, false⟩
    | .probe => some ⟨k, u, true⟩
  | _, _, _ => none

/-- An attempt ends when its outcome is recorded, or when the answer is one that
`dispatch_chat_request` hands on without a record. -/
def UpstreamOp.attempt : (o : UpstreamOp) → ServerSig.Ans (.upstream o) → Option Attempt → Option Attempt
  | .send .., (s : Sent), attempt => match s with
    | .response r => if r.status.isSuccess || shouldRetryUpstreamStatus r.status then attempt else none
    | _ => attempt
  | _, _, attempt => attempt

def UpstreamOp.upstream : (o : UpstreamOp) → ServerSig.Ans (.upstream o) → Option OpenBody → Option OpenBody
  | .send k _ _ _, (s : Sent), open_ => match s with
    | .response r => some ⟨k, r.status⟩
    | _ => open_
  | .readBody, _, _ | .close, _, _ => none
  | _, _, open_ => open_

def PermitOp.permit : (o : PermitOp) → ServerSig.Ans (.permit o) → Option AdmissionPermit → Option AdmissionPermit
  | .tryAcquireForAll scopes, (ok : Bool), permit => if ok then some (scopes.map (·.1)) else permit
  | .drop, _, _ => none

def GateOp.worker : GateOp → Option WorkerGuard → Option WorkerGuard
  | .increment k gate, _ => some ⟨k, gate⟩
  | .decrement, _ => none
  | _, guard => guard

def SchedOp.queued : (o : SchedOp) → ServerSig.Ans (.sched o) → Option String → Option String
  | .enterQueue e, (ok : Bool), q => if ok then some e else q
  | .leaveQueue _, _, _ => none
  | _, _, q => q

def SchedOp.slot : (o : SchedOp) → ServerSig.Ans (.sched o) → Option String → Option String
  | .tryAcquire e, (ok : Bool), slot => if ok then some e else slot
  | .acquire e, _, _ => some e
  | .release _, _, _ => none
  | _, _, slot => slot

def SchedOp.decode : SchedOp → Option String → Option String
  | .spawnBlocking e _, _ => some e
  | .join, _ => none
  | _, decode => decode

def BodyOp.guard : BodyOp → Option StreamDisconnectData → Option StreamDisconnectData
  | .arm data, _ => some data
  | .updateCounts input output, guard =>
    guard.map fun data => { data with inputTokens := input, outputTokens := output }
  | .disarm, _ => none
  | _, guard => guard

def TaskOp.permit : (o : TaskOp) → ServerSig.Ans (.task o) → Option AdmissionPermit → Option AdmissionPermit
  | .spawn (.decode _ _), _, _ => none
  | .start, (job : Job), permit => match job with
    | .decode context _ => some context.admission
    | .disconnect _ => permit
  | _, _, permit => permit

/-- What a change of `id`'s status leaves to settle. -/
def StatusChange.unsettled (id : String) : StatusChange → List String → List String
  | .starting, ids | .warming _, ids | .draining, ids | .stopping, ids => ids.insert id
  | .ready, ids | .startFailed _, ids | .stopped, ids | .stopFailed _, ids => ids.filter (· != id)
  | .restarted, ids => ids

def WorkerOp.tenure : WorkerOp → Option Tenure → Option Tenure
  | .lockSupervisor, _ => some {}
  | .unlockSupervisor, _ => none
  | .updateStatus id change, t => t.map fun t => { t with unsettled := change.unsettled id t.unsettled }
  | .stopAdmitting id, t => t.map fun t =>
    { unsettled := t.unsettled.insert id, opened := if t.opened = some id then none else t.opened }
  | .insertAdmission id, t => t.map fun t => { t with opened := some id }
  | _, t => t

def ServerOp.holding : (o : ServerOp) → ServerSig.Ans o → Holding → Holding
  | .worker o, _, h => { h with supervisor := o.tenure h.supervisor }
  | .permit o, a, h => { h with permit := o.permit a h.permit }
  | .breaker o, a, h => { h with attempt := o.attempt a h.attempt }
  | .gate o, _, h => { h with worker := o.worker h.worker }
  | .upstream o, a, h => { h with attempt := o.attempt a h.attempt, upstream := o.upstream a h.upstream }
  | .sched o, a, h => { h with queued := o.queued a h.queued, slot := o.slot a h.slot, decode := o.decode h.decode }
  | .body o, _, h => { h with guard := o.guard h.guard }
  | .task o, a, h => { h with permit := o.permit a h.permit }
  | _, _, h => h

def StreamEnd.stage : StreamEnd → Stage
  | .done => .ended
  | .failed _ | .timedOut => .failed

def Stage.next : (o : ServerOp) → ServerSig.Ans o → Stage → Stage
  | .body .firstPoll, _, _ | .body (.updateCounts ..), _, _ => .reading
  | .body .disarm, _, .holding | .body .disarm, _, .failed => .settled
  | .upstream .nextChunk, (chunk : Chunk), _ => match chunk with
    | .bytes _ => .holding
    | .ended e => e.stage
  | .upstream .lastChunk, (e : StreamEnd), _ => e.stage
  | _, _, stage => stage

def ServerOp.trace (o : ServerOp) (a : ServerSig.Ans o) (t : Trace) : Trace where
  stage := t.stage.next o a
  sent := match o with
    | .upstream (.send _ url _ _) => t.sent ++ [url]
    | _ => t.sent
  handed := match o with
    | .sched (.chat e _) => t.handed ++ [e]
    | _ => t.handed
  decoded := match o with
    | .sched (.spawnBlocking e _) => t.decoded ++ [e]
    | _ => t.decoded
  usage := match o, a with
    | .store (.insertUsageEvent e), .ok _ => t.usage ++ [e]
    | _, _ => t.usage
  audit := match o, a with
    | .store (.insertAuditEvent e), .ok _ => t.audit ++ [e]
    | _, _ => t.audit
  storeFailed := match o, a with
    | .sched (.spawnBlocking ..), _ => false
    | .store .acquireQuery, .error _ => true
    | .store (.insertUsageEvent _), .error _ => true
    | .store (.insertAuditEvent _), .error _ => true
    | _, _ => t.storeFailed
  gate := match o, a with
    | .worker (.getAdmission id), some n => some (id, n)
    | _, _ => t.gate

def ServerOp.loc (o : ServerOp) (a : ServerSig.Ans o) (l : Local) : Local where
  call := match o, a with
    | .store o, a => o.loc a l.call
    | _, _ => l.call
  holding := o.holding a l.holding
  trace := o.trace a l.trace

/-! ## Effects on the shared state -/

def PermitOp.sh (o : PermitOp) (h : Holding) (c : AdmissionController) : AdmissionController :=
  match o, h.permit with
  | .tryAcquireForAll scopes, _ => (c.tryAcquireForAll scopes).2
  | .drop, some permit => c.release permit
  | .drop, none => c

def BreakerOp.sh (st : ServerState) (now : Nat) (o : BreakerOp) (b : CircuitBreakers) : CircuitBreakers :=
  match o with
  | .allowRequest _ u => (b.allowRequest u (millis st.cfg.server.circuitBreakerResetSeconds) now).2
  | .recordSuccess u => b.recordSuccess u
  | .recordFailure u => b.recordFailure u st.cfg.server.circuitBreakerFailures now

def GateOp.sh (o : GateOp) (h : Holding) (inFlight : Nat → Nat) : Nat → Nat :=
  match o, h.worker with
  | .increment _ gate, _ => Function.update inFlight gate (inFlight gate + 1)
  | .decrement, some guard => Function.update inFlight guard.gate (inFlight guard.gate - 1)
  | _, _ => inFlight

def SchedOp.slots : (o : SchedOp) → ServerSig.Ans (.sched o) → (String → Nat) → String → Nat
  | .tryAcquire e, (ok : Bool), s => if ok then Function.update s e (s e + 1) else s
  | .acquire e, _, s => Function.update s e (s e + 1)
  | .release e, _, s => Function.update s e (s e - 1)
  | _, _, s => s

def SchedOp.waiting : (o : SchedOp) → ServerSig.Ans (.sched o) → (String → Nat) → String → Nat
  | .enterQueue e, (ok : Bool), w => if ok then Function.update w e (w e + 1) else w
  | .leaveQueue e, _, w => Function.update w e (w e - 1)
  | _, _, w => w

def SchedOp.decodes (i : Proc R) (o : SchedOp) (d : Proc R → Decode) : Proc R → Decode :=
  match o with
  | .spawnBlocking e _ => Function.update d i (.running e)
  | .join => Function.update d i .none
  | _ => d

def TaskOp.jobs (i : Proc R) (o : TaskOp) (jobs : R → Option Job) : R → Option Job :=
  match o, i with
  | .spawn job, .request r => Function.update jobs r (some job)
  | .start, .task r => Function.update jobs r none
  | _, _ => jobs

def ServerOp.sh (st : ServerState) (i : Proc R) (l : Local) (g : Server R) : (o : ServerOp) → ServerSig.Ans o → Server R
  | .store o, a => { g with store := o.sh a l.call.held g.store }
  | .worker o, a =>
    { g with
      workers := o.workers a g.workers
      supervisorLocked := match o with
        | .lockSupervisor => true
        | .unlockSupervisor => false
        | _ => g.supervisorLocked }
  | .permit o, _ => { g with admission := o.sh l.holding g.admission }
  | .breaker o, _ => { g with breakers := o.sh st g.instant g.breakers }
  | .gate o, _ => { g with inFlight := o.sh l.holding g.inFlight }
  | .sched o, a =>
    { g with slots := o.slots a g.slots, waiting := o.waiting a g.waiting, decodes := o.decodes i g.decodes }
  | .task o, _ => { g with jobs := o.jobs i g.jobs }
  | .utcNow, (t : Int) => { g with store := { g.store with clock := t } }
  | _, _ => g

/-! ## Dropped futures -/

def Local.drop (l : Local) : Local where
  call := { l.call with held := {} }
  holding := {}
  trace := l.trace

/-- The destructors of what a dropped future held run; a decode that it has started
goes on, and an armed guard spawns the terminal record of its stream. -/
def Server.drop (i : Proc R) (o : ServerOp) (l : Local) (g : Server R) : Server R where
  store := match o with
    | .store o => o.dropSh l.call.held g.store
    | _ => g.store
  instant := g.instant
  draining := g.draining
  admission := match l.holding.permit with
    | some permit => g.admission.release permit
    | none => g.admission
  breakers := g.breakers
  workers := g.workers
  supervisorLocked := g.supervisorLocked && l.holding.supervisor.isNone
  inFlight := GateOp.decrement.sh l.holding g.inFlight
  slots := match l.holding.slot with
    | some e => SchedOp.slots (.release e) () g.slots
    | none => g.slots
  waiting := match l.holding.queued with
    | some e => SchedOp.waiting (.leaveQueue e) () g.waiting
    | none => g.waiting
  decodes := g.decodes
  jobs := match l.holding.guard with
    | some data => TaskOp.jobs i (.spawn (.disconnect data)) g.jobs
    | none => g.jobs

/-! ## The environment -/

inductive ServerEvent (R : Type) where
  | tick (millis : Nat)
  | beginDrain
  | decodeReturns (i : Proc R)

def ServerEvent.apply (g : Server R) : ServerEvent R → Server R
  | .tick n => { g with instant := g.instant + n }
  | .beginDrain => { g with draining := true }
  | .decodeReturns i =>
    match g.decodes i with
    | .running e => { g with decodes := Function.update g.decodes i (.returned e) }
    | _ => g

theorem ServerEvent.apply_eq (e : ServerEvent R) (g : Server R) :
    e.apply g = { g with
      instant := (e.apply g).instant, draining := (e.apply g).draining, decodes := (e.apply g).decodes } := by
  cases e with
  | tick n => rfl
  | beginDrain => rfl
  | decodeReturns i =>
    simp only [ServerEvent.apply]
    split <;> rfl

/-- A detached task is not dropped. -/
def serverWorld (R : Type) [DecidableEq R] (st : ServerState) : World ServerSig (Proc R) Local (Server R) (ServerEvent R) where
  can i o a _ g := o.can st i g a
  loc _ o a l := o.loc a l
  sh i o a l g := o.sh st i l g a
  canDrop
    | .request _, o => o.isAwait
    | .task _, _ => false
  dropLoc _ _ l := l.drop
  dropSh i o l g := g.drop i o l
  canEnv _ _ := true
  env e g := e.apply g

end Llmctl
