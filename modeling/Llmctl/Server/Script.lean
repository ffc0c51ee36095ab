import Llmctl.Server.Admin

/-!
# Scripted runs

A script names whose turn it is and what the surroundings answer. The answers
that the shared state decides are taken from it.
-/

namespace Llmctl

open Async

structure Surroundings where
  principal : Result Principal := .ok { subject := "alice", team := "", scopes := ["chat", "admin"] }
  sent : Sent := .response ⟨200, none, 0⟩
  read : BodyRead := .bytes ""
  chunk : Chunk := .ended .done
  streamEnd : StreamEnd := .done
  joined : Result NativeChatResponse := .ok ⟨"qwen", "hello", "stop", ⟨1, 1, "exact"⟩⟩
  embedded : Result NativeEmbeddingResponse := .ok ⟨"qwen", [["0"]], true, "candle-native", "ok", ⟨1, 0, "exact"⟩⟩
  deltas : Nat := 0
  token : Option String := none
  outcome : NativeStreamOutcome := .done "stop"
  killed : Result Unit := .ok ()
  spawned : Result Nat := .ok 1
  probed : Bool := true
  deriving DecidableEq, Repr

section
variable {R : Type} (st : ServerState) (env : Surroundings)

def WorkerOp.answer (g : Server R) : (o : WorkerOp) → WorkerSig.Ans o
  | .updateStatus id change => change.apply (g.workers.status id)
  | .getAdmission id => g.workers.registry id
  | .inFlight n => g.inFlight n
  | .instant => g.instant
  | .removeChild id => g.workers.children id
  | .probe _ => env.probed
  | .killChild => env.killed
  | .insertChild _ => env.spawned
  | .lockSupervisor | .unlockSupervisor | .stopAdmitting _ | .insertAdmission _ | .sleepUntil _ => ()

def ServerOp.answer (i : Proc R) (g : Server R) : (o : ServerOp) → Option (ServerSig.Ans o)
  | .store o => some (o.answer g.store)
  | .worker o => some (o.answer env g)
  | .permit (.tryAcquireForAll scopes) => some (g.admission.tryAcquireForAll scopes).1
  | .permit .drop => some ()
  | .breaker (.allowRequest _ u) =>
    some (g.breakers.verdict u (millis st.cfg.server.circuitBreakerResetSeconds) g.instant)
  | .breaker (.recordSuccess _) | .breaker (.recordFailure _) => some ()
  | .gate (.isAdmitting n) => some (g.workers.admitting n)
  | .gate (.increment ..) | .gate .decrement => some ()
  | .upstream (.send ..) => some env.sent
  | .upstream .readBody => some env.read
  | .upstream .nextChunk => some env.chunk
  | .upstream .lastChunk => some env.streamEnd
  | .upstream (.sleep _) | .upstream .close => some ()
  | .sched (.tryAcquire e) => some (decide (g.slots e < st.maxConcurrentRequests))
  | .sched (.enterQueue e) => some (decide (g.waiting e < st.cfg.scheduler.maxQueuedRequests))
  | .sched .join => some env.joined
  | .sched (.embeddings ..) => some env.embedded
  | .sched (.chat ..) | .sched (.acquire _) | .sched (.leaveQueue _) | .sched (.release _) => some ()
  | .sched (.spawnBlocking ..) => some ()
  | .body .firstPoll | .body (.yield _) | .body (.arm _) | .body (.updateCounts ..) | .body .disarm => some ()
  | .task (.spawn _) => some env.deltas
  | .task .start => g.job i
  | .task .recvToken => some env.token
  | .task .recvClosed => some ()
  | .task .recvFinal => some env.outcome
  | .authenticate => some env.principal
  | .isDraining => some g.draining
  | .instant => some g.instant
  | .utcNow => some (g.store.clock + 1)

abbrev ServerChoice (R : Type) := Choice ServerSig (Proc R) (Server R) (ServerEvent R)

def Proc.turns (i : Proc R) (n : Nat) : List (ServerChoice R) :=
  List.replicate n (.answer i fun o g => o.answer st env i g)

end

/-! ## A node with one model -/

def qwen : ModelConfig where
  alias_ := "qwen"
  role := "coding"
  weight := 1

def oneModel : Config where
  mode := .single
  server :=
    { host := "127.0.0.1"
      port := 8765
      workerBasePort := 9000
      upstreamTimeoutSeconds := 60
      circuitBreakerFailures := 1
      circuitBreakerResetSeconds := 1 }
  models := [qwen]
  resources := { cpuOnly := false, gpuVendor := "amd", llamaServerBin := none }
  cluster := { nodeId := "local", nodes := [] }
  quotas := []
  externalProviderRoutes := []
  embeddings := { mode := .semantic, modelAlias := none }
  scheduler := { maxConcurrentRequests := 1, maxQueuedRequests := 8 }

def oneModelNode : ServerState where
  cfg := oneModel
  host := { llamaCppNative := false, findLlamaServer := fun _ => some "llama-server" }
  storage := { dialect := .sqlite, maxConnections := 5, advisoryLockKeyForScope := fun _ => 0 }
  nativeEngines := []
  workerControl := .none
  maxInFlight := 4
  guardrails := none
  parseChat body := .ok ⟨"qwen", [], body == "stream", [], ⟨0, "null", 0⟩⟩
  parseEmbedding _ := .ok ⟨"qwen", [], none, []⟩
  setMessages body _ := .ok body
  setModel body _ := .ok body
  bodyUsage _ := (1, 1)
  usageTokens _ := none
  env _ := none
  deterministicEmbeddings _ := .error "no input"
  modelFootprintBytes _ := none
  swapResourceBudgetBytes _ := none

/-- The model runs in the server's own process. -/
def nativeNode : ServerState :=
  { oneModelNode with nativeEngines := ["qwen"], cfg := { oneModel with models := [{ qwen with weight := 0 }] } }

def qwenRoute : ResolvedModelRoute := ⟨"qwen", "qwen", [], none⟩

def qwenChat : ChatCompletionRequest := ⟨"qwen", [], false, [], ⟨0, "null", 0⟩⟩

/-- A chat request; its body says whether the answer is streamed. -/
def chatInput (requestId : Nat) (body : String) : Input := .chat ⟨requestId, body, [], none⟩

end Llmctl
