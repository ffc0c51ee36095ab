import Mathlib.Data.List.Dedup
import Mathlib.Data.List.Sort
import Llmctl.Quota

/-!
# Placement, planning and routing

Which models this node serves, how each one's worker is launched, and which
model a request goes to.
-/

namespace Llmctl

/-! ## Configuration -/

inductive Mode where
  | single
  | coldSwap
  | hotSwap
  | weighted
  | fallback
  deriving DecidableEq, Repr

structure ModelConfig where
  alias_ : String
  role : String
  weight : Nat
  deriving DecidableEq, Repr

structure ServerConfig where
  host : String
  port : Nat
  workerBasePort : Nat
  upstreamTimeoutSeconds : Nat
  circuitBreakerFailures : Nat
  circuitBreakerResetSeconds : Nat
  deriving DecidableEq, Repr

structure ResourceConfig where
  cpuOnly : Bool
  gpuVendor : String
  llamaServerBin : Option String
  deriving DecidableEq, Repr

structure ClusterNodeConfig where
  id : String
  baseUrl : String
  roles : List String
  modelAliases : List String
  deriving DecidableEq, Repr

structure ClusterConfig where
  nodeId : String
  nodes : List ClusterNodeConfig
  deriving DecidableEq, Repr

structure ExternalProviderRouteConfig where
  modelAlias : String
  provider : String
  deriving DecidableEq, Repr

inductive NativeEmbeddingMode where
  | semantic
  | devFallback
  deriving DecidableEq, Repr

structure EmbeddingsConfig where
  mode : NativeEmbeddingMode
  modelAlias : Option String
  deriving DecidableEq, Repr

structure NativeSchedulerConfig where
  maxConcurrentRequests : Nat
  maxQueuedRequests : Nat
  deriving DecidableEq, Repr

structure Config where
  mode : Mode
  server : ServerConfig
  models : List ModelConfig
  resources : ResourceConfig
  cluster : ClusterConfig
  quotas : List QuotaConfig
  externalProviderRoutes : List ExternalProviderRouteConfig
  embeddings : EmbeddingsConfig
  scheduler : NativeSchedulerConfig
  deriving DecidableEq, Repr

/-! ## Placement -/

def isWhitespace (c : Char) : Bool :=
  let n := c.toNat
  (9 ≤ n && n ≤ 13) || n == 0x20 || n == 0x85 || n == 0xA0 || n == 0x1680 ||
    (0x2000 ≤ n && n ≤ 0x200A) || n == 0x2028 || n == 0x2029 || n == 0x202F || n == 0x205F || n == 0x3000

def trim (s : String) : String :=
  String.ofList ((s.toList.dropWhile isWhitespace).reverse.dropWhile isWhitespace).reverse

def starterRoles : List String := ["query", "recommendation", "thinking", "coding"]

def normalizeRole (role : String) : String :=
  let role := trim role
  if starterRoles.contains role then role else "query"

structure NativePlacementNode where
  id : String
  baseUrl : String
  roles : List String
  modelAliases : List String
  deriving DecidableEq, Repr

def placementNode (node : ClusterNodeConfig) (models : List ModelConfig) : NativePlacementNode where
  id := node.id
  baseUrl := node.baseUrl
  roles := node.roles.map normalizeRole
  modelAliases := (models.filter fun model =>
    node.modelAliases.contains model.alias_ ||
      (node.roles.map normalizeRole).contains (normalizeRole model.role)).map (·.alias_)

/-- Reading a `BTreeSet`. -/
def sortedSet (items : List String) : List String := items.dedup.insertionSort fun left right => left ≤ right

def sortedRoles (models : List ModelConfig) : List String := sortedSet (models.map fun model => normalizeRole model.role)

structure NativePlacementPlan where
  routingMode : String
  localNode : String
  nodes : List NativePlacementNode
  unassignedModels : List String
  deriving DecidableEq, Repr

def placementNodes (cfg : Config) : List NativePlacementNode :=
  if cfg.cluster.nodes.isEmpty then
    [{ id := cfg.cluster.nodeId
       baseUrl := s!"http://{cfg.server.host}:{cfg.server.port}/v1"
       roles := sortedRoles cfg.models
       modelAliases := cfg.models.map (·.alias_) }]
  else cfg.cluster.nodes.map fun node => placementNode node cfg.models

def placementPlanFromConfig (cfg : Config) : NativePlacementPlan where
  routingMode := if cfg.cluster.nodes.isEmpty then "single-node" else "cluster-role-placement"
  localNode := cfg.cluster.nodeId
  nodes := placementNodes cfg
  unassignedModels :=
    let assigned := (placementNodes cfg).flatMap (·.modelAliases)
    (cfg.models.filter fun model => !assigned.contains model.alias_).map (·.alias_)

def placementNodeFault (node : NativePlacementNode) : Option String :=
  if (trim node.id).isEmpty then some "native placement contains a node with an empty id"
  else if (trim node.baseUrl).isEmpty then some s!"native placement node '{node.id}' has an empty base_url"
  else none

/-- The ids of the nodes that own a model, one for each entry of the model. -/
def modelOwners (nodes : List NativePlacementNode) (modelAlias : String) : List String :=
  nodes.flatMap fun node => (node.modelAliases.filter (· == modelAlias)).map fun _ => node.id

def validatePlacementPlan (plan : NativePlacementPlan) : Except String Unit :=
  if !plan.unassignedModels.isEmpty then
    .error ("native placement leaves model aliases unassigned: " ++ ", ".intercalate plan.unassignedModels)
  else
    match plan.nodes.findSome? placementNodeFault with
    | some fault => .error fault
    | none =>
      let aliases := sortedSet (plan.nodes.flatMap (·.modelAliases))
      match aliases.find? fun modelAlias => decide (1 < (modelOwners plan.nodes modelAlias).length) with
      | some modelAlias =>
        let nodeIds := ", ".intercalate (modelOwners plan.nodes modelAlias)
        .error s!"native placement assigns model alias '{modelAlias}' to multiple nodes: {nodeIds}"
      | none => .ok ()

structure NativeRouteSelection where
  query : String
  candidates : List NativePlacementNode
  deriving DecidableEq, Repr

def routeSelectionForModel (plan : NativePlacementPlan) (modelAlias : String) : Except String NativeRouteSelection :=
  let candidates := plan.nodes.filter fun node => node.modelAliases.any (· == modelAlias)
  if candidates.isEmpty then .error s!"native placement has no node for model alias '{modelAlias}'"
  else if 1 < candidates.length then .error s!"native placement has multiple nodes for model alias '{modelAlias}'"
  else .ok { query := s!"model:{modelAlias}", candidates }

def modelIsRoutedLocally (cfg : Config) (model : ModelConfig) : Bool :=
  let placement := placementPlanFromConfig cfg
  match placement.nodes.find? fun node => node.id == placement.localNode with
  | some node => node.modelAliases.any (· == model.alias_)
  | none => false

/-! ## Startup plan -/

/-- What the build and the machine decide: the `llama-cpp-native` feature and the
`llama-server` binary that `find_llama_server` comes upon. -/
structure Host where
  llamaCppNative : Bool
  findLlamaServer : Option String → Option String

inductive WorkerBackend where
  | cpu
  | nvidia
  | amdVulkan
  | metal
  deriving DecidableEq, Repr

def WorkerBackend.fromResources (resources : ResourceConfig) : WorkerBackend :=
  if resources.cpuOnly then .cpu
  else if resources.gpuVendor = "nvidia" then .nvidia
  else if resources.gpuVendor = "amd" ∨ resources.gpuVendor = "vulkan" ∨ resources.gpuVendor = "amd-vulkan" then
    .amdVulkan
  else if resources.gpuVendor = "metal" ∨ resources.gpuVendor = "apple" then .metal
  else .cpu

structure WorkerSpec where
  id : String
  model : ModelConfig
  bindHost : String
  port : Nat
  deriving DecidableEq, Repr

def WorkerSpec.fromConfig (model : ModelConfig) (server : ServerConfig) (portOffset : Nat) : WorkerSpec where
  id := model.alias_
  model := model
  bindHost := server.host
  port := min (server.workerBasePort + portOffset) (2 ^ 16 - 1)

def WorkerSpec.upstream (w : WorkerSpec) : String := s!"http://{w.bindHost}:{w.port}"

inductive WorkerLaunchPlan where
  | inProcess
  | llamaServerSubprocess (llamaServerPath : String)
  | llamaCppNative
  deriving DecidableEq, Repr

def WorkerLaunchPlan.isInProcess : WorkerLaunchPlan → Bool
  | .inProcess => true
  | .llamaServerSubprocess _ => false
  | .llamaCppNative => true

structure PlannedWorker where
  worker : WorkerSpec
  launch : WorkerLaunchPlan
  deriving DecidableEq, Repr

def plannedLaunch (host : Host) (cfg : Config) : WorkerLaunchPlan :=
  if WorkerBackend.fromResources cfg.resources = .amdVulkan then
    if host.llamaCppNative then .llamaCppNative
    else
      match host.findLlamaServer cfg.resources.llamaServerBin with
      | some llamaPath => .llamaServerSubprocess llamaPath
      | none => .inProcess
  else .inProcess

def StartupPlan.fromConfig (host : Host) (cfg : Config) : List PlannedWorker :=
  (cfg.models.filter fun model => decide (0 < model.weight)).mapIdx fun index model =>
    { worker := .fromConfig model cfg.server (min index (2 ^ 16 - 1))
      launch := plannedLaunch host cfg }

/-- Reading a `BTreeMap` collected from pairs: the last pair of a key stands. -/
def mapGet (pairs : List (String × String)) (key : String) : Option String :=
  (pairs.reverse.find? fun e => e.1 == key).map (·.2)

def servingUpstreams (host : Host) (cfg : Config) : List (String × String) :=
  (StartupPlan.fromConfig host cfg).map fun planned => (planned.worker.model.alias_, planned.worker.upstream)

/-! ## Routes -/

structure ResolvedExternalProvider where
  id : String
  baseUrl : String
  apiKeyEnv : String
  deriving DecidableEq, Repr

structure ResolvedModelRoute where
  requestedAlias : String
  upstreamAlias : String
  fallbackAliases : List String
  externalProvider : Option ResolvedExternalProvider
  deriving DecidableEq, Repr

inductive ModelRouteError where
  | unknownAlias (model : String)
  | noConfiguredModels
  | externalProviderRoutingDisabled (provider : String)
  deriving DecidableEq, Repr

def ModelRouteError.text : ModelRouteError → String
  | .unknownAlias model => s!"unknown model alias: {model}"
  | .noConfiguredModels => "no models are configured"
  | .externalProviderRoutingDisabled provider =>
    s!"external provider routing is disabled for provider {provider}"

def routedModels (cfg : Config) : List ModelConfig :=
  (cfg.models.filter (modelIsRoutedLocally cfg)).insertionSort fun left right => left.alias_ ≤ right.alias_

/-- The model whose share of the weights `slot` falls into. -/
def modelAtSlot : List ModelConfig → Nat → Option ModelConfig
  | [], _ => none
  | model :: models, slot => if slot < model.weight then some model else modelAtSlot models (slot - model.weight)

def weightedModelForRequest (cfg : Config) (requestId : Nat) : Option ModelConfig :=
  let weighted := cfg.models.filter fun model => decide (0 < model.weight) && modelIsRoutedLocally cfg model
  let total := weighted.foldl (fun total model => min (total + model.weight) (2 ^ 64 - 1)) 0
  if total = 0 then none else modelAtSlot weighted (requestId % total)

def fallbackAliases (cfg : Config) (selectedAlias : String) : List String :=
  (((routedModels cfg).filter fun model => model.alias_ != selectedAlias).insertionSort fun left right =>
    right.weight < left.weight ∨ right.weight = left.weight ∧ left.alias_ ≤ right.alias_).map (·.alias_)

def selectUpstream (cfg : Config) (requested : ModelConfig) (requestId : Nat) : Option ModelConfig :=
  match cfg.mode with
  | .single => cfg.models.find? (modelIsRoutedLocally cfg)
  | .coldSwap | .hotSwap => some requested
  | .weighted => some ((weightedModelForRequest cfg requestId).getD requested)
  | .fallback =>
    if 0 < requested.weight then some requested
    else some ((weightedModelForRequest cfg requestId).getD requested)

def resolveModelRoute (cfg : Config) (requestedAlias : String) (requestId : Nat) :
    Except ModelRouteError ResolvedModelRoute :=
  if cfg.models.isEmpty then
    if (trim requestedAlias).isEmpty then .error .noConfiguredModels
    else .ok ⟨requestedAlias, requestedAlias, [], none⟩
  else
    match cfg.models.find? fun model => model.alias_ == requestedAlias && modelIsRoutedLocally cfg model with
    | none => .error (.unknownAlias requestedAlias)
    | some requested =>
      match selectUpstream cfg requested requestId with
      | none => .error .noConfiguredModels
      | some upstream =>
        match cfg.externalProviderRoutes.find? fun route => route.modelAlias == upstream.alias_ with
        | some route => .error (.externalProviderRoutingDisabled route.provider)
        | none =>
          .ok ⟨requestedAlias, upstream.alias_,
            if cfg.mode = .fallback then fallbackAliases cfg upstream.alias_ else [], none⟩

end Llmctl
