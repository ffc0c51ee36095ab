import Llmctl.SortedMap
import Mathlib.Data.String.Basic

/-!
# Differences of startup plans

The plans as they are written to a file, and how `server plan-diff` compares two of them. The
resource limits are not compared.
-/

namespace Llmctl.Plan

inductive WorkerBackend where
  | cpu
  | nvidia (gpuLayers : Nat)
  | amdVulkan (gpuLayers : Nat)
  | metal (gpuLayers : Nat)
  deriving DecidableEq, Repr

structure WorkerDeviceSelection where
  deviceIndex : Option Nat
  selection : String
  deriving DecidableEq, Repr

def WorkerDeviceSelection.cpu : WorkerDeviceSelection := ⟨none, "cpu-only"⟩

structure WorkerExecutionPlan where
  backend : WorkerBackend
  device : WorkerDeviceSelection
  gpuLayers : Nat
  deriving DecidableEq, Repr

def WorkerExecutionPlan.cpu : WorkerExecutionPlan := ⟨.cpu, .cpu, 0⟩

structure ModelConfig where
  alias_ : String
  path : String
  role : String
  family : Option String
  weight : Nat
  deriving DecidableEq, Repr

structure WorkerSpec where
  id : String
  model : ModelConfig
  bindHost : String
  port : Nat
  contextSize : Nat
  backend : WorkerBackend
  deriving DecidableEq, Repr

structure CommandSpec where
  program : String
  args : List String
  env : List (String × String)
  deriving DecidableEq, Repr

inductive RuntimeBackend where
  | candleNative
  deriving DecidableEq, Repr

inductive WorkerLaunchPlan where
  | inProcess (backend : RuntimeBackend) (engine : String) (implemented : Bool)
  | llamaServerSubprocess (llamaServerPath : String)
  | llamaCppNative (gpuLayers : Nat)
  deriving DecidableEq, Repr

def WorkerLaunchPlan.candleNative : WorkerLaunchPlan := .inProcess .candleNative "candle-native" true

structure PlannedWorker where
  worker : WorkerSpec
  launch : WorkerLaunchPlan
  execution : WorkerExecutionPlan
  command : CommandSpec
  deriving DecidableEq, Repr

structure StartupPlan where
  workers : List PlannedWorker
  deriving DecidableEq, Repr

structure PlanDiffCounts where
  added : Nat
  removed : Nat
  changed : Nat
  unchanged : Nat
  deriving DecidableEq, Repr

structure PlanDiff where
  added : List String
  removed : List String
  changed : List String
  unchanged : List String
  counts : PlanDiffCounts
  deriving DecidableEq, Repr

def workersByAlias (workers : List PlannedWorker) : SortedMap String PlannedWorker :=
  .collect (workers.map fun worker => (worker.worker.id, worker))

/-- One turn of the loop over the old workers, with what has changed and what has not so far. -/
def compareWorker (newWorkers : SortedMap String PlannedWorker) (lists : List String × List String)
    (old : String × PlannedWorker) : List String × List String :=
  match newWorkers.get old.1 with
  | some newWorker => if old.2 = newWorker then (lists.1, lists.2 ++ [old.1]) else (lists.1 ++ [old.1], lists.2)
  | none => lists

def StartupPlan.diff (self next : StartupPlan) : PlanDiff :=
  let oldWorkers := workersByAlias self.workers
  let newWorkers := workersByAlias next.workers
  let added := newWorkers.keys.filter fun alias_ => !oldWorkers.containsKey alias_
  let removed := oldWorkers.keys.filter fun alias_ => !newWorkers.containsKey alias_
  let (changed, unchanged) := oldWorkers.entries.foldl (compareWorker newWorkers) ([], [])
  { added, removed, changed, unchanged, counts := ⟨added.length, removed.length, changed.length, unchanged.length⟩ }

end Llmctl.Plan
