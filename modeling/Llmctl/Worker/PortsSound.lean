import Llmctl.Routing
import Mathlib.Data.List.Nodup
import Mathlib.Data.List.Range

/-!
# The ports of the planned workers

A startup plan gives the workers the ports from `worker_base_port` on, with the
index and the port both kept at the largest 16-bit number. The addresses differ
from each other, and from that of the server, as long as no port is cut off.
-/

namespace Llmctl

/-- The models that a plan starts a worker for. -/
def Config.weighted (cfg : Config) : List ModelConfig := cfg.models.filter fun model => decide (0 < model.weight)

def plannedPort (base index : Nat) : Nat := min (base + min index (2 ^ 16 - 1)) (2 ^ 16 - 1)

theorem toString_nat_injective {m n : Nat} (h : toString m = toString n) : m = n := by
  have hdigits : Nat.toDigits 10 m = Nat.toDigits 10 n := by
    simpa [Nat.toString_eq_repr, Nat.repr, String.ofList_inj] using h
  rw [← Nat.ofDigitChars_ten_toDigits (n := m), hdigits, Nat.ofDigitChars_ten_toDigits]

theorem address_inj (host : String) {port other : Nat} :
    s!"http://{host}:{port}" = s!"http://{host}:{other}" ↔ port = other := by
  constructor
  · intro h
    simp only [toString, String.append_assoc, String.append_right_inj] at h
    exact toString_nat_injective h
  · intro h
    rw [h]

theorem upstreams_fromConfig (host : Host) (cfg : Config) :
    (StartupPlan.fromConfig host cfg).map (·.worker.upstream) =
      (List.range cfg.weighted.length).map fun index =>
        s!"http://{cfg.server.host}:{plannedPort cfg.server.workerBasePort index}" := by
  unfold StartupPlan.fromConfig Config.weighted
  apply List.ext_getElem
  · simp
  · intro index _ _
    simp [WorkerSpec.fromConfig, WorkerSpec.upstream, plannedPort]

/-- The planned ports differ while the last one fits 16 bits. -/
theorem plannedPorts_nodup_iff {base : Nat} (hbase : base < 2 ^ 16) (n : Nat) :
    ((List.range n).map (plannedPort base)).Nodup ↔ n ≤ 1 ∨ base + n ≤ 2 ^ 16 := by
  constructor
  · intro hnodup
    by_contra hcut
    have hinj := List.inj_on_of_nodup_map hnodup
    -- the last two workers both get the largest port
    have hlast : plannedPort base (n - 1) = plannedPort base (n - 2) := by
      unfold plannedPort
      omega
    have := hinj (List.mem_range.mpr (by omega)) (List.mem_range.mpr (by omega)) hlast
    omega
  · intro hfits
    apply List.Nodup.map_on _ List.nodup_range
    intro i hi j hj h
    rw [List.mem_range] at hi hj
    unfold plannedPort at h
    omega

theorem mem_plannedPorts {base n port : Nat} (hbase : base < 2 ^ 16) (hfits : n ≤ 1 ∨ base + n ≤ 2 ^ 16) :
    port ∈ (List.range n).map (plannedPort base) ↔ base ≤ port ∧ port < base + n := by
  rw [List.mem_map]
  constructor
  · rintro ⟨index, hindex, rfl⟩
    rw [List.mem_range] at hindex
    unfold plannedPort
    omega
  · intro h
    refine ⟨port - base, List.mem_range.mpr (by omega), ?_⟩
    unfold plannedPort
    omega

/-- Where a planned worker and the server listen. -/
def endpoints (host : Host) (cfg : Config) : List (String × Nat) :=
  (StartupPlan.fromConfig host cfg).map fun planned => (planned.worker.bindHost, planned.worker.port)

theorem endpoints_eq (host : Host) (cfg : Config) :
    endpoints host cfg = ((List.range cfg.weighted.length).map (plannedPort cfg.server.workerBasePort)).map
      fun port => (cfg.server.host, port) := by
  unfold endpoints StartupPlan.fromConfig Config.weighted
  apply List.ext_getElem
  · simp
  · intro index _ _
    simp [WorkerSpec.fromConfig, plannedPort]

/-- The workers' addresses differ from each other and from the server's exactly where
all their ports fit 16 bits and the server's port is not one of them. -/
theorem upstreams_distinct_iff (host : Host) (cfg : Config) (hbase : cfg.server.workerBasePort < 2 ^ 16) :
    ((StartupPlan.fromConfig host cfg).map (·.worker.upstream)).Nodup ∧
        (cfg.server.host, cfg.server.port) ∉ endpoints host cfg ↔
      (cfg.weighted.length ≤ 1 ∨ cfg.server.workerBasePort + cfg.weighted.length ≤ 2 ^ 16) ∧
        ¬ (cfg.server.workerBasePort ≤ cfg.server.port ∧
          cfg.server.port < cfg.server.workerBasePort + cfg.weighted.length) := by
  have hinj : Function.Injective fun port : Nat => s!"http://{cfg.server.host}:{port}" :=
    fun _ _ h => (address_inj cfg.server.host).mp h
  have hnodup : ((StartupPlan.fromConfig host cfg).map (·.worker.upstream)).Nodup ↔
      ((List.range cfg.weighted.length).map (plannedPort cfg.server.workerBasePort)).Nodup := by
    rw [← List.nodup_map_iff hinj, List.map_map, upstreams_fromConfig]
    rfl
  have hmem : (cfg.server.host, cfg.server.port) ∈ endpoints host cfg ↔
      cfg.server.port ∈ (List.range cfg.weighted.length).map (plannedPort cfg.server.workerBasePort) := by
    rw [endpoints_eq]
    exact List.mem_map_of_injective (Prod.mk_right_injective cfg.server.host)
  rw [hmem, hnodup, plannedPorts_nodup_iff hbase]
  exact and_congr_right fun hfits => not_congr (mem_plannedPorts hbase hfits)

def portsConfig (basePort : Nat) : Config where
  mode := .single
  server := ⟨"127.0.0.1", 8765, basePort, 300, 3, 30⟩
  models := [⟨"query", "query", 1⟩, ⟨"coding", "coding", 1⟩]
  resources := ⟨true, "auto", none⟩
  cluster := ⟨"local", []⟩
  quotas := []
  externalProviderRoutes := []
  embeddings := ⟨.devFallback, none⟩
  scheduler := ⟨1, 8⟩

def candleHost : Host := ⟨false, fun _ => none⟩

theorem upstreams_distinct_default :
    ((StartupPlan.fromConfig candleHost (portsConfig 18765)).map (·.worker.upstream)).Nodup ∧
      ("127.0.0.1", 8765) ∉ endpoints candleHost (portsConfig 18765) :=
  (upstreams_distinct_iff candleHost (portsConfig 18765) (by decide)).mpr ⟨Or.inr (by decide), by decide⟩

/-- Two workers from the last port on. -/
theorem upstreams_collide :
    ¬ ((StartupPlan.fromConfig candleHost (portsConfig 65535)).map (·.worker.upstream)).Nodup := by
  rw [upstreams_fromConfig]
  decide

end Llmctl
