import Llmctl.Server.State

/-!
# Serving limits

How many requests a configuration admits at once, and what `admin_status` says about
the load.
-/

namespace Llmctl

def defaultMaxInFlight : Nat := 128

/-- The timeouts of the upstreams are not part of the limits here. -/
structure ServingLimits where
  maxInFlight : Nat
  pos : 0 < maxInFlight

namespace ServingLimits

def new (maxInFlight : Nat) : ServingLimits := ⟨max maxInFlight 1, by omega⟩

/-- The limits of the quotas together; a quota of 0 sets none. -/
def fromConfig (cfg : Config) : ServingLimits :=
  let configuredMax := ((cfg.quotas.map (·.maxConcurrency)).filter (0 < ·)).foldl saturatingAdd 0
  new (if 0 < configuredMax then configuredMax else defaultMaxInFlight)

theorem le_foldl_saturatingAdd {x : Nat} (hx : x < 2 ^ 64) (limits : List Nat) : ∀ {acc : Nat},
    (x ≤ acc ∨ x ∈ limits) → x ≤ limits.foldl saturatingAdd acc := by
  induction limits with
  | nil =>
    intro acc h
    simpa using h
  | cons limit limits ih =>
    intro acc h
    rw [List.foldl_cons]
    apply ih
    unfold saturatingAdd
    simp only [List.mem_cons] at h
    by_cases hmem : x ∈ limits
    · exact .inr hmem
    · have hle : x ≤ acc ∨ x = limit := by simpa [hmem] using h
      left
      omega

/-- The global limit leaves room for every quota on its own. -/
theorem quota_le_fromConfig {cfg : Config} {q : QuotaConfig} (hq : q ∈ cfg.quotas) (hbound : q.maxConcurrency < 2 ^ 64) :
    q.maxConcurrency ≤ (fromConfig cfg).maxInFlight := by
  by_cases hzero : q.maxConcurrency = 0
  · simp [hzero]
  · have hmem : q.maxConcurrency ∈ (cfg.quotas.map (·.maxConcurrency)).filter (0 < ·) := by
      simp only [List.mem_filter, List.mem_map, decide_eq_true_eq]
      exact ⟨⟨q, hq, rfl⟩, by omega⟩
    have hle : q.maxConcurrency ≤ ((cfg.quotas.map (·.maxConcurrency)).filter (0 < ·)).foldl saturatingAdd 0 :=
      le_foldl_saturatingAdd hbound _ (.inr hmem)
    have hpos : 0 < ((cfg.quotas.map (·.maxConcurrency)).filter (0 < ·)).foldl saturatingAdd 0 := by omega
    simp only [fromConfig, new, hpos, if_true]
    omega

end ServingLimits

/-- The field `admission` of `admin_status`. -/
structure AdmissionOccupancy where
  inFlight : Nat
  available : Nat
  maxInFlight : Nat
  deriving DecidableEq, Repr

def admissionOccupancy (limits : ServingLimits) (admission : AdmissionController) : AdmissionOccupancy :=
  let available := min admission.global.available limits.maxInFlight
  ⟨limits.maxInFlight - available, available, limits.maxInFlight⟩

end Llmctl
