import Llmctl.Traffic

/-!
# What the circuit breakers record

`probing`: a half-open probe of an upstream is on record. One lemma for each
operation says what it does to that record.
-/

namespace Llmctl

namespace CircuitBreakers

def probing (states : CircuitBreakers) (upstream : String) : Bool :=
  (states[upstream]?).any (·.halfOpenProbeInFlight)

theorem probing_insert (states : CircuitBreakers) (u u' : String) (s : CircuitBreakerState) :
    probing (states.insert u s) u' = if u' = u then s.halfOpenProbeInFlight else probing states u' := by
  unfold probing
  rw [Std.ExtTreeMap.getElem?_insert]
  by_cases h : u' = u
  · subst h; simp
  · have : ¬ u = u' := fun e => h e.symm
    simp [h, this]

theorem probing_pruneIdle (states : CircuitBreakers) (u : String) : probing states.pruneIdle u = probing states u := by
  unfold pruneIdle
  split
  · rfl
  · unfold probing
    rw [Std.ExtTreeMap.getElem?_filter, Option.pfilter_eq_filter]
    cases h : states[u]? with
    | none => rfl
    | some s =>
      by_cases hp : s.halfOpenProbeInFlight = true
      · simp [Option.filter, hp]
      · simp only [Option.filter, hp]
        split <;> simp [hp]

theorem probing_recordSuccess (states : CircuitBreakers) (u u' : String) :
    probing (states.recordSuccess u) u' = if u' = u then false else probing states u' := by
  unfold recordSuccess
  rw [probing_insert, probing_pruneIdle]

theorem probing_recordFailure (states : CircuitBreakers) (u u' : String) (threshold now : Nat) :
    probing (states.recordFailure u threshold now) u' = if u' = u then false else probing states u' := by
  unfold recordFailure
  simp only
  rw [probing_insert, probing_pruneIdle]

/-- A probe is admitted only where none is on record. -/
theorem not_probing_of_probe {states : CircuitBreakers} {u : String} {resetAfter now : Nat}
    (h : states.verdict u resetAfter now = .probe) : probing states u = false := by
  unfold verdict at h
  unfold probing
  cases hs : states[u]? with
  | none => rfl
  | some s =>
    rw [hs] at h
    simp only at h
    split at h
    · cases h
    · split at h
      · split at h
        · cases h
        · rename_i hf; simpa using hf
      · cases h

theorem probing_allowRequest (states : CircuitBreakers) (u u' : String) (resetAfter now : Nat) :
    probing (states.allowRequest u resetAfter now).2 u' =
      if u' = u ∧ states.verdict u resetAfter now = .probe then true else probing states u' := by
  unfold allowRequest
  cases hv : states.verdict u resetAfter now with
  | closed => simp
  | refused => simp
  | probe =>
    have hsome : ∃ s, states[u]? = some s := by
      unfold verdict at hv
      cases hs : states[u]? with
      | none => rw [hs] at hv; cases hv
      | some s => exact ⟨s, rfl⟩
    obtain ⟨s, hs⟩ := hsome
    unfold probing
    simp only
    rw [Std.ExtTreeMap.getElem?_modify]
    by_cases h : u' = u
    · subst h; simp [hs]
    · have : ¬ u = u' := fun e => h e.symm
      simp [h, this]

theorem allowRequest_fst (states : CircuitBreakers) (u : String) (resetAfter now : Nat) :
    (states.allowRequest u resetAfter now).1 = decide (states.verdict u resetAfter now ≠ .refused) := by
  unfold allowRequest
  cases states.verdict u resetAfter now <;> rfl

/-- With no probe on record, a request is let through once the reset time has passed. -/
theorem allowRequest_of_not_probing {states : CircuitBreakers} {u : String} (h : probing states u = false)
    {resetAfter now : Nat} (hreset : ∀ s t, states[u]? = some s → s.openedAt = some t → resetAfter ≤ now - t) :
    (states.allowRequest u resetAfter now).1 = true := by
  rw [allowRequest_fst]
  unfold verdict
  cases hs : states[u]? with
  | none => rfl
  | some s =>
    have hf : s.halfOpenProbeInFlight = false := by simpa [probing, hs] using h
    cases ht : s.openedAt with
    | none => simp [ht]
    | some t =>
      have := hreset s t hs ht
      simp [ht, this, hf]

/-- With a probe on record and the breaker open, every request is refused. -/
theorem allowRequest_of_probing {states : CircuitBreakers} {u : String} {s : CircuitBreakerState}
    (hs : states[u]? = some s) (hopen : s.openedAt ≠ none) (hf : s.halfOpenProbeInFlight = true)
    (resetAfter now : Nat) : (states.allowRequest u resetAfter now).1 = false := by
  rw [allowRequest_fst]
  unfold verdict
  obtain ⟨t, ht⟩ := Option.ne_none_iff_exists'.mp hopen
  simp only [hs, ht, hf]
  by_cases h : resetAfter ≤ now - t <;> simp [h]

end CircuitBreakers

/-! ## Permits -/

namespace AdmissionController

theorem global_foldl_releaseScope (permit : AdmissionPermit) : ∀ c : AdmissionController,
    (permit.foldl releaseScope c).global = c.global := by
  induction permit with
  | nil => intro c; rfl
  | cons scope permit ih => intro c; rw [List.foldl_cons, ih]; rfl

theorem release_available (c : AdmissionController) (permit : AdmissionPermit) :
    (c.release permit).global.available = c.global.available + 1 := by
  unfold release
  simp only [global_foldl_releaseScope]

theorem acquireScopes_available : ∀ (scopes : List (String × Nat)) (c : AdmissionController) (acquired : AdmissionPermit),
    (c.acquireScopes acquired scopes).2.global.available =
      c.global.available + if (c.acquireScopes acquired scopes).1 = true then 0 else 1
  | [], c, acquired => by simp [acquireScopes]
  | (scope, limit) :: scopes, c, acquired => by
    unfold acquireScopes
    simp only
    split
    · rw [release_available]
      rfl
    · exact acquireScopes_available scopes _ _

/-- A permit for all scopes takes one of the global permits, a refusal none. -/
theorem tryAcquireForAll_available (c : AdmissionController) (scopes : List (String × Nat)) :
    (c.tryAcquireForAll scopes).2.global.available + (if (c.tryAcquireForAll scopes).1 = true then 1 else 0) =
      c.global.available := by
  unfold tryAcquireForAll
  by_cases h : c.global.available = 0
  · simp [h]
  · rw [if_neg h, acquireScopes_available]
    simp only
    split <;> omega

end AdmissionController

end Llmctl
