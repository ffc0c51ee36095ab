import Mathlib.Algebra.BigOperators.Group.Multiset.Basic
import Llmctl.TrafficSound

/-!
# What the permits amount to

The permits that are out are counted as a multiset. Each of them is one unit of the
global semaphore, and one unit of a scope's for every time it names the scope.
-/

namespace Llmctl

def permitsOn (scope : String) (out : Multiset AdmissionPermit) : Nat := (out.map (List.count scope)).sum

theorem permitsOn_zero (scope : String) : permitsOn scope 0 = 0 := rfl

theorem permitsOn_add (scope : String) (out out' : Multiset AdmissionPermit) :
    permitsOn scope (out + out') = permitsOn scope out + permitsOn scope out' := by
  simp [permitsOn]

theorem permitsOn_singleton (scope : String) (permit : AdmissionPermit) : permitsOn scope {permit} = permit.count scope := by
  simp [permitsOn]

namespace AdmissionController

/-- The semaphore of `scope` has given out `n` units, or there is none and nothing is out. -/
def BalancedAt (c : AdmissionController) (scope : String) (n : Nat) : Prop :=
  match c.scopes[scope]? with
  | none => n = 0
  | some s => s.available + n = s.limit

structure Balanced (c : AdmissionController) (maxInFlight : Nat) (out : Multiset AdmissionPermit) : Prop where
  global : c.global.available + out.card = max maxInFlight 1
  scopes : ∀ scope, c.BalancedAt scope (permitsOn scope out)

theorem balanced_new (maxInFlight : Nat) : (new maxInFlight).Balanced maxInFlight 0 where
  global := by simp [new, Semaphore.new]
  scopes scope := by simp [new, BalancedAt, permitsOn_zero]

/-! ## Releases -/

theorem balancedAt_releaseScope {c : AdmissionController} {scope scope' : String} {n : Nat}
    (h : c.BalancedAt scope' (n + if scope = scope' then 1 else 0)) : (c.releaseScope scope).BalancedAt scope' n := by
  unfold BalancedAt releaseScope at *
  simp only [Std.ExtTreeMap.getElem?_modify]
  by_cases hs : scope = scope'
  · subst hs
    cases hc : c.scopes[scope]? with
    | none => simp [hc] at h
    | some s =>
      simp [hc] at h
      simp
      omega
  · simp only [hs, if_false, Nat.add_zero] at h
    simp [hs]
    exact h

theorem balancedAt_foldl_releaseScope {scope : String} (permit : AdmissionPermit) : ∀ {c : AdmissionController} {n : Nat},
    c.BalancedAt scope (n + permit.count scope) → (permit.foldl releaseScope c).BalancedAt scope n := by
  induction permit with
  | nil => intro c n h; exact h
  | cons scope' permit ih =>
    intro c n h
    rw [List.foldl_cons]
    apply ih
    apply balancedAt_releaseScope
    rw [List.count_cons, ← Nat.add_assoc] at h
    simpa using h

theorem balancedAt_release {c : AdmissionController} {scope : String} {permit : AdmissionPermit} {n : Nat}
    (h : c.BalancedAt scope (n + permit.count scope)) : (c.release permit).BalancedAt scope n :=
  balancedAt_foldl_releaseScope permit h

theorem Balanced.release {c : AdmissionController} {maxInFlight : Nat} {out : Multiset AdmissionPermit}
    {permit : AdmissionPermit} (h : c.Balanced maxInFlight (out + {permit})) : (c.release permit).Balanced maxInFlight out where
  global := by
    have := h.global
    rw [Multiset.card_add, Multiset.card_singleton] at this
    rw [release_available]
    omega
  scopes scope := by
    apply balancedAt_release
    rw [← permitsOn_singleton, ← permitsOn_add]
    exact h.scopes scope

/-! ## Acquisitions -/

/-- Only idle semaphores are pruned. -/
theorem balancedAt_filter {c : AdmissionController} {scope : String} {n : Nat} (h : c.BalancedAt scope n) :
    ({ c with scopes := c.scopes.filter fun _ s => decide (s.available < s.limit) } : AdmissionController).BalancedAt scope n := by
  unfold BalancedAt at *
  simp only [Std.ExtTreeMap.getElem?_filter, Option.pfilter_eq_filter]
  cases hs : c.scopes[scope]? with
  | none =>
    simp [hs] at h
    simp [h]
  | some s =>
    simp only [hs] at h
    by_cases hlt : s.available < s.limit
    · simpa [Option.filter, hlt] using h
    · simp [Option.filter, hlt]
      omega

/-- A semaphore that is created has given out nothing. -/
theorem balancedAt_insert {c : AdmissionController} {scope' : String} {n : Nat} (h : c.BalancedAt scope' n)
    (scope : String) (limit : Nat) :
    ({ c with scopes := c.scopes.insert scope ((c.scopes[scope]?).getD (.new limit)) } : AdmissionController).BalancedAt scope' n := by
  unfold BalancedAt at *
  simp only [Std.ExtTreeMap.getElem?_insert]
  by_cases hs : scope = scope'
  · subst hs
    cases hget : c.scopes[scope]? with
    | none =>
      simp [hget] at h
      simp [h, Semaphore.new]
    | some s => simpa [hget] using h
  · simpa [hs] using h

theorem balancedAt_scopedSemaphore {c : AdmissionController} {scope' : String} {n : Nat} (h : c.BalancedAt scope' n)
    (scope : String) (limit : Nat) : (c.scopedSemaphore scope limit).2.BalancedAt scope' n := by
  unfold scopedSemaphore
  by_cases hsize : scopedAdmissionMaxTracked ≤ c.scopes.size
  · simp only [hsize, if_true]
    exact balancedAt_insert (balancedAt_filter h) scope limit
  · simp only [hsize, if_false]
    exact balancedAt_insert h scope limit

theorem scopedSemaphore_scopes (c : AdmissionController) (scope : String) (limit : Nat) :
    (c.scopedSemaphore scope limit).2.scopes[scope]? = some (c.scopedSemaphore scope limit).1 := by
  simp [scopedSemaphore]

theorem balancedAt_take {c : AdmissionController} {scope scope' : String} {s : Semaphore} {n : Nat}
    (h : c.BalancedAt scope' n) (hs : c.scopes[scope]? = some s) (havailable : s.available ≠ 0) :
    ({ c with scopes := c.scopes.insert scope { s with available := s.available - 1 } } : AdmissionController).BalancedAt
      scope' (n + if scope = scope' then 1 else 0) := by
  unfold BalancedAt at *
  simp only [Std.ExtTreeMap.getElem?_insert]
  by_cases hss : scope = scope'
  · subst hss
    simp only [hs] at h
    simp
    omega
  · simpa [hss] using h

/-- A refusal gives back what it took. -/
theorem balancedAt_acquireScopes {scope : String} : ∀ (scopes : List (String × Nat)) {c : AdmissionController}
    {acquired : AdmissionPermit} {n : Nat}, c.BalancedAt scope (n + acquired.count scope) →
    (c.acquireScopes acquired scopes).2.BalancedAt scope
      (n + if (c.acquireScopes acquired scopes).1 = true then (acquired ++ scopes.map (·.1)).count scope else 0)
  | [], c, acquired, n, h => by simpa [acquireScopes] using h
  | (scope', limit) :: scopes, c, acquired, n, h => by
    have hsem := balancedAt_scopedSemaphore h scope' limit
    have hget := scopedSemaphore_scopes c scope' limit
    unfold acquireScopes
    simp only
    by_cases hzero : (c.scopedSemaphore scope' limit).1.available = 0
    · simp only [hzero, if_true]
      apply balancedAt_release
      simpa using hsem
    · simp only [hzero, if_false]
      have htake := balancedAt_take hsem hget hzero
      have hcount : n + acquired.count scope + (if scope' = scope then 1 else 0) = n + (acquired ++ [scope']).count scope := by
        simp [List.count_append, List.count_singleton, Nat.add_assoc]
      rw [hcount] at htake
      have hrest := balancedAt_acquireScopes scopes htake
      simpa using hrest

theorem Balanced.tryAcquireForAll {c : AdmissionController} {maxInFlight : Nat} {out : Multiset AdmissionPermit}
    (h : c.Balanced maxInFlight out) (scopes : List (String × Nat)) : (c.tryAcquireForAll scopes).2.Balanced maxInFlight
      (out + if (c.tryAcquireForAll scopes).1 = true then {scopes.map (·.1)} else 0) where
  global := by
    have htake := c.tryAcquireForAll_available scopes
    have hglobal := h.global
    by_cases hok : (c.tryAcquireForAll scopes).1 = true
    · simp only [hok, if_true, Multiset.card_add, Multiset.card_singleton] at htake ⊢
      omega
    · simp only [hok] at htake ⊢
      simp at htake ⊢
      omega
  scopes scope := by
    have hscope := h.scopes scope
    unfold AdmissionController.tryAcquireForAll
    by_cases hzero : c.global.available = 0
    · simpa [hzero] using hscope
    · simp only [hzero, if_false]
      have hstart : ({ c with global := { c.global with available := c.global.available - 1 } } : AdmissionController).BalancedAt
          scope (permitsOn scope out + ([] : AdmissionPermit).count scope) := hscope
      have hrest := balancedAt_acquireScopes scopes hstart
      rw [permitsOn_add]
      convert hrest using 2
      split
      · simp [permitsOn_singleton]
      · simp [permitsOn_zero]

end AdmissionController

end Llmctl
