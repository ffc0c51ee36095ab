import Mathlib.Algebra.Ring.Nat
import Std.Data.ExtTreeMap

/-!
# Traffic controls

The circuit breakers of the upstreams and the admission permits. Times are
milliseconds of a monotonic clock.
-/

namespace Llmctl

/-! ## Circuit breakers -/

def circuitBreakerMaxTracked : Nat := 4096

structure CircuitBreakerState where
  consecutiveFailures : Nat
  openedAt : Option Nat
  halfOpenProbeInFlight : Bool
  deriving DecidableEq, Repr

abbrev CircuitBreakers := Std.ExtTreeMap String CircuitBreakerState

/-- Which branch of `allowRequest` a request took. -/
inductive Verdict where
  | closed
  | probe
  | refused
  deriving DecidableEq, Repr

namespace CircuitBreakers

def pruneIdle (states : CircuitBreakers) : CircuitBreakers :=
  if states.size < circuitBreakerMaxTracked then states
  else states.filter fun _ s => s.openedAt.isSome || decide (0 < s.consecutiveFailures) || s.halfOpenProbeInFlight

def verdict (states : CircuitBreakers) (upstream : String) (resetAfter now : Nat) : Verdict :=
  match states[upstream]? with
  | none => .closed
  | some state =>
    match state.openedAt with
    | none => .closed
    | some openedAt =>
      if resetAfter ≤ now - openedAt then
        if state.halfOpenProbeInFlight then .refused else .probe
      else .refused

def allowRequest (states : CircuitBreakers) (upstream : String) (resetAfter now : Nat) : Bool × CircuitBreakers :=
  match states.verdict upstream resetAfter now with
  | .closed => (true, states)
  | .refused => (false, states)
  | .probe =>
    (true, states.modify upstream fun state => { state with halfOpenProbeInFlight := true })

def entry (states : CircuitBreakers) (upstream : String) : CircuitBreakerState :=
  (states[upstream]?).getD ⟨0, none, false⟩

def recordSuccess (states : CircuitBreakers) (upstream : String) : CircuitBreakers :=
  states.pruneIdle.insert upstream ⟨0, none, false⟩

def recordFailure (states : CircuitBreakers) (upstream : String) (threshold now : Nat) : CircuitBreakers :=
  let states := states.pruneIdle
  let state := states.entry upstream
  -- `saturating_add` of a `u32`
  let failures := min (state.consecutiveFailures + 1) (2 ^ 32 - 1)
  states.insert upstream
    { consecutiveFailures := failures
      openedAt := if 0 < threshold ∧ threshold ≤ failures then some now else state.openedAt
      halfOpenProbeInFlight := false }

end CircuitBreakers

/-! ## Admission permits -/

def scopedAdmissionMaxTracked : Nat := 4096

structure Semaphore where
  limit : Nat
  available : Nat
  deriving DecidableEq, Repr

def Semaphore.new (limit : Nat) : Semaphore := ⟨max limit 1, max limit 1⟩

structure AdmissionController where
  global : Semaphore
  scopes : Std.ExtTreeMap String Semaphore

/-- The scopes whose permits an `AdmissionPermit` holds besides a global one. -/
abbrev AdmissionPermit := List String

namespace AdmissionController

def new (maxInFlight : Nat) : AdmissionController := ⟨.new maxInFlight, ∅⟩

def releaseScope (c : AdmissionController) (scope : String) : AdmissionController :=
  { c with scopes := c.scopes.modify scope fun s => { s with available := s.available + 1 } }

def release (c : AdmissionController) (permit : AdmissionPermit) : AdmissionController :=
  let c := permit.foldl releaseScope c
  { c with global := { c.global with available := c.global.available + 1 } }

/-- The semaphore of `scope`, created with `limit` where there is none. -/
def scopedSemaphore (c : AdmissionController) (scope : String) (limit : Nat) : Semaphore × AdmissionController :=
  let scopes := if scopedAdmissionMaxTracked ≤ c.scopes.size then
      c.scopes.filter fun _ s => decide (s.available < s.limit)
    else c.scopes
  let semaphore := (scopes[scope]?).getD (.new limit)
  (semaphore, { c with scopes := scopes.insert scope semaphore })

def acquireScopes (c : AdmissionController) (acquired : AdmissionPermit) :
    List (String × Nat) → Bool × AdmissionController
  | [] => (true, c)
  | (scope, limit) :: scopes =>
    match c.scopedSemaphore scope limit with
    | (s, c) =>
      if s.available = 0 then (false, c.release acquired)
      else
        { c with scopes := c.scopes.insert scope { s with available := s.available - 1 } }.acquireScopes
          (acquired ++ [scope]) scopes

def tryAcquireForAll (c : AdmissionController) (scopes : List (String × Nat)) : Bool × AdmissionController :=
  if c.global.available = 0 then (false, c)
  else { c with global := { c.global with available := c.global.available - 1 } }.acquireScopes [] scopes

end AdmissionController

end Llmctl
