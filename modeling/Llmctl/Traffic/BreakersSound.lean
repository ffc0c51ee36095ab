import Mathlib.Data.List.Induction
import Llmctl.TrafficSound

/-!
# The breaker of one upstream

What the map of breakers has on record of an upstream is the state of one breaker that is
told of this upstream's calls alone (`entry_run`): an entry that a prune drops is that of a
breaker with nothing on record. Such a breaker opens with the last of enough failures in a
row (`opened_run`).
-/

namespace Llmctl

inductive BreakerCall where
  | allowRequest (upstream : String) (resetAfter now : Nat)
  | recordSuccess (upstream : String)
  | recordFailure (upstream : String) (threshold : UInt32) (now : Nat)

namespace BreakerCall

def upstream : BreakerCall → String
  | allowRequest u _ _ | recordSuccess u | recordFailure u _ _ => u

/-- The answer of the call, if it has one, and the breakers after it. -/
def step (b : CircuitBreakers) : BreakerCall → Option Bool × CircuitBreakers
  | allowRequest u resetAfter now => ((b.allowRequest u resetAfter now).1, (b.allowRequest u resetAfter now).2)
  | recordSuccess u => (none, b.recordSuccess u)
  | recordFailure u threshold now => (none, b.recordFailure u threshold.toNat now)

def run (b : CircuitBreakers) (calls : List BreakerCall) : CircuitBreakers := calls.foldl (fun b c => (c.step b).2) b

/-- The answers of a run for an upstream. -/
def answersFor (u : String) : CircuitBreakers → List BreakerCall → List Bool
  | _, [] => []
  | b, c :: calls => (if c.upstream = u then (c.step b).1.toList else []) ++ answersFor u (c.step b).2 calls

end BreakerCall

/-! ## One breaker -/

namespace CircuitBreakerState

def idle : CircuitBreakerState := ⟨0, none, false⟩

def allowRequest (s : CircuitBreakerState) (resetAfter now : Nat) : Bool × CircuitBreakerState :=
  match s.openedAt with
  | none => (true, s)
  | some openedAt =>
    if now - openedAt < resetAfter then (false, s)
    else if s.halfOpenProbeInFlight then (false, s)
    else (true, { s with halfOpenProbeInFlight := true })

def recordFailure (s : CircuitBreakerState) (threshold : UInt32) (now : Nat) : CircuitBreakerState :=
  let failures := min (s.consecutiveFailures + 1) (2 ^ 32 - 1)
  { consecutiveFailures := failures
    openedAt := if 0 < threshold ∧ threshold.toNat ≤ failures then some now else s.openedAt
    halfOpenProbeInFlight := false }

/-- A call of the breaker's own upstream. -/
def step (s : CircuitBreakerState) : BreakerCall → Option Bool × CircuitBreakerState
  | .allowRequest _ resetAfter now => ((s.allowRequest resetAfter now).1, (s.allowRequest resetAfter now).2)
  | .recordSuccess _ => (none, idle)
  | .recordFailure _ threshold now => (none, s.recordFailure threshold now)

def run (s : CircuitBreakerState) (calls : List BreakerCall) : CircuitBreakerState :=
  calls.foldl (fun s c => (s.step c).2) s

def answers : CircuitBreakerState → List BreakerCall → List Bool
  | _, [] => []
  | s, c :: calls => (s.step c).1.toList ++ answers (s.step c).2 calls

end CircuitBreakerState

/-! ## The entry of an upstream -/

namespace CircuitBreakers

open CircuitBreakerState

variable {b : CircuitBreakers} {u u' : String}

@[simp] theorem entry_empty : entry ∅ u = idle := by simp [entry, idle]

theorem entry_insert_self (s : CircuitBreakerState) : entry (b.insert u s) u = s := by simp [entry]

theorem entry_insert_of_ne (h : u' ≠ u) (s : CircuitBreakerState) : entry (b.insert u' s) u = b.entry u := by
  simp [entry, Std.ExtTreeMap.getElem?_insert, h]

/-- The entries that are dropped have nothing on record. -/
theorem entry_pruneIdle : b.pruneIdle.entry u = b.entry u := by
  unfold pruneIdle
  split
  · rfl
  · unfold entry
    rw [Std.ExtTreeMap.getElem?_filter, Option.pfilter_eq_filter]
    cases h : b[u]? with
    | none => rfl
    | some s =>
      rw [Option.filter_some]
      split
      · rfl
      · rename_i hidle
        simp only [Bool.or_eq_true, decide_eq_true_eq, not_or, Bool.not_eq_true, Option.isSome_eq_false_iff,
          Option.isNone_iff_eq_none, Nat.not_lt, Nat.le_zero] at hidle
        obtain ⟨⟨hopen, hfailures⟩, hprobe⟩ := hidle
        cases s
        simp_all

theorem verdict_eq (resetAfter now : Nat) :
    b.verdict u resetAfter now = match (b.entry u).openedAt with
      | none => .closed
      | some openedAt =>
        if resetAfter ≤ now - openedAt then
          if (b.entry u).halfOpenProbeInFlight then .refused else .probe
        else .refused := by
  unfold verdict entry
  cases b[u]? <;> rfl

theorem allowRequest_eq (resetAfter now : Nat) :
    (b.allowRequest u resetAfter now).1 = ((b.entry u).allowRequest resetAfter now).1 ∧
      (b.allowRequest u resetAfter now).2.entry u = ((b.entry u).allowRequest resetAfter now).2 := by
  unfold allowRequest CircuitBreakerState.allowRequest
  rw [verdict_eq]
  cases hopen : (b.entry u).openedAt with
  | none => exact ⟨rfl, rfl⟩
  | some openedAt =>
    by_cases hreset : resetAfter ≤ now - openedAt
    · have hlate : ¬ now - openedAt < resetAfter := by omega
      cases hprobe : (b.entry u).halfOpenProbeInFlight with
      | true => simp [hreset, hlate]
      | false =>
        have hsome : ∃ s, b[u]? = some s := by
          cases hs : b[u]? with
          | none => simp [entry, hs] at hopen
          | some s => exact ⟨s, rfl⟩
        obtain ⟨s, hs⟩ := hsome
        have hentry : b.entry u = s := by simp [entry, hs]
        have hmodified : entry (b.modify u fun state => { state with halfOpenProbeInFlight := true }) u =
            { s with halfOpenProbeInFlight := true } := by
          simp [entry, hs]
        rw [hentry] at hopen ⊢
        simp [hreset, hlate, hopen, hmodified]
    · have hearly : now - openedAt < resetAfter := by omega
      simp [hreset, hearly]

theorem allowRequest_of_ne (h : u' ≠ u) (resetAfter now : Nat) :
    (b.allowRequest u' resetAfter now).2.entry u = b.entry u := by
  unfold allowRequest
  cases b.verdict u' resetAfter now with
  | closed | refused => rfl
  | probe => simp [entry, Std.ExtTreeMap.getElem?_modify, h]

theorem step_self (c : BreakerCall) (h : c.upstream = u) :
    (c.step b).1 = ((b.entry u).step c).1 ∧ (c.step b).2.entry u = ((b.entry u).step c).2 := by
  subst h
  cases c with
  | allowRequest u resetAfter now =>
    obtain ⟨hanswer, hentry⟩ := allowRequest_eq (b := b) (u := u) resetAfter now
    exact ⟨congrArg some hanswer, hentry⟩
  | recordSuccess u => exact ⟨rfl, entry_insert_self _⟩
  | recordFailure u threshold now =>
    refine ⟨rfl, ?_⟩
    show (CircuitBreakers.recordFailure b u threshold.toNat now).entry u = (b.entry u).recordFailure threshold now
    simp only [recordFailure, entry_insert_self, entry_pruneIdle, CircuitBreakerState.recordFailure]
    rfl

/-- The calls of the other upstreams leave the entry as it is. -/
theorem step_of_ne (c : BreakerCall) (h : c.upstream ≠ u) : (c.step b).2.entry u = b.entry u := by
  cases c with
  | allowRequest u' resetAfter now => exact allowRequest_of_ne h resetAfter now
  | recordSuccess u' => exact (entry_insert_of_ne h _).trans entry_pruneIdle
  | recordFailure u' threshold now => exact (entry_insert_of_ne h _).trans entry_pruneIdle

theorem entry_run (calls : List BreakerCall) (b : CircuitBreakers) (u : String) :
    (BreakerCall.run b calls).entry u = (b.entry u).run (calls.filter fun c => c.upstream = u) := by
  induction calls generalizing b with
  | nil => rfl
  | cons c calls ih =>
    have hcons : BreakerCall.run b (c :: calls) = BreakerCall.run (c.step b).2 calls := rfl
    rw [hcons, ih]
    by_cases h : c.upstream = u
    · rw [List.filter_cons_of_pos (by simpa using h), (step_self c h).2]
      rfl
    · rw [List.filter_cons_of_neg (by simpa using h), step_of_ne c h]

theorem answersFor_eq (calls : List BreakerCall) (b : CircuitBreakers) (u : String) :
    BreakerCall.answersFor u b calls = (b.entry u).answers (calls.filter fun c => c.upstream = u) := by
  induction calls generalizing b with
  | nil => rfl
  | cons c calls ih =>
    rw [BreakerCall.answersFor, ih]
    by_cases h : c.upstream = u
    · obtain ⟨hanswer, hentry⟩ := step_self (b := b) c h
      rw [if_pos h, List.filter_cons_of_pos (by simpa using h), hanswer, hentry]
      rfl
    · rw [if_neg h, List.filter_cons_of_neg (by simpa using h), step_of_ne c h, List.nil_append]

end CircuitBreakers

/-! ## Failures in a row -/

namespace BreakerCall

/-- A recorded outcome: a failure with its time, or a success. -/
def outcome (u : String) : BreakerCall → Option (Option Nat)
  | allowRequest _ _ _ => none
  | recordSuccess u' => if u' = u then some none else none
  | recordFailure u' _ now => if u' = u then some (some now) else none

def outcomes (u : String) (calls : List BreakerCall) : List (Option Nat) := calls.filterMap (outcome u)

/-- The threshold of the failures of an upstream. -/
def HasThreshold (u : String) (threshold : UInt32) (calls : List BreakerCall) : Prop :=
  ∀ threshold' now, recordFailure u threshold' now ∈ calls → threshold' = threshold

end BreakerCall

namespace CircuitBreakers

open BreakerCall

variable {b : CircuitBreakers} {u : String} {threshold : UInt32}

/-- What a breaker has on record of the failures that its outcomes end with. -/
def Opened (threshold : UInt32) (outcomes : List (Option Nat)) (s : CircuitBreakerState) : Prop :=
  ∀ (early : List (Option Nat)) (late : List Nat), outcomes = early ++ late.map some → min late.length (2 ^ 32 - 1) ≤ s.consecutiveFailures ∧
    (threshold.toNat ≤ late.length → s.openedAt = late.getLast?)

theorem Opened.same {outcomes : List (Option Nat)} {s s' : CircuitBreakerState} (h : Opened threshold outcomes s)
    (hfailures : s'.consecutiveFailures = s.consecutiveFailures) (hopen : s'.openedAt = s.openedAt) :
    Opened threshold outcomes s' := by
  unfold Opened
  rw [hfailures, hopen]
  exact h

theorem Opened.recordSuccess (hpos : 0 < threshold.toNat) (outcomes : List (Option Nat)) :
    Opened threshold (outcomes ++ [none]) .idle := by
  intro early late h
  cases late using List.reverseRecOn with
  | nil => exact ⟨Nat.zero_le _, fun hle => absurd hle (Nat.not_le.mpr hpos)⟩
  | append_singleton late now =>
    rw [List.map_append, List.map_singleton, ← List.append_assoc] at h
    cases (List.append_inj' h rfl).2

theorem Opened.recordFailure {outcomes : List (Option Nat)} {s : CircuitBreakerState} (h : Opened threshold outcomes s)
    (hpos : 0 < threshold.toNat) (now : Nat) :
    Opened threshold (outcomes ++ [some now]) (s.recordFailure threshold now) := by
  intro early late hsplit
  cases late using List.reverseRecOn with
  | nil => exact ⟨Nat.zero_le _, fun hle => absurd hle (Nat.not_le.mpr hpos)⟩
  | append_singleton late now' =>
    rw [List.map_append, List.map_singleton, ← List.append_assoc] at hsplit
    obtain ⟨hprev, hlast⟩ := List.append_inj' hsplit rfl
    obtain rfl : now = now' := by simpa using hlast
    obtain ⟨hfailures, -⟩ := h early late hprev
    have hmax := threshold.toNat_lt
    simp only [List.length_append, List.length_singleton, List.getLast?_concat, CircuitBreakerState.recordFailure]
    refine ⟨by omega, fun hle => ?_⟩
    have hreached : 0 < threshold ∧ threshold.toNat ≤ min (s.consecutiveFailures + 1) (2 ^ 32 - 1) := by
      refine ⟨UInt32.lt_iff_toNat_lt.mpr hpos, ?_⟩
      omega
    rw [if_pos hreached]

theorem opened_run (hpos : 0 < threshold.toNat) (calls : List BreakerCall) (hconst : HasThreshold u threshold calls) :
    Opened threshold (outcomes u calls) ((BreakerCall.run ∅ calls).entry u) := by
  induction calls using List.reverseRecOn with
  | nil =>
    intro early late h
    obtain ⟨rfl, rfl⟩ : early = [] ∧ late = [] := by simpa [outcomes] using h.symm
    exact ⟨Nat.zero_le _, fun hle => absurd hle (Nat.not_le.mpr hpos)⟩
  | append_singleton calls c ih =>
    have hprev := ih fun threshold' now hmem => hconst threshold' now (List.mem_append_left _ hmem)
    have hrun : BreakerCall.run ∅ (calls ++ [c]) = (c.step (BreakerCall.run ∅ calls)).2 := List.foldl_append ..
    rw [hrun, show outcomes u (calls ++ [c]) = outcomes u calls ++ (outcome u c).toList by
      cases hc : outcome u c <;> simp [outcomes, hc]]
    generalize BreakerCall.run ∅ calls = b at hprev
    by_cases hu : c.upstream = u
    · rw [(step_self c hu).2]
      cases c with
      | allowRequest u' resetAfter now =>
        simp only [outcome, Option.toList_none, List.append_nil, CircuitBreakerState.step]
        unfold CircuitBreakerState.allowRequest
        split
        · exact hprev
        · split
          · exact hprev
          · split
            · exact hprev
            · exact hprev.same rfl rfl
      | recordSuccess u' =>
        obtain rfl : u' = u := hu
        rw [outcome, if_pos rfl]
        exact Opened.recordSuccess hpos _
      | recordFailure u' threshold' now =>
        obtain rfl : u' = u := hu
        obtain rfl := hconst threshold' now (List.mem_append_right _ (List.mem_cons_self ..))
        rw [outcome, if_pos rfl]
        exact hprev.recordFailure hpos now
    · have hnone : outcome u c = none := by
        cases c with
        | allowRequest _ _ _ => rfl
        | recordSuccess _ | recordFailure _ _ _ => exact if_neg hu
      rw [step_of_ne c hu, hnone, Option.toList_none, List.append_nil]
      exact hprev

theorem allowRequest_of_opened {opened resetAfter now : Nat} (hopen : (b.entry u).openedAt = some opened)
    (hearly : now - opened < resetAfter) : (b.allowRequest u resetAfter now).1 = false := by
  rw [(allowRequest_eq resetAfter now).1, CircuitBreakerState.allowRequest, hopen]
  simp only [hearly, if_true]

/-- For every upstream a run answers as one breaker that is told of its calls alone, and after
as many failures in a row as the threshold says it refuses its requests until the reset time
has passed since the last of them. -/
theorem breakers_independent (calls : List BreakerCall) (u : String) :
    answersFor u ∅ calls = CircuitBreakerState.idle.answers (calls.filter fun c => c.upstream = u) ∧
    ∀ threshold : UInt32, 0 < threshold → HasThreshold u threshold calls →
      ∀ (early : List (Option Nat)) (late : List Nat) (opened : Nat), outcomes u calls = early ++ (late ++ [opened]).map some →
        late.length + 1 = threshold.toNat → ∀ resetAfter now, now - opened < resetAfter →
          ((BreakerCall.run ∅ calls).allowRequest u resetAfter now).1 = false := by
  refine ⟨by rw [answersFor_eq, entry_empty], ?_⟩
  intro threshold hpos hconst early late opened hsplit hlen resetAfter now hearly
  obtain ⟨-, hopen⟩ := opened_run (UInt32.lt_iff_toNat_lt.mp hpos) calls hconst early (late ++ [opened]) hsplit
  rw [List.getLast?_concat] at hopen
  exact allowRequest_of_opened (hopen (by simp [hlen])) hearly

/-- A success, two failures and a request one millisecond after. -/
theorem breakers_independent_two_failures :
    ((BreakerCall.run ∅ [.recordSuccess "a", .recordFailure "a" 2 5, .recordFailure "b" 2 6,
      .recordFailure "a" 2 7]).allowRequest "a" 1000 8).1 = false :=
  (breakers_independent [.recordSuccess "a", .recordFailure "a" 2 5, .recordFailure "b" 2 6, .recordFailure "a" 2 7] "a").2
    2 (by decide) (by unfold HasThreshold; simp; tauto) [none] [5] 7 (by decide) (by decide) 1000 8 (by decide)

end CircuitBreakers

end Llmctl
