import Llmctl.Worker.SwapSound

/-!
# A swap and its plan

The status writes of a swap against the plan it returns: all of its steps in
order when every call of the runner succeeds, and up to the first failure nothing
else but the warming of the replacement.
-/

namespace Llmctl

open Async

/-! ## Traces -/

inductive RunnerCall where
  | spawn (id : String)
  | stop (id : String)
  | waitReady (id : String)
  deriving DecidableEq

inductive SwapEvent where
  | wrote (step : LifecycleStep)
  | called (call : RunnerCall) (ok : Bool)
  deriving DecidableEq

structure Traced where
  workers : Workers
  events : List SwapEvent

def SupervisorOp.events : (o : SupervisorOp) → SupervisorSig.Ans o → List SwapEvent
  | .updateStatus id _, (status : WorkerStatus) => [.wrote ⟨id, status.state⟩]
  | .spawn planned, (spawned : Result Nat) => [.called (.spawn planned.worker.id) spawned.toBool]
  | .stop id, (stopped : Result Unit) => [.called (.stop id) stopped.toBool]
  | .waitReady planned, (ready : Result Unit) => [.called (.waitReady planned.worker.id) ready.toBool]
  | _, _ => []

def tracedWorld : World SupervisorSig Unit Traced Unit RouterEvent where
  can _ o a t _ := o.can t.workers a
  loc _ o a t := ⟨o.workers t.workers, t.events ++ o.events a⟩
  sh _ _ _ _ g := g
  canDrop _ o := o.isAwait
  dropLoc _ _ t := t
  dropSh _ _ _ g := g
  canEnv _ _ := true
  env _ g := g

def SwapEvent.failed : SwapEvent → Bool
  | .called _ ok => !ok
  | .wrote _ => false

def writes (events : List SwapEvent) : List LifecycleStep :=
  events.filterMap fun
    | .wrote step => some step
    | .called .. => none

def upToFailure (events : List SwapEvent) : List SwapEvent := events.takeWhile fun e => !e.failed

def fromFailure (events : List SwapEvent) : List SwapEvent := events.dropWhile fun e => !e.failed

/-- The writes of a swap follow its plan. -/
structure RefinesPlan (active replacement : String) (plan : SwapPlan) (events : List SwapEvent) : Prop where
  complete : (∀ e ∈ events, e.failed = false) → plan.steps.Sublist (writes events)
  only : (∃ e ∈ events, e.failed = true) →
    (∀ step ∈ writes (upToFailure events), step ∈ plan.steps ∨ step = ⟨replacement, .warming⟩) ∧
    ∃ id, (id = active ∨ id = replacement) ∧ writes (fromFailure events) = [⟨id, .failed⟩]

/-! ## What each operation adds -/

inductive StartTrace (id : String) : WorkerState → List SwapEvent → Prop where
  | ready : StartTrace id .ready [.wrote ⟨id, .starting⟩, .called (.spawn id) true, .wrote ⟨id, .warming⟩,
      .called (.waitReady id) true, .wrote ⟨id, .ready⟩]
  | notSpawned : StartTrace id .failed [.wrote ⟨id, .starting⟩, .called (.spawn id) false, .wrote ⟨id, .failed⟩]
  | notReady (ok : Bool) : StartTrace id .failed [.wrote ⟨id, .starting⟩, .called (.spawn id) true,
      .wrote ⟨id, .warming⟩, .called (.waitReady id) false, .called (.stop id) ok, .wrote ⟨id, .failed⟩]

inductive StopTrace (id : String) : WorkerState → List SwapEvent → Prop where
  | stopped : StopTrace id .stopped [.wrote ⟨id, .stopping⟩, .called (.stop id) true, .wrote ⟨id, .stopped⟩]
  | failed : StopTrace id .failed [.wrote ⟨id, .stopping⟩, .called (.stop id) false, .wrote ⟨id, .failed⟩]

/-- The calls of `spawn` in a cold swap come after the active worker has been stopped. -/
def SpawnsAfterStop (mode : SwapMode) (active : String) (o : SupervisorOp) (t : Traced) : Prop :=
  mode = .cold → ∀ planned, o = .spawn planned → .called (.stop active) true ∈ t.events

section
variable {t : Traced} {id active : String} {mode : SwapMode}

abbrev Traces {α : Type} (mode : SwapMode) (active : String) (p : SupervisorProg α) (t : Traced)
    (Ψ : α → Traced → Prop) : Prop :=
  Always tracedWorld () (SpawnsAfterStop mode active) Ψ p t

theorem traces_updateStatus {change : StatusChange} {Ψ : WorkerStatus → Traced → Prop}
    (h : Ψ (change.apply (t.workers.status id))
      ⟨t.workers.updateStatus id change, t.events ++ [.wrote ⟨id, (change.apply (t.workers.status id)).state⟩]⟩) :
    Traces mode active (WorkerSupervisor.updateStatus id change) t Ψ := by
  refine ⟨fun _ _ h => (by cases h), fun (s : WorkerStatus) _ hs => ?_⟩
  have hs : s = change.apply (t.workers.status id) := beq_iff_eq.mp hs
  rw [hs]
  exact h

theorem traces_start (planned : PlannedWorker)
    (hstop : mode = .cold → .called (.stop active) true ∈ t.events) :
    Traces mode active (WorkerSupervisor.start planned) t fun s t' =>
      ∃ new, t'.events = t.events ++ new ∧ StartTrace planned.worker.id s.state new := by
  apply Always.bind
  refine traces_updateStatus (Always.op ?_ fun spawned _ _ => ?_)
  · intro hmode _ _
    exact List.mem_append_left _ (hstop hmode)
  · cases spawned with
    | error error =>
      refine Always.op (fun _ _ h => by cases h) fun _ _ _ => traces_updateStatus ⟨_, ?_, .notSpawned⟩
      simp [tracedWorld, SupervisorOp.events, StatusChange.apply, Except.toBool]
    | ok pid =>
      apply Always.bind
      refine traces_updateStatus (Always.op (fun _ _ h => by cases h) fun ready _ _ => ?_)
      cases ready with
      | ok _ =>
        refine Always.op (fun _ _ h => by cases h) fun _ _ _ => traces_updateStatus ⟨_, ?_, .ready⟩
        simp [tracedWorld, SupervisorOp.events, StatusChange.apply, Except.toBool]
      | error error =>
        refine Always.op (fun _ _ h => by cases h) fun (stopped : Result Unit) _ _ => ?_
        refine Always.op (fun _ _ h => by cases h) fun _ _ _ =>
          traces_updateStatus ⟨_, ?_, .notReady stopped.toBool⟩
        simp [tracedWorld, SupervisorOp.events, StatusChange.apply, Except.toBool]

theorem traces_drain (timeout : Nat) :
    Traces mode active (WorkerSupervisor.drain timeout id) t fun _ t' => t'.events = t.events ++ [.wrote ⟨id, .draining⟩] := by
  have hdrained : ∀ t' : Traced, t'.events = t.events →
      Traces mode active (WorkerSupervisor.updateStatus id .draining) t' fun _ t' =>
        t'.events = t.events ++ [.wrote ⟨id, .draining⟩] := by
    intro t' ht'
    refine traces_updateStatus ?_
    rw [ht']; rfl
  refine Always.op (fun _ _ h => by cases h) fun _ _ _ => Always.op (fun _ _ h => by cases h) fun gate _ _ => ?_
  cases gate with
  | none => exact hdrained _ (by simp [tracedWorld, SupervisorOp.events])
  | some gate =>
    refine Always.op (fun _ _ h => by cases h) fun now _ _ => Always.bind ?_
    refine (Always.of_all (P := fun t' : Traced => t'.events = t.events) (Q := SupervisorOp.waits) ?_ ?_
      (all_awaitDrained gate _ _) (by simp [tracedWorld, SupervisorOp.events])).mono (fun _ _ h => h)
      fun _ t' ht' => hdrained t' ht'
    · intro o t' hwaits _ _ planned hspawn
      rw [hspawn] at hwaits
      exact hwaits.elim
    · intro o a t' hwaits ht'
      cases o <;> first | simpa [tracedWorld, SupervisorOp.events] using ht' | exact hwaits.elim

theorem traces_stop :
    Traces mode active (WorkerSupervisor.stop id) t fun s t' =>
      ∃ new, t'.events = t.events ++ new ∧ StopTrace id s.state new := by
  refine Always.op (fun _ _ h => by cases h) fun _ _ _ => Always.bind ?_
  refine traces_updateStatus (Always.op (fun _ _ h => by cases h) fun stopped _ _ => ?_)
  cases stopped with
  | ok _ =>
    refine traces_updateStatus ⟨_, ?_, .stopped⟩
    simp [tracedWorld, SupervisorOp.events, StatusChange.apply, Except.toBool]
  | error error =>
    refine traces_updateStatus ⟨_, ?_, .failed⟩
    simp [tracedWorld, SupervisorOp.events, StatusChange.apply, Except.toBool]

end

/-! ## Swaps -/

section
variable {active replacement : String} {state : WorkerState} {stopping starting : List SwapEvent}

theorem refines_cold_stopFailed (h : StopTrace active .failed stopping) :
    RefinesPlan active replacement (.cold active replacement) (.wrote ⟨active, .draining⟩ :: stopping) := by
  cases h
  refine ⟨fun h => ?_, fun _ => ⟨?_, active, .inl rfl, rfl⟩⟩
  · exact absurd (h (.called (.stop active) false) (by simp)) (by simp [SwapEvent.failed])
  · simp [writes, upToFailure, SwapEvent.failed, SwapPlan.cold]

theorem refines_cold (hstop : StopTrace active .stopped stopping) (hstart : StartTrace replacement state starting) :
    RefinesPlan active replacement (.cold active replacement)
      (.wrote ⟨active, .draining⟩ :: (stopping ++ starting)) := by
  cases hstop
  cases hstart with
  | ready =>
    refine ⟨fun _ => ?_, fun ⟨e, he, hfail⟩ => ?_⟩
    · exact .cons_cons _ (.cons_cons _ (.cons_cons _ (.cons_cons _ (.cons _ (.refl _)))))
    · simp only [List.cons_append, List.nil_append, List.mem_cons, List.not_mem_nil, or_false] at he
      rcases he with rfl | rfl | rfl | rfl | rfl | rfl | rfl | rfl | rfl <;> cases hfail
  | notSpawned =>
    refine ⟨fun h => ?_, fun _ => ⟨?_, replacement, .inr rfl, rfl⟩⟩
    · exact absurd (h (.called (.spawn replacement) false) (by simp)) (by simp [SwapEvent.failed])
    · simp [writes, upToFailure, SwapEvent.failed, SwapPlan.cold]
  | notReady ok =>
    refine ⟨fun h => ?_, fun _ => ⟨?_, replacement, .inr rfl, rfl⟩⟩
    · exact absurd (h (.called (.waitReady replacement) false) (by simp)) (by simp [SwapEvent.failed])
    · simp [writes, upToFailure, SwapEvent.failed, SwapPlan.cold]

theorem refines_hot_startFailed (h : StartTrace replacement .failed starting) :
    RefinesPlan active replacement (.hot active replacement) starting := by
  cases h with
  | notSpawned =>
    refine ⟨fun h => ?_, fun _ => ⟨?_, replacement, .inr rfl, rfl⟩⟩
    · exact absurd (h (.called (.spawn replacement) false) (by simp)) (by simp [SwapEvent.failed])
    · simp [writes, upToFailure, SwapEvent.failed, SwapPlan.hot]
  | notReady ok =>
    refine ⟨fun h => ?_, fun _ => ⟨?_, replacement, .inr rfl, rfl⟩⟩
    · exact absurd (h (.called (.waitReady replacement) false) (by simp)) (by simp [SwapEvent.failed])
    · simp [writes, upToFailure, SwapEvent.failed, SwapPlan.hot]

theorem refines_hot (hstart : StartTrace replacement .ready starting) (hstop : StopTrace active state stopping) :
    RefinesPlan active replacement (.hot active replacement)
      (starting ++ .wrote ⟨active, .draining⟩ :: stopping) := by
  cases hstart
  cases hstop with
  | stopped =>
    refine ⟨fun _ => .refl _, fun ⟨e, he, hfail⟩ => ?_⟩
    simp only [List.cons_append, List.nil_append, List.mem_cons, List.not_mem_nil, or_false] at he
    rcases he with rfl | rfl | rfl | rfl | rfl | rfl | rfl | rfl | rfl <;> cases hfail
  | failed =>
    refine ⟨fun h => ?_, fun _ => ⟨?_, active, .inl rfl, rfl⟩⟩
    · exact absurd (h (.called (.stop active) false) (by simp)) (by simp [SwapEvent.failed])
    · simp [writes, upToFailure, SwapEvent.failed, SwapPlan.hot]

end

theorem StartTrace.state {id : String} {state : WorkerState} {new : List SwapEvent} (h : StartTrace id state new) :
    state = .ready ∨ state = .failed := by
  cases h <;> simp

theorem StopTrace.state {id : String} {state : WorkerState} {new : List SwapEvent} (h : StopTrace id state new) :
    state = .stopped ∨ state = .failed := by
  cases h <;> simp

def planOf (mode : SwapMode) (active replacement : String) : SwapPlan :=
  match mode with
  | .cold => .cold active replacement
  | .hot => .hot active replacement

/-- The plan that a swap returns is the one of the mode it ran in, its writes follow
that plan, and in a cold swap every spawn comes after the stop of the active worker. -/
theorem swap_refines_plan (w : Workers) (timeout : Nat) (mode : SwapMode) (active : String) (replacement : PlannedWorker)
    (budget : Option SwapBudget) :
    Traces (effectiveMode mode budget) active
      (WorkerSupervisor.executeSwapWithBudget timeout mode active replacement budget) ⟨w, []⟩ fun e t =>
      e.plan = planOf (effectiveMode mode budget) active replacement.worker.id ∧
        RefinesPlan active replacement.worker.id e.plan t.events := by
  unfold WorkerSupervisor.executeSwapWithBudget
  cases effectiveMode mode budget with
  | cold =>
    refine (traces_drain timeout).seq fun drained t₁ h₁ => ?_
    refine traces_stop.seq fun stopped t₂ ⟨stopping, h₂, htrace⟩ => ?_
    by_cases hstop : stopped.state ≠ .stopped
    · rw [if_pos hstop]
      have hfailed : stopped.state = .failed := htrace.state.resolve_left hstop
      rw [hfailed] at htrace
      refine ⟨rfl, ?_⟩
      rw [h₂, h₁]
      exact refines_cold_stopFailed htrace
    · rw [if_neg hstop]
      rw [not_not.mp hstop] at htrace
      have hstopped : .called (.stop active) true ∈ t₂.events := by
        rw [h₂]
        cases htrace
        simp
      refine (traces_start replacement fun _ => hstopped).seq fun started t₃ ⟨starting, h₃, hstart⟩ => ⟨rfl, ?_⟩
      rw [h₃, h₂, h₁]
      simpa using refines_cold htrace hstart
  | hot =>
    refine (traces_start replacement (fun h => by cases h)).seq fun started t₁ ⟨starting, h₁, hstart⟩ => ?_
    by_cases hready : started.state ≠ .ready
    · rw [if_pos hready]
      have hfailed : started.state = .failed := hstart.state.resolve_left hready
      rw [hfailed] at hstart
      refine ⟨rfl, ?_⟩
      rw [h₁]
      exact refines_hot_startFailed hstart
    · rw [if_neg hready]
      rw [not_not.mp hready] at hstart
      refine (traces_drain timeout).seq fun drained t₂ h₂ => ?_
      refine traces_stop.seq fun stopped t₃ ⟨stopping, h₃, hstop⟩ => ⟨rfl, ?_⟩
      rw [h₃, h₂, h₁, List.append_assoc]
      exact refines_hot hstart hstop

end Llmctl
