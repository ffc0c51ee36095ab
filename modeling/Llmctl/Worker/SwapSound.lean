import Llmctl.Worker.SupervisorSound

/-!
# What a swap leaves

A swap that succeeds leaves its replacement serving and the active worker stopped,
and a hot one that fails leaves a serving worker, unless it swaps a worker for
itself or the active worker, though ready, was not admitting to begin with.
-/

namespace Llmctl

open Async

/-! ## What each operation leaves -/

def Workers.Serves (w : Workers) (id : String) : Prop := (w.status id).state = .ready ∧ w.admits id = true

/-- `w'` differs from `w` at `id` only. -/
structure OnlyAt (id : String) (w w' : Workers) : Prop where
  wellFormed : w'.WellFormed
  status : ∀ id', id' ≠ id → w'.status id' = w.status id'
  admits : ∀ id', id' ≠ id → w'.admits id' = w.admits id'

section
variable {w w' w'' : Workers} {id : String} {change : StatusChange}

theorem OnlyAt.refl (hw : w.WellFormed) : OnlyAt id w w := ⟨hw, fun _ _ => rfl, fun _ _ => rfl⟩

theorem OnlyAt.trans (h : OnlyAt id w w') (h' : OnlyAt id w' w'') : OnlyAt id w w'' where
  wellFormed := h'.wellFormed
  status id' hne := (h'.status id' hne).trans (h.status id' hne)
  admits id' hne := (h'.admits id' hne).trans (h.admits id' hne)

theorem OnlyAt.updateStatus (h : OnlyAt id w w') : OnlyAt id w (w'.updateStatus id change) :=
  h.trans ⟨h.wellFormed.updateStatus, fun _ hne => Workers.status_updateStatus_of_ne hne, fun _ _ => rfl⟩

theorem OnlyAt.stopAdmitting (h : OnlyAt id w w') : OnlyAt id w (w'.stopAdmitting id) :=
  h.trans ⟨h.wellFormed.stopAdmitting, fun _ _ => Workers.status_stopAdmitting,
    fun _ hne => Workers.admits_stopAdmitting_of_ne hne h.wellFormed⟩

theorem OnlyAt.insertAdmission (h : OnlyAt id w w') : OnlyAt id w (w'.insertAdmission id) :=
  h.trans ⟨h.wellFormed.insertAdmission, fun _ _ => rfl,
    fun _ hne => Workers.admits_insertAdmission_of_ne hne h.wellFormed⟩

/-- Every return of `p` meets `Ψ`, whatever the runner does. -/
abbrev Leaves {α : Type} (p : SupervisorProg α) (w : Workers) (Ψ : α → Workers → Prop) : Prop :=
  Always supervisorWorld () (fun _ _ => True) Ψ p w

theorem leaves_updateStatus {Ψ : WorkerStatus → Workers → Prop}
    (h : Ψ (change.apply (w.status id)) (w.updateStatus id change)) :
    Leaves (WorkerSupervisor.updateStatus id change) w Ψ := by
  refine ⟨trivial, fun (s : WorkerStatus) _ hs => ?_⟩
  have hs : s = change.apply (w.status id) := beq_iff_eq.mp hs
  rw [hs]
  exact h

theorem leaves_start (planned : PlannedWorker) (hw : w.WellFormed) :
    Leaves (WorkerSupervisor.start planned) w fun s w' => OnlyAt planned.worker.id w w' ∧
      (s.state = .ready ∧ w'.Serves planned.worker.id ∨ s.state = .failed) := by
  have hstarting : OnlyAt planned.worker.id w (w.updateStatus planned.worker.id .starting) :=
    (OnlyAt.refl hw).updateStatus
  refine Always.op trivial fun _ _ _ => Always.op trivial fun spawned _ _ => ?_
  cases spawned with
  | error error =>
    refine Always.op trivial fun _ _ _ => leaves_updateStatus ?_
    exact ⟨hstarting.stopAdmitting.updateStatus, .inr rfl⟩
  | ok pid =>
    refine Always.op trivial fun _ _ _ => Always.op trivial fun ready _ _ => ?_
    have hwarming : OnlyAt planned.worker.id w
        ((w.updateStatus planned.worker.id .starting).updateStatus planned.worker.id (.warming pid)) :=
      hstarting.updateStatus
    cases ready with
    | ok _ =>
      refine Always.op trivial fun _ _ _ => leaves_updateStatus ?_
      refine ⟨hwarming.insertAdmission.updateStatus, .inl ⟨rfl, ?_, ?_⟩⟩
      · rw [Workers.status_updateStatus]; rfl
      · rw [Workers.admits_updateStatus]; exact Workers.admits_insertAdmission
    | error error =>
      refine Always.op trivial fun _ _ _ => Always.op trivial fun _ _ _ => leaves_updateStatus ?_
      exact ⟨hwarming.stopAdmitting.updateStatus, .inr rfl⟩

theorem leaves_drain (timeout : Nat) (hw : w.WellFormed) :
    Leaves (WorkerSupervisor.drain timeout id) w fun _ w' => OnlyAt id w w' := by
  have hclosed : OnlyAt id w (w.stopAdmitting id) := (OnlyAt.refl hw).stopAdmitting
  have hdrained : Leaves (WorkerSupervisor.updateStatus id .draining) (w.stopAdmitting id) fun _ w' => OnlyAt id w w' :=
    leaves_updateStatus hclosed.updateStatus
  refine Always.op trivial fun _ _ _ => Always.op trivial fun gate _ _ => ?_
  cases gate with
  | none => exact hdrained
  | some gate =>
    refine Always.op trivial fun now _ _ => Always.bind ?_
    refine (always_waits (fun _ _ _ => rfl) (fun _ _ => trivial) (all_awaitDrained gate _ _)).mono
      (fun _ _ h => h) fun _ w' hw' => ?_
    rw [hw']
    exact hdrained

theorem leaves_stop (hw : w.WellFormed) :
    Leaves (WorkerSupervisor.stop id) w fun s w' => OnlyAt id w w' ∧ w'.admits id = false ∧
      (w'.status id).state = s.state ∧ (s.state = .stopped ∨ s.state = .failed) := by
  have hstopping : OnlyAt id w ((w.stopAdmitting id).updateStatus id .stopping) :=
    (OnlyAt.refl hw).stopAdmitting.updateStatus
  refine Always.op trivial fun _ _ _ => Always.op trivial fun _ _ _ => Always.op trivial fun stopped _ _ => ?_
  cases stopped with
  | ok _ =>
    refine leaves_updateStatus ⟨hstopping.updateStatus, Workers.admits_stopAdmitting, ?_, .inl rfl⟩
    exact congrArg WorkerStatus.state Workers.status_updateStatus
  | error error =>
    refine leaves_updateStatus ⟨hstopping.updateStatus, Workers.admits_stopAdmitting, ?_, .inr rfl⟩
    exact congrArg WorkerStatus.state Workers.status_updateStatus

end

/-! ## Results that a runner can bring about -/

section
variable {w : Workers}

/-- A runner that spawns nothing, and does everything else. -/
def SupervisorOp.spawnFails : (o : SupervisorOp) → Workers → SupervisorSig.Ans o
  | .spawn _, _ => .error ""
  | o, w => o.succeed w

theorem can_succeed (o : SupervisorOp) (w : Workers) : o.can w (o.succeed w) = true := by
  cases o <;> simp [SupervisorOp.can, SupervisorOp.succeed]

theorem can_spawnFails (o : SupervisorOp) (w : Workers) : o.can w (o.spawnFails w) = true := by
  cases o <;> simp [SupervisorOp.can, SupervisorOp.spawnFails, SupervisorOp.succeed]

theorem start_succeeds (planned : PlannedWorker) :
    ∃ s w', Outcome supervisorWorld (WorkerSupervisor.start planned) w s w' ∧ s.state = .ready :=
  ⟨_, _, Outcome.eval (W := supervisorWorld) (g := ()) can_succeed _ w, rfl⟩

theorem start_fails (planned : PlannedWorker) :
    ∃ s w', Outcome supervisorWorld (WorkerSupervisor.start planned) w s w' ∧ s.state = .failed ∧
      (w'.status planned.worker.id).state = .failed := by
  refine ⟨_, _, Outcome.eval (W := supervisorWorld) (g := ()) can_spawnFails _ w, rfl, ?_⟩
  exact congrArg WorkerStatus.state Workers.status_updateStatus

theorem drain_returns (timeout : Nat) (id : String) :
    ∃ s w', Outcome supervisorWorld (WorkerSupervisor.drain timeout id) w s w' :=
  ⟨_, _, Outcome.eval (W := supervisorWorld) (g := ()) can_succeed _ w⟩

theorem stop_succeeds (id : String) : ∃ s w', Outcome supervisorWorld (WorkerSupervisor.stop id) w s w' ∧
    s.state = .stopped ∧ (w'.status id).state = .stopped := by
  refine ⟨_, _, Outcome.eval (W := supervisorWorld) (g := ()) can_succeed _ w, rfl, ?_⟩
  exact congrArg WorkerStatus.state Workers.status_updateStatus

end

/-! ## Swaps -/

/-- What a swap promises about the workers it leaves. -/
def SwapServes (active replacement : String) (w : Workers) (e : SwapExecution) (w' : Workers) : Prop :=
  (e.success = true → w'.Serves replacement ∧
    (active ≠ replacement → (w'.status active).state = .stopped ∧ w'.admits active = false)) ∧
  (e.success = false → e.mode = .hot → replacement ≠ active → (w.status active).state = .ready →
    w'.Serves active ∨ w'.Serves replacement)

section
variable {w : Workers} {timeout : Nat} {active : String} {replacement : PlannedWorker}

theorem leaves_coldSwap (hw : w.WellFormed) :
    Leaves (WorkerSupervisor.executeColdSwap timeout active replacement) w
      (SwapServes active replacement.worker.id w) := by
  refine (leaves_drain timeout hw).seq fun drained w₁ h₁ => ?_
  refine (leaves_stop h₁.wellFormed).seq fun stopped w₂ ⟨h₂, hclosed, hstate, _⟩ => ?_
  by_cases hstop : stopped.state ≠ .stopped
  · rw [if_pos hstop]
    constructor
    · intro h; cases h
    · intro _ h; cases h
  · rw [if_neg hstop]
    refine (leaves_start replacement h₂.wellFormed).seq fun started w₃ ⟨h₃, hstarted⟩ => ?_
    refine ⟨fun hsuccess => ?_, fun _ h => by cases h⟩
    have hready : started.state = .ready := beq_iff_eq.mp hsuccess
    rcases hstarted with ⟨-, hserves⟩ | hfailed
    · refine ⟨hserves, fun hne => ?_⟩
      rw [h₃.status active hne, h₃.admits active hne, hstate]
      exact ⟨not_not.mp hstop, hclosed⟩
    · rw [hfailed] at hready; cases hready

theorem leaves_hotSwap (hw : w.WellFormed) (hne : active ≠ replacement.worker.id)
    (hadmits : (w.status active).state = .ready → w.admits active = true) :
    Leaves (WorkerSupervisor.executeHotSwap timeout active replacement) w
      (SwapServes active replacement.worker.id w) := by
  refine (leaves_start replacement hw).seq fun started w₁ ⟨h₁, hstarted⟩ => ?_
  by_cases hstart : started.state ≠ .ready
  · rw [if_pos hstart]
    refine ⟨fun h => (by cases h), fun _ _ _ hready => .inl ⟨?_, ?_⟩⟩
    · rw [h₁.status active hne]; exact hready
    · rw [h₁.admits active hne]; exact hadmits hready
  · rw [if_neg hstart]
    have hserves : w₁.Serves replacement.worker.id := by
      rcases hstarted with ⟨-, hserves⟩ | hfailed
      · exact hserves
      · exact absurd (by rw [hfailed]; simp) hstart
    refine (leaves_drain timeout h₁.wellFormed).seq fun drained w₂ h₂ => ?_
    refine (leaves_stop h₂.wellFormed).seq fun stopped w₃ ⟨h₃, hclosed, hstate, _⟩ => ?_
    have hserves₃ : w₃.Serves replacement.worker.id := by
      have hat := h₂.trans h₃
      exact ⟨by rw [hat.status _ hne.symm]; exact hserves.1, by rw [hat.admits _ hne.symm]; exact hserves.2⟩
    refine ⟨fun hsuccess => ⟨hserves₃, fun _ => ⟨?_, hclosed⟩⟩, fun _ _ _ _ => .inr hserves₃⟩
    rw [hstate]
    exact beq_iff_eq.mp hsuccess

/-- A hot swap of a worker for itself can succeed, and stops it. -/
theorem hotSwap_of_itself (heq : active = replacement.worker.id) :
    ∃ e w', Outcome supervisorWorld (WorkerSupervisor.executeHotSwap timeout active replacement) w e w' ∧
      e.success = true ∧ ¬ w'.Serves replacement.worker.id := by
  obtain ⟨started, w₁, hstart, hready⟩ := start_succeeds (w := w) replacement
  obtain ⟨drained, w₂, hdrain⟩ := drain_returns (w := w₁) timeout active
  obtain ⟨stopped, w₃, hstop, hstopped, hstate⟩ := stop_succeeds (w := w₂) active
  refine ⟨⟨.hot, .hot active replacement.worker.id, [started, drained, stopped], stopped.state == .stopped⟩, w₃,
    hstart.bind ?_, ?_, ?_⟩
  · rw [if_neg (by simp [hready])]
    exact hdrain.bind (hstop.bind .done)
  · simp [hstopped]
  · intro h
    rw [← heq] at h
    rw [h.1] at hstate
    cases hstate

theorem hotSwap_fails_to_start :
    ∃ e w', Outcome supervisorWorld (WorkerSupervisor.executeHotSwap timeout active replacement) w e w' ∧
      e.success = false ∧ e.mode = .hot ∧ (active ≠ replacement.worker.id → w.WellFormed →
        w'.admits active = w.admits active) ∧ ¬ w'.Serves replacement.worker.id := by
  obtain ⟨started, w₁, hstart, hfailed, hstate⟩ := start_fails (w := w) replacement
  refine ⟨⟨.hot, .hot active replacement.worker.id, [started], false⟩, w₁, hstart.bind ?_, rfl, rfl, ?_, ?_⟩
  · rw [if_pos (by simp [hfailed])]
    exact .done
  · intro hne hw
    exact ((leaves_start replacement hw).outcome hstart).1.admits active hne
  · intro h
    rw [h.1] at hstate
    cases hstate

/-- A swap keeps its promises whatever the runner does, exactly if it is not a hot one of
a worker for itself and not a hot one away from a ready worker that does not admit. -/
theorem swap_serves_iff (hw : w.WellFormed) (mode : SwapMode) (budget : Option SwapBudget) :
    (∀ e w', Outcome supervisorWorld
        (WorkerSupervisor.executeSwapWithBudget timeout mode active replacement budget) w e w' →
      SwapServes active replacement.worker.id w e w') ↔
    (effectiveMode mode budget = .hot →
      active ≠ replacement.worker.id ∧ ((w.status active).state = .ready → w.admits active = true)) := by
  unfold WorkerSupervisor.executeSwapWithBudget
  cases effectiveMode mode budget with
  | cold =>
    constructor
    · intro _ h; cases h
    · intro _ e w' ho
      exact (leaves_coldSwap hw).outcome ho
  | hot =>
    constructor
    · intro h _
      have hne : active ≠ replacement.worker.id := by
        intro heq
        obtain ⟨e, w', ho, hsuccess, hnot⟩ := hotSwap_of_itself (w := w)  heq
        exact hnot ((h e w' ho).1 hsuccess).1
      refine ⟨hne, fun hready => ?_⟩
      obtain ⟨e, w', ho, hfail, hmode, hadmits, hnot⟩ :=
        hotSwap_fails_to_start (w := w)   
      rcases (h e w' ho).2 hfail hmode hne.symm hready with hserves | hserves
      · rw [← hadmits hne hw]; exact hserves.2
      · exact absurd hserves hnot
    · intro h e w' ho
      obtain ⟨hne, hadmits⟩ := h rfl
      exact (leaves_hotSwap hw hne hadmits).outcome ho

end

theorem swap_serves_new : ∃ e w', Outcome supervisorWorld
    (WorkerSupervisor.executeSwapWithBudget 0 .hot "llama" (subprocess "qwen") none) {} e w' ∧
    SwapServes "llama" "qwen" {} e w' := by
  have hrun := Outcome.eval (W := supervisorWorld) (g := ()) can_succeed
    (WorkerSupervisor.executeSwapWithBudget 0 .hot "llama" (subprocess "qwen") none) {}
  refine ⟨_, _, hrun, (swap_serves_iff Workers.wellFormed_new .hot none).mpr (fun _ => ⟨by decide, fun h => ?_⟩) _ _ hrun⟩
  cases h

/-- A hot swap of `qwen` for itself reports success and leaves it stopped. -/
theorem swap_of_itself_stops : ∃ e w', Outcome supervisorWorld
    (WorkerSupervisor.executeSwapWithBudget 0 .hot "qwen" (subprocess "qwen") none) {} e w' ∧ e.success = true ∧
    ¬ w'.Serves "qwen" :=
  hotSwap_of_itself (w := {}) rfl

end Llmctl
