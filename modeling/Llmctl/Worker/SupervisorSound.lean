import Llmctl.Worker.Supervisor

/-!
# Gates and statuses

A gate opens just before its worker becomes ready and is closed before any other
status is written, except where a worker is started whose gate is open. Whether a
swap leaves one worker serving follows from where each operation leaves the gate
and the status of its worker and that it leaves those of others alone.
-/

namespace Llmctl

open Async

/-! ## The supervisor's world -/

inductive RouterEvent where
  | look
  deriving DecidableEq

namespace SupervisorOp

def can (w : Workers) : (o : SupervisorOp) → SupervisorSig.Ans o → Bool
  | .updateStatus id change, s => s == change.apply (w.status id)
  | .workerState id, state => state == (w.statuses id).map (·.state)
  | .getAdmission id, gate => gate == w.registry id
  | _, _ => true

def workers (w : Workers) : SupervisorOp → Workers
  | .updateStatus id change => w.updateStatus id change
  | .stopAdmitting id => w.stopAdmitting id
  | .insertAdmission id => w.insertAdmission id
  | _ => w

def isAwait : SupervisorOp → Bool
  | .spawn _ | .stop _ | .waitReady _ | .sleepUntil _ => true
  | _ => false

end SupervisorOp

/-- One supervisor over a runner that may do anything; the router looks at the gates
whenever it likes. -/
def supervisorWorld : World SupervisorSig Unit Workers Unit RouterEvent where
  can _ o a w _ := o.can w a
  loc _ o _ w := o.workers w
  sh _ _ _ _ g := g
  canDrop _ o := o.isAwait
  dropLoc _ _ w := w
  dropSh _ _ _ g := g
  canEnv _ _ := true
  env _ g := g

namespace Workers

def admits (w : Workers) (id : String) : Bool := (w.registry id).any w.admitting

/-- Each worker has a gate of its own, and the next one is new. -/
structure WellFormed (w : Workers) : Prop where
  below : ∀ id gate, w.registry id = some gate → gate < w.nextGate
  own : ∀ id id' gate, w.registry id = some gate → w.registry id' = some gate → id = id'

theorem wellFormed_new : WellFormed {} := by
  constructor
  · intro id gate h; cases h
  · intro id id' gate h; cases h

/-! ### What an update leaves alone -/

section
variable {w : Workers} {id id' : String} {change : StatusChange}

@[simp] theorem admits_updateStatus : (w.updateStatus id change).admits id' = w.admits id' := rfl

theorem status_updateStatus : (w.updateStatus id change).status id = change.apply (w.status id) := by
  simp [updateStatus, status]

theorem status_updateStatus_of_ne (h : id' ≠ id) : (w.updateStatus id change).status id' = w.status id' := by
  simp [updateStatus, status, Function.update_of_ne h]

@[simp] theorem status_stopAdmitting : (w.stopAdmitting id).status id' = w.status id' := by
  unfold stopAdmitting
  split <;> rfl

@[simp] theorem status_insertAdmission : (w.insertAdmission id).status id' = w.status id' := rfl

theorem admits_stopAdmitting : (w.stopAdmitting id).admits id = false := by
  unfold stopAdmitting admits
  split
  · rename_i gate h
    simp [h]
  · rename_i h
    simp [h]

theorem admits_stopAdmitting_of_ne (h : id' ≠ id) (hw : w.WellFormed) :
    (w.stopAdmitting id).admits id' = w.admits id' := by
  unfold stopAdmitting
  split
  · rename_i gate hgate
    unfold admits
    cases hid : w.registry id' with
    | none => rfl
    | some gate' =>
      have hne : gate' ≠ gate := fun e => h (hw.own id' id gate (e ▸ hid) hgate)
      simp [Function.update_of_ne hne]
  · rfl

theorem admits_insertAdmission : (w.insertAdmission id).admits id = true := by
  simp [insertAdmission, admits]

theorem admits_insertAdmission_of_ne (h : id' ≠ id) (hw : w.WellFormed) :
    (w.insertAdmission id).admits id' = w.admits id' := by
  unfold insertAdmission admits
  simp only [Function.update_of_ne h]
  cases hid : w.registry id' with
  | none => rfl
  | some gate =>
    have hne : gate ≠ w.nextGate := Nat.ne_of_lt (hw.below id' gate hid)
    simp [Function.update_of_ne hne]

theorem WellFormed.updateStatus (hw : w.WellFormed) : (w.updateStatus id change).WellFormed := ⟨hw.below, hw.own⟩

theorem WellFormed.stopAdmitting (hw : w.WellFormed) : (w.stopAdmitting id).WellFormed := by
  unfold Workers.stopAdmitting
  split
  · exact ⟨hw.below, hw.own⟩
  · exact hw

theorem WellFormed.insertAdmission (hw : w.WellFormed) : (w.insertAdmission id).WellFormed := by
  have hof : ∀ id' gate, (w.insertAdmission id).registry id' = some gate →
      (id' = id ∧ gate = w.nextGate) ∨ (id' ≠ id ∧ w.registry id' = some gate) := by
    intro id' gate h
    by_cases he : id' = id
    · subst he
      simp only [Workers.insertAdmission, Function.update_self, Option.some.injEq] at h
      exact .inl ⟨rfl, h.symm⟩
    · simp only [Workers.insertAdmission, Function.update_of_ne he] at h
      exact .inr ⟨he, h⟩
  constructor
  · intro id' gate h
    show gate < w.nextGate + 1
    rcases hof id' gate h with ⟨-, rfl⟩ | ⟨-, h⟩
    · omega
    · have := hw.below id' gate h
      omega
  · intro a b gate ha hb
    rcases hof a gate ha with ⟨ha, hg⟩ | ⟨-, ha⟩ <;> rcases hof b gate hb with ⟨hb, hg'⟩ | ⟨-, hb⟩
    · rw [ha, hb]
    · exact absurd (hw.below b gate hb) (by omega)
    · exact absurd (hw.below a gate ha) (by omega)
    · exact hw.own a b gate ha hb

end

end Workers

/-! ## An open gate belongs to a ready worker -/

section
variable {w : Workers} {id : String} {change : StatusChange}

def GateReadySave (except : Option String) (w : Workers) : Prop :=
  w.WellFormed ∧ ∀ id, except ≠ some id → w.admits id = true → (w.status id).state = .ready

abbrev GateReady : Workers → Prop := GateReadySave none

theorem GateReady.updateStatus (h : GateReady w) (hclosed : w.admits id = false) :
    GateReady (w.updateStatus id change) := by
  refine ⟨h.1.updateStatus, fun id' _ ha => ?_⟩
  rw [Workers.admits_updateStatus] at ha
  have hne : id' ≠ id := fun e => by rw [e, hclosed] at ha; cases ha
  rw [Workers.status_updateStatus_of_ne hne]
  exact h.2 id' (by simp) ha

theorem GateReady.stopAdmitting (h : GateReady w) : GateReady (w.stopAdmitting id) := by
  refine ⟨h.1.stopAdmitting, fun id' _ ha => ?_⟩
  rw [Workers.status_stopAdmitting]
  by_cases he : id' = id
  · rw [he, Workers.admits_stopAdmitting] at ha; cases ha
  · rw [Workers.admits_stopAdmitting_of_ne he h.1] at ha
    exact h.2 id' (by simp) ha

theorem GateReady.insertAdmission (h : GateReady w) : GateReadySave (some id) (w.insertAdmission id) := by
  refine ⟨h.1.insertAdmission, fun id' hne ha => ?_⟩
  have he : id' ≠ id := fun e => hne (by rw [e])
  rw [Workers.admits_insertAdmission_of_ne he h.1] at ha
  rw [Workers.status_insertAdmission]
  exact h.2 id' (by simp) ha

theorem GateReadySave.ready (h : GateReadySave (some id) w) : GateReady (w.updateStatus id .ready) := by
  refine ⟨h.1.updateStatus, fun id' _ ha => ?_⟩
  by_cases he : id' = id
  · rw [he, Workers.status_updateStatus]; rfl
  · rw [Workers.status_updateStatus_of_ne he]
    exact h.2 id' (fun e => he (Option.some.inj e).symm) ha

end

def SupervisorOp.installed : SupervisorOp → Option String
  | .updateStatus id .ready => some id
  | _ => none

/-- A worker is started only while its registered gate is closed. -/
def SupervisorOp.startsClosed (o : SupervisorOp) (w : Workers) : Bool :=
  match o with
  | .updateStatus id .starting => !w.admits id
  | _ => true

section
variable {w : Workers}

/-- The program keeps every open gate on a ready worker. -/
abbrev KeepsGates {α : Type} (p : SupervisorProg α) (w : Workers) : Prop :=
  Always (supervisorWorld.restrict SupervisorOp.startsClosed) () (fun o w => GateReadySave o.installed w)
    (fun _ w => GateReady w) p w

/-- Waiting changes nothing of the supervisor's. -/
theorem always_waits {V : World SupervisorSig Unit Workers Unit RouterEvent} {Φ : SupervisorOp → Workers → Prop}
    {α : Type} {p : SupervisorProg α} (hV : ∀ o a w, V.loc () o a w = o.workers w) (hΦ : ∀ o, o.waits → Φ o w)
    (hp : p.All SupervisorOp.waits) : Always V () Φ (fun _ w' => w' = w) p w := by
  refine Always.of_all (P := fun w' => w' = w) (Q := SupervisorOp.waits) ?_ ?_ hp rfl
  · intro o w' hwaits hw'
    rw [hw']
    exact hΦ o hwaits
  · intro o a w' hwaits hw'
    rw [hV, hw']
    cases o <;> first | rfl | exact hwaits.elim

theorem keepsGates_start (planned : PlannedWorker) (h : GateReady w) :
    KeepsGates (WorkerSupervisor.start planned) w := by
  refine ⟨h, fun s _ hs => ?_⟩
  have hclosed : w.admits planned.worker.id = false := by
    have hg := (Bool.and_eq_true _ _).mp hs |>.2
    simpa [SupervisorOp.startsClosed] using hg
  have hstarting : GateReady (w.updateStatus planned.worker.id .starting) := h.updateStatus hclosed
  refine ⟨hstarting, fun spawned _ _ => ?_⟩
  cases spawned with
  | error error =>
    refine ⟨hstarting, fun _ _ _ => ?_⟩
    refine ⟨hstarting.stopAdmitting, fun _ _ _ => ?_⟩
    exact hstarting.stopAdmitting.updateStatus Workers.admits_stopAdmitting
  | ok pid =>
    refine ⟨hstarting, fun _ _ _ => ?_⟩
    have hwarming : GateReady ((w.updateStatus planned.worker.id .starting).updateStatus planned.worker.id (.warming pid)) :=
      hstarting.updateStatus hclosed
    refine ⟨hwarming, fun ready _ _ => ?_⟩
    cases ready with
    | ok _ =>
      refine ⟨hwarming, fun _ _ _ => ?_⟩
      exact ⟨hwarming.insertAdmission, fun _ _ _ => hwarming.insertAdmission.ready⟩
    | error error =>
      refine ⟨hwarming, fun _ _ _ => ?_⟩
      refine ⟨hwarming, fun _ _ _ => ?_⟩
      refine ⟨hwarming.stopAdmitting, fun _ _ _ => ?_⟩
      exact hwarming.stopAdmitting.updateStatus Workers.admits_stopAdmitting

theorem keepsGates_stop (id : String) (h : GateReady w) :
    Always (supervisorWorld.restrict SupervisorOp.startsClosed) () (fun o w => GateReadySave o.installed w)
      (fun _ w => GateReady w ∧ w.admits id = false) (WorkerSupervisor.stop id) w := by
  have hclosed : (w.stopAdmitting id).admits id = false := Workers.admits_stopAdmitting
  refine Always.op h fun _ _ _ => ?_
  refine Always.op h.stopAdmitting fun _ _ _ => ?_
  have hstopping : GateReady ((w.stopAdmitting id).updateStatus id .stopping) := h.stopAdmitting.updateStatus hclosed
  refine Always.op hstopping fun stopped _ _ => ?_
  cases stopped with
  | ok _ => exact ⟨hstopping, fun _ _ _ => ⟨hstopping.updateStatus hclosed, hclosed⟩⟩
  | error error => exact ⟨hstopping, fun _ _ _ => ⟨hstopping.updateStatus hclosed, hclosed⟩⟩

theorem keepsGates_drain (timeout : Nat) (id : String) (h : GateReady w) :
    KeepsGates (WorkerSupervisor.drain timeout id) w := by
  have hclosed : (w.stopAdmitting id).admits id = false := Workers.admits_stopAdmitting
  have hdrained : KeepsGates (WorkerSupervisor.updateStatus id .draining) (w.stopAdmitting id) :=
    ⟨h.stopAdmitting, fun _ _ _ => h.stopAdmitting.updateStatus hclosed⟩
  refine Always.op h fun _ _ _ => ?_
  refine Always.op h.stopAdmitting fun gate _ _ => ?_
  cases gate with
  | none => exact hdrained
  | some gate =>
    refine Always.op h.stopAdmitting fun now _ _ => ?_
    have hwaits : ∀ o : SupervisorOp, o.waits → GateReadySave o.installed (w.stopAdmitting id) := by
      intro o hwaits
      cases o <;> first | exact h.stopAdmitting | exact hwaits.elim
    apply (always_waits (fun _ _ _ => rfl) hwaits (all_awaitDrained gate _ _)).seq
    intro _ w' hw'
    rw [hw']
    exact hdrained

theorem keepsGates_reap (exited : List String) : ∀ {w}, GateReady w → KeepsGates (WorkerSupervisor.reap exited) w := by
  induction exited with
  | nil => exact fun h => h
  | cons id exited ih =>
    intro w h
    refine Always.op h fun state _ _ => ?_
    by_cases hlive : WorkerSupervisor.wasLive state = true
    · rw [if_pos hlive]
      refine Always.op h fun _ _ _ => ?_
      refine Always.op h.stopAdmitting fun _ _ _ => ?_
      exact (ih (h.stopAdmitting.updateStatus Workers.admits_stopAdmitting)).seq fun _ _ h => h
    · rw [if_neg hlive]
      exact ih h

theorem keepsGates_restart (planned : PlannedWorker) (h : GateReady w) :
    KeepsGates (WorkerSupervisor.restart planned) w := by
  refine (keepsGates_stop planned.worker.id h).seq fun stopped w ⟨hw, hclosed⟩ => ?_
  by_cases hfailed : stopped.state = .failed
  · rw [if_pos hfailed]; exact hw
  · rw [if_neg hfailed]
    refine Always.op hw fun _ _ _ => ?_
    exact keepsGates_start planned (hw.updateStatus hclosed)

theorem keepsGates_swap (timeout : Nat) (mode : SwapMode) (active : String) (replacement : PlannedWorker)
    (budget : Option SwapBudget) (h : GateReady w) :
    KeepsGates (WorkerSupervisor.executeSwapWithBudget timeout mode active replacement budget) w := by
  unfold WorkerSupervisor.executeSwapWithBudget
  cases effectiveMode mode budget with
  | cold =>
    refine (keepsGates_drain timeout active h).seq fun drained w hw => ?_
    refine (keepsGates_stop active hw).seq fun stopped w ⟨hw, _⟩ => ?_
    by_cases hstop : stopped.state ≠ .stopped
    · rw [if_pos hstop]; exact hw
    · rw [if_neg hstop]
      exact (keepsGates_start replacement hw).seq fun _ _ h => h
  | hot =>
    refine (keepsGates_start replacement h).seq fun started w hw => ?_
    by_cases hstart : started.state ≠ .ready
    · rw [if_pos hstart]; exact hw
    · rw [if_neg hstart]
      refine (keepsGates_drain timeout active hw).seq fun drained w hw => ?_
      exact (keepsGates_stop active hw).seq fun _ _ h => h.1

theorem keepsGates_call (timeout : Nat) (call : SupervisorCall) (h : GateReady w) :
    KeepsGates (call.prog timeout) w := by
  cases call with
  | start planned => exact (keepsGates_start planned h).bind_pure _
  | drain id => exact (keepsGates_drain timeout id h).bind_pure _
  | stop id => exact ((keepsGates_stop id h).mono (fun _ _ h => h) fun _ _ h => h.1).bind_pure _
  | restart planned => exact (keepsGates_restart planned h).bind_pure _
  | reapCrashed =>
    have hreap : KeepsGates WorkerSupervisor.reapCrashed w := Always.op h fun exited _ _ => keepsGates_reap exited h
    exact hreap.bind_pure _
  | executeSwapWithBudget mode active replacement budget =>
    exact (keepsGates_swap timeout mode active replacement budget h).bind_pure _

end

/-! ### Runs -/

/-- No operation marks a worker as starting while its registered gate is open, and the
router does not look between the installation of a gate and the status it goes with. -/
def StartsClosed {α : Type} (c : Conf SupervisorSig α Unit Workers Unit) :
    SerialLabel SupervisorSig RouterEvent SupervisorCall → Prop
  | .step (.answer _ o _) => o.startsClosed (c.loc ()) = true
  | .step (.env .look) => ∀ o k, c.prog () = some (.call o k) → o.installed = none
  | _ => True

abbrev SupervisorRun (timeout : Nat)
    (ok : Conf SupervisorSig SupervisorCall Unit Workers Unit →
      SerialLabel SupervisorSig RouterEvent SupervisorCall → Prop) :=
  SerialReach supervisorWorld (SupervisorCall.prog timeout) (fun _ _ w => w) ok (serialStart {} ())

/-- Whenever the router looks, a worker with an open gate is ready. -/
theorem looks_ready {timeout : Nat} {c : Conf SupervisorSig SupervisorCall Unit Workers Unit}
    (hr : SupervisorRun timeout StartsClosed c) (hlook : StartsClosed c (.step (.env .look))) (id : String)
    (hadmits : (c.loc ()).admits id = true) : ((c.loc ()).status id).state = .ready := by
  have hkept : Kept (supervisorWorld.restrict SupervisorOp.startsClosed) GateReady
      (fun o w => GateReadySave o.installed w) (fun _ w => GateReady w) c := by
    refine SerialReach.kept (J := GateReady) SupervisorOp.startsClosed ?_ (fun _ _ _ h => h) ?_ (fun _ _ h => h) ?_ hr
    · exact ⟨Workers.wellFormed_new, fun id _ h => by cases h⟩
    · intro call _ w h
      exact keepsGates_call timeout call h
    · intro o w h hawait
      cases o <;> first | exact h | cases hawait
  unfold Kept at hkept
  split at hkept
  · exact hkept.2 id (by simp) hadmits
  · rename_i p hp
    cases p with
    | done call => exact hkept.2 id (by simp) hadmits
    | call o k =>
      have hnone : o.installed ≠ some id := by rw [hlook o k hp]; simp
      exact hkept.1.2 id hnone hadmits

/-! ### A running worker started again -/

def subprocess (id : String) : PlannedWorker :=
  ⟨⟨id, ⟨id, "query", 1⟩, "127.0.0.1", 9000⟩, .llamaServerSubprocess "llama-server"⟩

/-- The answer of a runner at which everything works, with nothing in flight. -/
def SupervisorOp.succeed : (o : SupervisorOp) → Workers → SupervisorSig.Ans o
  | .updateStatus id change, w => change.apply (w.status id)
  | .workerState id, w => (w.statuses id).map (·.state)
  | .getAdmission id, w => w.registry id
  | .inFlight _, _ | .instant, _ => (0 : Nat)
  | .stopAdmitting _, _ | .insertAdmission _, _ | .sleepUntil _, _ => ()
  | .spawn _, _ => .ok 1
  | .stop _, _ | .waitReady _, _ => .ok ()
  | .pollExited, _ => []

instance {α : Type} (c : Conf SupervisorSig α Unit Workers Unit)
    (l : SerialLabel SupervisorSig RouterEvent SupervisorCall) : Decidable (StartsClosed c l) :=
  match l with
  | .step (.answer _ o _) => inferInstanceAs (Decidable (o.startsClosed (c.loc ()) = true))
  | .step (.drop _) => .isTrue trivial
  | .start _ => .isTrue trivial
  | .step (.env .look) =>
    match hp : c.prog () with
    | some (.call o k) =>
      decidable_of_iff (o.installed = none)
        ⟨fun h o' k' hp' => by rw [hp] at hp'; cases hp'; exact h, fun h => h o k hp⟩
    | some (.done _) => .isTrue fun o k hp' => by rw [hp] at hp'; cases hp'
    | none => .isTrue fun o k hp' => by rw [hp] at hp'; cases hp'

def startsUp (id : String) : List (SerialChoice SupervisorSig Workers RouterEvent SupervisorCall) :=
  .start (.start (subprocess id)) :: List.replicate 6 (.answer SupervisorOp.succeed)

/-- A worker is started, drained, stopped and started again. -/
theorem looks_ready_restarted : ∃ c, SupervisorRun 0 StartsClosed c ∧ (c.loc ()).admits "qwen" = true ∧
    ((c.loc ()).status "qwen").state = .ready := by
  have hrun : ∃ c, SupervisorRun 0 StartsClosed c ∧
      (StartsClosed c (.step (.env .look)) ∧ (c.loc ()).admits "qwen" = true) :=
    Conf.exists_serialReach (startsUp "qwen" ++ [.start (.drain "qwen")] ++
      List.replicate 5 (.answer SupervisorOp.succeed) ++ [.start (.restart (subprocess "qwen"))] ++
      List.replicate 11 (.answer SupervisorOp.succeed)) (by decide)
  obtain ⟨c, hr, hlook, hadmits⟩ := hrun
  exact ⟨c, hr, hadmits, looks_ready hr hlook "qwen" hadmits⟩

/-- A hot swap starts the replacement while it runs: its gate stays open while the
process is spawned anew. -/
theorem starting_admits : ∃ c, SupervisorRun 0 (fun _ _ => True) c ∧ (∃ k, c.prog () = some (.call (.spawn (subprocess "qwen")) k)) ∧
    (c.loc ()).admits "qwen" = true ∧ ((c.loc ()).status "qwen").state = .starting := by
  have hrun : ∃ c, SupervisorRun 0 (fun _ _ => True) c ∧ ((c.prog ()).any (fun
      | .call o _ => decide (o = .spawn (subprocess "qwen"))
      | .done _ => false) = true ∧ (c.loc ()).admits "qwen" = true ∧ ((c.loc ()).status "qwen").state = .starting) :=
    Conf.exists_serialReach (startsUp "llama" ++ startsUp "qwen" ++
      [.start (.executeSwapWithBudget .hot "llama" (subprocess "qwen") none), .answer SupervisorOp.succeed]) (by decide)
  obtain ⟨c, hr, hp, hadmits, hstate⟩ := hrun
  refine ⟨c, hr, ?_, hadmits, hstate⟩
  obtain ⟨p, hp, hcall⟩ := Option.any_eq_true _ _ |>.mp hp
  cases p with
  | done _ => cases hcall
  | call o k =>
    obtain rfl := of_decide_eq_true hcall
    exact ⟨k, hp⟩

end Llmctl
