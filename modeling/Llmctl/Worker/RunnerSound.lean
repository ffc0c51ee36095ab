import Llmctl.Worker.SwapSound

/-!
# The supervisor and the process table

`TokioWorkerRunner` keeps a child per worker id. A worker that is stopped or failed
has none, as long as no in-process plan is spawned for an id that has a child:
that spawn fails before it looks at the table.
-/

namespace Llmctl

open Async

/-! ## Calls of `TokioWorkerRunner` as steps -/

namespace TokioWorkerRunner

/-- What a call of `spawn` can return and what it leaves of the table. -/
def canSpawn (planned : PlannedWorker) (r : Result Nat) : Bool :=
  !planned.launch.isInProcess || !r.toBool

def afterSpawn (planned : PlannedWorker) (r : Result Nat) (w : Workers) : Workers :=
  match planned.launch.isInProcess, r with
  | true, _ => w
  | false, .ok _ => (w.removeChild planned.worker.id).insertChild planned.worker.id
  | false, .error _ => w.removeChild planned.worker.id

def canStop (id : String) (w : Workers) (r : Result Unit) : Bool := w.children id || r.toBool

end TokioWorkerRunner

/-- The table as the programs of `TokioWorkerRunner` use it. -/
def tableWorld : World WorkerSig Unit Workers Unit Empty where
  can _ o a w _ :=
    match o, a with
    | .removeChild id, found => found == w.children id
    | _, _ => true
  loc _ o a w := o.workers a w
  sh _ _ _ _ g := g
  canDrop _ o := o.isAwait
  dropLoc _ _ w := w
  dropSh _ _ _ g := g
  canEnv e _ := e.elim
  env e _ := e.elim

section
variable {w : Workers}

theorem spawn_table (planned : PlannedWorker) :
    Always tableWorld () (fun _ _ => True)
      (fun r w' => TokioWorkerRunner.canSpawn planned r = true ∧ w' = TokioWorkerRunner.afterSpawn planned r w)
      (TokioWorkerRunner.spawn planned) w := by
  unfold TokioWorkerRunner.spawn
  cases hin : planned.launch.isInProcess with
  | true => exact ⟨by simp [TokioWorkerRunner.canSpawn, Except.toBool], by simp [TokioWorkerRunner.afterSpawn, hin]⟩
  | false =>
    have hspawn : Always tableWorld () (fun _ _ => True)
        (fun r w' => TokioWorkerRunner.canSpawn planned r = true ∧ w' = TokioWorkerRunner.afterSpawn planned r w)
        (Prog.op (S := WorkerSig) (.insertChild planned.worker.id)) (w.removeChild planned.worker.id) := by
      refine ⟨trivial, fun (r : Result Nat) _ _ => ⟨by simp [TokioWorkerRunner.canSpawn, hin], ?_⟩⟩
      cases r with
      | ok pid => simp only [TokioWorkerRunner.afterSpawn, hin]; rfl
      | error error => simp only [TokioWorkerRunner.afterSpawn, hin]; rfl
    refine Always.op trivial fun (found : Bool) _ _ => ?_
    cases found with
    | true => exact Always.op trivial fun _ _ _ => hspawn
    | false => exact hspawn

theorem stop_table (id : String) :
    Always tableWorld () (fun _ _ => True)
      (fun r w' => TokioWorkerRunner.canStop id w r = true ∧ w' = w.removeChild id) (TokioWorkerRunner.stop id) w := by
  refine Always.op trivial fun (found : Bool) _ hfound => ?_
  have hfound : found = w.children id := beq_iff_eq.mp hfound
  cases found with
  | true => exact ⟨trivial, fun (r : Result Unit) _ _ => ⟨by simp [TokioWorkerRunner.canStop, ← hfound], rfl⟩⟩
  | false => exact ⟨by simp [TokioWorkerRunner.canStop, Except.toBool], rfl⟩

theorem waitReady_table (planned : PlannedWorker) :
    Always tableWorld () (fun _ _ => True) (fun _ w' => w' = w) (TokioWorkerRunner.waitReady planned) w := by
  have hall := TokioWorkerRunner.waitReadyFor_all (P := fun o => ∀ a, o.workers a w = w) (fun _ _ => rfl)
    (fun _ => rfl) (fun _ _ => rfl) planned TokioWorkerRunner.readyProbeAttempts
  refine Always.of_all (P := fun w' => w' = w) (fun _ _ _ _ => trivial) (fun o a w' ho hw' => ?_) hall rfl
  rw [hw']
  exact ho a

end

/-! ## The supervisor on `TokioWorkerRunner` -/

/-- `process` numbers the children and `known` has every id that ever had one;
`exitedBefore` are the processes that had exited when the operation began. -/
structure TokioSupervisor where
  workers : Workers := {}
  process : String → Nat := fun _ => 0
  nextProcess : Nat := 0
  known : List String := []
  exitedBefore : Nat → Bool := fun _ => false

/-- The processes that have exited, for good. -/
structure Exits where
  exited : Nat → Bool := fun _ => false

inductive ExitEvent where
  | exit (process : Nat)

namespace SupervisorOp

/-- `poll_exited` names children only, and each whose process has exited. -/
def canPoll (l : TokioSupervisor) (g : Exits) (exited : List String) : Bool :=
  exited.all l.workers.children && l.known.all fun id =>
    exited.contains id || !(l.workers.children id && (g.exited (l.process id) || l.exitedBefore (l.process id)))

def canTokio (l : TokioSupervisor) (g : Exits) : (o : SupervisorOp) → SupervisorSig.Ans o → Bool
  | .spawn planned, r => TokioWorkerRunner.canSpawn planned r
  | .stop id, r => TokioWorkerRunner.canStop id l.workers r
  | .pollExited, exited => canPoll l g exited
  | o, a => o.can l.workers a

def stepTokio : (o : SupervisorOp) → SupervisorSig.Ans o → TokioSupervisor → TokioSupervisor
  | .spawn planned, .ok pid, l =>
    { l with
      workers := TokioWorkerRunner.afterSpawn planned (.ok pid) l.workers
      process := Function.update l.process planned.worker.id l.nextProcess
      nextProcess := l.nextProcess + 1
      known := planned.worker.id :: l.known }
  | .spawn planned, .error error, l =>
    { l with workers := TokioWorkerRunner.afterSpawn planned (.error error) l.workers }
  | .stop id, _, l => { l with workers := l.workers.removeChild id }
  | .pollExited, exited, l => { l with workers := exited.foldl Workers.removeChild l.workers }
  | o, _, l => { l with workers := o.workers l.workers }

/-- `spawn` and `stop` are dropped while they kill the child that they have removed. -/
def dropTokio : SupervisorOp → TokioSupervisor → TokioSupervisor
  | .spawn planned, l =>
    if planned.launch.isInProcess then l else { l with workers := l.workers.removeChild planned.worker.id }
  | .stop id, l => { l with workers := l.workers.removeChild id }
  | _, l => l

/-- An in-process plan is spawned only for an id without a child. -/
def spawnsFresh (o : SupervisorOp) (l : TokioSupervisor) : Bool :=
  match o with
  | .spawn planned => !(planned.launch.isInProcess && l.workers.children planned.worker.id)
  | _ => true

end SupervisorOp

def tokioWorld : World SupervisorSig Unit TokioSupervisor Exits ExitEvent where
  can _ o a l g := o.canTokio l g a
  loc _ o a l := o.stepTokio a l
  sh _ _ _ _ g := g
  canDrop _ o := o.isAwait
  dropLoc _ o l := o.dropTokio l
  dropSh _ _ _ g := g
  canEnv _ _ := true
  env
    | .exit process, g => { g with exited := Function.update g.exited process true }

def beginTokio (_ : SupervisorCall) (g : Exits) (l : TokioSupervisor) : TokioSupervisor :=
  { l with exitedBefore := g.exited }

/-! ## The table agrees with the statuses -/

/-- A worker that is stopped or failed has no child. -/
def TableAgrees (w : Workers) : Prop :=
  ∀ id, w.children id = true → (w.status id).state ≠ .stopped ∧ (w.status id).state ≠ .failed

def Tabled (l : TokioSupervisor) : Prop :=
  TableAgrees l.workers ∧ ∀ id, l.workers.children id = true → id ∈ l.known

section
variable {l : TokioSupervisor} {w : Workers} {id : String} {change : StatusChange}

theorem children_removeChild (id' : String) :
    (w.removeChild id).children id' = true ↔ id' ≠ id ∧ w.children id' = true := by
  by_cases he : id' = id
  · subst he; simp [Workers.removeChild]
  · simp [Workers.removeChild, he]

theorem children_foldl_removeChild (exited : List String) (id' : String) : ∀ w : Workers,
    (exited.foldl Workers.removeChild w).children id' = true ↔ id' ∉ exited ∧ w.children id' = true := by
  induction exited with
  | nil => intro w; simp
  | cons id exited ih =>
    intro w
    rw [List.foldl_cons, ih, children_removeChild]
    simp only [List.mem_cons, not_or]
    exact ⟨fun ⟨h, hne, hc⟩ => ⟨⟨hne, h⟩, hc⟩, fun ⟨⟨hne, h⟩, hc⟩ => ⟨h, hne, hc⟩⟩

theorem status_foldl_removeChild (exited : List String) (id' : String) : ∀ w : Workers,
    (exited.foldl Workers.removeChild w).status id' = w.status id' := by
  induction exited with
  | nil => exact fun _ => rfl
  | cons id exited ih => exact fun w => (ih (w.removeChild id)).trans rfl

theorem Tabled.fewer (h : Tabled l) (hchildren : ∀ id, w.children id = true → l.workers.children id = true)
    (hstatus : ∀ id, w.status id = l.workers.status id) : Tabled { l with workers := w } := by
  refine ⟨fun id hid => ?_, fun id hid => h.2 id (hchildren id hid)⟩
  show (w.status id).state ≠ _ ∧ (w.status id).state ≠ _
  rw [hstatus]
  exact h.1 id (hchildren id hid)

theorem Tabled.removeChild (h : Tabled l) : Tabled { l with workers := l.workers.removeChild id } :=
  h.fewer (fun _ hid => ((children_removeChild _).mp hid).2) fun _ => rfl

@[simp] theorem children_stopAdmitting : (w.stopAdmitting id).children = w.children := by
  unfold Workers.stopAdmitting
  split <;> rfl

theorem Tabled.stopAdmitting (h : Tabled l) : Tabled { l with workers := l.workers.stopAdmitting id } :=
  h.fewer (fun id' hid => by rwa [children_stopAdmitting] at hid) fun _ => Workers.status_stopAdmitting

theorem Tabled.insertAdmission (h : Tabled l) : Tabled { l with workers := l.workers.insertAdmission id } :=
  h.fewer (fun _ hid => hid) fun _ => rfl

theorem Tabled.updateStatus (h : Tabled l)
    (hstate : l.workers.children id = true →
      (change.apply (l.workers.status id)).state ≠ .stopped ∧ (change.apply (l.workers.status id)).state ≠ .failed) :
    Tabled { l with workers := l.workers.updateStatus id change } := by
  refine ⟨fun id' hid => ?_, fun id' hid => h.2 id' hid⟩
  show ((l.workers.updateStatus id change).status id').state ≠ _ ∧
    ((l.workers.updateStatus id change).status id').state ≠ _
  by_cases he : id' = id
  · rw [he, Workers.status_updateStatus]
    exact hstate (he ▸ hid)
  · rw [Workers.status_updateStatus_of_ne he]
    exact h.1 id' hid

/-- Any status goes with a worker that has no child. -/
theorem Tabled.childless (h : Tabled l) (hchild : l.workers.children id = false) :
    Tabled { l with workers := l.workers.updateStatus id change } :=
  h.updateStatus fun hid => by rw [hchild] at hid; cases hid

/-- A failed spawn leaves no child, if an in-process one is asked for without one. -/
theorem Tabled.spawnFailed {planned : PlannedWorker} {e : String} (h : Tabled l)
    (hfresh : SupervisorOp.spawnsFresh (.spawn planned) l = true) :
    Tabled (SupervisorOp.stepTokio (.spawn planned) (.error e) l) ∧
      (SupervisorOp.stepTokio (.spawn planned) (.error e) l).workers.children planned.worker.id = false := by
  simp only [SupervisorOp.stepTokio, TokioWorkerRunner.afterSpawn]
  cases hin : planned.launch.isInProcess with
  | true => exact ⟨h, by simpa [SupervisorOp.spawnsFresh, hin] using hfresh⟩
  | false => exact ⟨h.removeChild, by simp [Workers.removeChild]⟩

theorem Tabled.spawned {planned : PlannedWorker} {pid : Nat} (h : Tabled l)
    (hcan : TokioWorkerRunner.canSpawn planned (.ok pid) = true)
    (hstate : (l.workers.status planned.worker.id).state = .starting) :
    Tabled (SupervisorOp.stepTokio (.spawn planned) (.ok pid) l) := by
  have hin : planned.launch.isInProcess = false := by
    simpa [TokioWorkerRunner.canSpawn, Except.toBool] using hcan
  have hchildren : ∀ id, id ≠ planned.worker.id →
      ((l.workers.removeChild planned.worker.id).insertChild planned.worker.id).children id = true →
        l.workers.children id = true := by
    intro id hne hid
    simpa [Workers.insertChild, Workers.removeChild, Function.update_of_ne hne] using hid
  simp only [SupervisorOp.stepTokio, TokioWorkerRunner.afterSpawn, hin]
  constructor
  · intro id hid
    by_cases he : id = planned.worker.id
    · have hstatus : (l.workers.status id).state = .starting := by rw [he]; exact hstate
      show (l.workers.status id).state ≠ _ ∧ (l.workers.status id).state ≠ _
      rw [hstatus]
      simp
    · exact h.1 id (hchildren id he hid)
  · intro id hid
    by_cases he : id = planned.worker.id
    · rw [he]; exact List.mem_cons_self ..
    · exact List.mem_cons_of_mem _ (h.2 id (hchildren id he hid))

/-- The program keeps the table in agreement with the statuses. -/
abbrev KeepsTable {α : Type} (p : SupervisorProg α) (l : TokioSupervisor) (Ψ : α → TokioSupervisor → Prop) : Prop :=
  Always (tokioWorld.restrict SupervisorOp.spawnsFresh) () (fun _ l => Tabled l) Ψ p l

theorem keepsTable_start (planned : PlannedWorker) (h : Tabled l) :
    KeepsTable (WorkerSupervisor.start planned) l fun _ l => Tabled l := by
  have hstarting : Tabled { l with workers := l.workers.updateStatus planned.worker.id .starting } :=
    h.updateStatus fun _ => by simp [StatusChange.apply]
  refine Always.op h fun _ _ _ => Always.op hstarting fun spawned _ hspawned => ?_
  obtain ⟨hcan, hfresh⟩ := (Bool.and_eq_true _ _).mp hspawned
  cases spawned with
  | error error =>
    obtain ⟨hfailed, hchild⟩ := hstarting.spawnFailed (e := error) hfresh
    refine Always.op hfailed fun _ _ _ => Always.op hfailed.stopAdmitting fun _ _ _ => ?_
    exact hfailed.stopAdmitting.childless (by simpa using hchild)
  | ok pid =>
    have hspawned := hstarting.spawned hcan (by simp [Workers.status_updateStatus, StatusChange.apply])
    refine Always.op hspawned fun _ _ _ => ?_
    have hwarming : Tabled { SupervisorOp.stepTokio (.spawn planned) (.ok pid)
        { l with workers := l.workers.updateStatus planned.worker.id .starting } with
          workers := (SupervisorOp.stepTokio (.spawn planned) (.ok pid)
            { l with workers := l.workers.updateStatus planned.worker.id .starting }).workers.updateStatus
              planned.worker.id (.warming pid) } :=
      hspawned.updateStatus fun _ => by simp [StatusChange.apply]
    refine Always.op hwarming fun ready _ _ => ?_
    cases ready with
    | ok _ =>
      refine Always.op hwarming fun _ _ _ => Always.op hwarming.insertAdmission fun _ _ _ => ?_
      exact hwarming.insertAdmission.updateStatus fun _ => by simp [StatusChange.apply]
    | error error =>
      refine Always.op hwarming fun _ _ _ => Always.op hwarming.removeChild fun _ _ _ => ?_
      refine Always.op hwarming.removeChild.stopAdmitting fun _ _ _ => ?_
      exact hwarming.removeChild.stopAdmitting.childless (by simp [Workers.removeChild])

theorem keepsTable_drain (timeout : Nat) (h : Tabled l) :
    KeepsTable (WorkerSupervisor.drain timeout id) l fun _ l => Tabled l := by
  have hdrained : ∀ l, Tabled l → KeepsTable (WorkerSupervisor.updateStatus id .draining) l fun _ l => Tabled l :=
    fun l h => ⟨h, fun _ _ _ => h.updateStatus fun _ => by simp [StatusChange.apply]⟩
  refine Always.op h fun _ _ _ => Always.op h.stopAdmitting fun gate _ _ => ?_
  cases gate with
  | none => exact hdrained _ h.stopAdmitting
  | some gate =>
    refine Always.op h.stopAdmitting fun now _ _ => Always.bind ?_
    refine (Always.of_all (P := Tabled) (Q := SupervisorOp.waits) (fun _ _ _ h => h) ?_ (all_awaitDrained gate _ _)
      h.stopAdmitting).mono (fun _ _ h => h) fun _ l h => hdrained l h
    intro o a l hwaits h
    cases o <;> first | exact h | exact hwaits.elim

theorem keepsTable_stop (h : Tabled l) :
    KeepsTable (WorkerSupervisor.stop id) l fun _ l => Tabled l := by
  refine Always.op h fun _ _ _ => Always.op h.stopAdmitting fun _ _ _ => ?_
  have hstopping : Tabled { l with workers := (l.workers.stopAdmitting id).updateStatus id .stopping } :=
    h.stopAdmitting.updateStatus fun _ => by simp [StatusChange.apply]
  refine Always.op hstopping fun stopped _ _ => ?_
  cases stopped with
  | ok _ => exact ⟨hstopping.removeChild, fun _ _ _ => hstopping.removeChild.childless (by simp [Workers.removeChild])⟩
  | error error =>
    exact ⟨hstopping.removeChild, fun _ _ _ => hstopping.removeChild.childless (by simp [Workers.removeChild])⟩

theorem keepsTable_restart (planned : PlannedWorker) (h : Tabled l) :
    KeepsTable (WorkerSupervisor.restart planned) l fun _ l => Tabled l := by
  refine (keepsTable_stop h).seq fun stopped l h => ?_
  by_cases hfailed : stopped.state = .failed
  · rw [if_pos hfailed]; exact h
  · rw [if_neg hfailed]
    refine Always.op h fun _ _ _ => keepsTable_start planned ?_
    -- a restart is counted, and the state is as it was
    exact h.updateStatus fun hid => h.1 _ hid

theorem keepsTable_swap (timeout : Nat) (mode : SwapMode) (active : String) (replacement : PlannedWorker)
    (budget : Option SwapBudget) (h : Tabled l) :
    KeepsTable (WorkerSupervisor.executeSwapWithBudget timeout mode active replacement budget) l
      fun _ l => Tabled l := by
  unfold WorkerSupervisor.executeSwapWithBudget
  cases effectiveMode mode budget with
  | cold =>
    refine (keepsTable_drain timeout h).seq fun drained l h => ?_
    refine (keepsTable_stop h).seq fun stopped l h => ?_
    by_cases hstop : stopped.state ≠ .stopped
    · rw [if_pos hstop]; exact h
    · rw [if_neg hstop]
      exact (keepsTable_start replacement h).seq fun _ _ h => h
  | hot =>
    refine (keepsTable_start replacement h).seq fun started l h => ?_
    by_cases hstart : started.state ≠ .ready
    · rw [if_pos hstart]; exact h
    · rw [if_neg hstart]
      refine (keepsTable_drain timeout h).seq fun drained l h => ?_
      exact (keepsTable_stop h).seq fun _ _ h => h

/-- No child's process had exited when the operation began. -/
def NoneExited (l : TokioSupervisor) : Prop :=
  ∀ id, l.workers.children id = true → l.exitedBefore (l.process id) = false

theorem keepsTable_reap (exited : List String) : ∀ {l}, Tabled l → NoneExited l →
    (∀ id ∈ exited, l.workers.children id = false) →
    KeepsTable (WorkerSupervisor.reap exited) l fun _ l => Tabled l ∧ NoneExited l := by
  induction exited with
  | nil => exact fun h hnone _ => ⟨h, hnone⟩
  | cons id exited ih =>
    intro l h hnone hgone
    have hrest : ∀ id' ∈ exited, l.workers.children id' = false := fun id' hid' => hgone id' (List.mem_cons_of_mem _ hid')
    refine Always.op h fun state _ _ => ?_
    by_cases hlive : WorkerSupervisor.wasLive state = true
    · rw [if_pos hlive]
      refine Always.op h fun _ _ _ => Always.op h.stopAdmitting fun _ _ _ => Always.bind ?_
      have hid : l.workers.children id = false := hgone id (List.mem_cons_self ..)
      refine (ih (h.stopAdmitting.childless (by simpa using hid)) ?_ ?_).mono (fun _ _ h => h) fun _ _ h => h
      · intro id' hid'
        exact hnone id' (by simpa [Workers.updateStatus] using hid')
      · intro id' hid'
        simpa [Workers.updateStatus] using hrest id' hid'
    · rw [if_neg hlive]
      exact ih h hnone hrest

theorem keepsTable_reapCrashed (h : Tabled l) :
    KeepsTable WorkerSupervisor.reapCrashed l fun _ l => Tabled l ∧ NoneExited l := by
  refine Always.op h fun (exited : List String) g hexited => ?_
  obtain ⟨hpoll, -⟩ := (Bool.and_eq_true _ _).mp hexited
  obtain ⟨-, hall⟩ := (Bool.and_eq_true _ _).mp hpoll
  have hleft := children_foldl_removeChild exited
  refine keepsTable_reap exited (h.fewer (fun id hid => ((hleft id _).mp hid).2) fun id => status_foldl_removeChild exited id _)
    (fun id hid => ?_) fun id hid => ?_
  · -- a process that had exited is one that `poll_exited` names
    obtain ⟨hnot, hchild⟩ := (hleft id _).mp hid
    have hnamed := List.all_eq_true.mp hall id (h.2 id hchild)
    by_contra hexit
    rw [Bool.not_eq_false] at hexit
    rw [hchild, show l.exitedBefore (l.process id) = true from hexit] at hnamed
    exact hnot (by simpa using hnamed)
  · rw [← Bool.not_eq_true]
    exact fun hchild => ((hleft id _).mp hchild).1 hid

theorem keepsTable_call (timeout : Nat) (call : SupervisorCall) (h : Tabled l) :
    KeepsTable (call.prog timeout) l fun done l => Tabled l ∧ (done = .reapCrashed → NoneExited l) := by
  have hother : ∀ {α : Type} {p : SupervisorProg α}, call ≠ .reapCrashed → KeepsTable p l (fun _ l => Tabled l) →
      KeepsTable (p >>= fun _ => pure call) l fun done l => Tabled l ∧ (done = .reapCrashed → NoneExited l) := by
    intro α p hcall hp
    exact hp.seq fun _ _ h => ⟨h, fun hdone => absurd hdone hcall⟩
  cases call with
  | start planned => exact hother (by simp) (keepsTable_start planned h)
  | drain id => exact hother (by simp) (keepsTable_drain timeout h)
  | stop id => exact hother (by simp) (keepsTable_stop h)
  | restart planned => exact hother (by simp) (keepsTable_restart planned h)
  | reapCrashed =>
    exact (keepsTable_reapCrashed h).seq fun _ _ h => ⟨h.1, fun _ => h.2⟩
  | executeSwapWithBudget mode active replacement budget =>
    exact hother (by simp) (keepsTable_swap timeout mode active replacement budget h)

end

/-! ## Runs -/

/-- No in-process plan is spawned for an id that has a child. -/
def SpawnsFresh {α : Type} (c : Conf SupervisorSig α Unit TokioSupervisor Exits) :
    SerialLabel SupervisorSig ExitEvent SupervisorCall → Prop
  | .step (.answer _ o _) => o.spawnsFresh (c.loc ()) = true
  | _ => True

abbrev TokioRun (timeout : Nat)
    (ok : Conf SupervisorSig SupervisorCall Unit TokioSupervisor Exits →
      SerialLabel SupervisorSig ExitEvent SupervisorCall → Prop) :=
  SerialReach tokioWorld (SupervisorCall.prog timeout) beginTokio ok (serialStart {} {})

/-- Between operations a stopped or failed worker has no child, and after `reap_crashed`
no ready worker has one that had exited. -/
theorem table_agrees {timeout : Nat} {c : Conf SupervisorSig SupervisorCall Unit TokioSupervisor Exits}
    (hr : TokioRun timeout SpawnsFresh c) (hidle : c.Idle) :
    TableAgrees (c.loc ()).workers ∧
    (c.prog () = some (.done .reapCrashed) → ∀ id, ((c.loc ()).workers.status id).state = .ready →
      (c.loc ()).workers.children id = true → (c.loc ()).exitedBefore ((c.loc ()).process id) = false) := by
  have hkept : Kept (tokioWorld.restrict SupervisorOp.spawnsFresh) Tabled (fun _ l => Tabled l)
      (fun done l => Tabled l ∧ (done = .reapCrashed → NoneExited l)) c := by
    refine SerialReach.kept (J := Tabled) SupervisorOp.spawnsFresh ?_ (fun _ _ _ h => h) ?_ (fun _ _ h => And.left h) ?_ hr
    · constructor
      · intro id h; cases h
      · intro id h; cases h
    · intro call g l h
      exact keepsTable_call timeout call h
    · intro o l h _
      cases o with
      | spawn planned =>
        show Tabled (if planned.launch.isInProcess then l else _)
        by_cases hin : planned.launch.isInProcess = true
        · rw [if_pos hin]; exact h
        · rw [if_neg hin]; exact h.removeChild
      | stop id => exact h.removeChild
      | _ => exact h
  refine ⟨(hkept.of_idle (fun _ _ h => h.1) hidle).1, fun hdone id _ hchild => ?_⟩
  unfold Kept at hkept
  rw [hdone] at hkept
  exact hkept.2 rfl id hchild

instance {α : Type} (c : Conf SupervisorSig α Unit TokioSupervisor Exits)
    (l : SerialLabel SupervisorSig ExitEvent SupervisorCall) : Decidable (SpawnsFresh c l) :=
  match l with
  | .step (.answer _ o _) => inferInstanceAs (Decidable (o.spawnsFresh (c.loc ()) = true))
  | .step (.drop _) | .step (.env _) | .start _ => .isTrue trivial

/-- The answers where every call that can succeed does. -/
def SupervisorOp.runs : (o : SupervisorOp) → TokioSupervisor → SupervisorSig.Ans o
  | .spawn planned, _ => if planned.launch.isInProcess then .error "not available" else .ok 1
  | .pollExited, l => l.known.filter l.workers.children
  | o, l => o.succeed l.workers

def returned (call : SupervisorCall) (c : Conf SupervisorSig SupervisorCall Unit TokioSupervisor Exits) : Bool :=
  (c.prog ()).any fun
    | .done done => decide (done = call)
    | .call .. => false

theorem prog_of_returned {call : SupervisorCall} {c : Conf SupervisorSig SupervisorCall Unit TokioSupervisor Exits}
    (h : returned call c = true) : c.prog () = some (.done call) := by
  obtain ⟨p, hp, hdone⟩ := Option.any_eq_true _ _ |>.mp h
  cases p with
  | done done => rw [hp, of_decide_eq_true hdone]
  | call o k => cases hdone

theorem idle_of_returned {call : SupervisorCall} {c : Conf SupervisorSig SupervisorCall Unit TokioSupervisor Exits}
    (h : returned call c = true) : c.Idle := by
  intro o k hp
  rw [prog_of_returned h] at hp
  cases hp

/-- A worker crashes and is reaped. -/
theorem table_agrees_reaped : ∃ c, TokioRun 0 SpawnsFresh c ∧ c.prog () = some (.done .reapCrashed) ∧
    TableAgrees (c.loc ()).workers := by
  have hrun : ∃ c, TokioRun 0 SpawnsFresh c ∧ returned .reapCrashed c = true :=
    Conf.exists_serialReach ([.start (.start (subprocess "qwen"))] ++ List.replicate 6 (.answer SupervisorOp.runs) ++
      [.env (.exit 0), .start .reapCrashed] ++ List.replicate 4 (.answer SupervisorOp.runs)) (by decide)
  obtain ⟨c, hr, hdone⟩ := hrun
  exact ⟨c, hr, prog_of_returned hdone, (table_agrees hr (idle_of_returned hdone)).1⟩

/-- The binary of a running worker is gone: started again it fails, and its process stays. -/
theorem failed_keeps_child : ∃ c, TokioRun 0 (fun _ _ => True) c ∧ c.Idle ∧
    ((c.loc ()).workers.status "qwen").state = .failed ∧ (c.loc ()).workers.children "qwen" = true := by
  have hrun : ∃ c, TokioRun 0 (fun _ _ => True) c ∧
      (returned (.start { subprocess "qwen" with launch := .inProcess }) c = true ∧
        ((c.loc ()).workers.status "qwen").state = .failed ∧ (c.loc ()).workers.children "qwen" = true) :=
    Conf.exists_serialReach ([.start (.start (subprocess "qwen"))] ++ List.replicate 6 (.answer SupervisorOp.runs) ++
      [.start (.start { subprocess "qwen" with launch := .inProcess })] ++
      List.replicate 4 (.answer SupervisorOp.runs)) (by decide)
  obtain ⟨c, hr, hdone, hstate, hchild⟩ := hrun
  exact ⟨c, hr, idle_of_returned hdone, hstate, hchild⟩

end Llmctl
