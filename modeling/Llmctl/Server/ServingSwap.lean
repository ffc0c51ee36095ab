import Llmctl.Server.ServingNative

/-!
# The typestate of every process

What an operation under the supervisor's lock leaves to settle, and with it the
typestate of swaps and operators: every process of the server keeps `Serving`.
-/

namespace Llmctl

open Async

/-! ## The supervisor's operations -/

/-- An operation that changes no status and no gate. -/
def WorkerOp.Tends : WorkerOp → Prop
  | .lockSupervisor | .unlockSupervisor | .updateStatus .. | .stopAdmitting _ | .insertAdmission _ => False
  | _ => True

theorem spawn_all (planned : PlannedWorker) : (TokioWorkerRunner.spawn planned).All WorkerOp.Tends := by
  unfold TokioWorkerRunner.spawn
  split
  · trivial
  · refine ⟨trivial, fun found => ?_⟩
    cases found with
    | true => exact ⟨trivial, fun _ => ⟨trivial, fun _ => trivial⟩⟩
    | false => exact ⟨trivial, fun _ => trivial⟩

theorem runnerStop_all (id : String) : (TokioWorkerRunner.stop id).All WorkerOp.Tends := by
  refine ⟨trivial, fun found => ?_⟩
  cases found with
  | true => exact ⟨trivial, fun _ => trivial⟩
  | false => trivial

theorem awaitDrained_all (gate deadline : Nat) : ∀ polls : Nat,
    (awaitDrained gate deadline polls).All WorkerOp.Tends
  | 0 => trivial
  | polls + 1 => by
    refine ⟨trivial, fun inFlight => ?_⟩
    show Prog.All _ (if inFlight = 0 then _ else _)
    split
    · trivial
    · refine ⟨trivial, fun now => ?_⟩
      show Prog.All _ (if now < deadline then _ else _)
      split
      · exact ⟨trivial, fun _ => awaitDrained_all gate deadline polls⟩
      · trivial

/-! ## Under the supervisor's lock -/

/-- At work under the lock, with a tenure that meets `P`. -/
def Managing (P : Tenure → Prop) (l : Local) : Prop :=
  ∃ tenure t, l = ⟨{}, { supervisor := some tenure }, t⟩ ∧ Fresh t ∧ P tenure

def Tenure.Only (id : String) (tenure : Tenure) : Prop := ∀ x ∈ tenure.unsettled, x = id

section
variable {R : Type} [DecidableEq R] {st : ServerState} {i : Proc R} {role : Role} {granted : Seen → Prop}
  {P Q : Tenure → Prop} {l : Local} {t : Trace}

theorem managing_quiet (hl : Managing P l) : Quiet l.holding := by
  obtain ⟨tenure, t, rfl, _, _⟩ := hl
  exact quiet_of_none

theorem managing_serving (hl : Managing P l) {o : WorkerOp} (ho : Ready st role (.worker o) l.holding) :
    Serving st role granted (.worker o) l := by
  obtain ⟨tenure, t, rfl, ht, _⟩ := hl
  exact ⟨ho, fun hp => absurd rfl hp, fun hd => absurd ht.decoded hd⟩

theorem managing_loc (hl : Managing P l) {o : WorkerOp} (a : WorkerSig.Ans o)
    (hPQ : ∀ tenure, P tenure → ∃ tenure', o.tenure (some tenure) = some tenure' ∧ Q tenure') :
    Managing Q (ServerOp.loc (.worker o) a l) := by
  obtain ⟨tenure, t, rfl, ht, hP⟩ := hl
  obtain ⟨tenure', he, hQ⟩ := hPQ tenure hP
  refine ⟨tenure', ServerOp.trace (.worker o) a t, ?_, ⟨ht.decoded, ht.usage⟩, hQ⟩
  simp only [ServerOp.loc, ServerOp.holding, he]

theorem managing_some (hl : Managing P l) : l.holding.supervisor ≠ none := by
  obtain ⟨tenure, t, rfl, _, _⟩ := hl
  exact Option.some_ne_none _

/-- A change of status, with what it leaves to settle. -/
theorem updateStatus_always {α : Type} {Ψ : α → Local → Prop} (hsup : role.supervises = true) (hl : Managing P l)
    (id : String) {change : StatusChange} (hready : change ≠ .ready)
    (hPQ : ∀ tenure, P tenure → Q { tenure with unsettled := change.unsettled id tenure.unsettled })
    (rest : WorkerStatus → WorkerProg α) (hrest : ∀ status l', Managing Q l' →
      Always (serverWorld R st) i (Serving st role granted) Ψ (supervisor (rest status)) l') :
    Always (serverWorld R st) i (Serving st role granted) Ψ (supervisor (updateStatus id change >>= rest)) l := by
  refine ⟨managing_serving hl ?_, fun status _ _ => ?_⟩
  · cases change with
    | ready => exact absurd rfl hready
    | _ => exact ⟨managing_quiet hl, managing_some hl, hsup⟩
  · exact hrest status _ (managing_loc hl status fun tenure hP => ⟨_, rfl, hPQ tenure hP⟩)

theorem stopAdmitting_always {α : Type} {Ψ : α → Local → Prop} (hsup : role.supervises = true) {id : String}
    (hl : Managing (Tenure.Only id) l) {rest : Unit → WorkerProg α} (hrest : ∀ x l', Managing (Tenure.Only id) l' →
      Always (serverWorld R st) i (Serving st role granted) Ψ (supervisor (rest x)) l') :
    Always (serverWorld R st) i (Serving st role granted) Ψ (supervisor (stopAdmitting id >>= rest)) l := by
  refine ⟨managing_serving hl ⟨managing_quiet hl, managing_some hl, hsup⟩, fun x _ _ => ?_⟩
  refine hrest x _ (managing_loc hl x fun tenure hP => ⟨_, rfl, ?_⟩)
  intro y hy
  rcases List.mem_insert_iff.mp hy with rfl | hy
  · rfl
  · exact hP y hy

/-- What the runner does is no change to what is left to settle. -/
theorem tending_always {α β : Type} {Ψ : β → Local → Prop} (hsup : role.supervises = true) (hl : Managing P l)
    {p : WorkerProg α} (hp : p.All WorkerOp.Tends) {rest : α → WorkerProg β} (hrest : ∀ a l', Managing P l' →
      Always (serverWorld R st) i (Serving st role granted) Ψ (supervisor (rest a)) l') :
    Always (serverWorld R st) i (Serving st role granted) Ψ (supervisor (p >>= rest)) l := by
  unfold supervisor
  rw [Prog.lift_bind]
  refine (Always.lifted (P := Managing P) ?_ ?_ hp hl).seq fun a l' hl' => hrest a l' hl'
  · intro o l ho hl
    apply managing_serving hl
    cases o with
    | getAdmission id => exact managing_quiet hl
    | lockSupervisor | unlockSupervisor | updateStatus | stopAdmitting | insertAdmission => exact ho.elim
    | _ => exact ⟨managing_quiet hl, managing_some hl, hsup⟩
  · intro o a l ho hl
    refine managing_loc hl a fun tenure hP => ⟨tenure, ?_, hP⟩
    cases o with
    | lockSupervisor | unlockSupervisor | updateStatus | stopAdmitting | insertAdmission => exact ho.elim
    | _ => rfl

/-! ## Starts, drains, stops -/

variable {α : Type} {Ψ : α → Local → Prop} {id : String}

theorem Tenure.only_insert {tenure : Tenure} (h : tenure.Only id) (opened : Option String) :
    Tenure.Only id ⟨tenure.unsettled.insert id, opened⟩ := by
  intro x hx
  rcases List.mem_insert_iff.mp hx with rfl | hx
  · rfl
  · exact h x hx

theorem Tenure.only_filter {tenure : Tenure} (h : tenure.Only id) :
    tenure.unsettled.filter (· != id) = [] := by
  rw [List.filter_eq_nil_iff]
  intro x hx
  simp [h x hx]

def Tenure.Settled (tenure : Tenure) : Prop := tenure.unsettled = []

theorem Tenure.Settled.only {tenure : Tenure} (h : tenure.Settled) (id : String) : tenure.Only id := by
  intro x hx
  rw [h] at hx
  cases hx

theorem Managing.mono (hl : Managing P l) (hPQ : ∀ tenure, P tenure → Q tenure) : Managing Q l := by
  obtain ⟨tenure, t, rfl, ht, hP⟩ := hl
  exact ⟨tenure, t, rfl, ht, hPQ tenure hP⟩

/-- The last change of a start or a stop settles its worker. -/
theorem settle_always (hsup : role.supervises = true) (hl : Managing (Tenure.Only id) l) {change : StatusChange}
    (hready : change ≠ .ready) (hsettles : ∀ ids, change.unsettled id ids = ids.filter (· != id)) :
    Always (serverWorld R st) i (Serving st role granted) (fun _ l => Managing Tenure.Settled l)
      (supervisor (updateStatus id change)) l := by
  refine updateStatus_always hsup hl id hready (fun tenure hP => ?_) .done fun _ l' hl' => hl'
  show change.unsettled id tenure.unsettled = []
  rw [hsettles]
  exact Tenure.only_filter hP

theorem start_always (hsup : role.supervises = true) (hstarts : role.starts = true) (planned : PlannedWorker)
    (hl : Managing (Tenure.Only planned.worker.id) l) :
    Always (serverWorld R st) i (Serving st role granted) (fun _ l => Managing Tenure.Settled l)
      (supervisor (start planned)) l := by
  have hkeep : ∀ (change : StatusChange) (tenure : Tenure), tenure.Only planned.worker.id →
      change.unsettled planned.worker.id tenure.unsettled = tenure.unsettled.insert planned.worker.id →
      Tenure.Only planned.worker.id
        { tenure with unsettled := change.unsettled planned.worker.id tenure.unsettled } := by
    intro change tenure hP he
    rw [he]
    exact Tenure.only_insert hP tenure.opened
  have hfailed : ∀ error l', Managing (Tenure.Only planned.worker.id) l' →
      Always (serverWorld R st) i (Serving st role granted) (fun _ l => Managing Tenure.Settled l)
        (supervisor (do stopAdmitting planned.worker.id; updateStatus planned.worker.id (.startFailed error))) l' := by
    intro error l' hl'
    exact stopAdmitting_always hsup hl' fun _ l'' hl'' => settle_always hsup hl'' (by simp) fun _ => rfl
  refine updateStatus_always hsup hl _ (by simp) (fun tenure hP => hkeep .starting tenure hP rfl) _ fun _ l₁ hl₁ => ?_
  refine tending_always hsup hl₁ (spawn_all planned) fun spawned l₂ hl₂ => ?_
  cases spawned with
  | error error => exact hfailed error l₂ hl₂
  | ok pid =>
    refine updateStatus_always hsup hl₂ _ (by simp) (fun tenure hP => hkeep (.warming pid) tenure hP rfl) _
      fun _ l₃ hl₃ => ?_
    refine tending_always hsup hl₃ (TokioWorkerRunner.waitReadyFor_all (fun _ => trivial) trivial (fun _ => trivial) planned _) fun ready l₄ hl₄ => ?_
    cases ready with
    | error error => exact tending_always hsup hl₄ (runnerStop_all _) fun _ l₅ hl₅ => hfailed error l₅ hl₅
    | ok _ =>
      refine ⟨managing_serving hl₄ ⟨managing_quiet hl₄, managing_some hl₄, hsup, hstarts⟩, fun x _ _ => ?_⟩
      obtain ⟨tenure, t, rfl, ht, hP⟩ := hl₄
      refine ⟨⟨⟨quiet_of_none, hsup, _, rfl, rfl⟩, fun hp => absurd rfl hp, fun hd => absurd ht.decoded hd⟩, fun _ _ _ => ?_⟩
      exact ⟨_, _, rfl, ⟨ht.decoded, ht.usage⟩, Tenure.only_filter hP⟩

theorem drain_always (hsup : role.supervises = true) (hl : Managing (Tenure.Only id) l) :
    Always (serverWorld R st) i (Serving st role granted) (fun _ l => Managing (Tenure.Only id) l)
      (supervisor (drain id)) l := by
  have hdraining : ∀ l', Managing (Tenure.Only id) l' → Always (serverWorld R st) i (Serving st role granted)
      (fun _ l => Managing (Tenure.Only id) l) (supervisor (updateStatus id .draining)) l' := by
    intro l' hl'
    exact updateStatus_always hsup hl' id (by simp)
      (fun tenure hP => Tenure.only_insert hP tenure.opened) .done fun _ _ hl'' => hl''
  refine stopAdmitting_always hsup hl fun _ l₁ hl₁ => ?_
  refine tending_always (p := Prog.op (S := WorkerSig) (.getAdmission id)) hsup hl₁ ⟨trivial, fun _ => trivial⟩
    fun gate l₂ hl₂ => ?_
  cases gate with
  | none => exact hdraining l₂ hl₂
  | some gate =>
    refine tending_always (p := Prog.op (S := WorkerSig) .instant) hsup hl₂ ⟨trivial, fun _ => trivial⟩ fun now l₃ hl₃ => ?_
    exact tending_always hsup hl₃ (awaitDrained_all gate _ _) fun _ l₄ hl₄ => hdraining l₄ hl₄

theorem stop_always (hsup : role.supervises = true) (hl : Managing (Tenure.Only id) l) :
    Always (serverWorld R st) i (Serving st role granted) (fun _ l => Managing Tenure.Settled l)
      (supervisor (stop id)) l := by
  refine stopAdmitting_always hsup hl fun _ l₁ hl₁ => ?_
  refine updateStatus_always hsup hl₁ id (by simp) (fun tenure hP => Tenure.only_insert hP tenure.opened) _
    fun _ l₂ hl₂ => ?_
  refine tending_always hsup hl₂ (runnerStop_all id) fun stopped l₃ hl₃ => ?_
  cases stopped with
  | ok _ => exact settle_always hsup hl₃ (by simp) fun _ => rfl
  | error error => exact settle_always hsup hl₃ (by simp) fun _ => rfl

/-! ## Swaps and operators -/

theorem executeSwap_always (hsup : role.supervises = true) (hstarts : role.starts = true) (mode : SwapMode)
    (active : String) (replacement : PlannedWorker) (budget : Option SwapBudget)
    (hl : Managing Tenure.Settled l) :
    Always (serverWorld R st) i (Serving st role granted) (fun _ l => Managing Tenure.Settled l)
      (supervisor (executeSwapWithBudget mode active replacement budget)) l := by
  have honly : ∀ {id l'}, Managing Tenure.Settled l' → Managing (Tenure.Only id) l' :=
    fun h => h.mono fun _ hs => hs.only _
  unfold executeSwapWithBudget
  split
  · unfold executeColdSwap supervisor
    rw [Prog.lift_bind]
    refine (drain_always hsup (honly hl)).seq fun drained l₁ hl₁ => ?_
    rw [Prog.lift_bind]
    refine (stop_always hsup hl₁).seq fun stopped l₂ hl₂ => ?_
    split
    · exact hl₂
    · rw [Prog.lift_bind]
      exact (start_always hsup hstarts replacement (honly hl₂)).seq fun _ l₃ hl₃ => hl₃
  · unfold executeHotSwap supervisor
    rw [Prog.lift_bind]
    refine (start_always hsup hstarts replacement (honly hl)).seq fun started l₁ hl₁ => ?_
    split
    · exact hl₁
    · rw [Prog.lift_bind]
      refine (drain_always hsup (honly hl₁)).seq fun drained l₂ hl₂ => ?_
      rw [Prog.lift_bind]
      exact (stop_always hsup hl₂).seq fun _ l₃ hl₃ => hl₃

theorem underLock_always {β : Type} {Ψ : β → Local → Prop} (ht : Fresh t) {p : WorkerProg α} {P : Tenure → Prop}
    (hp : ∀ l, Managing Tenure.Settled l →
      Always (serverWorld R st) i (Serving st role granted) (fun _ l => Managing P l) (supervisor p) l)
    (hP : ∀ tenure, role.starts = true → P tenure → tenure.unsettled = [])
    {rest : α → ServerProg β} (hrest : ∀ a t', Fresh t' →
      Always (serverWorld R st) i (Serving st role granted) Ψ (rest a) ⟨{}, {}, t'⟩) :
    Always (serverWorld R st) i (Serving st role granted) Ψ
      (do
        op (.worker .lockSupervisor)
        let a ← supervisor p
        op (.worker .unlockSupervisor)
        rest a) ⟨{}, {}, t⟩ := by
  refine Always.op ⟨⟨quiet_of_none, rfl⟩, fun hp => absurd rfl hp, fun hd => absurd ht.decoded hd⟩ fun x _ _ => ?_
  refine (hp _ ⟨{}, ServerOp.trace (.worker .lockSupervisor) x t, rfl, ht, rfl⟩).seq fun a l hl => ?_
  obtain ⟨tenure, t', rfl, ht', htenure⟩ := hl
  refine Always.op ⟨⟨quiet_of_none, tenure, rfl, fun hs => hP tenure hs htenure⟩, fun hp => absurd rfl hp,
    fun hd => absurd ht'.decoded hd⟩ fun x _ _ => ?_
  exact hrest a (ServerOp.trace (.worker .unlockSupervisor) x t') ht'

theorem adminSwap_always (request : AdminSwapRequest) (hrole : role = (Input.swap request).role st) (ht : Fresh t) :
    Always (serverWorld R st) i (Serving st role granted) (Responds R st i role granted) (adminSwap st request)
      ⟨{}, {}, t⟩ := by
  have hrejected : ∀ principal outcome reason status code message, Always (serverWorld R st) i
      (Serving st role granted) (Responds R st i role granted)
      (swapRejected request principal outcome reason (errorResponse status code message)) ⟨{}, {}, t⟩ :=
    fun principal outcome reason status code message => auditReject_always rfl ht _ _ _ _ _ _ _ _ _
  refine Always.op ⟨quiet_of_none, fun hp => absurd rfl hp, fun hd => absurd ht.decoded hd⟩ ?_
  intro r _ _
  cases r with
  | error err =>
    exact returns_of_whole (R := R) ((authErrorResponse_whole err).withRequestId _) ⟨rfl, fun hd => absurd ht.decoded hd⟩
  | ok principal =>
    simp only
    split
    · exact hrejected _ _ _ _ _ _
    · split
      · exact hrejected _ _ _ _ _ _
      · split
        · exact hrejected _ _ _ _ _ _
        · refine underLock_always (t := t) ht (fun l hl => executeSwap_always (by rw [hrole]; rfl) (by rw [hrole]; rfl)
            _ _ _ _ hl) (fun _ _ hs => hs) ?_
          intro execution t' hf
          refine recordAudit_fresh rfl hf _ _ _ _ _ _ ?_
          intro t'' hf'
          exact returns_of_whole (R := R) (fun _ he => by cases he) ⟨rfl, fun hd => absurd hf'.decoded hd⟩

theorem underSupervisorLock_always {p : WorkerProg WorkerStatus} (ht : Fresh t) (hstarts : role.starts = false)
    (hp : ∀ l, Managing Tenure.Settled l →
      Always (serverWorld R st) i (Serving st role granted) (fun _ l => Managing (fun _ => True) l) (supervisor p) l) :
    Always (serverWorld R st) i (Serving st role granted) Served (underSupervisorLock p) ⟨{}, {}, t⟩ := by
  refine underLock_always ht hp (fun _ hs => by rw [hstarts] at hs; cases hs) fun _ t' hf => ?_
  exact ⟨rfl, fun hd => absurd hf.decoded hd⟩

/-! ## Every process -/

theorem detachedTask_always :
    Always (serverWorld R st) i (Serving st {} fun _ => True) Served detachedTask {} := by
  refine Always.op ⟨rfl, fun hp => absurd rfl hp, fun hd => absurd rfl hd⟩ ?_
  intro job _ _
  cases job with
  | decode context request =>
    apply (streamTask_always (c := {}) (t := {}) rfl trivial context.admission rfl rfl context
      request).seq
    intro _ l hl
    exact hl
  | disconnect data =>
    have hr : Resting (fun _ => True) {} {} := ⟨rfl, quiet_of_none, fun _ => trivial⟩
    refine Always.bind ?_
    apply (elapsedMs_always (t := {}) hr (fun hd => absurd rfl hd) _).seq
    rintro _ _ rfl
    refine Always.recorded (recordUsage_always hr (fun hd => absurd rfl hd) _) ?_
    intro _ t₁ ht₁
    have hn₁ : t₁.decoded = [] := ht₁.decoded
    refine (recordAudit_always hr (fun hd => absurd hn₁ hd) _ _ _ _ _ _).mono (fun _ _ hΦ => hΦ) ?_
    intro _ l hl
    obtain ⟨t₂, rfl, ht₂⟩ := hl
    exact ⟨rfl, fun hd => absurd (ht₂.decoded.trans hn₁) hd⟩

theorem serve_always (input : Input) (hrole : role = input.role st) :
    Always (serverWorld R st) i (Serving st role input.admitted) Served (input.serve st) {} := by
  have ht : Fresh {} := ⟨rfl, rfl⟩
  cases input with
  | chat request => exact Always.bind (chatCompletions_always request (fun _ hs => hs) ht hrole)
  | embeddings request => exact Always.bind (nativeEmbeddings_always request hrole ht)
  | swap request => exact Always.bind (adminSwap_always request hrole ht)
  | drain id =>
    have hsup : role.supervises = true := by rw [hrole]; rfl
    refine underSupervisorLock_always ht (by rw [hrole]; rfl) fun l hl => ?_
    refine (drain_always hsup (hl.mono fun _ hs => hs.only id)).mono (fun _ _ hΦ => hΦ) ?_
    exact fun _ _ hl' => hl'.mono fun _ _ => trivial
  | stop id =>
    have hsup : role.supervises = true := by rw [hrole]; rfl
    refine underSupervisorLock_always ht (by rw [hrole]; rfl) fun l hl => ?_
    refine (stop_always hsup (hl.mono fun _ hs => hs.only id)).mono (fun _ _ hΦ => hΦ) ?_
    exact fun _ _ hl' => hl'.mono fun _ _ => trivial

theorem serverStart_typed (st : ServerState) (workers : Workers) (inputs : R → Input) :
    Typed (serverWorld R st) (Proc.serving st inputs) (fun _ => Served) (serverStart st workers inputs) := by
  intro i p hp
  cases i with
  | request r =>
    cases hp
    exact serve_always (inputs r) rfl
  | task r =>
    cases hp
    exact detachedTask_always

theorem holding_of_dropped {workers : Workers} {inputs : R → Input}
    {ok : ServerConf R → Label ServerSig (Proc R) (ServerEvent R) → Prop} {c : ServerConf R}
    (hr : Reach (serverWorld R st) ok (serverStart st workers inputs) c) (hi : c.prog i = none) :
    (c.loc i).holding = {} := by
  refine (serverStart_typed st workers inputs).dropped (D := fun _ l => l.holding = {}) ?_ ?_ hr hi
  · intro j _
    rfl
  · intro c j o _ _ _
    rfl

/-- What is held is held by a process that still runs. -/
theorem running_of_holding {workers : Workers} {inputs : R → Input}
    {ok : ServerConf R → Label ServerSig (Proc R) (ServerEvent R) → Prop} {c : ServerConf R}
    (hr : Reach (serverWorld R st) ok (serverStart st workers inputs) c)
    (hi : (c.loc i).holding ≠ {}) : ∃ o k, c.prog i = some (.call o k) := by
  cases hp : c.prog i with
  | none => exact absurd (holding_of_dropped hr hp) hi
  | some p =>
    cases p with
    | done r => exact absurd ((serverStart_typed st workers inputs).reach hr i _ hp).1 hi
    | call o k => exact ⟨o, k, rfl⟩

end

end Llmctl
