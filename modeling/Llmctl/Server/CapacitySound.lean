import Llmctl.Server.DrainSound
import Llmctl.Server.HandoverSound
import Llmctl.Server.Limits
import Llmctl.Server.PermitSound
import Llmctl.Traffic.BalanceSound

/-!
# What the server gives out and gets back

Every permit, slot, place in a queue, entry into a worker's gate and the supervisor's
lock is held by a process or waits with a job, and by nobody else. So a server at rest
has all of them back.
-/

namespace Llmctl

open Async

/-! ## What is held -/

def Holding.permitsOut (h : Holding) : Multiset AdmissionPermit :=
  match h.permit with
  | some permit => {permit}
  | none => 0

def Job.permitsOut : Option Job → Multiset AdmissionPermit
  | some (.decode context _) => {context.admission}
  | _ => 0

def Holding.places (h : Holding) (e : String) : Nat := if h.queued = some e then 1 else 0

def Holding.locks (h : Holding) : Nat := if h.supervisor = none then 0 else 1

theorem permitsOut_none {h : Holding} (hp : h.permit = none) : h.permitsOut = 0 := by simp [Holding.permitsOut, hp]

theorem permitsOut_some {h : Holding} {permit : AdmissionPermit} (hp : h.permit = some permit) :
    h.permitsOut = {permit} := by simp [Holding.permitsOut, hp]

section
variable {R : Type} [DecidableEq R] [Fintype R] {st : ServerState} {inputs : R → Input}
  {loc : Proc R → Local} {g g' : Server R} {i : Proc R} {l : Local}

def permitsOut (loc : Proc R → Local) (jobs : R → Option Job) : Multiset AdmissionPermit :=
  ∑ i, (loc i).holding.permitsOut + ∑ r, Job.permitsOut (jobs r)

structure Conserved (st : ServerState) (loc : Proc R → Local) (g : Server R) : Prop where
  permits : g.admission.Balanced st.maxInFlight (permitsOut loc g.jobs)
  slots : ∀ e, Tallied (fun l : Local => l.holding.slots e) loc (g.slots e)
  places : ∀ e, Tallied (fun l : Local => l.holding.places e) loc (g.waiting e)
  guards : ∀ gate, Tallied (fun l : Local => l.holding.guards gate) loc (g.inFlight gate)
  lock : Tallied (fun l : Local => l.holding.locks) loc (if g.supervisorLocked = true then 1 else 0)

/-! ## Permits -/

omit [Fintype R] in
theorem sum_permitsOut_update [Fintype R] (loc : Proc R → Local) (i : Proc R) (l : Local) :
    ∑ j, ((Function.update loc i l) j).holding.permitsOut + (loc i).holding.permitsOut =
      ∑ j, (loc j).holding.permitsOut + l.holding.permitsOut :=
  sum_update_add (fun l : Local => l.holding.permitsOut) loc i l

theorem permitsOut_take {permit : AdmissionPermit} (hnone : (loc i).holding.permit = none)
    (hsome : l.holding.permit = some permit) (jobs : R → Option Job) :
    permitsOut (Function.update loc i l) jobs = permitsOut loc jobs + {permit} := by
  have hsum := sum_permitsOut_update loc i l
  rw [permitsOut_none hnone, permitsOut_some hsome, add_zero] at hsum
  unfold permitsOut
  rw [hsum]
  exact add_right_comm _ _ _

theorem permitsOut_give {permit : AdmissionPermit} (hsome : (loc i).holding.permit = some permit)
    (hnone : l.holding.permit = none) (jobs : R → Option Job) :
    permitsOut (Function.update loc i l) jobs + {permit} = permitsOut loc jobs := by
  have hsum := sum_permitsOut_update loc i l
  rw [permitsOut_none hnone, permitsOut_some hsome, add_zero] at hsum
  unfold permitsOut
  rw [← hsum]
  exact add_right_comm _ _ _

theorem permitsOut_keep (hsame : l.holding.permit = (loc i).holding.permit) (jobs : R → Option Job) :
    permitsOut (Function.update loc i l) jobs = permitsOut loc jobs := by
  have hsum := sum_permitsOut_update loc i l
  have hout : l.holding.permitsOut = (loc i).holding.permitsOut := by simp [Holding.permitsOut, hsame]
  rw [hout] at hsum
  unfold permitsOut
  rw [add_right_cancel hsum]

theorem balanced_keep {c : AdmissionController} {maxInFlight : Nat} {jobs : R → Option Job}
    (h : c.Balanced maxInFlight (permitsOut loc jobs)) (hsame : l.holding.permit = (loc i).holding.permit) :
    c.Balanced maxInFlight (permitsOut (Function.update loc i l) jobs) := by
  rw [permitsOut_keep hsame]
  exact h

theorem permitsOut_jobs (loc : Proc R → Local) (jobs : R → Option Job) (r : R) (job : Option Job) :
    permitsOut loc (Function.update jobs r job) + Job.permitsOut (jobs r) = permitsOut loc jobs + Job.permitsOut job := by
  have hsum := sum_update_add Job.permitsOut jobs r job
  unfold permitsOut
  rw [add_assoc, add_assoc, hsum]

/-! ## One step -/

theorem Conserved.update (h : Conserved st loc g)
    (hpermits : g'.admission.Balanced st.maxInFlight (permitsOut (Function.update loc i l) g'.jobs))
    (hslots : ∀ e, (loc i).holding.slots e + g'.slots e = l.holding.slots e + g.slots e)
    (hplaces : ∀ e, (loc i).holding.places e + g'.waiting e = l.holding.places e + g.waiting e)
    (hguards : ∀ gate, (loc i).holding.guards gate + g'.inFlight gate = l.holding.guards gate + g.inFlight gate)
    (hlock : (loc i).holding.locks + (if g'.supervisorLocked = true then 1 else 0) =
      l.holding.locks + if g.supervisorLocked = true then 1 else 0) :
    Conserved st (Function.update loc i l) g' where
  permits := hpermits
  slots e := (h.slots e).update (hslots e)
  places e := (h.places e).update (hplaces e)
  guards gate := (h.guards gate).update (hguards gate)
  lock := h.lock.update hlock

theorem conserved_permit (h : Conserved st loc g) {o : PermitOp} {a : ServerSig.Ans (.permit o)}
    (hserving : i.serving st inputs (.permit o) (loc i))
    (hc : (serverWorld R st).can i (.permit o) a (loc i) g = true) :
    Conserved st (Function.update loc i ((serverWorld R st).loc i (.permit o) a (loc i)))
      ((serverWorld R st).sh i (.permit o) a (loc i) g) := by
  refine h.update ?_ (fun _ => rfl) (fun _ => rfl) (fun _ => rfl) rfl
  cases o with
  | tryAcquireForAll scopes =>
    have ha : a = (g.admission.tryAcquireForAll scopes).1 := by simpa [serverWorld, ServerOp.can] using hc
    have htake := h.permits.tryAcquireForAll scopes
    show (g.admission.tryAcquireForAll scopes).2.Balanced _ (permitsOut _ g.jobs)
    cases a with
    | true =>
      rw [← ha, if_pos rfl] at htake
      rw [permitsOut_take hserving.1.2.1 rfl]
      exact htake
    | false =>
      apply balanced_keep ?_ rfl
      rw [← ha] at htake
      simpa using htake
  | drop =>
    obtain ⟨permit, hp⟩ := Option.ne_none_iff_exists'.mp hserving.1.2
    have hsh : ((serverWorld R st).sh i (.permit .drop) a (loc i) g).admission = g.admission.release permit := by
      simp [serverWorld, ServerOp.sh, PermitOp.sh, hp]
    rw [hsh]
    apply AdmissionController.Balanced.release
    have hgive := permitsOut_give (l := (serverWorld R st).loc i (.permit .drop) a (loc i)) hp rfl g.jobs
    show g.admission.Balanced _ (permitsOut _ g.jobs + {permit})
    rw [hgive]
    exact h.permits

theorem conserved_task (h : Conserved st loc g) {o : TaskOp} {a : ServerSig.Ans (.task o)}
    (hserving : i.serving st inputs (.task o) (loc i))
    (hc : (serverWorld R st).can i (.task o) a (loc i) g = true)
    (hfree : ∀ job, o = .spawn job → ∃ r, i = .request r ∧ g.jobs r = none) :
    Conserved st (Function.update loc i ((serverWorld R st).loc i (.task o) a (loc i)))
      ((serverWorld R st).sh i (.task o) a (loc i) g) := by
  refine h.update ?_ (fun _ => rfl) (fun _ => rfl) (fun _ => rfl) rfl
  cases o with
  | spawn job =>
    obtain ⟨r, hi, hnone⟩ := hfree job rfl
    subst hi
    cases job with
    | disconnect data => exact hserving.1.elim
    | decode context request =>
      have hgive := permitsOut_give (l := (serverWorld R st).loc (.request r) (.task (.spawn (.decode context request))) a
        (loc (.request r))) hserving.1.2.1 rfl g.jobs
      have hjobs := permitsOut_jobs (Function.update loc (.request r)
        ((serverWorld R st).loc (.request r) (.task (.spawn (.decode context request))) a (loc (.request r))))
        g.jobs r (some (.decode context request))
      rw [hnone] at hjobs
      have hout : permitsOut (Function.update loc (.request r)
          ((serverWorld R st).loc (.request r) (.task (.spawn (.decode context request))) a (loc (.request r))))
          (Function.update g.jobs r (some (.decode context request))) = permitsOut loc g.jobs := by
        rw [← hgive]
        simpa [Job.permitsOut] using hjobs
      show g.admission.Balanced _ (permitsOut _ (Function.update g.jobs r (some (.decode context request))))
      rw [hout]
      exact h.permits
  | start =>
    cases i with
    | request r => cases hc
    | task r =>
      have hjob : g.jobs r = some a := by simpa [serverWorld, ServerOp.can, Server.job] using hc
      have hnone : (loc (.task r)).holding.permit = none := by rw [hserving.1]
      have hjobs := permitsOut_jobs (Function.update loc (.task r)
        ((serverWorld R st).loc (.task r) (.task .start) a (loc (.task r)))) g.jobs r none
      have hout : permitsOut (Function.update loc (.task r)
          ((serverWorld R st).loc (.task r) (.task .start) a (loc (.task r)))) (Function.update g.jobs r none) =
          permitsOut loc g.jobs := by
        cases a with
        | decode context request =>
          have htake : permitsOut (Function.update loc (.task r)
              ((serverWorld R st).loc (.task r) (.task .start) (.decode context request) (loc (.task r)))) g.jobs =
              permitsOut loc g.jobs + {context.admission} := permitsOut_take hnone rfl g.jobs
          rw [hjob, htake] at hjobs
          simpa [Job.permitsOut] using hjobs
        | disconnect data =>
          have hkeep : permitsOut (Function.update loc (.task r)
              ((serverWorld R st).loc (.task r) (.task .start) (.disconnect data) (loc (.task r)))) g.jobs =
              permitsOut loc g.jobs := permitsOut_keep rfl g.jobs
          rw [hjob, hkeep] at hjobs
          simpa [Job.permitsOut] using hjobs
      show g.admission.Balanced _ (permitsOut _ (Function.update g.jobs r none))
      rw [hout]
      exact h.permits
  | _ => exact balanced_keep h.permits rfl

/-- A unit that is taken or given back moves between one table entry and one holding. -/
theorem update_take {f : String → Nat} {held : Option String} {e : String} (hnone : held = none) (e' : String) :
    (if held = some e' then 1 else 0) + Function.update f e (f e + 1) e' = (if some e = some e' then 1 else 0) + f e' := by
  subst hnone
  by_cases he : e' = e
  · subst he
    simp [Nat.add_comm]
  · simp [he, Ne.symm he]

theorem update_give {f : String → Nat} {held : Option String} {e : String} (hsome : held = some e) (hpos : 0 < f e)
    (e' : String) :
    (if held = some e' then 1 else 0) + Function.update f e (f e - 1) e' = (if (none : Option String) = some e' then 1 else 0) + f e' := by
  subst hsome
  by_cases he : e' = e
  · subst he
    simp
    omega
  · simp [he, Ne.symm he]

omit [DecidableEq R] in
theorem slots_pos (h : Conserved st loc g) {e : String} (hs : (loc i).holding.slot = some e) : 0 < g.slots e := by
  have hle := (h.slots e).le (i := i)
  simp only [Holding.slots, hs, if_true] at hle
  exact hle

omit [DecidableEq R] in
theorem places_pos (h : Conserved st loc g) {e : String} (hq : (loc i).holding.queued = some e) : 0 < g.waiting e := by
  have hle := (h.places e).le (i := i)
  simp only [Holding.places, hq, if_true] at hle
  exact hle

theorem conserved_sched (h : Conserved st loc g) {o : SchedOp} {a : ServerSig.Ans (.sched o)}
    (hserving : i.serving st inputs (.sched o) (loc i)) :
    Conserved st (Function.update loc i ((serverWorld R st).loc i (.sched o) a (loc i)))
      ((serverWorld R st).sh i (.sched o) a (loc i) g) := by
  have hpermits : ((serverWorld R st).sh i (.sched o) a (loc i) g).admission.Balanced st.maxInFlight
      (permitsOut (Function.update loc i ((serverWorld R st).loc i (.sched o) a (loc i)))
        ((serverWorld R st).sh i (.sched o) a (loc i) g).jobs) := balanced_keep h.permits rfl
  cases o with
  | tryAcquire e =>
    cases a with
    | true => exact h.update hpermits (update_take hserving.1.slot) (fun _ => rfl) (fun _ => rfl) rfl
    | false => exact h.update hpermits (fun _ => rfl) (fun _ => rfl) (fun _ => rfl) rfl
  | acquire e => exact h.update hpermits (update_take hserving.1.slot) (fun _ => rfl) (fun _ => rfl) rfl
  | release e =>
    have hs : (loc i).holding.slot = some e := hserving.1.slot
    exact h.update hpermits (update_give hs (slots_pos h hs)) (fun _ => rfl) (fun _ => rfl) rfl
  | enterQueue e =>
    cases a with
    | true => exact h.update hpermits (fun _ => rfl) (update_take hserving.1.queued) (fun _ => rfl) rfl
    | false => exact h.update hpermits (fun _ => rfl) (fun _ => rfl) (fun _ => rfl) rfl
  | leaveQueue e =>
    have hq : (loc i).holding.queued = some e := hserving.1.queued
    exact h.update hpermits (fun _ => rfl) (update_give hq (places_pos h hq)) (fun _ => rfl) rfl
  | _ => exact h.update hpermits (fun _ => rfl) (fun _ => rfl) (fun _ => rfl) rfl

omit [DecidableEq R] in
theorem guards_pos (h : Conserved st loc g) {w : WorkerGuard} (hw : (loc i).holding.worker = some w) :
    0 < g.inFlight w.gate := by
  have hle := (h.guards w.gate).le (i := i)
  simp only [guards_some hw, if_true] at hle
  exact hle

omit [DecidableEq R] in
theorem guards_give (h : Conserved st loc g) {w : WorkerGuard} (hw : (loc i).holding.worker = some w)
    (hnone : l.holding.worker = none) (gate : Nat) :
    (loc i).holding.guards gate + Function.update g.inFlight w.gate (g.inFlight w.gate - 1) gate =
      l.holding.guards gate + g.inFlight gate := by
  have hpos := guards_pos h hw
  rw [guards_some hw, guards_none hnone]
  by_cases hg : w.gate = gate
  · subst hg
    simp
    omega
  · simp [hg, Ne.symm hg]

theorem conserved_gate (h : Conserved st loc g) {o : GateOp} {a : ServerSig.Ans (.gate o)}
    (hserving : i.serving st inputs (.gate o) (loc i)) :
    Conserved st (Function.update loc i ((serverWorld R st).loc i (.gate o) a (loc i)))
      ((serverWorld R st).sh i (.gate o) a (loc i) g) := by
  have hpermits : ((serverWorld R st).sh i (.gate o) a (loc i) g).admission.Balanced st.maxInFlight
      (permitsOut (Function.update loc i ((serverWorld R st).loc i (.gate o) a (loc i)))
        ((serverWorld R st).sh i (.gate o) a (loc i) g).jobs) := balanced_keep h.permits rfl
  refine h.update hpermits (fun _ => rfl) (fun _ => rfl) (fun gate => ?_) rfl
  cases o with
  | isAdmitting n => rfl
  | increment k n =>
    have hnone : (loc i).holding.worker = none := hserving.1.2.1
    rw [guards_none hnone, guards_some (w := ⟨k, n⟩) rfl]
    show 0 + Function.update g.inFlight n (g.inFlight n + 1) gate = _
    by_cases hg : n = gate
    · subst hg
      simp [Nat.add_comm]
    · simp [hg, Ne.symm hg]
  | decrement =>
    obtain ⟨w, hw⟩ := Option.ne_none_iff_exists'.mp hserving.1.2.1
    have hsh : ((serverWorld R st).sh i (.gate .decrement) a (loc i) g).inFlight =
        Function.update g.inFlight w.gate (g.inFlight w.gate - 1) := by
      simp [serverWorld, ServerOp.sh, GateOp.sh, hw]
    rw [hsh]
    exact guards_give h hw rfl gate

omit [DecidableEq R] in
theorem locked_of_tenure (h : Conserved st loc g) (hs : (loc i).holding.supervisor ≠ none) : g.supervisorLocked = true := by
  have hle := h.lock.le (i := i)
  by_contra hlocked
  simp [Holding.locks, hs, hlocked] at hle

theorem conserved_worker (h : Conserved st loc g) {o : WorkerOp} {a : ServerSig.Ans (.worker o)}
    (hserving : i.serving st inputs (.worker o) (loc i))
    (hc : (serverWorld R st).can i (.worker o) a (loc i) g = true) :
    Conserved st (Function.update loc i ((serverWorld R st).loc i (.worker o) a (loc i)))
      ((serverWorld R st).sh i (.worker o) a (loc i) g) := by
  have hpermits : ((serverWorld R st).sh i (.worker o) a (loc i) g).admission.Balanced st.maxInFlight
      (permitsOut (Function.update loc i ((serverWorld R st).loc i (.worker o) a (loc i)))
        ((serverWorld R st).sh i (.worker o) a (loc i) g).jobs) := balanced_keep h.permits rfl
  refine h.update hpermits (fun _ => rfl) (fun _ => rfl) (fun _ => rfl) ?_
  cases o with
  | lockSupervisor =>
    have hnone : (loc i).holding.supervisor = none := hserving.1.2
    have hunlocked : g.supervisorLocked = false := by simpa [serverWorld, ServerOp.can, WorkerOp.can] using hc
    simp [serverWorld, ServerOp.loc, ServerOp.holding, WorkerOp.tenure, ServerOp.sh, Holding.locks, hnone, hunlocked]
  | unlockSupervisor =>
    obtain ⟨tenure, hs, _⟩ := hserving.1.2
    have hlocked := locked_of_tenure h (i := i) (by simp [hs])
    simp [serverWorld, ServerOp.loc, ServerOp.holding, WorkerOp.tenure, ServerOp.sh, Holding.locks, hs, hlocked]
  | updateStatus id _ | stopAdmitting id | insertAdmission id =>
    simp [serverWorld, ServerOp.loc, ServerOp.holding, WorkerOp.tenure, ServerOp.sh, Holding.locks]
    rfl
  | _ => rfl

theorem conserved_answer (h : Conserved st loc g) {o : ServerOp} {a : ServerSig.Ans o}
    (hserving : i.serving st inputs o (loc i)) (hc : (serverWorld R st).can i o a (loc i) g = true)
    (hfree : ∀ job, o = .task (.spawn job) → ∃ r, i = .request r ∧ g.jobs r = none) :
    Conserved st (Function.update loc i ((serverWorld R st).loc i o a (loc i)))
      ((serverWorld R st).sh i o a (loc i) g) := by
  cases o with
  | permit o => exact conserved_permit h hserving hc
  | task o => exact conserved_task h hserving hc fun job ho => hfree job (by rw [ho])
  | sched o => exact conserved_sched h hserving
  | gate o => exact conserved_gate h hserving
  | worker o => exact conserved_worker h hserving hc
  | _ => exact h.update (balanced_keep h.permits rfl) (fun _ => rfl) (fun _ => rfl) (fun _ => rfl) rfl

/-! ## One drop -/

theorem permitsOut_drop (hfree : ∀ data, l.holding.guard = some data → ∃ r, i = .request r ∧ g.jobs r = none)
    (loc : Proc R → Local) (o : ServerOp) : permitsOut loc (g.drop i o l).jobs = permitsOut loc g.jobs := by
  cases hguard : l.holding.guard with
  | none => simp [Server.drop, hguard]
  | some data =>
    obtain ⟨r, hi, hnone⟩ := hfree data hguard
    subst hi
    have hjobs := permitsOut_jobs loc g.jobs r (some (.disconnect data))
    rw [hnone] at hjobs
    simpa [Server.drop, hguard, TaskOp.jobs, Job.permitsOut] using hjobs

theorem conserved_drop (h : Conserved st loc g) {o : ServerOp}
    (hfree : ∀ data, (loc i).holding.guard = some data → ∃ r, i = .request r ∧ g.jobs r = none) :
    Conserved st (Function.update loc i (loc i).drop) (g.drop i o (loc i)) := by
  refine h.update ?_ (fun e => ?_) (fun e => ?_) (fun gate => ?_) ?_
  · rw [permitsOut_drop hfree]
    cases hp : (loc i).holding.permit with
    | none =>
      simp only [Server.drop, hp]
      exact balanced_keep h.permits (by simp [Local.drop, hp])
    | some permit =>
      simp only [Server.drop, hp]
      apply AdmissionController.Balanced.release
      rw [permitsOut_give hp rfl]
      exact h.permits
  · cases hs : (loc i).holding.slot with
    | none => simp [Server.drop, hs, Holding.slots, Local.drop]
    | some e' => simpa [Server.drop, hs, Holding.slots, Local.drop, SchedOp.slots] using update_give hs (slots_pos h hs) e
  · cases hq : (loc i).holding.queued with
    | none => simp [Server.drop, hq, Holding.places, Local.drop]
    | some e' => simpa [Server.drop, hq, Holding.places, Local.drop, SchedOp.waiting] using update_give hq (places_pos h hq) e
  · cases hw : (loc i).holding.worker with
    | none => simp [Server.drop, GateOp.sh, hw, guards_none hw, guards_none (h := (loc i).drop.holding) rfl]
    | some w => simpa [Server.drop, GateOp.sh, hw] using guards_give h hw (l := (loc i).drop) rfl gate
  · cases hs : (loc i).holding.supervisor with
    | none =>
      simp [Server.drop, hs, Holding.locks, Local.drop]
    | some tenure =>
      have hlocked := locked_of_tenure h (i := i) (by simp [hs])
      simp [Server.drop, hs, Holding.locks, Local.drop, hlocked]

/-! ## Runs -/

variable {ok : ServerConf R → Label ServerSig (Proc R) (ServerEvent R) → Prop} {workers : Workers} {c : ServerConf R}

/-- In every state that a run reaches. -/
theorem conserved_reach (hr : Reach (serverWorld R st) ok (serverStart st workers inputs) c) :
    Conserved st c.loc c.sh := by
  have key : Typed (serverWorld R st) (Proc.serving st inputs) (fun _ => Served) c ∧ HandedOnce c ∧ Conserved st c.loc c.sh := by
    refine hr.invariant (J := fun c => Typed (serverWorld R st) (Proc.serving st inputs) (fun _ => Served) c ∧
      HandedOnce c ∧ Conserved st c.loc c.sh) ⟨serverStart_typed st workers inputs, handedOnce_start workers inputs, ?_⟩ ?_
    · constructor
      · simpa [permitsOut, serverStart, restingServer, Holding.permitsOut, Job.permitsOut] using
          AdmissionController.balanced_new st.maxInFlight
      · exact fun e => by simp [Tallied, serverStart, restingServer, Holding.slots]
      · exact fun e => by simp [Tallied, serverStart, restingServer, Holding.places]
      · exact fun gate => by simp [Tallied, serverStart, restingServer, Holding.guards]
      · simp [Tallied, serverStart, restingServer, Holding.locks]
    · intro c label c' hinv _ hs
      obtain ⟨htyped, honce, h⟩ := hinv
      refine ⟨htyped.step hs, honce.step hs, ?_⟩
      cases hs with
      | answer hp hc =>
        apply conserved_answer h (htyped _ _ hp).1 hc
        intro job ho
        subst ho
        exact honce.spawn_free hp
      | drop hp hd => exact conserved_drop h fun data hguard => honce.guard_free hp hd hguard
      | env he =>
        show Conserved st _ (ServerEvent.apply _ _)
        rw [ServerEvent.apply_eq]
        exact ⟨h.permits, h.slots, h.places, h.guards, h.lock⟩
  exact key.2.2

/-- How many permits are held or wait with a job. -/
def permitsHeld (loc : Proc R → Local) (jobs : R → Option Job) : Nat :=
  ∑ i, (loc i).holding.permits + ∑ r, Job.permits (jobs r)

omit [DecidableEq R] in
theorem card_permitsOut (jobs : R → Option Job) : (permitsOut loc jobs).card = permitsHeld loc jobs := by
  have hholding : ∀ h : Holding, h.permitsOut.card = h.permits := by
    intro h
    unfold Holding.permitsOut Holding.permits
    cases h.permit <;> simp
  have hjob : ∀ job : Option Job, (Job.permitsOut job).card = Job.permits job := by
    intro job
    unfold Job.permitsOut Job.permits
    split <;> simp_all
  simp [permitsOut, permitsHeld, hholding, hjob]

/-- `admin_status` reports the number of permits that are held, whatever was dropped. -/
theorem occupancy_exact (limits : ServingLimits) (hlimits : st.maxInFlight = limits.maxInFlight)
    (hr : Reach (serverWorld R st) ok (serverStart st workers inputs) c) :
    permitsHeld c.loc c.sh.jobs ≤ limits.maxInFlight ∧
    admissionOccupancy limits c.sh.admission =
      ⟨permitsHeld c.loc c.sh.jobs, limits.maxInFlight - permitsHeld c.loc c.sh.jobs, limits.maxInFlight⟩ := by
  have hglobal := (conserved_reach hr).permits.global
  have hpos := limits.pos
  rw [card_permitsOut, hlimits, Nat.max_eq_left hpos] at hglobal
  refine ⟨by omega, ?_⟩
  unfold admissionOccupancy
  simp
  omega

def fourInFlight : ServingLimits := .new 4

theorem occupancy_exact_proxied : ∃ c, Reach (serverWorld Unit oneModelNode) (fun _ _ => True)
    (serverStart oneModelNode {} fun _ => chatInput 0 "") c ∧ (c.loc (.request ())).holding.permit ≠ none ∧
    permitsHeld c.loc c.sh.jobs ≤ 4 ∧ admissionOccupancy fourInFlight c.sh.admission =
      ⟨permitsHeld c.loc c.sh.jobs, 4 - permitsHeld c.loc c.sh.jobs, 4⟩ := by
  have hrun : ∃ c, Reach (serverWorld Unit oneModelNode) (fun _ _ => True)
      (serverStart oneModelNode {} fun _ => chatInput 0 "") c ∧ (c.loc (.request ())).holding.permit ≠ none := by
    refine Conf.exists_reach ((Proc.request ()).turns oneModelNode {} 20) ?_
    decide +kernel
  obtain ⟨c, hr, hheld⟩ := hrun
  exact ⟨c, hr, hheld, occupancy_exact fourInFlight rfl hr⟩

/-! ## At rest -/

def ServerOp.isStart : ServerOp → Bool
  | .task .start => true
  | _ => false

/-- Every request is over, and no task runs or has a job. -/
structure AtRest (c : ServerConf R) : Prop where
  requests : ∀ r, c.over (.request r) = true
  tasks : ∀ r, (c.pending (.task r)).all ServerOp.isStart = true
  jobs : ∀ r, c.sh.jobs r = none

omit [Fintype R] in
theorem AtRest.holding (hrest : AtRest c) (hr : Reach (serverWorld R st) ok (serverStart st workers inputs) c)
    (i : Proc R) : (c.loc i).holding = {} := by
  by_contra hholding
  obtain ⟨o, k, hp⟩ := running_of_holding hr hholding
  have hpending : c.pending i = some o := by simp [Conf.pending, hp]
  cases i with
  | request r => simpa [Conf.over, hpending] using hrest.requests r
  | task r =>
    have hstart : o.isStart = true := by simpa [hpending] using hrest.tasks r
    have hready := ((serverStart_typed st workers inputs).reach hr _ _ hp).1.1
    cases o with
    | task o =>
      cases o with
      | start => exact hholding hready
      | _ => cases hstart
    | _ => cases hstart

/-- Whatever was answered, refused or dropped: at rest the server has back all that it gave out. -/
theorem rest_restores (hr : Reach (serverWorld R st) ok (serverStart st workers inputs) c) (hrest : AtRest c) :
    c.sh.admission.global.available = max st.maxInFlight 1 ∧
    (∀ (scope : String) (s : Semaphore), c.sh.admission.scopes[scope]? = some s → s.available = s.limit) ∧
    (∀ e, c.sh.slots e = 0 ∧ c.sh.waiting e = 0) ∧ (∀ gate, c.sh.inFlight gate = 0) ∧
    c.sh.supervisorLocked = false := by
  have h := conserved_reach hr
  have hholding := hrest.holding hr
  have hout : permitsOut c.loc c.sh.jobs = 0 := by
    simp [permitsOut, hholding, hrest.jobs, Holding.permitsOut, Job.permitsOut]
  refine ⟨?_, fun scope s hs => ?_, fun e => ⟨?_, ?_⟩, fun gate => ?_, ?_⟩
  · have hglobal := h.permits.global
    rwa [hout, Multiset.card_zero, Nat.add_zero] at hglobal
  · have hscope := h.permits.scopes scope
    rw [hout] at hscope
    simpa [AdmissionController.BalancedAt, hs, permitsOn_zero] using hscope
  · exact (h.slots e).none_out fun i => by simp [hholding, Holding.slots]
  · exact (h.places e).none_out fun i => by simp [hholding, Holding.places]
  · exact (h.guards gate).none_out fun i => by simp [hholding, Holding.guards]
  · have hlock := h.lock.none_out fun i => by simp [hholding, Holding.locks]
    by_contra hlocked
    simp [hlocked] at hlock

theorem rest_restores_answered : ∃ c, Reach (serverWorld Unit oneModelNode) (fun _ _ => True)
    (serverStart oneModelNode {} fun _ => chatInput 0 "") c ∧ (c.loc (.request ())).trace.usage ≠ [] ∧
    c.sh.admission.global.available = 4 := by
  have hrun : ∃ c, Reach (serverWorld Unit oneModelNode) (fun _ _ => True)
      (serverStart oneModelNode {} fun _ => chatInput 0 "") c ∧ (c.loc (.request ())).trace.usage ≠ [] ∧
      c.over (.request ()) = true ∧ (c.pending (.task ())).all ServerOp.isStart = true ∧ c.sh.jobs () = none := by
    refine Conf.exists_reach ((Proc.request ()).turns oneModelNode {} 28) ?_
    decide +kernel
  obtain ⟨c, hr, husage, hover, htask, hjob⟩ := hrun
  exact ⟨c, hr, husage, (rest_restores hr ⟨fun _ => hover, fun _ => htask, fun _ => hjob⟩).1⟩

end

end Llmctl
