import Mathlib.Algebra.BigOperators.Group.Finset.Piecewise
import Llmctl.Async.Owned
import Llmctl.Server.Script
import Llmctl.Server.ServingSwap
import Llmctl.TrafficSound

/-!
# Permits, slots and decodes

What the admission controller and the schedulers have given out is held by running
processes or on its way to a detached task, so the decodes that run under both are
bounded by both.
-/

namespace Llmctl

open Async

def Holding.permits (h : Holding) : Nat := if h.permit = none then 0 else 1

def Holding.slots (h : Holding) (e : String) : Nat := if h.slot = some e then 1 else 0

def Job.permits : Option Job → Nat
  | some (.decode ..) => 1
  | _ => 0

def Decode.engine : Decode → Option String
  | .none => Option.none
  | .running e | .returned e => some e

theorem permits_le (h : Holding) : h.permits ≤ 1 := by
  unfold Holding.permits
  split <;> omega

section
variable {R : Type} [DecidableEq R] [Fintype R] {st : ServerState} {inputs : R → Input}
  {loc : Proc R → Local} {g g' : Server R} {i : Proc R} {l : Local}

/-! ## Permits -/

/-- No permit is held beyond those that the controller has given out. -/
def PermitsBounded (st : ServerState) (loc : Proc R → Local) (g : Server R) : Prop :=
  g.admission.global.available + ∑ i, (loc i).holding.permits + ∑ r, Job.permits (g.jobs r) ≤ max st.maxInFlight 1

theorem PermitsBounded.update (h : PermitsBounded st loc g)
    (hle : g'.admission.global.available + l.holding.permits + ∑ r, Job.permits (g'.jobs r) ≤
      g.admission.global.available + (loc i).holding.permits + ∑ r, Job.permits (g.jobs r)) :
    PermitsBounded st (Function.update loc i l) g' := by
  have hsum := sum_update_add (fun l : Local => l.holding.permits) loc i l
  unfold PermitsBounded at h ⊢
  omega

theorem release_permits (h : Holding) (c : AdmissionController) :
    (match h.permit with | some permit => c.release permit | none => c).global.available ≤
      c.global.available + h.permits := by
  unfold Holding.permits
  cases hp : h.permit with
  | none => simp
  | some permit => simp [AdmissionController.release_available]

theorem permits_permit (h : PermitsBounded st loc g) {o : PermitOp} {a : ServerSig.Ans (.permit o)}
    (hserving : i.serving st inputs (.permit o) (loc i))
    (hc : (serverWorld R st).can i (.permit o) a (loc i) g = true) :
    PermitsBounded st (Function.update loc i ((serverWorld R st).loc i (.permit o) a (loc i)))
      ((serverWorld R st).sh i (.permit o) a (loc i) g) := by
  apply h.update
  cases o with
  | tryAcquireForAll scopes =>
    have ha : a = (g.admission.tryAcquireForAll scopes).1 := by simpa [serverWorld, ServerOp.can] using hc
    have htake := g.admission.tryAcquireForAll_available scopes
    have hnone : (loc i).holding.permits = 0 := by simp [Holding.permits, hserving.1.2.1]
    rw [← ha] at htake
    have hgot : ((serverWorld R st).loc i (.permit (.tryAcquireForAll scopes)) a (loc i)).holding.permits =
        if a = true then 1 else 0 := by
      cases a with
      | true => simp [serverWorld, ServerOp.loc, ServerOp.holding, PermitOp.permit, Holding.permits]
      | false => simpa [serverWorld, ServerOp.loc, ServerOp.holding, PermitOp.permit, Holding.permits] using hnone
    rw [hnone, hgot]
    show (g.admission.tryAcquireForAll scopes).2.global.available + _ + ∑ r, Job.permits (g.jobs r) ≤ _
    omega
  | drop =>
    have hrel := release_permits (loc i).holding g.admission
    have hnone : ((serverWorld R st).loc i (.permit .drop) a (loc i)).holding.permits = 0 := rfl
    rw [hnone]
    show (PermitOp.sh .drop (loc i).holding g.admission).global.available + 0 + ∑ r, Job.permits (g.jobs r) ≤ _
    have he : PermitOp.sh .drop (loc i).holding g.admission =
        match (loc i).holding.permit with | some permit => g.admission.release permit | none => g.admission := by
      unfold PermitOp.sh
      cases (loc i).holding.permit <;> rfl
    rw [he]
    omega

theorem permits_task (h : PermitsBounded st loc g) {o : TaskOp} {a : ServerSig.Ans (.task o)}
    (hserving : i.serving st inputs (.task o) (loc i))
    (hc : (serverWorld R st).can i (.task o) a (loc i) g = true) :
    PermitsBounded st (Function.update loc i ((serverWorld R st).loc i (.task o) a (loc i)))
      ((serverWorld R st).sh i (.task o) a (loc i) g) := by
  apply h.update
  cases o with
  | spawn job =>
    cases job with
    | disconnect data => exact hserving.1.elim
    | decode context request =>
      have hone : (loc i).holding.permits = 1 := by simp [Holding.permits, hserving.1.2.1]
      have hzero : ((serverWorld R st).loc i (.task (.spawn (.decode context request))) a (loc i)).holding.permits = 0 := rfl
      rw [hone, hzero]
      cases i with
      | task r =>
        show g.admission.global.available + 0 + ∑ r, Job.permits (g.jobs r) ≤ _
        omega
      | request r =>
        have hsum := sum_update_add Job.permits g.jobs r (some (.decode context request))
        rw [show Job.permits (some (.decode context request)) = 1 from rfl] at hsum
        show g.admission.global.available + 0 +
          ∑ r', Job.permits (Function.update g.jobs r (some (.decode context request)) r') ≤ _
        omega
  | start =>
    cases i with
    | request r => cases hc
    | task r =>
      have ha : g.jobs r = some a := by simpa [serverWorld, ServerOp.can, Server.job] using hc
      have hzero : (loc (.task r)).holding.permits = 0 := by rw [hserving.1]; rfl
      have hsum := sum_update_add Job.permits g.jobs r none
      rw [ha, show Job.permits none = 0 from rfl] at hsum
      rw [hzero]
      show g.admission.global.available + _ + ∑ r', Job.permits (Function.update g.jobs r none r') ≤ _
      cases a with
      | decode context request =>
        have hone := permits_le (ServerOp.holding (.task .start) (.decode context request) (loc (.task r)).holding)
        rw [show Job.permits (some (.decode context request)) = 1 from rfl] at hsum
        show g.admission.global.available +
          (ServerOp.holding (.task .start) (.decode context request) (loc (.task r)).holding).permits + _ ≤ _
        omega
      | disconnect data =>
        rw [show Job.permits (some (.disconnect data)) = 0 from rfl] at hsum
        show g.admission.global.available + (loc (.task r)).holding.permits + _ ≤ _
        omega
  | _ => exact le_rfl

theorem permits_answer (h : PermitsBounded st loc g) {o : ServerOp} {a : ServerSig.Ans o}
    (hserving : i.serving st inputs o (loc i)) (hc : (serverWorld R st).can i o a (loc i) g = true) :
    PermitsBounded st (Function.update loc i ((serverWorld R st).loc i o a (loc i)))
      ((serverWorld R st).sh i o a (loc i) g) := by
  cases o with
  | permit o => exact permits_permit h hserving hc
  | task o => exact permits_task h hserving hc
  | _ => exact h.update le_rfl

/-- The guard's terminal record takes the place of a job that waits, if any. -/
theorem jobs_drop_permits (i : Proc R) (h : Holding) (jobs : R → Option Job) :
    ∑ r, Job.permits ((match h.guard with | some data => TaskOp.jobs i (.spawn (.disconnect data)) jobs | none => jobs) r) ≤
      ∑ r, Job.permits (jobs r) := by
  cases h.guard with
  | none => exact le_rfl
  | some data =>
    cases i with
    | task r => exact le_rfl
    | request r =>
      have hsum := sum_update_add Job.permits jobs r (some (.disconnect data))
      rw [show Job.permits (some (.disconnect data)) = 0 from rfl] at hsum
      show ∑ r', Job.permits (Function.update jobs r (some (.disconnect data)) r') ≤ _
      omega

theorem permits_drop (h : PermitsBounded st loc g) (o : ServerOp) :
    PermitsBounded st (Function.update loc i ((serverWorld R st).dropLoc i o (loc i)))
      ((serverWorld R st).dropSh i o (loc i) g) := by
  apply h.update
  have hrel := release_permits (loc i).holding g.admission
  have hjobs := jobs_drop_permits i (loc i).holding g.jobs
  exact Nat.add_le_add hrel hjobs

theorem permits_reach {ok : ServerConf R → Label ServerSig (Proc R) (ServerEvent R) → Prop} {workers : Workers}
    {c : ServerConf R} (hr : Reach (serverWorld R st) ok (serverStart st workers inputs) c) :
    PermitsBounded st c.loc c.sh := by
  refine (serverStart_typed st workers inputs).pool ?_ ?_ ?_ ?_ hr
  · simp [PermitsBounded, serverStart, restingServer, AdmissionController.new, Semaphore.new, Holding.permits, Job.permits]
  · exact fun c i o a h hserving _ hc => permits_answer h hserving hc
  · exact fun c i o h _ _ _ => permits_drop h o
  · intro c e h _ _
    show PermitsBounded st c.loc (e.apply c.sh)
    rw [e.apply_eq]
    exact h

/-! ## Slots -/

/-- The slots held are among those given out, and no engine gives out more than it has. -/
structure SlotsBounded (st : ServerState) (loc : Proc R → Local) (g : Server R) : Prop where
  held : ∀ e, ∑ i, (loc i).holding.slots e ≤ g.slots e
  le : ∀ e, g.slots e ≤ st.maxConcurrentRequests

theorem SlotsBounded.update (h : SlotsBounded st loc g)
    (hheld : ∀ e, l.holding.slots e + g.slots e ≤ (loc i).holding.slots e + g'.slots e)
    (hle : ∀ e, g'.slots e ≤ st.maxConcurrentRequests) : SlotsBounded st (Function.update loc i l) g' where
  held e := by
    have hsum := sum_update_add (fun l : Local => l.holding.slots e) loc i l
    have hold := h.held e
    have hnew := hheld e
    omega
  le := hle

theorem slots_none {h : Holding} (hs : h.slot = none) (e : String) : h.slots e = 0 := by simp [Holding.slots, hs]

theorem SlotsBounded.take (h : SlotsBounded st loc g) {e : String} (hnone : (loc i).holding.slot = none)
    (hsome : l.holding.slot = some e) (hs : g'.slots = Function.update g.slots e (g.slots e + 1))
    (hlt : g.slots e < st.maxConcurrentRequests) : SlotsBounded st (Function.update loc i l) g' := by
  apply h.update
  · intro e'
    rw [slots_none hnone, hs]
    unfold Holding.slots
    rw [hsome]
    by_cases he : e' = e
    · subst he; simp; omega
    · simp [he, Ne.symm he]
  · intro e'
    rw [hs]
    by_cases he : e' = e
    · subst he; simp; omega
    · simp [he, h.le e']

theorem SlotsBounded.release (h : SlotsBounded st loc g) {e : String} (hsome : (loc i).holding.slot = some e)
    (hnone : l.holding.slot = none) (hs : g'.slots = Function.update g.slots e (g.slots e - 1)) :
    SlotsBounded st (Function.update loc i l) g' := by
  apply h.update
  · intro e'
    rw [slots_none hnone, hs]
    unfold Holding.slots
    rw [hsome]
    by_cases he : e' = e
    · subst he; simp; omega
    · simp [he, Ne.symm he]
  · intro e'
    rw [hs]
    by_cases he : e' = e
    · subst he; have := h.le e'; simp; omega
    · simp [he, h.le e']

theorem slots_sched (h : SlotsBounded st loc g) {o : SchedOp} {a : ServerSig.Ans (.sched o)}
    (hserving : i.serving st inputs (.sched o) (loc i)) (hc : (serverWorld R st).can i (.sched o) a (loc i) g = true) :
    SlotsBounded st (Function.update loc i ((serverWorld R st).loc i (.sched o) a (loc i)))
      ((serverWorld R st).sh i (.sched o) a (loc i) g) := by
  cases o with
  | tryAcquire e =>
    cases a with
    | false => exact h.update (fun _ => le_rfl) h.le
    | true =>
      have hlt : g.slots e < st.maxConcurrentRequests := by simpa [serverWorld, ServerOp.can, SchedOp.can] using hc
      exact h.take hserving.1.slot rfl rfl hlt
  | acquire e =>
    have hlt : g.slots e < st.maxConcurrentRequests := by simpa [serverWorld, ServerOp.can, SchedOp.can] using hc
    exact h.take hserving.1.slot rfl rfl hlt
  | release e => exact h.release hserving.1.slot rfl rfl
  | _ => exact h.update (fun _ => le_rfl) h.le

theorem slots_answer (h : SlotsBounded st loc g) {o : ServerOp} {a : ServerSig.Ans o}
    (hserving : i.serving st inputs o (loc i)) (hc : (serverWorld R st).can i o a (loc i) g = true) :
    SlotsBounded st (Function.update loc i ((serverWorld R st).loc i o a (loc i)))
      ((serverWorld R st).sh i o a (loc i) g) := by
  cases o with
  | sched o => exact slots_sched h hserving hc
  | _ => exact h.update (fun _ => le_rfl) h.le

theorem slots_drop (h : SlotsBounded st loc g) (o : ServerOp) :
    SlotsBounded st (Function.update loc i ((serverWorld R st).dropLoc i o (loc i)))
      ((serverWorld R st).dropSh i o (loc i) g) := by
  cases hs : (loc i).holding.slot with
  | none =>
    have he : ((serverWorld R st).dropSh i o (loc i) g).slots = g.slots := by
      simp only [serverWorld, Server.drop, hs]
    apply h.update
    · intro e
      rw [slots_none hs, he]
      exact le_rfl
    · rw [he]
      exact h.le
  | some e =>
    refine h.release hs rfl ?_
    simp only [serverWorld, Server.drop, hs, SchedOp.slots]

theorem slots_reach {ok : ServerConf R → Label ServerSig (Proc R) (ServerEvent R) → Prop} {workers : Workers}
    {c : ServerConf R} (hr : Reach (serverWorld R st) ok (serverStart st workers inputs) c) :
    SlotsBounded st c.loc c.sh := by
  refine (serverStart_typed st workers inputs).pool ?_ ?_ ?_ ?_ hr
  · constructor <;> simp [serverStart, restingServer, Holding.slots]
  · exact fun c i o a h hserving _ hc => slots_answer h hserving hc
  · exact fun c i o h _ _ _ => slots_drop h o
  · intro c e h _ _
    show SlotsBounded st c.loc (e.apply c.sh)
    rw [e.apply_eq]
    exact ⟨h.held, h.le⟩

end

end Llmctl
