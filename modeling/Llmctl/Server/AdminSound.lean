import Llmctl.Server.GateSound
import Llmctl.Server.StreamSound
import Llmctl.Worker.SupervisorSound

/-!
# Swaps and the workers they leave

A worker that is not settled is one that the holder of the supervisor's lock has
yet to settle. A swap that is dropped on its way leaves it so for good, and leaves
no record.
-/

namespace Llmctl

open Async

/-! ## Settled workers -/

namespace Workers

/-- At rest, failed, or ready behind an open gate. -/
def settled (w : Workers) (id : String) : Bool :=
  match (w.status id).state with
  | .stopped | .failed => true
  | .ready => w.admits id
  | _ => false

section
variable {w w' : Workers} {id id' : String} {change : StatusChange}

theorem settled_congr (hs : w'.status id = w.status id) (ha : w'.admits id = w.admits id) :
    w'.settled id = w.settled id := by
  unfold settled
  rw [hs, ha]

theorem settled_updateStatus_of_ne (h : id' ≠ id) : (w.updateStatus id change).settled id' = w.settled id' :=
  settled_congr (status_updateStatus_of_ne h) rfl

theorem settled_updateStatus : (w.updateStatus id change).settled id =
    match (change.apply (w.status id)).state with
    | .stopped | .failed => true
    | .ready => w.admits id
    | _ => false := by
  unfold settled
  rw [status_updateStatus, admits_updateStatus]

theorem settled_stopAdmitting_of_ne (h : id' ≠ id) (hw : w.WellFormed) :
    (w.stopAdmitting id).settled id' = w.settled id' :=
  settled_congr status_stopAdmitting (admits_stopAdmitting_of_ne h hw)

theorem settled_insertAdmission (hw : w.WellFormed) (h : w.settled id' = true) :
    (w.insertAdmission id).settled id' = true := by
  by_cases he : id' = id
  · subst he
    unfold settled at h ⊢
    rw [status_insertAdmission, admits_insertAdmission]
    split at h <;> simp_all
  · rw [settled_congr status_insertAdmission (admits_insertAdmission_of_ne he hw)]
    exact h

end

theorem WellFormed.workers {w : Workers} (hw : w.WellFormed) (o : WorkerOp) (a : WorkerSig.Ans o) :
    (o.workers a w).WellFormed := by
  cases o with
  | updateStatus id change => exact hw.updateStatus
  | stopAdmitting id => exact hw.stopAdmitting
  | insertAdmission id => exact hw.insertAdmission
  | insertChild id => cases a <;> exact ⟨hw.below, hw.own⟩
  | _ => exact ⟨hw.below, hw.own⟩

end Workers

/-! ## What a tenure has yet to settle -/

/-- The worker that an operation changes the status or the gate of. -/
def WorkerOp.touched : WorkerOp → Option String
  | .updateStatus id _ | .stopAdmitting id | .insertAdmission id => some id
  | _ => none

theorem WorkerOp.Tends.untouched {o : WorkerOp} (ho : o.Tends) : o.touched = none := by
  cases o <;> first | rfl | exact ho.elim

/-- Those of `ids` that are not settled are left to the tenure, and the gate it has
opened is open. -/
structure Tenure.Covers (ids : String → Prop) (w : Workers) (tenure : Tenure) : Prop where
  opened : ∀ id, tenure.opened = some id → w.admits id = true
  settled : ∀ id, ids id → w.settled id = true ∨ id ∈ tenure.unsettled

section
variable {ids : String → Prop} {w : Workers} {tenure tenure' : Tenure}

theorem mem_unsettled_of_ne {change : StatusChange} {id id' : String} {l : List String} (h : id' ≠ id) :
    id' ∈ change.unsettled id l ↔ id' ∈ l := by
  cases change <;> simp [StatusChange.unsettled, List.mem_insert_iff, h]

theorem Tenure.Covers.updateStatus (h : tenure.Covers ids w) (id : String) {change : StatusChange}
    (hready : change = .ready → tenure.opened = some id) :
    Tenure.Covers ids (w.updateStatus id change)
      { tenure with unsettled := change.unsettled id tenure.unsettled } where
  opened := h.opened
  settled id' hid' := by
    by_cases he : id' = id
    · subst he
      rw [Workers.settled_updateStatus]
      cases change with
      | starting | warming pid | draining | stopping => exact .inr (by simp [StatusChange.unsettled])
      | startFailed error | stopped | stopFailed error => exact .inl rfl
      | ready => exact .inl (h.opened id' (hready rfl))
      | restarted => exact h.settled id' hid'
    · rw [Workers.settled_updateStatus_of_ne he]
      exact (h.settled id' hid').imp_right (mem_unsettled_of_ne he).mpr

theorem Tenure.Covers.stopAdmitting (h : tenure.Covers ids w) (hw : w.WellFormed) (id : String) :
    Tenure.Covers ids (w.stopAdmitting id)
      ⟨tenure.unsettled.insert id, if tenure.opened = some id then none else tenure.opened⟩ where
  opened id' ho := by
    have ho : (if tenure.opened = some id then none else tenure.opened) = some id' := ho
    split at ho
    · cases ho
    · rename_i hne
      have he : id' ≠ id := fun he => hne (he ▸ ho)
      rw [Workers.admits_stopAdmitting_of_ne he hw]
      exact h.opened id' ho
  settled id' hid' := by
    by_cases he : id' = id
    · exact .inr (List.mem_insert_iff.mpr (.inl he))
    · rw [Workers.settled_stopAdmitting_of_ne he hw]
      exact (h.settled id' hid').imp_right fun hmem => List.mem_insert_iff.mpr (.inr hmem)

theorem Tenure.Covers.insertAdmission (h : tenure.Covers ids w) (hw : w.WellFormed) (id : String) :
    Tenure.Covers ids (w.insertAdmission id) { tenure with opened := some id } where
  opened id' ho := by
    cases ho
    exact Workers.admits_insertAdmission
  settled id' hid' := (h.settled id' hid').imp_left (Workers.settled_insertAdmission hw)

/-- Between the acquisition of the lock and its release. -/
theorem Tenure.Covers.step (h : tenure.Covers ids w) (hw : w.WellFormed) {o : WorkerOp} (a : WorkerSig.Ans o)
    (hready : ∀ id, o = .updateStatus id .ready → tenure.opened = some id)
    (ho : o.tenure (some tenure) = some tenure') (hlock : o ≠ .lockSupervisor) : tenure'.Covers ids (o.workers a w) := by
  cases o with
  | lockSupervisor => exact absurd rfl hlock
  | unlockSupervisor => cases ho
  | updateStatus id change =>
    cases ho
    exact h.updateStatus id fun he => hready id (by rw [he])
  | stopAdmitting id => cases ho; exact h.stopAdmitting hw id
  | insertAdmission id => cases ho; exact h.insertAdmission hw id
  | insertChild id => cases ho; cases a <;> exact ⟨h.opened, h.settled⟩
  | _ => cases ho; exact ⟨h.opened, h.settled⟩

theorem touched_of_unsettled {o : WorkerOp} (ho : o.tenure (some tenure) = some tenure') (hlock : o ≠ .lockSupervisor)
    {id : String} (hid : id ∈ tenure'.unsettled) : id ∈ tenure.unsettled ∨ o.touched = some id := by
  cases o with
  | lockSupervisor => exact absurd rfl hlock
  | unlockSupervisor => cases ho
  | updateStatus id' change =>
    cases ho
    by_cases he : id = id'
    · exact .inr (he ▸ rfl)
    · exact .inl ((mem_unsettled_of_ne he).mp hid)
  | stopAdmitting id' =>
    cases ho
    rcases List.mem_insert_iff.mp hid with rfl | hid
    · exact .inr rfl
    · exact .inl hid
  | _ => cases ho; exact .inl hid

end

/-! ## Who touches which worker -/

def ServerOp.touched : ServerOp → Option String
  | .worker o => o.touched
  | _ => none

/-- A stop settles its worker as a start does. -/
def Proc.tender {R : Type} (st : ServerState) (inputs : R → Input) : Proc R → Role
  | .request r =>
    match inputs r with
    | .stop _ => { supervises := true, starts := true }
    | input => input.role st
  | .task _ => {}

section
variable {R : Type} [DecidableEq R] {st : ServerState} {inputs : R → Input}

/-- A drain changes its own worker only. -/
def Tending (st : ServerState) (inputs : R → Input) (i : Proc R) (o : ServerOp) (l : Local) : Prop :=
  (∀ r id, i = .request r → inputs r = .drain id → ∀ x, o.touched = some x → x = id) ∧
    Serving st (i.tender st inputs) (i.admitted inputs) o l

theorem drain_all (id : String) : (drain id).All fun o : WorkerOp => ∀ x, o.touched = some x → x = id := by
  have htends : ∀ o : WorkerOp, o.Tends → ∀ x, o.touched = some x → x = id := by
    intro o ho x hx
    rw [ho.untouched] at hx
    cases hx
  have hdraining : (updateStatus id .draining).All fun o : WorkerOp => ∀ x, o.touched = some x → x = id :=
    ⟨fun _ hx => (Option.some.inj hx).symm, fun _ => trivial⟩
  refine Prog.All.op (fun _ hx => (Option.some.inj hx).symm) fun _ => Prog.All.op (htends _ trivial) fun gate => ?_
  cases gate with
  | none => exact hdraining
  | some gate =>
    refine Prog.All.op (htends _ trivial) fun now => Prog.All.bind ?_ fun _ => hdraining
    exact (awaitDrained_all gate _ _).mono htends

theorem serverStart_tending (st : ServerState) (workers : Workers) (inputs : R → Input) :
    Typed (serverWorld R st) (Tending st inputs) (fun _ => Served) (serverStart st workers inputs) := by
  intro i p hp
  cases i with
  | task r =>
    cases hp
    exact detachedTask_always.mono (fun o l hs => ⟨fun _ _ he => (by cases he), hs⟩) fun _ _ hs => hs
  | request r =>
    cases hp
    have hplain : ∀ (role : Role) {p : ServerProg (Option Response)}, role = (Proc.request r).tender st inputs →
        (∀ id, inputs r ≠ .drain id) →
        Always (serverWorld R st) (.request r) (Serving st role (inputs r).admitted) Served p {} →
        Always (serverWorld R st) (.request r) (Tending st inputs (.request r)) Served p {} := by
      rintro role p rfl hdrain h
      refine h.mono (fun o l hs => ⟨?_, hs⟩) fun _ _ hs => hs
      rintro r' id hr' hid
      cases hr'
      exact absurd hid (hdrain id)
    cases hr : inputs r with
    | drain id =>
      have hall : ((Input.drain id).serve st).All fun o : ServerOp => ∀ x, o.touched = some x → x = id := by
        refine Prog.All.op (fun _ hx => (by cases hx)) fun _ => ?_
        refine Prog.All.bind ((drain_all id).lift fun _ ho => ho) fun _ => ?_
        exact Prog.All.op (fun _ hx => (by cases hx)) fun _ => trivial
      have hs : Always (serverWorld R st) (.request r) (Serving st ((Input.drain id).role st)
        (Input.drain id).admitted) Served ((Input.drain id).serve st) {} := serve_always (.drain id) rfl
      refine (hs.with_all hall).mono (fun o l hs => ⟨?_, ?_⟩) fun _ _ hs => hs
      · rintro r' id' hr' hid' x hx
        cases hr'
        cases hr.symm.trans hid'
        exact hs.1 x hx
      · simpa [Proc.tender, Proc.admitted, hr] using hs.2
    | stop id =>
      refine hplain { supervises := true, starts := true } (by simp [Proc.tender, hr]) (by simp [hr]) ?_
      refine underLock_always ⟨rfl, rfl⟩ (fun l hl => stop_always rfl (hl.mono fun _ hs => hs.only id))
        (fun _ _ hs => hs) fun _ t' hf => ?_
      exact ⟨rfl, fun hd => absurd hf.decoded hd⟩
    | chat request =>
      refine hplain ((Input.chat request).role st) (by simp [Proc.tender, hr]) (by simp [hr]) ?_
      rw [hr]
      exact serve_always _ rfl
    | embeddings request =>
      refine hplain ((Input.embeddings request).role st) (by simp [Proc.tender, hr]) (by simp [hr]) ?_
      rw [hr]
      exact serve_always _ rfl
    | swap request =>
      refine hplain ((Input.swap request).role st) (by simp [Proc.tender, hr]) (by simp [hr]) ?_
      rw [hr]
      exact serve_always _ rfl

/-! ## The workers along a run -/

def tenures (loc : Proc R → Local) (i : Proc R) : Option Tenure := (loc i).holding.supervisor

theorem tenures_update (loc : Proc R → Local) (i : Proc R) (l : Local) :
    tenures (Function.update loc i l) = Function.update (tenures loc) i l.holding.supervisor :=
  comp_update_eq (fun l => l.holding.supervisor) loc i l

/-- Settled at the start, and drained by no operator. -/
def Awaited (workers : Workers) (inputs : R → Input) (id : String) : Prop :=
  workers.settled id = true ∧ ∀ r, inputs r ≠ .drain id

structure Tended (st : ServerState) (workers : Workers) (inputs : R → Input) (held : Proc R → Option Tenure)
    (locked : Bool) (w : Workers) : Prop where
  single : Single (fun i => (held i).map fun _ => ()) fun _ => locked
  wellFormed : w.WellFormed
  covers : ∀ i tenure, held i = some tenure → tenure.Covers (Awaited workers inputs) w
  free : (∀ i, held i = none) → ∀ id, Awaited workers inputs id → w.settled id = true
  drains : ∀ i tenure, held i = some tenure → (i.tender st inputs).starts = false →
    ∀ id ∈ tenure.unsettled, ¬ Awaited workers inputs id

section
variable {workers w w' : Workers} {held : Proc R → Option Tenure} {locked : Bool} {i : Proc R} {tenure tenure' : Tenure}

omit [DecidableEq R] in
theorem Tended.alone (h : Tended st workers inputs held locked w) (hi : held i = some tenure) {j : Proc R}
    (hj : held j = some tenure') : j = i :=
  h.single.own j i () (by simp [hj]) (by simp [hi])

omit [DecidableEq R] in
theorem Tended.locked_of (h : Tended st workers inputs held locked w) (hi : held i = some tenure) : locked = true :=
  h.single.taken_of i () (by simp [hi])

theorem Tended.acquire (h : Tended st workers inputs held false w) :
    Tended st workers inputs (Function.update held i (some {})) true w := by
  have hfree : ∀ j, held j = none := by
    intro j
    cases hj : held j with
    | none => rfl
    | some tenure => cases h.locked_of hj
  have hof : ∀ {j tenure}, Function.update held i (some {}) j = some tenure → tenure = {} := by
    intro j tenure hj
    by_cases hji : j = i
    · subst hji
      rw [Function.update_self] at hj
      exact (Option.some.inj hj).symm
    · rw [Function.update_of_ne hji, hfree j] at hj
      cases hj
  constructor
  · rw [comp_update_eq (fun t : Option Tenure => t.map fun _ => ())]
    have hacquired := h.single.acquire (i := i) (k := ()) rfl
    rwa [show Function.update (fun _ : Unit => false) () true = fun _ => true by funext _; simp] at hacquired
  · exact h.wellFormed
  · intro j tenure hj
    obtain rfl := hof hj
    exact ⟨fun _ ho => (by cases ho), fun id hid => .inl (h.free hfree id hid)⟩
  · intro hnone
    have := hnone i
    rw [Function.update_self] at this
    cases this
  · intro j tenure hj _ id hid
    obtain rfl := hof hj
    cases hid

theorem Tended.release (h : Tended st workers inputs held locked w) (hi : held i = some tenure)
    (hstarts : (i.tender st inputs).starts = true → tenure.unsettled = []) :
    Tended st workers inputs (Function.update held i none) false w := by
  have hnone : ∀ j, Function.update held i none j = none := by
    intro j
    by_cases hji : j = i
    · rw [hji, Function.update_self]
    · rw [Function.update_of_ne hji]
      cases hj : held j with
      | none => rfl
      | some tenure' => exact absurd (h.alone hi hj) hji
  have habsurd : ∀ {j tenure'} {P : Prop}, Function.update held i none j = some tenure' → P := by
    intro j tenure' P hj
    rw [hnone j] at hj
    cases hj
  constructor
  · rw [comp_update_eq (fun t : Option Tenure => t.map fun _ => ())]
    have hcleared := h.single.clear (i := i) (k := ()) fun j hji hj => by
      rw [← Function.update_of_ne hji none held, hnone j] at hj
      cases hj
    rwa [show Function.update (fun _ : Unit => locked) () false = fun _ => false by funext _; simp] at hcleared
  · exact h.wellFormed
  · exact fun j tenure' hj => habsurd hj
  · intro _ id hid
    rcases (h.covers i tenure hi).settled id hid with hs | hmem
    · exact hs
    · cases hrole : (i.tender st inputs).starts with
      | true => rw [hstarts hrole] at hmem; cases hmem
      | false => exact absurd hid (h.drains i tenure hi hrole id hmem)
  · exact fun j tenure' hj => habsurd hj

theorem Tended.manage (h : Tended st workers inputs held locked w) (hi : held i = some tenure)
    (hw : w'.WellFormed) (hcovers : tenure'.Covers (Awaited workers inputs) w')
    (hdrains : (i.tender st inputs).starts = false → ∀ id ∈ tenure'.unsettled, ¬ Awaited workers inputs id) :
    Tended st workers inputs (Function.update held i (some tenure')) locked w' := by
  have hof : ∀ {j tenure''}, Function.update held i (some tenure') j = some tenure'' → j = i ∧ tenure'' = tenure' := by
    intro j tenure'' hj
    by_cases hji : j = i
    · subst hji
      rw [Function.update_self] at hj
      exact ⟨rfl, (Option.some.inj hj).symm⟩
    · rw [Function.update_of_ne hji] at hj
      exact absurd (h.alone hi hj) hji
  constructor
  · rw [comp_update_eq (fun t : Option Tenure => t.map fun _ => ())]
    exact h.single.keep (by simp [hi])
  · exact hw
  · intro j tenure'' hj
    obtain ⟨_, rfl⟩ := hof hj
    exact hcovers
  · intro hnone
    have := hnone i
    rw [Function.update_self] at this
    cases this
  · intro j tenure'' hj hstarts
    obtain ⟨rfl, rfl⟩ := hof hj
    exact hdrains hstarts

end

/-! ## Steps -/

section
variable {workers : Workers} {i : Proc R} {l : Local} {g : Server R} {o : WorkerOp} {a : WorkerSig.Ans o}

omit [DecidableEq R] in
theorem drain_of_touched (hΦ : Tending st inputs i (.worker o) l) (hstarts : (i.tender st inputs).starts = false)
    {id : String} (ho : o.touched = some id) : ∃ r, inputs r = .drain id := by
  have hsup : (i.tender st inputs).supervises = true := by
    cases o with
    | updateStatus id change =>
      cases change with
      | ready => exact hΦ.2.1.2.1
      | _ => exact hΦ.2.1.2.2
    | stopAdmitting id => exact hΦ.2.1.2.2
    | insertAdmission id => exact hΦ.2.1.2.2.1
    | _ => cases ho
  cases i with
  | task r => cases hsup
  | request r =>
    cases hr : inputs r with
    | drain id' => exact ⟨r, hΦ.1 r id' rfl hr id ho ▸ hr⟩
    | chat request =>
      simp only [Proc.tender, hr, Input.role] at hsup
      split at hsup <;> cases hsup
    | embeddings request => simp [Proc.tender, hr, Input.role] at hsup
    | swap request => simp [Proc.tender, hr, Input.role] at hstarts
    | stop id' => simp [Proc.tender, hr] at hstarts

/-- A lookup is all that needs no lock. -/
theorem getAdmission_of_unmanaged {role : Role} {h : Holding} (hready : Ready st role (.worker o) h)
    (hnone : h.supervisor = none) (hlock : o ≠ .lockSupervisor) : ∃ id, o = .getAdmission id := by
  cases o with
  | getAdmission id => exact ⟨id, rfl⟩
  | lockSupervisor => exact absurd rfl hlock
  | unlockSupervisor =>
    obtain ⟨_, tenure, hsome, _⟩ := hready
    cases hnone.symm.trans hsome
  | updateStatus id change =>
    cases change with
    | ready =>
      obtain ⟨_, _, tenure, hsome, _⟩ := hready
      cases hnone.symm.trans hsome
    | _ => exact absurd hnone hready.2.1
  | _ => exact absurd hnone hready.2.1

theorem locked_worker (hlock : o ≠ .lockSupervisor) (hunlock : o ≠ .unlockSupervisor) :
    ((serverWorld R st).sh i (.worker o) a l g).supervisorLocked = g.supervisorLocked := by
  cases o with
  | lockSupervisor => exact absurd rfl hlock
  | unlockSupervisor => exact absurd rfl hunlock
  | _ => rfl

theorem tended_worker {loc : Proc R → Local} (h : Tended st workers inputs (tenures loc) g.supervisorLocked g.workers)
    (hΦ : Tending st inputs i (.worker o) (loc i)) (hc : (serverWorld R st).can i (.worker o) a (loc i) g = true) :
    Tended st workers inputs (Function.update (tenures loc) i (o.tenure (loc i).holding.supervisor))
      ((serverWorld R st).sh i (.worker o) a (loc i) g).supervisorLocked (o.workers a g.workers) := by
  by_cases hlock : o = .lockSupervisor
  · subst hlock
    have hfree : g.supervisorLocked = false := by simpa [serverWorld, ServerOp.can, WorkerOp.can] using hc
    rw [hfree] at h
    exact h.acquire
  by_cases hunlock : o = .unlockSupervisor
  · subst hunlock
    obtain ⟨_, tenure, hi, hstarts⟩ := hΦ.2.1
    exact h.release hi hstarts
  rw [locked_worker hlock hunlock]
  cases hi : (loc i).holding.supervisor with
  | none =>
    obtain ⟨id, rfl⟩ := getAdmission_of_unmanaged hΦ.2.1 hi hlock
    have hsame : Function.update (tenures loc) i none = tenures loc := by
      rw [← hi]
      exact Function.update_eq_self i (tenures loc)
    show Tended _ _ _ (Function.update (tenures loc) i none) _ _
    rw [hsame]
    exact h
  | some tenure =>
    have hready : ∀ id, o = .updateStatus id .ready → tenure.opened = some id := by
      rintro id rfl
      obtain ⟨_, _, tenure', hi', hopened⟩ := hΦ.2.1
      cases hi.symm.trans hi'
      exact hopened
    cases ho : o.tenure (some tenure) with
    | none =>
      cases o with
      | unlockSupervisor => exact absurd rfl hunlock
      | _ => cases ho
    | some tenure' =>
      refine h.manage hi (h.wellFormed.workers o a)
        ((h.covers i tenure hi).step h.wellFormed a hready ho hlock) fun hstarts id hid => ?_
      rcases touched_of_unsettled ho hlock hid with hid | htouched
      · exact h.drains i tenure hi hstarts id hid
      · obtain ⟨r, hr⟩ := drain_of_touched hΦ hstarts htouched
        exact fun haw => haw.2 r hr

end

/-! ## Runs -/

theorem tended_reach {workers : Workers} (hw : workers.WellFormed)
    {ok : ServerConf R → Label ServerSig (Proc R) (ServerEvent R) → Prop}
    (hok : ∀ c i, ok c (.drop i) → (c.loc i).holding.supervisor = none) {c : ServerConf R}
    (hr : Reach (serverWorld R st) ok (serverStart st workers inputs) c) :
    Tended st workers inputs (tenures c.loc) c.sh.supervisorLocked c.sh.workers := by
  refine (serverStart_tending st workers inputs).pool
    (J := fun loc g => Tended st workers inputs (tenures loc) g.supervisorLocked g.workers) ?_ ?_ ?_ ?_ hr
  · constructor
    · constructor <;> intro _ _ <;> simp [tenures, serverStart]
    · exact hw
    · intro i tenure hi
      cases hi
    · exact fun _ id hid => hid.1
    · intro i tenure hi
      cases hi
  · intro c i o a h hΦ _ hc
    rw [tenures_update]
    cases o with
    | worker o => exact tended_worker h hΦ hc
    | _ => exact (Function.update_eq_self i (tenures c.loc)).symm ▸ h
  · intro c i o h _ hk _
    have hnone := hok c i hk
    rw [tenures_update]
    have hsame : Function.update (tenures c.loc) i none = tenures c.loc := by
      rw [← hnone]
      exact Function.update_eq_self i (tenures c.loc)
    show Tended _ _ _ (Function.update (tenures c.loc) i none) (c.sh.supervisorLocked && (c.loc i).holding.supervisor.isNone) _
    rw [hsame, hnone, Option.isNone_none, Bool.and_true]
    exact h
  · intro c e h _ _
    show Tended _ _ _ _ (e.apply c.sh).supervisorLocked (e.apply c.sh).workers
    rw [e.apply_eq]
    exact h

/-! ## The record of a swap -/

def Audited (request : AdminSwapRequest) (t : Trace) : Prop :=
  t.audit.map (fun e => (e.requestId, e.action)) = [(some request.requestId, "admin.swap")]

instance (request : AdminSwapRequest) (t : Trace) : Decidable (Audited request t) :=
  inferInstanceAs (Decidable (t.audit.map (fun e => (e.requestId, e.action)) = [(some request.requestId, "admin.swap")]))

def Auditing (request : AdminSwapRequest) (l : Local) : Prop := l.trace.audit = [] ∨ Audited request l.trace

/-- A request that is not authenticated is answered without a record. -/
def SwapAnswered (request : AdminSwapRequest) (response : Response) (l : Local) : Prop :=
  response.Whole ∧
    (Audited request l.trace ∨ ∃ err, response = withRequestId (authErrorResponse err) request.requestId)

section
variable {i : Proc R} {request : AdminSwapRequest} {l : Local}

theorem audited_landed (hl : l.trace.audit = []) {e : AuditEvent} (hid : e.requestId = some request.requestId)
    (haction : e.action = "admin.swap") (u : Unit) :
    Audited request (ServerOp.loc (.store (.insertAuditEvent e)) (.ok u) l).trace := by
  show (l.trace.audit ++ [e]).map (fun e => (e.requestId, e.action)) = _
  rw [hl, List.nil_append, List.map_singleton, hid, haction]

theorem recordAudit_audited (hl : l.trace.audit = []) (principal : Principal) (resource outcome : String)
    (detail : Json) :
    Always (keptWorld R st) i (fun _ l => Auditing request l) (fun _ l => Audited request l.trace)
      (recordAudit (some request.requestId) principal "admin.swap" resource outcome detail) l := by
  refine Always.op (.inl hl) fun now _ _ => Always.op (.inl hl) fun a _ hc => ?_
  cases a with
  | error err => simp [World.allow, recordsKept, refusesQuery] at hc
  | ok _ =>
    refine Always.op (.inl hl) fun a _ hc => ?_
    cases a with
    | error err => simp [World.allow, recordsKept, refusesQuery] at hc
    | ok _ =>
      exact Always.op (.inr (audited_landed hl rfl rfl ())) fun _ _ _ => audited_landed hl rfl rfl ()

theorem supervisor_unaudited {α : Type} (hl : l.trace.audit = []) (p : WorkerProg α) :
    Always (keptWorld R st) i (fun _ l => Auditing request l) (fun _ l => l.trace.audit = []) (supervisor p) l := by
  have hp : p.All fun _ => True := Prog.all_of_forall (fun _ => trivial) p
  exact Always.lifted (fun _ _ _ hl => .inl hl) (fun _ _ _ _ hl => hl) hp hl

theorem swapRejected_audited (hl : l.trace.audit = []) (principal : Principal) (outcome reason : String)
    {response : Response} (hw : response.Whole) :
    Always (keptWorld R st) i (fun _ l => Auditing request l) (SwapAnswered request)
      (swapRejected request principal outcome reason response) l :=
  (recordAudit_audited hl _ _ _ _).seq fun _ _ haudited => ⟨hw.withRequestId _, .inl haudited⟩

theorem adminSwap_audited (hl : l.trace.audit = []) (request : AdminSwapRequest) :
    Always (keptWorld R st) i (fun _ l => Auditing request l) (SwapAnswered request) (adminSwap st request) l := by
  refine Always.op (.inl hl) fun r _ _ => ?_
  cases r with
  | error err => exact ⟨(authErrorResponse_whole err).withRequestId _, .inr ⟨err, rfl⟩⟩
  | ok principal =>
    simp only
    split
    · exact swapRejected_audited hl _ _ _ (errorResponse_whole _ _ _)
    split
    · exact swapRejected_audited hl _ _ _ (errorResponse_whole _ _ _)
    split
    · exact swapRejected_audited hl _ _ _ (errorResponse_whole _ _ _)
    · refine Always.op (.inl hl) fun x _ _ => ?_
      have hlocked : ((keptWorld R st).loc i (.worker .lockSupervisor) x
        ((keptWorld R st).loc i .authenticate (.ok principal) l)).trace.audit = [] := hl
      refine (supervisor_unaudited hlocked _).seq fun execution l' hl' => ?_
      refine Always.op (.inl hl') fun x _ _ => ?_
      have hunlocked : ((keptWorld R st).loc i (.worker .unlockSupervisor) x l').trace.audit = [] := hl'
      refine (recordAudit_audited hunlocked _ _ _ _).seq fun _ _ haudited => ?_
      exact ⟨fun _ he => (by cases he), .inl haudited⟩

end

/-! ## Swaps that run to their end -/

def Input.isSwap : Input → Bool
  | .swap _ => true
  | _ => false

/-- A step at which no holder of the supervisor is dropped, no swap before its record
has landed, and the storage takes the records of swaps. -/
def SwapKept (inputs : R → Input) (c : ServerConf R) : Label ServerSig (Proc R) (ServerEvent R) → Prop
  | .answer i o a => (inputs i.owner).isSwap = true → refusesQuery o a = false
  | .drop i => (c.loc i).holding.supervisor = none ∧ ((inputs i.owner).isSwap = true → (c.loc i).trace.audit ≠ [])
  | .env _ => True

instance (c : ServerConf R) : (l : Label ServerSig (Proc R) (ServerEvent R)) → Decidable (SwapKept inputs c l)
  | .answer i o a => inferInstanceAs (Decidable ((inputs i.owner).isSwap = true → refusesQuery o a = false))
  | .drop i => inferInstanceAs (Decidable ((c.loc i).holding.supervisor = none ∧
      ((inputs i.owner).isSwap = true → (c.loc i).trace.audit ≠ [])))
  | .env _ => .isTrue trivial

/-- Where no swap is dropped before its record, a free supervisor has left no worker
unsettled, and each swap that is over has one record. -/
theorem swap_settles (st : ServerState) {workers : Workers} (hworkers : workers.WellFormed) (inputs : R → Input)
    {c : ServerConf R} (hr : Reach (serverWorld R st) (SwapKept inputs) (serverStart st workers inputs) c) :
    (c.sh.supervisorLocked = false → ∀ id, workers.settled id = true → (∀ r, inputs r ≠ .drain id) →
        c.sh.workers.settled id = true) ∧
      ∀ r request, inputs r = .swap request → c.over (.request r) = true →
        Audited request (c.loc (.request r)).trace ∨ ∃ err, c.prog (.request r) =
          some (.done (some (withRequestId (authErrorResponse err) request.requestId))) := by
  constructor
  · intro hfree id hsettled hdrains
    have h := tended_reach hworkers (fun _ _ hk => hk.1) hr
    refine h.free (fun i => ?_) id ⟨hsettled, hdrains⟩
    cases hi : tenures c.loc i with
    | none => rfl
    | some tenure => cases hfree.symm.trans (h.locked_of hi)
  · intro r request hin hover
    have hswap : (inputs r).isSwap = true := by rw [hin]; rfl
    have hk : c.Keeps (keptWorld R st) (.request r) (fun _ l => Auditing request l)
        (fun response l => Audited request l.trace ∨
          ∃ err, response = some (withRequestId (authErrorResponse err) request.requestId))
        (fun l => Audited request l.trace) := by
      refine Reach.keeps (W := serverWorld R st) rfl ?_ ?_ ?_ hr
      · intro c o a hok hc
        simp only [World.allow, recordsKept, Bool.and_eq_true, Bool.not_eq_true']
        exact ⟨hc, hok hswap⟩
      · intro c o hok hΦ _
        exact hΦ.resolve_left (hok.2 hswap)
      · show Always (keptWorld R st) _ _ _ ((inputs r).serve st) ({} : Local)
        rw [hin]
        refine (adminSwap_audited rfl request).seq fun response l hl => ?_
        rw [hl.1.respond]
        exact hl.2.imp_right (Exists.imp fun _ he => congrArg some he)
    unfold Conf.Keeps at hk
    cases hp : c.prog (.request r) with
    | none =>
      rw [hp] at hk
      exact .inl hk
    | some p =>
      rw [hp] at hk
      cases p with
      | call o k => simp [Conf.over, Conf.pending, hp] at hover
      | done response => exact hk.imp_right (Exists.imp fun _ he => by rw [he])

end

/-! ## A cold swap of the ready worker -/

def coldSwap : AdminSwapRequest := ⟨0, "qwen", "glm", .cold⟩

theorem stoppedGlm_wellFormed : stoppedGlm.WellFormed := by
  constructor
  · intro id gate h
    simp only [stoppedGlm] at h ⊢
    split_ifs at h <;> cases h <;> decide
  · intro id id' gate h h'
    simp only [stoppedGlm] at h h'
    split_ifs at h h' <;> cases h <;> simp_all

theorem swap_settles_cold : ∃ c, Reach (serverWorld Unit fallbackNode) (SwapKept fun _ => .swap coldSwap)
    (serverStart fallbackNode stoppedGlm fun _ => .swap coldSwap) c ∧
    c.sh.workers.settled "qwen" = true ∧ c.sh.workers.settled "glm" = true ∧
    (Audited coldSwap (c.loc (.request ())).trace ∨ ∃ err, c.prog (.request ()) =
      some (.done (some (withRequestId (authErrorResponse err) coldSwap.requestId)))) := by
  have hrun : ∃ c, Reach (serverWorld Unit fallbackNode) (SwapKept fun _ => .swap coldSwap)
      (serverStart fallbackNode stoppedGlm fun _ => .swap coldSwap) c ∧
      c.sh.supervisorLocked = false ∧ c.over (.request ()) = true := by
    refine Conf.exists_reach ((Proc.request ()).turns fallbackNode {} 24) ?_
    decide +kernel
  obtain ⟨c, hr, hfree, hover⟩ := hrun
  obtain ⟨hsettled, haudited⟩ := swap_settles fallbackNode stoppedGlm_wellFormed (fun _ => .swap coldSwap) hr
  refine ⟨c, hr, hsettled hfree "qwen" (by decide) ?_, hsettled hfree "glm" (by decide) ?_,
    haudited () coldSwap rfl hover⟩ <;>
  · intro _ he
    cases he

/-- The client goes away while the process of `qwen` is being killed. -/
theorem dropped_swap_stopping : ∃ c, Reach (serverWorld Unit fallbackNode) (fun _ _ => True)
    (serverStart fallbackNode stoppedGlm fun _ => .swap coldSwap) c ∧
    c.over (.request ()) = true ∧ c.sh.supervisorLocked = false ∧ stoppedGlm.settled "qwen" = true ∧
    (c.sh.workers.status "qwen").state = .stopping ∧ (c.loc (.request ())).trace.audit = [] := by
  refine Conf.exists_reach ((Proc.request ()).turns fallbackNode {} 10 ++ [.drop (.request ())]) ?_
  decide +kernel

end Llmctl
