import Mathlib.Algebra.BigOperators.Group.Finset.Piecewise
import Llmctl.Async.Owned
import Llmctl.Server.Script
import Llmctl.Server.ServingSwap

/-!
# Drains and open streams

A worker's in-flight count is the number of requests that hold a guard of its
gate. A drain waits for an open upstream body exactly as long as its request still
holds the guard.
-/

namespace Llmctl

open Async

def Holding.guards (h : Holding) (gate : Nat) : Nat := if h.worker.any (·.gate == gate) then 1 else 0

theorem guards_none {h : Holding} (hw : h.worker = none) (gate : Nat) : h.guards gate = 0 := by
  simp [Holding.guards, hw]

theorem guards_some {h : Holding} {w : WorkerGuard} (hw : h.worker = some w) (gate : Nat) :
    h.guards gate = if w.gate = gate then 1 else 0 := by
  simp [Holding.guards, hw]

section
variable {R : Type} [DecidableEq R] [Fintype R] {st : ServerState} {inputs : R → Input}

/-- The upstream body that `i` has open is its worker's, and is not one that the
handler hands on. -/
def Sheltered (role : Role) (h : Holding) : Prop :=
  ∀ b, h.upstream = some b → (∃ w, h.worker = some w ∧ w.upstreamAlias = b.upstreamAlias) ∧
    ¬ (role.streams = true ∧ b.status.isSuccess = true)

/-- The answer of an upstream to `i`, with the alias it was sent to. -/
def upstreamAnswer : Label ServerSig (Proc R) (ServerEvent R) → Option (Proc R × String × UpstreamResponse)
  | .answer i (.upstream (.send k _ _ _)) (s : Sent) =>
    match s with
    | .response r => some (i, k, r)
    | _ => none
  | _ => none

/-- A step at which no answer comes from another worker than the guarded one, and
no success to a request for a stream. -/
def BodySheltered (st : ServerState) (inputs : R → Input) (c : ServerConf R)
    (step : Label ServerSig (Proc R) (ServerEvent R)) : Prop :=
  ∀ x ∈ upstreamAnswer step, (∃ w ∈ (c.loc x.1).holding.worker, w.upstreamAlias = x.2.1) ∧
    ¬ ((x.1.role st inputs).streams = true ∧ x.2.2.status.isSuccess = true)

omit [Fintype R] in
instance (c : ServerConf R) (step : Label ServerSig (Proc R) (ServerEvent R)) :
    Decidable (BodySheltered st inputs c step) :=
  inferInstanceAs (Decidable (∀ x ∈ upstreamAnswer step, (∃ w ∈ (c.loc x.1).holding.worker, w.upstreamAlias = x.2.1) ∧
    ¬ ((x.1.role st inputs).streams = true ∧ x.2.2.status.isSuccess = true)))

structure Covered (st : ServerState) (inputs : R → Input) (loc : Proc R → Local) (g : Server R) : Prop where
  count : ∀ n, ∑ i, (loc i).holding.guards n = g.inFlight n
  looked : ∀ i k n, (loc i).trace.gate = some (k, n) → g.workers.registry k = some n
  guarded : ∀ i k n, (loc i).holding.worker = some ⟨k, n⟩ → g.workers.registry k = some n
  sheltered : ∀ i, Sheltered (i.role st inputs) (loc i).holding

/-! ## Steps -/

section
variable {loc : Proc R → Local} {g g' : Server R} {i : Proc R} {l : Local}

/-- What a step of `i` owes for the invariant to go on. -/
theorem Covered.update (h : Covered st inputs loc g) (hreg : g'.workers.registry = g.workers.registry)
    (hcount : ∀ n, (loc i).holding.guards n + g'.inFlight n = l.holding.guards n + g.inFlight n)
    (hlooked : ∀ k n, l.trace.gate = some (k, n) → g.workers.registry k = some n)
    (hguarded : ∀ k n, l.holding.worker = some ⟨k, n⟩ → g.workers.registry k = some n)
    (hsheltered : Sheltered (i.role st inputs) l.holding) : Covered st inputs (Function.update loc i l) g' where
  count n := by
    have hsum := sum_update_add (fun l : Local => l.holding.guards n) loc i l
    have hold := h.count n
    have hnew := hcount n
    omega
  looked := by
    rw [hreg]
    exact (Function.forall_update_iff loc fun _ l => ∀ k n, l.trace.gate = some (k, n) →
      g.workers.registry k = some n).mpr ⟨hlooked, fun j _ => h.looked j⟩
  guarded := by
    rw [hreg]
    exact (Function.forall_update_iff loc fun _ l => ∀ k n, l.holding.worker = some ⟨k, n⟩ →
      g.workers.registry k = some n).mpr ⟨hguarded, fun j _ => h.guarded j⟩
  sheltered := (Function.forall_update_iff loc fun j l => Sheltered (j.role st inputs) l.holding).mpr
    ⟨hsheltered, fun j _ => h.sheltered j⟩

/-- A step that leaves guards, bodies and gates as they are. -/
theorem Covered.frame (h : Covered st inputs loc g) (hreg : g'.workers.registry = g.workers.registry)
    (hflight : g'.inFlight = g.inFlight) (hgate : l.trace.gate = (loc i).trace.gate)
    (hworker : l.holding.worker = (loc i).holding.worker) (hup : l.holding.upstream = (loc i).holding.upstream) :
    Covered st inputs (Function.update loc i l) g' := by
  refine h.update hreg (fun n => ?_) (fun k n hk => ?_) (fun k n hk => ?_) ?_
  · unfold Holding.guards
    rw [hflight, hworker]
  · rw [hgate] at hk
    exact h.looked i k n hk
  · rw [hworker] at hk
    exact h.guarded i k n hk
  · have hi := h.sheltered i
    unfold Sheltered at hi ⊢
    rw [hworker, hup]
    exact hi

theorem registry_workers {o : WorkerOp} (ho : ∀ id, o ≠ .insertAdmission id) (a : WorkerSig.Ans o) (w : Workers) :
    (o.workers a w).registry = w.registry := by
  cases o with
  | insertAdmission id => exact absurd rfl (ho id)
  | stopAdmitting id =>
    show (w.stopAdmitting id).registry = w.registry
    unfold Workers.stopAdmitting
    split <;> rfl
  | insertChild id => cases a <;> rfl
  | _ => rfl

theorem covered_gate (h : Covered st inputs loc g) {o : GateOp} {a : ServerSig.Ans (.gate o)}
    (hserving : i.serving st inputs (.gate o) (loc i)) :
    Covered st inputs (Function.update loc i ((serverWorld R st).loc i (.gate o) a (loc i)))
      ((serverWorld R st).sh i (.gate o) a (loc i) g) := by
  cases o with
  | isAdmitting n => exact h.frame rfl rfl rfl rfl rfl
  | increment k n =>
    obtain ⟨⟨_, hnone, hup⟩, _, hgate, _⟩ := hserving
    have hreg := h.looked i k n hgate
    refine h.update rfl (fun m => ?_) (h.looked i) ?_ ?_
    · rw [guards_none hnone, guards_some (w := ⟨k, n⟩) rfl]
      show 0 + Function.update g.inFlight n (g.inFlight n + 1) m = (if n = m then 1 else 0) + g.inFlight m
      by_cases hm : m = n
      · subst hm; simp [Nat.add_comm]
      · simp [hm, Ne.symm hm]
    · rintro k' n' hw
      cases hw
      exact hreg
    · intro b hb
      rw [show ((serverWorld R st).loc i (.gate (.increment k n)) a (loc i)).holding.upstream =
        (loc i).holding.upstream from rfl, hup] at hb
      cases hb
  | decrement =>
    obtain ⟨⟨_, hsome, hstreams⟩, _, _⟩ := hserving
    obtain ⟨w, hw⟩ := Option.ne_none_iff_exists'.mp hsome
    have hpos : 0 < g.inFlight w.gate := by
      rw [← h.count]
      refine lt_of_lt_of_le ?_ (le_sum (fun l : Local => l.holding.guards w.gate) loc i)
      simp [guards_some hw]
    have hup : (loc i).holding.upstream = none := by
      cases hb : (loc i).holding.upstream with
      | none => rfl
      | some b => exact absurd (hstreams b hb) (h.sheltered i b hb).2
    refine h.update rfl (fun m => ?_) (h.looked i) (fun _ _ hw => by cases hw) ?_
    · rw [guards_some hw]
      show _ + GateOp.sh .decrement (loc i).holding g.inFlight m = 0 + g.inFlight m
      simp only [GateOp.sh, hw]
      by_cases hm : m = w.gate
      · subst hm; simp; omega
      · simp [hm, Ne.symm hm]
    · intro b hb
      rw [show ((serverWorld R st).loc i (.gate .decrement) a (loc i)).holding.upstream =
        (loc i).holding.upstream from rfl, hup] at hb
      cases hb

theorem covered_worker (h : Covered st inputs loc g) (hswaps : ∀ r request, inputs r ≠ .swap request) {o : WorkerOp}
    {a : WorkerSig.Ans o} (hserving : i.serving st inputs (.worker o) (loc i))
    (hc : (serverWorld R st).can i (.worker o) a (loc i) g = true) :
    Covered st inputs (Function.update loc i ((serverWorld R st).loc i (.worker o) a (loc i)))
      ((serverWorld R st).sh i (.worker o) a (loc i) g) := by
  have hstarts : (i.role st inputs).starts = false := by
    cases i with
    | task r => rfl
    | request r =>
      show ((inputs r).role st).starts = false
      cases hr : inputs r with
      | swap request => exact absurd hr (hswaps r request)
      | chat request => simp only [Input.role]; split <;> rfl
      | _ => rfl
  have hreg : (o.workers a g.workers).registry = g.workers.registry := by
    apply registry_workers
    rintro id rfl
    have := hserving.1.2.2.2
    rw [hstarts] at this
    cases this
  cases o with
  | getAdmission id =>
    have ha : a = g.workers.registry id := by simpa [serverWorld, ServerOp.can, WorkerOp.can] using hc
    refine h.update hreg (fun n => rfl) ?_ (h.guarded i) (h.sheltered i)
    intro k n hk
    cases a with
    | none => exact h.looked i k n hk
    | some m =>
      cases hk
      exact ha.symm
  | _ => exact h.frame hreg rfl rfl rfl rfl

theorem covered_upstream (h : Covered st inputs loc g) {o : UpstreamOp} {a : ServerSig.Ans (.upstream o)}
    {c : ServerConf R} (hloc : c.loc = loc) (hok : BodySheltered st inputs c (.answer i (.upstream o) a)) :
    Covered st inputs (Function.update loc i ((serverWorld R st).loc i (.upstream o) a (loc i)))
      ((serverWorld R st).sh i (.upstream o) a (loc i) g) := by
  subst hloc
  have hbody : ∀ {up : Option OpenBody},
      ((serverWorld R st).loc i (.upstream o) a (c.loc i)).holding.upstream = up →
      Sheltered (i.role st inputs) { (c.loc i).holding with upstream := up } →
      Covered st inputs (Function.update c.loc i ((serverWorld R st).loc i (.upstream o) a (c.loc i)))
        ((serverWorld R st).sh i (.upstream o) a (c.loc i) g) := by
    intro up hup hs
    refine h.update rfl (fun n => rfl) (h.looked i) (h.guarded i) ?_
    intro b hb
    rw [hup] at hb
    exact hs b hb
  cases o with
  | send k url body apiKey =>
    cases a with
    | response r =>
      refine hbody rfl ?_
      rintro b ⟨⟩
      exact hok (i, k, r) rfl
    | failed isTimeout => exact h.frame rfl rfl rfl rfl rfl
    | timedOut => exact h.frame rfl rfl rfl rfl rfl
  | readBody => exact hbody rfl fun b hb => by cases hb
  | close => exact hbody rfl fun b hb => by cases hb
  | _ => exact h.frame rfl rfl rfl rfl rfl

theorem covered_answer (hswaps : ∀ r request, inputs r ≠ .swap request) {c : ServerConf R}
    (h : Covered st inputs c.loc c.sh) {o : ServerOp} {a : ServerSig.Ans o}
    (hserving : i.serving st inputs o (c.loc i)) (hok : BodySheltered st inputs c (.answer i o a))
    (hc : (serverWorld R st).can i o a (c.loc i) c.sh = true) :
    Covered st inputs (Function.update c.loc i ((serverWorld R st).loc i o a (c.loc i)))
      ((serverWorld R st).sh i o a (c.loc i) c.sh) := by
  cases o with
  | worker o => exact covered_worker h hswaps hserving hc
  | gate o => exact covered_gate h hserving
  | upstream o => exact covered_upstream h rfl hok
  | _ => exact h.frame rfl rfl rfl rfl rfl

theorem covered_drop {c : ServerConf R} (h : Covered st inputs c.loc c.sh) (o : ServerOp) :
    Covered st inputs (Function.update c.loc i ((serverWorld R st).dropLoc i o (c.loc i)))
      ((serverWorld R st).dropSh i o (c.loc i) c.sh) := by
  refine h.update rfl (fun m => ?_) (h.looked i) (fun _ _ hw => by cases hw) (fun b hb => by cases hb)
  show (c.loc i).holding.guards m + GateOp.sh .decrement (c.loc i).holding c.sh.inFlight m = 0 + c.sh.inFlight m
  cases hw : (c.loc i).holding.worker with
  | none => simp [GateOp.sh, hw, guards_none hw]
  | some w =>
    have hpos : 0 < c.sh.inFlight w.gate := by
      rw [← h.count]
      refine lt_of_lt_of_le ?_ (le_sum (fun l : Local => l.holding.guards w.gate) c.loc i)
      simp [guards_some hw]
    rw [guards_some hw]
    simp only [GateOp.sh, hw]
    by_cases hm : m = w.gate
    · subst hm; simp; omega
    · simp [hm, Ne.symm hm]

end

/-- Where no answer comes to a request for a stream, nor from a worker that the
request holds no guard of, an open body counts as in flight and no drain sees zero. -/
theorem drain_covers (st : ServerState) (workers : Workers) (inputs : R → Input)
    (hswaps : ∀ r request, inputs r ≠ .swap request) {c : ServerConf R}
    (hr : Reach (serverWorld R st) (BodySheltered st inputs) (serverStart st workers inputs) c) {i : Proc R} {b : OpenBody}
    (hb : (c.loc i).holding.upstream = some b) :
    ∃ n, c.sh.workers.registry b.upstreamAlias = some n ∧ (c.loc i).holding.worker = some ⟨b.upstreamAlias, n⟩ ∧
      c.sh.inFlight n = (Finset.univ.filter fun j => (c.loc j).holding.worker.any (·.gate == n) = true).card ∧
      ∀ j m, (serverWorld R st).can j (.worker (.inFlight n)) m (c.loc j) c.sh = true → 0 < m := by
  have h : Covered st inputs c.loc c.sh := by
    refine (serverStart_typed st workers inputs).pool (J := Covered st inputs) ?_ ?_ ?_ ?_ hr
    · constructor
      · intro n
        exact Finset.sum_eq_zero fun i _ => guards_none rfl n
      · intro i k n hk
        cases hk
      · intro i k n hk
        cases hk
      · intro i b hb
        cases hb
    · exact fun c i o a h hserving hok hc => covered_answer hswaps h hserving hok hc
    · exact fun c i o h _ _ _ => covered_drop h o
    · intro c e h _ _
      show Covered st inputs c.loc (e.apply c.sh)
      rw [e.apply_eq]
      exact ⟨h.count, h.looked, h.guarded, h.sheltered⟩
  obtain ⟨⟨w, hw, hk⟩, _⟩ := h.sheltered i b hb
  obtain ⟨k, n⟩ := w
  obtain rfl : k = b.upstreamAlias := hk
  have hpos : 0 < c.sh.inFlight n := by
    rw [← h.count]
    refine lt_of_lt_of_le ?_ (le_sum (fun l : Local => l.holding.guards n) c.loc i)
    simp [guards_some hw]
  refine ⟨n, h.guarded i _ n hw, hw, ?_, ?_⟩
  · rw [← h.count, Finset.card_filter]
    rfl
  · intro j m hm
    have he : m = c.sh.inFlight n := by simpa [serverWorld, ServerOp.can, WorkerOp.can] using hm
    rw [he]
    exact hpos

/-! ## A streamed answer -/

def readyQwen : Workers where
  statuses id := if id = "qwen" then some ⟨"qwen", some 1, .ready, 0, none⟩ else none
  children id := id == "qwen"
  registry id := if id = "qwen" then some 0 else none
  admitting n := n == 0
  nextGate := 1

def supervisedNode : ServerState := { oneModelNode with workerControl := .shared }

/-- The guard is dropped when the handler returns; the stream is still open. -/
theorem stream_not_in_flight : ∃ c, Reach (serverWorld Unit supervisedNode) (fun _ _ => True)
    (serverStart supervisedNode readyQwen fun _ => chatInput 0 "stream") c ∧
    (c.loc (.request ())).holding.upstream = some ⟨"qwen", 200⟩ ∧ c.sh.workers.registry "qwen" = some 0 ∧
    c.sh.inFlight 0 = 0 := by
  refine Conf.exists_reach ((Proc.request ()).turns supervisedNode { sent := .response ⟨200, none, 2⟩ } 25) ?_
  decide +kernel

theorem drain_covers_whole : ∃ c, Reach (serverWorld Unit supervisedNode)
    (BodySheltered supervisedNode fun _ => chatInput 0 "") (serverStart supervisedNode readyQwen fun _ => chatInput 0 "") c ∧
    (c.loc (.request ())).holding.upstream = some ⟨"qwen", 200⟩ ∧
    ∃ n, c.sh.workers.registry "qwen" = some n ∧
      ∀ j m, (serverWorld Unit supervisedNode).can j (.worker (.inFlight n)) m (c.loc j) c.sh = true → 0 < m := by
  have hrun : ∃ c, Reach (serverWorld Unit supervisedNode)
      (BodySheltered supervisedNode fun _ => chatInput 0 "") (serverStart supervisedNode readyQwen fun _ => chatInput 0 "") c ∧
      (c.loc (.request ())).holding.upstream = some ⟨"qwen", 200⟩ := by
    refine Conf.exists_reach ((Proc.request ()).turns supervisedNode {} 20) ?_
    decide +kernel
  obtain ⟨c, hr, hb⟩ := hrun
  obtain ⟨n, hn, _, _, hdrain⟩ :=
    drain_covers supervisedNode readyQwen (fun _ => chatInput 0 "") (fun _ _ he => by cases he) hr hb
  exact ⟨c, hr, hb, n, hn, hdrain⟩

end

end Llmctl
