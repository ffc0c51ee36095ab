import Llmctl.Async.Owned
import Llmctl.Server.Script
import Llmctl.Server.ServingSwap
import Llmctl.TrafficSound

/-!
# Half-open probes

A breaker's flag says that a probe is in flight. What each step does to the flags
and to the probes of the requests is said once (`probe_step`); that a flag has its
probe, and that an upstream has one probe at most, follow from it.
-/

namespace Llmctl

open Async CircuitBreakers

def Holding.probe (h : Holding) : Option String :=
  h.attempt.bind fun a => if a.probe then some a.upstream else none

def ServerOp.outcome : ServerOp → Option String
  | .breaker (.recordSuccess u) | .breaker (.recordFailure u) => some u
  | _ => none

/-- An answer that ends its attempt with no outcome on record. -/
def ServerOp.unrecorded : (o : ServerOp) → ServerSig.Ans o → Bool
  | .upstream (.send ..), (s : Sent) =>
    match s with
    | .response r => !(r.status.isSuccess || shouldRetryUpstreamStatus r.status)
    | _ => false
  | _, _ => false

section
variable {R : Type} [DecidableEq R] {st : ServerState} {inputs : R → Input}

omit [DecidableEq R] in
theorem probing_update_true {b : CircuitBreakers} {u : String} {resetAfter now : Nat}
    (hv : b.verdict u resetAfter now = .probe) :
    probing (b.allowRequest u resetAfter now).2 = Function.update (probing b) u true := by
  funext u'
  rw [probing_allowRequest]
  by_cases hu : u' = u
  · subst hu; simp [hv]
  · simp [hu]

theorem probing_allowRequest_of_ne {b : CircuitBreakers} {u : String} {resetAfter now : Nat}
    (hv : b.verdict u resetAfter now ≠ .probe) : probing (b.allowRequest u resetAfter now).2 = probing b := by
  funext u'
  rw [probing_allowRequest]
  simp [hv]

theorem probing_recordSuccess_eq (b : CircuitBreakers) (u : String) :
    probing (b.recordSuccess u) = Function.update (probing b) u false := by
  funext u'
  rw [probing_recordSuccess]
  by_cases hu : u' = u
  · subst hu; simp
  · simp [hu]

theorem probing_recordFailure_eq (b : CircuitBreakers) (u : String) (threshold now : Nat) :
    probing (b.recordFailure u threshold now) = Function.update (probing b) u false := by
  funext u'
  rw [probing_recordFailure]
  by_cases hu : u' = u
  · subst hu; simp
  · simp [hu]

/-! ## Steps -/

/-- What an answer does to the caller's probe and to the flags. -/
inductive ProbeStep (o : ServerOp) (a : ServerSig.Ans o) (p : Option String) (flags : String → Bool) :
    Option String → (String → Bool) → Prop where
  | keep : ProbeStep o a p flags p flags
  | probe (u : String) (hp : p = none) (hu : flags u = false) :
      ProbeStep o a p flags (some u) (Function.update flags u true)
  | record (u : String) (ho : o.outcome = some u) (hp : ∀ u', p = some u' → u' = u) :
      ProbeStep o a p flags none (Function.update flags u false)
  | leave (ho : o.unrecorded a = true) : ProbeStep o a p flags none flags

theorem probe_of_quiet {h : Holding} (hq : Quiet h) : h.probe = none := by
  unfold Holding.probe
  rw [hq.attempt]
  rfl

theorem probe_of_attempting {h : Holding} {a : Attempt} (ha : Attempting h a) {u : String} (hu : h.probe = some u) :
    u = a.upstream := by
  unfold Holding.probe at hu
  rw [ha.attempt, Option.bind_some] at hu
  split at hu
  · exact (Option.some.inj hu).symm
  · cases hu

theorem breaker_step {i : Proc R} {o : BreakerOp} {a : ServerSig.Ans (.breaker o)} {l : Local} {g : Server R}
    {role : Role} (hready : Ready st role (.breaker o) l.holding)
    (hc : (serverWorld R st).can i (.breaker o) a l g = true) :
    ProbeStep (.breaker o) a l.holding.probe (probing g.breakers) ((serverWorld R st).loc i (.breaker o) a l).holding.probe
      (probing ((serverWorld R st).sh i (.breaker o) a l g).breakers) := by
  cases o with
  | allowRequest k u =>
    have hp : l.holding.probe = none := probe_of_quiet hready.1
    obtain rfl : a = g.breakers.verdict u (millis st.cfg.server.circuitBreakerResetSeconds) g.instant := by
      simpa [serverWorld, ServerOp.can] using hc
    show ProbeStep _ _ _ _ _ (probing (g.breakers.allowRequest u _ g.instant).2)
    generalize hv : g.breakers.verdict u (millis st.cfg.server.circuitBreakerResetSeconds) g.instant = v
    cases v with
    | refused =>
      rw [probing_allowRequest_of_ne (by rw [hv]; decide)]
      exact .keep
    | closed =>
      rw [probing_allowRequest_of_ne (by rw [hv]; decide), hp]
      exact .keep
    | probe =>
      rw [probing_update_true hv, hp]
      exact .probe u rfl (not_probing_of_probe hv)
  | recordSuccess u =>
    obtain ⟨att, hatt, rfl⟩ := hready
    show ProbeStep _ _ _ _ _ (probing (g.breakers.recordSuccess att.upstream))
    rw [probing_recordSuccess_eq]
    exact .record att.upstream rfl fun u' hu' => probe_of_attempting hatt hu'
  | recordFailure u =>
    obtain ⟨att, hatt, rfl⟩ := hready
    show ProbeStep _ _ _ _ _ (probing (g.breakers.recordFailure att.upstream _ g.instant))
    rw [probing_recordFailure_eq]
    exact .record att.upstream rfl fun u' hu' => probe_of_attempting hatt hu'

theorem upstream_step {i : Proc R} {o : UpstreamOp} {a : ServerSig.Ans (.upstream o)} {l : Local} (flags : String → Bool) :
    ProbeStep (.upstream o) a l.holding.probe flags ((serverWorld R st).loc i (.upstream o) a l).holding.probe flags := by
  cases o with
  | send k url body apiKey =>
    cases a with
    | response r =>
      by_cases hr : (r.status.isSuccess || shouldRetryUpstreamStatus r.status) = true
      · have he : ((serverWorld R st).loc i (.upstream (.send k url body apiKey)) (.response r) l).holding.probe =
            l.holding.probe := by
          simp only [serverWorld, ServerOp.loc, ServerOp.holding, UpstreamOp.attempt, Holding.probe, hr, if_true]
        rw [he]
        exact .keep
      · have he : ((serverWorld R st).loc i (.upstream (.send k url body apiKey)) (.response r) l).holding.probe =
            none := by
          simp only [serverWorld, ServerOp.loc, ServerOp.holding, UpstreamOp.attempt, Holding.probe, hr,
            Bool.false_eq_true, if_false, Option.bind_none]
        rw [he]
        exact .leave (by simpa [ServerOp.unrecorded] using hr)
    | failed isTimeout => exact .keep
    | timedOut => exact .keep
  | _ => exact .keep

/-- Only a breaker's operations and the answer of an upstream matter. -/
theorem probe_step {i : Proc R} {o : ServerOp} {a : ServerSig.Ans o} {l : Local} {g : Server R}
    (hserving : i.serving st inputs o l) (hc : (serverWorld R st).can i o a l g = true) :
    ProbeStep o a l.holding.probe (probing g.breakers) ((serverWorld R st).loc i o a l).holding.probe
      (probing ((serverWorld R st).sh i o a l g).breakers) := by
  cases o with
  | breaker o => exact breaker_step hserving.1 hc
  | upstream o => exact upstream_step _
  | _ => exact .keep

def probes (loc : Proc R → Local) (i : Proc R) : Option String := (loc i).holding.probe

theorem probes_update (loc : Proc R → Local) (i : Proc R) (l : Local) :
    probes (Function.update loc i l) = Function.update (probes loc) i l.holding.probe :=
  comp_update_eq (fun l => l.holding.probe) loc i l

/-! ## A flag has its probe -/

/-- A step that does not make a probe end without its outcome on record. -/
def ProbeRecorded (c : ServerConf R) : Label ServerSig (Proc R) (ServerEvent R) → Prop
  | .answer i o a => o.unrecorded a = true → probes c.loc i = none
  | .drop i => probes c.loc i = none
  | .env _ => True

theorem probe_backed (workers : Workers) {c : ServerConf R}
    (hr : Reach (serverWorld R st) ProbeRecorded (serverStart st workers inputs) c) :
    Backed (probes c.loc) (probing c.sh.breakers) := by
  refine (serverStart_typed st workers inputs).pool (J := fun loc g => Backed (probes loc) (probing g.breakers))
    ?_ ?_ ?_ ?_ hr
  · intro u hu
    have hnone : probing (restingServer R st workers).breakers u = false := by simp [restingServer, probing]
    rw [show (serverStart st workers inputs).sh = restingServer R st workers from rfl, hnone] at hu
    cases hu
  · intro c i o a hJ hΦ hok hc
    rw [probes_update]
    have hstep := probe_step hΦ hc
    generalize ((serverWorld R st).loc i o a (c.loc i)).holding.probe = p at hstep ⊢
    generalize probing ((serverWorld R st).sh i o a (c.loc i) c.sh).breakers = flags at hstep ⊢
    cases hstep with
    | keep => exact hJ.keep rfl
    | probe u hp _ => exact hJ.acquire hp
    | record u _ hp => exact hJ.clear hp
    | leave ho => exact hJ.keep (hok ho).symm
  · intro c i o hJ _ hok _
    rw [probes_update]
    exact hJ.keep (Eq.symm hok)
  · intro c e hJ _ _
    show Backed (probes c.loc) (probing (e.apply c.sh).breakers)
    rw [e.apply_eq]
    exact hJ

/-- Where every probe ends with its outcome on record, a flag has a probe under way,
and an upstream without one is let through again after the reset time. -/
theorem probe_resolved (st : ServerState) (workers : Workers) (inputs : R → Input) {c : ServerConf R}
    (hr : Reach (serverWorld R st) ProbeRecorded (serverStart st workers inputs) c) (u : String) :
    (probing c.sh.breakers u = true → ∃ i o k, c.prog i = some (.call o k) ∧ probes c.loc i = some u) ∧
      ((∀ i, probes c.loc i ≠ some u) → ∀ resetAfter now,
        (∀ s t, c.sh.breakers[u]? = some s → s.openedAt = some t → resetAfter ≤ now - t) →
        (c.sh.breakers.allowRequest u resetAfter now).1 = true) := by
  have hbacked := probe_backed workers hr
  refine ⟨fun hp => ?_, fun hnone resetAfter now hreset => allowRequest_of_not_probing ?_ hreset⟩
  · obtain ⟨i, hi⟩ := hbacked u hp
    have hholds : (c.loc i).holding ≠ {} := fun he => by simp [probes, he, Holding.probe] at hi
    obtain ⟨o, k, hk⟩ := running_of_holding hr hholds
    exact ⟨i, o, k, hk, hi⟩
  by_contra hp
  obtain ⟨i, hi⟩ := hbacked u (by simpa using hp)
  exact hnone i hi

instance (c : ServerConf R) : (l : Label ServerSig (Proc R) (ServerEvent R)) → Decidable (ProbeRecorded c l)
  | .answer i o a => inferInstanceAs (Decidable (o.unrecorded a = true → probes c.loc i = none))
  | .drop i => inferInstanceAs (Decidable (probes c.loc i = none))
  | .env _ => .isTrue trivial

def qwenUpstream : String := "http://127.0.0.1:9000"

/-- A request opens the breaker, and a later one goes out as its probe. -/
def openThenProbe : List (ServerChoice Bool) :=
  (Proc.request false).turns oneModelNode {} 15 ++
  (Proc.request false).turns oneModelNode { sent := .failed false } 2 ++
  [.env (.tick 1000)] ++ (Proc.request true).turns oneModelNode {} 15

/-- The probe is answered with 404: the flag outlives it, and the upstream is refused
for good. -/
theorem probe_lost_on_404 : ∃ c, Reach (serverWorld Bool oneModelNode) (fun _ _ => True)
    (serverStart oneModelNode {} fun _ => chatInput 0 "") c ∧ (∀ i, probes c.loc i = none) ∧
    ∀ resetAfter now, (c.sh.breakers.allowRequest qwenUpstream resetAfter now).1 = false := by
  have hrun : ∃ c, Reach (serverWorld Bool oneModelNode) (fun _ _ => True)
      (serverStart oneModelNode {} fun _ => chatInput 0 "") c ∧ (∀ i, probes c.loc i = none) ∧
      c.sh.breakers[qwenUpstream]? = some ⟨1, some 0, true⟩ := by
    refine Conf.exists_reach (openThenProbe ++
      (Proc.request true).turns oneModelNode { sent := .response ⟨404, none, 0⟩ } 1) ?_
    decide +kernel
  obtain ⟨c, hr, hnone, hstate⟩ := hrun
  refine ⟨c, hr, hnone, ?_⟩
  exact allowRequest_of_probing hstate (by decide) rfl

theorem probe_resolved_under_way : ∃ c, Reach (serverWorld Bool oneModelNode) ProbeRecorded
    (serverStart oneModelNode {} fun _ => chatInput 0 "") c ∧ probing c.sh.breakers qwenUpstream = true ∧
    ∃ i o k, c.prog i = some (.call o k) ∧ probes c.loc i = some qwenUpstream := by
  have hrun : ∃ c, Reach (serverWorld Bool oneModelNode) ProbeRecorded
      (serverStart oneModelNode {} fun _ => chatInput 0 "") c ∧ probing c.sh.breakers qwenUpstream = true := by
    refine Conf.exists_reach openThenProbe ?_
    decide +kernel
  obtain ⟨c, hr, hp⟩ := hrun
  exact ⟨c, hr, hp, (probe_resolved oneModelNode {} _ hr qwenUpstream).1 hp⟩

/-! ## One probe at most -/

/-- A step that does not record an outcome on an upstream while another request
probes it. -/
def OutcomeAlone (c : ServerConf R) : Label ServerSig (Proc R) (ServerEvent R) → Prop
  | .answer i o _ => ∀ u ∈ o.outcome, ∀ j, j ≠ i → probes c.loc j ≠ some u
  | _ => True

/-- Where no request records an outcome over another's probe, an upstream has one
probe at most. -/
theorem probe_unique (st : ServerState) (workers : Workers) (inputs : R → Input) {c : ServerConf R}
    (hr : Reach (serverWorld R st) OutcomeAlone (serverStart st workers inputs) c) {i j : Proc R} {u : String}
    (hi : probes c.loc i = some u) (hj : probes c.loc j = some u) : i = j := by
  suffices hsingle : Single (probes c.loc) (probing c.sh.breakers) from hsingle.own i j u hi hj
  refine (serverStart_typed st workers inputs).pool (J := fun loc g => Single (probes loc) (probing g.breakers))
    ?_ ?_ ?_ ?_ hr
  · have hnone : ∀ i u, probes (serverStart st workers inputs).loc i ≠ some u := by
      intro i u
      simp [probes, serverStart, Holding.probe]
    exact ⟨fun i u h => absurd h (hnone i u), fun i j u h => absurd h (hnone i u)⟩
  · intro c i o a hJ hΦ hok hc
    rw [probes_update]
    have hstep := probe_step hΦ hc
    generalize ((serverWorld R st).loc i o a (c.loc i)).holding.probe = p at hstep ⊢
    generalize probing ((serverWorld R st).sh i o a (c.loc i) c.sh).breakers = flags at hstep ⊢
    cases hstep with
    | keep => exact hJ.keep rfl
    | probe u _ hu => exact hJ.acquire hu
    | record u ho _ => exact hJ.clear (hok u ho)
    | leave _ => exact hJ.abandon
  · intro c i o hJ _ _ _
    rw [probes_update]
    exact hJ.abandon
  · intro c e hJ _ _
    show Single (probes c.loc) (probing (e.apply c.sh).breakers)
    rw [e.apply_eq]
    exact hJ

instance [Fintype R] (c : ServerConf R) :
    (l : Label ServerSig (Proc R) (ServerEvent R)) → Decidable (OutcomeAlone c l)
  | .answer i o _ => inferInstanceAs (Decidable (∀ u ∈ o.outcome, ∀ j, j ≠ i → probes c.loc j ≠ some u))
  | .drop _ => .isTrue trivial
  | .env _ => .isTrue trivial

/-- The late failure of request 0 clears the flag of request 2's probe. -/
theorem two_probes : ∃ c, Reach (serverWorld (Fin 4) oneModelNode) (fun _ _ => True)
    (serverStart oneModelNode {} fun _ => chatInput 0 "") c ∧
    probes c.loc (.request 2) = some qwenUpstream ∧ probes c.loc (.request 3) = some qwenUpstream := by
  refine Conf.exists_reach
    ((Proc.request 0).turns oneModelNode {} 15 ++
      (Proc.request 1).turns oneModelNode {} 15 ++ (Proc.request 1).turns oneModelNode { sent := .failed false } 2 ++
      [.env (.tick 1000)] ++ (Proc.request 2).turns oneModelNode {} 15 ++
      (Proc.request 0).turns oneModelNode { sent := .failed false } 2 ++
      [.env (.tick 1000)] ++ (Proc.request 3).turns oneModelNode {} 15) ?_
  decide +kernel

theorem probe_unique_under_way : ∃ c, Reach (serverWorld Bool oneModelNode) OutcomeAlone
    (serverStart oneModelNode {} fun _ => chatInput 0 "") c ∧ probes c.loc (.request true) = some qwenUpstream ∧
    ∀ j, probes c.loc j = some qwenUpstream → j = .request true := by
  have hrun : ∃ c, Reach (serverWorld Bool oneModelNode) OutcomeAlone
      (serverStart oneModelNode {} fun _ => chatInput 0 "") c ∧ probes c.loc (.request true) = some qwenUpstream := by
    refine Conf.exists_reach openThenProbe ?_
    decide +kernel
  obtain ⟨c, hr, hp⟩ := hrun
  exact ⟨c, hr, hp, fun j hj => probe_unique oneModelNode {} _ hr hj hp⟩

end

end Llmctl
