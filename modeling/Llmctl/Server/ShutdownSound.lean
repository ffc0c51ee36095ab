import Llmctl.Server.CapacitySound
import Llmctl.Server.Routes

/-!
# A server that drains

Once the server drains, a request that has not begun is refused and leaves no trace. A
server that drains and has nothing under way stays as it is.
-/

namespace Llmctl

open Async

def drainingRefusal (requestId : Nat) : Response :=
  withRequestId (errorResponse 503 "server_draining" "server is draining; retry on another node") requestId

/-- The admin routes go on while the server drains. -/
def Route.sheds : Route → Bool
  | .served (.chat _) | .served (.embeddings _) | .models _ | .search _ | .recommendations _ => true
  | _ => false

/-- A route that sheds asks first whether the server drains. -/
theorem serve_of_sheds (st : ServerState) {route : Route} (h : route.sheds = true) :
    ∃ k requestId, route.requestId = some requestId ∧ route.serve st = .call .isDraining k ∧
      k true = .done (some (drainingRefusal requestId)) := by
  cases route with
  | served input =>
    cases input with
    | chat request => exact ⟨_, request.requestId, rfl, rfl, rfl⟩
    | embeddings request => exact ⟨_, request.requestId, rfl, rfl, rfl⟩
    | _ => cases h
  | models requestId => exact ⟨_, requestId, rfl, rfl, rfl⟩
  | admin requestId page fields => cases h
  | search request => exact ⟨_, request.requestId, rfl, rfl, rfl⟩
  | recommendations request => exact ⟨_, request.requestId, rfl, rfl, rfl⟩

section
variable {R : Type} [DecidableEq R] {st : ServerState} {workers : Workers} {routes : R → Route} {r : R}
  {c c' : ServerConf R} {ok : ServerConf R → Label ServerSig (Proc R) (ServerEvent R) → Prop}

/-- The steps that process `i` takes itself. -/
def OwnStep (i : Proc R) : Label ServerSig (Proc R) (ServerEvent R) → Prop
  | .answer j _ _ => j = i
  | .drop j => j = i
  | .env _ => False

/-! ## One request -/

/-- Nothing is held, recorded or handed over for the request. -/
structure Traceless (c : ServerConf R) (r : R) : Prop where
  loc : c.loc (.request r) = {}
  jobs : c.sh.jobs r = none

omit [DecidableEq R] in
theorem loc_isDraining (l : Local) (a : ServerSig.Ans .isDraining) : ServerOp.loc .isDraining a l = l := rfl

theorem Traceless.step_other (h : Traceless c r) {label : Label ServerSig (Proc R) (ServerEvent R)}
    (hs : Step (serverWorld R st) c label c') (hother : ¬ OwnStep (.request r) label) :
    Traceless c' r ∧ c'.prog (.request r) = c.prog (.request r) := by
  cases hs with
  | @answer i o k a hp hc =>
    have hi : i ≠ .request r := hother
    have hir : Proc.request r ≠ i := fun he => hi he.symm
    have hjobs : (o.sh st i (c.loc i) c.sh a).jobs r = c.sh.jobs r ∨ i = .task r ∧ o = .task .start := jobs_other hi a
    refine ⟨⟨?_, ?_⟩, ?_⟩
    · simpa [Function.update_of_ne hir] using h.loc
    · rcases hjobs with hjobs | ⟨hi, ho⟩
      · exact hjobs.trans h.jobs
      · subst hi ho
        have hjob : c.sh.jobs r = some a := by simpa [serverWorld, ServerOp.can, Server.job] using hc
        simp [h.jobs] at hjob
    · simp [Function.update_of_ne hir]
  | @drop i o k hp hd =>
    have hi : i ≠ .request r := hother
    have hir : Proc.request r ≠ i := fun he => hi he.symm
    refine ⟨⟨?_, ?_⟩, ?_⟩
    · simpa [Function.update_of_ne hir] using h.loc
    · exact (jobs_drop hi).trans h.jobs
    · simp [Function.update_of_ne hir]
  | env he =>
    refine ⟨⟨h.loc, ?_⟩, rfl⟩
    show (ServerEvent.apply c.sh _).jobs r = none
    rw [ServerEvent.apply_eq]
    exact h.jobs

theorem draining_step {label : Label ServerSig (Proc R) (ServerEvent R)} (hs : Step (serverWorld R st) c label c')
    (h : c.sh.draining = true) : c'.sh.draining = true := by
  cases hs with
  | @answer i o k a hp hc => cases o <;> exact h
  | drop hp hd => exact h
  | @env e he =>
    cases e with
    | tick n => exact h
    | beginDrain => rfl
    | decodeReturns i =>
      show (ServerEvent.apply c.sh _).draining = true
      simp only [ServerEvent.apply]
      split <;> exact h

theorem traceless_of_arrived
    (harrived : Reach (serverWorld R st) (fun _ label => ¬ OwnStep (.request r) label) (routerStart st workers routes) c) :
    Traceless c r ∧ c.prog (.request r) = some ((routes r).serve st) := by
  refine harrived.invariant (J := fun c => Traceless c r ∧ c.prog (.request r) = some ((routes r).serve st))
    ⟨⟨rfl, rfl⟩, rfl⟩ ?_
  intro c label c' ⟨h, hprog⟩ hother hs
  obtain ⟨h', hsame⟩ := h.step_other hs hother
  exact ⟨h', hsame.trans hprog⟩

/-- The request has not begun, or was refused. -/
def Unserved (st : ServerState) (route : Route) (p : Option (ServerProg (Option Response))) : Prop :=
  p = some (route.serve st) ∨
    ∃ requestId, route.requestId = some requestId ∧ p = some (.done (some (drainingRefusal requestId)))

/-- The only step of an unserved request is its refusal. -/
theorem unserved_step {route : Route} (hsheds : route.sheds = true) (hdraining : c.sh.draining = true)
    (hprog : Unserved st route (c.prog (.request r)))
    {label : Label ServerSig (Proc R) (ServerEvent R)} (hown : OwnStep (.request r) label)
    (hs : Step (serverWorld R st) c label c') :
    c'.loc = c.loc ∧ c'.sh = c.sh ∧ (∀ j, j ≠ .request r → c'.prog j = c.prog j) ∧
      Unserved st route (c'.prog (.request r)) := by
  obtain ⟨k, requestId, hid, hserve, hrefused⟩ := serve_of_sheds st hsheds
  have hcall : ∀ {o : ServerOp} {k' : ServerSig.Ans o → ServerProg (Option Response)},
      c.prog (.request r) = some (.call o k') → Prog.call o k' = Prog.call (S := ServerSig) .isDraining k := by
    intro o k' hp
    rw [hp, Unserved, hserve] at hprog
    rcases hprog with hprog | ⟨_, _, hprog⟩
    · exact Option.some.inj hprog
    · cases Option.some.inj hprog
  cases hs with
  | @answer i o k' a hp hc =>
    have hi : i = .request r := hown
    subst hi
    have he := hcall hp
    injection he with ho hk
    subst ho
    have ha : a = true := by
      have hdrain : a = c.sh.draining := by simpa [serverWorld, ServerOp.can] using hc
      rw [hdrain, hdraining]
    subst ha
    refine ⟨?_, rfl, fun j hj => by simp [Function.update_of_ne hj], .inr ⟨requestId, hid, ?_⟩⟩
    · exact Function.update_eq_self _ _
    · simp only [Function.update_self]
      rw [eq_of_heq hk, hrefused]
  | @drop i o k' hp hd =>
    have hi : i = .request r := hown
    subst hi
    have he := hcall hp
    injection he with ho hk
    subst ho
    cases hd
  | env he => exact hown.elim

/-- A request that arrives while the server drains is not served and leaves no trace. -/
theorem draining_refuses (hsheds : (routes r).sheds = true)
    (harrived : Reach (serverWorld R st) (fun _ label => ¬ OwnStep (.request r) label) (routerStart st workers routes) c)
    (hdraining : c.sh.draining = true) (hr : Reach (serverWorld R st) ok c c') :
    Traceless c' r ∧ Unserved st (routes r) (c'.prog (.request r)) := by
  obtain ⟨htraceless, hprog⟩ := traceless_of_arrived harrived
  have key := hr.invariant (J := fun c => c.sh.draining = true ∧ Traceless c r ∧ Unserved st (routes r) (c.prog (.request r)))
    ⟨hdraining, htraceless, .inl hprog⟩ ?_
  · exact key.2
  · intro c label c' ⟨hdraining, h, hprog⟩ _ hs
    refine ⟨draining_step hs hdraining, ?_⟩
    by_cases hown : OwnStep (.request r) label
    · obtain ⟨hloc, hsh, _, hprog'⟩ := unserved_step hsheds hdraining hprog hown hs
      exact ⟨⟨by rw [hloc, h.loc], by rw [hsh, h.jobs]⟩, hprog'⟩
    · obtain ⟨h', hsame⟩ := h.step_other hs hown
      refine ⟨h', ?_⟩
      rw [hsame]
      exact hprog

/-- The model list is asked for after the drain has begun. -/
def modelsStart : ServerConf Unit := routerStart oneModelNode {} fun _ => .models 0

def drainingModels : ServerConf Unit := { modelsStart with sh := ServerEvent.beginDrain.apply modelsStart.sh }

theorem draining_refuses_models : ∃ c', Reach (serverWorld Unit oneModelNode) (fun _ _ => True) drainingModels c' ∧
    c'.result (.request ()) = some (some (drainingRefusal 0)) ∧ Traceless c' () := by
  have harrived : Reach (serverWorld Unit oneModelNode) (fun _ label => ¬ OwnStep (.request ()) label) modelsStart
      drainingModels := .step .refl id (.env (e := ServerEvent.beginDrain) rfl)
  have hr : Reach (serverWorld Unit oneModelNode) (fun _ _ => True) drainingModels _ :=
    .step .refl trivial (.answer (i := .request ()) (o := ServerOp.isDraining) (a := true) rfl rfl)
  exact ⟨_, hr, rfl, (draining_refuses rfl harrived rfl hr).1⟩

/-! ## The whole server -/

/-- The server drains and nothing is under way: each request is over, or is one that
will be refused. -/
structure Drained (st : ServerState) (routes : R → Route) (c : ServerConf R) : Prop where
  draining : c.sh.draining = true
  requests : ∀ r, c.over (.request r) = true ∨ (routes r).sheds = true ∧ Unserved st (routes r) (c.prog (.request r))
  tasks : ∀ r, (c.pending (.task r)).all ServerOp.isStart = true
  jobs : ∀ r, c.sh.jobs r = none

omit [DecidableEq R] in
theorem not_over {i : Proc R} {o : ServerOp} {k : ServerSig.Ans o → ServerProg (Option Response)}
    (hp : c.prog i = some (.call o k)) : c.over i ≠ true := by
  simp [Conf.over, Conf.pending, hp]

omit [DecidableEq R] in
theorem over_of_prog {i : Proc R} (hprog : c'.prog i = c.prog i) : c'.over i = c.over i := by
  simp [Conf.over, Conf.pending, hprog]

omit [DecidableEq R] in
theorem pending_of_prog {i : Proc R} (hprog : c'.prog i = c.prog i) : c'.pending i = c.pending i := by
  simp [Conf.pending, hprog]

/-- A task cannot begin without a job, and only the environment has a step left besides refusals. -/
theorem Drained.step (h : Drained st routes c) {label : Label ServerSig (Proc R) (ServerEvent R)}
    (hs : Step (serverWorld R st) c label c') : Drained st routes c' ∧ c'.loc = c.loc ∧
      c'.sh = { c.sh with instant := c'.sh.instant, decodes := c'.sh.decodes } := by
  have hdraining := draining_step hs h.draining
  have hrequest : ∀ r, OwnStep (.request r) label → (∃ o k, c.prog (.request r) = some (.call o k)) →
      Drained st routes c' ∧ c'.loc = c.loc ∧ c'.sh = { c.sh with instant := c'.sh.instant, decodes := c'.sh.decodes } := by
    intro r hown ⟨o, k, hp⟩
    obtain ⟨hsheds, hprog⟩ := (h.requests r).resolve_left (not_over hp)
    obtain ⟨hloc, hsh, hothers, hprog'⟩ := unserved_step hsheds h.draining hprog hown hs
    refine ⟨⟨hdraining, fun r' => ?_, fun r' => ?_, fun r' => ?_⟩, hloc, by rw [hsh]⟩
    · by_cases hr : r' = r
      · subst hr
        exact .inr ⟨hsheds, hprog'⟩
      · have hsame := hothers (.request r') fun he => hr (by injection he)
        rw [over_of_prog hsame, hsame]
        exact h.requests r'
    · rw [pending_of_prog (hothers (.task r') (by simp))]
      exact h.tasks r'
    · rw [hsh]
      exact h.jobs r'
  cases hs with
  | @answer i o k a hp hc =>
    cases i with
    | request r => exact hrequest r rfl ⟨o, k, hp⟩
    | task r =>
      have hstart : o.isStart = true := by simpa [Conf.pending, hp] using h.tasks r
      cases o with
      | task o =>
        cases o with
        | start =>
          have hjob : c.sh.jobs r = some a := by simpa [serverWorld, ServerOp.can, Server.job] using hc
          simp [h.jobs] at hjob
        | _ => cases hstart
      | _ => cases hstart
  | @drop i o k hp hd =>
    cases i with
    | request r => exact hrequest r rfl ⟨o, k, hp⟩
    | task r => cases hd
  | @env e he =>
    refine ⟨⟨hdraining, h.requests, h.tasks, fun r => ?_⟩, rfl, ?_⟩
    · show (ServerEvent.apply c.sh _).jobs r = none
      rw [ServerEvent.apply_eq]
      exact h.jobs r
    · have hsame : (e.apply c.sh).draining = c.sh.draining := hdraining.trans h.draining.symm
      show e.apply c.sh = _
      rw [ServerEvent.apply_eq, hsame]
      rfl

/-- Whatever arrives: a drained server writes nothing, gives out nothing and sends nothing. -/
theorem drained_stays (h : Drained st routes c) (hr : Reach (serverWorld R st) ok c c') :
    Drained st routes c' ∧ c'.loc = c.loc ∧
      c'.sh = { c.sh with instant := c'.sh.instant, decodes := c'.sh.decodes } := by
  refine hr.invariant (J := fun c' => Drained st routes c' ∧ c'.loc = c.loc ∧
    c'.sh = { c.sh with instant := c'.sh.instant, decodes := c'.sh.decodes }) ⟨h, rfl, rfl⟩ ?_
  intro d label d' ⟨hd, hloc, hsh⟩ _ hs
  obtain ⟨hd', hloc', hsh'⟩ := hd.step hs
  refine ⟨hd', hloc'.trans hloc, ?_⟩
  rw [hsh', hsh]

theorem drained_stays_models : ∃ c', Reach (serverWorld Unit oneModelNode) (fun _ _ => True) drainingModels c' ∧
    c'.over (.request ()) = true ∧ c'.sh.store = drainingModels.sh.store := by
  have hr : Reach (serverWorld Unit oneModelNode) (fun _ _ => True) drainingModels _ :=
    .step .refl trivial (.answer (i := .request ()) (o := ServerOp.isDraining) (a := true) rfl rfl)
  have hdrained : Drained oneModelNode (fun _ => .models 0) drainingModels :=
    ⟨rfl, fun _ => .inr ⟨rfl, .inl rfl⟩, fun _ => rfl, fun _ => rfl⟩
  refine ⟨_, hr, rfl, ?_⟩
  rw [(drained_stays hdrained hr).2.2]

end

end Llmctl
