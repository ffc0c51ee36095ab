import Llmctl.Async.Replay
import Llmctl.Server.DispatchSound

/-!
# Fallbacks

A request should try the aliases of its route one after the other, past those without an
upstream, until one answers. The loop stops at the first alias without an upstream.
-/

namespace Llmctl

open Async

/-! ## What should be tried -/

section
variable {G : Type} (ans : (o : ServerOp) → G → ServerSig.Ans o) (upd : (o : ServerOp) → ServerSig.Ans o → G → G)

/-- The response to hand on, unless its status is one to retry. -/
def acceptedResponse : Sent → Option UpstreamResponse
  | .response response => if shouldRetryUpstreamStatus response.status then none else some response
  | _ => none

/-- The answer of an alias that its breaker allows. -/
def answerOf (k : String) (target : DispatchTarget) (body : String) (g : G) : Option UpstreamResponse :=
  match ans (.breaker (.allowRequest k target.baseUrl)) g with
  | .refused => none
  | verdict =>
    let g := upd (.breaker (.allowRequest k target.baseUrl)) verdict g
    acceptedResponse (ans (.upstream (.send k s!"{target.baseUrl}/v1/chat/completions" body target.apiKey)) g)

variable (st : ServerState) (route : ResolvedModelRoute) (body : String) (ctx : DispatchContext)

/-- The attempts at the aliases that have an upstream, up to the first that answers. -/
def attempts : List String → G → List (String × (UpstreamResponse ⊕ DispatchFailure))
  | [], _ => []
  | k :: aliases, g =>
    match dispatchTarget st (attemptRoute route k), rewriteChatModel st body (attemptRoute route k) with
    | .ok target, .ok rewritten =>
      match answerOf ans upd k target rewritten g with
      | some response => [(k, .inl response)]
      | none =>
        let turn := (dispatchAttempt ctx k target rewritten).eval ans upd g
        (k, turn.1) :: attempts aliases turn.2
    | _, _ => attempts aliases g

/-- The aliases up to the first that answers. -/
def reached : List String → G → List String
  | [], _ => []
  | k :: aliases, g =>
    match dispatchTarget st (attemptRoute route k), rewriteChatModel st body (attemptRoute route k) with
    | .ok target, .ok rewritten =>
      match answerOf ans upd k target rewritten g with
      | some _ => [k]
      | none => k :: reached aliases ((dispatchAttempt ctx k target rewritten).eval ans upd g).2
    | _, _ => k :: reached aliases g

def HasUpstream (k : String) : Prop := ∃ target, dispatchTarget st (attemptRoute route k) = .ok target

instance (k : String) : Decidable (HasUpstream st route k) :=
  match h : dispatchTarget st (attemptRoute route k) with
  | .ok target => isTrue ⟨target, h⟩
  | .error _ => isFalse fun ⟨_, ht⟩ => nomatch h.symm.trans ht

/-- The first answer is the result, and without one the last failure. -/
def TriesAll (made : List (String × (UpstreamResponse ⊕ DispatchFailure)))
    (result : Except DispatchFailure (UpstreamResponse × String)) : Prop :=
  (∀ response k, result = .ok (response, k) ↔ (k, .inl response) ∈ made) ∧
    ∀ k failure, made.getLast? = some (k, .inr failure) → result = .error failure

/-! ## One attempt -/

/-- The failures of an attempt at an upstream. -/
def AttemptFailure (failure : DispatchFailure) : Prop :=
  ∃ status code message usageStatus, failure = .request status code message usageStatus ∧
    code ∈ ["upstream_circuit_open", "upstream_error", "timeout"]

variable {ans upd st route body ctx}

theorem attemptFailure_request (isTimeout : Bool) : AttemptFailure (upstreamRequestError isTimeout) := by
  cases isTimeout
  · exact ⟨502, "upstream_error", _, _, rfl, by simp⟩
  · exact ⟨504, "timeout", _, _, rfl, by simp⟩

theorem not_attemptFailure_of_target {k : String} {failure : DispatchFailure}
    (h : dispatchTarget st (attemptRoute route k) = .error failure) : ¬ AttemptFailure failure := by
  rintro ⟨status, code, message, usageStatus, rfl, hcode⟩
  unfold dispatchTarget at h
  repeat' split at h
  all_goals cases h
  all_goals simp at hcode

def TurnOutcome (answer : Option UpstreamResponse) (turn : UpstreamResponse ⊕ DispatchFailure) : Prop :=
  match answer with
  | some response => turn = .inl response
  | none => ∃ failure, turn = .inr failure ∧ AttemptFailure failure

theorem sendAttempt_outcome (k : String) (target : DispatchTarget) (body : String) (g : G) :
    TurnOutcome (acceptedResponse (ans (.upstream (.send k s!"{target.baseUrl}/v1/chat/completions" body target.apiKey)) g))
      ((sendAttempt ctx k target body).eval ans upd g).1 := by
  unfold sendAttempt
  rw [Prog.op_bind, Prog.eval_call]
  cases ans (.upstream (.send k s!"{target.baseUrl}/v1/chat/completions" body target.apiKey)) g with
  | response response =>
    simp only [acceptedResponse]
    split
    · exact ⟨_, rfl, 502, "upstream_error", _, _, rfl, by simp⟩
    · split <;> rfl
  | failed isTimeout =>
    refine ⟨upstreamRequestError isTimeout, ?_, attemptFailure_request isTimeout⟩
    simp only [Prog.eval_bind, Prog.pure_eq, Prog.eval_done]
  | timedOut =>
    refine ⟨_, ?_, 504, "timeout", "upstream request timed out", "timeout", rfl, by simp⟩
    simp only [Prog.eval_bind, Prog.pure_eq, Prog.eval_done]

variable (ans upd ctx) in
theorem attempt_outcome (k : String) (target : DispatchTarget) (body : String) (g : G) :
    TurnOutcome (answerOf ans upd k target body g) ((dispatchAttempt ctx k target body).eval ans upd g).1 := by
  unfold dispatchAttempt answerOf
  rw [Prog.op_bind, Prog.eval_call]
  cases ans (.breaker (.allowRequest k target.baseUrl)) g with
  | refused => exact ⟨_, rfl, 502, "upstream_circuit_open", _, _, rfl, by simp⟩
  | closed => exact sendAttempt_outcome k target body _
  | probe => exact sendAttempt_outcome k target body _

/-! ## The loop -/

/-- What a list of attempts comes to. -/
def settle (last : DispatchFailure) :
    List (String × (UpstreamResponse ⊕ DispatchFailure)) → Except DispatchFailure (UpstreamResponse × String)
  | [] => .error last
  | (k, .inl response) :: _ => .ok (response, k)
  | (_, .inr failure) :: made => settle failure made

variable {aliases : List String} {g : G}

def WellFormedFor (st : ServerState) (route : ResolvedModelRoute) (body : String) (aliases : List String) : Prop :=
  ∀ k ∈ aliases, ∃ rewritten, rewriteChatModel st body (attemptRoute route k) = .ok rewritten

/-- With an upstream for each alias that it reaches the loop returns what its attempts come to. -/
theorem dispatchAliases_settle (hbody : WellFormedFor st route body aliases)
    (hreached : ∀ k ∈ reached ans upd st route body ctx aliases g, HasUpstream st route k) (last : Option DispatchFailure) :
    ((dispatchAliases st route body ctx last aliases).eval ans upd g).1 =
      settle (last.getD (.noUpstream (noUpstreamMessage route.upstreamAlias))) (attempts ans upd st route body ctx aliases g) := by
  induction aliases generalizing last g with
  | nil => rfl
  | cons k aliases ih =>
    obtain ⟨rewritten, hrewritten⟩ := hbody k List.mem_cons_self
    unfold dispatchAliases attempts
    unfold reached at hreached
    cases htarget : dispatchTarget st (attemptRoute route k) with
    | error failure =>
      simp only [htarget] at hreached
      obtain ⟨target, hk⟩ := hreached k List.mem_cons_self
      rw [htarget] at hk
      cases hk
    | ok target =>
      simp only [htarget, hrewritten] at hreached ⊢
      rw [Prog.eval_bind]
      have houtcome := attempt_outcome ans upd ctx k target rewritten g
      cases hanswer : answerOf ans upd k target rewritten g with
      | some response =>
        rw [hanswer] at houtcome
        rw [show _ = Sum.inl response from houtcome]
        rfl
      | none =>
        rw [hanswer] at houtcome
        obtain ⟨failure, hfailure, -⟩ := houtcome
        simp only [hanswer] at hreached ⊢
        rw [hfailure]
        exact ih (fun k' hk' => hbody k' (List.mem_cons_of_mem _ hk')) (fun k' hk' => hreached k' (List.mem_cons_of_mem _ hk'))
          (some failure)

/-- An alias without an upstream ends the loop where it is reached. -/
theorem dispatchAliases_stops (hbody : WellFormedFor st route body aliases) {k : String}
    (hreached : k ∈ reached ans upd st route body ctx aliases g) (hk : ¬ HasUpstream st route k) (last : Option DispatchFailure) :
    ∃ failure, ((dispatchAliases st route body ctx last aliases).eval ans upd g).1 = .error failure ∧ ¬ AttemptFailure failure := by
  induction aliases generalizing last g with
  | nil => cases hreached
  | cons k' aliases ih =>
    obtain ⟨rewritten, hrewritten⟩ := hbody k' List.mem_cons_self
    unfold dispatchAliases
    unfold reached at hreached
    cases htarget : dispatchTarget st (attemptRoute route k') with
    | error failure =>
      simp only [hrewritten]
      exact ⟨failure, rfl, not_attemptFailure_of_target htarget⟩
    | ok target =>
      have hne : k ≠ k' := fun he => hk ⟨target, he ▸ htarget⟩
      simp only [htarget, hrewritten] at hreached ⊢
      rw [Prog.eval_bind]
      have houtcome := attempt_outcome ans upd ctx k' target rewritten g
      cases hanswer : answerOf ans upd k' target rewritten g with
      | some response =>
        simp only [hanswer] at hreached
        exact absurd (List.mem_singleton.mp hreached) hne
      | none =>
        rw [hanswer] at houtcome
        obtain ⟨failure, hfailure, -⟩ := houtcome
        simp only [hanswer] at hreached
        rw [hfailure]
        exact ih (fun k hk => hbody k (List.mem_cons_of_mem _ hk)) ((List.mem_cons.mp hreached).resolve_left hne) (some failure)

/-! ## Attempts -/

/-- Failures, and at the end perhaps an answer. -/
inductive Made : List (String × (UpstreamResponse ⊕ DispatchFailure)) → Prop where
  | nil : Made []
  | answered (k : String) (response : UpstreamResponse) : Made [(k, .inl response)]
  | failed {made : List (String × (UpstreamResponse ⊕ DispatchFailure))} {failure : DispatchFailure} (k : String)
      (hfailure : AttemptFailure failure) (h : Made made) : Made ((k, .inr failure) :: made)

variable (ans upd st route body ctx) in
theorem made_attempts (aliases : List String) (g : G) : Made (attempts ans upd st route body ctx aliases g) := by
  induction aliases generalizing g with
  | nil => exact .nil
  | cons k aliases ih =>
    unfold attempts
    split
    · rename_i target rewritten _ _
      have houtcome := attempt_outcome ans upd ctx k target rewritten g
      cases hanswer : answerOf ans upd k target rewritten g with
      | some response => exact .answered k response
      | none =>
        rw [hanswer] at houtcome
        obtain ⟨failure, hturn, hfailure⟩ := houtcome
        simp only [hturn]
        exact .failed k hfailure (ih _)
    · exact ih g

variable (ans upd ctx g) in
theorem attempts_eq_nil_iff (hbody : WellFormedFor st route body aliases) :
    attempts ans upd st route body ctx aliases g = [] ↔ ∀ k ∈ aliases, ¬ HasUpstream st route k := by
  induction aliases with
  | nil => exact ⟨fun _ => nofun, fun _ => rfl⟩
  | cons k aliases ih =>
    obtain ⟨rewritten, hrewritten⟩ := hbody k List.mem_cons_self
    have ih := ih fun k' hk' => hbody k' (List.mem_cons_of_mem _ hk')
    unfold attempts
    cases htarget : dispatchTarget st (attemptRoute route k) with
    | error failure =>
      have hk : ¬ HasUpstream st route k := by
        rintro ⟨target, h⟩
        rw [htarget] at h
        cases h
      rw [List.forall_mem_cons, ← ih]
      exact ⟨fun h => ⟨hk, h⟩, fun h => h.2⟩
    | ok target =>
      rw [List.forall_mem_cons]
      simp only [hrewritten]
      refine ⟨fun h => ?_, fun h => absurd ⟨target, htarget⟩ h.1⟩
      split at h <;> cases h

variable {made : List (String × (UpstreamResponse ⊕ DispatchFailure))}

theorem Made.triesAll (h : Made made) (last : DispatchFailure) : TriesAll made (settle last made) := by
  induction h generalizing last with
  | nil => exact ⟨fun _ _ => ⟨nofun, nofun⟩, nofun⟩
  | answered k response =>
    refine ⟨fun response' k' => ?_, nofun⟩
    rw [List.mem_singleton, settle, Except.ok.injEq, Prod.mk.injEq, Prod.mk.injEq, Sum.inl.injEq]
    exact ⟨fun h => ⟨h.2.symm, h.1.symm⟩, fun h => ⟨h.2.symm, h.1.symm⟩⟩
  | @failed made failure k hfailure h ih =>
    obtain ⟨hok, herr⟩ := ih failure
    refine ⟨fun response k' => (hok response k').trans ?_, fun k' failure' hlast => ?_⟩
    · rw [List.mem_cons]
      exact ⟨.inr, fun h => h.resolve_left nofun⟩
    · cases made with
      | nil =>
        cases hlast
        rfl
      | cons a made => exact herr k' failure' (by rwa [List.getLast?_cons_cons] at hlast)

theorem Made.not_triesAll (h : Made made) (hne : made ≠ []) {failure : DispatchFailure} (hfailure : ¬ AttemptFailure failure) :
    ¬ TriesAll made (.error failure) := by
  rintro ⟨hok, herr⟩
  induction h with
  | nil => exact hne rfl
  | answered k response => cases (hok response k).mpr List.mem_cons_self
  | @failed made failure' k hfailure' h ih =>
    cases made with
    | nil =>
      cases herr k failure' rfl
      exact hfailure hfailure'
    | cons a made =>
      refine ih (List.cons_ne_nil _ _) (fun response k' => (hok response k').trans ?_) fun k' failure'' hlast => ?_
      · rw [List.mem_cons]
        exact ⟨fun h => h.resolve_left nofun, .inr⟩
      · exact herr k' failure'' (by rwa [List.getLast?_cons_cons])

end

/-- The loop tries everything where it meets no alias without an upstream, and where there
is nothing to try. -/
theorem fallback_iff {G : Type} (ans : (o : ServerOp) → G → ServerSig.Ans o) (upd : (o : ServerOp) → ServerSig.Ans o → G → G)
    (st : ServerState) (route : ResolvedModelRoute) (body : String) (ctx : DispatchContext) (g : G)
    (hbody : WellFormedFor st route body (route.upstreamAlias :: route.fallbackAliases)) :
    TriesAll (attempts ans upd st route body ctx (route.upstreamAlias :: route.fallbackAliases) g)
        ((dispatchChatRequest st route body ctx).eval ans upd g).1 ↔
      (∀ k ∈ reached ans upd st route body ctx (route.upstreamAlias :: route.fallbackAliases) g, HasUpstream st route k) ∨
        ∀ k ∈ route.upstreamAlias :: route.fallbackAliases, ¬ HasUpstream st route k := by
  have hmade := made_attempts ans upd st route body ctx (route.upstreamAlias :: route.fallbackAliases) g
  rw [← attempts_eq_nil_iff ans upd ctx g hbody]
  by_cases hreached : ∀ k ∈ reached ans upd st route body ctx (route.upstreamAlias :: route.fallbackAliases) g,
      HasUpstream st route k
  · refine iff_of_true ?_ (.inl hreached)
    unfold dispatchChatRequest
    rw [dispatchAliases_settle hbody hreached none]
    exact hmade.triesAll _
  · rw [or_iff_right hreached]
    push Not at hreached
    obtain ⟨k, hk, hno⟩ := hreached
    obtain ⟨failure, hresult, hfailure⟩ := dispatchAliases_stops hbody hk hno none
    unfold dispatchChatRequest
    rw [hresult]
    refine ⟨fun h => ?_, fun hnil => ?_⟩
    · by_contra hne
      exact hmade.not_triesAll hne hfailure h
    · rw [hnil]
      exact ⟨fun _ _ => ⟨nofun, nofun⟩, nofun⟩

/-! ## A fallback without a worker -/

theorem ServerOp.answer_isSome {R : Type} (st : ServerState) (env : Surroundings) {i : Proc R} {g : Server R}
    (hjob : (g.job i).isSome = true) (o : ServerOp) : (o.answer st env i g).isSome = true := by
  cases o with
  | permit o | breaker o | gate o | upstream o | sched o | body o => cases o <;> rfl
  | task o =>
    cases o with
    | start => exact hjob
    | _ => rfl
  | _ => rfl

def workingServer (st : ServerState) : Server Unit :=
  { restingServer Unit st readyQwen with
    jobs _ := some (.decode ⟨0, .anonymous, "", "", ⟨0, "null", 0⟩, 0, []⟩ ⟨"", [], []⟩) }

/-- The surroundings answer, and the server stays as it is. -/
def steadyAnswer (st : ServerState) (env : Surroundings) (o : ServerOp) (_ : Unit) : ServerSig.Ans o :=
  (o.answer st env (.task ()) (workingServer st)).get (o.answer_isSome st env rfl)

/-- `glm` has no weight, and no worker. -/
def weightlessNode : ServerState :=
  { supervisedNode with
    cfg := { oneModel with mode := .fallback, models := [qwen, { qwen with alias_ := "glm", weight := 0 }] } }

def weightlessRoute : ResolvedModelRoute := ⟨"qwen", "qwen", ["glm"], none⟩

def noContext : DispatchContext := ⟨0, .anonymous, "qwen", 0⟩

theorem wellFormedFor_weightless (aliases : List String) : WellFormedFor weightlessNode weightlessRoute "" aliases := by
  intro k _
  refine ⟨"", ?_⟩
  unfold rewriteChatModel
  split <;> rfl

theorem fallback_answered :
    TriesAll (attempts (steadyAnswer weightlessNode {}) (fun _ _ g => g) weightlessNode weightlessRoute "" noContext ["qwen", "glm"] ())
      ((dispatchChatRequest weightlessNode weightlessRoute "" noContext).eval (steadyAnswer weightlessNode {}) (fun _ _ g => g) ()).1 :=
  (fallback_iff _ _ weightlessNode weightlessRoute "" noContext () (wellFormedFor_weightless _)).mpr (.inl (by decide +kernel))

/-- `qwen` answers 503, and the request fails for the want of an upstream for `glm`. -/
theorem fallback_stops : resolveModelRoute weightlessNode.cfg "qwen" 0 = .ok weightlessRoute ∧
    ¬ TriesAll
      (attempts (steadyAnswer weightlessNode { sent := .response ⟨503, none, 0⟩ }) (fun _ _ g => g) weightlessNode weightlessRoute ""
        noContext ["qwen", "glm"] ())
      ((dispatchChatRequest weightlessNode weightlessRoute "" noContext).eval
        (steadyAnswer weightlessNode { sent := .response ⟨503, none, 0⟩ }) (fun _ _ g => g) ()).1 := by
  refine ⟨by decide +kernel, fun h => ?_⟩
  have hresult := h.2 "qwen" (.request 502 "upstream_error" "upstream request failed" "upstream_error") (by decide +kernel)
  revert hresult
  decide +kernel

end Llmctl
