import Llmctl.Reporting.Summary
import Llmctl.Server.Script

/-!
# Usage rows of a proxied request

A failed attempt leaves a usage row, and so does the end of the request unless the
loop has stopped at an alias that it cannot send to (`rows_of_proxied`). One row a
request is what remains when these add up to one.
-/

namespace Llmctl

open Async

/-- What a request meets with: the answer to its attempt on each alias (`none` from an
open breaker), the usage rows it lands, the ones that storage refuses, and whether
it has read the latency of its next row. -/
structure Meter where
  attempts : List (Option Sent) := []
  rows : List UsageEvent := []
  lost : Nat := 0
  timed : Bool := false

def Meter.see : (o : ServerOp) → ServerSig.Ans o → Meter → Meter
  | .breaker (.allowRequest ..), (v : Verdict), m => match v with
    | .refused => { m with attempts := m.attempts ++ [none] }
    | _ => m
  | .upstream (.send ..), (s : Sent), m => { m with attempts := m.attempts ++ [some s] }
  | .instant, _, m => { m with timed := true }
  | .store .acquireQuery, (a : Result Unit), m => match a with
    | .ok _ => m
    | .error _ => if m.timed then { m with lost := m.lost + 1, timed := false } else m
  | .store (.insertUsageEvent e), (a : Result Unit), m => match a with
    | .ok _ => { m with rows := m.rows ++ [e], timed := false }
    | .error _ => { m with lost := m.lost + 1, timed := false }
  | _, _, m => m

abbrev metered (R : Type) [DecidableEq R] (st : ServerState) := (serverWorld R st).observe Meter.see

def attemptFailed : Option Sent → Bool
  | some (.failed _) | some .timedOut => true
  | _ => false

def attemptAnswered : Option Sent → Bool
  | some (.response r) => !shouldRetryUpstreamStatus r.status
  | _ => false

/-- The loop cannot send to `k`: its name does not fit into the body, or it has no upstream. -/
def unroutable (st : ServerState) (route : ResolvedModelRoute) (body k : String) : Bool :=
  match rewriteChatModel st body (attemptRoute route k) with
  | .error _ => true
  | .ok _ =>
    match dispatchTarget st (attemptRoute route k) with
    | .error (.noUpstream _) | .error (.badRequest _) => true
    | _ => false

/-- No attempt is answered, and the alias after the last one tried cannot be sent to. -/
def endsUnrecorded (st : ServerState) (route : ResolvedModelRoute) (body : String) (attempts : List (Option Sent)) : Bool :=
  !attempts.any attemptAnswered &&
    ((route.upstreamAlias :: route.fallbackAliases).drop attempts.length).head?.any (unroutable st route body)

structure Counted (requestId : Nat) (attempts : List (Option Sent)) (n : Nat) (timed : Bool) (m : Meter) : Prop where
  attempts : m.attempts = attempts
  count : m.rows.length + m.lost = n
  timed : m.timed = timed
  ids : ∀ row ∈ m.rows, row.requestId = requestId

section
variable {R : Type} [DecidableEq R] {st : ServerState} {i : Proc R} {l : Local} {m : Meter} {requestId n : Nat}
  {attempts : List (Option Sent)} {timed : Bool}

/-! ## Records -/

theorem elapsedMs_counted (h : Counted requestId attempts n timed m) (started : Nat) :
    Always (metered R st) i (fun _ _ => True) (fun _ lm => Counted requestId attempts n true lm.2)
      (elapsedMs started) (l, m) :=
  Always.op trivial fun _ _ _ => ⟨h.attempts, h.count, rfl, h.ids⟩

theorem recordUsage_counted (h : Counted requestId attempts n true m) {input : UsageRecordInput}
    (hid : input.requestId = requestId) :
    Always (metered R st) i (fun _ _ => True) (fun _ lm => Counted requestId attempts (n + 1) false lm.2)
      (recordUsage input) (l, m) := by
  have hlost : Counted requestId attempts (n + 1) false { m with lost := m.lost + 1, timed := false } :=
    ⟨h.attempts, by have := h.count; simp only; omega, rfl, h.ids⟩
  refine Always.op trivial fun now g hc => Always.op trivial fun a g hc => ?_
  cases a with
  | error err =>
    show Counted _ _ _ _ (if m.timed then _ else _)
    rw [if_pos h.timed]
    exact hlost
  | ok u =>
    refine Always.op trivial fun a g hc => Always.op trivial fun _ g hc => ?_
    cases a with
    | error err => exact hlost
    | ok u =>
      refine ⟨h.attempts, ?_, rfl, fun row hrow => ?_⟩
      · have := h.count
        simp only [World.observe, Meter.see, List.length_append, List.length_singleton]
        omega
      · obtain hrow | hrow := List.mem_append.mp hrow
        · exact h.ids row hrow
        · rw [List.mem_singleton.mp hrow]
          exact hid

theorem recordAudit_counted (h : Counted requestId attempts n false m) (id : Option Nat) (principal : Principal)
    (action resource outcome : String) (detail : Json) :
    Always (metered R st) i (fun _ _ => True) (fun _ lm => Counted requestId attempts n false lm.2)
      (recordAudit id principal action resource outcome detail) (l, m) := by
  refine Always.op trivial fun now g hc => Always.op trivial fun a g hc => ?_
  cases a with
  | error err =>
    show Counted _ _ _ _ (if m.timed then _ else m)
    rw [if_neg (by rw [h.timed]; decide)]
    exact h
  | ok u => exact Always.op trivial fun a g hc => Always.op trivial fun _ g hc => h

theorem recordUpstreamFailure_counted (h : Counted requestId attempts n timed m) (principal : Principal) (model : String)
    (started : Nat) (status : String) :
    Always (metered R st) i (fun _ _ => True) (fun _ lm => Counted requestId attempts (n + 1) false lm.2)
      (recordUpstreamFailure requestId principal model started status) (l, m) := by
  unfold recordUpstreamFailure
  apply (elapsedMs_counted h started).seq
  intro latencyMs l hc
  exact recordUsage_counted hc rfl

theorem leaveWorker_counted (h : Counted requestId attempts n timed m) (guarded : Bool) :
    Always (metered R st) i (fun _ _ => True) (fun _ lm => Counted requestId attempts n timed lm.2)
      (leaveWorker guarded) (l, m) := by
  unfold leaveWorker
  split
  · exact Always.op trivial fun _ _ _ => h
  · exact h

/-! ## Attempts -/

/-- The rows so far are those of the failed attempts. -/
def Attempted (requestId : Nat) (attempts : List (Option Sent)) (m : Meter) : Prop :=
  Counted requestId attempts (attempts.countP attemptFailed) false m

theorem Attempted.attempt (h : Attempted requestId attempts m) (s : Option Sent) :
    Counted requestId (attempts ++ [s]) (attempts.countP attemptFailed) false
      { m with attempts := m.attempts ++ [s] } :=
  ⟨by simp only [h.attempts], h.count, h.timed, h.ids⟩

theorem Attempted.of_counted {s : Option Sent} (hs : attemptFailed s = false)
    (h : Counted requestId (attempts ++ [s]) (attempts.countP attemptFailed) false m) :
    Attempted requestId (attempts ++ [s]) m := by
  unfold Attempted
  rw [List.countP_append, List.countP_singleton, hs]
  exact h

theorem Attempted.of_failed {s : Option Sent} (hs : attemptFailed s = true)
    (h : Counted requestId (attempts ++ [s]) (attempts.countP attemptFailed + 1) false m) :
    Attempted requestId (attempts ++ [s]) m := by
  unfold Attempted
  rw [List.countP_append, List.countP_singleton, hs]
  exact h

def DispatchFailure.isRequest : DispatchFailure → Bool
  | .request .. => true
  | _ => false

/-- What the loop makes of the attempt `s`. -/
def Turn (s : Option Sent) : UpstreamResponse ⊕ DispatchFailure → Prop
  | .inl _ => attemptAnswered s = true
  | .inr failure => attemptAnswered s = false ∧ failure.isRequest = true

theorem upstreamRequestError_isRequest (isTimeout : Bool) : (upstreamRequestError isTimeout).isRequest = true := by
  cases isTimeout <;> rfl

theorem sendAttempt_counted (h : Attempted requestId attempts m) (principal : Principal) (model : String) (started : Nat)
    (k : String) (target : DispatchTarget) (body : String) :
    Always (metered R st) i (fun _ _ => True)
      (fun turn lm => ∃ s, Attempted requestId (attempts ++ [s]) lm.2 ∧ Turn s turn)
      (sendAttempt ⟨requestId, principal, model, started⟩ k target body) (l, m) := by
  refine Always.op trivial fun sent g hc => ?_
  have hsent := h.attempt (some sent)
  cases sent with
  | response r =>
    have hr : Attempted requestId (attempts ++ [some (.response r)]) _ := .of_counted rfl hsent
    by_cases hretry : shouldRetryUpstreamStatus r.status = true
    · simp only [hretry, if_true]
      refine Always.op trivial fun _ _ _ => Always.op trivial fun _ _ _ => Always.op trivial fun _ _ _ => ?_
      exact ⟨_, hr, by simp [attemptAnswered, hretry], rfl⟩
    · simp only [hretry, Bool.false_eq_true, if_false]
      have ha : Turn (some (.response r)) (.inl r) := by simp [Turn, attemptAnswered, hretry]
      by_cases hsuccess : r.status.isSuccess = true
      · simp only [hsuccess, if_true]
        exact Always.op trivial fun _ _ _ => ⟨_, hr, ha⟩
      · simp only [hsuccess, Bool.false_eq_true, if_false]
        exact ⟨_, hr, ha⟩
  | failed isTimeout =>
    refine Always.op trivial fun _ _ _ => ?_
    apply (recordUpstreamFailure_counted hsent principal model started _).seq
    intro _ lm hc
    exact ⟨_, .of_failed rfl hc, rfl, upstreamRequestError_isRequest isTimeout⟩
  | timedOut =>
    refine Always.op trivial fun _ _ _ => ?_
    apply (recordUpstreamFailure_counted hsent principal model started _).seq
    intro _ lm hc
    exact ⟨_, .of_failed rfl hc, rfl, rfl⟩

theorem dispatchAttempt_counted (h : Attempted requestId attempts m) (principal : Principal) (model : String)
    (started : Nat) (k : String) (target : DispatchTarget) (body : String) :
    Always (metered R st) i (fun _ _ => True)
      (fun turn lm => ∃ s, Attempted requestId (attempts ++ [s]) lm.2 ∧ Turn s turn)
      (dispatchAttempt ⟨requestId, principal, model, started⟩ k target body) (l, m) := by
  refine Always.op trivial fun verdict g hc => ?_
  cases verdict with
  | refused => exact ⟨none, .of_counted rfl (h.attempt none), rfl, rfl⟩
  | closed => exact sendAttempt_counted h principal model started k target body
  | probe => exact sendAttempt_counted h principal model started k target body

/-! ## The loop -/

/-- The handler or the response converter records the result of the loop. -/
def recordsEnd : Except DispatchFailure (UpstreamResponse × String) → Bool
  | .ok _ => true
  | .error failure => failure.isRequest

theorem unroutable_of_rewrite {route : ResolvedModelRoute} {body k err : String}
    (hb : rewriteChatModel st body (attemptRoute route k) = .error err) : unroutable st route body k = true := by
  unfold unroutable
  rw [hb]

theorem unroutable_of_target {route : ResolvedModelRoute} {body k rewritten : String} {failure : DispatchFailure}
    (hb : rewriteChatModel st body (attemptRoute route k) = .ok rewritten)
    (ht : dispatchTarget st (attemptRoute route k) = .error failure) :
    unroutable st route body k = !failure.isRequest := by
  unfold unroutable
  rw [hb, ht]
  cases failure <;> rfl

/-- The induction is on the aliases still to try; `attempts` are those made before them. -/
theorem dispatchAliases_counted (route : ResolvedModelRoute) (body : String) (principal : Principal) (model : String)
    (started : Nat) : ∀ (aliases : List String) {attempts : List (Option Sent)} {last : Option DispatchFailure} {l : Local}
    {m : Meter}, (route.upstreamAlias :: route.fallbackAliases).drop attempts.length = aliases →
    attempts.any attemptAnswered = false → last.isSome = !attempts.isEmpty → last.all DispatchFailure.isRequest = true →
    Attempted requestId attempts m →
    Always (metered R st) i (fun _ _ => True)
      (fun result lm => ∃ attempts, Attempted requestId attempts lm.2 ∧
        endsUnrecorded st route body attempts = !recordsEnd result)
      (dispatchAliases st route body ⟨requestId, principal, model, started⟩ last aliases) (l, m)
  | [], attempts, last, l, m, hrest, hnone, hsome, hlast, h => by
    refine ⟨attempts, h, ?_⟩
    cases last with
    | none =>
      cases attempts with
      | nil => simp at hrest
      | cons a attempts => simp at hsome
    | some failure =>
      have hf : failure.isRequest = true := by simpa using hlast
      simp [endsUnrecorded, hrest, recordsEnd, hf]
  | k :: aliases, attempts, last, l, m, hrest, hnone, hsome, hlast, h => by
    have hends : endsUnrecorded st route body attempts = unroutable st route body k := by
      simp [endsUnrecorded, hrest, hnone]
    unfold dispatchAliases
    cases hb : rewriteChatModel st body (attemptRoute route k) with
    | error err =>
      refine ⟨attempts, h, ?_⟩
      rw [hends, unroutable_of_rewrite hb]
      rfl
    | ok rewritten =>
      cases ht : dispatchTarget st (attemptRoute route k) with
      | error failure =>
        refine ⟨attempts, h, ?_⟩
        rw [hends, unroutable_of_target hb ht]
        rfl
      | ok target =>
        apply (dispatchAttempt_counted h principal model started k target rewritten).seq
        rintro turn ⟨l', m'⟩ ⟨s, hs, hturn⟩
        cases turn with
        | inl response =>
          refine ⟨_, hs, ?_⟩
          have ha : attemptAnswered s = true := hturn
          simp [endsUnrecorded, ha, recordsEnd]
        | inr failure =>
          have ha : attemptAnswered s = false := hturn.1
          refine dispatchAliases_counted route body principal model started aliases ?_ ?_ ?_ ?_ hs
          · rw [List.length_append, List.length_singleton, ← List.drop_drop, hrest, List.drop_succ_cons, List.drop_zero]
          · simp [hnone, ha]
          · simp
          · simpa using hturn.2

/-! ## The answer -/

theorem jsonFails_counted (ctx : UpstreamRequestContext) (h : Counted ctx.requestId attempts n timed m)
    (usageStatus : String) (status : StatusCode) (code message : String) :
    Always (metered R st) i (fun _ _ => True) (fun _ lm => Counted ctx.requestId attempts (n + 1) false lm.2)
      (jsonFails ctx usageStatus status code message) (l, m) := by
  unfold jsonFails
  apply (recordUpstreamFailure_counted h ctx.principal ctx.model ctx.started usageStatus).seq
  intro _ lm hc
  exact Always.op trivial fun _ _ _ => hc

theorem jsonUpstream_counted (ctx : UpstreamRequestContext) (h : Counted ctx.requestId attempts n timed m)
    (response : UpstreamResponse) :
    Always (metered R st) i (fun _ _ => True) (fun _ lm => Counted ctx.requestId attempts (n + 1) false lm.2)
      (jsonUpstream st response ctx) (l, m) := by
  refine Always.op trivial fun read g hc => ?_
  cases read with
  | failed isTimeout => exact jsonFails_counted ctx h _ _ _ _
  | timedOut => exact jsonFails_counted ctx h _ _ _ _
  | bytes text =>
    apply (elapsedMs_counted h ctx.started).seq
    intro latencyMs lm hc
    apply (recordUsage_counted hc rfl).seq
    intro _ lm hc
    apply (recordAudit_counted hc _ _ _ _ _ _).seq
    intro _ lm hc
    exact Always.op trivial fun _ _ _ => hc

theorem dispatchFailed_counted (request : HttpRequest) (h : Counted request.requestId attempts n false m)
    (principal : Principal) (started : Nat) (model : String) (failure : DispatchFailure) :
    Always (metered R st) i (fun _ _ => True)
      (fun _ lm => Counted request.requestId attempts (n + if failure.isRequest then 1 else 0) false lm.2)
      (dispatchFailed request principal started model failure) (l, m) := by
  cases failure with
  | noUpstream message => exact h
  | badRequest err => exact h
  | request status code message usageStatus =>
    apply (elapsedMs_counted h started).seq
    intro latencyMs lm hc
    apply (recordUsage_counted hc rfl).seq
    exact fun _ lm hc => hc

/-- The rows that the attempts and the end of the request account for. -/
def dueRows (st : ServerState) (route : ResolvedModelRoute) (body : String) (attempts : List (Option Sent)) : Nat :=
  attempts.countP attemptFailed + if endsUnrecorded st route body attempts then 0 else 1

theorem proxyChat_counted (request : HttpRequest) (principal : Principal) (started : Nat) (route : ResolvedModelRoute)
    (chat : ChatCompletionRequest) (hstream : chat.stream = false) (body : String) (admission : AdmissionPermit)
    (guarded : Bool) :
    Always (metered R st) i (fun _ _ => True)
      (fun _ lm => ∃ attempts, Counted request.requestId attempts (dueRows st route body attempts) false lm.2)
      (proxyChat st request principal started route chat body admission guarded) (l, {}) := by
  have hstart : Attempted request.requestId [] {} := ⟨rfl, rfl, rfl, by simp⟩
  unfold proxyChat dispatchChatRequest
  apply (dispatchAliases_counted route body principal route.requestedAlias started _ rfl rfl rfl rfl hstart).seq
  rintro result ⟨l, m⟩ ⟨attempts, h, hends⟩
  cases result with
  | ok answered =>
    have hdue : dueRows st route body attempts = attempts.countP attemptFailed + 1 := by
      simp [dueRows, hends, recordsEnd]
    simp only [hstream, Bool.false_eq_true, if_false]
    apply (jsonUpstream_counted (upstreamContext request principal started route chat answered.2 admission) h
      answered.1).seq
    intro response lm hc
    apply (leaveWorker_counted hc guarded).seq
    exact fun _ lm hc => ⟨attempts, hdue ▸ hc⟩
  | error failure =>
    have hdue : dueRows st route body attempts =
        attempts.countP attemptFailed + if failure.isRequest then 1 else 0 := by
      cases hf : failure.isRequest <;> simp [dueRows, hends, recordsEnd, hf]
    apply (dispatchFailed_counted request h principal started route.requestedAlias failure).seq
    intro response lm hc
    apply (leaveWorker_counted hc guarded).seq
    exact fun _ lm hc => Always.op trivial fun _ _ _ => ⟨attempts, hdue ▸ hc⟩

/-- One row, and so one request in the summary, exactly where the rows due are one
more than the rows that storage refuses. -/
theorem one_row_iff (r : R) (request : HttpRequest) (principal : Principal) (started : Nat) (route : ResolvedModelRoute)
    (chat : ChatCompletionRequest) (hstream : chat.stream = false) (body : String) (admission : AdmissionPermit)
    (guarded : Bool) :
    Always (metered R st) (.request r) (fun _ _ => True)
      (fun _ lm => (∀ row ∈ lm.2.rows, row.requestId = request.requestId) ∧
        (lm.2.rows.length = 1 ∧ (summarizeUsage lm.2.rows).requestCount = 1 ↔
          dueRows st route body lm.2.attempts = 1 + lm.2.lost))
      (proxyChat st request principal started route chat body admission guarded) (l, {}) := by
  apply (proxyChat_counted request principal started route chat hstream body admission guarded).mono fun _ _ h => h
  rintro _ ⟨l, m⟩ ⟨attempts, h⟩
  refine ⟨h.ids, ?_⟩
  have hcount : m.rows.length + m.lost = dueRows st route body attempts := h.count
  rw [summarizeUsage_requestCount, h.attempts]
  show m.rows.length = 1 ∧ m.rows.length = 1 ↔ dueRows st route body attempts = 1 + m.lost
  omega

/-- The one attempt of the request fails: its row and the row of the request. -/
theorem failed_attempt_two_rows : ∃ c, Reach (serverWorld Unit oneModelNode) (fun _ _ => True)
    (serverStart oneModelNode {} fun _ => chatInput 7 "") c ∧ c.over (.request ()) = true ∧
    (c.loc (.request ())).trace.usage.map (·.requestId) = [7, 7] ∧
    (summarizeUsage (c.loc (.request ())).trace.usage).requestCount = 2 := by
  refine Conf.exists_reach ((Proc.request ()).turns oneModelNode { sent := .failed false } 28) ?_
  decide +kernel

theorem one_row_answered : Always (metered Unit oneModelNode) (.request ()) (fun _ _ => True)
    (fun _ lm => lm.2.attempts = [some (.response ⟨200, none, 0⟩)] → lm.2.lost = 0 → lm.2.rows.length = 1)
    (proxyChat oneModelNode ⟨7, "", [], none⟩ .anonymous 0 qwenRoute qwenChat "" [] false) ({}, {}) := by
  apply (one_row_iff () ⟨7, "", [], none⟩ .anonymous 0 qwenRoute qwenChat rfl "" [] false).mono fun _ _ h => h
  rintro _ ⟨l, m⟩ ⟨-, hiff⟩ hattempts hlost
  refine (hiff.mpr ?_).1
  rw [show m.attempts = _ from hattempts, show m.lost = 0 from hlost]
  decide +kernel

end

end Llmctl
