import Llmctl.Server.ServingChat

/-!
# The typestate of native answers

The native engines, and the handlers of chat and embedding requests.
-/

namespace Llmctl

open Async

section
variable {R : Type} [DecidableEq R] {st : ServerState} {i : Proc R} {role : Role} {granted : Seen → Prop}
  {c : Call} {h : Holding} {t : Trace}

/-! ## The scheduler -/

section
variable (hheld : c.held = {}) (hg : granted c.seen) (p : AdmissionPermit)
include hheld hg


/-- A scheduled request comes back with its permit alone, and at most one decode. -/
def Scheduling (c : Call) (p : AdmissionPermit) (t : Trace) (l : Local) : Prop :=
  ∃ t', l = ⟨c, { permit := some p }, t'⟩ ∧ t'.usage = t.usage

omit hheld in
theorem runScheduled_always (ht : t.decoded = []) (hu : t.usage = []) (engine : String) (request : NativeChatRequest) :
    Always (serverWorld R st) i (Serving st role granted) (fun _ l => Scheduling c p t l)
      (runScheduledNativeChat engine request) ⟨c, { permit := some p, slot := some engine }, t⟩ := by
  have hs : ∀ d, Scheduled { permit := some p, slot := some engine, decode := d } none (some engine) d :=
    fun d => ⟨rfl, by simp, rfl, rfl, rfl⟩
  have hle : t.usage.length ≤ 1 := by simp [hu]
  unfold runScheduledNativeChat
  split
  · exact ⟨⟨hs none, fun _ => hg, fun _ => hle⟩, fun _ _ _ => ⟨t, rfl, rfl⟩⟩
  · refine Always.op ⟨hs none, fun _ => hg, ht, hu⟩ fun _ _ _ => ?_
    refine Always.op ⟨⟨engine, hs (some engine)⟩, fun _ => hg, by simp [serverWorld, ServerOp.loc, ServerOp.trace], hu⟩ fun _ _ _ => ?_
    exact ⟨⟨hs none, fun _ => hg, fun _ => hle⟩, fun _ _ _ => ⟨_, rfl, rfl⟩⟩

omit hheld in
theorem scheduledNativeChat_always (ht : t.decoded = []) (hu : t.usage = []) (engine : String)
    (request : NativeChatRequest) :
    Always (serverWorld R st) i (Serving st role granted) (fun _ l => Scheduling c p t l)
      (scheduledNativeChat engine request) ⟨c, { permit := some p }, t⟩ := by
  have hle : t.usage.length ≤ 1 := by simp [hu]
  have hs : ∀ q s, Scheduled { permit := some p, queued := q, slot := s } q s none :=
    fun q s => ⟨rfl, by simp, rfl, rfl, rfl⟩
  refine Always.op ⟨⟨quiet_of_none, by simp⟩, fun _ => hg, fun _ => hle⟩ fun _ _ _ => ?_
  obtain ⟨t₁, hn₁, hu₁, ht₁⟩ : ∃ t₁, t₁.decoded = [] ∧ t₁.usage = [] ∧
      ServerOp.trace (.sched (.chat engine request)) () t = t₁ := ⟨_, ht, hu, rfl⟩
  have hback : ∀ l, Scheduling c p t₁ l → Scheduling c p t l := by
    rintro l ⟨t', rfl, hu'⟩
    exact ⟨t', rfl, hu'.trans (hu₁.trans hu.symm)⟩
  show Always (serverWorld R st) i (Serving st role granted) _ _
    ⟨c, { permit := some p }, ServerOp.trace (.sched (.chat engine request)) () t⟩
  rw [ht₁]
  have hle₁ : t₁.usage.length ≤ 1 := by simp [hu₁]
  split
  · exact ⟨t₁, rfl, hu₁.trans hu.symm⟩
  · refine Always.op ⟨hs none none, fun _ => hg, fun _ => hle₁⟩ fun ok _ _ => ?_
    cases ok with
    | true =>
      exact (runScheduled_always hg p hn₁ hu₁ engine request).mono (fun _ _ hΦ => hΦ) fun _ _ => hback _
    | false =>
      refine Always.op ⟨hs none none, fun _ => hg, fun _ => hle₁⟩ fun ok _ _ => ?_
      cases ok with
      | false => exact ⟨t₁, rfl, hu₁.trans hu.symm⟩
      | true =>
        refine Always.op ⟨hs (some engine) none, fun _ => hg, fun _ => hle₁⟩ fun _ _ _ => ?_
        refine Always.op ⟨hs (some engine) (some engine), fun _ => hg, fun _ => hle₁⟩ fun _ _ _ => ?_
        exact (runScheduled_always hg p hn₁ hu₁ engine request).mono (fun _ _ hΦ => hΦ) fun _ _ => hback _

/-! ## Native answers -/

/-- The usage row, the audit row and the end of the permit, after a decode or without one. -/
theorem nativeRecords_always {α : Type} {Ψ : α → Local → Prop} (hu : t.usage = []) (input : Nat → UsageRecordInput)
    (started requestId : Nat) (principal : Principal) (model outcome : String) (detail : Json) (rest : ServerProg α)
    (hrest : ∀ t', Accounted t' →
      Always (serverWorld R st) i (Serving st role granted) Ψ rest ⟨c, {}, t'⟩) :
    Always (serverWorld R st) i (Serving st role granted) Ψ
      (do
        let latencyMs ← elapsedMs started
        recordUsage (input latencyMs)
        recordAudit (some requestId) principal "chat.completions" model outcome detail
        op (.permit .drop)
        rest)
      ⟨c, { permit := some p }, t⟩ := by
  have hr := resting_of (h := { permit := some p }) hheld hg quiet_of_none
  apply (elapsedMs_always hr (fun _ => by simp [hu]) _).seq
  rintro latencyMs _ rfl
  refine Always.recorded (recordUsage_always hr (fun _ => hu) _) fun _ t₁ ht₁ => ?_
  have hle₁ : t₁.usage.length ≤ 1 := by have := ht₁.usage_le; simpa [hu] using this
  refine Always.recorded (recordAudit_always hr (fun _ => hle₁) _ _ _ _ _ _) fun _ t₂ ht₂ => ?_
  have hle₂ : t₂.usage.length ≤ 1 := le_trans ht₂.usage_le hle₁
  have hall := ht₁.trans ht₂
  refine Always.op ⟨⟨quiet_of_none, by simp⟩, fun _ => hg, fun _ => hle₂⟩ fun _ _ _ => ?_
  exact hrest t₂ fun _ => by simpa [hu] using hall.usage

theorem nativeChatNotReady_always (hu : t.usage = []) (context : NativeChatContext) (streamed : Bool) :
    Always (serverWorld R st) i (Serving st role granted) (Responds R st i role granted)
      (nativeChatNotReady context streamed) ⟨c, { permit := some p }, t⟩ := by
  unfold nativeChatNotReady
  refine nativeRecords_always hheld hg p hu _ _ _ _ _ _ _ _ fun t' ht' => ?_
  exact returns_of_whole (R := R) ((errorResponse_whole _ _ _).withRequestId _) ⟨rfl, ht'⟩

omit hheld hg in
theorem nativeErrorResponse_whole (err : String) : (nativeErrorResponse err).Whole := by
  unfold nativeErrorResponse
  split <;> exact errorResponse_whole _ _ _

theorem nativeChatRuntimeError_always (hu : t.usage = []) (context : NativeChatContext) (err : String) :
    Always (serverWorld R st) i (Serving st role granted) (Responds R st i role granted)
      (nativeChatRuntimeError context err) ⟨c, { permit := some p }, t⟩ := by
  unfold nativeChatRuntimeError
  refine nativeRecords_always hheld hg p hu _ _ _ _ _ _ _ _ fun t' ht' => ?_
  exact returns_of_whole (R := R) ((nativeErrorResponse_whole err).withRequestId _) ⟨rfl, ht'⟩

theorem nativeChatResponse_always (hu : t.usage = []) (context : NativeChatContext) (answer : NativeChatResponse) :
    Always (serverWorld R st) i (Serving st role granted) (Responds R st i role granted)
      (nativeChatResponse context answer) ⟨c, { permit := some p }, t⟩ := by
  unfold nativeChatResponse
  refine nativeRecords_always hheld hg p hu _ _ _ _ _ _ _ _ fun t' ht' => ?_
  exact returns_of_whole (R := R) (fun _ he => by cases he) ⟨rfl, ht'⟩

theorem streamTask_always (ht : t.decoded = []) (hu : t.usage = []) (context : NativeChatContext)
    (request : NativeChatRequest) :
    Always (serverWorld R st) i (Serving st role granted)
      (fun _ l => l.holding = {} ∧ Accounted l.trace)
      (streamTask context request) ⟨c, { permit := some p }, t⟩ := by
  apply (scheduledNativeChat_always hg p ht hu _ request).seq
  intro r l hl
  obtain ⟨t', rfl, hu'⟩ := hl
  have hu' : t'.usage = [] := hu'.trans hu
  cases r with
  | ok answer =>
    exact nativeRecords_always hheld hg p hu' _ _ _ _ _ _ _ (.done ()) fun t'' ht'' => ⟨rfl, ht''⟩
  | error err =>
    exact nativeRecords_always hheld hg p hu' _ _ _ _ _ _ _ (.done ()) fun t'' ht'' => ⟨rfl, ht''⟩

end

/-! ## The stream of a native answer -/

def Idle (c : Call) (l : Local) : Prop := ∃ t, l = ⟨c, {}, t⟩ ∧ t.decoded = []

theorem yield_always (ht : t.decoded = []) (item : Except String String) (rest : ServerProg Unit)
    (hrest : ∀ t', t'.decoded = [] → Always (serverWorld R st) i (Serving st role granted) (fun _ => Idle c) rest
      ⟨c, {}, t'⟩) :
    Always (serverWorld R st) i (Serving st role granted) (fun _ => Idle c)
      (do op (.body (.yield item)); rest) ⟨c, {}, t⟩ := by
  refine Always.op ⟨quiet_of_none, fun hp => absurd rfl hp, fun hd => absurd ht hd⟩ ?_
  intro _ _ _
  exact hrest (ServerOp.trace (.body (.yield item)) () t) ht

theorem nativeStreamCloses_always (ht : t.decoded = []) (requestId : Nat) (model : String) :
    Always (serverWorld R st) i (Serving st role granted) (fun _ => Idle c) (nativeStreamCloses requestId model)
      ⟨c, {}, t⟩ := by
  have hend : ∀ (item item' : Except String String) t', t'.decoded = [] →
      Always (serverWorld R st) i (Serving st role granted) (fun _ => Idle c)
        (do op (.body (.yield item)); op (.body (.yield item'))) ⟨c, {}, t'⟩ := by
    intro item item' t' ht'
    apply yield_always ht'
    intro t'' ht''
    exact yield_always ht'' item' (.done ()) fun t₃ ht₃ => ⟨t₃, rfl, ht₃⟩
  refine Always.op ⟨quiet_of_none, fun hp => absurd rfl hp, fun hd => absurd ht hd⟩ ?_
  intro outcome _ _
  have hn : (ServerOp.trace (.task .recvFinal) outcome t).decoded = [] := ht
  cases outcome with
  | done finishReason => exact hend _ _ _ hn
  | failed => exact yield_always hn _ _ fun t' ht' => hend _ _ t' ht'

theorem nativeCompletionSseStream_always (requestId : Nat) (model : String) : ∀ (deltas : Nat) {t : Trace},
    t.decoded = [] → Always (serverWorld R st) i (Serving st role granted) (fun _ => Idle c)
      (nativeCompletionSseStream requestId model deltas) ⟨c, {}, t⟩
  | 0, t, ht => by
    refine Always.op ⟨quiet_of_none, fun hp => absurd rfl hp, fun hd => absurd ht hd⟩ ?_
    intro x _ _
    exact nativeStreamCloses_always (t := ServerOp.trace (.task .recvClosed) x t) ht requestId model
  | deltas + 1, t, ht => by
    refine Always.op ⟨quiet_of_none, fun hp => absurd rfl hp, fun hd => absurd ht hd⟩ ?_
    intro token _ _
    have hn : (ServerOp.trace (.task .recvToken) token t).decoded = [] := ht
    cases token with
    | none => exact nativeStreamCloses_always hn requestId model
    | some delta =>
      simp only
      split
      · exact nativeCompletionSseStream_always requestId model deltas hn
      · exact yield_always hn _ _ fun t' ht' => nativeCompletionSseStream_always requestId model deltas ht'

theorem nativeChatStreamResponse_always (hg : granted c.seen) (ht : t.decoded = []) (context : NativeChatContext)
    (hadmits : role.admits = true) (request : NativeChatRequest) :
    Always (serverWorld R st) i (Serving st role granted) (Responds R st i role granted)
      (nativeChatStreamResponse context request) ⟨c, { permit := some context.admission }, t⟩ := by
  refine Always.op ⟨⟨quiet_of_none, rfl, hadmits⟩, fun _ => hg, fun hd => absurd ht hd⟩ ?_
  intro deltas _ _
  refine Always.op (W := serverWorld R st) ⟨quiet_of_none, fun hp => absurd rfl hp, fun hd => absurd ht hd⟩ ?_
  intro _ _ _
  apply (nativeCompletionSseStream_always (t := ServerOp.trace (.body .firstPoll) () t) context.requestId
    context.model deltas ht).seq
  intro _ l hl
  obtain ⟨t', rfl, ht'⟩ := hl
  exact ⟨rfl, fun hd => absurd ht' hd⟩

theorem dispatchNativeChat_always (hheld : c.held = {}) (hg : granted c.seen) (ht : t.decoded = []) (hu : t.usage = [])
    (context : NativeChatContext) (chat : ChatCompletionRequest) (hadmits : role.admits = true) :
    Always (serverWorld R st) i (Serving st role granted) (Responds R st i role granted)
      (dispatchNativeChat st context chat) ⟨c, { permit := some context.admission }, t⟩ := by
  unfold dispatchNativeChat
  split
  · exact nativeChatNotReady_always hheld hg _ hu context chat.stream
  · simp only
    split
    · exact nativeChatStreamResponse_always hg ht context hadmits _
    · apply (scheduledNativeChat_always hg _ ht hu _ _).seq
      intro r l hl
      obtain ⟨t', rfl, hu'⟩ := hl
      cases r with
      | error err => exact nativeChatRuntimeError_always hheld hg _ (hu'.trans hu) context err
      | ok answer => exact nativeChatResponse_always hheld hg _ (hu'.trans hu) context answer

/-! ## The chat handler -/

section
variable (request : HttpRequest) (principal : Principal) (started : Nat)

theorem serveChat_always (hheld : c.held = {}) (hg : granted c.seen) (ht : t.decoded = []) (hu : t.usage = [])
    {route : ResolvedModelRoute} (hlocal : route.externalProvider = none) (chat : ChatCompletionRequest)
    (hrole : role = .chat chat.stream) (body : String) (p : AdmissionPermit) :
    Always (serverWorld R st) i (Serving st role granted) (Responds R st i role granted)
      (serveChat st request principal started route chat body p) ⟨c, { permit := some p }, t⟩ := by
  have hadmits : role.admits = true := by rw [hrole]; rfl
  unfold serveChat
  simp only [hlocal, Option.isSome_none, Bool.false_or, Bool.false_eq_true, if_false]
  split
  · apply (admitToWorker_always hg p ht request.requestId route.upstreamAlias).seq
    intro r l hl
    obtain ⟨t', worker, rfl, hn, hr⟩ := hl
    cases r with
    | error response =>
      obtain ⟨rfl, hw⟩ := hr
      refine Always.op ⟨⟨quiet_of_none, by simp⟩, fun _ => hg, fun hd => absurd hn hd⟩ ?_
      intro _ _ _
      exact returns_of_whole (R := R) hw ⟨rfl, fun hd => absurd hn hd⟩
    | ok guarded =>
      subst hr
      exact proxyChat_always hheld hg p hn worker request principal started hlocal chat hrole body
  · exact dispatchNativeChat_always hheld hg ht hu _ chat hadmits

structure Fresh (t : Trace) : Prop where
  decoded : t.decoded = []
  usage : t.usage = []

omit [DecidableEq R] in
theorem Recorded.fresh {t t' : Trace} (hr : Recorded 0 t t') (ht : Fresh t) : Fresh t' := by
  have hle := hr.usage_le
  simp only [ht.usage, List.length_nil, Nat.add_zero, Nat.le_zero, List.length_eq_zero_iff] at hle
  exact ⟨hr.decoded.trans ht.decoded, hle⟩

theorem recordAudit_fresh {α : Type} {Ψ : α → Local → Prop} (hheld : c.held = {}) (ht : Fresh t)
    (requestId : Option Nat) (principal : Principal) (action resource outcome : String) (detail : Json)
    {rest : ServerProg α} (hrest : ∀ t', Fresh t' →
      Always (serverWorld R st) i (Serving st role granted) Ψ rest ⟨c, {}, t'⟩) :
    Always (serverWorld R st) i (Serving st role granted) Ψ
      (do recordAudit requestId principal action resource outcome detail; rest) ⟨c, {}, t⟩ := by
  have hr : Resting granted c {} := ⟨hheld, quiet_of_none, fun hp => absurd rfl hp⟩
  refine Always.recorded (recordAudit_always hr (fun hd => absurd ht.decoded hd) _ _ _ _ _ _) ?_
  intro _ t' ht'
  exact hrest t' (ht'.fresh ht)

theorem auditReject_always (hheld : c.held = {}) (ht : Fresh t) (requestId : Nat) (principal : Principal)
    (action resource outcome : String) (status : StatusCode) (code message : String) (detail : Json) :
    Always (serverWorld R st) i (Serving st role granted) (Responds R st i role granted)
      (auditReject requestId principal action resource outcome status code message detail) ⟨c, {}, t⟩ :=
  (rejected_always hheld ht.decoded requestId principal action resource outcome (errorResponse_whole status code message)
    detail).mono (fun _ _ hΦ => hΦ) fun _ _ hΨ => hΨ.1

theorem admitChat_always (hstart : ∀ s, Granted request.requestId s → granted s) (ht : Fresh t)
    {route : ResolvedModelRoute} (hlocal : route.externalProvider = none) (chat : ChatCompletionRequest)
    (hrole : role = .chat chat.stream) (body : String) :
    Always (serverWorld R st) i (Serving st role granted) (Responds R st i role granted)
      (admitChat st request principal started route chat body) ⟨{}, {}, t⟩ := by
  have hadmits : role.admits = true := by rw [hrole]; rfl
  have hr : Resting granted {} {} := ⟨rfl, quiet_of_none, fun hp => absurd rfl hp⟩
  refine Always.recorded (recordRequestLineageJoins_always hr _ _ _ _ _ fun hd => absurd ht.decoded hd) ?_
  intro _ t₁ ht₁
  have hf₁ := ht₁.fresh ht
  apply (admitRequest_serving hf₁.decoded _ _ _ _ _).seq
  intro r l hl
  obtain ⟨call, t₂, rfl, ht₂, hheld, hdecision⟩ := hl
  have hf₂ := ht₂.fresh hf₁
  cases r with
  | error err => exact auditReject_always hheld hf₂ _ _ _ _ _ _ _ _ _
  | ok quota =>
    simp only
    split
    · rename_i hallowed
      obtain ⟨row, hrow, hrow', hid⟩ := hdecision quota rfl
      have hg : granted call.seen := hstart _ ⟨row, hrow, hrow'.trans hallowed, hid⟩
      apply recordAudit_fresh hheld hf₂
      intro t₃ hf₃
      refine Always.op ⟨⟨quiet_of_none, rfl, hadmits⟩, fun _ => hg, fun hd => absurd hf₃.decoded hd⟩ ?_
      intro acquired _ _
      cases acquired with
      | true => exact serveChat_always request principal started hheld hg hf₃.decoded hf₃.usage hlocal chat hrole body _
      | false => exact auditReject_always hheld hf₃ _ _ _ _ _ _ _ _ _
    · exact auditReject_always hheld hf₂ _ _ _ _ _ _ _ _ _

theorem redactedChat_always (hstart : ∀ s, Granted request.requestId s → granted s) (ht : Fresh t)
    {route : ResolvedModelRoute} (hlocal : route.externalProvider = none) (chat : ChatCompletionRequest)
    (hrole : role = .chat chat.stream) (redactions : List (Nat × String)) :
    Always (serverWorld R st) i (Serving st role granted) (Responds R st i role granted)
      (match applyMessageRedactions st request.body redactions with
        | .error err =>
          auditReject request.requestId principal "chat.completions" route.requestedAlias "rejected" 400 "bad_request"
            badRequestBody [("reason", err)]
        | .ok outboundBody =>
          admitChat st request principal started route
            { chat with messages := redactions.foldl setContent chat.messages } outboundBody)
      ⟨{}, {}, t⟩ := by
  split
  · exact auditReject_always rfl ht _ _ _ _ _ _ _ _ _
  · exact admitChat_always request principal started hstart ht hlocal
      { chat with messages := redactions.foldl setContent chat.messages } hrole _

theorem guardChat_always (hstart : ∀ s, Granted request.requestId s → granted s) (ht : Fresh t)
    {route : ResolvedModelRoute} (hlocal : route.externalProvider = none) (chat : ChatCompletionRequest)
    (hrole : role = .chat chat.stream) :
    Always (serverWorld R st) i (Serving st role granted) (Responds R st i role granted)
      (guardChat st request principal started route chat) ⟨{}, {}, t⟩ := by
  unfold guardChat
  cases st.guardrails with
  | none => exact admitChat_always request principal started hstart ht hlocal chat hrole request.body
  | some evaluate =>
    simp only
    by_cases hblock : (evaluate (chat.messages.mapIdx fun index message => (index, message.content))).blockReasons.isEmpty
    · simp only [hblock, Bool.not_true, Bool.false_eq_true, if_false]
      split
      · refine recordAudit_fresh rfl ht _ _ _ _ _ _ ?_
        intro t' hf
        exact redactedChat_always request principal started hstart hf hlocal chat hrole _
      · exact redactedChat_always request principal started hstart ht hlocal chat hrole _
    · simp only [hblock, Bool.not_false, if_true]
      exact auditReject_always rfl ht _ _ _ _ _ _ _ _ _

end

/-! ## The prologue of the handlers -/

theorem drainingResponse_always (ht : Fresh t) (requestId : Nat) :
    Always (serverWorld R st) i (Serving st role granted)
      (fun r l => l = ⟨{}, {}, t⟩ ∧ ∀ response, r = some response → response.Whole) (drainingResponse requestId)
      ⟨{}, {}, t⟩ := by
  refine Always.op ⟨quiet_of_none, fun hp => absurd rfl hp, fun hd => absurd ht.decoded hd⟩ ?_
  intro draining _ _
  cases draining with
  | false => exact ⟨rfl, by simp⟩
  | true =>
    refine ⟨rfl, ?_⟩
    rintro response ⟨⟩
    exact (errorResponse_whole 503 "server_draining" _).withRequestId requestId

theorem authenticate_always (ht : Fresh t) (requestId : Nat) (action : String) :
    Always (serverWorld R st) i (Serving st role granted)
      (fun r l => match r with
        | .error response => Responds R st i role granted response l
        | .ok _ => l = ⟨{}, {}, t⟩) (authenticateWithChatScope requestId action) ⟨{}, {}, t⟩ := by
  refine Always.op ⟨quiet_of_none, fun hp => absurd rfl hp, fun hd => absurd ht.decoded hd⟩ ?_
  intro r _ _
  cases r with
  | error err =>
    apply (rejected_always (t := t) rfl ht.decoded requestId .anonymous action "unknown" "denied"
      (authErrorResponse_whole err) _).seq
    intro response l hl
    exact hl.1
  | ok principal =>
    simp only
    split
    · rfl
    · exact Always.bind (auditReject_always rfl ht _ _ _ _ _ _ _ _ _)

/-- What every handler does before it looks at its body. -/
theorem prologue_always (ht : Fresh t) (requestId : Nat) (action : String) {rest : Nat → Principal → ServerProg Response}
    (hrest : ∀ started principal, Always (serverWorld R st) i (Serving st role granted)
      (Responds R st i role granted) (rest started principal) ⟨{}, {}, t⟩) :
    Always (serverWorld R st) i (Serving st role granted) (Responds R st i role granted)
      (do
        match ← drainingResponse requestId with
        | some response => pure response
        | none =>
          let started ← op .instant
          match ← authenticateWithChatScope requestId action with
          | .error response => pure response
          | .ok principal => rest started principal) ⟨{}, {}, t⟩ := by
  apply (drainingResponse_always ht requestId).seq
  intro r l hl
  obtain ⟨rfl, hw⟩ := hl
  cases r with
  | some response => exact returns_of_whole (R := R) (hw response rfl) ⟨rfl, fun hd => absurd ht.decoded hd⟩
  | none =>
    refine Always.op ⟨quiet_of_none, fun hp => absurd rfl hp, fun hd => absurd ht.decoded hd⟩ ?_
    intro started _ _
    apply (authenticate_always (t := t) ht requestId action).seq
    intro r l hl
    cases r with
    | error response => exact hl
    | ok principal =>
      obtain rfl : l = _ := hl
      exact hrest started principal

theorem chatCompletions_always (request : HttpRequest) (hstart : ∀ s, Granted request.requestId s → granted s)
    (ht : Fresh t) (hrole : role = (Input.chat request).role st) :
    Always (serverWorld R st) i (Serving st role granted) (Responds R st i role granted)
      (chatCompletions st request) ⟨{}, {}, t⟩ := by
  refine prologue_always ht request.requestId "chat.completions" ?_
  intro started principal
  cases hparse : st.parseChat request.body with
  | error err => exact auditReject_always rfl ht _ _ _ _ _ _ _ _ _
  | ok chat =>
    simp only
    split
    · exact (rejected_always rfl ht.decoded _ _ _ _ _ (modelRouteErrorResponse_whole _) _).mono (fun _ _ hΦ => hΦ)
        fun _ _ hΨ => hΨ.1
    · rename_i route hroute
      refine guardChat_always request principal started hstart ht (resolveModelRoute_local hroute) chat ?_
      simp only [hrole, Input.role, hparse]

/-! ## The other handlers -/

section
variable (request : HttpRequest) (principal : Principal) (started : Nat)

theorem nativeEmbeddingResponse_always (ht : Fresh t) (route : ResolvedModelRoute)
    (selection : NativeEmbeddingSelection) (response : NativeEmbeddingResponse) :
    Always (serverWorld R st) i (Serving st role granted) (Responds R st i role granted)
      (nativeEmbeddingResponse request principal started route selection response) ⟨{}, {}, t⟩ := by
  have hr : Resting granted {} {} := ⟨rfl, quiet_of_none, fun hp => absurd rfl hp⟩
  refine undecoded_always hr ht.decoded fun t' hn => ?_
  exact returns_of_whole (R := R) (fun _ he => by cases he) ⟨rfl, fun hd => absurd hn hd⟩

theorem semanticEmbeddings_always (ht : Fresh t) (route : ResolvedModelRoute) (selection : NativeEmbeddingSelection)
    (hembeds : st.nativeEngines.contains selection.modelAlias = true → role.embeds = true)
    (native : NativeEmbeddingRequest) :
    Always (serverWorld R st) i (Serving st role granted) (Responds R st i role granted)
      (semanticEmbeddings st request principal started route selection native) ⟨{}, {}, t⟩ := by
  unfold semanticEmbeddings
  by_cases hloaded : st.nativeEngines.contains selection.modelAlias = true
  · rw [if_neg (by simpa using hloaded)]
    refine Always.op ⟨⟨rfl, hembeds hloaded⟩, fun hp => absurd rfl hp, fun hd => absurd ht.decoded hd⟩ ?_
    intro answer _ _
    cases answer with
    | error err => exact auditReject_always (t := t) rfl ht _ _ _ _ _ _ _ _ _
    | ok response => exact nativeEmbeddingResponse_always (t := t) request principal started ht route _ response
  · rw [if_pos (by simpa using hloaded)]
    exact auditReject_always rfl ht _ _ _ _ _ _ _ _ _

theorem serveEmbeddings_always (ht : Fresh t) (route : ResolvedModelRoute) (embedding : EmbeddingRequest)
    (hembeds : ∀ selection, nativeEmbeddingSelection st.cfg route = .ok selection → selection.mode = .semantic →
      st.nativeEngines.contains selection.modelAlias = true → role.embeds = true) :
    Always (serverWorld R st) i (Serving st role granted) (Responds R st i role granted)
      (serveEmbeddings st request principal started route embedding) ⟨{}, {}, t⟩ := by
  unfold serveEmbeddings
  cases hselection : nativeEmbeddingSelection st.cfg route with
  | error err => exact auditReject_always rfl ht _ _ _ _ _ _ _ _ _
  | ok selection =>
    simp only
    cases hmode : selection.mode with
    | semantic =>
      exact semanticEmbeddings_always request principal started ht route selection (hembeds selection hselection hmode) _
    | devFallback =>
      simp only [fallbackEmbeddings]
      split
      · exact nativeEmbeddingResponse_always request principal started ht route _ _
      · exact returns_of_whole (R := R) ((errorResponse_whole _ _ _).withRequestId _)
          ⟨rfl, fun hd => absurd ht.decoded hd⟩

end

theorem nativeEmbeddings_always (request : HttpRequest) (hrole : role = (Input.embeddings request).role st)
    (ht : Fresh t) :
    Always (serverWorld R st) i (Serving st role granted) (Responds R st i role granted)
      (nativeEmbeddings st request) ⟨{}, {}, t⟩ := by
  refine prologue_always ht request.requestId "embeddings" ?_
  intro started principal
  cases hparse : st.parseEmbedding request.body with
  | error err => exact auditReject_always rfl ht _ _ _ _ _ _ _ _ _
  | ok embedding =>
    simp only
    split
    · exact auditReject_always rfl ht _ _ _ _ _ _ _ _ _
    · cases hroute : resolveModelRoute st.cfg embedding.model request.requestId with
      | error err =>
        exact (rejected_always rfl ht.decoded _ _ _ _ _ (modelRouteErrorResponse_whole _) _).mono (fun _ _ hΦ => hΦ)
          fun _ _ hΨ => hΨ.1
      | ok route =>
        refine serveEmbeddings_always request principal started ht route embedding ?_
        intro selection hselection hmode hloaded
        simp only [hrole, Input.role, Input.embeds, hparse, hroute, hselection, hmode, hloaded]
        rfl

end

end Llmctl
