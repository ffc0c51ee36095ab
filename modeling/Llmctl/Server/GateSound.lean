import Llmctl.Server.DrainSound

/-!
# Dispatch and the gates of workers

The handler passes the gate of one worker, that of the route's own alias; the loop
sends to that alias and to the fallbacks. A send is covered exactly where its
upstream is that worker's, or the route's external provider (`dispatch_gated`).
-/

namespace Llmctl

open Async

/-! ## Passing a gate -/

/-- How far a request has come through the gate of a worker: found, counted in
flight, and seen admitting after that. -/
inductive Passage where
  | away
  | found (id : String) (gate : Nat)
  | counted (id : String) (gate : Nat)
  | admitted (id : String) (gate : Nat)
  deriving DecidableEq, Repr

def Passage.see : (o : ServerOp) → ServerSig.Ans o → Passage → Passage
  | .worker (.getAdmission id), (gate : Option Nat), _ => match gate with
    | some gate => .found id gate
    | none => .away
  | .gate (.increment k gate), _, p => if p = .found k gate then .counted k gate else .away
  | .gate (.isAdmitting n), (open_ : Bool), p => match p with
    | .counted k gate => if open_ = true ∧ n = gate then .admitted k gate else .counted k gate
    | p => p
  | .gate .decrement, _, _ => .away
  | _, _, p => p

abbrev gated (R : Type) [DecidableEq R] (st : ServerState) := (serverWorld R st).observe Passage.see

/-- The worker whose upstream the loop takes for `k`. -/
def workerOf (st : ServerState) (k : String) : String := if (mapGet st.upstreams k).isSome then k else "*"

theorem upstreamForAlias_eq (st : ServerState) (k : String) :
    upstreamForAlias st k = mapGet st.upstreams (workerOf st k) := by
  unfold upstreamForAlias workerOf
  cases hk : mapGet st.upstreams k with
  | none => rfl
  | some base => exact hk.symm

/-- The upstream that an attempt on `k` goes to: the provider's, or the worker's. -/
def Reaches (st : ServerState) (route : ResolvedModelRoute) (k url : String) : Prop :=
  match (attemptRoute route k).externalProvider with
  | some provider => url = s!"{provider.baseUrl}/v1/chat/completions"
  | none => ∃ base, mapGet st.upstreams (workerOf st k) = some base ∧ url = s!"{base}/v1/chat/completions"

/-- The worker was admitting when the request passed its gate, and counts it in flight. -/
def Passed (worker : String) (lm : Local × Passage) : Prop :=
  ∃ gate, lm.2 = .admitted worker gate ∧ lm.1.holding.worker = some ⟨worker, gate⟩

/-- The upstream of `k` is the provider's, or that of the worker the handler has gated. -/
def covered (st : ServerState) (route : ResolvedModelRoute) (k : String) : Bool :=
  if route.externalProvider.isSome then k == route.upstreamAlias else workerOf st k == route.upstreamAlias

def SendGated (st : ServerState) (route : ResolvedModelRoute) : ServerOp → Local × Passage → Prop
  | .upstream (.send k url _ _), lm =>
    Reaches st route k url ∧
      ((attemptRoute route k).externalProvider.isSome = true ∨ Passed (workerOf st k) lm ↔ covered st route k = true)
  | _, _ => True

/-! ## Calls that pass no gate and send nothing -/

def ServerOp.aside : ServerOp → Bool
  | .upstream (.send ..) | .gate _ | .worker (.getAdmission _) => false
  | _ => true

def ServerOp.sends : ServerOp → Bool
  | .upstream (.send ..) => true
  | _ => false

abbrev Aside {α : Type} (p : ServerProg α) : Prop := Prog.All (fun o : ServerOp => o.aside = true) p

theorem storage_aside {α : Type} (p : StoreProg α) : Aside (storage p) := by
  unfold storage
  refine (Prog.all_of_forall (fun _ => trivial) p).lift (P := fun _ => True) ?_
  intro o _
  rfl

theorem elapsedMs_aside (started : Nat) : Aside (elapsedMs started) := ⟨rfl, fun _ => trivial⟩

theorem recordUsage_aside (input : UsageRecordInput) : Aside (recordUsage input) :=
  ⟨rfl, fun _ => (storage_aside _).bind fun _ => trivial⟩

theorem recordAudit_aside (requestId : Option Nat) (principal : Principal) (action resource outcome : String)
    (detail : Json) : Aside (recordAudit requestId principal action resource outcome detail) :=
  ⟨rfl, fun _ => (storage_aside _).bind fun _ => trivial⟩

theorem recordUpstreamFailure_aside (requestId : Nat) (principal : Principal) (model : String) (started : Nat)
    (status : String) : Aside (recordUpstreamFailure requestId principal model started status) :=
  (elapsedMs_aside started).bind fun _ => recordUsage_aside _

theorem recorded_aside {α : Type} {started : Nat} {input : Nat → UsageRecordInput} {requestId : Option Nat}
    {principal : Principal} {action resource outcome : String} {detail : Json} {p : ServerProg α} (hp : Aside p) :
    Aside (do
      let latencyMs ← elapsedMs started
      recordUsage (input latencyMs)
      recordAudit requestId principal action resource outcome detail
      p) :=
  (elapsedMs_aside started).bind fun _ => (recordUsage_aside _).bind fun _ => (recordAudit_aside ..).bind fun _ => hp

/-- Once its answer is there an attempt records, sleeps and closes. -/
theorem sendAttempt_eq (ctx : DispatchContext) (k : String) (target : DispatchTarget) (body : String) :
    ∃ rest : Sent → ServerProg (UpstreamResponse ⊕ DispatchFailure), sendAttempt ctx k target body =
        (op (.upstream (.send k s!"{target.baseUrl}/v1/chat/completions" body target.apiKey)) >>= rest) ∧
      ∀ sent, Aside (rest sent) := by
  refine ⟨_, rfl, fun sent => ?_⟩
  cases sent with
  | response r =>
    simp only
    split
    · exact ⟨rfl, fun _ => ⟨rfl, fun _ => ⟨rfl, fun _ => trivial⟩⟩⟩
    · split
      · exact ⟨rfl, fun _ => trivial⟩
      · trivial
  | failed isTimeout => exact ⟨rfl, fun _ => (recordUpstreamFailure_aside ..).bind fun _ => trivial⟩
  | timedOut => exact ⟨rfl, fun _ => (recordUpstreamFailure_aside ..).bind fun _ => trivial⟩

theorem jsonFails_aside (ctx : UpstreamRequestContext) (usageStatus : String) (status : StatusCode)
    (code message : String) : Aside (jsonFails ctx usageStatus status code message) :=
  (recordUpstreamFailure_aside ..).bind fun _ => ⟨rfl, fun _ => trivial⟩

theorem jsonUpstream_aside (st : ServerState) (response : UpstreamResponse) (ctx : UpstreamRequestContext) :
    Aside (jsonUpstream st response ctx) := by
  refine ⟨rfl, fun read => ?_⟩
  cases read with
  | failed isTimeout => exact jsonFails_aside ..
  | timedOut => exact jsonFails_aside ..
  | bytes text => exact recorded_aside ⟨rfl, fun _ => trivial⟩

theorem streamUpstream_aside (st : ServerState) (response : UpstreamResponse) (ctx : UpstreamRequestContext) :
    Aside (streamUpstream st response ctx) := by
  unfold streamUpstream
  split
  · trivial
  · exact recorded_aside ⟨rfl, fun _ => ⟨rfl, fun _ => trivial⟩⟩

theorem dispatchFailed_aside (request : HttpRequest) (principal : Principal) (started : Nat) (model : String)
    (failure : DispatchFailure) : Aside (dispatchFailed request principal started model failure) := by
  cases failure with
  | noUpstream message => trivial
  | badRequest err => trivial
  | request status code message usageStatus =>
    exact (elapsedMs_aside started).bind fun _ => (recordUsage_aside _).bind fun _ => trivial

theorem runScheduledNativeChat_aside (engine : String) (request : NativeChatRequest) :
    Aside (runScheduledNativeChat engine request) := by
  unfold runScheduledNativeChat
  split
  · exact ⟨rfl, fun _ => trivial⟩
  · exact ⟨rfl, fun _ => ⟨rfl, fun _ => ⟨rfl, fun _ => trivial⟩⟩⟩

theorem scheduledNativeChat_aside (engine : String) (request : NativeChatRequest) :
    Aside (scheduledNativeChat engine request) := by
  refine ⟨rfl, fun _ => ?_⟩
  by_cases hcancelled : requestCancelled request.metadata = true
  · simp only [hcancelled, if_true]
    trivial
  · simp only [hcancelled, Bool.false_eq_true, if_false]
    refine ⟨rfl, fun (slot : Bool) => ?_⟩
    cases slot with
    | true => exact runScheduledNativeChat_aside engine request
    | false =>
      refine ⟨rfl, fun (place : Bool) => ?_⟩
      cases place with
      | true => exact ⟨rfl, fun _ => ⟨rfl, fun _ => runScheduledNativeChat_aside engine request⟩⟩
      | false => trivial

theorem dispatchNativeChat_aside (st : ServerState) (context : NativeChatContext) (request : ChatCompletionRequest) :
    Aside (dispatchNativeChat st context request) := by
  unfold dispatchNativeChat
  split
  · exact recorded_aside ⟨rfl, fun _ => trivial⟩
  · simp only
    split
    · exact ⟨rfl, fun _ => trivial⟩
    · refine (scheduledNativeChat_aside _ _).bind fun result => ?_
      cases result with
      | error err => exact recorded_aside ⟨rfl, fun _ => trivial⟩
      | ok response => exact recorded_aside ⟨rfl, fun _ => trivial⟩

/-! ## The loop -/

section
variable {R : Type} [DecidableEq R] {st : ServerState} {i : Proc R} {route : ResolvedModelRoute} {lm : Local × Passage}

def Stays (lm lm' : Local × Passage) : Prop := lm'.2 = lm.2 ∧ lm'.1.holding.worker = lm.1.holding.worker

omit [DecidableEq R] in
theorem Stays.passed {lm' : Local × Passage} (h : Stays lm lm') (worker : String) :
    Passed worker lm' ↔ Passed worker lm := by
  unfold Passed
  rw [h.1, h.2]

omit [DecidableEq R] in
theorem Stays.trans {lm' lm'' : Local × Passage} (h : Stays lm lm') (h' : Stays lm' lm'') : Stays lm lm'' :=
  ⟨h'.1.trans h.1, h'.2.trans h.2⟩

theorem Stays.step {lm' : Local × Passage} (h : Stays lm lm') {o : ServerOp} (ho : o.aside = true)
    (a : ServerSig.Ans o) : Stays lm ((gated R st).loc i o a lm') := by
  obtain ⟨hp, hw⟩ := h
  cases o with
  | gate o => cases ho
  | worker o =>
    cases o with
    | getAdmission id => cases ho
    | _ => exact ⟨hp, hw⟩
  | _ => exact ⟨hp, hw⟩

theorem sendGated_of_not_send {o : ServerOp} (ho : o.sends = false) (lm : Local × Passage) : SendGated st route o lm := by
  cases o with
  | upstream o =>
    cases o with
    | send k url body apiKey => cases ho
    | _ => trivial
  | _ => trivial

theorem sends_of_aside {o : ServerOp} (ho : o.aside = true) : o.sends = false := by
  cases o with
  | upstream o =>
    cases o with
    | send k url body apiKey => cases ho
    | _ => rfl
  | _ => rfl

theorem Aside.stays {α : Type} {p : ServerProg α} (hp : Aside p) :
    Always (gated R st) i (SendGated st route) (fun _ lm' => Stays lm lm') p lm :=
  Always.of_all (fun _ _ ho _ => sendGated_of_not_send (sends_of_aside ho) _) (fun _ a _ ho h => h.step ho a) hp
    ⟨rfl, rfl⟩

/-- What `lm` says about the sends to the aliases of the route. -/
def Knows (st : ServerState) (route : ResolvedModelRoute) (lm : Local × Passage) : Prop :=
  ∀ k, (attemptRoute route k).externalProvider.isSome = true ∨ Passed (workerOf st k) lm ↔ covered st route k = true

theorem Knows.stays {lm' : Local × Passage} (h : Knows st route lm) (hs : Stays lm lm') : Knows st route lm' := by
  intro k
  rw [hs.passed]
  exact h k

theorem reaches_of_target {k : String} {target : DispatchTarget} (ht : dispatchTarget st (attemptRoute route k) = .ok target) :
    Reaches st route k s!"{target.baseUrl}/v1/chat/completions" := by
  unfold Reaches
  unfold dispatchTarget at ht
  cases hp : (attemptRoute route k).externalProvider with
  | some provider =>
    simp only [hp] at ht ⊢
    split at ht
    · cases ht
    · split at ht <;> cases ht
      rfl
  | none =>
    simp only [hp] at ht ⊢
    split at ht
    · rename_i base hb
      cases ht
      exact ⟨base, by rw [← upstreamForAlias_eq]; exact hb, rfl⟩
    · cases ht

theorem sendAttempt_gated (h : Knows st route lm) (ctx : DispatchContext) {k : String} {target : DispatchTarget}
    (ht : dispatchTarget st (attemptRoute route k) = .ok target) (body : String) :
    Always (gated R st) i (SendGated st route) (fun _ lm' => Stays lm lm') (sendAttempt ctx k target body) lm := by
  obtain ⟨rest, he, haside⟩ := sendAttempt_eq ctx k target body
  rw [he]
  refine Always.op ⟨reaches_of_target ht, h k⟩ fun sent g hc => ?_
  have hsent : Stays lm ((gated R st).loc i (.upstream (.send k _ body target.apiKey)) sent lm) := ⟨rfl, rfl⟩
  exact (haside sent).stays.mono (fun _ _ h => h) fun _ _ hs => hsent.trans hs

theorem dispatchAttempt_gated (h : Knows st route lm) (ctx : DispatchContext) {k : String} {target : DispatchTarget}
    (ht : dispatchTarget st (attemptRoute route k) = .ok target) (body : String) :
    Always (gated R st) i (SendGated st route) (fun _ lm' => Stays lm lm') (dispatchAttempt ctx k target body) lm := by
  refine Always.op trivial fun verdict g hc => ?_
  have hallowed : Stays lm ((gated R st).loc i (.breaker (.allowRequest k target.baseUrl)) verdict lm) := ⟨rfl, rfl⟩
  have hsend := (sendAttempt_gated (R := R) (i := i) (h.stays hallowed) ctx ht body).mono (fun _ _ h => h)
    fun _ _ hs => hallowed.trans hs
  cases verdict with
  | refused => exact hallowed
  | closed => exact hsend
  | probe => exact hsend

theorem dispatchAliases_gated (body : String) (ctx : DispatchContext) : ∀ (aliases : List String)
    {last : Option DispatchFailure} {lm : Local × Passage}, Knows st route lm →
    Always (gated R st) i (SendGated st route) (fun _ _ => True) (dispatchAliases st route body ctx last aliases) lm
  | [], _, _, _ => trivial
  | k :: aliases, _, lm, h => by
    unfold dispatchAliases
    cases rewriteChatModel st body (attemptRoute route k) with
    | error err => trivial
    | ok rewritten =>
      cases ht : dispatchTarget st (attemptRoute route k) with
      | error failure => trivial
      | ok target =>
        apply (dispatchAttempt_gated h ctx ht rewritten).seq
        intro turn lm' hs
        cases turn with
        | inl response => trivial
        | inr failure => exact dispatchAliases_gated body ctx aliases (h.stays hs)

/-! ## The handler -/

theorem leaveWorker_gated (guarded : Bool) :
    Always (gated R st) i (SendGated st route) (fun _ _ => True) (leaveWorker guarded) lm := by
  unfold leaveWorker
  split
  · exact Always.op trivial fun _ _ _ => trivial
  · trivial

theorem Aside.gated {α : Type} {p : ServerProg α} (hp : Aside p) :
    Always (gated R st) i (SendGated st route) (fun _ _ => True) p lm :=
  hp.stays.mono (fun _ _ h => h) fun _ _ _ => trivial

theorem proxyChat_gated (h : Knows st route lm) (request : HttpRequest) (principal : Principal) (started : Nat)
    (chat : ChatCompletionRequest) (body : String) (admission : AdmissionPermit) (guarded : Bool) :
    Always (gated R st) i (SendGated st route) (fun _ _ => True)
      (proxyChat st request principal started route chat body admission guarded) lm := by
  unfold proxyChat dispatchChatRequest
  apply (dispatchAliases_gated body _ _ h).seq
  intro result lm _
  have hleave : ∀ lm, Always (gated R st) i (SendGated st route) (fun _ _ => True) (leaveWorker guarded) lm :=
    fun lm => leaveWorker_gated guarded
  cases result with
  | ok answered =>
    simp only
    split
    · exact (streamUpstream_aside ..).gated.seq fun _ lm _ => (hleave lm).seq fun _ _ _ => trivial
    · exact (jsonUpstream_aside ..).gated.seq fun _ lm _ => (hleave lm).seq fun _ _ _ => trivial
  | error failure =>
    apply (dispatchFailed_aside request principal started route.requestedAlias failure).gated.seq
    intro response lm _
    exact (hleave lm).seq fun _ _ _ => Always.op trivial fun _ _ _ => trivial

theorem tryEnter_gated {k : String} {gate : Nat} (hlm : lm.2 = .found k gate) :
    Always (gated R st) i (SendGated st route) (fun entered lm' => entered = true → Passed k lm') (tryEnter k gate) lm := by
  refine Always.op trivial fun b g hc => ?_
  cases b with
  | false => exact fun he => by cases he
  | true =>
    refine Always.op trivial fun _ g hc => Always.op trivial fun b g hc => ?_
    cases b with
    | false => exact Always.op trivial fun _ _ _ he => by cases he
    | true =>
      intro _
      refine ⟨gate, ?_, rfl⟩
      show Passage.see (.gate (.isAdmitting gate)) true (Passage.see (.gate (.increment k gate)) ()
        (Passage.see (.gate (.isAdmitting gate)) true lm.2)) = _
      rw [hlm]
      simp [Passage.see]

theorem workerAdmission_gated (hsup : st.workerControl ≠ .none) (k : String) :
    Always (gated R st) i (SendGated st route)
      (fun found lm' => ∃ gate, found = some gate ∧ ∀ n, gate = some n → lm'.2 = .found k n) (workerAdmission st k) lm := by
  unfold workerAdmission
  split
  · exact absurd ‹_› hsup
  · refine Always.op trivial fun gate g hc => ⟨gate, rfl, ?_⟩
    rintro n rfl
    rfl
  · refine Always.op trivial fun _ g hc => Always.op trivial fun gate g hc => Always.op trivial fun _ g hc => ⟨gate, rfl, ?_⟩
    rintro n rfl
    rfl

theorem admitToWorker_gated (hsup : st.workerControl ≠ .none) (requestId : Nat) (k : String) :
    Always (gated R st) i (SendGated st route) (fun entered lm' => entered.isOk = true → Passed k lm')
      (admitToWorker st requestId k) lm := by
  apply (workerAdmission_gated hsup k).seq
  rintro _ lm' ⟨gate, rfl, hfound⟩
  cases gate with
  | none => exact fun he => by cases he
  | some gate =>
    apply (tryEnter_gated (hfound gate rfl)).seq
    intro entered lm'' hpassed
    cases entered with
    | true => exact fun _ => hpassed rfl
    | false => exact fun he => by cases he

theorem Knows.external {l : Local} (hext : route.externalProvider.isSome = true) : Knows st route (l, .away) := by
  intro k
  have hnot : ¬ Passed (workerOf st k) (l, .away) := fun ⟨_, h, _⟩ => by cases h
  by_cases hk : k = route.upstreamAlias
  · simp [covered, attemptRoute, hk, hext]
  · simp [hnot, covered, attemptRoute, hk, hext]

theorem Knows.worker (hext : ¬ route.externalProvider.isSome = true) (hp : Passed route.upstreamAlias lm) :
    Knows st route lm := by
  intro k
  obtain ⟨gate, he, hw⟩ := hp
  have hnone : route.externalProvider = none := by simpa using hext
  have hpassed : Passed (workerOf st k) lm ↔ workerOf st k = route.upstreamAlias := by
    constructor
    · rintro ⟨gate', he', _⟩
      rw [he] at he'
      exact (Passage.admitted.inj he').1.symm
    · intro hk
      rw [hk]
      exact ⟨gate, he, hw⟩
  simp [hpassed, covered, attemptRoute, hnone]

/-- Each send goes to the provider, or to a worker seen admitting once the request is
in its count, exactly where the handler has gated the alias that is tried. -/
theorem dispatch_gated (st : ServerState) (hsup : st.workerControl ≠ .none) (r : R) (request : HttpRequest)
    (principal : Principal) (started : Nat) (route : ResolvedModelRoute) (chat : ChatCompletionRequest) (body : String)
    (admission : AdmissionPermit) (l : Local) :
    Always (gated R st) (.request r) (SendGated st route) (fun _ _ => True)
      (serveChat st request principal started route chat body admission) (l, .away) := by
  unfold serveChat
  split
  · split
    · rename_i hext
      exact proxyChat_gated (.external hext) request principal started chat body admission false
    · rename_i hext
      apply (admitToWorker_gated hsup request.requestId route.upstreamAlias).seq
      intro entered lm hpassed
      cases entered with
      | error response => exact Always.op trivial fun _ _ _ => trivial
      | ok guarded => exact proxyChat_gated (.worker hext (hpassed rfl)) request principal started chat body admission guarded
  · exact (dispatchNativeChat_aside ..).gated

theorem dispatch_gated_alone : covered supervisedNode qwenRoute "qwen" = true ∧
    Always (gated Unit supervisedNode) (.request ()) (SendGated supervisedNode qwenRoute) (fun _ _ => True)
      (serveChat supervisedNode ⟨0, "", [], none⟩ .anonymous 0 qwenRoute qwenChat "" []) ({}, .away) :=
  ⟨by decide +kernel,
    dispatch_gated supervisedNode (by decide) () ⟨0, "", [], none⟩ .anonymous 0 qwenRoute qwenChat "" [] {}⟩

/-! ## A fallback to a stopped worker -/

def fallbackNode : ServerState :=
  { supervisedNode with cfg := { oneModel with mode := .fallback, models := [qwen, { qwen with alias_ := "glm" }] } }

def stoppedGlm : Workers where
  statuses id := if id = "qwen" then some ⟨"qwen", some 1, .ready, 0, none⟩
    else if id = "glm" then some ⟨"glm", none, .stopped, 0, none⟩ else none
  children id := id == "qwen"
  registry id := if id = "qwen" then some 0 else if id = "glm" then some 1 else none
  admitting n := n == 0
  nextGate := 2

def ServerOp.sendAlias : ServerOp → Option String
  | .upstream (.send k ..) => some k
  | _ => none

/-- Once the upstream of `qwen` has answered 503, the request goes to `glm`. -/
theorem fallback_ungated : ∃ c, Reach (serverWorld Unit fallbackNode) (fun _ _ => True)
    (serverStart fallbackNode stoppedGlm fun _ => chatInput 0 "") c ∧
    (c.pending (.request ())).bind ServerOp.sendAlias = some "glm" ∧ c.sh.workers.registry "glm" = some 1 ∧
    c.sh.workers.admitting 1 = false ∧ c.sh.inFlight 1 = 0 ∧
    (c.loc (.request ())).holding.worker = some ⟨"qwen", 0⟩ := by
  refine Conf.exists_reach ((Proc.request ()).turns fallbackNode { sent := .response ⟨503, none, 0⟩ } 24) ?_
  decide +kernel

end

end Llmctl
