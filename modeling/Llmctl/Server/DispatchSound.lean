import Llmctl.Server.GateSound

/-!
# The launch plan and the path of a request

The handler asks the map of upstreams where a request goes, and the map has an entry
for every planned worker, whatever its launch. `served_as_planned` says for which
requests that agrees with the plan.
-/

namespace Llmctl

open Async

/-! ## The plan -/

def PlannedInProcess (st : ServerState) (k : String) : Prop :=
  ∃ planned ∈ StartupPlan.fromConfig st.host st.cfg, planned.worker.model.alias_ = k ∧ planned.launch.isInProcess = true

def SubprocessEndpoint (st : ServerState) (url : String) : Prop :=
  ∃ planned ∈ StartupPlan.fromConfig st.host st.cfg, planned.launch.isInProcess = false ∧ url = chatUrl planned

section
variable {st : ServerState} {k : String}

/-- One launch kind serves the whole plan. -/
theorem launch_of_planned {planned : PlannedWorker} (h : planned ∈ StartupPlan.fromConfig st.host st.cfg) :
    planned.launch = plannedLaunch st.host st.cfg := by
  unfold StartupPlan.fromConfig at h
  obtain ⟨index, hindex, rfl⟩ := List.mem_mapIdx.mp h
  rfl

theorem upstreams_isSome : (mapGet st.upstreams k).isSome = true ↔
    ∃ planned ∈ StartupPlan.fromConfig st.host st.cfg, planned.worker.model.alias_ = k := by
  constructor
  · intro hk
    obtain ⟨base, hbase⟩ := Option.isSome_iff_exists.mp hk
    obtain ⟨planned, hplanned, he⟩ := List.mem_map.mp (mem_of_mapGet hbase)
    exact ⟨planned, hplanned, congrArg Prod.fst he⟩
  · rintro ⟨planned, hplanned, rfl⟩
    unfold mapGet
    rw [Option.isSome_map, List.find?_isSome]
    refine ⟨(planned.worker.model.alias_, planned.worker.upstream), ?_, by simp⟩
    exact List.mem_reverse.mpr (List.mem_map.mpr ⟨planned, hplanned, rfl⟩)

theorem subprocessEndpoint_of_target {route : ResolvedModelRoute} {target : DispatchTarget}
    (hsub : (plannedLaunch st.host st.cfg).isInProcess = false) (hlocal : route.externalProvider = none)
    (ht : dispatchTarget st route = .ok target) : SubprocessEndpoint st s!"{target.baseUrl}/v1/chat/completions" := by
  obtain ⟨planned, hplanned, hurl⟩ := dispatchTarget_endpoint hlocal ht
  exact ⟨planned, hplanned, by rw [launch_of_planned hplanned, hsub], hurl⟩

theorem attemptRoute_local {route : ResolvedModelRoute} (hlocal : route.externalProvider = none) (k : String) :
    (attemptRoute route k).externalProvider = none := by
  simp [attemptRoute, hlocal]

end

/-! ## Where a program sends -/

def ServerOp.sendUrl : ServerOp → Option String
  | .upstream (.send _ url _ _) => some url
  | _ => none

def ServerOp.sentBody : ServerOp → Option String
  | .upstream (.send _ _ text _) => some text
  | _ => none

abbrev SendsTo {α : Type} (P : String → Prop) (p : ServerProg α) : Prop :=
  Prog.All (fun o : ServerOp => ∀ url, o.sendUrl = some url → P url) p

theorem sendUrl_of_aside {o : ServerOp} (ho : o.aside = true) : o.sendUrl = none := by
  cases o with
  | upstream o =>
    cases o with
    | send k url body apiKey => cases ho
    | _ => rfl
  | _ => rfl

theorem sentBody_of_sendUrl {o : ServerOp} (ho : o.sendUrl = none) : o.sentBody = none := by
  cases o with
  | upstream o =>
    cases o with
    | send k url body apiKey => cases ho
    | _ => rfl
  | _ => rfl

section
variable {Q : ServerOp → Prop} (hQ : ∀ o, o.sendUrl = none → Q o) {α : Type}
include hQ

theorem Aside.sends {p : ServerProg α} (hp : Aside p) : p.All Q := hp.mono fun o ho => hQ o (sendUrl_of_aside ho)

theorem tryEnter_sends (k : String) (gate : Nat) : (tryEnter k gate).All Q := by
  refine Prog.All.op (hQ _ rfl) fun (open_ : Bool) => ?_
  cases open_ with
  | false => trivial
  | true =>
    refine Prog.All.op (hQ _ rfl) fun _ => Prog.All.op (hQ _ rfl) fun (open_ : Bool) => ?_
    cases open_ with
    | false => exact Prog.All.op (hQ _ rfl) fun _ => trivial
    | true => trivial

theorem admitToWorker_sends (st : ServerState) (requestId : Nat) (k : String) : (admitToWorker st requestId k).All Q := by
  have hadmission : (workerAdmission st k).All Q := by
    unfold workerAdmission
    split
    · trivial
    · exact Prog.All.op (hQ _ rfl) fun _ => trivial
    · exact Prog.All.op (hQ _ rfl) fun _ => Prog.All.op (hQ _ rfl) fun _ => Prog.All.op (hQ _ rfl) fun _ => trivial
  refine hadmission.bind fun found => ?_
  match found with
  | none => trivial
  | some none => trivial
  | some (some gate) =>
    refine (tryEnter_sends hQ k gate).bind fun entered => ?_
    cases entered <;> trivial

/-- An attempt makes no other send than its own. -/
theorem dispatchAttempt_sends (ctx : DispatchContext) (k : String) {target : DispatchTarget} {body : String}
    (ht : Q (.upstream (.send k s!"{target.baseUrl}/v1/chat/completions" body target.apiKey))) :
    (dispatchAttempt ctx k target body).All Q := by
  have hattempt : (sendAttempt ctx k target body).All Q := by
    obtain ⟨rest, he, haside⟩ := sendAttempt_eq ctx k target body
    rw [he]
    exact Prog.All.op ht fun sent => (haside sent).sends hQ
  refine Prog.All.op (hQ _ rfl) fun (verdict : Verdict) => ?_
  cases verdict with
  | refused => trivial
  | closed => exact hattempt
  | probe => exact hattempt

variable {st : ServerState} {route : ResolvedModelRoute}

theorem dispatchAliases_sends {body : String}
    (hsend : ∀ k target rewritten, rewriteChatModel st body (attemptRoute route k) = .ok rewritten →
      dispatchTarget st (attemptRoute route k) = .ok target →
      Q (.upstream (.send k s!"{target.baseUrl}/v1/chat/completions" rewritten target.apiKey)))
    (ctx : DispatchContext) (aliases : List String) : ∀ last, (dispatchAliases st route body ctx last aliases).All Q := by
  induction aliases with
  | nil => exact fun _ => trivial
  | cons k aliases ih =>
    intro last
    unfold dispatchAliases
    cases hrewritten : rewriteChatModel st body (attemptRoute route k) with
    | error err => trivial
    | ok rewritten =>
      cases ht : dispatchTarget st (attemptRoute route k) with
      | error failure => trivial
      | ok target =>
        refine (dispatchAttempt_sends hQ ctx k (hsend k target rewritten hrewritten ht)).bind fun turn => ?_
        cases turn with
        | inl response => trivial
        | inr failure => exact ih (some failure)

theorem leaveWorker_sends (guarded : Bool) : (leaveWorker guarded).All Q := by
  unfold leaveWorker
  split
  · exact Prog.All.op (hQ _ rfl) fun _ => trivial
  · trivial

theorem proxyChat_sends (request : HttpRequest) (principal : Principal) (started : Nat) (chat : ChatCompletionRequest)
    (body : String) (admission : AdmissionPermit) (guarded : Bool)
    (hd : (dispatchChatRequest st route body ⟨request.requestId, principal, route.requestedAlias, started⟩).All Q) :
    (proxyChat st request principal started route chat body admission guarded).All Q := by
  refine hd.bind fun result => ?_
  cases result with
  | ok answered =>
    simp only
    split
    · exact ((streamUpstream_aside ..).sends hQ).bind fun _ => (leaveWorker_sends hQ guarded).bind fun _ => trivial
    · exact ((jsonUpstream_aside ..).sends hQ).bind fun _ => (leaveWorker_sends hQ guarded).bind fun _ => trivial
  | error failure =>
    refine ((dispatchFailed_aside request principal started route.requestedAlias failure).sends hQ).bind fun _ => ?_
    exact (leaveWorker_sends hQ guarded).bind fun _ => Prog.All.op (hQ _ rfl) fun _ => trivial

/-- A request sends only what its dispatch does, and that only where a provider is named or
the map of upstreams has something for it. -/
theorem serveChat_sends (request : HttpRequest) (principal : Principal) (started : Nat) (chat : ChatCompletionRequest)
    (body : String) (admission : AdmissionPermit)
    (hd : (route.externalProvider.isSome || hasSubprocessUpstream st route) = true →
      (dispatchChatRequest st route body ⟨request.requestId, principal, route.requestedAlias, started⟩).All Q) :
    (serveChat st request principal started route chat body admission).All Q := by
  unfold serveChat
  split
  · rename_i hup
    split
    · exact proxyChat_sends hQ request principal started chat body admission false (hd hup)
    · refine (admitToWorker_sends hQ st request.requestId route.upstreamAlias).bind fun entered => ?_
      cases entered with
      | error response => exact Prog.All.op (hQ _ rfl) fun _ => trivial
      | ok guarded => exact proxyChat_sends hQ request principal started chat body admission guarded (hd hup)
  · exact (dispatchNativeChat_aside ..).sends hQ

end

/-! ## Requests that are handed to an engine -/

/-- The engines that a request is handed to, by itself or through its detached task. -/
def ServerOp.hands : (o : ServerOp) → ServerSig.Ans o → List String → List String
  | .sched (.chat engine _), _, engines => engines ++ [engine]
  | .task (.spawn (.decode context _)), _, engines => engines ++ [context.upstreamModel]
  | _, _, engines => engines

abbrev handing (R : Type) [DecidableEq R] (st : ServerState) := (serverWorld R st).observe ServerOp.hands

/-- Handed to the engine of `k`, or answered that none is loaded. -/
def Native (st : ServerState) (k : String) (response : Response) (engines : List String) : Prop :=
  if k ∈ st.nativeEngines then engines = [k]
  else engines = [] ∧ response.status = 503 ∧ ∃ message, response.body = .error "native_runtime_not_ready" message

theorem Native.handed {st : ServerState} {k : String} (hk : k ∈ st.nativeEngines) (response : Response) :
    Native st k response [k] := by
  unfold Native
  rw [if_pos hk]

abbrev Handless {α : Type} (p : ServerProg α) : Prop :=
  Prog.All (fun o : ServerOp => ∀ a engines, o.hands a engines = engines) p

section
variable {R : Type} [DecidableEq R] {st : ServerState} {i : Proc R} {α : Type}

theorem storage_handless (p : StoreProg α) : Handless (storage p) :=
  (Prog.all_of_forall (fun _ => trivial) p).lift (P := fun _ => True) fun _ _ _ _ => rfl

theorem Handless.keeps {p : ServerProg α} (hp : Handless p) {l : Local} {engines : List String} :
    Always (handing R st) i (fun _ _ => True) (fun _ lm => lm.2 = engines) p (l, engines) := by
  refine Always.of_all (P := fun lm : Local × List String => lm.2 = engines) (fun _ _ _ _ => trivial) ?_ hp rfl
  intro o a lm ho hlm
  exact (ho a lm.2).trans hlm

theorem Handless.seq {β : Type} {p : ServerProg β} (hp : Handless p) {f : β → ServerProg α}
    {Ψ : α → Local × List String → Prop} {l : Local} {engines : List String}
    (hf : ∀ b l', Always (handing R st) i (fun _ _ => True) Ψ (f b) (l', engines)) :
    Always (handing R st) i (fun _ _ => True) Ψ (p >>= f) (l, engines) := by
  apply hp.keeps.seq
  rintro b ⟨l', engines'⟩ he
  cases he
  exact hf b l'

theorem recorded_hands {started : Nat} {input : Nat → UsageRecordInput} {requestId : Option Nat}
    {principal : Principal} {action resource outcome : String} {detail : Json} {response : Response}
    {Ψ : Response → Local × List String → Prop} {l : Local} {engines : List String} (hΨ : ∀ l, Ψ response (l, engines)) :
    Always (handing R st) i (fun _ _ => True) Ψ
      (do
        let latencyMs ← elapsedMs started
        recordUsage (input latencyMs)
        recordAudit requestId principal action resource outcome detail
        op (.permit .drop)
        pure response) (l, engines) := by
  have helapsed : Handless (elapsedMs started) := Prog.All.op (fun _ _ => rfl) fun _ => trivial
  have husage : ∀ input, Handless (recordUsage input) := fun _ =>
    Prog.All.op (fun _ _ => rfl) fun _ => (storage_handless _).bind fun _ => trivial
  have haudit : Handless (recordAudit requestId principal action resource outcome detail) :=
    Prog.All.op (fun _ _ => rfl) fun _ => (storage_handless _).bind fun _ => trivial
  refine helapsed.seq fun latencyMs _ => (husage _).seq fun _ _ => haudit.seq fun _ _ => ?_
  exact Always.op trivial fun _ _ _ => hΨ _

theorem runScheduledNativeChat_handless (engine : String) (request : NativeChatRequest) :
    Handless (runScheduledNativeChat engine request) := by
  unfold runScheduledNativeChat
  split
  · exact Prog.All.op (fun _ _ => rfl) fun _ => trivial
  · refine Prog.All.bind (Prog.All.op (fun _ _ => rfl) fun _ => ⟨fun _ _ => rfl, fun _ => trivial⟩) fun _ => ?_
    exact Prog.All.op (fun _ _ => rfl) fun _ => trivial

theorem scheduledNativeChat_hands (engine : String) (request : NativeChatRequest) {l : Local} :
    Always (handing R st) i (fun _ _ => True) (fun _ lm => lm.2 = [engine]) (scheduledNativeChat engine request)
      (l, []) := by
  refine Always.op trivial fun _ _ _ => ?_
  suffices hrest : Handless _ from hrest.keeps
  by_cases hcancelled : requestCancelled request.metadata = true
  · simp only [hcancelled, if_true]
    trivial
  · simp only [hcancelled, Bool.false_eq_true, if_false]
    refine Prog.All.op (fun _ _ => rfl) fun (slot : Bool) => ?_
    cases slot with
    | true => exact runScheduledNativeChat_handless engine request
    | false =>
      refine Prog.All.op (fun _ _ => rfl) fun (place : Bool) => ?_
      cases place with
      | true =>
        exact Prog.All.op (fun _ _ => rfl) fun _ => Prog.All.op (fun _ _ => rfl) fun _ =>
          runScheduledNativeChat_handless engine request
      | false => trivial

/-- Where the map of upstreams has nothing for it, a request is served natively. -/
theorem unplanned_native (request : HttpRequest) (principal : Principal) (started : Nat) {route : ResolvedModelRoute}
    (chat : ChatCompletionRequest) (body : String) (admission : AdmissionPermit)
    (hlocal : route.externalProvider = none) (hup : hasSubprocessUpstream st route = false) (l : Local) :
    Always (handing R st) i (fun _ _ => True) (fun response lm => Native st route.upstreamAlias response lm.2)
      (serveChat st request principal started route chat body admission) (l, []) := by
  unfold serveChat dispatchNativeChat
  simp only [hlocal, hup, Option.isSome_none, Bool.or_self, Bool.false_eq_true, if_false]
  by_cases hloaded : route.upstreamAlias ∈ st.nativeEngines
  · simp only [List.contains_eq_mem, hloaded, decide_true, Bool.not_true, Bool.false_eq_true, if_false]
    split
    · exact Always.op trivial fun _ _ _ => Native.handed hloaded _
    · apply (scheduledNativeChat_hands _ _).seq
      rintro result ⟨l', engines⟩ he
      cases he
      cases result with
      | error err => exact recorded_hands fun _ => Native.handed hloaded _
      | ok response => exact recorded_hands fun _ => Native.handed hloaded _
  · simp only [List.contains_eq_mem, hloaded, decide_false, Bool.not_false, if_true]
    exact recorded_hands fun _ => by simp [Native, hloaded, withRequestId, errorResponse]

/-! ## Requests that are served as planned -/

/-- No send for an alias that is planned in-process, and none to a worker that is. -/
def CallAsPlanned (st : ServerState) (route : ResolvedModelRoute) (o : ServerOp) : Prop :=
  ∀ url, o.sendUrl = some url → ¬ PlannedInProcess st route.upstreamAlias ∧ SubprocessEndpoint st url

/-- Along every path after the admission of a request. -/
def ServedAsPlanned (R : Type) [DecidableEq R] (st : ServerState) (i : Proc R) (request : HttpRequest)
    (principal : Principal) (started : Nat) (route : ResolvedModelRoute) (chat : ChatCompletionRequest) (body : String)
    (admission : AdmissionPermit) : Prop :=
  ∀ l, Always (handing R st) i (fun o _ => CallAsPlanned st route o)
    (fun response lm => PlannedInProcess st route.upstreamAlias → Native st route.upstreamAlias response lm.2)
    (serveChat st request principal started route chat body admission) (l, [])

theorem not_planned_of_subprocess (hsub : (plannedLaunch st.host st.cfg).isInProcess = false) (k : String) :
    ¬ PlannedInProcess st k := by
  rintro ⟨planned, hplanned, _, hin⟩
  rw [launch_of_planned hplanned, hsub] at hin
  cases hin

theorem not_planned_of_upstream {k : String} (hk : mapGet st.upstreams k = none) : ¬ PlannedInProcess st k := by
  rintro ⟨planned, hplanned, halias, _⟩
  have hsome := upstreams_isSome.mpr ⟨planned, hplanned, halias⟩
  rw [hk] at hsome
  cases hsome

def openServer (R : Type) (st : ServerState) : Server R :=
  restingServer R st { registry := fun _ => some 0, admitting := fun _ => true }

/-- Past the gate of its worker a request may always come. -/
theorem admitted_path {Φ : ServerOp → Local × List String → Prop} {Ψ : α → Local × List String → Prop}
    {requestId : Nat} {k : String} {f : Except Response Bool → ServerProg α} {l : Local}
    (h : Always (handing R st) i Φ Ψ (admitToWorker st requestId k >>= f) (l, [])) :
    ∃ guarded l', Always (handing R st) i Φ Ψ (f (.ok guarded)) (l', []) := by
  unfold admitToWorker workerAdmission at h
  cases hcontrol : st.workerControl with
  | none =>
    rw [hcontrol] at h
    exact ⟨false, l, h⟩
  | shared =>
    rw [hcontrol] at h
    have hfound := h.2 (some 0) (openServer R st) rfl
    exact ⟨true, _, ((hfound.2 true (openServer R st) rfl).2 () (openServer R st) rfl).2 true (openServer R st) rfl⟩
  | locked =>
    rw [hcontrol] at h
    have hfound := ((h.2 () (openServer R st) rfl).2 (some 0) (openServer R st) rfl).2 () (openServer R st) rfl
    exact ⟨true, _, ((hfound.2 true (openServer R st) rfl).2 () (openServer R st) rfl).2 true (openServer R st) rfl⟩

theorem hasSubprocessUpstream_eq_false {route : ResolvedModelRoute} :
    hasSubprocessUpstream st route = false ↔
      mapGet st.upstreams route.upstreamAlias = none ∧ mapGet st.upstreams "*" = none := by
  simp [hasSubprocessUpstream]

theorem served_of_plan (request : HttpRequest) (principal : Principal) (started : Nat) {route : ResolvedModelRoute}
    (chat : ChatCompletionRequest) (body : String) (admission : AdmissionPermit)
    (hlocal : route.externalProvider = none) (hplan : ¬ PlannedInProcess st route.upstreamAlias)
    (hd : hasSubprocessUpstream st route = true → SendsTo (SubprocessEndpoint st)
      (dispatchChatRequest st route body ⟨request.requestId, principal, route.requestedAlias, started⟩)) :
    ServedAsPlanned R st i request principal started route chat body admission := by
  intro l
  have hsends := serveChat_sends (fun _ hnone _ hu => by rw [hnone] at hu; cases hu) request principal started chat body admission
    fun hup => hd (by simpa [hlocal] using hup)
  refine (Always.of_all (P := fun _ => True) ?_ (fun _ _ _ _ _ => trivial) hsends trivial).mono (fun _ _ h => h)
    fun _ _ _ hin => absurd hin hplan
  exact fun o _ ho _ url hu => ⟨hplan, ho url hu⟩

theorem plan_of_served {request : HttpRequest} {principal : Principal} {started : Nat} {route : ResolvedModelRoute}
    {chat : ChatCompletionRequest} {body : String} {admission : AdmissionPermit}
    (hlocal : route.externalProvider = none) (hin : (plannedLaunch st.host st.cfg).isInProcess = true)
    (hup : hasSubprocessUpstream st route = true)
    (hserved : ServedAsPlanned R st i request principal started route chat body admission) :
    mapGet st.upstreams route.upstreamAlias = none ∧ ∃ err, rewriteChatModel st body route = .error err := by
  have h := hserved {}
  unfold serveChat at h
  simp only [hlocal, hup, Option.isSome_none, Bool.or_true, Bool.false_eq_true, if_true, if_false] at h
  obtain ⟨guarded, l, h⟩ := admitted_path h
  unfold proxyChat dispatchChatRequest dispatchAliases at h
  cases hrewrite : rewriteChatModel st body (attemptRoute route route.upstreamAlias) with
  | error err =>
    refine ⟨?_, err, hrewrite⟩
    by_contra hsome
    have hplanned : PlannedInProcess st route.upstreamAlias := by
      obtain ⟨planned, hplanned, halias⟩ := upstreams_isSome.mp (Option.isSome_iff_ne_none.mpr hsome)
      exact ⟨planned, hplanned, halias, by rw [launch_of_planned hplanned, hin]⟩
    simp only [hrewrite] at h
    -- the handler answers 400 and hands the request to no engine
    have hnative : Native st route.upstreamAlias (withRequestId (errorResponse 400 "bad_request" err) request.requestId)
        [] := by
      cases guarded with
      | true => exact (h.2 () (openServer R st) rfl).2 () (openServer R st) rfl hplanned
      | false => exact h.2 () (openServer R st) rfl hplanned
    unfold Native at hnative
    split at hnative
    · cases hnative
    · cases hnative.2.1
  | ok rewritten =>
    exfalso
    obtain ⟨base, hbase⟩ : ∃ base, upstreamForAlias st route.upstreamAlias = some base := by
      unfold upstreamForAlias
      apply Option.isSome_iff_exists.mp
      rw [Option.isSome_or]
      exact hup
    have htarget : dispatchTarget st (attemptRoute route route.upstreamAlias) = .ok ⟨base, none⟩ := by
      unfold dispatchTarget
      rw [attemptRoute_local hlocal]
      have hsome : upstreamForAlias st (attemptRoute route route.upstreamAlias).upstreamAlias = some base := hbase
      dsimp only
      rw [hsome]
    simp only [hrewrite, htarget] at h
    have hclosed : (handing R st).can i (.breaker (.allowRequest route.upstreamAlias base)) .closed (l, [])
        (openServer R st) = true := by
      simp [World.observe, serverWorld, ServerOp.can, openServer, restingServer, CircuitBreakers.verdict]
    obtain ⟨_, planned, hplanned, hfalse, _⟩ := (h.2 .closed (openServer R st) hclosed).1 _ rfl
    rw [launch_of_planned hplanned, hin] at hfalse
    cases hfalse

/-- A request is served as planned, whatever happens on its way, where the plan
launches subprocesses, or the map of upstreams has nothing for the selected alias and
the request cannot be rewritten for the catch-all either. -/
theorem served_as_planned (st : ServerState) (i : Proc R) (request : HttpRequest) (principal : Principal)
    (started : Nat) {route : ResolvedModelRoute} (chat : ChatCompletionRequest) (body : String)
    (admission : AdmissionPermit) (hroute : resolveModelRoute st.cfg chat.model request.requestId = .ok route) :
    ServedAsPlanned R st i request principal started route chat body admission ↔
      (plannedLaunch st.host st.cfg).isInProcess = false ∨
        mapGet st.upstreams route.upstreamAlias = none ∧
          (mapGet st.upstreams "*" = none ∨ ∃ err, rewriteChatModel st body route = .error err) := by
  have hlocal := resolveModelRoute_local hroute
  constructor
  · intro hserved
    cases hin : (plannedLaunch st.host st.cfg).isInProcess with
    | false => exact .inl rfl
    | true =>
      right
      cases hup : hasSubprocessUpstream st route with
      | false =>
        obtain ⟨hnone, hstar⟩ := hasSubprocessUpstream_eq_false.mp hup
        exact ⟨hnone, .inl hstar⟩
      | true =>
        obtain ⟨hnone, herr⟩ := plan_of_served hlocal hin hup hserved
        exact ⟨hnone, .inr herr⟩
  · rintro (hsub | ⟨hnone, hstar | ⟨err, herr⟩⟩)
    · refine served_of_plan request principal started chat body admission hlocal (not_planned_of_subprocess hsub _) ?_
      intro _
      refine dispatchAliases_sends (fun _ hnone _ hu => by rw [hnone] at hu; cases hu) (fun k target _ _ ht url hu => ?_) _ _ none
      obtain rfl := Option.some.inj hu
      exact subprocessEndpoint_of_target hsub (attemptRoute_local hlocal k) ht
    · refine served_of_plan request principal started chat body admission hlocal (not_planned_of_upstream hnone) ?_
      rw [hasSubprocessUpstream_eq_false.mpr ⟨hnone, hstar⟩]
      exact fun hup => by cases hup
    · refine served_of_plan request principal started chat body admission hlocal (not_planned_of_upstream hnone) ?_
      intro _
      have hrewrite : rewriteChatModel st body (attemptRoute route route.upstreamAlias) = .error err := herr
      unfold dispatchChatRequest dispatchAliases
      rw [hrewrite]
      trivial

end

/-! ## A candle worker in the map of upstreams -/

theorem served_as_planned_subprocess : ServedAsPlanned Unit oneModelNode (.request ()) ⟨0, "", [], none⟩ .anonymous 0
    qwenRoute qwenChat "" [] :=
  (served_as_planned oneModelNode (.request ()) ⟨0, "", [], none⟩ .anonymous 0 qwenChat "" [] (by decide +kernel)).mpr
    (.inl (by decide +kernel))

/-- No `llama-server` is found, so the model is planned in-process; its engine is loaded. -/
def candleNode : ServerState :=
  { oneModelNode with nativeEngines := ["qwen"], host := { llamaCppNative := false, findLlamaServer := fun _ => none } }

/-- The request is about to go out to the endpoint of the in-process worker. -/
theorem in_process_proxied : ∃ c, Reach (serverWorld Unit candleNode) (fun _ _ => True)
    (serverStart candleNode {} fun _ => chatInput 0 "") c ∧
    (StartupPlan.fromConfig candleNode.host candleNode.cfg).any
      (fun planned => planned.worker.model.alias_ == "qwen" && planned.launch.isInProcess) = true ∧
    (c.pending (.request ())).bind ServerOp.sendUrl = some "http://127.0.0.1:9000/v1/chat/completions" ∧
    (c.loc (.request ())).trace.handed = [] := by
  refine Conf.exists_reach ((Proc.request ()).turns candleNode {} 15) ?_
  decide +kernel

end Llmctl
