import Llmctl.Server.Serving

/-!
# The typestate of a chat request

One lemma for each function on the way of a chat request, from the admission to
the last byte of the answer.
-/

namespace Llmctl

open Async

section
variable {R : Type} [DecidableEq R] {st : ServerState} {i : Proc R} {role : Role} {granted : Seen → Prop}
  {c : Call} {h : Holding} {t : Trace}

/-! ## The quota admission -/

/-- The quota admission leaves its decision behind and holds nothing. -/
theorem admitRequest_serving (ht : t.decoded = []) (quotas : List QuotaConfig) (principal : Principal) (model : String)
    (requestId : Option Nat) (policyJson : Json) :
    Always (serverWorld R st) i (Serving st role granted)
      (fun r l => ∃ call t', l = ⟨call, {}, t'⟩ ∧ Recorded 0 t t' ∧ Admitted requestId r call)
      (storage (admitRequest st.storage quotas principal model requestId policyJson)) ⟨{}, {}, t⟩ := by
  have hquiet : Quiet ({} : Holding) := ⟨rfl, rfl, rfl, rfl⟩
  have hadmit : Always (storeWorld Unit st.storage) () (Admitting st.storage quotas principal) (Admitted requestId)
      (admitRequest st.storage quotas principal model requestId policyJson) {} :=
    admitRequest_always quotas principal model policyJson requestId
  refine hadmit.lift (fun call l => ∃ t', l = ⟨call, {}, t'⟩ ∧ Recorded 0 t t') ?_ ?_ ?_ ?_ ⟨t, rfl, .refl t⟩
  · intro o a l l' g' _ hc
    exact ⟨g'.store, hc⟩
  · intro o a l l' hΦ hR
    obtain ⟨t', rfl, ht'⟩ := hR
    cases o with
    | acquireQuery =>
      cases a with
      | error err => exact ⟨{ t' with storeFailed := true }, rfl, ht'.trans (.failing t' 0)⟩
      | ok _ => exact ⟨t', rfl, ht'⟩
    | insertUsageEvent e => exact hΦ.elim
    | insertAuditEvent e => exact hΦ.elim
    | insertRequestLineageJoin e => exact hΦ.elim
    | _ => exact ⟨t', rfl, ht'⟩
  · intro o l l' hΦ hR
    obtain ⟨t', rfl, ht'⟩ := hR
    have hnil : t'.decoded = [] := ht'.decoded.trans ht
    refine ⟨hquiet, fun hp => absurd rfl hp, ?_⟩
    cases o with
    | insertUsageEvent e => exact hΦ.elim
    | _ => exact fun hd => absurd hnil hd
  · intro r l l' hΨ hR
    obtain ⟨t', rfl, ht'⟩ := hR
    exact ⟨l, t', rfl, ht', hΨ⟩

/-! ## Dispatch -/

/-- `t` and `t'` are of a request that no engine has decoded for. -/
structure Proxied (t t' : Trace) : Prop where
  decoded : t'.decoded = []
  handed : t'.handed = t.handed

theorem Recorded.proxied {t t' : Trace} {n : Nat} (hr : Recorded n t t') (ht : t.decoded = []) : Proxied t t' :=
  ⟨hr.decoded.trans ht, hr.handed⟩

theorem Proxied.trans {t t' t'' : Trace} (h : Proxied t t') (h' : Proxied t' t'') : Proxied t t'' :=
  ⟨h'.decoded, h'.handed.trans h.handed⟩

def Trace.send (t : Trace) (url : String) : Trace := { t with sent := t.sent ++ [url] }

def Holding.attempting (h : Holding) (a : Attempt) (b : Option OpenBody) : Holding :=
  { h with attempt := some a, upstream := b }

theorem send_response_recorded {k url body : String} {apiKey : Option String} {a : Attempt} {r : UpstreamResponse}
    (hs : (r.status.isSuccess || shouldRetryUpstreamStatus r.status) = true) :
    (serverWorld R st).loc i (.upstream (.send k url body apiKey)) (.response r) ⟨c, h.attempting a none, t⟩ =
      ⟨c, h.attempting a (some ⟨k, r.status⟩), t.send url⟩ := by
  simp only [serverWorld, ServerOp.loc, ServerOp.holding, UpstreamOp.attempt, UpstreamOp.upstream, hs, if_true]
  rfl

theorem send_response_unrecorded {k url body : String} {apiKey : Option String} {a : Attempt} {r : UpstreamResponse}
    (hs : (r.status.isSuccess || shouldRetryUpstreamStatus r.status) = false) (ha : h.attempt = none) :
    (serverWorld R st).loc i (.upstream (.send k url body apiKey)) (.response r) ⟨c, h.attempting a none, t⟩ =
      ⟨c, { h with upstream := some ⟨k, r.status⟩ }, t.send url⟩ := by
  simp only [serverWorld, ServerOp.loc, ServerOp.holding, UpstreamOp.attempt, UpstreamOp.upstream, hs,
    Holding.attempting, ← ha]
  rfl

theorem Resting.attempting (hr : Resting granted c h) (hp : h.permit ≠ none) (a : Attempt) (b : Option OpenBody) :
    Attempting (h.attempting a b) a :=
  ⟨rfl, hp, hr.quiet.queued, hr.quiet.slot, hr.quiet.decode⟩

theorem Resting.upstream (hr : Resting granted c h) (b : Option OpenBody) :
    Resting granted c { h with upstream := b } :=
  ⟨hr.held, ⟨hr.quiet.attempt, hr.quiet.queued, hr.quiet.slot, hr.quiet.decode⟩, hr.granted⟩

/-- The end of a turn of the loop: an answer comes with its open body. -/
def Turned (c : Call) (h : Holding) (t : Trace) (k : String) (r : UpstreamResponse ⊕ DispatchFailure) (l : Local) : Prop :=
  ∃ t', Proxied t t' ∧ match r with
    | .inl response => l = ⟨c, { h with upstream := some ⟨k, response.status⟩ }, t'⟩
    | .inr _ => l = ⟨c, h, t'⟩

theorem recordFailure_loc {u : String} {x : Unit} {a : Attempt} {b : Option OpenBody} (ha : h.attempt = none) :
    (serverWorld R st).loc i (.breaker (.recordFailure u)) x ⟨c, h.attempting a b, t⟩ =
      ⟨c, { h with upstream := b }, t⟩ := by
  obtain ⟨permit, worker, attempt, upstream, queued, slot, decode, guard, tenure⟩ := h
  obtain rfl : attempt = none := ha
  rfl

theorem recordSuccess_loc {u : String} {x : Unit} {a : Attempt} {b : Option OpenBody} (ha : h.attempt = none) :
    (serverWorld R st).loc i (.breaker (.recordSuccess u)) x ⟨c, h.attempting a b, t⟩ =
      ⟨c, { h with upstream := b }, t⟩ := by
  obtain ⟨permit, worker, attempt, upstream, queued, slot, decode, guard, tenure⟩ := h
  obtain rfl : attempt = none := ha
  rfl

theorem close_loc {x : Unit} {b : Option OpenBody} (hu : h.upstream = none) :
    (serverWorld R st).loc i (.upstream .close) x ⟨c, { h with upstream := b }, t⟩ = ⟨c, h, t⟩ := by
  obtain ⟨permit, worker, attempt, upstream, queued, slot, decode, guard, tenure⟩ := h
  obtain rfl : upstream = none := hu
  rfl

theorem sendAttempt_failed (hr : Resting granted c h) (hp : h.permit ≠ none) (hu : h.upstream = none)
    (ht : t.decoded = []) (ctx : DispatchContext) (k u usageStatus : String) (probe : Bool) (failure : DispatchFailure) :
    Always (serverWorld R st) i (Serving st role granted) (Turned c h t k)
      (do
        op (.breaker (.recordFailure u))
        recordUpstreamFailure ctx.requestId ctx.principal ctx.model ctx.started usageStatus
        pure (.inr failure))
      ⟨c, h.attempting ⟨k, u, probe⟩ none, t⟩ := by
  refine Always.op ⟨⟨_, hr.attempting hp _ _, rfl⟩, hr.granted, fun hd => absurd ht hd⟩ fun _ _ _ => ?_
  rw [recordFailure_loc hr.quiet.attempt]
  refine Always.recorded (recordUpstreamFailure_always (hr.upstream none) (fun hd => absurd ht hd) _ _ _ _ _) ?_
  intro _ t' ht'
  refine ⟨t', ht'.proxied ht, ?_⟩
  rw [← hu]

theorem Turned.of_sent {l : Local} {k url : String} {r : UpstreamResponse ⊕ DispatchFailure}
    (hl : Turned c h (t.send url) k r l) : Turned c h t k r l := by
  obtain ⟨t', ht', hr⟩ := hl
  exact ⟨t', ⟨ht'.decoded, ht'.handed⟩, hr⟩

theorem sendAttempt_always (hr : Resting granted c h) (hp : h.permit ≠ none) (hu : h.upstream = none)
    (ht : t.decoded = []) (ctx : DispatchContext) (k : String) {target : DispatchTarget}
    (htarget : Endpoint st s!"{target.baseUrl}/v1/chat/completions") (body : String) (probe : Bool) :
    Always (serverWorld R st) i (Serving st role granted) (Turned c h t k) (sendAttempt ctx k target body)
      ⟨c, h.attempting ⟨k, target.baseUrl, probe⟩ none, t⟩ := by
  have hle : t.decoded ≠ [] → t.usage.length ≤ 1 := fun hd => absurd ht hd
  have hquiet : ∀ b, Quiet { h with upstream := b } := fun b => (hr.upstream b).quiet
  refine Always.op ⟨⟨⟨_, hr.attempting hp _ _, rfl⟩, rfl, htarget⟩, hr.granted, hle⟩ fun a _ _ => ?_
  cases a with
  | response response =>
    simp only
    split
    · rename_i hretry
      rw [send_response_recorded (by simp [hretry])]
      refine Always.op ⟨⟨_, hr.attempting hp _ _, rfl⟩, hr.granted, hle⟩ fun _ _ _ => ?_
      rw [recordFailure_loc hr.quiet.attempt]
      refine Always.op ⟨hquiet _, hr.granted, hle⟩ fun _ _ _ => Always.op ⟨hquiet _, hr.granted, hle⟩ fun _ _ _ => ?_
      exact ⟨t.send _, ⟨ht, rfl⟩, close_loc hu⟩
    · split
      · rename_i hretry hsuccess
        rw [send_response_recorded (by simp [hsuccess])]
        refine Always.op ⟨⟨_, hr.attempting hp _ _, rfl⟩, hr.granted, hle⟩ fun _ _ _ => ?_
        rw [recordSuccess_loc hr.quiet.attempt]
        exact ⟨t.send _, ⟨ht, rfl⟩, rfl⟩
      · rename_i hretry hsuccess
        rw [send_response_unrecorded (by simp [hretry, hsuccess]) hr.quiet.attempt]
        exact ⟨t.send _, ⟨ht, rfl⟩, rfl⟩
  | failed isTimeout =>
    exact (sendAttempt_failed (t := t.send _) hr hp hu ht ctx k _ _ probe _).mono (fun _ _ hΦ => hΦ) fun _ _ => .of_sent
  | timedOut =>
    exact (sendAttempt_failed (t := t.send _) hr hp hu ht ctx k _ _ probe _).mono (fun _ _ hΦ => hΦ) fun _ _ => .of_sent

theorem dispatchAttempt_always (hr : Resting granted c h) (hp : h.permit ≠ none) (hu : h.upstream = none)
    (ht : t.decoded = []) (ctx : DispatchContext) (k : String) {target : DispatchTarget}
    (htarget : Endpoint st s!"{target.baseUrl}/v1/chat/completions") (body : String) :
    Always (serverWorld R st) i (Serving st role granted) (Turned c h t k) (dispatchAttempt ctx k target body)
      ⟨c, h, t⟩ := by
  have hat : ∀ probe, { h with attempt := some ⟨k, target.baseUrl, probe⟩ } =
      h.attempting ⟨k, target.baseUrl, probe⟩ none := by
    intro probe
    rw [Holding.attempting, ← hu]
  have hsend : ∀ probe, Always (serverWorld R st) i (Serving st role granted) (Turned c h t k)
      (sendAttempt ctx k target body) ⟨c, { h with attempt := some ⟨k, target.baseUrl, probe⟩ }, t⟩ := by
    intro probe
    rw [hat]
    exact sendAttempt_always hr hp hu ht ctx k htarget body probe
  refine Always.op ⟨⟨hr.quiet, hp, hu⟩, hr.granted, fun hd => absurd ht hd⟩ fun v _ _ => ?_
  cases v with
  | refused => exact ⟨t, ⟨ht, rfl⟩, rfl⟩
  | closed => exact hsend false
  | probe => exact hsend true

/-! ### Targets -/

theorem mem_of_mapGet {pairs : List (String × String)} {k v : String} (hv : mapGet pairs k = some v) : (k, v) ∈ pairs := by
  unfold mapGet at hv
  obtain ⟨e, he, rfl⟩ := Option.map_eq_some_iff.mp hv
  have hk := List.find?_some he
  have hmem := List.mem_of_find?_eq_some he
  simp only [beq_iff_eq] at hk
  rw [← hk]
  simpa using hmem

/-- Only workers of the startup plan are upstreams. -/
theorem upstreamForAlias_endpoint {k base : String} (hb : upstreamForAlias st k = some base) :
    Endpoint st s!"{base}/v1/chat/completions" := by
  have hmem : ∃ k', (k', base) ∈ st.upstreams := by
    unfold upstreamForAlias at hb
    rcases Option.or_eq_some_iff.mp hb with h | ⟨_, h⟩ <;> exact ⟨_, mem_of_mapGet h⟩
  obtain ⟨k', hk'⟩ := hmem
  unfold ServerState.upstreams servingUpstreams at hk'
  obtain ⟨planned, hplanned, he⟩ := List.mem_map.mp hk'
  cases he
  exact ⟨planned, hplanned, rfl⟩

theorem dispatchTarget_endpoint {route : ResolvedModelRoute} {target : DispatchTarget}
    (hlocal : route.externalProvider = none) (ht : dispatchTarget st route = .ok target) :
    Endpoint st s!"{target.baseUrl}/v1/chat/completions" := by
  unfold dispatchTarget at ht
  rw [hlocal] at ht
  cases hb : upstreamForAlias st route.upstreamAlias with
  | none => simp [hb] at ht
  | some base =>
    simp only [hb, Except.ok.injEq] at ht
    subst ht
    exact upstreamForAlias_endpoint hb

/-- A resolved route stays on this node's workers. -/
theorem resolveModelRoute_local {cfg : Config} {k : String} {requestId : Nat} {route : ResolvedModelRoute}
    (hr : resolveModelRoute cfg k requestId = .ok route) : route.externalProvider = none := by
  unfold resolveModelRoute at hr
  split at hr
  · split at hr <;> cases hr
    rfl
  · split at hr
    · cases hr
    · split at hr
      · cases hr
      · split at hr
        · cases hr
        · cases hr; rfl

/-! ### The loop -/

/-- A dispatched request: its answer comes with the open body. -/
def Dispatched (c : Call) (h : Holding) (t : Trace) (r : Except DispatchFailure (UpstreamResponse × String)) (l : Local) :
    Prop :=
  ∃ t', Proxied t t' ∧ match r with
    | .ok (response, k) => l = ⟨c, { h with upstream := some ⟨k, response.status⟩ }, t'⟩
    | .error _ => l = ⟨c, h, t'⟩

theorem dispatchAliases_always (hr : Resting granted c h) (hp : h.permit ≠ none) (hu : h.upstream = none)
    {route : ResolvedModelRoute} (hlocal : route.externalProvider = none) (body : String) (ctx : DispatchContext) :
    ∀ (aliases : List String) (last : Option DispatchFailure) {t : Trace}, t.decoded = [] →
      Always (serverWorld R st) i (Serving st role granted) (Dispatched c h t)
        (dispatchAliases st route body ctx last aliases) ⟨c, h, t⟩
  | [], last, t, ht => ⟨t, ⟨ht, rfl⟩, rfl⟩
  | k :: aliases, last, t, ht => by
    have hattempt : (attemptRoute route k).externalProvider = none := by
      unfold attemptRoute
      split
      · exact hlocal
      · rfl
    unfold dispatchAliases
    split
    · exact ⟨t, ⟨ht, rfl⟩, rfl⟩
    · split
      · exact ⟨t, ⟨ht, rfl⟩, rfl⟩
      · rename_i target htarget
        apply (dispatchAttempt_always hr hp hu ht ctx k
          (dispatchTarget_endpoint hattempt htarget) _).seq
        intro r l hl
        obtain ⟨t', ht', hl⟩ := hl
        cases r with
        | inl response => exact ⟨t', ht', hl⟩
        | inr failure =>
          cases hl
          refine (dispatchAliases_always hr hp hu hlocal body ctx aliases (some failure) ht'.decoded).mono
            (fun _ _ hΦ => hΦ) fun r l hl => ?_
          obtain ⟨t'', ht'', hl⟩ := hl
          exact ⟨t'', ht'.trans ht'', hl⟩

theorem dispatchChatRequest_always (hr : Resting granted c h) (hp : h.permit ≠ none) (hu : h.upstream = none)
    (ht : t.decoded = []) {route : ResolvedModelRoute} (hlocal : route.externalProvider = none) (body : String)
    (ctx : DispatchContext) :
    Always (serverWorld R st) i (Serving st role granted) (Dispatched c h t)
      (dispatchChatRequest st route body ctx) ⟨c, h, t⟩ :=
  dispatchAliases_always hr hp hu hlocal body ctx _ none ht

/-! ## Answers of an upstream -/

/-- A request that is admitted rests between two awaits. -/
theorem resting_of (hheld : c.held = {}) (hg : granted c.seen) (hq : Quiet h) : Resting granted c h :=
  ⟨hheld, hq, fun _ => hg⟩

theorem quiet_of_none {permit : Option AdmissionPermit} {worker : Option WorkerGuard} {upstream : Option OpenBody}
    {guard : Option StreamDisconnectData} {tenure : Option Tenure} :
    Quiet { permit := permit, worker := worker, upstream := upstream, guard := guard, supervisor := tenure } :=
  ⟨rfl, rfl, rfl, rfl⟩

section
variable (hheld : c.held = {}) (hg : granted c.seen) (p : AdmissionPermit)
include hheld hg

theorem streamFails_always (ht : t.decoded = []) (ctx : UpstreamRequestContext) (status : StatusCode) (b : OpenBody)
    (g : Option StreamDisconnectData) (total : Nat × Nat) (outcome : String) (more : Json) (item : String) :
    Always (serverWorld R st) i (Serving st role granted)
      (fun _ l => ∃ t', l = ⟨c, { permit := some p, upstream := some b }, t'⟩ ∧ t'.decoded = [])
      (streamFails ctx status total outcome more item)
      ⟨c, { permit := some p, upstream := some b, guard := g }, t⟩ := by
  have hr := resting_of (h := { permit := some p, upstream := some b, guard := g }) hheld hg quiet_of_none
  refine undecoded_always hr ht fun t' hn => ?_
  refine Always.op ⟨hr.quiet, hr.granted, fun hd => absurd hn hd⟩ fun _ _ _ => ?_
  exact ⟨⟨quiet_of_none, hr.granted, fun hd => absurd hn hd⟩, fun _ _ _ => ⟨_, rfl, hn⟩⟩

theorem streamCompletes_always (ht : t.decoded = []) (ctx : UpstreamRequestContext) (status : StatusCode) (b : OpenBody)
    (g : Option StreamDisconnectData) (total : Nat × Nat) :
    Always (serverWorld R st) i (Serving st role granted)
      (fun _ l => ∃ t', l = ⟨c, { permit := some p, upstream := some b }, t'⟩ ∧ t'.decoded = [])
      (streamCompletes ctx status total) ⟨c, { permit := some p, upstream := some b, guard := g }, t⟩ := by
  have hr := resting_of (h := { permit := some p, upstream := some b }) hheld hg quiet_of_none
  refine Always.op ⟨quiet_of_none, fun _ => hg, fun hd => absurd ht hd⟩ fun _ _ _ => ?_
  obtain ⟨t₀, hn₀, ht₀⟩ : ∃ t₀, t₀.decoded = [] ∧ ServerOp.trace (.body .disarm) () t = t₀ := ⟨_, ht, rfl⟩
  show Always (serverWorld R st) i (Serving st role granted) _ _
    ⟨c, { permit := some p, upstream := some b }, ServerOp.trace (.body .disarm) () t⟩
  rw [ht₀]
  apply (elapsedMs_always hr (fun hd => absurd hn₀ hd) _).seq
  rintro _ _ rfl
  refine Always.recorded (recordUsage_always hr (fun hd => absurd hn₀ hd) _) fun _ t₁ ht₁ => ?_
  have hn₁ := ht₁.decoded.trans hn₀
  refine (recordAudit_always hr (fun hd => absurd hn₁ hd) _ _ _ _ _ _).mono (fun _ _ hΦ => hΦ) fun _ l hl => ?_
  obtain ⟨t₂, rfl, ht₂⟩ := hl
  exact ⟨t₂, rfl, ht₂.decoded.trans hn₁⟩

theorem streamEnds_always (ht : t.decoded = []) (ctx : UpstreamRequestContext) (status : StatusCode) (b : OpenBody)
    (g : Option StreamDisconnectData) (total : Nat × Nat) (e : StreamEnd) :
    Always (serverWorld R st) i (Serving st role granted)
      (fun _ l => ∃ t', l = ⟨c, { permit := some p, upstream := some b }, t'⟩ ∧ t'.decoded = [])
      (streamEnds ctx status total e) ⟨c, { permit := some p, upstream := some b, guard := g }, t⟩ := by
  cases e with
  | done => exact streamCompletes_always hheld hg p ht ctx status b g total
  | failed isTimeout => exact streamFails_always hheld hg p ht ctx status b g total _ _ _
  | timedOut => exact streamFails_always hheld hg p ht ctx status b g total _ _ _

theorem streamChunks_always (ctx : UpstreamRequestContext) (status : StatusCode) (b : OpenBody) :
    ∀ (chunks : Nat) (buffer : List Char) (total : Nat × Nat) (g : Option StreamDisconnectData) {t : Trace},
      t.decoded = [] → Always (serverWorld R st) i (Serving st role granted)
        (fun _ l => ∃ t', l = ⟨c, { permit := some p, upstream := some b }, t'⟩ ∧ t'.decoded = [])
        (streamChunks st ctx status chunks buffer total)
        ⟨c, { permit := some p, upstream := some b, guard := g }, t⟩
  | 0, buffer, total, g, t, ht => by
    refine Always.op ⟨⟨quiet_of_none, by simp⟩, fun _ => hg, fun hd => absurd ht hd⟩ fun e _ _ => ?_
    exact streamEnds_always hheld hg p (t := ServerOp.trace (.upstream .lastChunk) e t) ht ctx status b g total e
  | chunks + 1, buffer, total, g, t, ht => by
    refine Always.op ⟨⟨quiet_of_none, by simp⟩, fun _ => hg, fun hd => absurd ht hd⟩ fun chunk _ _ => ?_
    have hn : (ServerOp.trace (.upstream .nextChunk) chunk t).decoded = [] := ht
    cases chunk with
    | ended e =>
      exact streamEnds_always hheld hg p (t := ServerOp.trace (.upstream .nextChunk) (.ended e) t) hn ctx status b g
        total e
    | bytes text =>
      simp only
      split
      · exact streamFails_always hheld hg p (t := ServerOp.trace (.upstream .nextChunk) (.bytes text) t) hn ctx status
          b g total _ _ _
      · rename_i buffer' usage _
        refine Always.op ⟨quiet_of_none, fun _ => hg, fun hd => absurd hn hd⟩ fun _ _ _ => ?_
        refine Always.op ⟨quiet_of_none, fun _ => hg, fun hd => absurd hn hd⟩ fun _ _ _ => ?_
        exact streamChunks_always ctx status b chunks buffer' _ (BodyOp.guard (.updateCounts _ _) g)
          (t := ServerOp.trace (.body (.yield (.ok text))) ()
            (ServerOp.trace (.body (.updateCounts _ _)) () (ServerOp.trace (.upstream .nextChunk) (.bytes text) t))) hn

theorem streamBody_always (ht : t.decoded = []) (ctx : UpstreamRequestContext) (status : StatusCode) (b : OpenBody)
    (chunks : Nat) :
    Always (serverWorld R st) i (Serving st role granted) (fun _ l => ∃ t', l = ⟨c, {}, t'⟩ ∧ t'.decoded = [])
      (streamBody st ctx status chunks) ⟨c, { permit := some p, upstream := some b }, t⟩ := by
  refine Always.op ⟨quiet_of_none, fun _ => hg, fun hd => absurd ht hd⟩ fun _ _ _ => ?_
  apply (streamChunks_always hheld hg p ctx status b chunks [] (0, 0) _
    (t := ServerOp.trace (.body (.arm _)) () t) ht).seq
  intro _ l hl
  obtain ⟨t', rfl, ht'⟩ := hl
  refine Always.op ⟨quiet_of_none, fun _ => hg, fun hd => absurd ht' hd⟩ fun _ _ _ => ?_
  exact ⟨⟨⟨quiet_of_none, by simp [serverWorld, ServerOp.loc, ServerOp.holding]⟩, fun _ => hg,
    fun hd => absurd ht' hd⟩, fun _ _ _ => ⟨t', rfl, ht'⟩⟩

/-- The answer of a proxied request, its worker's guard still in hand. -/
def Answered (R : Type) [DecidableEq R] (st : ServerState) (i : Proc R) (role : Role) (granted : Seen → Prop)
    (worker : Option WorkerGuard) (response : Response) (l : Local) : Prop :=
  Resting granted l.call l.holding ∧ l.trace.decoded = [] ∧ l.holding.worker = worker ∧
    (∀ b, l.holding.upstream = some b → role.streams = true ∧ b.status.isSuccess = true) ∧
    Responds R st i role granted response { l with holding := { l.holding with worker := none } }

omit hg p in
/-- An answer that holds nothing but the guard. -/
theorem answered_whole (ht : t.decoded = []) (worker : Option WorkerGuard) {response : Response} (hw : response.Whole) :
    Answered R st i role granted worker response ⟨c, { worker := worker }, t⟩ :=
  ⟨⟨hheld, quiet_of_none, fun hp => absurd rfl hp⟩, ht, rfl, by simp,
    responds_of_whole hw ⟨rfl, fun hd => absurd ht hd⟩⟩

theorem streamUpstream_always (ht : t.decoded = []) (hstream : role.streams = true) (worker : Option WorkerGuard) (k : String)
    (answer : UpstreamResponse) (ctx : UpstreamRequestContext) :
    Always (serverWorld R st) i (Serving st role granted) (Answered R st i role granted worker)
      (streamUpstream st answer ctx)
      ⟨c, { permit := some p, worker := worker, upstream := some ⟨k, answer.status⟩ }, t⟩ := by
  have hr := resting_of (h := { permit := some p, worker := worker, upstream := some ⟨k, answer.status⟩ }) hheld hg
    quiet_of_none
  unfold streamUpstream
  split
  · rename_i hsuccess
    refine ⟨hr, ht, rfl, ?_, ?_⟩
    · rintro b ⟨⟩
      exact ⟨hstream, hsuccess⟩
    · refine Always.op ⟨quiet_of_none, fun _ => hg, fun hd => absurd ht hd⟩ fun _ _ _ => ?_
      apply (streamBody_always hheld hg p (t := ServerOp.trace (.body .firstPoll) () t) ht ctx
        answer.status ⟨k, answer.status⟩ answer.chunks).seq
      intro _ l hl
      obtain ⟨t', rfl, ht'⟩ := hl
      exact ⟨rfl, fun hd => absurd ht' hd⟩
  · refine undecoded_always hr ht fun t' hn => ?_
    refine Always.op ⟨⟨quiet_of_none, by simp⟩, fun _ => hg, fun hd => absurd hn hd⟩ fun _ _ _ => ?_
    refine Always.op ⟨quiet_of_none, fun _ => hg, fun hd => absurd hn hd⟩ fun _ _ _ => ?_
    exact answered_whole hheld hn worker
      ((errorResponse_whole 502 "upstream_error" "upstream request failed").withRequestId ctx.requestId)

theorem jsonFails_always (ht : t.decoded = []) (worker : Option WorkerGuard) (ctx : UpstreamRequestContext)
    (usageStatus : String) (status : StatusCode) (code message : String) :
    Always (serverWorld R st) i (Serving st role granted) (Answered R st i role granted worker)
      (jsonFails ctx usageStatus status code message) ⟨c, { permit := some p, worker := worker }, t⟩ := by
  have hr := resting_of (h := { permit := some p, worker := worker }) hheld hg quiet_of_none
  refine Always.recorded (recordUpstreamFailure_always hr (fun hd => absurd ht hd) _ _ _ _ _) fun _ t₁ ht₁ => ?_
  have hn₁ := ht₁.decoded.trans ht
  refine Always.op ⟨⟨quiet_of_none, by simp⟩, fun _ => hg, fun hd => absurd hn₁ hd⟩ fun _ _ _ => ?_
  exact answered_whole hheld hn₁ worker ((errorResponse_whole status code message).withRequestId ctx.requestId)

theorem jsonUpstream_always (ht : t.decoded = []) (worker : Option WorkerGuard) (b : OpenBody)
    (answer : UpstreamResponse) (ctx : UpstreamRequestContext) :
    Always (serverWorld R st) i (Serving st role granted) (Answered R st i role granted worker)
      (jsonUpstream st answer ctx) ⟨c, { permit := some p, worker := worker, upstream := some b }, t⟩ := by
  have hr := resting_of (h := { permit := some p, worker := worker }) hheld hg quiet_of_none
  refine Always.op ⟨⟨quiet_of_none, by simp⟩, fun _ => hg, fun hd => absurd ht hd⟩ fun read _ _ => ?_
  cases read with
  | failed isTimeout => exact jsonFails_always hheld hg p ht worker ctx _ _ _ _
  | timedOut => exact jsonFails_always hheld hg p ht worker ctx _ _ _ _
  | bytes text =>
    refine undecoded_always hr ht fun t' hn => ?_
    refine Always.op ⟨⟨quiet_of_none, by simp⟩, fun _ => hg, fun hd => absurd hn hd⟩ fun _ _ _ => ?_
    refine answered_whole hheld hn worker ?_
    split <;> exact fun _ he => by cases he

end

/-! ## The proxy -/

theorem leaveWorker_always {worker : Option WorkerGuard} {response : Response} {l : Local}
    (hl : Answered R st i role granted worker response l) :
    Always (serverWorld R st) i (Serving st role granted) (Responds R st i role granted)
      (do
        leaveWorker worker.isSome
        pure response) l := by
  obtain ⟨call, h, t⟩ := l
  obtain ⟨hr, ht, rfl, hb, hresp⟩ := hl
  unfold leaveWorker
  cases hw : h.worker with
  | none =>
    have he : { h with worker := none } = h := by rw [← hw]
    simp only [he] at hresp
    exact hresp
  | some guard =>
    refine Always.op ⟨⟨hr.quiet, by simp [hw], hb⟩, hr.granted, fun hd => absurd ht hd⟩ fun _ _ _ => ?_
    exact hresp

section
variable (hheld : c.held = {}) (hg : granted c.seen) (p : AdmissionPermit)
include hheld hg

theorem dispatchFailed_always (ht : t.decoded = []) (worker : Option WorkerGuard) (request : HttpRequest)
    (principal : Principal) (started : Nat) (model : String) (failure : DispatchFailure) :
    Always (serverWorld R st) i (Serving st role granted)
      (fun r l => r.Whole ∧ ∃ t', l = ⟨c, { permit := some p, worker := worker }, t'⟩ ∧ t'.decoded = [])
      (dispatchFailed request principal started model failure) ⟨c, { permit := some p, worker := worker }, t⟩ := by
  have hr := resting_of (h := { permit := some p, worker := worker }) hheld hg quiet_of_none
  cases failure with
  | badRequest err => exact ⟨errorResponse_whole 400 "bad_request" err, t, rfl, ht⟩
  | noUpstream message => exact ⟨errorResponse_whole 502 "upstream_unavailable" message, t, rfl, ht⟩
  | request status code message usageStatus =>
    apply (elapsedMs_always hr (fun hd => absurd ht hd) _).seq
    rintro _ _ rfl
    refine Always.recorded (recordUsage_always hr (fun hd => absurd ht hd) _) fun _ t₁ ht₁ => ?_
    exact ⟨errorResponse_whole status code message, t₁, rfl, ht₁.decoded.trans ht⟩

theorem proxyChat_always (ht : t.decoded = []) (worker : Option WorkerGuard) (request : HttpRequest)
    (principal : Principal) (started : Nat) {route : ResolvedModelRoute} (hlocal : route.externalProvider = none)
    (chat : ChatCompletionRequest) (hrole : role = .chat chat.stream) (body : String) :
    Always (serverWorld R st) i (Serving st role granted) (Responds R st i role granted)
      (proxyChat st request principal started route chat body p worker.isSome)
      ⟨c, { permit := some p, worker := worker }, t⟩ := by
  have hr := resting_of (h := { permit := some p, worker := worker }) hheld hg quiet_of_none
  apply (dispatchChatRequest_always hr (by simp) rfl ht hlocal body _).seq
  intro r l hl
  obtain ⟨t', ht', hl⟩ := hl
  cases r with
  | ok answer =>
    obtain ⟨answer, k⟩ := answer
    cases hl
    simp only
    split
    · rename_i hs
      apply (streamUpstream_always hheld hg p ht'.decoded (by rw [hrole]; exact hs) worker k answer _).seq
      intro response l hl
      exact leaveWorker_always hl
    · apply (jsonUpstream_always hheld hg p ht'.decoded worker ⟨k, answer.status⟩ answer _).seq
      intro response l hl
      exact leaveWorker_always hl
  | error failure =>
    cases hl
    apply (dispatchFailed_always hheld hg p ht'.decoded worker request principal started _ failure).seq
    intro response l hl
    obtain ⟨hw, t₁, rfl, hn₁⟩ := hl
    have hfree : Always (serverWorld R st) i (Serving st role granted) (Responds R st i role granted)
        (do op (.permit .drop); pure response) ⟨c, { permit := some p }, t₁⟩ := by
      refine Always.op ⟨⟨quiet_of_none, by simp⟩, fun _ => hg, fun hd => absurd hn₁ hd⟩ fun _ _ _ => ?_
      exact responds_of_whole hw ⟨rfl, fun hd => absurd hn₁ hd⟩
    cases worker with
    | none => exact hfree
    | some guard =>
      refine Always.op ⟨⟨quiet_of_none, by simp, by simp⟩, fun _ => hg, fun hd => absurd hn₁ hd⟩ fun _ _ _ => ?_
      exact hfree

/-! ## The worker's gate -/

omit hheld in
theorem tryEnter_always (ht : t.decoded = []) (k : String) (gate : Nat) (hgate : t.gate = some (k, gate)) :
    Always (serverWorld R st) i (Serving st role granted)
      (fun entered l => l = ⟨c, { permit := some p, worker := if entered then some ⟨k, gate⟩ else none }, t⟩)
      (tryEnter k gate) ⟨c, { permit := some p }, t⟩ := by
  have hle : t.decoded ≠ [] → t.usage.length ≤ 1 := fun hd => absurd ht hd
  refine Always.op ⟨quiet_of_none, fun _ => hg, hle⟩ fun b _ _ => ?_
  cases b with
  | false => rfl
  | true =>
    refine Always.op ⟨⟨quiet_of_none, rfl, rfl⟩, fun _ => hg, hgate, hle⟩ fun _ _ _ => ?_
    refine Always.op ⟨quiet_of_none, fun _ => hg, hle⟩ fun b _ _ => ?_
    cases b with
    | true => rfl
    | false =>
      exact ⟨⟨⟨quiet_of_none, by simp [serverWorld, ServerOp.loc, ServerOp.holding, GateOp.worker],
        by simp [serverWorld, ServerOp.loc, ServerOp.holding]⟩, fun _ => hg, hle⟩, fun _ _ _ => rfl⟩

omit hheld in
/-- The gate that was looked up is the one on record. -/
theorem workerAdmission_always (ht : t.decoded = []) (k : String) :
    Always (serverWorld R st) i (Serving st role granted)
      (fun found l => ∃ t', l = ⟨c, { permit := some p }, t'⟩ ∧ t'.decoded = [] ∧
        ∀ gate, found = some (some gate) → t'.gate = some (k, gate))
      (workerAdmission st k) ⟨c, { permit := some p }, t⟩ := by
  have hle : t.decoded ≠ [] → t.usage.length ≤ 1 := fun hd => absurd ht hd
  have hlook : ∀ found : Option Nat, ∃ t', (ServerOp.trace (.worker (.getAdmission k)) found t) = t' ∧ t'.decoded = [] ∧
      ∀ gate, some found = some (some gate) → t'.gate = some (k, gate) := by
    intro found
    refine ⟨_, rfl, ht, ?_⟩
    rintro gate ⟨⟩
    rfl
  unfold workerAdmission
  split
  · exact ⟨t, rfl, ht, by simp⟩
  · refine Always.op ⟨quiet_of_none, fun _ => hg, hle⟩ fun found _ _ => ?_
    obtain ⟨t', rfl, hn, hgate⟩ := hlook found
    exact ⟨_, rfl, hn, hgate⟩
  · refine Always.op ⟨⟨quiet_of_none, rfl⟩, fun _ => hg, hle⟩ fun _ _ _ => ?_
    refine Always.op ⟨quiet_of_none, fun _ => hg, hle⟩ fun found _ _ => ?_
    obtain ⟨t', rfl, hn, hgate⟩ := hlook found
    refine Always.op ⟨⟨quiet_of_none, {}, rfl, fun _ => rfl⟩, fun _ => hg, fun hd => absurd hn hd⟩ fun _ _ _ => ?_
    exact ⟨_, rfl, hn, hgate⟩

omit hheld in
theorem admitToWorker_always (ht : t.decoded = []) (requestId : Nat) (k : String) :
    Always (serverWorld R st) i (Serving st role granted)
      (fun r l => ∃ t' worker, l = ⟨c, { permit := some p, worker := worker }, t'⟩ ∧ t'.decoded = [] ∧ match r with
        | .ok guarded => guarded = worker.isSome
        | .error response => worker = none ∧ response.Whole)
      (admitToWorker st requestId k) ⟨c, { permit := some p }, t⟩ := by
  apply (workerAdmission_always hg p ht k).seq
  intro found l hl
  obtain ⟨t', rfl, hn, hgate⟩ := hl
  have hw : (modelUnavailable requestId k).Whole := fun _ he => by cases he
  match found with
  | none => exact ⟨t', none, rfl, hn, rfl⟩
  | some none => exact ⟨t', none, rfl, hn, rfl, hw⟩
  | some (some gate) =>
    apply (tryEnter_always hg p hn k gate (hgate gate rfl)).seq
    intro entered l hl
    subst hl
    cases entered with
    | true => exact ⟨t', some ⟨k, gate⟩, rfl, hn, rfl⟩
    | false => exact ⟨t', none, rfl, hn, rfl, hw⟩

end

end

end Llmctl
