import Llmctl.Server.PermitSound

/-!
# Native decodes

A decode runs on a thread of its own, the permits lie with the future that awaits
it. As long as no future is dropped between the start of its decode and the usage
row, decodes run under both permits and lead to one row each (`decode_held`).
-/

namespace Llmctl

open Async

/-- No decode, or its usage row has landed. -/
def Settled (t : Trace) : Prop := t.decoded = [] ∨ t.usage ≠ []

instance (t : Trace) : Decidable (Settled t) := inferInstanceAs (Decidable (t.decoded = [] ∨ t.usage ≠ []))

def refusesQuery : (o : ServerOp) → ServerSig.Ans o → Bool
  | .store .acquireQuery, (a : Result Unit) | .store (.insertUsageEvent _), (a : Result Unit)
  | .store (.insertAuditEvent _), (a : Result Unit) =>
    match a with
    | .error _ => true
    | .ok _ => false
  | _, _ => false

section
variable {R : Type} [DecidableEq R] {st : ServerState} {inputs : R → Input}

/-- A step that neither drops a future nor fails its query between the start of its
decode and its usage row. -/
def DecodeKept (c : ServerConf R) : Label ServerSig (Proc R) (ServerEvent R) → Prop
  | .answer i o a => refusesQuery o a = true → Settled (c.loc i).trace
  | .drop i => Settled (c.loc i).trace
  | .env _ => True

omit [DecidableEq R] in
instance (c : ServerConf R) : (l : Label ServerSig (Proc R) (ServerEvent R)) → Decidable (DecodeKept c l)
  | .answer i o a => inferInstanceAs (Decidable (refusesQuery o a = true → Settled (c.loc i).trace))
  | .drop i => inferInstanceAs (Decidable (Settled (c.loc i).trace))
  | .env _ => .isTrue trivial

/-! ## Held decodes -/

/-- `h` holds what a decode of `e` runs under. -/
structure Sustains (h : Holding) (e : String) : Prop where
  decode : h.decode = some e
  slot : h.slot = some e
  permit : h.permit ≠ none

def DecodesHeld (loc : Proc R → Local) (g : Server R) : Prop :=
  ∀ i e, (g.decodes i).engine = some e → Sustains (loc i).holding e

/-- Only a future that awaits its decode holds one. -/
theorem decode_of_ready {role : Role} {o : ServerOp} {h : Holding} (hready : Ready st role o h)
    (hjoin : o ≠ .sched .join) : h.decode = none := by
  cases o with
  | permit o => cases o <;> exact hready.1.decode
  | breaker o =>
    cases o with
    | allowRequest k u => exact hready.1.decode
    | recordSuccess u => obtain ⟨a, ha, _⟩ := hready; exact ha.decode
    | recordFailure u => obtain ⟨a, ha, _⟩ := hready; exact ha.decode
  | upstream o =>
    cases o with
    | send k url body apiKey => obtain ⟨⟨a, ha, _⟩, _⟩ := hready; exact ha.decode
    | readBody => exact hready.1.decode
    | nextChunk => exact hready.1.decode
    | lastChunk => exact hready.1.decode
    | sleep millis => exact hready.decode
    | close => exact hready.decode
  | gate o =>
    cases o with
    | isAdmitting n => exact hready.decode
    | increment k n => exact hready.1.decode
    | decrement => exact hready.1.decode
  | sched o =>
    cases o with
    | chat e request => exact hready.1.decode
    | embeddings e request => rw [hready.1]
    | join => exact absurd rfl hjoin
    | _ => exact Scheduled.decode hready
  | task o =>
    cases o with
    | spawn job =>
      cases job with
      | decode context request => exact hready.1.decode
      | disconnect data => exact hready.elim
    | start => rw [show h = {} from hready]
    | _ => exact Quiet.decode hready
  | worker o =>
    cases o with
    | getAdmission id => exact Quiet.decode hready
    | updateStatus id change => cases change <;> exact hready.1.decode
    | _ => exact hready.1.decode
  | _ => exact Quiet.decode hready

section
variable {loc : Proc R → Local} {g g' : Server R} {i : Proc R} {l : Local}

/-- A step of a future that has no decode going. -/
theorem DecodesHeld.frame (h : DecodesHeld loc g) (hnone : (loc i).holding.decode = none) (hd : g'.decodes = g.decodes) :
    DecodesHeld (Function.update loc i l) g' := by
  intro j e he
  rw [hd] at he
  by_cases hji : j = i
  · subst hji
    have := (h j e he).decode
    rw [hnone] at this
    cases this
  · rw [Function.update_of_ne hji]
    exact h j e he

theorem DecodesHeld.change (h : DecodesHeld loc g) {d : Decode} (hd : g'.decodes = Function.update g.decodes i d)
    (hl : ∀ e, d.engine = some e → Sustains l.holding e) : DecodesHeld (Function.update loc i l) g' := by
  intro j e he
  rw [hd] at he
  by_cases hji : j = i
  · subst hji
    rw [Function.update_self] at he ⊢
    exact hl e he
  · rw [Function.update_of_ne hji] at he ⊢
    exact h j e he

theorem decodes_answer (h : DecodesHeld loc g) {o : ServerOp} {a : ServerSig.Ans o}
    (hserving : i.serving st inputs o (loc i)) :
    DecodesHeld (Function.update loc i ((serverWorld R st).loc i o a (loc i)))
      ((serverWorld R st).sh i o a (loc i) g) := by
  have hnone := decode_of_ready hserving.1
  cases o with
  | sched o =>
    cases o with
    | spawnBlocking e request =>
      refine h.change rfl fun e' he' => ?_
      obtain rfl : e = e' := Option.some.inj he'
      exact ⟨rfl, hserving.1.slot, hserving.1.permit⟩
    | join => exact h.change rfl fun e he => by cases he
    | _ => exact h.frame (hnone (by simp)) rfl
  | _ => exact h.frame (hnone (by simp)) rfl

theorem decodes_drop (h : DecodesHeld loc g) {o : ServerOp} (hserving : i.serving st inputs o (loc i))
    (hsettled : Settled (loc i).trace) :
    DecodesHeld (Function.update loc i ((serverWorld R st).dropLoc i o (loc i)))
      ((serverWorld R st).dropSh i o (loc i) g) := by
  refine h.frame (decode_of_ready hserving.1 ?_) rfl
  rintro rfl
  obtain ⟨hd, hu⟩ := hserving.2.2
  exact hsettled.elim hd fun hne => hne hu

theorem decodes_env (h : DecodesHeld loc g) (e : ServerEvent R) : DecodesHeld loc (e.apply g) := by
  cases e with
  | tick n => exact h
  | beginDrain => exact h
  | decodeReturns i =>
    intro j e he
    simp only [ServerEvent.apply] at he
    split at he
    · rename_i e' hrun
      by_cases hji : j = i
      · subst hji
        simp only [Function.update_self] at he
        exact h j e (by rw [hrun]; exact he)
      · simp only [Function.update_of_ne hji] at he
        exact h j e he
    · exact h j e he

end

theorem decodes_reach {ok : ServerConf R → Label ServerSig (Proc R) (ServerEvent R) → Prop} {workers : Workers}
    {c : ServerConf R} (hdrops : ∀ c i, ok c (.drop i) → Settled (c.loc i).trace)
    (hr : Reach (serverWorld R st) ok (serverStart st workers inputs) c) : DecodesHeld c.loc c.sh := by
  refine (serverStart_typed st workers inputs).pool ?_ ?_ ?_ ?_ hr
  · intro i e he
    cases he
  · exact fun c i o a h hserving _ _ => decodes_answer h hserving
  · exact fun c i o h hserving hok _ => decodes_drop h hserving (hdrops c i hok)
  · exact fun c e h _ _ => decodes_env h e

/-! ## Usage rows -/

/-- One decode at most, and no failed query before its row. -/
structure OneDecode (t : Trace) : Prop where
  once : t.decoded.length ≤ 1
  stored : t.decoded ≠ [] → t.usage = [] → t.storeFailed = false

theorem oneDecode_answer {i : Proc R} {o : ServerOp} {a : ServerSig.Ans o} {l : Local} (h : OneDecode l.trace)
    (hserving : i.serving st inputs o l) (hok : refusesQuery o a = true → Settled l.trace) :
    OneDecode ((serverWorld R st).loc i o a l).trace := by
  have hfailed : Settled l.trace → l.trace.decoded ≠ [] → l.trace.usage = [] → False := fun hs hd hu =>
    hs.elim hd fun hne => hne hu
  cases o with
  | sched o =>
    cases o with
    | spawnBlocking e request =>
      obtain ⟨hd, _⟩ := hserving.2.2
      constructor
      · simp [serverWorld, ServerOp.loc, ServerOp.trace, hd]
      · exact fun _ _ => rfl
    | _ => exact ⟨h.once, h.stored⟩
  | store o =>
    cases o with
    | acquireQuery =>
      cases a with
      | ok _ => exact ⟨h.once, h.stored⟩
      | error err => exact ⟨h.once, fun hd hu => (hfailed (hok rfl) hd hu).elim⟩
    | insertUsageEvent e =>
      cases a with
      | ok _ => exact ⟨h.once, fun _ hu => absurd hu (by simp [serverWorld, ServerOp.loc, ServerOp.trace])⟩
      | error err => exact ⟨h.once, fun hd hu => (hfailed (hok rfl) hd hu).elim⟩
    | insertAuditEvent e =>
      cases a with
      | ok _ => exact ⟨h.once, h.stored⟩
      | error err => exact ⟨h.once, fun hd hu => (hfailed (hok rfl) hd hu).elim⟩
    | _ => exact ⟨h.once, h.stored⟩
  | _ => exact ⟨h.once, h.stored⟩

theorem oneDecode_reach {workers : Workers} {c : ServerConf R}
    (hr : Reach (serverWorld R st) DecodeKept (serverStart st workers inputs) c) :
    ∀ i, OneDecode (c.loc i).trace := by
  refine (serverStart_typed st workers inputs).pool (J := fun loc _ => ∀ i, OneDecode (loc i).trace) ?_ ?_ ?_ ?_ hr
  · exact fun i => ⟨Nat.zero_le 1, fun hd => absurd rfl hd⟩
  · intro c i o a h hserving hok hc
    exact (Function.forall_update_iff c.loc fun _ l => OneDecode l.trace).mpr
      ⟨oneDecode_answer (h i) hserving hok, fun j _ => h j⟩
  · intro c i o h _ _ _
    exact (Function.forall_update_iff c.loc fun _ l => OneDecode l.trace).mpr ⟨h i, fun j _ => h j⟩
  · exact fun _ _ h _ _ => h

theorem usage_of_once {o : ServerOp} {t : Trace} (honce : Once o t) (hd : t.decoded ≠ []) (hu : t.usage ≠ []) :
    t.usage.length = 1 := by
  have hpos : 0 < t.usage.length := List.length_pos_iff.mpr hu
  suffices hle : t.usage.length ≤ 1 by omega
  cases o with
  | store o =>
    cases o with
    | insertUsageEvent e => exact absurd (honce hd) hu
    | _ => exact honce hd
  | sched o =>
    cases o with
    | spawnBlocking e request => exact absurd honce.1 hd
    | join => exact absurd honce.2 hu
    | _ => exact honce hd
  | gate o =>
    cases o with
    | increment k n => exact honce.2 hd
    | _ => exact honce hd
  | _ => exact honce hd

/-- The row of a future that is dropped has landed. -/
theorem dropped_reach {workers : Workers} {c : ServerConf R}
    (hr : Reach (serverWorld R st) DecodeKept (serverStart st workers inputs) c) :
    ∀ i, c.prog i = none → (c.loc i).trace.decoded ≠ [] → (c.loc i).trace.usage.length = 1 := by
  intro i hi
  refine (serverStart_typed st workers inputs).dropped
    (D := fun _ l => l.trace.decoded ≠ [] → l.trace.usage.length = 1) ?_ ?_ hr hi
  · exact fun j _ hd => absurd rfl hd
  · intro c j o hok hserving _ hd
    exact usage_of_once hserving.2.2 hd (hok.resolve_left hd)

/-! ## The decodes of a run -/

theorem permits_some {h : Holding} (hp : h.permit ≠ none) : h.permits = 1 := by simp [Holding.permits, hp]

theorem slots_some {h : Holding} {e : String} (hs : h.slot = some e) : h.slots e = 1 := by simp [Holding.slots, hs]

def Decode.isRunning : Decode → Bool
  | .running _ => true
  | _ => false

theorem eq_running {d : Decode} (h : d.isRunning = true) : ∃ e, d = .running e := by
  cases d with
  | running e => exact ⟨e, rfl⟩
  | none => cases h
  | returned e => cases h

/-- A decode runs under the permits of its future, which are no more than both limits
allow; the future has one decode at most, and its usage row once it is over. -/
theorem decode_held [Fintype R] (st : ServerState) (workers : Workers) (inputs : R → Input) {c : ServerConf R}
    (hr : Reach (serverWorld R st) DecodeKept (serverStart st workers inputs) c) :
    (∀ i e, c.sh.decodes i = .running e → (c.loc i).holding.permit ≠ none ∧ (c.loc i).holding.slot = some e) ∧
    (Finset.univ.filter fun i => (c.sh.decodes i).isRunning = true).card ≤ max st.maxInFlight 1 ∧
    (∀ e, (Finset.univ.filter fun i => c.sh.decodes i = .running e).card ≤ st.maxConcurrentRequests) ∧
    ∀ i, (c.loc i).trace.decoded.length ≤ 1 ∧
      (c.over i = true → (c.loc i).trace.decoded ≠ [] → (c.loc i).trace.usage.length = 1) := by
  have hrun : ∀ i e, c.sh.decodes i = .running e → Sustains (c.loc i).holding e :=
    fun i e he => decodes_reach (fun _ _ hok => hok) hr i e (by rw [he]; rfl)
  refine ⟨fun i e he => ⟨(hrun i e he).permit, (hrun i e he).slot⟩, ?_, fun e => ?_, fun i => ⟨(oneDecode_reach hr i).once, ?_⟩⟩
  · have hbound := permits_reach hr
    have hle : (Finset.univ.filter fun i => (c.sh.decodes i).isRunning = true).card ≤
        ∑ i, (c.loc i).holding.permits := by
      rw [Finset.card_filter]
      apply Finset.sum_le_sum
      intro i _
      split
      · rename_i he
        obtain ⟨e, he⟩ := eq_running he
        rw [permits_some (hrun i e he).permit]
      · exact Nat.zero_le _
    unfold PermitsBounded at hbound
    omega
  · have hbound := slots_reach hr
    calc (Finset.univ.filter fun i => c.sh.decodes i = .running e).card
        ≤ ∑ i, (c.loc i).holding.slots e := by
          rw [Finset.card_filter]
          apply Finset.sum_le_sum
          intro i _
          split
          · rename_i he
            rw [slots_some (hrun i e he).slot]
          · exact Nat.zero_le _
      _ ≤ c.sh.slots e := hbound.held e
      _ ≤ st.maxConcurrentRequests := hbound.le e
  · intro hover hd
    cases hp : c.prog i with
    | none => exact dropped_reach hr i hp hd
    | some p =>
      cases p with
      | call o k => simp [Conf.over, Conf.pending, hp] at hover
      | done a =>
        obtain ⟨_, hacc⟩ := (serverStart_typed st workers inputs).reach hr i _ hp
        obtain hone | ⟨hu, hfailed⟩ := hacc hd
        · exact hone
        · rw [(oneDecode_reach hr i).stored hd hu] at hfailed
          cases hfailed

/-- The client goes away while its decode runs: the decode goes on without a permit
or a slot, and leaves no row. -/
theorem dropped_decode_unheld : ∃ c, Reach (serverWorld Unit nativeNode) (fun _ _ => True)
    (serverStart nativeNode {} fun _ => chatInput 0 "") c ∧ c.sh.decodes (.request ()) = .running "qwen" ∧
    (c.loc (.request ())).holding = {} ∧ c.sh.slots "qwen" = 0 ∧
    c.sh.admission.global.available = nativeNode.maxInFlight ∧ c.over (.request ()) = true ∧
    (c.loc (.request ())).trace.usage = [] := by
  refine Conf.exists_reach ((Proc.request ()).turns nativeNode {} 17 ++ [.drop (.request ())]) ?_
  decide +kernel

theorem decode_held_running : ∃ c, Reach (serverWorld Unit nativeNode) DecodeKept
    (serverStart nativeNode {} fun _ => chatInput 0 "") c ∧ c.sh.decodes (.request ()) = .running "qwen" ∧
    (c.loc (.request ())).holding.permit ≠ none ∧ (c.loc (.request ())).holding.slot = some "qwen" := by
  have hrun : ∃ c, Reach (serverWorld Unit nativeNode) DecodeKept
      (serverStart nativeNode {} fun _ => chatInput 0 "") c ∧ c.sh.decodes (.request ()) = .running "qwen" := by
    refine Conf.exists_reach ((Proc.request ()).turns nativeNode {} 17) ?_
    decide +kernel
  obtain ⟨c, hr, hd⟩ := hrun
  exact ⟨c, hr, hd, (decode_held nativeNode {} _ hr).1 _ _ hd⟩

end

end Llmctl
