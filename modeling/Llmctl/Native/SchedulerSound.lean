import Mathlib.Algebra.BigOperators.Group.Finset.Piecewise
import Llmctl.Async.Owned
import Llmctl.Native.Scheduler

/-!
# Permits, guards and the queue

The counter of the scheduler is the number of live guards and of calls inside `enter`
(`scheduler_bound`). The increments of the latter count against everyone else: a call
can find the queue full that is empty (`full_at_no_guard`).
-/

namespace Llmctl.Scheduler

open Async

/-! ## Four calls and one place -/

def oneSlot : NativeSchedulerConfig := { maxConcurrentRequests := 1, maxQueuedRequests := 1 }

def plainCall : ScheduledCall := ⟨⟨"qwen", [], []⟩, .chat⟩

/-- The counters answer; a permit is given where one is free. -/
def turn (i : Fin 4) : Choice SchedulerSig (Fin 4) Counters Empty :=
  .answer i fun
    | .now => fun _ => some (0 : Nat)
    | .fetchAdd => fun g => some g.waiting
    | .tryAcquire => fun g => some (decide (g.permits < 1))
    | .inner .. => fun _ => some (.ok ⟨"qwen", "hello", "stop", ⟨1, 1, "exact"⟩⟩)
    | .fetchSub | .newGuard | .acquire | .dropGuard | .dropPermit => fun _ => some ()

/-- The first call runs and the second one waits. -/
def oneWaits : List (Choice SchedulerSig (Fin 4) Counters Empty) := [0, 0, 0, 1, 1, 1, 1].map turn

/-! ## Where a call stands -/

/-- What a call owns when it makes its next step. -/
def Stands (config : NativeSchedulerConfig) : SchedulerOp → Caller → Prop
  | .now, _ => True
  | .tryAcquire, l | .fetchAdd, l => l.started = true ∧ l.entered = none ∧ l.guard = false ∧ l.permit = false
  | .fetchSub, l => (∃ n, l.entered = some n ∧ config.maxQueuedRequests ≤ n) ∧ l.guard = false ∧ l.permit = false
  | .newGuard, l => (∃ n, l.entered = some n ∧ n < config.maxQueuedRequests) ∧ l.guard = false ∧ l.permit = false
  | .acquire, l => l.entered = none ∧ l.guard = true ∧ l.permit = false
  | .dropGuard, l => l.entered = none ∧ l.guard = true ∧ l.permit = true
  | .inner .., l | .dropPermit, l => l.entered = none ∧ l.guard = false ∧ l.permit = true

/-- Only the inner engine and a rejection return that the queue is full. -/
def Returned (r : Result NativeChatResponse) (l : Caller) : Prop :=
  r = .error queueFull → l.handed = false → l.rejected = true

theorem cancelled_ne_queueFull : (.error cancelledBeforeDecode : Result NativeChatResponse) ≠ .error queueFull := by
  intro h
  exact absurd (Except.error.inj h) (by decide)

section
variable {ι : Type} {config : NativeSchedulerConfig}

/-- A guard was made, or the increment was taken back. -/
theorem enter_always (i : ι) {l : Caller}
    (hl : l.started = true ∧ l.entered = none ∧ l.guard = false ∧ l.permit = false) :
    Always (schedulerWorld ι config) i (Stands config)
      (fun result l => match result with
        | .ok _ => l.entered = none ∧ l.guard = true ∧ l.permit = false
        | .error _ => l.rejected = true)
      (enter config.maxQueuedRequests) l := by
  refine ⟨hl, fun (n : Nat) _ _ => ?_⟩
  show Always _ _ _ _ (if config.maxQueuedRequests ≤ n then _ else _) _
  split
  · rename_i hn
    exact ⟨⟨⟨n, rfl, hn⟩, hl.2.2⟩, fun _ _ _ => rfl⟩
  · rename_i hn
    exact ⟨⟨⟨n, rfl, Nat.lt_of_not_le hn⟩, hl.2.2⟩, fun _ _ _ => ⟨rfl, rfl, hl.2.2.2⟩⟩

theorem takePermit_always (i : ι) {l : Caller}
    (hl : l.started = true ∧ l.entered = none ∧ l.guard = false ∧ l.permit = false) :
    Always (schedulerWorld ι config) i (Stands config)
      (fun result l => match result with
        | .ok _ => l.entered = none ∧ l.guard = false ∧ l.permit = true
        | .error _ => l.rejected = true)
      (takePermit config) l := by
  refine Always.op hl fun (ok : Bool) _ _ => ?_
  cases ok with
  | true => exact ⟨hl.2.1, hl.2.2.1, rfl⟩
  | false =>
    have hout : { l with permit := false }.started = true ∧ { l with permit := false }.entered = none ∧
        { l with permit := false }.guard = false ∧ { l with permit := false }.permit = false :=
      ⟨hl.1, hl.2.1, hl.2.2.1, rfl⟩
    simp only [Bool.false_eq_true, if_false]
    apply (enter_always i hout).seq
    intro result l h
    cases result with
    | error err => exact h
    | ok queuedBefore => exact ⟨h, fun _ _ _ => ⟨⟨h.1, h.2.1, rfl⟩, fun _ _ _ => ⟨h.1, rfl, rfl⟩⟩⟩

theorem scheduledNativeChat_always (i : ι) (call : ScheduledCall) :
    Always (schedulerWorld ι config) i (Stands config) Returned
      (scheduledNativeChat config call.request call.operation) {} := by
  unfold scheduledNativeChat
  split
  · exact fun h => absurd h cancelled_ne_queueFull
  · rename_i hcancelled
    refine Always.op trivial fun queuedAt _ _ => ?_
    apply (takePermit_always i ⟨rfl, rfl, rfl, rfl⟩).seq
    intro result l h
    cases result with
    | error err => exact fun _ _ => h
    | ok queuedBefore =>
      refine ⟨trivial, fun now _ _ => ⟨h, fun response _ _ => ⟨h, fun _ _ _ _ hhanded => ?_⟩⟩⟩
      cases hhanded

theorem schedulerStart_typed (calls : ι → ScheduledCall) :
    Typed (schedulerWorld ι config) (fun _ => Stands config) (fun _ => Returned) (schedulerStart config calls) := by
  intro i p hp
  cases hp
  exact scheduledNativeChat_always i (calls i)

end

/-! ## The counters -/

theorem wrappingPred_of_pos {n : Nat} (h : 0 < n) : wrappingPred n = n - 1 := if_neg (Nat.ne_of_gt h)

namespace Caller

def permits (l : Caller) : Nat := if l.permit then 1 else 0

/-- What the call adds to the counter. -/
def waits (l : Caller) : Nat := (if l.guard then 1 else 0) + if l.entered.isSome then 1 else 0

/-- The guard that the call has, or will have since it read a free place. -/
def places (maxQueuedRequests : Nat) (l : Caller) : Nat :=
  (if l.guard then 1 else 0) + if l.entered.any (· < maxQueuedRequests) then 1 else 0

theorem places_le_waits (maxQueuedRequests : Nat) (l : Caller) : l.places maxQueuedRequests ≤ l.waits := by
  unfold places waits
  cases h : l.entered with
  | none => simp
  | some n =>
    by_cases hn : n < maxQueuedRequests
    · simp [hn]
    · simp [hn]

end Caller

structure Tallied {ι : Type} [Fintype ι] (config : NativeSchedulerConfig) (loc : ι → Caller) (g : Counters) : Prop where
  permits : ∑ i, (loc i).permits = g.permits
  permitted : g.permits ≤ config.maxConcurrentRequests
  waiting : ∑ i, (loc i).waits = g.waiting
  placed : ∑ i, (loc i).places config.maxQueuedRequests ≤ config.maxQueuedRequests

section
variable {ι : Type} [Fintype ι] [DecidableEq ι] {config : NativeSchedulerConfig} {loc : ι → Caller} {g g' : Counters}
  {i : ι} {l : Caller}

theorem Tallied.update (h : Tallied config loc g) (hpermits : (loc i).permits + g'.permits = l.permits + g.permits)
    (hpermitted : g'.permits ≤ config.maxConcurrentRequests)
    (hwaiting : (loc i).waits + g'.waiting = l.waits + g.waiting)
    (hplaced : l.places config.maxQueuedRequests ≤ (loc i).places config.maxQueuedRequests ∨
      ∑ j, (loc j).places config.maxQueuedRequests + l.places config.maxQueuedRequests ≤ config.maxQueuedRequests) :
    Tallied config (Function.update loc i l) g' where
  permits := by
    have hsum := sum_update_add Caller.permits loc i l
    have hold := h.permits
    omega
  permitted := hpermitted
  waiting := by
    have hsum := sum_update_add Caller.waits loc i l
    have hold := h.waiting
    omega
  placed := by
    have hsum := sum_update_add (Caller.places config.maxQueuedRequests) loc i l
    have hold := h.placed
    omega

omit [DecidableEq ι] in
theorem Tallied.waiting_pos (h : Tallied config loc g) (hi : 0 < (loc i).waits) : 0 < g.waiting := by
  have hle := le_sum Caller.waits loc i
  have hold := h.waiting
  omega

omit [DecidableEq ι] in
theorem Tallied.permits_pos (h : Tallied config loc g) (hi : 0 < (loc i).permits) : 0 < g.permits := by
  have hle := le_sum Caller.permits loc i
  have hold := h.permits
  omega

theorem tallied_answer (h : Tallied config loc g) {o : SchedulerOp} {a : SchedulerSig.Ans o}
    (hstands : Stands config o (loc i)) (hcan : o.can config g a = true) :
    Tallied config (Function.update loc i (o.loc a (loc i))) (o.sh a g) := by
  have hpermitted := h.permitted
  cases o with
  | now => exact h.update rfl hpermitted rfl (.inl (Nat.le_refl _))
  | inner operation request => exact h.update rfl hpermitted rfl (.inl (Nat.le_refl _))
  | tryAcquire =>
    obtain ⟨_, hentered, hguard, hpermit⟩ := hstands
    cases a with
    | false => exact h.update (by simp [SchedulerOp.loc, SchedulerOp.sh, Caller.permits, hpermit]) hpermitted rfl (.inl (Nat.le_refl _))
    | true =>
      have hfree : g.permits < config.maxConcurrentRequests := by simpa [SchedulerOp.can] using hcan
      exact h.update (by simp [SchedulerOp.loc, SchedulerOp.sh, Caller.permits, hpermit, Nat.add_comm]) hfree rfl (.inl (Nat.le_refl _))
  | acquire =>
    obtain ⟨hentered, hguard, hpermit⟩ := hstands
    have hfree : g.permits < config.maxConcurrentRequests := by simpa [SchedulerOp.can] using hcan
    exact h.update (by simp [SchedulerOp.loc, SchedulerOp.sh, Caller.permits, hpermit, Nat.add_comm]) hfree rfl (.inl (Nat.le_refl _))
  | dropPermit =>
    obtain ⟨hentered, hguard, hpermit⟩ := hstands
    have hone : (loc i).permits = 1 := by simp [Caller.permits, hpermit]
    have hpos := h.permits_pos (i := i) (by omega)
    refine h.update ?_ (le_trans (Nat.sub_le _ _) hpermitted) rfl (.inl (Nat.le_refl _))
    show (loc i).permits + (g.permits - 1) = 0 + g.permits
    omega
  | fetchAdd =>
    obtain ⟨_, hentered, hguard, hpermit⟩ := hstands
    have hn : a = g.waiting := by simpa [SchedulerOp.can] using hcan
    refine h.update rfl hpermitted (by simp [SchedulerOp.loc, SchedulerOp.sh, Caller.waits, hguard, hentered, Nat.add_comm]) ?_
    -- Each place taken is counted, so a free place that is read leaves room for one more.
    have hsum : ∑ j, (loc j).places config.maxQueuedRequests ≤ g.waiting := by
      rw [← h.waiting]
      exact Finset.sum_le_sum fun j _ => Caller.places_le_waits _ _
    by_cases hfree : g.waiting < config.maxQueuedRequests
    · have hone : Caller.places config.maxQueuedRequests { loc i with entered := some a } = 1 := by
        simp [Caller.places, hguard, hn, hfree]
      refine .inr ?_
      show _ + Caller.places config.maxQueuedRequests { loc i with entered := some a } ≤ _
      omega
    · refine .inl ?_
      simp [SchedulerOp.loc, Caller.places, hguard, hentered, hn, hfree]
  | fetchSub =>
    obtain ⟨⟨n, hentered, hn⟩, hguard, hpermit⟩ := hstands
    have hone : (loc i).waits = 1 := by simp [Caller.waits, hguard, hentered]
    have hpos := h.waiting_pos (i := i) (by omega)
    refine h.update rfl hpermitted ?_ ?_
    · have hzero : (SchedulerOp.fetchSub.loc a (loc i)).waits = 0 := by simp [SchedulerOp.loc, Caller.waits, hguard]
      rw [hone, hzero]
      show 1 + wrappingPred g.waiting = 0 + g.waiting
      rw [wrappingPred_of_pos hpos]
      omega
    · refine .inl ?_
      simp [SchedulerOp.loc, Caller.places, hguard]
  | newGuard =>
    obtain ⟨⟨n, hentered, hn⟩, hguard, hpermit⟩ := hstands
    refine h.update rfl hpermitted ?_ ?_
    · simp [SchedulerOp.loc, SchedulerOp.sh, Caller.waits, hguard, hentered]
    · refine .inl ?_
      simp [SchedulerOp.loc, Caller.places, hguard, hentered, hn]
  | dropGuard =>
    obtain ⟨hentered, hguard, hpermit⟩ := hstands
    have hone : (loc i).waits = 1 := by simp [Caller.waits, hguard, hentered]
    have hpos := h.waiting_pos (i := i) (by omega)
    refine h.update rfl hpermitted ?_ ?_
    · have hzero : (SchedulerOp.dropGuard.loc a (loc i)).waits = 0 := by simp [SchedulerOp.loc, Caller.waits, hentered]
      rw [hone, hzero]
      show 1 + wrappingPred g.waiting = 0 + g.waiting
      rw [wrappingPred_of_pos hpos]
      omega
    · refine .inl ?_
      simp [SchedulerOp.loc, Caller.places, hentered]

theorem tallied_drop (h : Tallied config loc g) {o : SchedulerOp} (hstands : Stands config o (loc i))
    (hawait : o.isAwait = true) :
    Tallied config (Function.update loc i { loc i with guard := false, permit := false }) (g.drop (loc i)) := by
  have hpermitted := h.permitted
  cases o with
  | acquire =>
    obtain ⟨hentered, hguard, hpermit⟩ := hstands
    have hone : (loc i).waits = 1 := by simp [Caller.waits, hguard, hentered]
    have hpos := h.waiting_pos (i := i) (by omega)
    refine h.update ?_ ?_ ?_ (.inl ?_)
    · simp [Counters.drop, Caller.permits, hpermit]
    · simpa [Counters.drop, hpermit] using hpermitted
    · simp only [Counters.drop, hguard, if_true, wrappingPred_of_pos hpos, Caller.waits, hentered]
      simp only [Option.isSome_none, Bool.false_eq_true, if_false]
      omega
    · simp [Caller.places, hguard, hentered]
  | inner operation request =>
    obtain ⟨hentered, hguard, hpermit⟩ := hstands
    have hone : (loc i).permits = 1 := by simp [Caller.permits, hpermit]
    have hpos := h.permits_pos (i := i) (by omega)
    refine h.update ?_ ?_ ?_ (.inl ?_)
    · simp only [Counters.drop, Caller.permits, hpermit, if_true, Bool.false_eq_true, if_false]
      omega
    · simp only [Counters.drop, hpermit, if_true]
      omega
    · simp [Counters.drop, Caller.waits, hguard, hentered]
    · simp [Caller.places, hguard, hentered]
  | _ => cases hawait

theorem tallied_reach {calls : ι → ScheduledCall} {ok : SchedulerConf ι → Label SchedulerSig ι Empty → Prop}
    {c : SchedulerConf ι} (hr : Reach (schedulerWorld ι config) ok (schedulerStart config calls) c) :
    Tallied config c.loc c.sh := by
  refine (schedulerStart_typed calls).pool (J := Tallied config) ?_ ?_ ?_ (fun _ e => e.elim) hr
  · constructor <;> simp [schedulerStart, Caller.permits, Caller.waits, Caller.places]
  · exact fun c i o a h hstands _ hcan => tallied_answer h hstands hcan
  · exact fun c i o h hstands _ hawait => tallied_drop h hstands hawait

/-! ## The bound -/

omit [DecidableEq ι] in
theorem sum_waits (c : SchedulerConf ι) : ∑ i, (c.loc i).waits = (holders c).card + (entering c).card := by
  simp only [holders, entering, Finset.card_filter, ← Finset.sum_add_distrib]
  rfl

theorem running_le (calls : ι → ScheduledCall) {ok : SchedulerConf ι → Label SchedulerSig ι Empty → Prop}
    {c : SchedulerConf ι} (hr : Reach (schedulerWorld ι config) ok (schedulerStart config calls) c) :
    (running c).card ≤ config.maxConcurrentRequests := by
  have h := tallied_reach hr
  have htyped := (schedulerStart_typed calls).reach hr
  have hone : ∀ i ∈ running c, (c.loc i).permits = 1 := by
    intro i hi
    have hruns := (Finset.mem_filter.mp hi).2
    unfold runsInner at hruns
    split at hruns
    · rename_i operation request hpending
      unfold Conf.pending at hpending
      split at hpending
      · rename_i o k hp
        cases hpending
        simp [Caller.permits, ((htyped i _ hp).1 : Stands config (.inner operation request) (c.loc i)).2.2]
      · cases hpending
    · cases hruns
  calc (running c).card = ∑ i ∈ running c, (c.loc i).permits := by rw [Finset.sum_congr rfl hone]; simp
    _ ≤ ∑ i, (c.loc i).permits := Finset.sum_le_univ_sum_of_nonneg fun i => Nat.zero_le _
    _ = c.sh.permits := h.permits
    _ ≤ config.maxConcurrentRequests := h.permitted

/-- At every moment of every run: the bounds on running and waiting calls, and what the
counter counts. -/
theorem scheduler_bound (config : NativeSchedulerConfig) (calls : ι → ScheduledCall) {c : SchedulerConf ι}
    (hr : Reach (schedulerWorld ι config.new) (fun _ _ => True) (schedulerStart config.new calls) c) :
    (running c).card ≤ max 1 config.maxConcurrentRequests ∧ (holders c).card ≤ config.maxQueuedRequests ∧
      c.sh.waiting = (holders c).card + (entering c).card ∧
      (holders c = ∅ → entering c = ∅ → c.sh.waiting = 0) := by
  have h := tallied_reach hr
  have hwaiting : c.sh.waiting = (holders c).card + (entering c).card := by
    rw [← h.waiting]
    exact sum_waits c
  refine ⟨?_, ?_, hwaiting, ?_⟩
  · have hrunning := running_le calls hr
    rwa [show config.new.maxConcurrentRequests = max config.maxConcurrentRequests 1 from rfl, max_comm] at hrunning
  · refine le_trans ?_ h.placed
    simp only [holders, Finset.card_filter]
    exact Finset.sum_le_sum fun i _ => Nat.le_add_right _ _
  · intro hholders hentering
    rw [hwaiting, hholders, hentering]
    rfl

theorem scheduler_bound_one_waits : ∃ c, Reach (schedulerWorld (Fin 4) oneSlot.new) (fun _ _ => True)
    (schedulerStart oneSlot.new fun _ => plainCall) c ∧ c.sh.waiting = 1 ∧ (running c).card ≤ 1 ∧ (holders c).card ≤ 1 := by
  have hrun : ∃ c, Reach (schedulerWorld (Fin 4) oneSlot.new) (fun _ _ => True)
      (schedulerStart oneSlot.new fun _ => plainCall) c ∧ c.sh.waiting = 1 := by
    refine Conf.exists_reach oneWaits ?_
    decide +kernel
  obtain ⟨c, hr, hwaiting⟩ := hrun
  obtain ⟨hrunning, hholders, -, -⟩ := scheduler_bound oneSlot (fun _ => plainCall) hr
  exact ⟨c, hr, hwaiting, hrunning, hholders⟩

/-! ## Full queues -/

/-- `i` was under way at a moment of the past at which `n` other calls held a guard. -/
def Crowded (n : Nat) (past : List (SchedulerConf ι)) (i : ι) : Prop :=
  ∃ c ∈ past, (c.loc i).started = true ∧ n ≤ ((holders c).erase i).card

/-- The call that raises the counter. -/
def raises : Label SchedulerSig ι Empty → Option ι
  | .answer i .fetchAdd _ => some i
  | _ => none

/-- No call raises the counter while there are fewer guards than places and only calls
inside `enter` bring the counter up to the limit. -/
def Undisturbed (config : NativeSchedulerConfig) (c : SchedulerConf ι) (step : Label SchedulerSig ι Empty) : Prop :=
  (raises step).isSome = true → config.maxQueuedRequests ≤ (holders c).card + (entering c).card →
    config.maxQueuedRequests ≤ (holders c).card

omit [DecidableEq ι] in
instance (c : SchedulerConf ι) (step : Label SchedulerSig ι Empty) : Decidable (Undisturbed config c step) :=
  inferInstanceAs (Decidable (_ → _ → _))

/-- Whoever read a full counter, or took its increment back, was crowded out. -/
def Justified (config : NativeSchedulerConfig) (past : List (SchedulerConf ι)) (c : SchedulerConf ι) : Prop :=
  ∀ i, (∃ n, (c.loc i).entered = some n ∧ config.maxQueuedRequests ≤ n) ∨ (c.loc i).rejected = true →
    Crowded config.maxQueuedRequests past i

theorem Crowded.later {n : Nat} {past : List (SchedulerConf ι)} {i : ι} (h : Crowded n past i)
    (c : SchedulerConf ι) : Crowded n (past ++ [c]) i := by
  obtain ⟨d, hd, hrest⟩ := h
  exact ⟨d, List.mem_append_left _ hd, hrest⟩

theorem justified_step {calls : ι → ScheduledCall} {past : List (SchedulerConf ι)} {c c' : SchedulerConf ι}
    {step : Label SchedulerSig ι Empty}
    (hr : Reach (schedulerWorld ι config) (Undisturbed config) (schedulerStart config calls) c)
    (h : Justified config past c) (hok : Undisturbed config c step) (hs : Step (schedulerWorld ι config) c step c') :
    Justified config (past ++ [c]) c' := by
  have htallied := tallied_reach hr
  have htyped := (schedulerStart_typed calls).reach hr
  -- Nothing to do where the step leaves its call as justified as it was.
  have hkeep : ∀ {i : ι} {l : Caller} {c' : SchedulerConf ι}, c'.loc = Function.update c.loc i l →
      ((∃ n, l.entered = some n ∧ config.maxQueuedRequests ≤ n) ∨ l.rejected = true →
        (∃ n, (c.loc i).entered = some n ∧ config.maxQueuedRequests ≤ n) ∨ (c.loc i).rejected = true) →
      Justified config (past ++ [c]) c' := by
    intro i l c' hloc hl j hj
    rw [hloc] at hj
    by_cases hji : j = i
    · subst hji
      rw [Function.update_self] at hj
      exact (h j (hl hj)).later c
    · rw [Function.update_of_ne hji] at hj
      exact (h j hj).later c
  cases hs with
  | env he => rename_i e; exact e.elim
  | drop hp hd => exact hkeep rfl id
  | @answer i o k a hp hcan =>
    have hstands : Stands config o (c.loc i) := (htyped i _ hp).1
    cases o with
    | fetchAdd =>
      obtain ⟨hstarted, hentered, hguard, hpermit⟩ := hstands
      have hn : a = c.sh.waiting := by simpa [schedulerWorld, SchedulerOp.can] using hcan
      intro j hj
      by_cases hji : j = i
      · subst hji
        simp only [Function.update_self] at hj
        obtain ⟨n, hread, hfull⟩ | hrejected := hj
        · cases hread
          have hcount : c.sh.waiting = (holders c).card + (entering c).card := by
            rw [← htallied.waiting]
            exact sum_waits c
          have hheld := hok rfl (by rw [← hcount, ← hn]; exact hfull)
          have hnot : j ∉ holders c := by simp [holders, hguard]
          refine ⟨c, List.mem_append_right _ (List.mem_singleton_self c), hstarted, ?_⟩
          rwa [Finset.erase_eq_of_notMem hnot]
        · exact (h j (.inr hrejected)).later c
      · simp only [Function.update_of_ne hji] at hj
        exact (h j hj).later c
    | fetchSub =>
      obtain ⟨hentered, _⟩ := hstands
      exact hkeep rfl fun _ => .inl hentered
    | newGuard =>
      refine hkeep rfl ?_
      rintro (⟨n, hread, _⟩ | hrejected)
      · cases hread
      · exact .inr hrejected
    | _ => exact hkeep rfl id

/-- Where no call raises the counter between another's vain increment and its return, a
call that finds the queue full was under way while all places were taken. -/
theorem full_queue_justified (config : NativeSchedulerConfig) (calls : ι → ScheduledCall)
    {past : List (SchedulerConf ι)} {c : SchedulerConf ι}
    (hr : Run (schedulerWorld ι config.new) (Undisturbed config.new) (schedulerStart config.new calls) past c) {i : ι}
    (hfull : c.result i = some (.error queueFull)) (hhanded : (c.loc i).handed = false) :
    Crowded config.maxQueuedRequests past i := by
  have h : Justified config.new past c := by
    refine hr.invariant (J := Justified config.new) ?_ ?_
    · rintro i (⟨n, hread, _⟩ | hrejected)
      · cases hread
      · cases hrejected
    · exact fun _ _ _ _ hreach hj hok hs => justified_step hreach hj hok hs
  have hreturned : Returned (.error queueFull) (c.loc i) :=
    (schedulerStart_typed calls).reach hr.reach i _ (Conf.prog_of_result hfull)
  exact h i (.inr (hreturned rfl hhanded))

end

/-- The third call is rejected and has not taken its increment back when the second one
leaves the queue: the fourth finds the queue full, and nobody waits. -/
theorem full_at_no_guard : ∃ past c, Run (schedulerWorld (Fin 4) oneSlot.new) (fun _ _ => True)
    (schedulerStart oneSlot.new fun _ => plainCall) past c ∧ c.result 3 = some (.error queueFull) ∧
    (c.loc 3).handed = false ∧ ¬ Crowded oneSlot.maxQueuedRequests past 3 := by
  have hrun : ∃ past c, Run (schedulerWorld (Fin 4) oneSlot.new) (fun _ _ => True)
      (schedulerStart oneSlot.new fun _ => plainCall) past c ∧ c.result 3 = some (.error queueFull) ∧
      (c.loc 3).handed = false ∧ ∀ d ∈ past, (d.loc 3).started = true → ((holders d).erase 3).card = 0 := by
    refine Conf.exists_run (oneWaits ++ [2, 2, 2, 0, 0, 1, 1, 3, 3, 3, 3].map turn) ?_
    decide +kernel
  obtain ⟨past, c, hr, hfull, hhanded, hempty⟩ := hrun
  refine ⟨past, c, hr, hfull, hhanded, ?_⟩
  rintro ⟨d, hd, hstarted, hcrowd⟩
  rw [hempty d hd hstarted] at hcrowd
  exact absurd hcrowd (by decide)

theorem full_queue_justified_third : ∃ past c, Run (schedulerWorld (Fin 4) oneSlot.new) (Undisturbed oneSlot.new)
    (schedulerStart oneSlot.new fun _ => plainCall) past c ∧ c.result 2 = some (.error queueFull) ∧
    Crowded oneSlot.maxQueuedRequests past 2 := by
  have hrun : ∃ past c, Run (schedulerWorld (Fin 4) oneSlot.new) (Undisturbed oneSlot.new)
      (schedulerStart oneSlot.new fun _ => plainCall) past c ∧ c.result 2 = some (.error queueFull) ∧
      (c.loc 2).handed = false := by
    refine Conf.exists_run (oneWaits ++ [2, 2, 2, 2].map turn) ?_
    decide +kernel
  obtain ⟨past, c, hr, hfull, hhanded⟩ := hrun
  exact ⟨past, c, hr, hfull, full_queue_justified oneSlot (fun _ => plainCall) hr hfull hhanded⟩

end Llmctl.Scheduler
