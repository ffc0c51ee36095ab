import Llmctl.Reporting.Summary
import Mathlib.Data.String.Basic
import Mathlib.Data.List.Perm.Basic

/-!
# Usage summaries are partitions of the events

The breakdowns of a summary stand in the order of their keys, one for each key that
occurs, and their sums add up to the totals. The sums saturate; a sum of saturated
sums is still the saturated sum of everything, and no order matters.
-/

namespace Llmctl

/-! ## Saturating sums -/

theorem saturatingAdd_right_comm (a b c : Nat) : saturatingAdd (saturatingAdd a b) c = saturatingAdd (saturatingAdd a c) b := by
  unfold saturatingAdd
  omega

theorem saturatingAdd_assoc (a b c : Nat) : saturatingAdd (saturatingAdd a b) c = saturatingAdd a (saturatingAdd b c) := by
  unfold saturatingAdd
  omega

theorem UsageTotals.accumulate_right_comm (t : UsageTotals) (e e' : UsageEvent) :
    (t.accumulate e).accumulate e' = (t.accumulate e').accumulate e := by
  unfold UsageTotals.accumulate
  simp only [saturatingAdd_right_comm _ e.inputTokens, saturatingAdd_right_comm _ e.outputTokens,
    saturatingAdd_right_comm _ e.latencyMs, saturatingAdd_right_comm _ (saturatingAdd e.inputTokens e.outputTokens)]

/-! ## One event in a breakdown -/

theorem mem_keys_accumulateBreakdown (key : String) (event : UsageEvent) (bs : List UsageBreakdown) (k : String) :
    k ∈ (accumulateBreakdown key event bs).map (·.key) ↔ k = key ∨ k ∈ bs.map (·.key) := by
  induction bs with
  | nil => simp [accumulateBreakdown]
  | cons b bs ih =>
    unfold accumulateBreakdown
    by_cases heq : key = b.key
    · simp [heq]
    · by_cases hlt : key < b.key
      · simp [heq, hlt]
      · simp only [heq, hlt, ite_false, List.map_cons, List.mem_cons, ih]
        exact or_left_comm

theorem pairwise_accumulateBreakdown (key : String) (event : UsageEvent) {bs : List UsageBreakdown}
    (hbs : (bs.map (·.key)).Pairwise (· < ·)) : ((accumulateBreakdown key event bs).map (·.key)).Pairwise (· < ·) := by
  induction bs with
  | nil => simp [accumulateBreakdown]
  | cons b bs ih =>
    rw [List.map_cons, List.pairwise_cons] at hbs
    obtain ⟨hb, hbs⟩ := hbs
    unfold accumulateBreakdown
    by_cases heq : key = b.key
    · simp only [heq, ite_true, List.map_cons, List.pairwise_cons]
      exact ⟨hb, hbs⟩
    · by_cases hlt : key < b.key
      · simp only [heq, hlt, ite_true, ite_false, List.map_cons, List.pairwise_cons]
        refine ⟨fun k hk => ?_, hb, hbs⟩
        cases List.mem_cons.mp hk with
        | inl hk => exact hk ▸ hlt
        | inr hk => exact lt_trans hlt (hb k hk)
      · simp only [heq, hlt, ite_false, List.map_cons, List.pairwise_cons]
        refine ⟨fun k hk => ?_, ih hbs⟩
        cases (mem_keys_accumulateBreakdown key event bs k).mp hk with
        | inl hk => exact hk ▸ lt_of_le_of_ne (not_lt.mp hlt) (Ne.symm heq)
        | inr hk => exact hb k hk

/-- Two events may be added in either order, whatever the breakdowns are. -/
theorem accumulateBreakdown_right_comm (key key' : String) (e e' : UsageEvent) (bs : List UsageBreakdown) :
    accumulateBreakdown key' e' (accumulateBreakdown key e bs) = accumulateBreakdown key e (accumulateBreakdown key' e' bs) := by
  induction bs with
  | nil =>
    rcases lt_trichotomy key key' with h | h | h
    · simp [accumulateBreakdown, h, h.ne, h.ne', not_lt_of_gt h]
    · subst h
      simp [accumulateBreakdown, UsageTotals.accumulate_right_comm {} e e']
    · simp [accumulateBreakdown, h, h.ne, h.ne', not_lt_of_gt h]
  | cons b bs ih =>
    rcases lt_trichotomy key b.key with h | h | h <;> rcases lt_trichotomy key' b.key with h' | h' | h'
    · rcases lt_trichotomy key key' with hk | hk | hk
      · simp [accumulateBreakdown, h, h.ne, h', h'.ne, hk, hk.ne, hk.ne', not_lt_of_gt hk]
      · subst hk
        simp [accumulateBreakdown, h, h.ne, UsageTotals.accumulate_right_comm {} e e']
      · simp [accumulateBreakdown, h, h.ne, h', h'.ne, hk, hk.ne, hk.ne', not_lt_of_gt hk]
    · subst h'
      simp [accumulateBreakdown, h, h.ne, h.ne', not_lt_of_gt h]
    · have hk := lt_trans h h'
      simp [accumulateBreakdown, h, h.ne, h'.ne', not_lt_of_gt h', hk.ne', not_lt_of_gt hk]
    · subst h
      simp [accumulateBreakdown, h', h'.ne, h'.ne', not_lt_of_gt h']
    · subst h
      subst h'
      simp [accumulateBreakdown, UsageTotals.accumulate_right_comm _ e e']
    · subst h
      simp [accumulateBreakdown, h'.ne', not_lt_of_gt h']
    · have hk := lt_trans h' h
      simp [accumulateBreakdown, h', h'.ne, h.ne', not_lt_of_gt h, hk.ne', not_lt_of_gt hk]
    · subst h'
      simp [accumulateBreakdown, h.ne', not_lt_of_gt h]
    · simp [accumulateBreakdown, h.ne', not_lt_of_gt h, h'.ne', not_lt_of_gt h', ih]

/-! ## Sums over the breakdowns -/

section
variable {op : Nat → Nat → Nat} (assoc : ∀ a b c, op (op a b) c = op a (op b c)) (comm : ∀ a b c, op (op a b) c = op (op a c) b)
variable (zero : ∀ a b, op a (op 0 b) = op a b)
variable {sum : UsageTotals → Nat} {amount : UsageEvent → Nat}
variable (empty : sum {} = 0) (accumulate : ∀ t e, sum (t.accumulate e) = op (sum t) (amount e))

include comm in
theorem foldl_op_last (l : List Nat) (a b : Nat) : l.foldl op (op a b) = op (l.foldl op a) b := by
  induction l generalizing a with
  | nil => rfl
  | cons x l ih => rw [List.foldl_cons, List.foldl_cons, comm, ih]

include assoc comm zero empty accumulate

theorem foldl_accumulateBreakdown (key : String) (event : UsageEvent) (bs : List UsageBreakdown) (a : Nat) :
    ((accumulateBreakdown key event bs).map fun b => sum b.toUsageTotals).foldl op a =
      op ((bs.map fun b => sum b.toUsageTotals).foldl op a) (amount event) := by
  have fresh : ∀ a, op a (sum (UsageTotals.accumulate {} event)) = op a (amount event) := by
    intro a
    rw [accumulate, empty, zero]
  induction bs generalizing a with
  | nil => exact fresh a
  | cons b bs ih =>
    unfold accumulateBreakdown
    by_cases heq : key = b.key
    · simp only [heq, ite_true, List.map_cons, List.foldl_cons, accumulate]
      rw [← assoc, foldl_op_last comm]
    · by_cases hlt : key < b.key
      · simp only [heq, hlt, ite_true, ite_false, List.map_cons, List.foldl_cons]
        rw [fresh, comm, foldl_op_last comm]
      · simp only [heq, hlt, ite_false, List.map_cons, List.foldl_cons]
        exact ih (op a (sum b.toUsageTotals))

/-- The breakdowns by any key add up to the sum over all events. -/
theorem foldl_breakdownsBy (key : UsageEvent → String) (events : List UsageEvent) :
    ((breakdownsBy key events).map fun b => sum b.toUsageTotals).foldl op 0 = sum (events.foldl UsageTotals.accumulate {}) := by
  have run : ∀ (bs : List UsageBreakdown) (t : UsageTotals), (bs.map fun b => sum b.toUsageTotals).foldl op 0 = sum t →
      ((events.foldl (fun bs event => accumulateBreakdown (key event) event bs) bs).map fun b => sum b.toUsageTotals).foldl op 0 =
        sum (events.foldl UsageTotals.accumulate t) := by
    induction events with
    | nil => intro bs t h; exact h
    | cons event events ih =>
      intro bs t h
      rw [List.foldl_cons, List.foldl_cons]
      apply ih
      rw [foldl_accumulateBreakdown assoc comm zero empty accumulate, h, accumulate]
  exact run [] {} empty.symm

end

/-- The sums that saturate. -/
theorem saturating_breakdownsBy {sum : UsageTotals → Nat} {amount : UsageEvent → Nat} (empty : sum {} = 0)
    (accumulate : ∀ t e, sum (t.accumulate e) = saturatingAdd (sum t) (amount e)) (key : UsageEvent → String)
    (events : List UsageEvent) :
    ((breakdownsBy key events).map fun b => sum b.toUsageTotals).foldl saturatingAdd 0 =
      sum (events.foldl UsageTotals.accumulate {}) := by
  refine foldl_breakdownsBy saturatingAdd_assoc saturatingAdd_right_comm ?_ empty accumulate key events
  intro a b
  unfold saturatingAdd
  omega

theorem requestCount_breakdownsBy (key : UsageEvent → String) (events : List UsageEvent) :
    ((breakdownsBy key events).map fun b => b.requestCount).sum = (events.foldl UsageTotals.accumulate {}).requestCount := by
  rw [List.sum_eq_foldl]
  refine foldl_breakdownsBy Nat.add_assoc Nat.add_right_comm ?_ rfl (fun _ _ => rfl) key events
  intro a b
  omega

/-! ## The run over the events -/

theorem keys_breakdownsBy (key : UsageEvent → String) (events : List UsageEvent) (k : String) :
    k ∈ (breakdownsBy key events).map (·.key) ↔ ∃ event ∈ events, key event = k := by
  have run : ∀ bs : List UsageBreakdown,
      k ∈ (events.foldl (fun bs event => accumulateBreakdown (key event) event bs) bs).map (·.key) ↔
        k ∈ bs.map (·.key) ∨ ∃ event ∈ events, key event = k := by
    induction events with
    | nil => intro bs; simp
    | cons event events ih =>
      intro bs
      rw [List.foldl_cons, ih, mem_keys_accumulateBreakdown, @eq_comm _ k, @or_comm (key event = k), or_assoc]
      simp only [List.mem_cons, exists_eq_or_imp]
  exact (run []).trans (by simp)

theorem pairwise_breakdownsBy (key : UsageEvent → String) (events : List UsageEvent) :
    ((breakdownsBy key events).map (·.key)).Pairwise (· < ·) := by
  have run : ∀ bs : List UsageBreakdown, (bs.map (·.key)).Pairwise (· < ·) →
      ((events.foldl (fun bs event => accumulateBreakdown (key event) event bs) bs).map (·.key)).Pairwise (· < ·) := by
    induction events with
    | nil => intro bs h; exact h
    | cons event events ih => intro bs h; exact ih _ (pairwise_accumulateBreakdown (key event) event h)
  exact run [] List.Pairwise.nil

theorem breakdownsBy_perm (key : UsageEvent → String) {events events' : List UsageEvent} (h : events.Perm events') :
    breakdownsBy key events = breakdownsBy key events' :=
  h.foldl_eq' (fun e _ e' _ bs => accumulateBreakdown_right_comm (key e) (key e') e e' bs) []

theorem foldl_accumulate_perm {events events' : List UsageEvent} (h : events.Perm events') :
    events.foldl UsageTotals.accumulate {} = events'.foldl UsageTotals.accumulate {} :=
  h.foldl_eq' (fun e _ e' _ t => UsageTotals.accumulate_right_comm t e e') ({} : UsageTotals)

/-! ## The summary -/

theorem foldl_accumulateSummary (events : List UsageEvent) (summary : UsageSummary) :
    events.foldl accumulateSummary summary =
      { summary with toUsageTotals := events.foldl UsageTotals.accumulate summary.toUsageTotals } := by
  induction events generalizing summary with
  | nil => rfl
  | cons event events ih => exact ih (accumulateSummary summary event)

theorem summarizeUsage_eq (events : List UsageEvent) :
    summarizeUsage events =
      let totals := events.foldl UsageTotals.accumulate {}
      { toUsageTotals := totals
        averageLatencyMs := average totals.totalLatencyMs totals.requestCount
        byModel := finishBreakdowns (breakdownsBy (·.model) events)
        byTeam := finishBreakdowns (breakdownsBy (·.team) events)
        byActor := finishBreakdowns (breakdownsBy (·.actor) events) } := by
  unfold summarizeUsage
  rw [foldl_accumulateSummary]

/-- What finished breakdowns by a key are, against the totals of the same events. -/
structure Partitions (key : UsageEvent → String) (events : List UsageEvent) (totals : UsageTotals)
    (breakdowns : List UsageBreakdown) : Prop where
  requestCount : (breakdowns.map (·.requestCount)).sum = totals.requestCount
  inputTokens : (breakdowns.map (·.inputTokens)).foldl saturatingAdd 0 = totals.inputTokens
  outputTokens : (breakdowns.map (·.outputTokens)).foldl saturatingAdd 0 = totals.outputTokens
  totalTokens : (breakdowns.map (·.totalTokens)).foldl saturatingAdd 0 = totals.totalTokens
  totalLatencyMs : (breakdowns.map (·.totalLatencyMs)).foldl saturatingAdd 0 = totals.totalLatencyMs
  increasing : (breakdowns.map (·.key)).Pairwise (· < ·)
  keys : ∀ k, k ∈ breakdowns.map (·.key) ↔ ∃ event ∈ events, key event = k

theorem map_finishBreakdowns {α : Type} (f : UsageTotals → α) (bs : List UsageBreakdown) :
    (finishBreakdowns bs).map (fun b => f b.toUsageTotals) = bs.map fun b => f b.toUsageTotals := by
  unfold finishBreakdowns
  rw [List.map_map]
  rfl

theorem keys_finishBreakdowns (bs : List UsageBreakdown) : (finishBreakdowns bs).map (·.key) = bs.map (·.key) := by
  unfold finishBreakdowns
  rw [List.map_map]
  rfl

theorem partitions_breakdownsBy (key : UsageEvent → String) (events : List UsageEvent) :
    Partitions key events (events.foldl UsageTotals.accumulate {}) (finishBreakdowns (breakdownsBy key events)) where
  requestCount := by
    rw [map_finishBreakdowns (·.requestCount)]
    exact requestCount_breakdownsBy key events
  inputTokens := by
    rw [map_finishBreakdowns (·.inputTokens)]
    exact saturating_breakdownsBy rfl (fun _ _ => rfl) key events
  outputTokens := by
    rw [map_finishBreakdowns (·.outputTokens)]
    exact saturating_breakdownsBy rfl (fun _ _ => rfl) key events
  totalTokens := by
    rw [map_finishBreakdowns (·.totalTokens)]
    exact saturating_breakdownsBy rfl (fun _ _ => rfl) key events
  totalLatencyMs := by
    rw [map_finishBreakdowns (·.totalLatencyMs)]
    exact saturating_breakdownsBy rfl (fun _ _ => rfl) key events
  increasing := by
    rw [keys_finishBreakdowns]
    exact pairwise_breakdownsBy key events
  keys := by
    rw [keys_finishBreakdowns]
    exact keys_breakdownsBy key events

/-- The breakdowns by model, team and actor partition the events of a summary, and a
summary does not depend on the order of the events. -/
theorem summarizeUsage_partitions (events : List UsageEvent) :
    Partitions (·.model) events (summarizeUsage events).toUsageTotals (summarizeUsage events).byModel ∧
    Partitions (·.team) events (summarizeUsage events).toUsageTotals (summarizeUsage events).byTeam ∧
    Partitions (·.actor) events (summarizeUsage events).toUsageTotals (summarizeUsage events).byActor ∧
    ∀ events', events'.Perm events → summarizeUsage events' = summarizeUsage events := by
  simp only [summarizeUsage_eq]
  refine ⟨partitions_breakdownsBy _ events, partitions_breakdownsBy _ events, partitions_breakdownsBy _ events, ?_⟩
  intro events' h
  rw [foldl_accumulate_perm h, breakdownsBy_perm _ h, breakdownsBy_perm _ h, breakdownsBy_perm _ h]

end Llmctl
