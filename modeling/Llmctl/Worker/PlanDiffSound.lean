import Llmctl.Worker.PlanDiff

/-!
# What a difference of plans tells

The lists of a difference share the workers of the two plans out. A plan that repeats an
alias is compared by the last definition of it alone, and what else it plans under the alias
is not seen.
-/

namespace Llmctl.Plan

/-- The definition that stands for an id in a plan: the last one. -/
def StartupPlan.definition (plan : StartupPlan) (id : String) : Option PlannedWorker :=
  plan.workers.reverse.find? fun worker => worker.worker.id = id

theorem get_workersByAlias (plan : StartupPlan) (id : String) : (workersByAlias plan.workers).get id = plan.definition id := by
  unfold workersByAlias StartupPlan.definition
  rw [SortedMap.get_collect, ← List.map_reverse, List.find?_map, Option.map_map]
  exact Option.map_id'

theorem definition_isSome_iff (plan : StartupPlan) (id : String) :
    (∃ w, plan.definition id = some w) ↔ ∃ w ∈ plan.workers, w.worker.id = id := by
  rw [← Option.isSome_iff_exists, StartupPlan.definition, List.find?_isSome]
  simp

theorem definition_mem {plan : StartupPlan} {id : String} {w : PlannedWorker} (h : plan.definition id = some w) :
    w ∈ plan.workers ∧ w.worker.id = id :=
  ⟨List.mem_reverse.mp (List.mem_of_find?_eq_some h), by simpa using List.find?_some h⟩

/-! ## The loop over the old workers -/

section
variable (newWorkers : SortedMap String PlannedWorker)

def isChanged (old : String × PlannedWorker) : Bool := (newWorkers.get old.1).any fun newWorker => old.2 ≠ newWorker

def isUnchanged (old : String × PlannedWorker) : Bool := newWorkers.get old.1 = some old.2

theorem foldl_compareWorker (entries : List (String × PlannedWorker)) (changed unchanged : List String) :
    entries.foldl (compareWorker newWorkers) (changed, unchanged) =
      (changed ++ (entries.filter (isChanged newWorkers)).map (·.1),
        unchanged ++ (entries.filter (isUnchanged newWorkers)).map (·.1)) := by
  induction entries generalizing changed unchanged with
  | nil => simp
  | cons old entries ih =>
    rw [List.foldl_cons, compareWorker]
    cases hget : newWorkers.get old.1 with
    | none => simp [ih, isChanged, isUnchanged, hget]
    | some newWorker =>
      by_cases hold : old.2 = newWorker
      · simp [ih, isChanged, isUnchanged, hget, hold]
      · simp [ih, isChanged, isUnchanged, hget, hold, Ne.symm hold]

end

section
variable (a b : StartupPlan)

theorem added_eq : (a.diff b).added =
    (workersByAlias b.workers).keys.filter fun alias_ => !(workersByAlias a.workers).containsKey alias_ := rfl

theorem removed_eq : (a.diff b).removed =
    (workersByAlias a.workers).keys.filter fun alias_ => !(workersByAlias b.workers).containsKey alias_ := rfl

theorem changed_eq : (a.diff b).changed =
    ((workersByAlias a.workers).entries.filter (isChanged (workersByAlias b.workers))).map (·.1) := by
  simp [StartupPlan.diff, foldl_compareWorker]

theorem unchanged_eq : (a.diff b).unchanged =
    ((workersByAlias a.workers).entries.filter (isUnchanged (workersByAlias b.workers))).map (·.1) := by
  simp [StartupPlan.diff, foldl_compareWorker]

theorem counts_eq : (a.diff b).counts =
    ⟨(a.diff b).added.length, (a.diff b).removed.length, (a.diff b).changed.length, (a.diff b).unchanged.length⟩ := rfl

/-! ## Members of the lists -/

variable {a b} {id : String}

theorem mem_added : id ∈ (a.diff b).added ↔ a.definition id = none ∧ ∃ w, b.definition id = some w := by
  simp [added_eq, SortedMap.mem_keys_iff, SortedMap.containsKey, get_workersByAlias, and_comm]

theorem mem_removed : id ∈ (a.diff b).removed ↔ (∃ w, a.definition id = some w) ∧ b.definition id = none := by
  simp [removed_eq, SortedMap.mem_keys_iff, SortedMap.containsKey, get_workersByAlias]

theorem mem_changed : id ∈ (a.diff b).changed ↔ ∃ w w', a.definition id = some w ∧ b.definition id = some w' ∧ w ≠ w' := by
  simp [changed_eq, ← SortedMap.get_eq_some_iff, isChanged, Option.any_eq_true, get_workersByAlias]

theorem mem_unchanged : id ∈ (a.diff b).unchanged ↔ ∃ w, a.definition id = some w ∧ b.definition id = some w := by
  simp [unchanged_eq, ← SortedMap.get_eq_some_iff, isUnchanged, get_workersByAlias]

/-! ## What a difference promises -/

/-- The four lists of a difference, one after the other. -/
def PlanDiff.lists (diff : PlanDiff) : List (List String) := [diff.added, diff.removed, diff.changed, diff.unchanged]

structure Partitions (a b : StartupPlan) : Prop where
  nodup : ∀ list ∈ (a.diff b).lists, list.Nodup
  disjoint : (a.diff b).lists.Pairwise List.Disjoint
  mem_iff : ∀ id, id ∈ (a.diff b).lists.flatten ↔ ∃ w, (w ∈ a.workers ∨ w ∈ b.workers) ∧ w.worker.id = id
  counts : (a.diff b).counts =
    ⟨(a.diff b).added.length, (a.diff b).removed.length, (a.diff b).changed.length, (a.diff b).unchanged.length⟩
  added : (a.diff b).added = (b.diff a).removed
  changed : (a.diff b).changed = (b.diff a).changed
  /-- What only one of the plans has is told. -/
  reported : ∀ w, ¬ (w ∈ a.workers ↔ w ∈ b.workers) →
    w.worker.id ∈ (a.diff b).added ∨ w.worker.id ∈ (a.diff b).removed ∨ w.worker.id ∈ (a.diff b).changed

/-- Where the plans agree on the last definition of an id, they have the same definitions of it. -/
def Shadowless (a b : StartupPlan) : Prop :=
  ∀ id, a.definition id = b.definition id → ∀ w, w.worker.id = id → (w ∈ a.workers ↔ w ∈ b.workers)

theorem sorted_changed : (a.diff b).changed.Pairwise (· < ·) := by
  rw [changed_eq]
  exact (workersByAlias a.workers).keys_sorted.sublist (List.filter_sublist.map _)

theorem sorted_unchanged : (a.diff b).unchanged.Pairwise (· < ·) := by
  rw [unchanged_eq]
  exact (workersByAlias a.workers).keys_sorted.sublist (List.filter_sublist.map _)

theorem nodup_lists : ∀ list ∈ (a.diff b).lists, list.Nodup := by
  simp only [PlanDiff.lists, List.forall_mem_cons, List.not_mem_nil, false_imp_iff, implies_true, and_true]
  refine ⟨(SortedMap.keys_nodup _).filter _, (SortedMap.keys_nodup _).filter _, ?_, ?_⟩
  · exact sorted_changed.imp ne_of_lt
  · exact sorted_unchanged.imp ne_of_lt

theorem disjoint_lists : (a.diff b).lists.Pairwise List.Disjoint := by
  simp only [PlanDiff.lists, List.pairwise_cons, List.forall_mem_cons, List.not_mem_nil, false_imp_iff, implies_true,
    and_true, List.Pairwise.nil, List.Disjoint, mem_added, mem_removed, mem_changed, mem_unchanged]
  grind

theorem changed_symm : (a.diff b).changed = (b.diff a).changed := by
  refine SortedMap.eq_of_sorted sorted_changed sorted_changed fun id => ?_
  rw [mem_changed, mem_changed]
  grind

/-- The lists have the ids that one of the plans has. -/
theorem mem_lists (id : String) :
    id ∈ (a.diff b).lists.flatten ↔ ∃ w, (w ∈ a.workers ∨ w ∈ b.workers) ∧ w.worker.id = id := by
  have hsome : id ∈ (a.diff b).lists.flatten ↔ (∃ w, a.definition id = some w) ∨ ∃ w, b.definition id = some w := by
    simp only [PlanDiff.lists, List.mem_flatten, List.mem_cons, List.not_mem_nil, or_false, exists_eq_or_imp,
      exists_eq_left, mem_added, mem_removed, mem_changed, mem_unchanged]
    cases a.definition id with
    | none => cases b.definition id <;> simp
    | some w =>
      cases b.definition id with
      | none => simp
      | some w' =>
        rcases eq_or_ne w w' with rfl | hne
        · simp
        · simp [hne]
  rw [hsome, definition_isSome_iff, definition_isSome_iff]
  simp only [or_and_right, exists_or]

theorem mem_reported : (id ∈ (a.diff b).added ∨ id ∈ (a.diff b).removed ∨ id ∈ (a.diff b).changed) ↔
    a.definition id ≠ b.definition id := by
  rw [mem_added, mem_removed, mem_changed]
  cases a.definition id <;> cases b.definition id <;> simp

/-- A difference of plans keeps its promises just where no repeated alias hides a definition. -/
theorem partitions_iff (a b : StartupPlan) : Partitions a b ↔ Shadowless a b := by
  constructor
  · rintro h _ heq w rfl
    by_contra hw
    exact mem_reported.mp (h.reported w hw) heq
  · intro h
    exact
      { nodup := nodup_lists
        disjoint := disjoint_lists
        mem_iff := mem_lists
        counts := counts_eq a b
        added := rfl
        changed := changed_symm
        reported := fun w hw => mem_reported.mpr fun heq => hw (h _ heq w rfl) }

/-- Plans without repeated aliases hide nothing. -/
theorem shadowless_of_nodup (ha : (a.workers.map (·.worker.id)).Nodup) (hb : (b.workers.map (·.worker.id)).Nodup) :
    Shadowless a b := by
  have honly : ∀ {plan : StartupPlan}, (plan.workers.map (·.worker.id)).Nodup → ∀ w,
      w ∈ plan.workers ↔ plan.definition w.worker.id = some w := by
    intro plan hplan w
    constructor
    · intro hw
      obtain ⟨v, hv⟩ := (definition_isSome_iff plan _).mpr ⟨w, hw, rfl⟩
      obtain ⟨hmem, hid⟩ := definition_mem hv
      rw [hv, List.inj_on_of_nodup_map hplan hmem hw hid]
    · exact fun hw => (definition_mem hw).1
  rintro _ heq w rfl
  rw [honly ha, honly hb, heq]

end

/-! ## A repeated alias -/

def repeatedWorker (port : Nat) : PlannedWorker where
  worker :=
    { id := "chat", model := ⟨"chat", "/models/chat.gguf", "chat", none, 1⟩, bindHost := "127.0.0.1", port := port,
      contextSize := 4096, backend := .cpu }
  launch := .candleNative
  execution := .cpu
  command := ⟨"<in-process:candle-native>", ["--model", "/models/chat.gguf", "--ctx-size", "4096"], []⟩

/-- The first of two workers of one alias is gone in the next plan, and the difference says
that nothing has changed. -/
theorem repeated_not_partitions :
    (StartupPlan.diff ⟨[repeatedWorker 19000, repeatedWorker 19001]⟩ ⟨[repeatedWorker 19001]⟩).unchanged = ["chat"] ∧
      ¬ Partitions ⟨[repeatedWorker 19000, repeatedWorker 19001]⟩ ⟨[repeatedWorker 19001]⟩ := by
  refine ⟨by decide +kernel, fun h => ?_⟩
  have hreported := h.reported (repeatedWorker 19000) (by decide)
  revert hreported
  decide +kernel

end Llmctl.Plan
