import Llmctl.RoutingSound
import Mathlib.Data.Nat.Count

/-!
# Weighted routing

The loop of `weighted_model_for_request` walks over the shares of the models, which
lie next to each other from zero on. Every slot below their sum falls into one share,
and a share has as many slots as its model has weight.
-/

namespace Llmctl

/-- The position of the model whose share `slot` falls into. -/
def slotIndex : List ModelConfig → Nat → Nat
  | [], _ => 0
  | model :: models, slot => if slot < model.weight then 0 else slotIndex models (slot - model.weight) + 1

theorem modelAtSlot_eq (models : List ModelConfig) (slot : Nat) : modelAtSlot models slot = models[slotIndex models slot]? := by
  induction models generalizing slot with
  | nil => rfl
  | cons model models ih =>
    unfold modelAtSlot slotIndex
    by_cases h : slot < model.weight
    · simp [h]
    · simp only [h, ite_false, List.getElem?_cons_succ]
      exact ih (slot - model.weight)

/-- A share holds as many slots as its model has weight. -/
theorem count_slotIndex (models : List ModelConfig) (i : Nat) (h : i < models.length) :
    Nat.count (fun slot => slotIndex models slot = i) (models.map (·.weight)).sum = models[i].weight := by
  induction models generalizing i with
  | nil => cases h
  | cons model models ih =>
    rw [List.map_cons, List.sum_cons, Nat.count_add]
    have own (slot : Nat) (hslot : slot < model.weight) : slotIndex (model :: models) slot = 0 := by
      unfold slotIndex
      exact if_pos hslot
    have later (slot : Nat) : slotIndex (model :: models) (model.weight + slot) = slotIndex models slot + 1 := by
      rw [slotIndex, if_neg (by omega), Nat.add_sub_cancel_left]
    simp only [later]
    cases i with
    | zero =>
      have hown : Nat.count (fun slot => slotIndex (model :: models) slot = 0) model.weight = model.weight :=
        Nat.count_iff_forall.mpr own
      rw [hown]
      simp
    | succ i =>
      have hown : Nat.count (fun slot => slotIndex (model :: models) slot = i + 1) model.weight = 0 := by
        rw [Nat.count_iff_forall_not]
        intro slot hslot
        rw [own slot hslot]
        exact nofun
      rw [hown, Nat.zero_add]
      simp only [Nat.add_right_cancel_iff, List.getElem_cons_succ]
      exact ih i (Nat.lt_of_succ_lt_succ h)

/-- Models whose shares start past a slot play no part in it. -/
theorem modelAtSlot_append {before models : List ModelConfig} {slot : Nat} (h : slot < (before.map (·.weight)).sum) :
    modelAtSlot (before ++ models) slot = modelAtSlot before slot := by
  induction before generalizing slot with
  | nil => cases h
  | cons model before ih =>
    rw [List.map_cons, List.sum_cons] at h
    rw [List.cons_append, modelAtSlot, modelAtSlot]
    by_cases hslot : slot < model.weight
    · rw [if_pos hslot, if_pos hslot]
    · rw [if_neg hslot, if_neg hslot, ih (by omega)]

/-! ## The choice for a request -/

section
variable (cfg : Config)

/-- The models that take part: routed to this node, with some weight. -/
def weightedModels : List ModelConfig :=
  cfg.models.filter fun model => decide (0 < model.weight) && modelIsRoutedLocally cfg model

def localWeight : Nat := ((weightedModels cfg).map (·.weight)).sum

theorem weightedModelForRequest_eq (h : 0 < localWeight cfg) (requestId : Nat) :
    weightedModelForRequest cfg requestId =
      modelAtSlot (weightedModels cfg) (requestId % min (localWeight cfg) (2 ^ 64 - 1)) := by
  have htotal := total_eq (weightedModels cfg) 0
  rw [Nat.zero_min, Nat.zero_add] at htotal
  unfold weightedModelForRequest
  simp only [show cfg.models.filter (fun model => decide (0 < model.weight) && modelIsRoutedLocally cfg model) =
    weightedModels cfg from rfl, htotal]
  refine if_neg ?_
  unfold localWeight at h
  omega

/-- Every request gets a model of this node that has weight. While the total fits 64
bits, each of them is chosen by as many residues of the id as it has weight. -/
theorem weightedModelForRequest_exact (h : 0 < localWeight cfg) :
    (∀ requestId, ∃ model ∈ cfg.models, 0 < model.weight ∧ modelIsRoutedLocally cfg model = true ∧
        weightedModelForRequest cfg requestId = some model) ∧
      (localWeight cfg < 2 ^ 64 →
        (∀ requestId, weightedModelForRequest cfg requestId =
          (weightedModels cfg)[slotIndex (weightedModels cfg) (requestId % localWeight cfg)]?) ∧
        ∀ (i : Nat) (hi : i < (weightedModels cfg).length),
          Nat.count (fun residue => slotIndex (weightedModels cfg) residue = i) (localWeight cfg) =
            (weightedModels cfg)[i].weight) := by
  refine ⟨fun requestId => ?_, fun hfits => ⟨fun requestId => ?_, fun i hi => count_slotIndex _ i hi⟩⟩
  · have hslot : requestId % min (localWeight cfg) (2 ^ 64 - 1) < ((weightedModels cfg).map (·.weight)).sum :=
      (Nat.mod_lt _ (by omega)).trans_le (Nat.min_le_left _ _)
    obtain ⟨model, hmodel, hsome, hweight⟩ := modelAtSlot_isSome _ _ hslot
    obtain ⟨hmem, hlocal⟩ := List.mem_filter.mp hmodel
    rw [Bool.and_eq_true] at hlocal
    exact ⟨model, hmem, hweight, hlocal.2, (weightedModelForRequest_eq cfg h requestId).trans hsome⟩
  · rw [weightedModelForRequest_eq cfg h, Nat.min_eq_left (by omega), modelAtSlot_eq]

theorem modelIsRoutedLocally_single (h : cfg.cluster.nodes = []) {model : ModelConfig} (hmodel : model ∈ cfg.models) :
    modelIsRoutedLocally cfg model = true := by
  have hany : (cfg.models.map (·.alias_)).any (· == model.alias_) = true :=
    List.any_eq_true.mpr ⟨model.alias_, List.mem_map_of_mem hmodel, beq_self_eq_true _⟩
  simp [modelIsRoutedLocally, placementPlanFromConfig, placementNodes, h, hany]

end

theorem weightedModelForRequest_twoWeights : weightedModelForRequest (stoppedChat .weighted) 7 = some codeModel ∧
    ∃ model ∈ (stoppedChat .weighted).models, 0 < model.weight ∧
      modelIsRoutedLocally (stoppedChat .weighted) model = true ∧
      weightedModelForRequest (stoppedChat .weighted) 7 = some model :=
  ⟨by decide +kernel, (weightedModelForRequest_exact (stoppedChat .weighted) (by decide +kernel)).1 7⟩

/-- `n` models of the largest weight, and one of weight one behind them. -/
def crowded (n : Nat) : Config :=
  { stoppedChat .weighted with
    models := List.replicate n { chatModel with weight := 2 ^ 32 - 1 } ++ [{ codeModel with weight := 1 }] }

theorem weightedModels_crowded (n : Nat) : weightedModels (crowded n) = (crowded n).models := by
  apply List.filter_eq_self.mpr
  intro model hmodel
  have hlocal : modelIsRoutedLocally (crowded n) model = true := modelIsRoutedLocally_single (crowded n) rfl hmodel
  have hweight : 0 < model.weight := by
    cases List.mem_append.mp hmodel with
    | inl hmodel =>
      rw [List.eq_of_mem_replicate hmodel]
      exact Nat.zero_lt_succ _
    | inr hmodel =>
      rw [List.mem_singleton.mp hmodel]
      exact Nat.zero_lt_one
  rw [hlocal, decide_eq_true hweight]
  rfl

theorem localWeight_crowded (n : Nat) : localWeight (crowded n) = n * (2 ^ 32 - 1) + 1 := by
  unfold localWeight
  rw [weightedModels_crowded, crowded, List.map_append, List.map_replicate, List.sum_append, List.sum_replicate_nat]
  rfl

/-- The share of the last model lies past a total that saturates. -/
theorem crowded_last {n : Nat} (h : 2 ^ 64 - 1 ≤ n * (2 ^ 32 - 1)) (requestId : Nat) :
    weightedModelForRequest (crowded n) requestId ≠ some { codeModel with weight := 1 } := by
  intro hlast
  have hpos : 0 < localWeight (crowded n) := by
    rw [localWeight_crowded]
    omega
  have hslot : requestId % min (localWeight (crowded n)) (2 ^ 64 - 1) < n * (2 ^ 32 - 1) := by
    rw [localWeight_crowded]
    exact (Nat.mod_lt _ (by omega)).trans_le (by omega)
  rw [weightedModelForRequest_eq (crowded n) hpos, weightedModels_crowded, crowded] at hlast
  rw [modelAtSlot_append (by rwa [List.map_replicate, List.sum_replicate_nat]), modelAtSlot_eq] at hlast
  have hmem := List.eq_of_mem_replicate (List.mem_of_getElem? hlast)
  exact absurd (congrArg ModelConfig.weight hmem) (by decide)

/-- With `2 ^ 32 + 1` models in front the total is `2 ^ 64`, and no request gets the last one. -/
theorem weightedModelForRequest_crowded :
    { codeModel with weight := 1 } ∈ weightedModels (crowded (2 ^ 32 + 1)) ∧ localWeight (crowded (2 ^ 32 + 1)) = 2 ^ 64 ∧
      ∀ requestId, weightedModelForRequest (crowded (2 ^ 32 + 1)) requestId ≠ some { codeModel with weight := 1 } := by
  refine ⟨?_, ?_, crowded_last (by decide)⟩
  · rw [weightedModels_crowded]
    exact List.mem_append_right _ (List.mem_singleton_self _)
  · rw [localWeight_crowded]
    omega

end Llmctl
