import Llmctl.Routing

/-!
# Placement and routes

A checked plan gives each model to one entry of the node list. The node itself is found by
its id, and an id may stand for several entries.
-/

namespace Llmctl

/-! ## Owners -/

def owns (modelAlias : String) (node : NativePlacementNode) : Bool := node.modelAliases.any (· == modelAlias)

/-- What the node makes of the model when it runs the configuration under its own id. -/
def routedOn (cfg : Config) (model : ModelConfig) (node : NativePlacementNode) : Bool :=
  modelIsRoutedLocally { cfg with cluster := { cfg.cluster with nodeId := node.id } } model

section
variable {nodes : List NativePlacementNode} {k : String}

theorem owns_iff {node : NativePlacementNode} : owns k node = true ↔ k ∈ node.modelAliases := by
  simp only [owns, List.any_eq_true, beq_iff_eq, exists_eq_right]

theorem owners_le (nodes : List NativePlacementNode) (k : String) :
    (nodes.filter (owns k)).length ≤ (modelOwners nodes k).length := by
  induction nodes with
  | nil => exact Nat.zero_le _
  | cons node nodes ih =>
    unfold modelOwners at ih ⊢
    rw [List.flatMap_cons, List.length_append, List.length_map]
    cases h : owns k node with
    | false =>
      rw [List.filter_cons_of_neg (by rw [h]; nofun)]
      omega
    | true =>
      have hone : 0 < (node.modelAliases.filter (· == k)).length :=
        List.length_pos_of_mem (List.mem_filter.mpr ⟨owns_iff.mp h, beq_self_eq_true k⟩)
      rw [List.filter_cons_of_pos h, List.length_cons]
      omega

/-- The one entry that owns the model. -/
structure Owner (nodes : List NativePlacementNode) (k : String) (owner : NativePlacementNode) : Prop where
  filter : nodes.filter (owns k) = [owner]

variable {owner : NativePlacementNode}

theorem Owner.mem (h : Owner nodes k owner) : owner ∈ nodes ∧ owns k owner = true := by
  have hmem : owner ∈ nodes.filter (owns k) := by
    rw [h.filter]
    exact List.mem_singleton_self owner
  exact List.mem_filter.mp hmem

theorem Owner.eq (h : Owner nodes k owner) {node : NativePlacementNode} (hnode : node ∈ nodes) (howns : owns k node = true) :
    node = owner := by
  have hmem := List.mem_filter.mpr ⟨hnode, howns⟩
  rw [h.filter] at hmem
  exact List.mem_singleton.mp hmem

/-- By id, either all entries under the owner's id have the model or none has. -/
theorem Owner.routed_iff (h : Owner nodes k owner) {node : NativePlacementNode} :
    (nodes.find? (·.id == node.id)).any (owns k) = true ↔
      node.id = owner.id ∧ nodes.find? (·.id == owner.id) = some owner := by
  constructor
  · intro hrouted
    obtain ⟨first, hfirst, howns⟩ := (Option.any_eq_true ..).mp hrouted
    obtain rfl := h.eq (List.mem_of_find?_eq_some hfirst) howns
    have hfound := List.find?_some hfirst
    have hid : first.id = node.id := beq_iff_eq.mp hfound
    exact ⟨hid.symm, hid ▸ hfirst⟩
  · rintro ⟨hid, hfirst⟩
    rw [hid, hfirst]
    exact h.mem.2

theorem Owner.first (h : Owner nodes k owner) (hone : nodes.countP (·.id == owner.id) = 1) :
    nodes.find? (·.id == owner.id) = some owner := by
  rw [← List.head?_filter]
  rw [List.countP_eq_length_filter] at hone
  obtain ⟨node, hnode⟩ := List.length_eq_one_iff.mp hone
  have hmem : owner ∈ nodes.filter (·.id == owner.id) := List.mem_filter.mpr ⟨h.mem.1, beq_self_eq_true _⟩
  rw [hnode] at hmem ⊢
  rw [List.mem_singleton.mp hmem, List.head?_cons]

/-- One entry has the model by id exactly when the owner's id is its own. -/
theorem Owner.routed_once_iff (h : Owner nodes k owner) :
    (nodes.countP fun node => (nodes.find? (·.id == node.id)).any (owns k)) = 1 ↔ nodes.countP (·.id == owner.id) = 1 := by
  by_cases hfirst : nodes.find? (·.id == owner.id) = some owner
  · have hcount : (nodes.countP fun node => (nodes.find? (·.id == node.id)).any (owns k)) =
        nodes.countP (·.id == owner.id) :=
      List.countP_congr fun _ _ => h.routed_iff.trans
        ⟨fun hrouted => beq_iff_eq.mpr hrouted.1, fun hid => ⟨beq_iff_eq.mp hid, hfirst⟩⟩
    rw [hcount]
  · refine iff_of_false (fun hone => ?_) fun hone => hfirst (h.first hone)
    have hpos : 0 < nodes.countP fun node => (nodes.find? (·.id == node.id)).any (owns k) := by omega
    obtain ⟨node, -, hrouted⟩ := List.countP_pos_iff.mp hpos
    exact hfirst (h.routed_iff.mp hrouted).2

theorem mem_sortedSet {items : List String} {item : String} : item ∈ sortedSet items ↔ item ∈ items := by
  unfold sortedSet
  rw [List.mem_insertionSort, List.mem_dedup]

/-- A plan that passes gives every model one owner. -/
theorem owner_of_validated {plan : NativePlacementPlan} (h : validatePlacementPlan plan = .ok ()) {node : NativePlacementNode}
    (hnode : node ∈ plan.nodes) (howns : owns k node = true) : Owner plan.nodes k node := by
  unfold validatePlacementPlan at h
  split at h
  · cases h
  split at h
  · cases h
  simp only at h
  split at h
  · cases h
  rename_i hnone
  have hmem : k ∈ sortedSet (plan.nodes.flatMap (·.modelAliases)) :=
    mem_sortedSet.mpr (List.mem_flatMap.mpr ⟨node, hnode, owns_iff.mp howns⟩)
  have hle : (modelOwners plan.nodes k).length ≤ 1 := by
    have := List.find?_eq_none.mp hnone k hmem
    rw [decide_eq_true_eq] at this
    omega
  have hfilter := List.mem_filter.mpr ⟨hnode, howns⟩
  have hlength := owners_le plan.nodes k
  have hpos := List.length_pos_of_mem hfilter
  obtain ⟨owner, howner⟩ := List.length_eq_one_iff.mp (show (plan.nodes.filter (owns k)).length = 1 by omega)
  rw [howner] at hfilter
  exact ⟨List.mem_singleton.mp hfilter ▸ howner⟩

theorem unassigned_of_validated {plan : NativePlacementPlan} (h : validatePlacementPlan plan = .ok ()) :
    plan.unassignedModels = [] := by
  unfold validatePlacementPlan at h
  split at h
  · cases h
  · rename_i hempty
    rw [Bool.not_eq_true', Bool.not_eq_false] at hempty
    exact List.isEmpty_iff.mp hempty

end

section
variable {cfg : Config}

/-- Every configured model is on some node. -/
theorem owned_of_validated (h : validatePlacementPlan (placementPlanFromConfig cfg) = .ok ()) {model : ModelConfig}
    (hmodel : model ∈ cfg.models) : ∃ node ∈ placementNodes cfg, owns model.alias_ node = true := by
  have hunassigned := unassigned_of_validated h
  by_contra hno
  have hmem : model.alias_ ∈ (placementPlanFromConfig cfg).unassignedModels := by
    refine List.mem_map.mpr ⟨model, List.mem_filter.mpr ⟨hmodel, ?_⟩, rfl⟩
    rw [Bool.not_eq_true', List.contains_eq_mem, decide_eq_false_iff_not]
    intro hassigned
    obtain ⟨node, hnode, hk⟩ := List.mem_flatMap.mp hassigned
    exact hno ⟨node, hnode, owns_iff.mpr hk⟩
  rw [hunassigned] at hmem
  cases hmem

/-- Nodes have configured models only. -/
theorem model_of_owns {node : NativePlacementNode} (hnode : node ∈ placementNodes cfg) {k : String}
    (hk : k ∈ node.modelAliases) : ∃ model ∈ cfg.models, model.alias_ = k := by
  unfold placementNodes at hnode
  split at hnode
  · rw [List.mem_singleton] at hnode
    rw [hnode] at hk
    exact List.mem_map.mp hk
  · obtain ⟨node', -, rfl⟩ := List.mem_map.mp hnode
    obtain ⟨model, hmodel, rfl⟩ := List.mem_map.mp hk
    exact ⟨model, List.mem_of_mem_filter hmodel, rfl⟩

theorem routedOn_eq {node : NativePlacementNode} (hnode : node ∈ placementNodes cfg) (model : ModelConfig) :
    routedOn cfg model node = ((placementNodes cfg).find? (·.id == node.id)).any (owns model.alias_) := by
  have hnodes : placementNodes { cfg with cluster := { cfg.cluster with nodeId := node.id } } = placementNodes cfg := by
    unfold placementNodes at hnode ⊢
    split
    · rename_i hempty
      rw [if_pos hempty, List.mem_singleton] at hnode
      rw [hnode]
    · rfl
  unfold routedOn modelIsRoutedLocally placementPlanFromConfig
  simp only [hnodes]
  cases (placementNodes cfg).find? (·.id == node.id) <;> rfl

end

/-- One candidate for each model, and one entry whose node takes the model for its own. -/
def PlacedOnce (cfg : Config) (model : ModelConfig) : Prop :=
  (∃ selection, routeSelectionForModel (placementPlanFromConfig cfg) model.alias_ = .ok selection ∧
      selection.candidates.length = 1) ∧
    (placementNodes cfg).countP (routedOn cfg model) = 1

theorem placed_once_iff (cfg : Config) (h : validatePlacementPlan (placementPlanFromConfig cfg) = .ok ()) :
    (∀ model ∈ cfg.models, PlacedOnce cfg model) ↔
      ∀ node ∈ placementNodes cfg, node.modelAliases ≠ [] → (placementNodes cfg).countP (·.id == node.id) = 1 := by
  have hrouted (model : ModelConfig) : (placementNodes cfg).countP (routedOn cfg model) =
      (placementNodes cfg).countP fun node => ((placementNodes cfg).find? (·.id == node.id)).any (owns model.alias_) :=
    List.countP_congr fun node hnode => by rw [routedOn_eq hnode]
  constructor
  · intro hplaced node hnode hne
    obtain ⟨k, hk⟩ := List.exists_mem_of_ne_nil _ hne
    obtain ⟨model, hmodel, rfl⟩ := model_of_owns hnode hk
    have howner : Owner (placementNodes cfg) model.alias_ node := owner_of_validated h hnode (owns_iff.mpr hk)
    rw [← howner.routed_once_iff, ← hrouted]
    exact (hplaced model hmodel).2
  · intro hids model hmodel
    obtain ⟨node, hnode, howns⟩ := owned_of_validated h hmodel
    have howner : Owner (placementNodes cfg) model.alias_ node := owner_of_validated h hnode howns
    constructor
    · refine ⟨⟨s!"model:{model.alias_}", [node]⟩, ?_, rfl⟩
      have hcandidates : ((placementPlanFromConfig cfg).nodes.filter fun node =>
          node.modelAliases.any (· == model.alias_)) = [node] := howner.filter
      unfold routeSelectionForModel
      rw [hcandidates]
      rfl
    · rw [hrouted, howner.routed_once_iff]
      exact hids node hnode (List.ne_nil_of_mem (owns_iff.mp howns))

def chatModel : ModelConfig where
  alias_ := "chat"
  role := "query"
  weight := 1

def codeModel : ModelConfig where
  alias_ := "code"
  role := "coding"
  weight := 1

/-- Two entries of a cluster, one for each model. -/
def twoNodes (id other : String) : Config where
  mode := .single
  server :=
    { host := "127.0.0.1"
      port := 8765
      workerBasePort := 9000
      upstreamTimeoutSeconds := 60
      circuitBreakerFailures := 1
      circuitBreakerResetSeconds := 1 }
  models := [chatModel, codeModel]
  resources := { cpuOnly := true, gpuVendor := "", llamaServerBin := none }
  cluster := { nodeId := id, nodes := [⟨id, "http://10.0.0.1/v1", ["query"], []⟩, ⟨other, "http://10.0.0.2/v1", [], ["code"]⟩] }
  quotas := []
  externalProviderRoutes := []
  embeddings := { mode := .semantic, modelAlias := none }
  scheduler := { maxConcurrentRequests := 1, maxQueuedRequests := 8 }

theorem placed_once_of_ids : (twoNodes "east" "west").models = [chatModel, codeModel] ∧
    ∀ model ∈ (twoNodes "east" "west").models, PlacedOnce (twoNodes "east" "west") model :=
  ⟨rfl, (placed_once_iff (twoNodes "east" "west") (by decide +kernel)).mpr (by decide +kernel)⟩

/-- With one id for both entries the plan passes, and no node takes `code` for its own. -/
theorem same_id_unrouted : validatePlacementPlan (placementPlanFromConfig (twoNodes "local" "local")) = .ok () ∧
    ¬ ∀ model ∈ (twoNodes "local" "local").models, PlacedOnce (twoNodes "local" "local") model := by
  refine ⟨by decide +kernel, fun h => ?_⟩
  have hcode := (h codeModel (by decide +kernel)).2
  revert hcode
  decide +kernel

/-! ## Routes -/

/-- The alias has a worker in the startup plan. -/
def Planned (host : Host) (cfg : Config) (k : String) : Prop :=
  ∃ planned ∈ StartupPlan.fromConfig host cfg, planned.worker.model.alias_ = k

section
variable {host : Host} {cfg : Config} {k : String}

theorem planned_iff : Planned host cfg k ↔ ∃ model ∈ cfg.models, 0 < model.weight ∧ model.alias_ = k := by
  unfold Planned StartupPlan.fromConfig
  constructor
  · rintro ⟨planned, hplanned, rfl⟩
    obtain ⟨index, hindex, rfl⟩ := List.mem_mapIdx.mp hplanned
    have hmem := List.mem_filter.mp (List.getElem_mem hindex)
    exact ⟨_, hmem.1, of_decide_eq_true hmem.2, rfl⟩
  · rintro ⟨model, hmodel, hweight, rfl⟩
    obtain ⟨index, hindex, hget⟩ := List.getElem_of_mem
      ((List.mem_filter (p := fun model : ModelConfig => decide (0 < model.weight))).mpr ⟨hmodel, decide_eq_true hweight⟩)
    exact ⟨_, List.mem_mapIdx.mpr ⟨index, hindex, rfl⟩, congrArg ModelConfig.alias_ hget⟩

/-- A slot below the sum of the weights falls into the share of a model. -/
theorem modelAtSlot_isSome : ∀ (models : List ModelConfig) (slot : Nat), slot < (models.map (·.weight)).sum →
    ∃ model ∈ models, modelAtSlot models slot = some model ∧ 0 < model.weight
  | [], _, h => absurd h (Nat.not_lt_zero _)
  | model :: models, slot, h => by
    rw [List.map_cons, List.sum_cons] at h
    unfold modelAtSlot
    split
    · exact ⟨model, List.mem_cons_self, rfl, by omega⟩
    · obtain ⟨other, hother, hsome, hweight⟩ := modelAtSlot_isSome models (slot - model.weight) (by omega)
      exact ⟨other, List.mem_cons_of_mem _ hother, hsome, hweight⟩

/-- The total is that of the weights, up to the largest 64-bit number. -/
theorem total_eq (models : List ModelConfig) (start : Nat) :
    models.foldl (fun total model => min (total + model.weight) (2 ^ 64 - 1)) (min start (2 ^ 64 - 1)) =
      min (start + (models.map (·.weight)).sum) (2 ^ 64 - 1) := by
  induction models generalizing start with
  | nil => rfl
  | cons model models ih =>
    rw [List.foldl_cons, List.map_cons, List.sum_cons, ← Nat.add_assoc, ← ih]
    congr 1
    omega

theorem weightedModel_spec (hpos : ∃ model ∈ cfg.models, 0 < model.weight ∧ modelIsRoutedLocally cfg model = true)
    (requestId : Nat) : ∃ model ∈ cfg.models, weightedModelForRequest cfg requestId = some model ∧ 0 < model.weight := by
  obtain ⟨model, hmodel, hweight, hlocal⟩ := hpos
  unfold weightedModelForRequest
  generalize hw : (cfg.models.filter fun model => decide (0 < model.weight) && modelIsRoutedLocally cfg model) = weighted
  have hmem : model ∈ weighted := by
    rw [← hw]
    exact List.mem_filter.mpr ⟨hmodel, by rw [hlocal, decide_eq_true hweight]; rfl⟩
  have hsum : 0 < (weighted.map (·.weight)).sum := by
    obtain ⟨before, after, hsplit⟩ := List.append_of_mem hmem
    rw [hsplit, List.map_append, List.map_cons, List.sum_append, List.sum_cons]
    omega
  have htotal := total_eq weighted 0
  rw [Nat.zero_min, Nat.zero_add] at htotal
  have hne : ¬ min (weighted.map (·.weight)).sum (2 ^ 64 - 1) = 0 := by omega
  simp only [htotal, hne, if_false]
  have hslot : requestId % min (weighted.map (·.weight)).sum (2 ^ 64 - 1) < (weighted.map (·.weight)).sum :=
    (Nat.mod_lt _ (by omega)).trans_le (Nat.min_le_left _ _)
  obtain ⟨chosen, hchosen, hsome, hpositive⟩ := modelAtSlot_isSome _ _ hslot
  rw [← hw] at hchosen
  exact ⟨chosen, List.mem_of_mem_filter hchosen, hsome, hpositive⟩

theorem mem_fallbackAliases {selected : String} : k ∈ fallbackAliases cfg selected ↔
    k ≠ selected ∧ ∃ model ∈ cfg.models, modelIsRoutedLocally cfg model = true ∧ model.alias_ = k := by
  simp only [fallbackAliases, routedModels, List.mem_map, List.mem_insertionSort, List.mem_filter, bne_iff_ne]
  constructor
  · rintro ⟨model, ⟨⟨hmodel, hlocal⟩, hne⟩, rfl⟩
    exact ⟨hne, model, hmodel, hlocal, rfl⟩
  · rintro ⟨hne, model, hmodel, hlocal, rfl⟩
    exact ⟨model, ⟨⟨hmodel, hlocal⟩, hne⟩, rfl⟩

theorem resolveModelRoute_ok {requestedAlias : String} {requestId : Nat} {route : ResolvedModelRoute} (hne : cfg.models ≠ [])
    (h : resolveModelRoute cfg requestedAlias requestId = .ok route) :
    ∃ requested ∈ cfg.models, ∃ upstream, selectUpstream cfg requested requestId = some upstream ∧
      route.upstreamAlias = upstream.alias_ ∧
      route.fallbackAliases = if cfg.mode = .fallback then fallbackAliases cfg upstream.alias_ else [] := by
  unfold resolveModelRoute at h
  rw [if_neg (by rwa [List.isEmpty_iff])] at h
  split at h
  · cases h
  · rename_i requested hrequested
    split at h
    · cases h
    · rename_i upstream hupstream
      split at h
      · cases h
      · cases h
        exact ⟨requested, List.mem_of_find?_eq_some hrequested, upstream, hupstream, rfl, rfl⟩

end

def HasWeight (cfg : Config) (k : String) : Prop := ∃ model ∈ cfg.models, 0 < model.weight ∧ model.alias_ = k

/-- In single mode the first model of the node has weight, in fallback mode each one. -/
def LocalWeights (cfg : Config) : Prop :=
  (cfg.mode = .single → ∀ model, cfg.models.find? (modelIsRoutedLocally cfg) = some model → HasWeight cfg model.alias_) ∧
    (cfg.mode = .fallback → ∀ model ∈ cfg.models, modelIsRoutedLocally cfg model = true → HasWeight cfg model.alias_)

theorem route_planned_iff (host : Host) (cfg : Config)
    (hmode : cfg.mode = .single ∨ cfg.mode = .weighted ∨ cfg.mode = .fallback)
    (hpos : ∃ model ∈ cfg.models, 0 < model.weight ∧ modelIsRoutedLocally cfg model = true)
    {requestedAlias : String} {requestId : Nat} {route : ResolvedModelRoute}
    (h : resolveModelRoute cfg requestedAlias requestId = .ok route) :
    ((HasWeight cfg route.upstreamAlias ∧ Planned host cfg route.upstreamAlias) ∧
        (cfg.mode = .fallback → ∀ k ∈ route.fallbackAliases, HasWeight cfg k ∧ Planned host cfg k)) ↔
      LocalWeights cfg := by
  have hweight (k : String) : HasWeight cfg k ∧ Planned host cfg k ↔ HasWeight cfg k :=
    and_iff_left_of_imp fun hk => planned_iff.mpr hk
  simp only [hweight]
  obtain ⟨requested, hrequested, upstream, hupstream, hroute, hfallbacks⟩ :=
    resolveModelRoute_ok (List.ne_nil_of_mem hpos.choose_spec.1) h
  obtain ⟨weighted, hmem, hweighted, hpositive⟩ := weightedModel_spec hpos requestId
  unfold selectUpstream at hupstream
  unfold LocalWeights
  rw [hroute]
  rcases hmode with hmode | hmode | hmode
  · rw [hmode] at hupstream ⊢
    constructor
    · rintro ⟨hk, -⟩
      refine ⟨fun _ model hmodel => ?_, nofun⟩
      cases hmodel.symm.trans hupstream
      exact hk
    · rintro ⟨hfirst, -⟩
      exact ⟨hfirst rfl upstream hupstream, nofun⟩
  · rw [hmode] at hupstream ⊢
    simp only [hweighted, Option.getD_some] at hupstream
    cases hupstream
    exact iff_of_true ⟨⟨upstream, hmem, hpositive, rfl⟩, nofun⟩ ⟨nofun, nofun⟩
  · have hk : HasWeight cfg upstream.alias_ := by
      rw [hmode] at hupstream
      simp only [hweighted, Option.getD_some] at hupstream
      split at hupstream
      · rename_i hlocal
        cases hupstream
        exact ⟨requested, hrequested, hlocal, rfl⟩
      · cases hupstream
        exact ⟨upstream, hmem, hpositive, rfl⟩
    rw [hfallbacks, if_pos hmode, hmode]
    constructor
    · rintro ⟨-, hall⟩
      refine ⟨nofun, fun _ model hmodel hlocal => ?_⟩
      by_cases he : model.alias_ = upstream.alias_
      · rw [he]
        exact hk
      · exact hall rfl _ (mem_fallbackAliases.mpr ⟨he, model, hmodel, hlocal, rfl⟩)
    · rintro ⟨-, hall⟩
      refine ⟨hk, fun _ k hmem => ?_⟩
      obtain ⟨-, model, hmodel, hlocal, rfl⟩ := mem_fallbackAliases.mp hmem
      exact hall rfl model hmodel hlocal

def plainHost : Host where
  llamaCppNative := false
  findLlamaServer _ := none

/-- One node with the models `chat` and `code`; only `code` has weight. -/
def stoppedChat (mode : Mode) : Config :=
  { twoNodes "local" "local" with
    mode
    models := [{ chatModel with weight := 0 }, codeModel]
    cluster := { nodeId := "local", nodes := [] } }

theorem weighted_route_planned : resolveModelRoute (stoppedChat .weighted) "chat" 7 = .ok ⟨"chat", "code", [], none⟩ ∧
    HasWeight (stoppedChat .weighted) "code" ∧ Planned plainHost (stoppedChat .weighted) "code" := by
  have hroute : resolveModelRoute (stoppedChat .weighted) "chat" 7 = .ok ⟨"chat", "code", [], none⟩ := by decide +kernel
  have hplanned := (route_planned_iff plainHost (stoppedChat .weighted) (.inr (.inl rfl))
    ⟨codeModel, by decide +kernel⟩ hroute).mpr ⟨nofun, nofun⟩
  exact ⟨hroute, hplanned.1⟩

/-- Single mode sends a request for `code` to `chat`, which has no worker. -/
theorem single_route_unplanned : (∃ model ∈ (stoppedChat .single).models, 0 < model.weight ∧
      modelIsRoutedLocally (stoppedChat .single) model = true) ∧
    resolveModelRoute (stoppedChat .single) "code" 7 = .ok ⟨"code", "chat", [], none⟩ ∧
    ¬ (HasWeight (stoppedChat .single) "chat" ∧ Planned plainHost (stoppedChat .single) "chat") := by
  refine ⟨⟨codeModel, by decide +kernel⟩, by decide +kernel, ?_⟩
  rintro ⟨⟨model, hmodel, hweight, halias⟩, -⟩
  have hno : ∀ model ∈ (stoppedChat .single).models, 0 < model.weight → model.alias_ ≠ "chat" := by decide +kernel
  exact hno model hmodel hweight halias

end Llmctl
