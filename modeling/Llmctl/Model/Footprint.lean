import Llmctl.Model.Files
import Llmctl.Server.Script

/-!
# The budget of a hot swap

A hot swap is kept where the two models fit the budget together. Their sizes are taken from
the metadata of their paths, which for a directory do not speak of the files in it.
-/

namespace Llmctl.Model

/-- `model_artifact_len` -/
def modelArtifactLen (node : Node) : Option Nat :=
  match node.resolve with
  | some (.file bytes) => some bytes.length
  | some (.dir _ entries) =>
    some ((entries.filterMap fun entry => entry.2.regular).foldl (fun total bytes => saturatingAdd total bytes.length) 0)
  | _ => none

/-- `model_footprint_bytes` -/
def modelFootprintBytes (node : Node) : Option Nat := node.metadataLen.filter fun len => decide (0 < len)

/-- The regular files of an artifact, with no bound on the sum. -/
def artifactSize (node : Node) : Nat :=
  match node.resolve with
  | some (.file bytes) => bytes.length
  | some (.dir _ entries) => ((entries.filterMap fun entry => entry.2.regular).map List.length).sum
  | _ => 0

theorem foldl_saturatingAdd (files : List (List UInt8)) (start : Nat) :
    files.foldl (fun total bytes => saturatingAdd total bytes.length) (min start (2 ^ 64 - 1)) =
      min (start + (files.map List.length).sum) (2 ^ 64 - 1) := by
  induction files generalizing start with
  | nil => rfl
  | cons bytes files ih =>
    rw [List.foldl_cons, List.map_cons, List.sum_cons, ← Nat.add_assoc, ← ih]
    congr 1
    unfold saturatingAdd
    omega

/-- The size is what `model_artifact_len` counts, while that fits 64 bits. -/
theorem modelArtifactLen_eq {node : Node} {len : Nat} (h : modelArtifactLen node = some len) (hlen : artifactSize node < 2 ^ 64) :
    len = artifactSize node := by
  unfold modelArtifactLen at h
  unfold artifactSize at hlen ⊢
  cases hnode : node.resolve with
  | none =>
    rw [hnode] at h
    cases h
  | some target =>
    rw [hnode] at h hlen
    cases target with
    | file bytes =>
      cases h
      rfl
    | dir entrySize entries =>
      have hsum := foldl_saturatingAdd (entries.filterMap fun entry => entry.2.regular) 0
      rw [Nat.zero_min, Nat.zero_add] at hsum
      cases h
      dsimp only at hlen ⊢
      rw [hsum]
      omega
    | link target => cases h
    | dangling => cases h

/-- A file is as large as its metadata say. -/
theorem artifactSize_file {node : Node} (h : node.isFile = true) : node.metadataLen = some (artifactSize node) := by
  unfold Node.isFile at h
  unfold Node.metadataLen artifactSize
  split at h
  · rename_i hnode
    rw [hnode]
  · cases h

/-- The server with the files of its models on disk, and with a budget. -/
def sizedBy (st : ServerState) (disk : ModelConfig → Option Node) (budgetBytes : Nat) : ServerState :=
  { st with
    modelFootprintBytes := fun model => (disk model).bind modelFootprintBytes
    swapResourceBudgetBytes := fun _ => some budgetBytes }

/-- A budget is kept by both models together exactly where their paths are as large as their files. -/
theorem hot_swap_budget_iff (st : ServerState) (disk : ModelConfig → Option Node) {active : String}
    {activePlanned replacement : PlannedWorker} {a r : Node}
    (hactive : (StartupPlan.fromConfig st.host st.cfg).find? (fun planned => planned.worker.id == active) = some activePlanned)
    (ha : disk activePlanned.worker.model = some a) (hr : disk replacement.worker.model = some r) :
    (∀ budgetBytes < 2 ^ 64, ∀ budget, swapBudget (sizedBy st disk budgetBytes) active replacement = some budget →
        effectiveMode .hot (some budget) = .hot → artifactSize a + artifactSize r ≤ budgetBytes) ↔
      ∀ activeBytes replacementBytes, modelFootprintBytes a = some activeBytes →
        modelFootprintBytes r = some replacementBytes →
          artifactSize a + artifactSize r ≤ activeBytes + replacementBytes ∧ artifactSize a + artifactSize r < 2 ^ 64 := by
  have hbudget (budgetBytes : Nat) (budget : SwapBudget) :
      swapBudget (sizedBy st disk budgetBytes) active replacement = some budget ↔
        ∃ activeBytes replacementBytes, modelFootprintBytes a = some activeBytes ∧ modelFootprintBytes r = some replacementBytes ∧
          ⟨activeBytes, replacementBytes, budgetBytes⟩ = budget := by
    simp [swapBudget, sizedBy, hactive, ha, hr, Option.bind_eq_some_iff]
  have hhot (budget : SwapBudget) : effectiveMode .hot (some budget) = .hot ↔
      min (budget.activeBytes + budget.replacementBytes) (2 ^ 64 - 1) ≤ budget.budgetBytes := by
    by_cases hfits : budget.hotSwapFits = true
    · exact iff_of_true (by rw [effectiveMode, if_pos hfits]) (of_decide_eq_true hfits)
    · exact iff_of_false (by simp [effectiveMode, hfits]) fun h => hfits (decide_eq_true h)
  constructor
  · intro h activeBytes replacementBytes hactiveBytes hreplacementBytes
    have hleast := h (min (activeBytes + replacementBytes) (2 ^ 64 - 1)) (by omega) _
      ((hbudget _ _).mpr ⟨activeBytes, replacementBytes, hactiveBytes, hreplacementBytes, rfl⟩) ((hhot _).mpr le_rfl)
    omega
  · intro h budgetBytes hbound budget hsome hkept
    obtain ⟨activeBytes, replacementBytes, hactiveBytes, hreplacementBytes, rfl⟩ := (hbudget _ _).mp hsome
    have hfits := (hhot _).mp hkept
    obtain ⟨hsum, hlt⟩ := h activeBytes replacementBytes hactiveBytes hreplacementBytes
    dsimp only at hfits
    omega

/-- A node with two models, the second to be swapped in. -/
def hotSwapNode : ServerState :=
  { oneModelNode with cfg := { oneModel with mode := .hotSwap, models := [qwen, { qwen with alias_ := "glm" }] } }

def plannedQwen : PlannedWorker := ⟨.fromConfig qwen oneModel.server 0, .llamaServerSubprocess "llama-server"⟩

def plannedGlm : PlannedWorker := ⟨.fromConfig { qwen with alias_ := "glm" } oneModel.server 1, .llamaServerSubprocess "llama-server"⟩

theorem planned_qwen : (StartupPlan.fromConfig hotSwapNode.host hotSwapNode.cfg).find? (fun planned => planned.worker.id == "qwen") =
    some plannedQwen := by decide +kernel

def diskOf (active replacement : Node) (model : ModelConfig) : Option Node :=
  some (if model.alias_ = "qwen" then active else replacement)

theorem files_fit : artifactSize (.file [1, 2]) = 2 ∧
    ∀ budgetBytes < 2 ^ 64, ∀ budget,
      swapBudget (sizedBy hotSwapNode (diskOf (.file [1, 2]) (.file [3])) budgetBytes) "qwen" plannedGlm = some budget →
        effectiveMode .hot (some budget) = .hot → artifactSize (.file [1, 2]) + artifactSize (.file [3]) ≤ budgetBytes := by
  have ha : diskOf (.file [1, 2]) (.file [3]) plannedQwen.worker.model = some (.file [1, 2]) := rfl
  have hr : diskOf (.file [1, 2]) (.file [3]) plannedGlm.worker.model = some (.file [3]) := rfl
  refine ⟨rfl, (hot_swap_budget_iff hotSwapNode _ planned_qwen ha hr).mpr ?_⟩
  rintro _ _ ⟨⟩ ⟨⟩
  decide

/-- A directory with one weight file of three bytes. -/
def shardedModel : Node := .dir 1 [([119], .file [1, 2, 3])]

/-- The directory counts for the size of its entry, and a budget of three bytes is taken to hold five. -/
theorem directory_overfits : ∃ budget,
    swapBudget (sizedBy hotSwapNode (diskOf (.file [1, 2]) shardedModel) 3) "qwen" plannedGlm = some budget ∧
      effectiveMode .hot (some budget) = .hot ∧ ¬ artifactSize (.file [1, 2]) + artifactSize shardedModel ≤ 3 :=
  ⟨⟨2, 1, 3⟩, by decide +kernel, by decide, by decide⟩

end Llmctl.Model
