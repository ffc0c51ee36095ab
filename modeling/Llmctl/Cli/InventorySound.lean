import Llmctl.Cli.Inventory

/-!
# Stored models and configured models

A command writes every model that it leaves in the configuration, and no command deletes a
row. The two agree until a model is replaced under another alias.
-/

namespace Llmctl.Cli

/-- The same aliases with the same paths. -/
def ModelStores.Agree (stores : ModelStores) : Prop :=
  (stores.table.listModels.map fun row => (row.alias_, row.path)).Perm (stores.cfg.models.map fun model => (model.alias_, model.path))

/-- The command replaces a model by one with another alias. -/
def Command.renames : Command → Bool
  | .replaceModel args => !args.dryRun && args.newAlias.any (· != args.alias_)
  | _ => false

def Config.aliases (cfg : Config) : List String := cfg.models.map (·.alias_)

/-! ## The table after a command -/

section
variable {table : ModelTable} {a p : String}

theorem mem_upsertModel {model : ModelConfig} {now : Int} :
    (a, p) ∈ ((table.upsertModel model now).rows.map fun row => (row.alias_, row.path)) ↔
      (a, p) = (model.alias_, model.path) ∨ a ≠ model.alias_ ∧ (a, p) ∈ table.rows.map fun row => (row.alias_, row.path) := by
  have hmem (row : ModelInventoryRecord) :
      row ∈ upsertBy (·.alias_) ⟨model.alias_, model.path, model.role, model.weight, now⟩ table.rows ↔ _ := mem_upsertBy_iff table.nodup
  rw [List.mem_map, List.mem_map]
  constructor
  · rintro ⟨row, hrow, he⟩
    cases he
    rcases (hmem row).mp hrow with rfl | ⟨hold, hne⟩
    · exact .inl rfl
    · exact .inr ⟨hne, row, hold, rfl⟩
  · rintro (he | ⟨hne, row, hold, he⟩)
    · cases he
      exact ⟨_, (hmem _).mpr (.inl rfl), rfl⟩
    · cases he
      exact ⟨row, (hmem row).mpr (.inr ⟨hold, hne⟩), rfl⟩

/-- All models are written, and the rows of other aliases stay. -/
theorem mem_persistModels {models : List ModelConfig} (hnodup : (models.map (·.alias_)).Nodup) {now : Nat → Int} :
    (a, p) ∈ ((table.persistModels now models).rows.map fun row => (row.alias_, row.path)) ↔
      (a, p) ∈ (models.map fun model => (model.alias_, model.path)) ∨
        a ∉ models.map (·.alias_) ∧ (a, p) ∈ table.rows.map fun row => (row.alias_, row.path) := by
  induction models generalizing table now with
  | nil => exact ⟨fun h => .inr ⟨List.not_mem_nil, h⟩, fun h => (h.resolve_left List.not_mem_nil).2⟩
  | cons model models ih =>
    rw [List.map_cons, List.nodup_cons] at hnodup
    rw [ModelTable.persistModels, ih hnodup.2, mem_upsertModel, List.map_cons, List.mem_cons, List.map_cons, List.mem_cons, not_or]
    constructor
    · rintro (h | ⟨hnot, h | ⟨hne, h⟩⟩)
      · exact .inl (.inr h)
      · exact .inl (.inl h)
      · exact .inr ⟨⟨hne, hnot⟩, h⟩
    · rintro ((h | h) | ⟨⟨hne, hnot⟩, h⟩)
      · refine .inr ⟨?_, .inl h⟩
        cases h
        exact hnodup.1
      · exact .inl h
      · exact .inr ⟨hnot, .inr ⟨hne, h⟩⟩

end

/-! ## The models after a command -/

section
variable {inputs : Inputs} {cfg cfg' : Config}

/-- What a command does to the aliases of a configuration. -/
structure AliasChange (aliases : List String) (command : Command) (aliases' : List String) : Prop where
  nodup : aliases'.Nodup
  kept : command.renames = false → ∀ a ∈ aliases, a ∈ aliases'
  lost : command.renames = true → ∃ a ∈ aliases, a ∉ aliases'

theorem aliases_upsertModel (models : List ModelConfig) (model : ModelConfig) : (upsertModel models model).map (·.alias_) =
    if model.alias_ ∈ models.map (·.alias_) then models.map (·.alias_) else models.map (·.alias_) ++ [model.alias_] :=
  map_upsertBy ModelConfig.alias_ model models

theorem subset_upsertModel (models : List ModelConfig) (model : ModelConfig) {a : String} (ha : a ∈ models.map (·.alias_)) :
    a ∈ (upsertModel models model).map (·.alias_) := by
  rw [aliases_upsertModel]
  split
  · exact ha
  · exact List.mem_append_left _ ha

theorem foldl_upsertModel (imported : List ModelConfig) {models : List ModelConfig} (hnodup : (models.map (·.alias_)).Nodup) :
    ((imported.foldl upsertModel models).map (·.alias_)).Nodup ∧
      ∀ a ∈ models.map (·.alias_), a ∈ (imported.foldl upsertModel models).map (·.alias_) := by
  induction imported generalizing models with
  | nil => exact ⟨hnodup, fun _ ha => ha⟩
  | cons model imported ih =>
    obtain ⟨hnodup', hsub⟩ := ih (nodup_upsertBy hnodup model)
    exact ⟨hnodup', fun a ha => hsub a (subset_upsertModel models model ha)⟩

theorem replaceModel_aliases {args : ModelReplaceArgs} (hnodup : cfg.aliases.Nodup)
    (h : replaceModel args inputs cfg = .ok (some cfg')) : AliasChange cfg.aliases (.replaceModel args) cfg'.aliases := by
  unfold replaceModel at h
  obtain ⟨previous, hprevious, h⟩ := ok_of_bind h
  have hfound : previous ∈ cfg.models ∧ previous.alias_ = args.alias_ := by
    unfold findModel at hprevious
    split at hprevious
    · rename_i hfind
      cases hprevious
      have hfound := List.find?_some hfind
      exact ⟨List.mem_of_find?_eq_some hfind, beq_iff_eq.mp hfound⟩
    · cases hprevious
  simp only at h
  split at h
  · cases h
  · rename_i hdry
    obtain ⟨_, -, h⟩ := ok_of_bind h
    obtain ⟨model, hmodel, h⟩ := ok_of_bind h
    have halias : model.alias_ = args.newAlias.getD previous.alias_ := by
      obtain ⟨path, -, hmodel⟩ := ok_of_bind hmodel
      cases hmodel
      rfl
    cases h
    have hrenames : (Command.replaceModel args).renames = true ↔ args.newAlias.getD previous.alias_ ≠ previous.alias_ := by
      rw [Command.renames, Bool.eq_false_of_not_eq_true hdry, Bool.not_false, Bool.true_and, hfound.2]
      cases args.newAlias <;> simp
    split
    · rename_i hne
      have hgone : previous.alias_ ∉ (cfg.models.filter fun model => model.alias_ != previous.alias_).map (·.alias_) := by
        rw [List.mem_map]
        rintro ⟨other, hother, he⟩
        have hkeep := List.of_mem_filter hother
        exact bne_iff_ne.mp hkeep he
      refine ⟨nodup_upsertBy (hnodup.sublist (List.filter_sublist.map _)) model, fun hno => ?_, fun _ => ?_⟩
      · rw [hrenames.mpr hne] at hno
        cases hno
      · refine ⟨previous.alias_, List.mem_map_of_mem hfound.1, ?_⟩
        change previous.alias_ ∉ (upsertModel _ model).map (·.alias_)
        rw [aliases_upsertModel]
        split
        · exact hgone
        · rw [List.mem_append, not_or, List.mem_singleton, halias]
          exact ⟨hgone, hne.symm⟩
    · rename_i he
      refine ⟨nodup_upsertBy hnodup model, fun _ a ha => subset_upsertModel cfg.models model ha, fun hrename => ?_⟩
      exact absurd (hrenames.mp hrename) he

theorem aliases_setWeight (cfg : Config) (alias_ : String) (weight : Nat) : (setWeight cfg alias_ weight).aliases = cfg.aliases :=
  map_modifyFirst ModelConfig.alias_ (fun model => model.alias_ == alias_) (f := fun model => { model with weight })
    (fun _ => rfl) cfg.models

theorem compute_aliases {command : Command} (hmodels : command.changesModels = true) (hnodup : cfg.aliases.Nodup)
    (h : command.compute inputs cfg = .ok (some cfg')) : AliasChange cfg.aliases command cfg'.aliases := by
  cases command with
  | install args =>
    obtain ⟨_, -, h⟩ := ok_of_bind h
    obtain ⟨model, -, h⟩ := ok_of_bind h
    cases h
    exact ⟨nodup_upsertBy hnodup model, fun _ a ha => subset_upsertModel cfg.models model ha, nofun⟩
  | startModel name weight dryRun =>
    obtain ⟨model, -, h⟩ := ok_of_bind h
    cases dryRun <;> cases h
    rw [aliases_setWeight]
    exact ⟨hnodup, fun _ _ ha => ha, nofun⟩
  | stopModel name dryRun =>
    obtain ⟨model, -, h⟩ := ok_of_bind h
    cases dryRun <;> cases h
    rw [aliases_setWeight]
    exact ⟨hnodup, fun _ _ ha => ha, nofun⟩
  | replaceModel args => exact replaceModel_aliases hnodup h
  | importManifest manifest =>
    obtain ⟨_, -, h⟩ := ok_of_bind h
    obtain ⟨imported, -, h⟩ := ok_of_bind h
    cases h
    obtain ⟨hnodup', hsub⟩ := foldl_upsertModel imported hnodup
    exact ⟨hnodup', fun _ => hsub, nofun⟩
  | addKey _ | rotateKey _ | revokeKey _ => cases hmodels

theorem keyCommand_keys {command : Command} (hkeys : command.changesModels = false)
    (h : command.compute inputs cfg = .ok (some cfg')) : cfg' = { cfg with apiKeys := cfg'.apiKeys } := by
  cases command with
  | addKey args =>
    obtain ⟨_, -, h⟩ := ok_of_bind h
    cases h
    rfl
  | revokeKey id =>
    obtain ⟨_, -, h⟩ := ok_of_bind h
    cases h
    rfl
  | rotateKey args =>
    obtain ⟨_, -, h⟩ := ok_of_bind h
    obtain ⟨key, -, h⟩ := ok_of_bind h
    cases hn : args.newId with
    | some newId =>
      rw [hn] at h
      obtain ⟨_, -, h⟩ := ok_of_bind h
      split at h
      · cases h
      · cases h
        rfl
    | none =>
      rw [hn] at h
      dsimp only at h
      split at h
      · cases h
        rfl
      · cases h
  | install _ | startModel _ _ _ | stopModel _ _ | replaceModel _ | importManifest _ => cases hkeys

end

/-! ## Steps -/

section
variable {stores stores' : ModelStores}

theorem ModelStores.agree_iff (hnodup : stores.cfg.aliases.Nodup) : stores.Agree ↔ ∀ a p,
    (a, p) ∈ (stores.table.rows.map fun row => (row.alias_, row.path)) ↔
      (a, p) ∈ (stores.cfg.models.map fun model => (model.alias_, model.path)) := by
  have hsort : (stores.table.listModels.map fun row => (row.alias_, row.path)).Perm
      (stores.table.rows.map fun row => (row.alias_, row.path)) := (List.perm_insertionSort _ _).map _
  have hrows : (stores.table.rows.map fun row => (row.alias_, row.path)).Nodup := by
    refine List.Nodup.of_map Prod.fst ?_
    rw [List.map_map]
    exact stores.table.nodup
  have hmodels : (stores.cfg.models.map fun model => (model.alias_, model.path)).Nodup := by
    refine List.Nodup.of_map Prod.fst ?_
    rw [List.map_map]
    exact hnodup
  unfold ModelStores.Agree
  rw [hsort.congr_left, List.perm_ext_iff_of_nodup hrows hmodels, Prod.forall]

theorem ModelStores.Agree.nodup (h : stores.Agree) : stores.cfg.aliases.Nodup := by
  have haliases := h.map Prod.fst
  rw [List.map_map, List.map_map] at haliases
  have hsorted := (List.perm_insertionSort (fun left right : ModelInventoryRecord => left.alias_ ≤ right.alias_)
    stores.table.rows).map (·.alias_)
  exact haliases.nodup (hsorted.symm.nodup stores.table.nodup)

/-- A command keeps the agreement unless it replaces a model under another alias. -/
theorem run_agree_iff {command : Command} {inputs : Inputs} {now : Nat → Int} (hagree : stores.Agree)
    (h : command.run inputs now stores = .ok stores') : stores'.Agree ↔ command.renames = false := by
  have hnodup := hagree.nodup
  have hpairs := (stores.agree_iff hnodup).mp hagree
  obtain ⟨computed, hcomputed, h⟩ := ok_of_bind h
  cases computed with
  | none =>
    cases h
    refine iff_of_true hagree ?_
    have hdry := dryRun_of_none hcomputed
    cases command with
    | replaceModel args =>
      rw [Command.renames, show args.dryRun = true from hdry]
      rfl
    | _ => rfl
  | some cfg =>
    cases h
    cases hmodels : command.changesModels with
    | false =>
      have hsame : cfg.models = stores.cfg.models := by rw [keyCommand_keys hmodels hcomputed]
      refine iff_of_true ?_ ?_
      · unfold ModelStores.Agree
        rw [if_neg nofun, hsame]
        exact hagree
      · cases command with
        | replaceModel args => cases hmodels
        | _ => rfl
    | true =>
      have hchange := compute_aliases hmodels hnodup hcomputed
      rw [if_pos rfl, ModelStores.agree_iff hchange.nodup]
      simp only [mem_persistModels hchange.nodup, or_iff_left_iff_imp]
      constructor
      · intro hall
        by_contra hrename
        obtain ⟨a, ha, hnot⟩ := hchange.lost (Bool.eq_true_of_not_eq_false hrename)
        obtain ⟨model, hmodel, rfl⟩ := List.mem_map.mp ha
        have hrow := (hpairs _ _).mpr (List.mem_map_of_mem hmodel)
        obtain ⟨other, hother, he⟩ := List.mem_map.mp (hall _ _ ⟨hnot, hrow⟩)
        exact hnot (List.mem_map.mpr ⟨other, hother, congrArg Prod.fst he⟩)
      · rintro hkeep a p ⟨hnot, hrow⟩
        obtain ⟨model, hmodel, he⟩ := List.mem_map.mp ((hpairs a p).mp hrow)
        cases he
        exact absurd (hchange.kept hkeep _ (List.mem_map_of_mem hmodel)) hnot

end

/-- Over a run the table agrees with the configuration after each command exactly where no
command replaces a model under another alias. -/
theorem inventory_agrees_iff {stores stores' : ModelStores} {steps : List Executed} (hagree : stores.Agree)
    (hrun : runModelCommands steps stores = .ok stores') :
    (∀ before after mid, steps = before ++ after → runModelCommands before stores = .ok mid → mid.Agree) ↔
      ∀ step ∈ steps, step.command.renames = false := by
  induction steps generalizing stores with
  | nil =>
    refine iff_of_true (fun before after mid hsplit hmid => ?_) nofun
    obtain ⟨rfl, -⟩ := List.append_eq_nil_iff.mp hsplit.symm
    cases hmid
    exact hagree
  | cons step steps ih =>
    obtain ⟨next, hstep, hrun⟩ := ok_of_bind hrun
    have hnext := run_agree_iff hagree hstep
    rw [List.forall_mem_cons, ← hnext]
    constructor
    · intro hall
      have hagree' : next.Agree := by
        refine hall [step] steps next rfl ?_
        rw [runModelCommands, hstep]
        rfl
      refine ⟨hagree', (ih hagree' hrun).mp fun before after mid hsplit hmid => ?_⟩
      refine hall (step :: before) after mid (by rw [hsplit, List.cons_append]) ?_
      rw [runModelCommands, hstep]
      exact hmid
    · rintro ⟨hagree', hkeep⟩ before after mid hsplit hmid
      cases before with
      | nil =>
        cases hmid
        exact hagree
      | cons first before =>
        rw [List.cons_append, List.cons.injEq] at hsplit
        obtain ⟨rfl, hsplit⟩ := hsplit
        obtain ⟨other, hother, hmid⟩ := ok_of_bind hmid
        cases hstep.symm.trans hother
        exact (ih hagree' hrun).mpr hkeep before after mid hsplit hmid

instance (stores : ModelStores) : Decidable stores.Agree := inferInstanceAs (Decidable (List.Perm _ _))

/-- One model, configured and stored. -/
def oneStored : ModelStores where
  cfg := { models := [⟨"old", "/models/a.gguf", "chat", none, 1⟩], apiKeys := [], modelDir := "/models" }
  table := { rows := [⟨"old", "/models/a.gguf", "chat", 1, 0⟩], nodup := List.nodup_singleton _ }

def replaceBy (newAlias : Option String) : Executed where
  command := .replaceModel ⟨"b.gguf", "old", newAlias, none, none, none, true, none, false⟩
  inputs := { installModel _ := .ok "/models/b.gguf", importOfflineManifest _ := .ok [], now := 1 }
  now _ := 1

theorem updated_row_agrees : ∃ stores', runModelCommands [replaceBy none] oneStored = .ok stores' ∧ stores'.Agree := by
  have hrun : ∃ stores', runModelCommands [replaceBy none] oneStored = .ok stores' := ⟨_, rfl⟩
  obtain ⟨stores', hrun⟩ := hrun
  have hagree : oneStored.Agree := by decide +kernel
  exact ⟨stores', hrun, (inventory_agrees_iff hagree hrun).mpr (by decide) [replaceBy none] [] stores' rfl hrun⟩

/-- The row of the alias that is gone stays in the table. -/
theorem renamed_row_stays : ∃ stores', oneStored.Agree ∧ runModelCommands [replaceBy (some "new")] oneStored = .ok stores' ∧
    ¬ stores'.Agree :=
  ⟨_, by decide +kernel, rfl, by decide +kernel⟩

end Llmctl.Cli
