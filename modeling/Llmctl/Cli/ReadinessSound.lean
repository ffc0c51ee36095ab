import Llmctl.Cli.InventorySound
import Llmctl.Cli.Readiness

/-!
# Evidence and the artifact behind an alias

Evidence is stored under an alias and records the checksum of the file that the run loaded.
Nothing compares it with the file that is configured, so it is the commands and the
replacements that have to leave the two together.
-/

namespace Llmctl.Cli

/-! ## Files -/

section
variable {disk : Disk} {path : String} {content : Content}

namespace Disk

theorem read_write (h : disk.locate path = disk.locate path') : (disk.write path content).read path' = some content := by
  unfold read write
  dsimp only
  rw [h, Function.update_self]

theorem read_write_of_ne (h : disk.locate path ≠ disk.locate path') : (disk.write path content).read path' = disk.read path' :=
  Function.update_of_ne h.symm _ _

/-- A path reads as before, or as a file written where it leads. -/
theorem read_writeAll (disk : Disk) (files : List (String × Content)) (path : String) :
    (disk.writeAll files).read path = disk.read path ∨
      ∃ file ∈ files, disk.locate file.1 = disk.locate path ∧ (disk.writeAll files).read path = some file.2 := by
  induction files generalizing disk with
  | nil => exact .inl rfl
  | cons file files ih =>
    change ((disk.write file.1 file.2).writeAll files).read path = _ ∨ ∃ _, _ ∧ _ ∧ ((disk.write file.1 file.2).writeAll files).read path = _
    rcases ih (disk.write file.1 file.2) with hsame | ⟨written, hmem, hlocate, hread⟩
    · by_cases hfile : disk.locate file.1 = disk.locate path
      · rw [hsame, read_write hfile]
        exact .inr ⟨file, List.mem_cons_self, hfile, rfl⟩
      · rw [hsame, read_write_of_ne hfile]
        exact .inl rfl
    · exact .inr ⟨written, List.mem_cons_of_mem _ hmem, hlocate, hread⟩

end Disk

end

/-! ## Evidence that counts -/

def Gemma4ReadinessEvidence.counts (evidence : Gemma4ReadinessEvidence) : Bool :=
  evidence.schemaVersion == gemma4ReadinessSchemaVersion && evidence.state == .qualified

def storedEvidence (disk : Disk) (path : String) : Option Gemma4ReadinessEvidence :=
  match disk.read path with
  | some (.evidence evidence) => some evidence
  | _ => none

namespace Installation

def evidencePath (inst : Installation) (alias_ : String) : String := Cli.evidencePath inst.stores.cfg.modelDir alias_

/-- The stored evidence of an alias, where it says qualified. -/
def qualifying (inst : Installation) (alias_ : String) : Option Gemma4ReadinessEvidence :=
  (storedEvidence inst.disk (inst.evidencePath alias_)).filter (·.counts)

end Installation

theorem readState_qualified {disk : Disk} {path : String} :
    readState disk path = .qualified ↔ ((storedEvidence disk path).filter (·.counts)).isSome = true := by
  unfold readState storedEvidence
  cases disk.read path with
  | none => exact iff_of_false nofun nofun
  | some content =>
    cases content with
    | bytes _ => exact iff_of_false nofun nofun
    | evidence evidence =>
      rw [Option.isSome_filter, Option.any_some, Gemma4ReadinessEvidence.counts, Bool.and_eq_true, beq_iff_eq, beq_iff_eq]
      dsimp only
      by_cases hschema : evidence.schemaVersion = gemma4ReadinessSchemaVersion
      · rw [if_pos hschema]
        exact (and_iff_right hschema).symm
      · rw [if_neg hschema]
        exact iff_of_false nofun fun h => hschema h.1

section
variable (sha256 : Content → String)

/-- The stored evidence is of the file that the model is configured with, and of fixtures that passed. -/
def Backed (inst : Installation) (model : ModelConfig) : Prop :=
  ∃ evidence content, storedEvidence inst.disk (inst.evidencePath model.alias_) = some evidence ∧
    inst.disk.read model.path = some content ∧ evidence.artifactSha256 = sha256 content ∧
    ∀ fixture ∈ evidence.fixtures, fixture.passed = true

/-- What the two reports say is qualified is backed. -/
structure Faithful (inst : Installation) : Prop where
  status : ∀ alias_ report, inst.modelStatus alias_ = .ok report → report.readiness = some .qualified → Backed sha256 inst report.model
  inventory : ∀ (i : Nat) item, inst.modelInventory[i]? = some item → item.readiness = some .qualified →
    ∃ model, inst.stores.cfg.models[i]? = some model ∧ Backed sha256 inst model

end

/-! ## What each step may do -/

/-- The command puts the model into the configuration. -/
inductive Command.Brings (inputs : Inputs) (cfg : Config) : Command → ModelConfig → Prop where
  | install {args : ModelInstallArgs} {model : ModelConfig}
      (hinstalled : installed inputs
        { alias_ := args.alias_, source := args.source, cacheDir := cfg.modelDir, copyToCache := args.copy,
          expectedSha256 := args.sha256, role := args.role, family := some args.family, weight := args.weight } = .ok model) :
      Brings inputs cfg (.install args) model
  | replaceModel {args : ModelReplaceArgs} {previous model : ModelConfig} (hprevious : findModel cfg args.alias_ = .ok previous)
      (hinstalled : installed inputs
        { alias_ := args.newAlias.getD previous.alias_, source := args.source, cacheDir := cfg.modelDir, copyToCache := args.copy,
          expectedSha256 := args.sha256, role := args.role.getD previous.role, family := args.family <|> previous.family,
          weight := args.weight.getD previous.weight } = .ok model) :
      Brings inputs cfg (.replaceModel args) model
  | importManifest {manifest : String} {imported : List ModelConfig} {model : ModelConfig}
      (himported : inputs.importOfflineManifest manifest = .ok imported) (hmem : model ∈ imported) :
      Brings inputs cfg (.importManifest manifest) model

section
variable (sha256 : Content → String) (inst : Installation)

/-- No evidence is written over, and no file of a Gemma 4 model that is qualified unless the
new one has the recorded checksum. -/
def WritesKeep (files : List (String × Content)) : Prop :=
  ∀ file ∈ files, (∀ alias_, inst.disk.locate file.1 ≠ inst.disk.locate (inst.evidencePath alias_)) ∧
    ∀ model ∈ inst.stores.cfg.models, model.isGemma4 = true → ∀ evidence, inst.qualifying model.alias_ = some evidence →
      inst.disk.locate file.1 = inst.disk.locate model.path → sha256 file.2 = evidence.artifactSha256

/-- A command brings a Gemma 4 model under an alias that is qualified only with the file that
the evidence is of. A readiness run that qualifies is one of the files of the models under
whose aliases it is stored, and is not stored over a Gemma 4 model. -/
def Keeps : Event → Prop
  | .model executed artifacts => WritesKeep sha256 inst artifacts ∧
      ∀ model, executed.command.Brings executed.inputs inst.stores.cfg model → model.isGemma4 = true →
        ∀ evidence, inst.qualifying model.alias_ = some evidence →
          ∃ content, (inst.disk.writeAll artifacts).read model.path = some content ∧ sha256 content = evidence.artifactSha256
  | .replaceFile path content => WritesKeep sha256 inst [(path, content)]
  | .readiness args inputs => ∀ model ∈ inst.stores.cfg.models, model.isGemma4 = true →
      inst.disk.locate (args.output inst.stores.cfg) ≠ inst.disk.locate model.path ∧
        (inst.disk.locate (args.output inst.stores.cfg) = inst.disk.locate (inst.evidencePath model.alias_) →
          ∀ fixtures ran, runFixtures inputs args.modelPath = .ok fixtures → readinessStateFromFixtures fixtures = .qualified →
            inst.disk.read args.modelPath = some ran →
            ∃ content, inst.disk.read model.path = some content ∧ sha256 content = sha256 ran)

/-- Every step keeps in the state in which it runs. -/
def KeepsRun (inst : Installation) : List Event → Prop
  | [] => True
  | event :: events => Keeps sha256 inst event ∧ KeepsRun (inst.step sha256 event) events

end

/-! ## Reports -/

section
variable {sha256 : Content → String} {inst : Installation}

theorem modelReadiness_qualified {model : ModelConfig} : inst.modelReadiness model = some .qualified ↔
    model.isGemma4 = true ∧ ∃ evidence, inst.qualifying model.alias_ = some evidence := by
  unfold Installation.modelReadiness
  rw [← Option.isSome_iff_exists, Installation.qualifying, ← readState_qualified, Option.ite_none_right_eq_some, Option.some.injEq]
  rfl

theorem faithful_iff_models : Faithful sha256 inst ↔
    ∀ model ∈ inst.stores.cfg.models, inst.modelReadiness model = some .qualified → Backed sha256 inst model := by
  constructor
  · intro h model hmodel hqualified
    obtain ⟨i, hi⟩ := List.getElem?_of_mem hmodel
    have hitem : ∃ item, inst.modelInventory[i]? = some item ∧ item.readiness = inst.modelReadiness model := by
      rw [Installation.modelInventory, List.getElem?_map, hi]
      exact ⟨_, rfl, rfl⟩
    obtain ⟨item, hget, hreadiness⟩ := hitem
    obtain ⟨other, hother, hbacked⟩ := h.inventory i item hget (hreadiness.trans hqualified)
    cases hi.symm.trans hother
    exact hbacked
  · intro h
    refine ⟨fun alias_ report hreport hqualified => ?_, fun i item hitem hqualified => ?_⟩
    · obtain ⟨model, hfind, hreport⟩ := ok_of_bind hreport
      cases hreport
      unfold findModel at hfind
      split at hfind
      · rename_i hfound
        cases hfind
        exact h _ (List.mem_of_find?_eq_some hfound) hqualified
      · cases hfind
    · rw [Installation.modelInventory, List.getElem?_map, Option.map_eq_some_iff] at hitem
      obtain ⟨model, hget, rfl⟩ := hitem
      exact ⟨model, hget, h model (List.mem_of_getElem? hget) hqualified⟩

end

/-! ## The models after a command -/

/-- The directory stays, and each model is an old one, up to its weight, or one that is brought. -/
structure ModelsChange (inputs : Inputs) (cfg : Config) (command : Command) (cfg' : Config) : Prop where
  modelDir : cfg'.modelDir = cfg.modelDir
  origin : ∀ model ∈ cfg'.models,
    (∃ old ∈ cfg.models, ∃ weight, model = { old with weight }) ∨ command.Brings inputs cfg model

section
variable {inputs : Inputs} {cfg cfg' : Config}

theorem models_setWeight (cfg : Config) (alias_ : String) (weight : Nat) :
    ∀ model ∈ (setWeight cfg alias_ weight).models, ∃ old ∈ cfg.models, ∃ weight, model = { old with weight } := by
  intro model hmodel
  rcases mem_modifyFirst hmodel with hmodel | ⟨old, hold, rfl⟩
  · exact ⟨model, hmodel, model.weight, rfl⟩
  · exact ⟨old, List.mem_of_find?_eq_some hold, weight, rfl⟩

theorem mem_foldl_upsertModel {imported models : List ModelConfig} {model : ModelConfig}
    (h : model ∈ imported.foldl upsertModel models) : model ∈ models ∨ model ∈ imported := by
  induction imported generalizing models with
  | nil => exact .inl h
  | cons first imported ih =>
    rcases ih h with h | h
    · rcases mem_upsertBy h with rfl | h
      · exact .inr List.mem_cons_self
      · exact .inl h
    · exact .inr (List.mem_cons_of_mem _ h)

theorem compute_models {command : Command} (h : command.compute inputs cfg = .ok (some cfg')) :
    ModelsChange inputs cfg command cfg' := by
  have hold {models : List ModelConfig} (hsub : models ⊆ cfg.models) {new : ModelConfig} (hnew : command.Brings inputs cfg new) :
      ∀ model ∈ upsertModel models new,
        (∃ old ∈ cfg.models, ∃ weight, model = { old with weight }) ∨ command.Brings inputs cfg model := by
    intro model hmodel
    rcases mem_upsertBy hmodel with rfl | hmodel
    · exact .inr hnew
    · exact .inl ⟨model, hsub hmodel, model.weight, rfl⟩
  cases command with
  | install args =>
    obtain ⟨_, -, h⟩ := ok_of_bind h
    obtain ⟨model, hmodel, h⟩ := ok_of_bind h
    cases h
    exact ⟨rfl, hold (List.Subset.refl _) (.install hmodel)⟩
  | startModel name weight dryRun =>
    obtain ⟨model, -, h⟩ := ok_of_bind h
    cases dryRun <;> cases h
    exact ⟨rfl, fun model hmodel => .inl (models_setWeight cfg name _ model hmodel)⟩
  | stopModel name dryRun =>
    obtain ⟨model, -, h⟩ := ok_of_bind h
    cases dryRun <;> cases h
    exact ⟨rfl, fun model hmodel => .inl (models_setWeight cfg name 0 model hmodel)⟩
  | replaceModel args =>
    obtain ⟨previous, hprevious, h⟩ := ok_of_bind h
    dsimp only at h
    split at h
    · cases h
    · obtain ⟨_, -, h⟩ := ok_of_bind h
      obtain ⟨model, hmodel, h⟩ := ok_of_bind h
      cases h
      refine ⟨rfl, hold ?_ (.replaceModel hprevious hmodel)⟩
      split
      · exact List.filter_subset_self _
      · exact List.Subset.refl _
  | importManifest manifest =>
    obtain ⟨_, -, h⟩ := ok_of_bind h
    obtain ⟨imported, himported, h⟩ := ok_of_bind h
    cases h
    refine ⟨rfl, fun model hmodel => ?_⟩
    rcases mem_foldl_upsertModel hmodel with hmodel | hmodel
    · exact .inl ⟨model, hmodel, model.weight, rfl⟩
    · exact .inr (.importManifest himported hmodel)
  | addKey _ | rotateKey _ | revokeKey _ =>
    rw [keyCommand_keys rfl h]
    exact ⟨rfl, fun model hmodel => .inl ⟨model, hmodel, model.weight, rfl⟩⟩

theorem run_models {command : Command} {now : Nat → Int} {stores stores' : ModelStores}
    (h : command.run inputs now stores = .ok stores') : ModelsChange inputs stores.cfg command stores'.cfg := by
  obtain ⟨computed, hcomputed, h⟩ := ok_of_bind h
  cases computed with
  | none =>
    cases h
    exact ⟨rfl, fun model hmodel => .inl ⟨model, hmodel, model.weight, rfl⟩⟩
  | some cfg =>
    cases h
    exact compute_models hcomputed

end

/-! ## Steps -/

/-- The configured file of a qualified Gemma 4 model has the recorded checksum, and all stored
evidence that says qualified is of fixtures that passed. -/
structure Kept (sha256 : Content → String) (inst : Installation) : Prop where
  file : ∀ model ∈ inst.stores.cfg.models, model.isGemma4 = true → ∀ evidence, inst.qualifying model.alias_ = some evidence →
    ∃ content, inst.disk.read model.path = some content ∧ sha256 content = evidence.artifactSha256
  passed : ∀ alias_ evidence, inst.qualifying alias_ = some evidence → ∀ fixture ∈ evidence.fixtures, fixture.passed = true

section
variable {sha256 : Content → String} {inst : Installation}

theorem Kept.faithful (h : Kept sha256 inst) : Faithful sha256 inst := by
  refine faithful_iff_models.mpr fun model hmodel hqualified => ?_
  obtain ⟨hgemma, evidence, hevidence⟩ := modelReadiness_qualified.mp hqualified
  obtain ⟨content, hread, hsha⟩ := h.file model hmodel hgemma evidence hevidence
  exact ⟨evidence, content, (Option.filter_eq_some_iff.mp hevidence).1, hread, hsha.symm, h.passed _ _ hevidence⟩

theorem kept_of_faithful (h : Faithful sha256 inst)
    (hpassed : ∀ alias_ evidence, inst.qualifying alias_ = some evidence → ∀ fixture ∈ evidence.fixtures, fixture.passed = true) :
    Kept sha256 inst := by
  refine ⟨fun model hmodel hgemma evidence hevidence => ?_, hpassed⟩
  obtain ⟨other, content, hstored, hread, hsha, -⟩ :=
    faithful_iff_models.mp h model hmodel (modelReadiness_qualified.mpr ⟨hgemma, evidence, hevidence⟩)
  obtain rfl : other = evidence := Option.some.inj (hstored.symm.trans (Option.filter_eq_some_iff.mp hevidence).1)
  exact ⟨content, hread, hsha.symm⟩

theorem qualifying_congr {inst' : Installation} {alias_ : String} (hdir : inst'.stores.cfg.modelDir = inst.stores.cfg.modelDir)
    (hread : inst'.disk.read (inst.evidencePath alias_) = inst.disk.read (inst.evidencePath alias_)) :
    inst'.qualifying alias_ = inst.qualifying alias_ := by
  unfold Installation.qualifying storedEvidence
  rw [show inst'.evidencePath alias_ = inst.evidencePath alias_ by rw [Installation.evidencePath, hdir, Installation.evidencePath], hread]

/-- Evidence is not written over. -/
theorem WritesKeep.read_evidence {files : List (String × Content)} (h : WritesKeep sha256 inst files) (alias_ : String) :
    (inst.disk.writeAll files).read (inst.evidencePath alias_) = inst.disk.read (inst.evidencePath alias_) := by
  rcases Disk.read_writeAll inst.disk files (inst.evidencePath alias_) with hsame | ⟨file, hfile, hlocate, -⟩
  · exact hsame
  · exact absurd hlocate ((h file hfile).1 alias_)

/-- The files of qualified models keep their checksums. -/
theorem WritesKeep.read_model {files : List (String × Content)} (h : WritesKeep sha256 inst files) (hkept : Kept sha256 inst)
    {model : ModelConfig} (hmodel : model ∈ inst.stores.cfg.models) (hgemma : model.isGemma4 = true)
    {evidence : Gemma4ReadinessEvidence} (hevidence : inst.qualifying model.alias_ = some evidence) :
    ∃ content, (inst.disk.writeAll files).read model.path = some content ∧ sha256 content = evidence.artifactSha256 := by
  rcases Disk.read_writeAll inst.disk files model.path with hsame | ⟨file, hfile, hlocate, hread⟩
  · rw [hsame]
    exact hkept.file model hmodel hgemma evidence hevidence
  · exact ⟨file.2, hread, (h file hfile).2 model hmodel hgemma evidence hevidence hlocate⟩

theorem kept_writes {files : List (String × Content)} (h : WritesKeep sha256 inst files) (hkept : Kept sha256 inst) :
    Kept sha256 { inst with disk := inst.disk.writeAll files } := by
  have hsame (alias_ : String) : ({ inst with disk := inst.disk.writeAll files } : Installation).qualifying alias_ = inst.qualifying alias_ :=
    qualifying_congr rfl (h.read_evidence alias_)
  refine ⟨fun model hmodel hgemma evidence hevidence => ?_, fun alias_ evidence hevidence => ?_⟩
  · rw [hsame] at hevidence
    exact h.read_model hkept hmodel hgemma hevidence
  · rw [hsame] at hevidence
    exact hkept.passed alias_ evidence hevidence

theorem kept_command {executed : Executed} {artifacts : List (String × Content)} {stores' : ModelStores}
    (h : Keeps sha256 inst (.model executed artifacts)) (hkept : Kept sha256 inst)
    (hrun : executed.command.run executed.inputs executed.now inst.stores = .ok stores') :
    Kept sha256 { stores := stores', disk := inst.disk.writeAll artifacts } := by
  obtain ⟨hwrites, hbrings⟩ := h
  obtain ⟨hdir, horigin⟩ := run_models hrun
  have hsame (alias_ : String) :
      ({ stores := stores', disk := inst.disk.writeAll artifacts } : Installation).qualifying alias_ = inst.qualifying alias_ :=
    qualifying_congr hdir (hwrites.read_evidence alias_)
  refine ⟨fun model hmodel hgemma evidence hevidence => ?_, fun alias_ evidence hevidence => ?_⟩
  · rw [hsame] at hevidence
    rcases horigin model hmodel with ⟨old, hold, weight, rfl⟩ | hnew
    · exact WritesKeep.read_model hwrites hkept hold hgemma hevidence
    · exact hbrings model hnew hgemma evidence hevidence
  · rw [hsame] at hevidence
    exact hkept.passed alias_ evidence hevidence

/-- What a readiness run stores. -/
theorem runGemma4Readiness_spec {inputs : ReadinessInputs} {modelPath alias_ : String} {evidence : Gemma4ReadinessEvidence}
    (h : runGemma4Readiness sha256 inputs inst.disk modelPath alias_ = .ok evidence) :
    ∃ ran, inst.disk.read modelPath = some ran ∧ evidence.artifactSha256 = sha256 ran ∧
      runFixtures inputs modelPath = .ok evidence.fixtures ∧ evidence.state = readinessStateFromFixtures evidence.fixtures := by
  obtain ⟨fixtures, hfixtures, h⟩ := ok_of_bind h
  obtain ⟨artifact, hartifact, h⟩ := ok_of_bind h
  cases h
  unfold sha256File at hartifact
  split at hartifact
  · rename_i ran hran
    cases hartifact
    exact ⟨ran, hran, rfl, hfixtures, rfl⟩
  · cases hartifact

theorem passed_of_qualified {fixtures : List LanguageFixtureEvidence} (h : readinessStateFromFixtures fixtures = .qualified) :
    ∀ fixture ∈ fixtures, fixture.passed = true := by
  unfold readinessStateFromFixtures at h
  split at h
  · rename_i hall
    exact List.all_eq_true.mp hall
  · cases h

theorem kept_readiness {args : RuntimeGemma4ReadinessArgs} {inputs : ReadinessInputs} (h : Keeps sha256 inst (.readiness args inputs))
    (hkept : Kept sha256 inst) : Kept sha256 (gemma4Readiness sha256 args inputs inst).2 := by
  unfold gemma4Readiness
  split
  · exact hkept
  · rename_i evidence hrun
    obtain ⟨ran, hran, hsha, hfixtures, hstate⟩ := runGemma4Readiness_spec hrun
    let inst' : Installation := { inst with disk := inst.disk.write (args.output inst.stores.cfg) (.evidence evidence) }
    -- an alias is qualified as before, or by what the run has just stored
    have hqualifying {alias_ : String} {stored : Gemma4ReadinessEvidence} (hstored : inst'.qualifying alias_ = some stored) :
        inst.qualifying alias_ = some stored ∨
          inst.disk.locate (args.output inst.stores.cfg) = inst.disk.locate (inst.evidencePath alias_) ∧ stored = evidence ∧
            readinessStateFromFixtures evidence.fixtures = .qualified := by
      by_cases hlocate : inst.disk.locate (args.output inst.stores.cfg) = inst.disk.locate (inst.evidencePath alias_)
      · obtain ⟨hread, hcounts⟩ := Option.filter_eq_some_iff.mp hstored
        rw [storedEvidence, show inst'.disk.read (inst'.evidencePath alias_) = some (.evidence evidence) from Disk.read_write hlocate]
          at hread
        cases hread
        rw [Gemma4ReadinessEvidence.counts, Bool.and_eq_true, beq_iff_eq, beq_iff_eq] at hcounts
        exact .inr ⟨hlocate, rfl, hstate.symm.trans hcounts.2⟩
      · have hsame : inst'.qualifying alias_ = inst.qualifying alias_ := qualifying_congr rfl (Disk.read_write_of_ne hlocate)
        exact .inl (hsame.symm.trans hstored)
    refine ⟨fun model hmodel hgemma stored hstored => ?_, fun alias_ stored hstored => ?_⟩
    · obtain ⟨hne, hsame⟩ := h model hmodel hgemma
      rw [Disk.read_write_of_ne hne]
      rcases hqualifying hstored with hold | ⟨hlocate, rfl, hqualified⟩
      · exact hkept.file model hmodel hgemma stored hold
      · obtain ⟨content, hread, hcontent⟩ := hsame hlocate _ ran hfixtures hqualified hran
        exact ⟨content, hread, hcontent.trans hsha.symm⟩
    · rcases hqualifying hstored with hold | ⟨-, rfl, hqualified⟩
      · exact hkept.passed alias_ stored hold
      · exact passed_of_qualified hqualified

theorem kept_step {event : Event} (h : Keeps sha256 inst event) (hkept : Kept sha256 inst) : Kept sha256 (inst.step sha256 event) := by
  cases event with
  | model executed artifacts =>
    rw [Installation.step]
    split
    · rename_i stores hrun
      exact kept_command h hkept hrun
    · exact kept_writes h.1 hkept
  | replaceFile path content => exact kept_writes h hkept
  | readiness args inputs => exact kept_readiness h hkept

end

/-- Along a run that keeps, what is reported as qualified is backed in every state. -/
theorem qualified_backed (sha256 : Content → String) {inst : Installation} {events : List Event} (hstart : Faithful sha256 inst)
    (hpassed : ∀ alias_ evidence, inst.qualifying alias_ = some evidence → ∀ fixture ∈ evidence.fixtures, fixture.passed = true)
    (hkeeps : KeepsRun sha256 inst events) :
    ∀ before after, events = before ++ after → Faithful sha256 (inst.run sha256 before) := by
  have hkept := kept_of_faithful hstart hpassed
  clear hstart hpassed
  induction events generalizing inst with
  | nil =>
    intro before after hsplit
    obtain ⟨rfl, -⟩ := List.append_eq_nil_iff.mp hsplit.symm
    exact hkept.faithful
  | cons event events ih =>
    intro before after hsplit
    cases before with
    | nil => exact hkept.faithful
    | cons first before =>
      rw [List.cons_append, List.cons.injEq] at hsplit
      obtain ⟨rfl, hsplit⟩ := hsplit
      exact ih hkeeps.2 (kept_step hkeeps.1 hkept) before after hsplit

/-! ## Evidence that outlives its artifact -/

/-- In place of a checksum, the bytes themselves. -/
def rawSum : Content → String
  | .bytes bytes => String.ofList (bytes.map fun b => Char.ofNat b.toNat)
  | .evidence _ => "evidence"

def emptyInstallation : Installation where
  stores := { cfg := ⟨[], [], "m"⟩, table := ⟨[], List.nodup_nil⟩ }
  disk := { locate := id, files _ := none }

/-- `path` is where the installed artifact is left. -/
def gemma (command : Command) (path : String) (bytes : List UInt8) : Event :=
  .model ⟨command, { installModel _ := .ok path, importOfflineManifest _ := .ok [], now := 0 }, fun _ => 0⟩ [(path, .bytes bytes)]

def installGemma : Event := gemma (.install ⟨"/a.gguf", "g", "coding", "gemma4", 1, true, none⟩) "m/a.gguf" [97]

def updateGemma : Event := gemma (.replaceModel ⟨"/b.gguf", "g", none, none, none, none, true, none, false⟩) "m/b.gguf" [98]

/-- A run in which every program prints the ten lines. -/
def qualifyGemma : Event :=
  .readiness ⟨"m/a.gguf", "g", none⟩
    { generateGemma4Sources _ prompts _ := .ok (prompts.map fun _ => "")
      toolchainVersion _ := ""
      runCommand _ _ program args := .ok ⟨program, args, some 0, canonicalTenLineOutput, "", true⟩
      now := 1
      revision := "rs-llmctl" }

theorem evidencePath_suffix (modelDir alias_ : String) : ∃ path, evidencePath modelDir alias_ = path ++ ".gemma4.json" := by
  unfold evidencePath
  generalize joinPath modelDir "readiness" = dir
  unfold joinPath
  split
  · exact ⟨alias_, rfl⟩
  · split
    · exact ⟨dir ++ alias_, String.append_assoc.symm⟩
    · exact ⟨dir ++ "/" ++ alias_, String.append_assoc.symm⟩

theorem ne_evidencePath {path modelDir alias_ : String} (h : path.toList.getLast? ≠ some 'n') : path ≠ evidencePath modelDir alias_ := by
  rintro rfl
  obtain ⟨path, he⟩ := evidencePath_suffix modelDir alias_
  refine h ?_
  rw [he, String.toList_append, List.getLast?_append]
  rfl

theorem empty_faithful : Faithful rawSum emptyInstallation :=
  faithful_iff_models.mpr fun _ hmodel => absurd hmodel List.not_mem_nil

/-- The artifact that is installed is the one that qualifies. -/
theorem qualified_gemma_backed : Faithful rawSum (emptyInstallation.run rawSum [installGemma, qualifyGemma]) := by
  have hnone (alias_ : String) : emptyInstallation.qualifying alias_ = none := rfl
  have hmodels : (emptyInstallation.step rawSum installGemma).stores.cfg.models = [⟨"g", "m/a.gguf", "coding", some "gemma4", 1⟩] := by
    decide +kernel
  have hinstall : Keeps rawSum emptyInstallation installGemma := by
    refine ⟨fun file hfile => ?_, fun model _ _ evidence h => ?_⟩
    · obtain rfl := List.mem_singleton.mp hfile
      exact ⟨fun alias_ => ne_evidencePath (by decide), fun model hmodel => absurd hmodel List.not_mem_nil⟩
    · rw [hnone] at h
      cases h
  have hqualify : Keeps rawSum (emptyInstallation.step rawSum installGemma) qualifyGemma := by
    intro model hmodel _
    rw [hmodels] at hmodel
    obtain rfl := List.mem_singleton.mp hmodel
    exact ⟨by decide +kernel, fun _ fixtures ran _ _ hran => ⟨ran, hran, rfl⟩⟩
  have hkeeps : KeepsRun rawSum emptyInstallation [installGemma, qualifyGemma] := ⟨hinstall, hqualify, trivial⟩
  refine qualified_backed rawSum empty_faithful (fun alias_ evidence h => ?_) hkeeps _ [] rfl
  rw [hnone] at h
  cases h

/-- After an update to another artifact the alias is still reported as qualified. -/
theorem updated_gemma_unbacked : Faithful rawSum emptyInstallation ∧
    ¬ Faithful rawSum (emptyInstallation.run rawSum [installGemma, qualifyGemma, updateGemma]) := by
  refine ⟨empty_faithful, fun h => ?_⟩
  have hmodel : (⟨"g", "m/b.gguf", "coding", some "gemma4", 1⟩ : ModelConfig) ∈
      (emptyInstallation.run rawSum [installGemma, qualifyGemma, updateGemma]).stores.cfg.models := by decide +kernel
  obtain ⟨evidence, content, hstored, hread, hsha, -⟩ := faithful_iff_models.mp h _ hmodel (by decide +kernel)
  have hold : (storedEvidence (emptyInstallation.run rawSum [installGemma, qualifyGemma, updateGemma]).disk
      ((emptyInstallation.run rawSum [installGemma, qualifyGemma, updateGemma]).evidencePath "g")).map (·.artifactSha256) = some "a" := by
    decide +kernel
  have hnew : ((emptyInstallation.run rawSum [installGemma, qualifyGemma, updateGemma]).disk.read "m/b.gguf").map rawSum = some "b" := by
    decide +kernel
  rw [hstored] at hold
  rw [hread] at hnew
  exact absurd (hold.symm.trans ((congrArg some hsha).trans hnew)) (by decide)

end Llmctl.Cli
