import Llmctl.Cli.Inventory
import Llmctl.Text.Lines

/-!
# Gemma 4 readiness

A readiness run has a model write four programs, runs them, and stores under an alias what
came of it together with the checksum of the file that was loaded. `model status` and
`model inventory` report a configured Gemma 4 model by what is stored under its alias.
-/

namespace Llmctl.Cli

def gemma4ReadinessSchemaVersion : String := "gemma4-readiness/v1"

def canonicalTenLineOutput : String := "1\n2\n3\n4\n5\n6\n7\n8\n9\n10\n"

inductive ReadinessState where
  | qualified
  | quarantined
  deriving DecidableEq, Repr

inductive FixtureLanguage where
  | go
  | rust
  | python
  | typeScript
  deriving DecidableEq, Repr

def FixtureLanguage.name : FixtureLanguage → String
  | go => "Go"
  | rust => "Rust"
  | python => "Python"
  | typeScript => "TypeScript"

def FixtureLanguage.prompt (language : FixtureLanguage) : String :=
  s!"Write one minimal {language.name} program that prints the decimal integers 1 through 10, " ++
    "one integer per line, with no extra output. Return only source code."

structure SamplingParameters where
  strategy : String
  temperature : String
  maxTokens : Nat
  deriving DecidableEq, Repr

structure CommandEvidence where
  program : String
  args : List String
  exitCode : Option Int
  stdout : String
  stderr : String
  passed : Bool
  deriving DecidableEq, Repr

structure LanguageFixtureEvidence where
  language : FixtureLanguage
  prompt : String
  rawGeneration : String
  generatedSource : String
  toolchainVersion : String
  commands : List CommandEvidence
  outputMatches : Bool
  passed : Bool
  deriving DecidableEq, Repr

structure Gemma4ReadinessEvidence where
  schemaVersion : String
  generatedAt : Int
  state : ReadinessState
  artifactPath : String
  artifactSha256 : String
  runtimeRevision : String
  sampling : SamplingParameters
  expectedOutput : String
  fixtures : List LanguageFixtureEvidence
  deriving DecidableEq, Repr

/-! ## Files -/

/-- What a file holds. One that parses as evidence is given by the evidence. -/
inductive Content where
  | bytes (bytes : List UInt8)
  | evidence (evidence : Gemma4ReadinessEvidence)
  deriving DecidableEq, Repr

structure Disk where
  /-- The file that a path leads to. -/
  locate : String → String
  files : String → Option Content

namespace Disk

def read (disk : Disk) (path : String) : Option Content := disk.files (disk.locate path)

def write (disk : Disk) (path : String) (content : Content) : Disk :=
  { disk with files := Function.update disk.files (disk.locate path) (some content) }

def writeAll (disk : Disk) (files : List (String × Content)) : Disk :=
  files.foldl (fun disk file => disk.write file.1 file.2) disk

end Disk

def joinPath (dir path : String) : String :=
  if path.startsWith "/" then path else if dir.endsWith "/" then dir ++ path else dir ++ "/" ++ path

def evidencePath (modelDir alias_ : String) : String := joinPath (joinPath modelDir "readiness") (alias_ ++ ".gemma4.json")

def readState (disk : Disk) (path : String) : ReadinessState :=
  match disk.read path with
  | some (.evidence evidence) => if evidence.schemaVersion = gemma4ReadinessSchemaVersion then evidence.state else .quarantined
  | _ => .quarantined

/-! ## Fixtures -/

/-- What a readiness run meets: the engine, the compilers and interpreters, the clock. A program
is run in a directory of the fixture, where its source is. -/
structure ReadinessInputs where
  generateGemma4Sources : String → List String → Nat → Result (List String)
  toolchainVersion : FixtureLanguage → String
  runCommand : FixtureLanguage → String → String → List String → Result CommandEvidence
  now : Int
  revision : String

def splitOnceText (sep : List Char) : List Char → Option (List Char × List Char)
  | [] => none
  | c :: cs =>
    if sep.isPrefixOf (c :: cs) then some ([], (c :: cs).drop sep.length)
    else (splitOnceText sep cs).map fun (before, after) => (c :: before, after)

def extractSource (generation : String) : String :=
  let trimmed := (trim generation).toList
  let fence := "```".toList
  let fenced := do
    let (_, afterOpen) ← splitOnceText fence trimmed
    let afterLanguage := ((splitOnceText ['\n'] afterOpen).map Prod.snd).getD afterOpen
    let (source, _) ← splitOnceText fence afterLanguage
    pure (trim (String.ofList source) ++ "\n")
  fenced.getD (String.ofList trimmed ++ "\n")

def runFixtureCommands (inputs : ReadinessInputs) (language : FixtureLanguage) (source : String) : Result (List CommandEvidence) :=
  match language with
  | .go => do pure [← inputs.runCommand .go source "go" ["run", "main.go"]]
  | .rust => do
    let compile ← inputs.runCommand .rust source "rustc" ["main.rs", "-o", "fixture"]
    if compile.passed then pure [compile, ← inputs.runCommand .rust source "./fixture" []] else pure [compile]
  | .python => do pure [← inputs.runCommand .python source "python3" ["main.py"]]
  | .typeScript => do pure [← inputs.runCommand .typeScript source "node" ["--experimental-strip-types", "main.ts"]]

def verifyFixture (inputs : ReadinessInputs) (language : FixtureLanguage) (prompt rawGeneration : String) :
    Result LanguageFixtureEvidence := do
  let source := extractSource rawGeneration
  let commands ← runFixtureCommands inputs language source
  let outputMatches := commands.getLast?.any fun command =>
    command.passed && Text.lines command.stdout.toList == Text.lines canonicalTenLineOutput.toList
  pure
    { language, prompt, rawGeneration, generatedSource := source, toolchainVersion := inputs.toolchainVersion language,
      commands, outputMatches, passed := outputMatches && commands.all (·.passed) }

def readinessStateFromFixtures (fixtures : List LanguageFixtureEvidence) : ReadinessState :=
  if fixtures.all (·.passed) then .qualified else .quarantined

def fixtureLanguages : List FixtureLanguage := [.go, .rust, .python, .typeScript]

def runFixtures (inputs : ReadinessInputs) (modelPath : String) : Result (List LanguageFixtureEvidence) := do
  let prompts := fixtureLanguages.map FixtureLanguage.prompt
  let generations ← inputs.generateGemma4Sources modelPath prompts 256
  ((fixtureLanguages.zip prompts).zip generations).mapM fun ((language, prompt), generation) =>
    verifyFixture inputs language prompt generation

section
variable (sha256 : Content → String)

def sha256File (disk : Disk) (path : String) : Result String :=
  match disk.read path with
  | some content => .ok (sha256 content)
  | none => .error s!"open model for checksum {path}"

def runGemma4Readiness (inputs : ReadinessInputs) (disk : Disk) (modelPath alias_ : String) : Result Gemma4ReadinessEvidence := do
  let fixtures ← runFixtures inputs modelPath
  let artifactSha256 ← sha256File sha256 disk modelPath
  pure
    { schemaVersion := gemma4ReadinessSchemaVersion, generatedAt := inputs.now, state := readinessStateFromFixtures fixtures,
      artifactPath := alias_, artifactSha256, runtimeRevision := inputs.revision, sampling := ⟨"greedy", "0", 256⟩,
      expectedOutput := canonicalTenLineOutput, fixtures }

def ensureQualified (evidence : Gemma4ReadinessEvidence) : Result Unit :=
  if evidence.state = .qualified then .ok ()
  else .error "Gemma 4 readiness is quarantined; inspect persisted fixture evidence"

/-! ## The commands -/

structure Installation where
  stores : ModelStores
  disk : Disk

structure RuntimeGemma4ReadinessArgs where
  modelPath : String
  alias_ : String
  evidenceOutput : Option String
  deriving DecidableEq, Repr

def RuntimeGemma4ReadinessArgs.output (args : RuntimeGemma4ReadinessArgs) (cfg : Config) : String :=
  args.evidenceOutput.getD (evidencePath cfg.modelDir args.alias_)

/-- `llmctl runtime gemma4-readiness`. The evidence is stored whatever came of the run. -/
def gemma4Readiness (args : RuntimeGemma4ReadinessArgs) (inputs : ReadinessInputs) (inst : Installation) :
    Result Unit × Installation :=
  match runGemma4Readiness sha256 inputs inst.disk args.modelPath args.alias_ with
  | .error e => (.error e, inst)
  | .ok evidence =>
    (ensureQualified evidence, { inst with disk := inst.disk.write (args.output inst.stores.cfg) (.evidence evidence) })

/-- `artifacts` are the files that the installations of a command leave in the model cache. -/
inductive Event where
  | model (executed : Executed) (artifacts : List (String × Content))
  | replaceFile (path : String) (content : Content)
  | readiness (args : RuntimeGemma4ReadinessArgs) (inputs : ReadinessInputs)

def Installation.step (inst : Installation) : Event → Installation
  | .model executed artifacts =>
    let disk := inst.disk.writeAll artifacts
    match executed.command.run executed.inputs executed.now inst.stores with
    | .ok stores => { stores, disk }
    | .error _ => { inst with disk }
  | .replaceFile path content => { inst with disk := inst.disk.write path content }
  | .readiness args inputs => (gemma4Readiness sha256 args inputs inst).2

def Installation.run (inst : Installation) (events : List Event) : Installation := events.foldl (Installation.step sha256) inst

end

/-! ## Reports -/

def ModelConfig.isGemma4 (model : ModelConfig) : Bool := model.family.any fun family => family.toLower == "gemma4"

namespace Installation

def modelReadiness (inst : Installation) (model : ModelConfig) : Option ReadinessState :=
  if model.isGemma4 then some (readState inst.disk (evidencePath inst.stores.cfg.modelDir model.alias_)) else none

structure ModelStatus where
  status : String
  alias_ : String
  weight : Nat
  readiness : Option ReadinessState
  model : ModelConfig
  deriving DecidableEq, Repr

def modelStatus (inst : Installation) (alias_ : String) : Result ModelStatus := do
  let model ← findModel inst.stores.cfg alias_
  pure
    { status := if model.weight = 0 then "stopped" else "running", alias_ := model.alias_, weight := model.weight,
      readiness := inst.modelReadiness model, model }

structure ModelInventoryItem where
  alias_ : String
  role : String
  weight : Nat
  path : String
  updatedAt : Option Int
  readiness : Option ReadinessState
  deriving DecidableEq, Repr

/-- `path_basename` -/
def pathBasename (path : String) : String :=
  match ((path.toList.splitOn '/').filter fun name => name ≠ [] ∧ name ≠ ['.']).getLast? with
  | some name => if name = ['.', '.'] then path else String.ofList name
  | none => path

def modelInventory (inst : Installation) : List ModelInventoryItem :=
  inst.stores.cfg.models.map fun model =>
    let persisted := inst.stores.table.listModels.find? fun row => row.alias_ == model.alias_
    { alias_ := model.alias_, role := model.role, weight := model.weight, path := pathBasename model.path,
      updatedAt := persisted.map (·.updatedAt), readiness := inst.modelReadiness model }

end Installation

end Llmctl.Cli
