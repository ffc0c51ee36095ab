import Llmctl.Model.Install
import Llmctl.Native.Prompt

/-!
# Loading artifacts

Which files of an artifact the native loader takes, and from where it reads them. What Candle
makes of their contents is not looked at.
-/

namespace Llmctl.Native

open Fs Install

inductive NativeModelFormat where
  | gguf
  | safetensors
  | unknown
  deriving DecidableEq, Repr

namespace NativeModelFormat

def fromPath (path : Path) : NativeModelFormat :=
  match ((path.head?.bind extension).bind toStr).map toAsciiLowercase with
  | some extension =>
    if extension = osString "gguf" then .gguf else if extension = osString "safetensors" then .safetensors else .unknown
  | none => .unknown

/-- As `{:?}` writes it. -/
def debug : NativeModelFormat → String
  | gguf => "Gguf"
  | safetensors => "Safetensors"
  | unknown => "Unknown"

end NativeModelFormat

def CandleModelFamily.engineName : CandleModelFamily → String
  | .qwen3 => "candle-native-qwen3"
  | .qwen3Moe => "candle-native-qwen3-moe"
  | .gemma4 => "candle-native-gemma4"
  | .deepSeek => "candle-native-deepseek"
  | .kimi => "candle-native-kimi"
  | .mistral => "candle-native-mistral"
  | .miniMax => "candle-native-minimax"

def supportedCandleFormatsForFamily : CandleModelFamily → List NativeModelFormat
  | .qwen3 | .gemma4 | .mistral => [.gguf, .safetensors]
  | .qwen3Moe => [.gguf]
  | .deepSeek => [.safetensors]
  | .kimi | .miniMax => []

def unnamed : OsString := osString "<unnamed>"

def artifactFileName (path : Path) : OsString := (path.head?.bind toStr).getD unnamed

section
variable (tree : Tree)

/-- A weight file, links followed. -/
def isWeightFile (path : Path) : Bool := tree.isFile path && decide (NativeModelFormat.fromPath path = .safetensors)

def safetensorsArtifactDir (path : Path) : Path := if tree.isDir path then path else path.tail

def safetensorsWeightFiles (path artifactDir : Path) : List OsString :=
  if isWeightFile tree path then [artifactFileName path]
  else
    ((((tree.readDir artifactDir).map fun entry => entry.1 :: artifactDir).filter (isWeightFile tree)).map
      artifactFileName).insertionSort fun left right => left ≤ right

def inferNativeArtifactFormat (path : Path) : NativeModelFormat :=
  if NativeModelFormat.fromPath path ≠ .unknown then .fromPath path
  else if tree.isDir path && !(safetensorsWeightFiles tree path path).isEmpty then .safetensors
  else .unknown

structure CandleArtifactValidation where
  modelFamily : CandleModelFamily
  modelFormat : NativeModelFormat
  weightFiles : List OsString
  tokenizerFile : Option OsString
  configFile : Option OsString
  deriving DecidableEq, Repr

def failMissingArtifacts (family : CandleModelFamily) (model : Install.ModelConfig) (format : NativeModelFormat)
    (missing : List String) : Result Unit :=
  if missing.isEmpty then .ok ()
  else .error (s!"{family.engineName} cannot load model alias '{model.alias_}' as {format.debug}: " ++
    "missing required artifact(s): " ++ ", ".intercalate missing)

def validateGgufArtifacts (family : CandleModelFamily) (model : Install.ModelConfig) : Result CandleArtifactValidation := do
  let isGguf := tree.isFile model.path && decide (NativeModelFormat.fromPath model.path = .gguf)
  let missing := if !isGguf then ["GGUF weights (*.gguf)"] else []
  failMissingArtifacts family model .gguf missing
  pure ⟨family, .gguf, [artifactFileName model.path], none, none⟩

def validateSafetensorsArtifacts (family : CandleModelFamily) (model : Install.ModelConfig) : Result CandleArtifactValidation := do
  let artifactDir := safetensorsArtifactDir tree model.path
  let weights := safetensorsWeightFiles tree model.path artifactDir
  let missing := (if weights.isEmpty then ["safetensors weights (*.safetensors)"] else []) ++
    (if !tree.isFile (osString "tokenizer.json" :: artifactDir) then ["tokenizer.json"] else []) ++
    (if !tree.isFile (osString "config.json" :: artifactDir) then ["config.json"] else [])
  failMissingArtifacts family model .safetensors missing
  pure ⟨family, .safetensors, weights, some (osString "tokenizer.json"), some (osString "config.json")⟩

def validateCandleModelArtifacts (family : CandleModelFamily) (model : Install.ModelConfig) : Result CandleArtifactValidation :=
  let format := inferNativeArtifactFormat tree model.path
  if format ∈ supportedCandleFormatsForFamily family then
    match format with
    | .gguf => validateGgufArtifacts tree family model
    | .safetensors => validateSafetensorsArtifacts tree family model
    | .unknown => .error "unsupported formats are rejected above"
  else .error (s!"{family.engineName} cannot load model alias '{model.alias_}' because the artifact format is unsupported; " ++
    "expected a .gguf file or safetensors weights with tokenizer.json and config.json")

/-! ## What is read -/

/-- Names of files, and what is in them if they can be opened. -/
structure LoadedFiles where
  weights : List (OsString × Option (List UInt8))
  tokenizer : Option (OsString × Option (List UInt8))
  config : Option (OsString × Option (List UInt8))
  deriving DecidableEq, Repr

def contents (path : Path) : Option (List UInt8) :=
  match tree.metadata path with
  | some (.file bytes) => some bytes
  | _ => none

/-- `load_real_candle_decoder` opens a GGUF file by the path of the model, and the rest by their names. -/
def loadedFiles (modelPath : Path) (artifacts : CandleArtifactValidation) : LoadedFiles :=
  let read (path : OsString → Path) (name : OsString) := (name, contents tree (path name))
  match artifacts.modelFormat with
  | .gguf => ⟨artifacts.weightFiles.map (read fun _ => modelPath), none, none⟩
  | _ =>
    let artifactDir := safetensorsArtifactDir tree modelPath
    let inDir := read fun name => name :: artifactDir
    ⟨artifacts.weightFiles.map inDir, artifacts.tokenizerFile.map inDir, artifacts.configFile.map inDir⟩

/-- What the loader selects of a model, if it does not refuse it. -/
def selectedFiles (family : CandleModelFamily) (model : Install.ModelConfig) : Option LoadedFiles :=
  (validateCandleModelArtifacts tree family model).toOption.map (loadedFiles tree model.path)

end

end Llmctl.Native
