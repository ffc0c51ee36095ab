import Llmctl.Cli.Readiness
import Llmctl.Model.Install
import Llmctl.SortedMap
import Llmctl.Text.Codec
import Llmctl.Text.Utf8

/-!
# Profiles of specialist models

`model profile` keeps what is known of a model in a file under its alias. An imported profile
is a candidate. A profile is qualified where it passes every check, for which an operator
edits its file.
-/

namespace Llmctl.Profiles

open Fs
open Install (osString components extension toAsciiLowercase)

def profileSchema : String := "specialist-model-profile/v1"

def adapterCatalogSchema : String := "backend-adapter-catalog/v1"

inductive QualificationStatus where
  | candidate
  | qualified
  | quarantined
  deriving DecidableEq, Repr

structure ArtifactProfile where
  path : OsString
  sha256 : Option String
  source : String
  sourceRevision : Option String
  deriving DecidableEq, Repr

structure LicenseProfile where
  identifier : Option String
  sourceUrl : Option String
  accepted : Bool
  deriving DecidableEq, Repr

structure LanguageCapability where
  language : String
  capabilities : List String
  qualified : Bool
  score : Option UInt32
  deriving DecidableEq, Repr

structure MemoryEstimate where
  ramBytes : UInt64
  vramBytes : UInt64
  kvCacheBytes : UInt64
  deriving DecidableEq, Repr

structure QualificationGate where
  name : String
  command : List String
  required : Bool
  deriving DecidableEq, Repr

structure SpecialistModelProfile where
  schema : String
  alias_ : String
  artifact : ArtifactProfile
  license : LicenseProfile
  languages : List LanguageCapability
  format : String
  quantization : Option String
  backend : String
  contextTokens : UInt32
  memory : MemoryEstimate
  promptTemplate : String
  outputGrammar : Option String
  verificationCommands : List (List String)
  gates : List QualificationGate
  securityMaturity : String
  qualification : QualificationStatus
  quarantineReason : Option String
  deriving DecidableEq, Repr

structure BackendAdapterProfile where
  id : String
  protocol : List String
  accelerators : List String
  modelFormats : List String
  toolCalls : Bool
  structuredOutput : Bool
  healthEndpoint : Option String
  lifecycle : List String
  maturity : String
  unattendedDefault : Bool
  deriving DecidableEq, Repr

structure AdapterCatalog where
  schema : String
  adapters : List BackendAdapterProfile
  deriving DecidableEq, Repr

structure ProfilePolicyCheck where
  name : String
  passed : Bool
  detail : String
  deriving DecidableEq, Repr

structure ProfilePolicyReport where
  qualified : Bool
  checks : List ProfilePolicyCheck
  deriving DecidableEq, Repr

/-! ## Candidates -/

/-- What a path leads to. -/
inductive Artifact where
  | file (bytes : List UInt8)
  | dir
  | other
  deriving DecidableEq, Repr

def display (path : OsString) : String := String.ofList (Text.lossy path)

/-- The last name of a path, if it is not `..`. -/
def fileName (path : OsString) : Option OsString := ((components path).getLast?).filter (· != osString "..")

def inferFormat (path : OsString) (artifact : Artifact) : Result String :=
  if artifact = .dir then .ok "safetensors-native"
  else
    let ext := ((fileName path).bind extension).map toAsciiLowercase
    if ext = some (osString "gguf") then .ok "gguf"
    else if ext = some (osString "safetensors") then .ok "safetensors-native"
    else .error "profile candidate must be GGUF or safetensors"

def toAsciiUppercase (name : OsString) : OsString := name.map fun b => if 97 ≤ b ∧ b ≤ 122 then b - 32 else b

def quantizations : List String := ["Q2_K", "Q3_K", "Q4_K_M", "Q4_K", "Q5_K", "Q6_K", "Q8_0"]

def inferQuantization (path : OsString) : Option String := do
  let name ← fileName path
  quantizations.find? fun quantization => decide (osString quantization <:+: toAsciiUppercase name)

def languageNames : List String := ["go", "rust", "python", "typescript"]

def candidateProfile (alias_ : String) (artifact : ArtifactProfile) (format : String) : SpecialistModelProfile :=
  { schema := profileSchema, alias_, artifact, license := ⟨none, none, false⟩,
    languages := languageNames.map fun language =>
      ⟨language, ["generation", "bug-fix", "test-creation", "constrained-refactor"], false, none⟩,
    format, quantization := inferQuantization artifact.path, backend := "rs-llmctl", contextTokens := 0, memory := ⟨0, 0, 0⟩,
    promptTemplate := "", outputGrammar := none, verificationCommands := [], gates := [], securityMaturity := "unknown",
    qualification := .candidate, quarantineReason := none }

/-- A directory is opened as a file is, and not read. -/
def sha256File (sha256 : List UInt8 → String) (path : OsString) : Artifact → Result String
  | .file bytes => .ok (sha256 bytes)
  | _ => .error s!"read model for checksum {display path}"

def importLocalCandidate (sha256 : List UInt8 → String) (stat : OsString → Option Artifact) (path : OsString) (alias_ : String) :
    Result SpecialistModelProfile :=
  match stat path with
  | none => .error s!"stat model candidate {display path}"
  | some .other => .error "model candidate must be a file or directory"
  | some artifact => do
    let format ← inferFormat path artifact
    let sha256 ← sha256File sha256 path artifact
    pure (candidateProfile alias_ ⟨path, some sha256, "local-file", none⟩ format)

structure CatalogModel where
  id : String
  alias_ : String
  repo : String
  filename : String
  revision : String
  role : String
  deriving DecidableEq, Repr

def builtinCatalog : List CatalogModel :=
  [⟨"qwen2.5-7b-instruct-q4-k-m", "qwen2.5-7b", "Qwen/Qwen2.5-7B-Instruct-GGUF", "qwen2.5-7b-instruct-q4_k_m.gguf", "main", "chat"⟩,
    ⟨"llama-3.2-3b-instruct-q4-k-m", "llama3.2-3b", "bartowski/Llama-3.2-3B-Instruct-GGUF", "Llama-3.2-3B-Instruct-Q4_K_M.gguf",
      "main", "chat"⟩,
    ⟨"mistral-7b-instruct-v0.3-q4-k-m", "mistral-7b", "bartowski/Mistral-7B-Instruct-v0.3-GGUF",
      "Mistral-7B-Instruct-v0.3-Q4_K_M.gguf", "main", "chat"⟩]

def catalogModel (idOrAlias : String) : Option CatalogModel :=
  builtinCatalog.find? fun model => model.id == idOrAlias || model.alias_ == idOrAlias

def importCatalogCandidate (idOrAlias : String) : Result SpecialistModelProfile :=
  match catalogModel idOrAlias with
  | none => .error s!"unknown built-in catalog model {idOrAlias}"
  | some entry =>
    .ok (candidateProfile entry.alias_
      ⟨osString entry.filename, none, s!"https://huggingface.co/{entry.repo}", some entry.revision⟩ "gguf")

/-! ## Qualification -/

def adapter (id : String) (protocol accelerators formats : List String) (structuredOutput : Bool) (maturity : String) :
    BackendAdapterProfile :=
  { id, protocol, accelerators, modelFormats := formats, toolCalls := true, structuredOutput, healthEndpoint := some "/health",
    lifecycle := ["start", "stop", "health"], maturity, unattendedDefault := false }

def backendCatalog : AdapterCatalog where
  schema := adapterCatalogSchema
  adapters :=
    [adapter "rs-llmctl" ["openai-chat"] ["cpu", "metal"] ["gguf", "safetensors-native"] true "beta",
      adapter "llama.cpp" ["openai-chat"] ["cpu", "rocm", "vulkan", "metal", "cuda"] ["gguf"] true "beta",
      adapter "llama-swap" ["openai-chat"] ["cpu", "rocm", "vulkan", "metal", "cuda"] ["gguf"] true "experimental",
      adapter "ollama" ["openai-chat", "ollama"] ["cpu", "rocm", "metal", "cuda"] ["gguf"] true "experimental",
      adapter "localai" ["openai-chat"] ["cpu", "rocm", "vulkan", "metal", "cuda"] ["gguf"] true "experimental",
      adapter "vllm" ["openai-chat"] ["rocm", "cuda"] ["safetensors-native", "compressed-tensors"] true "experimental",
      adapter "sglang" ["openai-chat"] ["rocm", "cuda"] ["safetensors-native", "compressed-tensors"] true "experimental",
      adapter "lm-studio" ["openai-chat"] ["cpu", "rocm", "vulkan", "metal", "cuda"] ["gguf"] false "experimental",
      adapter "mistral.rs" ["openai-chat"] ["cpu", "metal", "cuda"] ["gguf", "safetensors-native"] true "experimental"]

def check (name : String) (passed : Bool) (detail : String) : ProfilePolicyCheck := ⟨name, passed, detail⟩

def isSha256 (value : String) : Bool := value.toList.length == 64 && value.toList.all Cli.isHexDigit

def asciiLowercase (s : String) : List Char := s.toList.map Char.toLower

def gemma4Compatible (profile : SpecialistModelProfile) : Bool :=
  !decide ("gemma".toList <:+: asciiLowercase profile.alias_) ||
    ["gguf", "compressed-tensors", "safetensors-native"].contains profile.format

def evaluateProfile (profile : SpecialistModelProfile) (availableVramBytes : Option UInt64) : ProfilePolicyReport :=
  let adapter := backendCatalog.adapters.find? fun adapter => adapter.id == profile.backend
  let checks :=
    [check "license" (profile.license.accepted && profile.license.identifier.any fun value => !(trim value).isEmpty)
        "accepted SPDX or operator-reviewed license metadata is required",
      check "checksum" (profile.artifact.sha256.any isSha256) "verified SHA-256 artifact identity is required",
      check "source-provenance" (profile.artifact.source == "local-file" || profile.artifact.source.startsWith "https://")
        "source must be local-file or HTTPS",
      check "hardware-fit"
        (match availableVramBytes with
        | some available => decide (profile.memory.vramBytes ≤ available)
        | none => profile.memory.vramBytes == 0)
        "estimated VRAM must fit the selected host",
      check "runtime-compatibility" (adapter.any fun adapter => adapter.modelFormats.contains profile.format)
        "selected backend must advertise the artifact format",
      check "security-maturity" (profile.securityMaturity != "unknown" && adapter.any fun adapter => adapter.maturity != "unsupported")
        "profile and adapter security maturity must be reviewed",
      check "gemma4-artifact" (gemma4Compatible profile) "Gemma 4 requires GGUF, compressed-tensors, or native safetensors"]
  ⟨checks.all (·.passed), checks⟩

def qualifyProfile (profile : SpecialistModelProfile) (availableVramBytes : Option UInt64) :
    SpecialistModelProfile × ProfilePolicyReport :=
  let report := evaluateProfile profile availableVramBytes
  ({ profile with
      qualification := if report.qualified then .qualified else .quarantined
      quarantineReason :=
        if report.qualified then none
        else some (",".intercalate ((report.checks.filter fun check => !check.passed).map (·.name))) }, report)

/-! ## The text of a profile -/

def QualificationStatus.text : QualificationStatus → String
  | candidate => "candidate"
  | qualified => "qualified"
  | quarantined => "quarantined"

def QualificationStatus.ofText (text : String) : De QualificationStatus :=
  if text = "candidate" then .ok .candidate
  else if text = "qualified" then .ok .qualified
  else if text = "quarantined" then .ok .quarantined
  else De.fail (.invalidValue (.string text) "one of `candidate`, `qualified`, `quarantined`")

/-- A unit variant is also read of an object with its name. -/
def QualificationStatus.read : Value → De QualificationStatus
  | .string text => ofText text
  | .object [(text, .null)] => ofText text
  | v => De.fail (.invalidType v "string or map")

section
variable (numbers : Numbers)

open De Codec

def statusCodec : Codec QualificationStatus where
  write status := .string status.text
  read := QualificationStatus.read
  read_write status := by cases status <;> rfl
  integral _ := trivial

def licenseFields : List Field :=
  [optionString.field "identifier" false, optionString.field "source_url" false, bool.field "accepted" true]

def writeLicense (license : LicenseProfile) : Value :=
  .object [("identifier", optionString.write license.identifier), ("source_url", optionString.write license.sourceUrl),
    ("accepted", bool.write license.accepted)]

def readLicense (v : Value) : De LicenseProfile := do
  let entries ← structFields "LicenseProfile" licenseFields v
  let identifier ← optional "identifier" none optionString.read entries
  let sourceUrl ← optional "source_url" none optionString.read entries
  let accepted ← required "accepted" bool.read entries
  .ok { identifier, sourceUrl, accepted }

theorem u32_present (n : UInt32) : (u32 numbers).write n ≠ .null := fun h => by cases h

def scoreCodec : Codec (Option UInt32) := (u32 numbers).option (u32_present numbers)

def languageFields : List Field :=
  [string.field "language" true, string.vec.field "capabilities" true, bool.field "qualified" true,
    (scoreCodec numbers).field "score" false]

def writeLanguage (language : LanguageCapability) : Value :=
  .object [("language", string.write language.language), ("capabilities", string.vec.write language.capabilities),
    ("qualified", bool.write language.qualified), ("score", (scoreCodec numbers).write language.score)]

def readLanguage (v : Value) : De LanguageCapability := do
  let entries ← structFields "LanguageCapability" (languageFields numbers) v
  let language ← required "language" string.read entries
  let capabilities ← required "capabilities" string.vec.read entries
  let qualified ← required "qualified" bool.read entries
  let score ← optional "score" none (scoreCodec numbers).read entries
  .ok { language, capabilities, qualified, score }

def memoryFields : List Field :=
  [(u64 numbers).field "ram_bytes" true, (u64 numbers).field "vram_bytes" true, (u64 numbers).field "kv_cache_bytes" true]

def writeMemory (memory : MemoryEstimate) : Value :=
  .object [("ram_bytes", (u64 numbers).write memory.ramBytes), ("vram_bytes", (u64 numbers).write memory.vramBytes),
    ("kv_cache_bytes", (u64 numbers).write memory.kvCacheBytes)]

def readMemory (v : Value) : De MemoryEstimate := do
  let entries ← structFields "MemoryEstimate" (memoryFields numbers) v
  let ramBytes ← required "ram_bytes" (u64 numbers).read entries
  let vramBytes ← required "vram_bytes" (u64 numbers).read entries
  let kvCacheBytes ← required "kv_cache_bytes" (u64 numbers).read entries
  .ok { ramBytes, vramBytes, kvCacheBytes }

def gateFields : List Field := [string.field "name" true, string.vec.field "command" true, bool.field "required" true]

def writeGate (gate : QualificationGate) : Value :=
  .object [("name", string.write gate.name), ("command", string.vec.write gate.command), ("required", bool.write gate.required)]

def readGate (v : Value) : De QualificationGate := do
  let entries ← structFields "QualificationGate" gateFields v
  let name ← required "name" string.read entries
  let command ← required "command" string.vec.read entries
  let required_ ← required "required" bool.read entries
  .ok { name, command, required := required_ }

def artifactFields : List Field :=
  [string.field "path" true, optionString.field "sha256" false, string.field "source" true, optionString.field "source_revision" false]

/-- `path` is the path, which is UTF-8. -/
def writeArtifact (artifact : ArtifactProfile) (path : String) : Value :=
  .object [("path", string.write path), ("sha256", optionString.write artifact.sha256), ("source", string.write artifact.source),
    ("source_revision", optionString.write artifact.sourceRevision)]

def readArtifact (v : Value) : De ArtifactProfile := do
  let entries ← structFields "ArtifactProfile" artifactFields v
  let path ← required "path" string.read entries
  let sha256 ← optional "sha256" none optionString.read entries
  let source ← required "source" string.read entries
  let sourceRevision ← optional "source_revision" none optionString.read entries
  .ok { path := osString path, sha256, source, sourceRevision }

def profileFields : List Field :=
  [string.field "schema" true, string.field "alias" true, .of "artifact" true readArtifact, .of "license" true readLicense,
    .of "languages" true (readVec (readLanguage numbers)), string.field "format" true, optionString.field "quantization" false,
    string.field "backend" true, (u32 numbers).field "context_tokens" true, .of "memory" true (readMemory numbers),
    string.field "prompt_template" true, optionString.field "output_grammar" false,
    string.vec.vec.field "verification_commands" true, .of "gates" true (readVec readGate), string.field "security_maturity" true,
    statusCodec.field "qualification" true, optionString.field "quarantine_reason" false]

def writeProfileValue (profile : SpecialistModelProfile) (path : String) : Value :=
  .object [("schema", string.write profile.schema), ("alias", string.write profile.alias_),
    ("artifact", writeArtifact profile.artifact path), ("license", writeLicense profile.license),
    ("languages", .array (profile.languages.map (writeLanguage numbers))), ("format", string.write profile.format),
    ("quantization", optionString.write profile.quantization), ("backend", string.write profile.backend),
    ("context_tokens", (u32 numbers).write profile.contextTokens), ("memory", writeMemory numbers profile.memory),
    ("prompt_template", string.write profile.promptTemplate), ("output_grammar", optionString.write profile.outputGrammar),
    ("verification_commands", string.vec.vec.write profile.verificationCommands), ("gates", .array (profile.gates.map writeGate)),
    ("security_maturity", string.write profile.securityMaturity), ("qualification", statusCodec.write profile.qualification),
    ("quarantine_reason", optionString.write profile.quarantineReason)]

def readProfileValue (v : Value) : De SpecialistModelProfile := do
  let entries ← structFields "SpecialistModelProfile" (profileFields numbers) v
  let schema ← required "schema" string.read entries
  let alias_ ← required "alias" string.read entries
  let artifact ← required "artifact" readArtifact entries
  let license ← required "license" readLicense entries
  let languages ← required "languages" (readVec (readLanguage numbers)) entries
  let format ← required "format" string.read entries
  let quantization ← optional "quantization" none optionString.read entries
  let backend ← required "backend" string.read entries
  let contextTokens ← required "context_tokens" (u32 numbers).read entries
  let memory ← required "memory" (readMemory numbers) entries
  let promptTemplate ← required "prompt_template" string.read entries
  let outputGrammar ← optional "output_grammar" none optionString.read entries
  let verificationCommands ← required "verification_commands" string.vec.vec.read entries
  let gates ← required "gates" (readVec readGate) entries
  let securityMaturity ← required "security_maturity" string.read entries
  let qualification ← required "qualification" statusCodec.read entries
  let quarantineReason ← optional "quarantine_reason" none optionString.read entries
  .ok
    { schema, alias_, artifact, license, languages, format, quantization, backend, contextTokens, memory, promptTemplate,
      outputGrammar, verificationCommands, gates, securityMaturity, qualification, quarantineReason }

/-- `serde_json::to_vec_pretty` -/
def toVecPretty (profile : SpecialistModelProfile) : Result (List UInt8) :=
  match String.fromUTF8? ⟨profile.artifact.path.toArray⟩ with
  | some path => .ok (osString (writeProfileValue numbers profile path).pretty)
  | none => .error "path contains invalid UTF-8 characters"

/-- `serde_json::from_slice` -/
def fromSlice (bytes : List UInt8) : Option SpecialistModelProfile := do
  let text ← String.fromUTF8? ⟨bytes.toArray⟩
  let v ← Value.fromStr text
  (readProfileValue numbers v).toOption

end

/-! ## The directory -/

abbrev File := OsString × List UInt8

/-- The files of a directory by their names. -/
structure Directory where
  files : List File
  nodup : (files.map (·.1)).Nodup

namespace Directory

def empty : Directory := ⟨[], .nil⟩

def read (dir : Directory) (name : OsString) : Option (List UInt8) := (dir.files.find? fun file => file.1 == name).map (·.2)

def write (dir : Directory) (name : OsString) (bytes : List UInt8) : Directory where
  files := Cli.upsertBy (·.1) (name, bytes) dir.files
  nodup := Cli.nodup_upsertBy dir.nodup (name, bytes)

def remove (dir : Directory) (name : OsString) : Directory where
  files := dir.files.filter fun file => file.1 != name
  nodup := (List.filter_sublist.map _).nodup dir.nodup

end Directory

def profileName (alias_ : String) : OsString := osString (alias_ ++ ".json")

def profilePath (root alias_ : String) : String := Cli.joinPath (Cli.joinPath root "profiles") (alias_ ++ ".json")

def validateAlias (alias_ : String) : Result Unit :=
  if alias_.toList = [] ∨ ¬alias_.toList.all Cli.isAsciiKeyChar then .error "profile alias contains unsupported characters" else .ok ()

/-- `profiles`, if it is there. -/
abbrev ProfilesDir := Option Directory

section
variable (numbers : Numbers) (root : String)

def writeProfile (dir : ProfilesDir) (profile : SpecialistModelProfile) : Result String × ProfilesDir :=
  match validateAlias profile.alias_ with
  | .error e => (.error e, dir)
  | .ok _ =>
    let created := dir.getD .empty
    match toVecPretty numbers profile with
    | .error e => (.error e, some created)
    | .ok bytes => (.ok (profilePath root profile.alias_), some (created.write (profileName profile.alias_) bytes))

def readProfile (dir : ProfilesDir) (alias_ : String) : Result SpecialistModelProfile := do
  validateAlias alias_
  match dir.bind fun dir => dir.read (profileName alias_) with
  | none => .error s!"read {profilePath root alias_}"
  | some bytes =>
    match fromSlice numbers bytes with
    | some profile => .ok profile
    | none => .error s!"parse {profilePath root alias_}"

/-- `readDir` gives the files in the order in which they are read. -/
def listProfiles (readDir : List File → List File) (dir : ProfilesDir) : List SpecialistModelProfile :=
  match dir with
  | none => []
  | some dir =>
    (((readDir dir.files).filter fun file => extension file.1 == some (osString "json")).filterMap fun file =>
      fromSlice numbers file.2).insertionSort fun left right => left.alias_ ≤ right.alias_

def removeProfile (dir : ProfilesDir) (alias_ : String) : Result Unit × ProfilesDir :=
  match validateAlias alias_ with
  | .error e => (.error e, dir)
  | .ok _ =>
    match dir with
    | none => (.error s!"remove {profilePath root alias_}", none)
    | some dir =>
      if (dir.read (profileName alias_)).isSome then (.ok (), some (dir.remove (profileName alias_)))
      else (.error s!"remove {profilePath root alias_}", some dir)

end

/-! ## The commands -/

inductive ModelProfileCommand where
  | list
  | inspect (alias_ : String)
  | importLocal (path : OsString) (alias_ : String)
  | importCatalog (id : String)
  | qualify (alias_ : String) (availableVramBytes : Option UInt64)
  | quarantine (alias_ reason : String)
  | remove (alias_ : String)
  | adapters
  deriving DecidableEq, Repr

/-- What a command meets: the files outside the directory, and the order in which this is read. -/
structure ProfileInputs where
  stat : OsString → Option Artifact
  readDir : List File → List File
  perm : ∀ files, (readDir files).Perm files

structure ProfileCall where
  command : ModelProfileCommand
  inputs : ProfileInputs

inductive Answer where
  | profiles (profiles : List SpecialistModelProfile)
  | profile (profile : SpecialistModelProfile)
  | stored (status : String) (path : String) (policy : Option ProfilePolicyReport) (profile : SpecialistModelProfile)
  | removed (alias_ : String)
  | adapters (catalog : AdapterCatalog)
  deriving DecidableEq, Repr

section
variable (numbers : Numbers) (sha256 : List UInt8 → String) (root : String)

/-- What a command does with the profile that it wants stored. -/
def storeProfile (status : String) (policy : Option ProfilePolicyReport) (dir : ProfilesDir) (profile : SpecialistModelProfile) :
    Result Answer × ProfilesDir :=
  match writeProfile numbers root dir profile with
  | (.error e, dir) => (.error e, dir)
  | (.ok path, dir) => (.ok (.stored status path policy profile), dir)

def modelProfileCommand (dir : ProfilesDir) (call : ProfileCall) : Result Answer × ProfilesDir :=
  match call.command with
  | .list => (.ok (.profiles (listProfiles numbers call.inputs.readDir dir)), dir)
  | .inspect alias_ => ((readProfile numbers root dir alias_).map .profile, dir)
  | .importLocal path alias_ =>
    match importLocalCandidate sha256 call.inputs.stat path alias_ with
    | .error e => (.error e, dir)
    | .ok profile => storeProfile numbers root "candidate" none dir profile
  | .importCatalog id =>
    match importCatalogCandidate id with
    | .error e => (.error e, dir)
    | .ok profile => storeProfile numbers root "candidate" none dir profile
  | .qualify alias_ availableVramBytes =>
    match readProfile numbers root dir alias_ with
    | .error e => (.error e, dir)
    | .ok profile =>
      let (profile, policy) := qualifyProfile profile availableVramBytes
      storeProfile numbers root profile.qualification.text (some policy) dir profile
  | .quarantine alias_ reason =>
    match readProfile numbers root dir alias_ with
    | .error e => (.error e, dir)
    | .ok profile =>
      storeProfile numbers root "quarantined" none dir
        { profile with qualification := .quarantined, quarantineReason := some reason }
  | .remove alias_ =>
    match removeProfile root dir alias_ with
    | (.error e, dir) => (.error e, dir)
    | (.ok _, dir) => (.ok (.removed alias_), dir)
  | .adapters => (.ok (.adapters backendCatalog), dir)

/-! ## A registry -/

/-- What the directory stands for: the profiles by their aliases. -/
abbrev Registry := SortedMap String SpecialistModelProfile

namespace Registry

/-- A profile is stored under its alias, if its path can be written. -/
def store (status : String) (policy : Option ProfilePolicyReport) (registry : Registry) (profile : SpecialistModelProfile) :
    Result Answer × Registry :=
  match validateAlias profile.alias_ with
  | .error e => (.error e, registry)
  | .ok _ =>
    match String.fromUTF8? ⟨profile.artifact.path.toArray⟩ with
    | none => (.error "path contains invalid UTF-8 characters", registry)
    | some _ =>
      (.ok (.stored status (profilePath root profile.alias_) policy profile), registry.insert profile.alias_ profile)

def find (registry : Registry) (alias_ : String) : Result SpecialistModelProfile := do
  validateAlias alias_
  match registry.get alias_ with
  | some profile => .ok profile
  | none => .error s!"read {profilePath root alias_}"

def call (registry : Registry) (call : ProfileCall) : Result Answer × Registry :=
  match call.command with
  | .list => (.ok (.profiles (registry.entries.map (·.2))), registry)
  | .inspect alias_ => ((registry.find root alias_).map .profile, registry)
  | .importLocal path alias_ =>
    match importLocalCandidate sha256 call.inputs.stat path alias_ with
    | .error e => (.error e, registry)
    | .ok profile => registry.store root "candidate" none profile
  | .importCatalog id =>
    match importCatalogCandidate id with
    | .error e => (.error e, registry)
    | .ok profile => registry.store root "candidate" none profile
  | .qualify alias_ availableVramBytes =>
    match registry.find root alias_ with
    | .error e => (.error e, registry)
    | .ok profile =>
      let (profile, policy) := qualifyProfile profile availableVramBytes
      registry.store root profile.qualification.text (some policy) profile
  | .quarantine alias_ reason =>
    match registry.find root alias_ with
    | .error e => (.error e, registry)
    | .ok profile =>
      registry.store root "quarantined" none { profile with qualification := .quarantined, quarantineReason := some reason }
  | .remove alias_ =>
    match validateAlias alias_ with
    | .error e => (.error e, registry)
    | .ok _ =>
      match registry.get alias_ with
      | some _ => (.ok (.removed alias_), registry.erase alias_)
      | none => (.error s!"remove {profilePath root alias_}", registry)
  | .adapters => (.ok (.adapters backendCatalog), registry)

end Registry

end

end Llmctl.Profiles
