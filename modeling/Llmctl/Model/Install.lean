import Mathlib.Data.List.Infix
import Llmctl.Fs.Changes
import Llmctl.Routing
import Llmctl.Sse
import Mathlib.Data.List.Sort

/-!
# Installing models

`install_model` brings an artifact into the model cache, by a copy or a download, or registers
it where it is. Paths are absolute and have neither `.` nor `..` in them.
-/

namespace Llmctl.Install

open Fs

/-! ## Names -/

def osString (s : String) : OsString := s.toUTF8.data.toList

def toStr (name : OsString) : Option OsString := if ByteArray.validateUTF8 ⟨name.toArray⟩ then some name else none

/-- As it is displayed, with one replacement character for a name that is no UTF-8. -/
def displayName (name : OsString) : String := (String.fromUTF8? ⟨name.toArray⟩).getD "\uFFFD"

def display (path : Path) : String := "/" ++ "/".intercalate (path.reverse.map displayName)

def toAsciiLowercase (name : OsString) : OsString := name.map fun b => if 65 ≤ b ∧ b ≤ 90 then b + 32 else b

/-- A name up to its last dot, and from there on. -/
def rsplitFileAtDot (name : OsString) : Option OsString × Option OsString :=
  if name = osString ".." then (some name, none)
  else if 46 ∈ name then
    let after := (name.reverse.takeWhile (· ≠ 46)).reverse
    let before := name.take (name.length - after.length - 1)
    if before = [] then (some name, none) else (some before, some after)
  else (none, some name)

def fileStem (name : OsString) : Option OsString := (rsplitFileAtDot name).1 <|> (rsplitFileAtDot name).2

def extension (name : OsString) : Option OsString := (rsplitFileAtDot name).1.bind fun _ => (rsplitFileAtDot name).2

def withExtension (extension : OsString) : Path → Path
  | [] => []
  | name :: dir =>
    match fileStem name with
    | some stem => (if extension = [] then stem else stem ++ [46] ++ extension) :: dir
    | none => name :: dir

/-- The names in a relative path. -/
def components (path : OsString) : List OsString := (path.splitOn 47).filter fun name => name ≠ [] ∧ name ≠ [46]

/-! ## Requests -/

inductive ModelSource where
  | localPath (path : Path)
  | directUrl (url : String)
  | huggingFace (repo filename revision : String)
  deriving DecidableEq, Repr

structure ModelInstallRequest where
  alias_ : String
  source : ModelSource
  copyToCache : Bool
  expectedSha256 : Option String
  role : String
  family : Option String
  weight : Nat
  deriving DecidableEq, Repr

inductive ModelInstallSourceKind where
  | local_
  | offline
  | download
  deriving DecidableEq, Repr

structure ModelInstallVerification where
  sha256Required : Bool
  expectedSha256 : Option String
  actualSha256 : Option String
  verified : Bool
  deriving DecidableEq, Repr

structure ModelInstallPlan where
  alias_ : String
  sourceKind : ModelInstallSourceKind
  sourceUrl : Option String
  verification : ModelInstallVerification
  deriving DecidableEq, Repr

structure ModelConfig where
  alias_ : String
  path : Path
  role : String
  family : Option String
  weight : Nat
  deriving DecidableEq, Repr

structure InstalledModel where
  alias_ : String
  path : Path
  sha256 : String
  bytes : Nat
  source : ModelSource
  sourceKind : ModelInstallSourceKind
  verification : ModelInstallVerification
  config : ModelConfig
  deriving DecidableEq, Repr

def validateAlias (alias_ : String) : Result Unit :=
  if (trim alias_).isEmpty then .error "model alias cannot be empty"
  else if alias_.toList.all fun c => c.isAlphanum || c == '-' || c == '_' || c == '.' then .ok ()
  else .error "model alias may only contain ASCII letters, numbers, '.', '-', and '_'"

def normalizedSha256 (value : String) : Result String :=
  let normalized := value.toLower
  if normalized.toList.length = 64 ∧ normalized.toList.all (fun c => c.isDigit || ('a' ≤ c && c ≤ 'f')) then .ok normalized
  else .error "sha256 must be 64 hexadecimal characters"

def ensureRelativeComponent (value label : String) : Result Unit :=
  if (trim value).isEmpty then .error s!"{label} cannot be empty"
  else if "..".toList <:+: value.toList ∨ value.startsWith "/" ∨ value.startsWith "\\" then
    .error s!"{label} must be a relative HuggingFace path component"
  else .ok ()

def hfBaseUrl : String := "https://huggingface.co"

def huggingfaceDownloadUrl (repo filename revision : String) : Result String := do
  ensureRelativeComponent repo "repo"
  ensureRelativeComponent filename "filename"
  ensureRelativeComponent revision "revision"
  pure s!"{hfBaseUrl}/{repo}/resolve/{revision}/{filename}?download=true"

structure Response where
  partialContent : Bool
  chunks : List (List UInt8)
  /-- What ended the body before its end. -/
  readError : Option String
  deriving DecidableEq, Repr

/-- The checks of an URL, and the answer to a request for it from some byte on. -/
structure Network where
  validateDirectDownloadUrl : String → Result Unit
  validateDirectDownloadResolvesPublic : String → Result Unit
  send : String → Option Nat → Result Response

def sourceUrl (network : Network) : ModelSource → Result (Option String)
  | .localPath _ => .ok none
  | .directUrl url => do
    network.validateDirectDownloadUrl url
    pure (some url)
  | .huggingFace repo filename revision => some <$> huggingfaceDownloadUrl repo filename revision

def installPlan (network : Network) (req : ModelInstallRequest) : Result ModelInstallPlan := do
  validateAlias req.alias_
  let sourceKind := match req.source with
    | .localPath _ => .local_
    | .directUrl _ | .huggingFace .. => .download
  let expectedSha256 ← req.expectedSha256.mapM normalizedSha256
  let sha256Required := decide (sourceKind = .download)
  if sha256Required && expectedSha256.isNone then .error "expected_sha256 is required for downloaded model sources"
  else
    let sourceUrl ← sourceUrl network req.source
    pure { alias_ := req.alias_, sourceKind, sourceUrl, verification := ⟨sha256Required, expectedSha256, none, false⟩ }

/-! ## Artifacts -/

def isSupportedModelFilename (name : OsString) : Bool :=
  (osString ".gguf").isSuffixOf (toAsciiLowercase name) || (osString ".safetensors").isSuffixOf (toAsciiLowercase name)

def ensureSupportedModelName (name : OsString) : Result Unit :=
  if isSupportedModelFilename name then .ok ()
  else .error s!"model artifact must use .gguf or .safetensors extension: {displayName name}"

def isSafetensorsName (name : OsString) : Bool := (osString ".safetensors").isSuffixOf (toAsciiLowercase name)

def isSafetensorsPath (path : Path) : Bool := (path.head?.bind toStr).any isSafetensorsName

def sidecars : List OsString := [osString "config.json", osString "tokenizer.json"]

def ensureSafetensorsFileLayout (tree : Tree) (path : Path) : Result Unit :=
  match sidecars.find? fun required => !tree.isFile (required :: path.tail) with
  | some required => .error s!"native safetensors file {display path} must have sibling {displayName required}"
  | none => .ok ()

def ensureSafetensorsLayout (tree : Tree) (path : Path) : Result Unit :=
  match sidecars.find? fun required => !tree.isFile (required :: path) with
  | some required => .error s!"native safetensors directory {display path} must include {displayName required}"
  | none =>
    if (tree.readDir path).any fun entry => (toStr entry.1).any isSafetensorsName then .ok ()
    else .error s!"native safetensors directory {display path} must include at least one .safetensors weight file"

def ensureSupportedArtifactPath (tree : Tree) (path : Path) : Result Unit :=
  match tree.metadata path with
  | none => .error s!"stat model artifact {display path}"
  | some .dir => ensureSafetensorsLayout tree path
  | some _ =>
    match path.head?.bind toStr with
    | none => .error s!"model path has no filename: {display path}"
    | some name => do
      ensureSupportedModelName name
      if isSafetensorsPath path then ensureSafetensorsFileLayout tree path else pure ()

/-- The regular files of a directory, in the order of their names. -/
def artifactFiles (tree : Tree) (path : Path) : List (OsString × List UInt8) :=
  ((tree.readDir path).filterMap fun
    | (name, .file bytes) => some (name, bytes)
    | _ => none).insertionSort fun left right => left.1 ≤ right.1

section
variable (sha256 : List UInt8 → String)

def sha256File (tree : Tree) (path : Path) : Result String :=
  match tree.metadata path with
  | some (.file bytes) => .ok (sha256 bytes)
  | _ => .error s!"open model for checksum {display path}"

def sha256ModelArtifact (tree : Tree) (path : Path) : Result String :=
  match tree.metadata path with
  | none => .error s!"stat model artifact {display path}"
  | some (.file bytes) => .ok (sha256 bytes)
  | some _ => do
    ensureSafetensorsLayout tree path
    pure (sha256 ((artifactFiles tree path).flatMap fun (name, bytes) =>
      (toStr name).getD [] ++ [0] ++ osString (sha256 bytes) ++ [0]))

def modelArtifactLen (tree : Tree) (path : Path) : Result Nat :=
  match tree.metadata path with
  | none => .error s!"stat model artifact {display path}"
  | some (.file bytes) => .ok bytes.length
  | some _ => .ok ((artifactFiles tree path).foldl (fun total file => saturatingAdd total file.2.length) 0)

/-! ## Copies -/

/-- The first path that is free, looking at so many of them and then taking the next. -/
def firstFree (tree : Tree) (candidate : Nat → Path) : Nat → Nat → Path
  | 0, idx => candidate idx
  | left + 1, idx => if tree.isPresent (candidate idx) then firstFree tree candidate left (idx + 1) else candidate idx

def numbered (filename : List OsString) (idx : Nat) : OsString :=
  let name := filename.getLast?
  let stem := ((name.bind fileStem).bind toStr).getD (osString "model")
  let ext := ((name.bind extension).bind toStr).getD (osString "gguf")
  stem ++ osString "-" ++ osString (toString idx) ++ osString "." ++ ext

/-- `filename` is given by its components. The search has no bound in the code; one name more
than the directory has is enough. -/
def uniqueDestination (tree : Tree) (cacheDir : Path) (filename : List OsString) : Path :=
  let destination := filename.reverse ++ cacheDir
  if !tree.isPresent destination then destination
  else firstFree tree (fun idx => numbered filename idx :: cacheDir) (tree.names cacheDir).length 1

/-- `depth` is the depth at which the system refuses a path. -/
def copyDir : Nat → Path → Path → FsM Unit
  | 0, _, destination => throw s!"create {display destination}"
  | depth + 1, source, destination => do
    createDirAll s!"create {display destination}" destination
    let tree ← get
    if !tree.isDir source then throw s!"read {display source}"
    else
      (tree.readDir source).forM fun (name, entry) =>
        match entry with
        | .dir => copyDir depth (name :: source) (name :: destination)
        | .file _ => copyFile (name :: source) (name :: destination)
            s!"copy {display (name :: source)} to {display (name :: destination)}"
        | .link _ => pure ()

def copySafetensorsFileLayout (source destinationDir : Path) : FsM Unit := do
  liftResult (ensureSafetensorsFileLayout (← get) source)
  match source with
  | [] => throw "native safetensors file has no filename"
  | filename :: parent =>
    copyFile source (filename :: destinationDir) s!"copy {display source} to {display destinationDir}"
    sidecars.forM fun sidecar =>
      copyFile (sidecar :: parent) (sidecar :: destinationDir) s!"copy safetensors sidecar {displayName sidecar}"

def maxDepth : Nat := 2048

def registerLocalModel (path cacheDir : Path) (copyToCache : Bool) : FsM Path := do
  let tree ← get
  liftResult (ensureSupportedArtifactPath tree path)
  if !copyToCache then pure path
  else
    createDirAll s!"create model cache {display cacheDir}" cacheDir
    match path with
    | [] => throw s!"local model has no filename: {display path}"
    | filename :: _ =>
      let tree ← get
      let destination := uniqueDestination tree cacheDir [filename]
      if tree.isDir path then
        copyDir maxDepth path destination
        pure destination
      else if isSafetensorsPath path then
        let directoryDestination := withExtension [] (uniqueDestination tree cacheDir [filename])
        createDirAll s!"create {display directoryDestination}" directoryDestination
        copySafetensorsFileLayout path directoryDestination
        pure directoryDestination
      else
        copyFile path destination s!"copy {display path} to {display destination}"
        pure destination

/-! ## Downloads -/

def downloadFilename (url nameHint : String) : Result OsString := do
  let withoutQuery := url.toList.takeWhile (· ≠ '?')
  let fromUrl := osString (String.ofList (withoutQuery.reverse.takeWhile (· ≠ '/')).reverse)
  let candidate := if isSupportedModelFilename fromUrl then fromUrl else osString nameHint
  ensureSupportedModelName candidate
  pure candidate

def verifyDownloadedModel (part destination : Path) (expectedSha256 : String) : FsM Unit := do
  match destination.head?.bind toStr with
  | none => throw s!"model path has no filename: {display destination}"
  | some name =>
    liftResult (ensureSupportedModelName name)
    if isSafetensorsName name then
      throw ("direct safetensors downloads are not supported without config.json and tokenizer.json sidecars; " ++
        "use an offline manifest or local safetensors directory")
    else
      let expectedSha256 ← liftResult (normalizedSha256 expectedSha256)
      let actual ← liftResult (sha256File sha256 (← get) part)
      if actual ≠ expectedSha256 then
        attempt (removeFile part "")
        throw s!"sha256 mismatch for {display destination}: expected {expectedSha256}, got {actual}"
      else rename part destination s!"move {display part} to {display destination}"

def fileLen (tree : Tree) (path : Path) : Nat :=
  match tree.metadata path with
  | some (.file bytes) => bytes.length
  | _ => 0

def downloadModel (network : Network) (url : String) (cacheDir : Path) (nameHint expectedSha256 : String) : FsM Path := do
  liftResult (network.validateDirectDownloadUrl url)
  liftResult (network.validateDirectDownloadResolvesPublic url)
  let expectedSha256 ← liftResult (normalizedSha256 expectedSha256)
  createDirAll s!"create model cache {display cacheDir}" cacheDir
  let filename ← liftResult (downloadFilename url nameHint)
  let tree ← get
  let destination := uniqueDestination tree cacheDir (components filename)
  let part := withExtension (osString "part") destination
  let partLen := fileLen tree part
  let response ← liftResult (network.send url (if 0 < partLen then some partLen else none))
  if 0 < partLen ∧ response.partialContent = true then
    appendFile part response.chunks.flatten s!"open partial download {display part}"
  else createFile part response.chunks.flatten s!"create partial download {display part}"
  match response.readError with
  | some _ =>
    attempt (removeFile part "")
    throw s!"read model download from {url}"
  | none =>
    verifyDownloadedModel sha256 part destination expectedSha256
    pure destination

/-! ## `install_model` -/

def missingSha256 (alias_ : String) : String :=
  s!"download plan for '{alias_}' is missing expected sha256 — refusing unverified download"

def fetch (network : Network) (cacheDir : Path) (req : ModelInstallRequest) (expectedSha256 : Option String) : FsM Path :=
  match req.source with
  | .localPath path => registerLocalModel path cacheDir req.copyToCache
  | .directUrl url =>
    match expectedSha256 with
    | none => throw (missingSha256 req.alias_)
    | some expected => downloadModel sha256 network url cacheDir req.alias_ expected
  | .huggingFace repo filename revision => do
    let url ← liftResult (huggingfaceDownloadUrl repo filename revision)
    match expectedSha256 with
    | none => throw (missingSha256 req.alias_)
    | some expected => downloadModel sha256 network url cacheDir filename expected

def installModel (network : Network) (cacheDir : Path) (req : ModelInstallRequest) : FsM InstalledModel := do
  let plan ← liftResult (installPlan network req)
  createDirAll s!"create model cache {display cacheDir}" cacheDir
  let path ← fetch sha256 network cacheDir req plan.verification.expectedSha256
  let tree ← get
  liftResult (ensureSupportedArtifactPath tree path)
  let actual ← liftResult (sha256ModelArtifact sha256 tree path)
  if plan.verification.expectedSha256.any (· ≠ actual) then
    let expected := plan.verification.expectedSha256.getD ""
    throw s!"sha256 mismatch for {display path}: expected {expected}, got {actual}"
  else
    let bytes ← liftResult (modelArtifactLen tree path)
    pure
      { alias_ := req.alias_, path, sha256 := actual, bytes, source := req.source, sourceKind := plan.sourceKind,
        verification := { plan.verification with actualSha256 := some actual, verified := plan.verification.expectedSha256.isSome },
        config := ⟨req.alias_, path, req.role, req.family, req.weight⟩ }

/-- A call, and the network that it meets. -/
structure Call where
  network : Network
  request : ModelInstallRequest

def Call.run (call : Call) (cacheDir : Path) (tree : Tree) : Result InstalledModel × Tree :=
  (installModel sha256 call.network cacheDir call.request).run.run tree

/-- The tree after some calls, one after the other. -/
def installs (cacheDir : Path) (tree : Tree) (calls : List Call) : Tree :=
  calls.foldl (fun tree call => (call.run sha256 cacheDir tree).2) tree

end

end Llmctl.Install
