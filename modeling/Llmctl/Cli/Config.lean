import Llmctl.Async.World
import Llmctl.Routing

/-!
# Commands that change the configuration

Each such command of `llmctl` loads the configuration file, computes a new
configuration and saves it by renaming a new file over the old one. What the
command learns elsewhere (an installed artifact, a manifest, the time) is its
`Inputs`.
-/

namespace Llmctl.Cli

open Async

/-! ## The configuration -/

structure ModelConfig where
  alias_ : String
  path : String
  role : String
  family : Option String
  weight : Nat
  deriving DecidableEq, Repr

structure ApiKeyConfig where
  id : String
  sha256 : String
  subject : String
  team : String
  scopes : List String
  createdAt : Option Int
  expiresAt : Option Int
  rotatedAt : Option Int
  owner : Option String
  purpose : Option String
  lastFour : Option String
  fingerprint : Option String
  status : String
  deriving DecidableEq, Repr

/-- The sections that the commands read or change. -/
structure Config where
  models : List ModelConfig
  apiKeys : List ApiKeyConfig
  modelDir : String
  deriving DecidableEq, Repr

/-- Replaces the first entry with the same key, or appends. -/
def upsertBy {α κ : Type} [DecidableEq κ] (key : α → κ) (entry : α) : List α → List α
  | [] => [entry]
  | x :: xs => if key x = key entry then entry :: xs else x :: upsertBy key entry xs

def upsertModel (models : List ModelConfig) (model : ModelConfig) : List ModelConfig :=
  upsertBy (·.alias_) model models

def upsertApiKey (keys : List ApiKeyConfig) (key : ApiKeyConfig) : List ApiKeyConfig :=
  upsertBy (·.id) key keys

def modifyFirst {α : Type} (p : α → Bool) (f : α → α) : List α → List α
  | [] => []
  | x :: xs => if p x then f x :: xs else x :: modifyFirst p f xs

/-! ## Commands -/

structure ModelInstallArgs where
  source : String
  alias_ : String
  role : String
  family : String
  weight : Nat
  copy : Bool
  sha256 : Option String
  deriving DecidableEq, Repr

structure ModelReplaceArgs where
  source : String
  alias_ : String
  newAlias : Option String
  role : Option String
  family : Option String
  weight : Option Nat
  copy : Bool
  sha256 : Option String
  dryRun : Bool
  deriving DecidableEq, Repr

structure SecurityAddKeyArgs where
  id : String
  sha256 : String
  subject : String
  team : String
  scopes : List String
  owner : Option String
  purpose : Option String
  expiresAt : Option Int
  lastFour : Option String
  deriving DecidableEq, Repr

structure SecurityRotateKeyArgs where
  id : String
  newId : Option String
  sha256 : String
  expiresAt : Option Int
  lastFour : Option String
  replace : Bool
  deriving DecidableEq, Repr

/-- `replaceModel` is the command of update, upgrade and downgrade. -/
inductive Command where
  | install (args : ModelInstallArgs)
  | startModel (alias_ : String) (weight : Option Nat) (dryRun : Bool)
  | stopModel (alias_ : String) (dryRun : Bool)
  | replaceModel (args : ModelReplaceArgs)
  | importManifest (manifest : String)
  | addKey (args : SecurityAddKeyArgs)
  | rotateKey (args : SecurityRotateKeyArgs)
  | revokeKey (id : String)
  deriving DecidableEq, Repr

structure ModelInstallRequest where
  alias_ : String
  source : String
  cacheDir : String
  copyToCache : Bool
  expectedSha256 : Option String
  role : String
  family : Option String
  weight : Nat
  deriving DecidableEq, Repr

structure Inputs where
  createStorageDirs : Result Unit := .ok ()
  /-- The path of the artifact that `install_model` leaves in place. -/
  installModel : ModelInstallRequest → Result String
  importOfflineManifest : String → Result (List ModelConfig)
  now : Int

def installed (inputs : Inputs) (request : ModelInstallRequest) : Result ModelConfig := do
  let path ← inputs.installModel request
  pure ⟨request.alias_, path, request.role, request.family, request.weight⟩

def notConfigured (alias_ : String) : String := s!"model alias '{alias_}' is not configured"

def findModel (cfg : Config) (alias_ : String) : Result ModelConfig :=
  match cfg.models.find? fun model => model.alias_ == alias_ with
  | some model => .ok model
  | none => .error (notConfigured alias_)

def setWeight (cfg : Config) (alias_ : String) (weight : Nat) : Config :=
  { cfg with models := modifyFirst (fun model => model.alias_ == alias_) (fun model => { model with weight }) cfg.models }

def isAsciiKeyChar (c : Char) : Bool := c.isAlphanum || c == '-' || c == '_' || c == '.'

def validateApiKeyId (id : String) : Result Unit :=
  if (trim id).isEmpty then .error "api key id must not be empty"
  else if id.toList.all isAsciiKeyChar then .ok ()
  else .error "api key id must contain only ASCII letters, digits, dash, underscore, or dot"

def isHexDigit (c : Char) : Bool :=
  c.isDigit || ('a' ≤ c && c ≤ 'f') || ('A' ≤ c && c ≤ 'F')

def validateSha256Digest (sha256 : String) : Result Unit :=
  if sha256.toList.length = 64 ∧ sha256.toList.all isHexDigit then .ok ()
  else .error "sha256 must be 64 hexadecimal characters"

def validateAddKeyArgs (id sha256 subject team : String) : Result Unit := do
  validateApiKeyId id
  validateSha256Digest sha256
  if (trim subject).isEmpty then .error "subject must not be empty"
  else if (trim team).isEmpty then .error "team must not be empty"
  else .ok ()

def keyNotFound (id : String) : String := s!"api key id `{id}` was not found"

def findKey (cfg : Config) (id : String) : Result ApiKeyConfig :=
  match cfg.apiKeys.find? fun key => key.id == id with
  | some key => .ok key
  | none => .error (keyNotFound id)

/-! ## What a command computes from the configuration it loaded -/

def replaceModel (args : ModelReplaceArgs) (inputs : Inputs) (cfg : Config) : Result (Option Config) := do
  let previous ← findModel cfg args.alias_
  let targetAlias := args.newAlias.getD previous.alias_
  if args.dryRun then pure none
  else
    inputs.createStorageDirs
    let model ← installed inputs
      { alias_ := targetAlias, source := args.source, cacheDir := cfg.modelDir, copyToCache := args.copy,
        expectedSha256 := args.sha256, role := args.role.getD previous.role, family := args.family <|> previous.family,
        weight := args.weight.getD previous.weight }
    let models := if targetAlias ≠ previous.alias_
      then cfg.models.filter fun model => model.alias_ != previous.alias_
      else cfg.models
    pure (some { cfg with models := upsertModel models model })

def addKey (args : SecurityAddKeyArgs) (inputs : Inputs) (cfg : Config) : Result (Option Config) := do
  let sha256 := args.sha256.toLower
  validateAddKeyArgs args.id sha256 args.subject args.team
  let key : ApiKeyConfig :=
    { id := args.id, sha256, subject := args.subject, team := args.team, scopes := args.scopes,
      createdAt := some inputs.now, expiresAt := args.expiresAt, rotatedAt := none, owner := args.owner,
      purpose := args.purpose, lastFour := args.lastFour, fingerprint := none, status := "active" }
  pure (some { cfg with apiKeys := upsertApiKey cfg.apiKeys key })

def retireKey (now : Int) (key : ApiKeyConfig) : ApiKeyConfig :=
  { key with status := "retiring", rotatedAt := some now }

/-- The key that takes over from `retiring`. -/
def replacementKey (args : SecurityRotateKeyArgs) (newId : String) (now : Int) (retiring : ApiKeyConfig) : ApiKeyConfig :=
  { retiring with
    id := newId, sha256 := args.sha256.toLower, createdAt := some now, expiresAt := args.expiresAt, rotatedAt := none,
    lastFour := args.lastFour, fingerprint := none, status := "active" }

def replaceKey (args : SecurityRotateKeyArgs) (now : Int) (key : ApiKeyConfig) : ApiKeyConfig :=
  { key with
    sha256 := args.sha256.toLower, rotatedAt := some now, expiresAt := args.expiresAt <|> key.expiresAt,
    lastFour := args.lastFour <|> key.lastFour, status := "active" }

def rotateKey (args : SecurityRotateKeyArgs) (inputs : Inputs) (cfg : Config) : Result (Option Config) := do
  validateSha256Digest args.sha256.toLower
  let key ← findKey cfg args.id
  match args.newId with
  | some newId =>
    validateApiKeyId newId
    if cfg.apiKeys.any fun key => key.id == newId then .error s!"api key id `{newId}` already exists"
    else
      let keys := modifyFirst (fun key => key.id == args.id) (retireKey inputs.now) cfg.apiKeys
      pure (some { cfg with apiKeys := keys ++ [replacementKey args newId inputs.now key] })
  | none =>
    if args.replace then
      pure (some { cfg with
        apiKeys := modifyFirst (fun key => key.id == args.id) (replaceKey args inputs.now) cfg.apiKeys })
    else .error "rotate-key requires --new-id for overlap rotation or --replace for in-place replacement"

def revokeKey (id : String) (cfg : Config) : Result (Option Config) := do
  let _ ← findKey cfg id
  pure (some { cfg with apiKeys := cfg.apiKeys.eraseP fun key => key.id == id })

/-- The configuration that a command saves, if it saves one. -/
def Command.compute (inputs : Inputs) (cfg : Config) : Command → Result (Option Config)
  | .install args => do
    inputs.createStorageDirs
    let model ← installed inputs
      { alias_ := args.alias_, source := args.source, cacheDir := cfg.modelDir, copyToCache := args.copy,
        expectedSha256 := args.sha256, role := args.role, family := some args.family, weight := args.weight }
    pure (some { cfg with models := upsertModel cfg.models model })
  | .startModel alias_ weight dryRun => do
    let model ← findModel cfg alias_
    if dryRun then pure none else pure (some (setWeight cfg alias_ (weight.getD (max model.weight 1))))
  | .stopModel alias_ dryRun => do
    let _ ← findModel cfg alias_
    if dryRun then pure none else pure (some (setWeight cfg alias_ 0))
  | .replaceModel args => Cli.replaceModel args inputs cfg
  | .importManifest manifest => do
    inputs.createStorageDirs
    let models ← inputs.importOfflineManifest manifest
    pure (some { cfg with models := models.foldl upsertModel cfg.models })
  | .addKey args => Cli.addKey args inputs cfg
  | .rotateKey args => Cli.rotateKey args inputs cfg
  | .revokeKey id => Cli.revokeKey id cfg

def Command.dryRun : Command → Bool
  | .startModel _ _ dryRun | .stopModel _ dryRun => dryRun
  | .replaceModel args => args.dryRun
  | _ => false

/-! ## Processes -/

/-- `finish` is what follows the save: the model table, the audit event. -/
inductive CliOp where
  | load
  | compute (cfg : Config)
  | save (cfg : Config)
  | finish

@[reducible] def CliSig : Sig where
  Op := CliOp
  Ans
    | .load => Result Config
    | .compute _ => Result (Option Config)
    | .save _ | .finish => Result Unit

def configCommand : Prog CliSig (Result Unit) := do
  match ← Prog.op (S := CliSig) .load with
  | .error e => pure (.error e)
  | .ok cfg =>
    match ← Prog.op (S := CliSig) (.compute cfg) with
    | .error e => pure (.error e)
    | .ok none => pure (.ok ())
    | .ok (some cfg) =>
      match ← Prog.op (S := CliSig) (.save cfg) with
      | .error e => pure (.error e)
      | .ok _ => Prog.op (S := CliSig) .finish

/-- The file, and the processes that saved it, in order. -/
structure ConfigFile (ι : Type) where
  content : Config
  saves : List ι

structure Copy where
  /-- What the process has loaded and may still save. -/
  loaded : Option Config := none
  saved : Bool := false
  deriving DecidableEq, Repr

section
variable (ι : Type) (commands : ι → Command) (inputs : ι → Inputs)

namespace CliOp

variable {ι}

def can (i : ι) (f : ConfigFile ι) : (o : CliOp) → CliSig.Ans o → Bool
  | .load, .ok cfg => cfg == f.content
  | .compute cfg, r => decide (r = (commands i).compute (inputs i) cfg)
  | _, _ => true

def loc : (o : CliOp) → CliSig.Ans o → Copy → Copy
  | .load, .ok cfg, l => { l with loaded := some cfg }
  | .compute _, .ok (some _), l => l
  | .save _, .ok _, _ => { saved := true }
  | _, _, l => { l with loaded := none }

/-- A save renames a whole new file over the old one. -/
def sh (i : ι) : (o : CliOp) → CliSig.Ans o → ConfigFile ι → ConfigFile ι
  | .save cfg, .ok _, f => ⟨cfg, f.saves ++ [i]⟩
  | _, _, f => f

end CliOp

/-- A process can be killed at any step. -/
def configWorld : World CliSig ι Copy (ConfigFile ι) Empty where
  can i o a _ f := o.can commands inputs i f a
  loc _ o a l := o.loc a l
  sh i o a _ f := o.sh i a f
  canDrop _ _ := true
  dropLoc _ _ l := { l with loaded := none }
  dropSh _ _ _ f := f
  canEnv e _ := e.elim
  env e _ := e.elim

abbrev CliConf := Conf CliSig (Result Unit) ι Copy (ConfigFile ι)

def configStart (cfg : Config) : CliConf ι where
  prog _ := some configCommand
  loc _ := {}
  sh := ⟨cfg, []⟩

end

end Llmctl.Cli
