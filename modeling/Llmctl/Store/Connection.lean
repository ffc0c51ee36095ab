import Llmctl.Server.Source

/-!
# The storage's connection

Which database a configuration means, and how its URL is shown: with the password of
`user:password@host` left out.
-/

namespace Llmctl

inductive StorageBackend where
  | sqlite
  | postgres
  deriving DecidableEq, Repr

structure StorageConfig where
  dbPath : String
  databaseUrl : Option String
  backend : Option StorageBackend
  deriving DecidableEq, Repr

structure StorageConnectionPlan where
  backend : StorageBackend
  target : String
  displayTarget : String
  deriving DecidableEq, Repr

/-- `str::split_once` with a text. -/
def splitOnceText (sep : List Char) : List Char → Option (List Char × List Char)
  | [] => if sep.isEmpty then some ([], []) else none
  | c :: s =>
    if sep.isPrefixOf (c :: s) then some ([], (c :: s).drop sep.length)
    else (splitOnceText sep s).map fun (before, after) => (c :: before, after)

def backendForUrl (databaseUrl : String) : Result StorageBackend :=
  match splitOnce ':' databaseUrl.toList with
  | none => .error "storage.database-url must include a URL scheme"
  | some (scheme, _) =>
    let scheme := String.ofList scheme
    if scheme = "sqlite" then .ok .sqlite
    else if scheme = "postgres" ∨ scheme = "postgresql" then .ok .postgres
    else .error s!"unsupported storage database-url scheme `{scheme}`"

def schemeEnd : List Char := "://".toList

def redactAuthorityUrl (scheme authority tail : List Char) : List Char :=
  match rsplitOnce '@' authority with
  | none => scheme ++ schemeEnd ++ authority ++ tail
  | some (userinfo, host) =>
    let redactedUserinfo :=
      match splitOnce ':' userinfo with
      | some (user, _password) => user ++ ":[REDACTED]".toList
      | none => userinfo
    scheme ++ schemeEnd ++ redactedUserinfo ++ '@' :: host ++ tail

def redactDatabaseUrl (databaseUrl : String) : String :=
  match splitOnceText schemeEnd databaseUrl.toList with
  | none => databaseUrl
  | some (scheme, rest) =>
    match splitOnce '/' rest with
    | none => String.ofList (redactAuthorityUrl scheme rest [])
    | some (authority, tail) => String.ofList (redactAuthorityUrl scheme authority ('/' :: tail))

def StorageConnectionPlan.fromConfig (config : StorageConfig) : Result StorageConnectionPlan :=
  match config.databaseUrl with
  | some databaseUrl => do
    let backend ← backendForUrl databaseUrl
    pure { backend, target := databaseUrl, displayTarget := redactDatabaseUrl databaseUrl }
  | none =>
    match config.backend.getD .sqlite with
    | .sqlite => .ok { backend := .sqlite, target := config.dbPath, displayTarget := config.dbPath }
    | .postgres => .error "postgres storage requires storage.database-url"

end Llmctl
