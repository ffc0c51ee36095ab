import Llmctl.Server.Accounting
import Llmctl.Server.Auth
import Llmctl.Server.Proxies

/-!
# The checks before serving

`server run` serves only with a configuration that `validateProductionSecurity` accepts.
What it asks of a server that others can reach is more than what it asks of any other.
-/

namespace Llmctl

structure TlsTerminationConfig where
  enabled : Bool
  provider : Option String
  evidence : Option String
  deriving DecidableEq, Repr

structure ServerTlsConfig where
  enabled : Bool
  certPath : Option String
  keyPath : Option String
  requireClientCert : Bool
  deriving DecidableEq, Repr

structure AuditConfig where
  retentionDays : Nat
  monthlyReports : Bool
  reportDirectory : Option String
  deriving DecidableEq, Repr

structure ObservabilityConfig where
  tracesEnabled : Bool
  metricsEnabled : Bool
  logsEnabled : Bool
  exporterEndpoint : Option String
  exporterHeaders : List (String × String)
  otlpEndpoint : Option String
  deriving DecidableEq, Repr

/-- What the checks read of the configuration. -/
structure ServingConfig where
  host : String
  tls : ServerTlsConfig
  security : SecurityConfig
  production : Bool
  bindExternal : Bool
  tlsTermination : TlsTerminationConfig
  audit : AuditConfig
  observability : ObservabilityConfig
  externalProviders : Bool
  deriving DecidableEq, Repr

def isExternalHost (host : String) : Bool := !(["127.0.0.1", "localhost", "::1"].contains (trim host))

/-- `anyhow::ensure!` -/
def ensure (holds : Bool) (message : String) : Result Unit := if holds then .ok () else .error message

def isBlank (value : String) : Bool := (trim value).isEmpty

/-! ## API keys -/

def isSha256Hex (value : String) : Bool := value.utf8ByteSize == 64 && value.toList.all Cli.isHexDigit

def validateApiKeysAreHashes (ids : List String) : List Cli.ApiKeyConfig → Result Unit
  | [] => .ok ()
  | key :: keys => do
    ensure (!isBlank key.id) "api key id must not be empty"
    ensure (!ids.contains key.id) s!"api key `{key.id}` is declared more than once"
    ensure (!isBlank key.subject) s!"api key `{key.id}` must declare a subject"
    ensure (!isBlank key.team) s!"api key `{key.id}` must declare a team"
    ensure (isSha256Hex key.sha256) s!"api key `{key.id}` must be stored as a sha256 hex digest"
    validateApiKeysAreHashes (key.id :: ids) keys

def isAllowedApiKeyScope (scope : String) : Bool := ["chat", "models.read", "models", "admin"].contains scope

def validateApiKeyScopes (keys : List Cli.ApiKeyConfig) : Result Unit :=
  keys.forM fun key => do
    ensure (!key.scopes.isEmpty) s!"api key `{key.id}` must declare at least one scope"
    key.scopes.forM fun scope => do
      ensure (!isBlank scope) s!"api key `{key.id}` has an empty scope"
      ensure (isAllowedApiKeyScope scope)
        s!"api key `{key.id}` has unknown scope `{scope}`; allowed scopes are chat, models.read, models, admin"

def isSafeKeyChar (c : Char) : Bool := c.isAlphanum || c == '-' || c == '_'

def validateApiKeyMetadata (keys : List Cli.ApiKeyConfig) : Result Unit :=
  keys.forM fun key => do
    ensure (["active", "retiring", "revoked"].contains key.status) s!"api key `{key.id}` has invalid status `{key.status}`"
    ensure (key.lastFour.all fun lastFour => lastFour.utf8ByteSize == 4 && lastFour.toList.all isSafeKeyChar)
      s!"api key `{key.id}` last_four must contain four safe characters"
    ensure (key.fingerprint.all fun fingerprint => !isBlank fingerprint)
      s!"api key `{key.id}` fingerprint must not be empty"

/-- The clock is read for every key that expires. -/
def validateApiKeysForActiveServing (now : Cli.ApiKeyConfig → Int) (keys : List Cli.ApiKeyConfig) : Result Unit :=
  keys.forM fun key => do
    ensure (key.status != "revoked") s!"api key `{key.id}` is revoked and must not be present in active serving config"
    ensure (key.expiresAt.all fun expiresAt => decide (now key < expiresAt))
      s!"api key `{key.id}` is expired and must be rotated or removed"

/-! ## Secrets, TLS and providers -/

def isSensitiveName (name : String) : Bool :=
  ["authorization", "api-key", "apikey", "token", "secret"].any fun word => containsText name.toLower word

def validateNoPlaintextObservabilitySecrets (cfg : ServingConfig) : Result Unit :=
  cfg.observability.exporterHeaders.forM fun header =>
    ensure (!isSensitiveName header.1 || "env:".toList.isPrefixOf header.2.toList)
      s!"observability header `{header.1}` must not contain a plaintext secret; use env:NAME"

def isGiven (path : Option String) : Bool := path.any fun path => !path.isEmpty

def validateNativeTlsConfig (cfg : ServingConfig) : Result Unit :=
  if !cfg.tls.enabled then .ok ()
  else do
    ensure (isGiven cfg.tls.certPath) "server.tls.cert-path is required when server TLS is enabled"
    ensure (isGiven cfg.tls.keyPath) "server.tls.key-path is required when server TLS is enabled"
    ensure (!cfg.tls.requireClientCert) "server.tls.require-client-cert is not supported without client CA configuration"

def nativeTlsHasCertAndKey (cfg : ServingConfig) : Bool :=
  cfg.tls.enabled && isGiven cfg.tls.certPath && isGiven cfg.tls.keyPath && !cfg.tls.requireClientCert

def validateExternalProviderSecurity (cfg : ServingConfig) : Result Unit :=
  ensure (!cfg.externalProviders)
    "external provider routing is disabled for this native-only release; route traffic through local rs-llmctl models"

def isStated (value : Option String) : Bool := value.any fun value => !isBlank value

def validateExternalTlsPosture (cfg : ServingConfig) : Result Unit :=
  if nativeTlsHasCertAndKey cfg then .ok ()
  else do
    ensure cfg.tlsTermination.enabled
      "external/production serving requires native TLS with cert/key or documented TLS termination or mTLS"
    ensure (isStated cfg.tlsTermination.provider) "TLS termination must declare a provider"
    ensure (isStated cfg.tlsTermination.evidence) "TLS termination must declare evidence"
    ensure (!cfg.security.trustedProxies.isEmpty)
      "TLS termination must declare trusted-proxies for proxy-aware auth throttling"

/-! ## All of them -/

/-- Others can reach the server. -/
def ServingConfig.isExternal (cfg : ServingConfig) : Bool := cfg.production || cfg.bindExternal || isExternalHost cfg.host

def validateExternalServing (now : Cli.ApiKeyConfig → Int) (cfg : ServingConfig) : Result Unit := do
  ensure (cfg.security.requireAuth && !cfg.security.apiKeys.isEmpty) "external/production serving requires authentication"
  cfg.security.trustedProxies.forM validateTrustedProxy
  validateApiKeysForActiveServing now cfg.security.apiKeys
  validateExternalTlsPosture cfg
  ensure (0 < cfg.audit.retentionDays) "CRA Article 14 active control requires audit retention"
  ensure cfg.audit.monthlyReports "CRA Article 14 active control requires monthly audit reports"
  ensure (isGiven cfg.audit.reportDirectory)
    "CRA Article 14 active control requires audit.report-directory for monthly evidence"
  ensure (cfg.observability.tracesEnabled && cfg.observability.metricsEnabled && cfg.observability.logsEnabled)
    "CRA Article 14 active control requires OTel traces, metrics, and logs"
  ensure (isStated (cfg.observability.exporterEndpoint <|> cfg.observability.otlpEndpoint))
    "CRA Article 14 active control requires an OTel exporter endpoint"

def validateProductionSecurity (now : Cli.ApiKeyConfig → Int) (cfg : ServingConfig) : Result Unit := do
  validateApiKeysAreHashes [] cfg.security.apiKeys
  validateApiKeyScopes cfg.security.apiKeys
  validateApiKeyMetadata cfg.security.apiKeys
  validateNoPlaintextObservabilitySecrets cfg
  validateNativeTlsConfig cfg
  validateExternalProviderSecurity cfg
  if cfg.isExternal then validateExternalServing now cfg else .ok ()

end Llmctl
