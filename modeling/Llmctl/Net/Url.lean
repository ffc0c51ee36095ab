import Llmctl.Net.Reserved

/-!
# URLs and the spellings of their hosts

What a program reads of a parsed URL. The parser takes the text apart and then reads the
host; of a host in an `http` or `https` URL it is known how its spellings read.
-/

namespace Net

inductive Host where
  | domain (name : String)
  | ipv4 (ip : BitVec 32)
  | ipv6 (ip : BitVec 128)
  deriving DecidableEq, Repr

/-- An IPv6 address stands in brackets, with its groups in hexadecimal throughout. -/
def Host.text : Host → String
  | .domain name => name
  | .ipv4 ip => IpAddr.ipv4Text ip
  | .ipv6 ip =>
    let segments := IpAddr.segments ip
    let (start, len) := IpAddr.longestZeros 0 (0, 0) (0, 0) segments
    let groups :=
      if 1 < len then IpAddr.colons (segments.take start) ++ "::" ++ IpAddr.colons (segments.drop (start + len))
      else IpAddr.colons segments
    "[" ++ groups ++ "]"

structure Url where
  scheme : String
  username : String
  password : Option String
  host : Option Host
  deriving DecidableEq, Repr

/-- A URL's text taken apart, with the text of its host. -/
structure UrlText where
  scheme : String
  username : String
  password : Option String
  host : Option String
  tail : String
  deriving DecidableEq, Repr

structure UrlParser where
  split : String → Option UrlText
  readHost : (scheme host : String) → Option Host

def UrlParser.parse (parser : UrlParser) (url : String) : Option Url := do
  let text ← parser.split url
  let host ←
    match text.host with
    | none => some none
    | some host => (parser.readHost text.scheme host).map some
  pure { scheme := text.scheme, username := text.username, password := text.password, host }

/-- `str::to_ascii_lowercase` -/
def asciiLower (s : String) : String := String.ofList (s.toList.map Char.toLower)

def HttpScheme (scheme : String) : Prop := scheme = "http" ∨ scheme = "https"

/-- What the standard says of the host parser: letter case is lost, a trailing dot is
kept, and no domain has the form of an address. -/
structure UrlParser.Whatwg (parser : UrlParser) : Prop where
  letterCase : ∀ {scheme host host'}, HttpScheme scheme → asciiLower host = asciiLower host' →
    parser.readHost scheme host = parser.readHost scheme host'
  trailingDot : ∀ {scheme host name}, HttpScheme scheme → parser.readHost scheme host = some (.domain name) →
    name.toList.getLast? ≠ some '.' → parser.readHost scheme (host ++ ".") = some (.domain (name ++ "."))
  domain : ∀ {scheme host name}, HttpScheme scheme → parser.readHost scheme host = some (.domain name) →
    IpAddr.parse name.toList = none

/-- Another spelling of a host. -/
inductive HostSpelling (readHost : String → Option Host) : String → String → Prop where
  | letterCase {host host' : String} : asciiLower host = asciiLower host' → HostSpelling readHost host host'
  | trailingDot {host host' name : String} : readHost host = some (.domain name) → name.toList.getLast? ≠ some '.' →
    asciiLower (host ++ ".") = asciiLower host' → HostSpelling readHost host host'
  | mapped {host host' : String} {ip : BitVec 32} : readHost host = some (.ipv4 ip) →
    readHost host' = some (.ipv6 (Ipv6.mapped ip)) → HostSpelling readHost host host'

/-- Two URLs that differ only in how the host is spelled. -/
def UrlParser.Respelled (parser : UrlParser) (u v : String) : Prop :=
  ∃ text text' host host', parser.split u = some text ∧ parser.split v = some text' ∧
    text.host = some host ∧ text' = { text with host := some host' } ∧
    HostSpelling (parser.readHost text.scheme) host host'

/-! ## What a spelling parses to -/

/-- The hosts that two spellings mean. -/
inductive SameHost : Host → Host → Prop where
  | refl (host : Host) : SameHost host host
  | trailingDot (name : String) : SameHost (.domain name) (.domain (name ++ "."))
  | mapped (ip : BitVec 32) : SameHost (.ipv4 ip) (.ipv6 (Ipv6.mapped ip))

variable {parser : UrlParser}

theorem UrlParser.parse_of_split {url host : String} {text : UrlText} (hsplit : parser.split url = some text)
    (hhost : text.host = some host) :
    parser.parse url = (parser.readHost text.scheme host).map fun host =>
      { scheme := text.scheme, username := text.username, password := text.password, host := some host } := by
  unfold UrlParser.parse
  rw [hsplit, Option.bind_eq_bind, Option.bind_some]
  simp only [hhost]
  cases parser.readHost text.scheme host with
  | none => rfl
  | some host => rfl

theorem HostSpelling.readHost (hw : parser.Whatwg) {scheme host host' : String} (hscheme : HttpScheme scheme)
    (h : HostSpelling (parser.readHost scheme) host host') :
    (parser.readHost scheme host = none ∧ parser.readHost scheme host' = none) ∨
      ∃ a b, parser.readHost scheme host = some a ∧ parser.readHost scheme host' = some b ∧ SameHost a b := by
  cases h with
  | letterCase hlower =>
    have heq := hw.letterCase hscheme hlower
    cases hread : parser.readHost scheme host with
    | none => exact .inl ⟨rfl, by rw [← heq, hread]⟩
    | some a => exact .inr ⟨a, a, rfl, by rw [← heq, hread], .refl a⟩
  | trailingDot hread hdot hlower =>
    have hread' := hw.trailingDot hscheme hread hdot
    rw [hw.letterCase hscheme hlower] at hread'
    exact .inr ⟨_, _, hread, hread', .trailingDot _⟩
  | mapped hread hread' => exact .inr ⟨_, _, hread, hread', .mapped _⟩

end Net
