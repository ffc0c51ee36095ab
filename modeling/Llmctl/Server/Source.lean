import Llmctl.Net.IpAddr
import Llmctl.Server.Auth

/-!
# The source of a request

Failures are counted by source: the peer, or the client that a trusted proxy names in a
header. A `Forwarded` header is read before `X-Forwarded-For`, and each from the right.
-/

namespace Llmctl

open Net

/-! ## Texts -/

def trimMatches (p : Char → Bool) (s : List Char) : List Char :=
  ((s.dropWhile p).reverse.dropWhile p).reverse

def trimChars : List Char → List Char := trimMatches isWhitespace

def splitOnce (sep : Char) (s : List Char) : Option (List Char × List Char) :=
  if sep ∈ s then some (s.takeWhile (· ≠ sep), (s.dropWhile (· ≠ sep)).drop 1) else none

def rsplitOnce (sep : Char) (s : List Char) : Option (List Char × List Char) :=
  (splitOnce sep s.reverse).map fun (after, before) => (before.reverse, after.reverse)

def stripPrefix (start s : List Char) : Option (List Char) :=
  if start.isPrefixOf s then some (s.drop start.length) else none

/-- `str::parse::<u8>` -/
def parseU8 (s : List Char) : Option Nat :=
  let digits := match s with
    | '+' :: digits => digits
    | digits => digits
  if digits.isEmpty || digits.any fun c => (digit 10 c).isNone then none
  else
    let n := ofDigits 10 (digits.filterMap (digit 10))
    if n < 256 then some n else none

/-! ## Trusted proxies -/

/-- Whether the first `bits` bits agree; a prefix of no bits matches nothing. -/
def samePrefix {w : Nat} (network ip : BitVec w) (bits : Nat) : Bool :=
  decide (0 < bits ∧ bits ≤ w) &&
    network &&& (BitVec.allOnes w <<< (w - bits)) == ip &&& (BitVec.allOnes w <<< (w - bits))

def trustedProxyMatches (trusted : String) (ip : IpAddr) : Bool :=
  let ip := ip.toCanonical
  let trusted := (trim trusted).toList
  match IpAddr.parse trusted with
  | some exact_ => exact_.toCanonical == ip
  | none =>
    match splitOnce '/' trusted with
    | none => false
    | some (network, bits) =>
      match IpAddr.parse network, parseU8 bits with
      | some network, some bits =>
        match network.toCanonical, ip with
        | .v4 network, .v4 ip => samePrefix network ip bits
        | .v6 network, .v6 ip => samePrefix network ip bits
        | _, _ => false
      | _, _ => false

def isTrustedProxy (cfg : SecurityConfig) (ip : IpAddr) : Bool :=
  cfg.trustedProxies.any fun trusted => trustedProxyMatches trusted ip

/-! ## Forwarded addresses -/

def parseForwardedIp (value : List Char) : Option IpAddr :=
  let value := trimMatches (· == ']') (trimMatches (· == '[') (trimMatches (· == '"') (trimChars value)))
  match IpAddr.parse value with
  | some ip => some ip
  | none => do
    let (host, _) ← rsplitOnce ':' value
    IpAddr.parse (trimMatches (· == ']') (trimMatches (· == '[') host))

def firstUntrustedForwardedIp (cfg : SecurityConfig) (ips : List IpAddr) : Option String :=
  (ips.reverse.find? fun ip => !isTrustedProxy cfg ip).map IpAddr.text

/-- The addresses of one `Forwarded` value. -/
def forwardedElements (value : List Char) : List IpAddr :=
  (value.splitOn ',').flatMap fun element => (element.splitOn ';').filterMap fun part =>
    (stripPrefix "for=".toList (trimChars part)).bind parseForwardedIp

/-- The addresses of one `X-Forwarded-For` value. -/
def xForwardedForElements (value : List Char) : List IpAddr := (value.splitOn ',').filterMap parseForwardedIp

/-- The addresses of all values that are visible ASCII. -/
def forwardedIps (elements : List Char → List IpAddr) (values : List HeaderValue) : List IpAddr :=
  (values.filterMap HeaderValue.toStr).flatMap elements

def forwardedClientIp (cfg : SecurityConfig) (headers : HeaderMap) : Option String :=
  match firstUntrustedForwardedIp cfg (forwardedIps forwardedElements (headers.getAll "forwarded")) with
  | some ip => some ip
  | none => firstUntrustedForwardedIp cfg (forwardedIps xForwardedForElements (headers.getAll "x-forwarded-for"))

def authSourceKey (cfg : SecurityConfig) (headers : HeaderMap) (peer : Option IpAddr) : String :=
  match peer with
  | none => "unknown-source"
  | some peer =>
    if isTrustedProxy cfg peer then (forwardedClientIp cfg headers).getD peer.text else peer.text

end Llmctl
