import Llmctl.Net.Url
import Llmctl.Routing
import Llmctl.Store

/-!
# Guards of outgoing requests

The URLs that a direct model download and a telemetry endpoint may have, and the addresses
that either must not reach.
-/

namespace Llmctl

open Net

/-! ## Model downloads -/

def isBlockedDownloadIp : IpAddr → Bool
  | .v4 ip =>
    Ipv4.isLoopback ip || Ipv4.isPrivate ip || Ipv4.isLinkLocal ip || Ipv4.isUnspecified ip ||
      Ipv4.octets ip == [169, 254, 169, 254]
  | .v6 ip => Ipv6.isLoopback ip || Ipv6.isUnspecified ip || Ipv6.isUniqueLocal ip || Ipv6.isUnicastLinkLocal ip

def validateDirectDownloadUrl (parser : UrlParser) (url : String) : Result Unit :=
  match parser.parse url with
  | none => .error s!"parse model URL {url}"
  | some parsed =>
    if parsed.scheme ≠ "https" then .error "direct model downloads require https URLs"
    else
      match parsed.host with
      | none => .error "direct model download URL must include a host"
      | some host =>
        let host := host.text
        if host = "localhost" ∨ host = "metadata.google.internal" then
          .error "direct model download URL host is not allowed"
        else
          match IpAddr.parse host.toList with
          | some ip =>
            if isBlockedDownloadIp ip then
              .error "direct model download URL must not target local or private addresses"
            else .ok ()
          | none => .ok ()

/-! ## Telemetry endpoints -/

def ssrfBlockedMetadataHosts : List String := ["metadata.google.internal", "metadata.goog", "instance-data"]

def isSharedAddressSpace (ip : BitVec 32) : Bool := Ipv4.octet ip 0 == 100 && Ipv4.octet ip 1 &&& 0xC0 == 64

def isIpv6LinkLocal (ip : BitVec 128) : Bool := Ipv6.segment ip 0 &&& 0xffc0 == 0xfe80

def isIpv6UniqueLocal (ip : BitVec 128) : Bool := Ipv6.segment ip 0 &&& 0xfe00 == 0xfc00

def isBlockedEndpointIp : IpAddr → Bool
  | .v4 ip =>
    Ipv4.isLoopback ip || Ipv4.isLinkLocal ip || Ipv4.isPrivate ip || Ipv4.isUnspecified ip || isSharedAddressSpace ip
  | .v6 ip => Ipv6.isLoopback ip || Ipv6.isUnspecified ip || isIpv6LinkLocal ip || isIpv6UniqueLocal ip

/-- The address of a host that is one. -/
def hostIp : Net.Host → Option IpAddr
  | .ipv4 ip => some (.v4 ip)
  | .ipv6 ip => some (.v6 ip)
  | .domain _ => none

/-- `debug` is `{:?}` of a text. -/
def validateHttpEndpoint (parser : UrlParser) (debug : String → String) (endpoint : String) : Result Unit :=
  match parser.parse (trim endpoint) with
  | none => .error s!"invalid endpoint URL: {debug endpoint}"
  | some parsed =>
    if ¬ (parsed.scheme = "http" ∨ parsed.scheme = "https") then
      .error s!"endpoint scheme must be http or https, got {debug parsed.scheme}"
    else if ¬ (parsed.username.isEmpty ∧ parsed.password.isNone) then
      .error "endpoint URL must not contain credentials (user:pass@ form)"
    else
      match parsed.host with
      | none => .error "endpoint URL must include a host"
      | some host =>
        if asciiLower host.text ∈ ssrfBlockedMetadataHosts then
          .error s!"endpoint host {debug host.text} is not permitted"
        else
          match hostIp host with
          | some ip =>
            if isBlockedEndpointIp ip then
              .error s!"endpoint IP {ip.text} is not routable (loopback, link-local, or private address)"
            else .ok ()
          | none => .ok ()

end Llmctl
