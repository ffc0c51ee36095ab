import Llmctl.Server.Source

/-!
# Trusted proxy entries

The two checks of an entry, the one of a configuration and the one of the audit
report, and the network that an entry stands for. An IPv4 address is taken for the
IPv6 address `::ffff:a.b.c.d`.
-/

namespace Net.IpAddr

def isIpv4 : IpAddr → Bool
  | .v4 _ => true
  | .v6 _ => false

/-- The address as a number of 128 bits. -/
def wide : IpAddr → Nat
  | .v4 bits => 0xffff * 2 ^ 32 + bits.toNat
  | .v6 bits => bits.toNat

end Net.IpAddr

namespace Llmctl

open Net

/-! ## The checks -/

def validateTrustedProxy (value : String) : Result Unit := do
  let value := trim value
  if value.isEmpty || value == "*" then
    .error "trusted-proxies must list explicit IP addresses or CIDR ranges; wildcard is not allowed"
  else
    match splitOnce '/' value.toList with
    | some (addr, bits) =>
      match IpAddr.parse addr with
      | none => .error s!"trusted proxy `{value}` has invalid CIDR address"
      | some ip =>
        match parseU8 bits with
        | none => .error s!"trusted proxy `{value}` has invalid CIDR prefix"
        | some bits =>
          if 0 < bits ∧ bits ≤ (if ip.isIpv4 then 32 else 128) then .ok ()
          else .error s!"trusted proxy `{value}` has invalid CIDR prefix"
    | none =>
      match IpAddr.parse value.toList with
      | none => .error s!"trusted proxy `{value}` must be an IP address or CIDR"
      | some _ => .ok ()

def trustedProxyIsExplicit (value : String) : Bool :=
  let value := trim value
  if value.isEmpty || value == "*" then false
  else
    match splitOnce '/' value.toList with
    | some (addr, bits) =>
      match IpAddr.parse addr with
      | none => false
      | some ip =>
        match parseU8 bits with
        | none => false
        | some bits => decide (0 < bits ∧ bits ≤ if ip.isIpv4 then 32 else 128)
    | none => (IpAddr.parse value.toList).isSome

/-! ## What an entry stands for -/

inductive ProxyEntry where
  | address (ip : IpAddr)
  | network (ip : IpAddr) (bits : Nat)
  deriving DecidableEq, Repr

def ProxyEntry.read (value : String) : Option ProxyEntry :=
  match splitOnce '/' (trim value).toList with
  | none => (IpAddr.parse (trim value).toList).map .address
  | some (addr, bits) => do
    let ip ← IpAddr.parse addr
    let bits ← parseU8 bits
    if 0 < bits ∧ bits ≤ (if ip.isIpv4 then 32 else 128) then some (.network ip bits) else none

/-- How many of the 128 bits a network fixes. -/
def wideBits (ip : IpAddr) (bits : Nat) : Nat := if ip.isIpv4 then 96 + bits else bits

/-- An address lies in a network where it has the network's leading bits. -/
def ProxyEntry.Contains : ProxyEntry → IpAddr → Prop
  | .address own, ip => ip.wide = own.wide
  | .network own bits, ip => ip.wide / 2 ^ (128 - wideBits own bits) = own.wide / 2 ^ (128 - wideBits own bits)

/-- An IPv6 network that an IPv4 address lies in: its leading bits, up to the 96th, are
those of `::ffff:0:0`. -/
def ProxyEntry.CoversIpv4 : ProxyEntry → Prop
  | .address _ => False
  | .network (.v4 _) _ => False
  | .network (.v6 own) bits => own.toNat / 2 ^ (128 - min bits 96) = 0xffff * 2 ^ 32 / 2 ^ (128 - min bits 96)

end Llmctl
