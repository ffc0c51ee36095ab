import Llmctl.Net.IpAddr

/-!
# Reserved addresses

The predicates of `std::net` on the two kinds of addresses, and the IPv4 networks that
they stand for.
-/

namespace Net

/-! ## IPv4 -/

namespace Ipv4

def octet (ip : BitVec 32) (i : Nat) : Nat := ip.toNat / 2 ^ (24 - 8 * i) % 256

def isLoopback (ip : BitVec 32) : Bool := octet ip 0 == 127

def isPrivate (ip : BitVec 32) : Bool :=
  octet ip 0 == 10 || (octet ip 0 == 172 && decide (16 ≤ octet ip 1 ∧ octet ip 1 ≤ 31)) ||
    (octet ip 0 == 192 && octet ip 1 == 168)

def isLinkLocal (ip : BitVec 32) : Bool := octet ip 0 == 169 && octet ip 1 == 254

def isUnspecified (ip : BitVec 32) : Bool := ip == 0

def octets (ip : BitVec 32) : List Nat := [octet ip 0, octet ip 1, octet ip 2, octet ip 3]

end Ipv4

/-! ## IPv6 -/

namespace Ipv6

def segment (ip : BitVec 128) (i : Nat) : Nat := ip.toNat / 2 ^ (112 - 16 * i) % 65536

def isLoopback (ip : BitVec 128) : Bool := ip == 1

def isUnspecified (ip : BitVec 128) : Bool := ip == 0

def isUniqueLocal (ip : BitVec 128) : Bool := segment ip 0 &&& 0xfe00 == 0xfc00

def isUnicastLinkLocal (ip : BitVec 128) : Bool := segment ip 0 &&& 0xffc0 == 0xfe80

/-- `Ipv4Addr::to_ipv6_mapped`. -/
def mapped (ip : BitVec 32) : BitVec 128 := BitVec.ofNat 128 (0xffff * 2 ^ 32 + ip.toNat)

end Ipv6

/-! ## Networks -/

structure Network4 where
  address : Nat
  bits : Nat
  deriving DecidableEq, Repr

def Network4.Contains (network : Network4) (ip : BitVec 32) : Prop :=
  ip.toNat / 2 ^ (32 - network.bits) = network.address / 2 ^ (32 - network.bits)

instance (network : Network4) (ip : BitVec 32) : Decidable (network.Contains ip) :=
  inferInstanceAs (Decidable (_ = _))

/-- `a.b.c.d/bits` -/
def network4 (a b c d bits : Nat) : Network4 := { address := 2 ^ 24 * a + 2 ^ 16 * b + 2 ^ 8 * c + d, bits }

def loopbackNetwork : Network4 := network4 127 0 0 0 8
def linkLocalNetwork : Network4 := network4 169 254 0 0 16
def unspecifiedNetwork : Network4 := network4 0 0 0 0 32
def sharedNetwork : Network4 := network4 100 64 0 0 10
def privateNetworks : List Network4 := [network4 10 0 0 0 8, network4 172 16 0 0 12, network4 192 168 0 0 16]

namespace Ipv4

theorem isLoopback_iff (ip : BitVec 32) : isLoopback ip = true ↔ loopbackNetwork.Contains ip := by
  have hlt : ip.toNat < 2 ^ 32 := ip.isLt
  simp only [isLoopback, octet, beq_iff_eq, loopbackNetwork, network4, Network4.Contains]
  omega

theorem isLinkLocal_iff (ip : BitVec 32) : isLinkLocal ip = true ↔ linkLocalNetwork.Contains ip := by
  have hlt : ip.toNat < 2 ^ 32 := ip.isLt
  simp only [isLinkLocal, octet, Bool.and_eq_true, beq_iff_eq, linkLocalNetwork, network4, Network4.Contains]
  omega

theorem isUnspecified_iff (ip : BitVec 32) : isUnspecified ip = true ↔ unspecifiedNetwork.Contains ip := by
  have hzero : (0 : BitVec 32).toNat = 0 := rfl
  simp only [isUnspecified, beq_iff_eq, ← BitVec.toNat_inj, hzero, unspecifiedNetwork, network4, Network4.Contains]
  omega

theorem isPrivate_iff (ip : BitVec 32) : isPrivate ip = true ↔ ∃ network ∈ privateNetworks, network.Contains ip := by
  have hlt : ip.toNat < 2 ^ 32 := ip.isLt
  simp only [isPrivate, Bool.or_eq_true, Bool.and_eq_true, beq_iff_eq, decide_eq_true_eq, privateNetworks,
    List.mem_cons, List.not_mem_nil, or_false, exists_eq_or_imp, exists_eq_left, network4, Network4.Contains]
  simp only [octet]
  omega

end Ipv4

/-! ## Mapped addresses -/

namespace Ipv6

theorem mapped_toNat (ip : BitVec 32) : (mapped ip).toNat = 0xffff * 2 ^ 32 + ip.toNat := by
  have hlt : ip.toNat < 2 ^ 32 := ip.isLt
  rw [mapped, BitVec.toNat_ofNat]
  omega

theorem segment_mapped (ip : BitVec 32) : segment (mapped ip) 0 = 0 := by
  have hlt : ip.toNat < 2 ^ 32 := ip.isLt
  rw [segment, mapped_toNat]
  omega

theorem isLoopback_mapped (ip : BitVec 32) : isLoopback (mapped ip) = false := by
  refine beq_eq_false_iff_ne.mpr fun heq => ?_
  have hnat := congrArg BitVec.toNat heq
  have hone : (1 : BitVec 128).toNat = 1 := rfl
  rw [mapped_toNat, hone] at hnat
  omega

theorem isUnspecified_mapped (ip : BitVec 32) : isUnspecified (mapped ip) = false := by
  refine beq_eq_false_iff_ne.mpr fun heq => ?_
  have hnat := congrArg BitVec.toNat heq
  have hzero : (0 : BitVec 128).toNat = 0 := rfl
  rw [mapped_toNat, hzero] at hnat
  omega

theorem isUniqueLocal_mapped (ip : BitVec 32) : isUniqueLocal (mapped ip) = false := by
  rw [isUniqueLocal, segment_mapped]
  rfl

theorem isUnicastLinkLocal_mapped (ip : BitVec 32) : isUnicastLinkLocal (mapped ip) = false := by
  rw [isUnicastLinkLocal, segment_mapped]
  rfl

end Ipv6

end Net
