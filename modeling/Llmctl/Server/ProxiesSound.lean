import Llmctl.Server.Proxies
import Llmctl.Net.IpAddrSound

/-!
# A trusted proxy entry and the addresses it matches

Both checks accept the same entries. An accepted entry matches the addresses of its
network, but for the IPv6 networks that IPv4 addresses lie in: there one side of the
comparison is an IPv4 address and the other is not.
-/

namespace Llmctl

open Net

/-! ## Leading bits -/

theorem and_mask_eq_iff {w : Nat} (a b : BitVec w) (k : Nat) :
    a &&& (BitVec.allOnes w <<< k) = b &&& (BitVec.allOnes w <<< k) ↔ a.toNat / 2 ^ k = b.toNat / 2 ^ k := by
  have hshift : a >>> k = b >>> k ↔ a.toNat / 2 ^ k = b.toNat / 2 ^ k := by
    rw [← BitVec.toNat_inj, BitVec.toNat_ushiftRight, BitVec.toNat_ushiftRight, Nat.shiftRight_eq_div_pow,
      Nat.shiftRight_eq_div_pow]
  rw [← hshift]
  constructor
  · intro h
    apply BitVec.eq_of_getLsbD_eq
    intro i hi
    rw [BitVec.getLsbD_ushiftRight, BitVec.getLsbD_ushiftRight]
    by_cases hk : k + i < w
    · have hbit := congrArg (fun x => BitVec.getLsbD x (k + i)) h
      simpa [hk, Nat.not_lt.mpr (Nat.le_add_right k i)] using hbit
    · rw [BitVec.getLsbD_of_ge _ _ (by omega), BitVec.getLsbD_of_ge _ _ (by omega)]
  · intro h
    apply BitVec.eq_of_getLsbD_eq
    intro i hi
    simp only [BitVec.getLsbD_and, BitVec.getLsbD_shiftLeft, BitVec.getLsbD_allOnes]
    by_cases hk : i < k
    · simp [hk]
    · have hbit := congrArg (fun x => BitVec.getLsbD x (i - k)) h
      simp only [BitVec.getLsbD_ushiftRight, Nat.add_sub_cancel' (Nat.le_of_not_lt hk)] at hbit
      rw [hbit]

theorem samePrefix_iff {w : Nat} (network ip : BitVec w) {bits : Nat} (hpos : 0 < bits) (hle : bits ≤ w) :
    samePrefix network ip bits = true ↔ ip.toNat / 2 ^ (w - bits) = network.toNat / 2 ^ (w - bits) := by
  unfold samePrefix
  rw [decide_eq_true ⟨hpos, hle⟩, Bool.true_and, beq_iff_eq, and_mask_eq_iff, eq_comm]

/-- What agrees in its leading bits agrees in fewer of them. -/
theorem lead_mono {x y k l : Nat} (h : x / 2 ^ k = y / 2 ^ k) (hle : k ≤ l) : x / 2 ^ l = y / 2 ^ l := by
  rw [← Nat.add_sub_cancel' hle, Nat.pow_add, ← Nat.div_div_eq_div_mul, h, Nat.div_div_eq_div_mul]

/-- The leading bits of an IPv4 address, as one of 128 bits. -/
theorem wide_v4_div (a : BitVec 32) {bits : Nat} (hle : bits ≤ 32) :
    (IpAddr.v4 a).wide / 2 ^ (32 - bits) = 0xffff * 2 ^ bits + a.toNat / 2 ^ (32 - bits) := by
  have hpow : 0xffff * 2 ^ 32 = 2 ^ (32 - bits) * (0xffff * 2 ^ bits) := by
    rw [show (2 : Nat) ^ 32 = 2 ^ (32 - bits) * 2 ^ bits by rw [← Nat.pow_add, Nat.sub_add_cancel hle]]
    ac_rfl
  show (0xffff * 2 ^ 32 + a.toNat) / _ = _
  rw [hpow, Nat.mul_add_div (Nat.two_pow_pos _)]

theorem wide_v4_lead (a : BitVec 32) : (IpAddr.v4 a).wide / 2 ^ 32 = 0xffff := by
  have h : (IpAddr.v4 a).wide / 2 ^ 32 = 0xffff * 1 + a.toNat / 2 ^ 32 := wide_v4_div a (Nat.zero_le 32)
  have hzero : a.toNat / 2 ^ 32 = 0 := Nat.div_eq_of_lt a.isLt
  exact h.trans (congrArg (0xffff * 1 + ·) hzero)

/-- The leading bits that the IPv4 addresses share. -/
theorem lead_v4_iff (own : BitVec 128) (bits : Nat) :
    (ProxyEntry.network (.v6 own) bits).CoversIpv4 ↔
      ∃ a, own.toNat / 2 ^ (128 - min bits 96) = (IpAddr.v4 a).wide / 2 ^ (128 - min bits 96) := by
  have hlead (a : BitVec 32) : (IpAddr.v4 a).wide / 2 ^ (128 - min bits 96) = 0xffff * 2 ^ 32 / 2 ^ (128 - min bits 96) :=
    lead_mono (by rw [wide_v4_lead, Nat.mul_div_cancel _ (Nat.two_pow_pos 32)]) (by omega)
  simp only [hlead, exists_const]
  rfl

theorem toCanonical_mapped {bits : BitVec 128} (h : bits.toNat / 2 ^ 32 = 0xffff) :
    (IpAddr.v6 bits).toCanonical = .v4 (BitVec.ofNat 32 bits.toNat) := by
  have hmapped : IpAddr.ipv4Mapped bits = some (BitVec.ofNat 32 bits.toNat) := if_pos h
  simp only [IpAddr.toCanonical, hmapped]

theorem toCanonical_v6 {bits : BitVec 128} (h : bits.toNat / 2 ^ 32 ≠ 0xffff) : (IpAddr.v6 bits).toCanonical = .v6 bits := by
  have hmapped : IpAddr.ipv4Mapped bits = none := if_neg h
  simp only [IpAddr.toCanonical, hmapped]

/-- The canonical form is IPv4 just for the addresses that start like an IPv4 one. -/
theorem toCanonical_cases (ip : IpAddr) :
    (∃ a : BitVec 32, ip.toCanonical = .v4 a ∧ ip.wide = (IpAddr.v4 a).wide) ∨
      ∃ a : BitVec 128, ip = .v6 a ∧ ip.toCanonical = .v6 a ∧ a.toNat / 2 ^ 32 ≠ 0xffff := by
  cases ip with
  | v4 a => exact Or.inl ⟨a, rfl, rfl⟩
  | v6 a =>
    by_cases h : a.toNat / 2 ^ 32 = 0xffff
    · refine Or.inl ⟨BitVec.ofNat 32 a.toNat, toCanonical_mapped h, ?_⟩
      show a.toNat = 0xffff * 2 ^ 32 + (BitVec.ofNat 32 a.toNat).toNat
      rw [BitVec.toNat_ofNat]
      omega
    · exact Or.inr ⟨a, rfl, toCanonical_v6 h, h⟩

/-! ## The checks -/

theorem read_unreadable {value : String} (h : ((trim value).isEmpty || trim value == "*") = true) :
    ProxyEntry.read value = none := by
  have hvalue : trim value = "" ∨ trim value = "*" := by simpa using h
  unfold ProxyEntry.read
  cases hvalue with
  | inl hvalue =>
    rw [hvalue]
    decide
  | inr hvalue =>
    rw [hvalue]
    decide

theorem trustedProxyIsExplicit_iff (value : String) :
    trustedProxyIsExplicit value = true ↔ (ProxyEntry.read value).isSome := by
  unfold trustedProxyIsExplicit
  by_cases hwild : ((trim value).isEmpty || trim value == "*") = true
  · simp [hwild, read_unreadable hwild]
  · simp only [hwild, ProxyEntry.read]
    rcases hsplit : splitOnce '/' (trim value).toList with _ | ⟨addr, bits⟩
    · simp
    · cases haddr : IpAddr.parse addr with
      | none => simp [haddr]
      | some ip =>
        cases hbits : parseU8 bits with
        | none => simp [haddr, hbits]
        | some bits => simp [haddr, hbits, Option.isSome_ite]

/-- The check of a configuration accepts what the check of the report does. -/
theorem validateTrustedProxy_iff (value : String) :
    validateTrustedProxy value = .ok () ↔ trustedProxyIsExplicit value = true := by
  unfold validateTrustedProxy trustedProxyIsExplicit
  by_cases hwild : ((trim value).isEmpty || trim value == "*") = true
  · simp [hwild]
  · simp only [hwild]
    rcases hsplit : splitOnce '/' (trim value).toList with _ | ⟨addr, bits⟩
    · cases IpAddr.parse (trim value).toList <;> simp
    · cases haddr : IpAddr.parse addr with
      | none => simp [haddr]
      | some ip =>
        cases hbits : parseU8 bits with
        | none => simp [haddr, hbits]
        | some bits =>
          by_cases hrange : 0 < bits ∧ bits ≤ if ip.isIpv4 then 32 else 128
          · simp [haddr, hbits, hrange]
          · simp [haddr, hbits, hrange]

/-! ## The match -/

/-- What `trusted_proxy_matches` compares, for an entry that has been read. -/
def ProxyEntry.compare : ProxyEntry → IpAddr → Bool
  | .address own, ip => own.toCanonical == ip.toCanonical
  | .network own bits, ip =>
    match own.toCanonical, ip.toCanonical with
    | .v4 own, .v4 ip => samePrefix own ip bits
    | .v6 own, .v6 ip => samePrefix own ip bits
    | _, _ => false

theorem splitOnce_eq_some {sep : Char} {s before after : List Char} (h : splitOnce sep s = some (before, after)) : sep ∈ s := by
  unfold splitOnce at h
  split at h
  · assumption
  · cases h

theorem read_cases {value : String} {entry : ProxyEntry} (h : ProxyEntry.read value = some entry) :
    (∃ own, splitOnce '/' (trim value).toList = none ∧ IpAddr.parse (trim value).toList = some own ∧ entry = .address own) ∨
      ∃ addr digits own bits, splitOnce '/' (trim value).toList = some (addr, digits) ∧ IpAddr.parse addr = some own ∧
        parseU8 digits = some bits ∧ 0 < bits ∧ bits ≤ (if own.isIpv4 then 32 else 128) ∧ entry = .network own bits := by
  unfold ProxyEntry.read at h
  rcases hsplit : splitOnce '/' (trim value).toList with _ | ⟨addr, digits⟩
  · rw [hsplit] at h
    obtain ⟨own, hown, rfl⟩ := Option.map_eq_some_iff.mp h
    exact Or.inl ⟨own, rfl, hown, rfl⟩
  · rw [hsplit] at h
    obtain ⟨own, hown, h⟩ := Option.bind_eq_some_iff.mp h
    obtain ⟨bits, hbits, h⟩ := Option.bind_eq_some_iff.mp h
    obtain ⟨⟨hpos, hle⟩, hentry⟩ := Option.ite_none_right_eq_some.mp h
    cases hentry
    exact Or.inr ⟨addr, digits, own, bits, rfl, hown, hbits, hpos, hle, rfl⟩

theorem trustedProxyMatches_eq {value : String} {entry : ProxyEntry} (h : ProxyEntry.read value = some entry) (ip : IpAddr) :
    trustedProxyMatches value ip = entry.compare ip := by
  simp only [trustedProxyMatches]
  rcases read_cases h with ⟨own, -, hown, rfl⟩ | ⟨addr, digits, own, bits, hsplit, hown, hbits, -, -, rfl⟩
  · rw [hown]
    rfl
  · rw [IpAddr.parse_eq_none (by decide) (by decide) (by decide) (by decide) (splitOnce_eq_some hsplit), hsplit]
    simp only [hown, hbits]
    rfl

theorem wide_v4_inj {a b : BitVec 32} : (IpAddr.v4 a).wide = (IpAddr.v4 b).wide ↔ a = b := by
  show 0xffff * 2 ^ 32 + a.toNat = 0xffff * 2 ^ 32 + b.toNat ↔ a = b
  rw [Nat.add_left_cancel_iff, BitVec.toNat_inj]

theorem toCanonical_inj (own ip : IpAddr) : own.toCanonical = ip.toCanonical ↔ ip.wide = own.wide := by
  rcases toCanonical_cases own with ⟨a, ha, hwide⟩ | ⟨a, rfl, ha, hlead⟩ <;>
    rcases toCanonical_cases ip with ⟨b, hb, hwide'⟩ | ⟨b, rfl, hb, hlead'⟩
  · rw [ha, hb, hwide, hwide', wide_v4_inj, IpAddr.v4.injEq, eq_comm]
  · rw [ha, hb, hwide]
    refine ⟨nofun, fun h => absurd ?_ hlead'⟩
    rw [show b.toNat = (IpAddr.v4 a).wide from h, wide_v4_lead]
  · rw [ha, hb, hwide']
    refine ⟨nofun, fun h => absurd ?_ hlead⟩
    rw [show a.toNat = (IpAddr.v4 b).wide from h.symm, wide_v4_lead]
  · rw [ha, hb, IpAddr.v6.injEq, eq_comm]
    exact BitVec.toNat_inj.symm

/-- An IPv4 network contains what it compares equal to. -/
theorem compare_ipv4 (own : BitVec 32) {bits : Nat} (hpos : 0 < bits) (hle : bits ≤ 32) (ip : IpAddr) :
    (ProxyEntry.network (.v4 own) bits).compare ip = true ↔ (ProxyEntry.network (.v4 own) bits).Contains ip := by
  have hbits : 128 - wideBits (.v4 own) bits = 32 - bits := by
    show 128 - (96 + bits) = 32 - bits
    omega
  simp only [ProxyEntry.compare, ProxyEntry.Contains, hbits]
  rcases toCanonical_cases ip with ⟨a, ha, hwide⟩ | ⟨a, rfl, ha, hlead⟩
  · rw [ha, hwide, wide_v4_div a hle, wide_v4_div own hle, Nat.add_left_cancel_iff]
    exact samePrefix_iff own a hpos hle
  · rw [ha]
    refine iff_of_false Bool.false_ne_true fun h => hlead ?_
    rw [show a.toNat / 2 ^ 32 = _ from lead_mono h (Nat.sub_le 32 bits), wide_v4_lead]

/-- An IPv6 network that no IPv4 address lies in contains what it compares equal to. -/
theorem compare_ipv6 (own : BitVec 128) {bits : Nat} (hpos : 0 < bits) (hle : bits ≤ 128)
    (hown : ¬ (ProxyEntry.network (.v6 own) bits).CoversIpv4) (ip : IpAddr) :
    (ProxyEntry.network (.v6 own) bits).compare ip = true ↔ (ProxyEntry.network (.v6 own) bits).Contains ip := by
  have hnot : own.toNat / 2 ^ 32 ≠ 0xffff := by
    intro hlead
    exact hown ((lead_v4_iff own bits).mpr ⟨0, lead_mono (hlead.trans (wide_v4_lead 0).symm) (by omega)⟩)
  have hcanonical : (IpAddr.v6 own).toCanonical = .v6 own := toCanonical_v6 hnot
  simp only [ProxyEntry.compare, ProxyEntry.Contains, hcanonical]
  show _ ↔ ip.wide / 2 ^ (128 - bits) = own.toNat / 2 ^ (128 - bits)
  rcases toCanonical_cases ip with ⟨a, ha, hwide⟩ | ⟨a, rfl, ha, hlead⟩
  · rw [ha, hwide]
    exact iff_of_false Bool.false_ne_true fun h => hown ((lead_v4_iff own bits).mpr ⟨a, lead_mono h.symm (by omega)⟩)
  · rw [ha]
    exact samePrefix_iff own a hpos hle

/-- An IPv6 network that IPv4 addresses lie in differs from what it compares equal to. -/
theorem compare_coversIpv4 (own : BitVec 128) {bits : Nat} (hpos : 0 < bits)
    (hown : (ProxyEntry.network (.v6 own) bits).CoversIpv4) :
    ∃ ip, ¬ ((ProxyEntry.network (.v6 own) bits).compare ip = true ↔ (ProxyEntry.network (.v6 own) bits).Contains ip) := by
  simp only [ProxyEntry.compare, ProxyEntry.Contains]
  by_cases hlead : own.toNat / 2 ^ 32 = 0xffff
  · have hcanonical : (IpAddr.v6 own).toCanonical = .v4 (BitVec.ofNat 32 own.toNat) := toCanonical_mapped hlead
    by_cases hbits : bits ≤ 32
    · -- the unspecified address is in the network, and is no IPv4 address
      refine ⟨.v6 0, ?_⟩
      have hsmall (x : Nat) (hx : x < 2 ^ 48) : x / 2 ^ (128 - bits) = 0 :=
        Nat.div_eq_of_lt (hx.trans_le (Nat.pow_le_pow_right Nat.two_pos (by omega)))
      have hwide : (IpAddr.v6 own).wide < 2 ^ 48 := by
        show own.toNat < _
        omega
      rw [hcanonical]
      show ¬ (_ ↔ (IpAddr.v6 0).wide / 2 ^ (128 - bits) = (IpAddr.v6 own).wide / 2 ^ (128 - bits))
      rw [hsmall _ hwide, hsmall (IpAddr.v6 0).wide (Nat.two_pow_pos 48)]
      exact fun h => Bool.false_ne_true (h.mpr rfl)
    · -- a prefix of more than 32 bits matches no IPv4 address, not even the network's own
      refine ⟨.v6 own, fun h => ?_⟩
      rw [hcanonical] at h
      have hmatch := h.mpr rfl
      simp [samePrefix, hbits] at hmatch
  · have hcanonical : (IpAddr.v6 own).toCanonical = .v6 own := toCanonical_v6 hlead
    have hmin : min bits 96 = bits := by
      refine Nat.min_eq_left (Nat.le_of_not_lt fun hlt => hlead ?_)
      obtain ⟨a, ha⟩ := (lead_v4_iff own bits).mp hown
      rw [Nat.min_eq_right hlt.le] at ha
      rw [show own.toNat / 2 ^ 32 = _ from ha, wide_v4_lead]
    obtain ⟨a, ha⟩ := (lead_v4_iff own bits).mp hown
    refine ⟨.v4 a, fun h => ?_⟩
    rw [hcanonical] at h
    rw [hmin] at ha
    exact Bool.false_ne_true (h.mpr ha.symm)

/-- Both checks accept the same entries, and an accepted one matches the addresses of its
network and no others, but for the IPv6 networks that IPv4 addresses lie in. -/
theorem trustedProxyMatches_iff {value : String} (hvalid : validateTrustedProxy value = .ok ()) :
    trustedProxyIsExplicit value = true ∧ ∃ entry, ProxyEntry.read value = some entry ∧
      ((∀ ip, trustedProxyMatches value ip = true ↔ entry.Contains ip) ↔ ¬ entry.CoversIpv4) := by
  have hexplicit := (validateTrustedProxy_iff value).mp hvalid
  obtain ⟨entry, hentry⟩ := Option.isSome_iff_exists.mp ((trustedProxyIsExplicit_iff value).mp hexplicit)
  refine ⟨hexplicit, entry, hentry, ?_⟩
  simp only [trustedProxyMatches_eq hentry]
  rcases read_cases hentry with ⟨own, -, -, rfl⟩ | ⟨-, -, own, bits, -, -, -, hpos, hle, rfl⟩
  · refine iff_of_true (fun ip => ?_) (by rintro ⟨⟩)
    show (own.toCanonical == ip.toCanonical) = true ↔ ip.wide = own.wide
    rw [beq_iff_eq, toCanonical_inj]
  · cases own with
    | v4 own => exact iff_of_true (compare_ipv4 own hpos hle) (by rintro ⟨⟩)
    | v6 own =>
      refine ⟨fun h hcovers => ?_, compare_ipv6 own hpos hle⟩
      obtain ⟨ip, hip⟩ := compare_coversIpv4 own hpos hcovers
      exact hip (h ip)

theorem trustedProxyMatches_private :
    trustedProxyIsExplicit "10.0.0.0/8" = true ∧ ∃ entry, ProxyEntry.read "10.0.0.0/8" = some entry ∧
      ((∀ ip, trustedProxyMatches "10.0.0.0/8" ip = true ↔ entry.Contains ip) ↔ ¬ entry.CoversIpv4) :=
  trustedProxyMatches_iff (by decide)

/-- The network `10.0.0.0/8`, written in IPv6, does not match its own address. -/
theorem mapped_network_unmatched :
    validateTrustedProxy "::ffff:10.0.0.0/104" = .ok () ∧ trustedProxyIsExplicit "::ffff:10.0.0.0/104" = true ∧
      ∃ own, ProxyEntry.read "::ffff:10.0.0.0/104" = some (.network own 104) ∧
        (ProxyEntry.network own 104).Contains own ∧ trustedProxyMatches "::ffff:10.0.0.0/104" own = false :=
  ⟨by decide, by decide, .v6 0xffff0a000000, by decide, rfl, by decide⟩

end Llmctl
