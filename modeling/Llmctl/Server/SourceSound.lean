import Llmctl.Server.Source

/-!
# Who chooses the source

A trusted proxy appends the client's address to `X-Forwarded-For`. The client still
chooses its source where it sends `Forwarded`, or makes the proxy's line unreadable.
-/

namespace Llmctl

open Net

/-! ## The proxy's element -/

theorem toStr_eq_some {v : HeaderValue} {s : List Char} :
    v.toStr = some s ↔ v.all isVisibleAscii = true ∧ v.map (fun b : UInt8 => Char.ofNat b.toNat) = s := by
  unfold HeaderValue.toStr
  split
  · rename_i h
    simp [h]
  · rename_i h
    simp [h]

theorem toStr_append {v v' : HeaderValue} {s' : List Char} (h' : v'.toStr = some s') :
    HeaderValue.toStr (v ++ v') = v.toStr.map (· ++ s') := by
  obtain ⟨hall', rfl⟩ := toStr_eq_some.mp h'
  unfold HeaderValue.toStr
  rw [List.all_append, hall', Bool.and_true, List.map_append]
  split <;> rfl

set_option maxRecDepth 4000 in
theorem comma_not_mem {v : HeaderValue} {s : List Char} (h : v.toStr = some s) (hv : 44 ∉ v) : ',' ∉ s := by
  obtain ⟨-, rfl⟩ := toStr_eq_some.mp h
  intro hmem
  obtain ⟨b, hb, hc⟩ := List.mem_map.mp hmem
  have hchar : ∀ n < 256, Char.ofNat n = ',' → n = 44 := by decide
  have hb44 : b = 44 := UInt8.toNat_inj.mp (hchar b.toNat b.toNat_lt hc)
  exact hv (hb44 ▸ hb)

/-- A request whose last `X-Forwarded-For` element is the proxy's and names `ip`; the rest
of the headers is the client's. -/
structure Appended (ip : IpAddr) (headers : HeaderMap) where
  earlier : List HeaderValue
  client : HeaderValue
  element : HeaderValue
  values : headers.getAll "x-forwarded-for" = earlier ++ [client ++ element]
  separated : client = [] ∨ client.getLast? = some 44
  alone : 44 ∉ element
  names : element.toStr.bind parseForwardedIp = some ip

section
variable {cfg : SecurityConfig} {peer ip : IpAddr} {headers : HeaderMap}

theorem firstUntrusted_append {ips : List IpAddr} (hip : isTrustedProxy cfg ip = false) :
    firstUntrustedForwardedIp cfg (ips ++ [ip]) = some ip.text := by
  simp [firstUntrustedForwardedIp, hip]

/-- The elements of a line end with the proxy's. -/
theorem xForwardedForElements_append {client element : HeaderValue} {c e : List Char}
    (hsep : client = [] ∨ client.getLast? = some 44) (hc : client.toStr = some c) (he : element.toStr = some e)
    (halone : 44 ∉ element) (hip : parseForwardedIp e = some ip) :
    ∃ ips, xForwardedForElements (c ++ e) = ips ++ [ip] := by
  have hlast : (e.splitOn ',').filterMap parseForwardedIp = [ip] := by
    rw [List.splitOn_eq_singleton (comma_not_mem he halone)]
    simp [hip]
  unfold xForwardedForElements
  rcases hsep with rfl | hcomma
  · obtain ⟨-, rfl⟩ := toStr_eq_some.mp hc
    exact ⟨[], hlast⟩
  · obtain ⟨client, rfl⟩ := List.getLast?_eq_some_iff.mp hcomma
    obtain ⟨-, rfl⟩ := toStr_eq_some.mp hc
    refine ⟨((client.map fun b : UInt8 => Char.ofNat b.toNat).splitOn ',').filterMap parseForwardedIp, ?_⟩
    have htext : (client ++ [44]).map (fun b : UInt8 => Char.ofNat b.toNat) ++ e =
        (client.map fun b : UInt8 => Char.ofNat b.toNat) ++ ',' :: e := by
      simp
    rw [htext, List.splitOn_append_cons_self, List.filterMap_append, hlast]

/-- The address that the client puts in the place of the proxy's, if any. -/
def Appended.forged (cfg : SecurityConfig) (peer : IpAddr) (r : Appended ip headers) : Option String :=
  match firstUntrustedForwardedIp cfg (forwardedIps forwardedElements (headers.getAll "forwarded")) with
  | some address => some address
  | none =>
    if r.client.toStr.isSome then none
    else some ((firstUntrustedForwardedIp cfg (forwardedIps xForwardedForElements r.earlier)).getD peer.text)

def Appended.Unforged (cfg : SecurityConfig) (peer : IpAddr) (r : Appended ip headers) : Prop :=
  ∀ address ∈ r.forged cfg peer, address = ip.text

instance (r : Appended ip headers) : Decidable (r.Unforged cfg peer) :=
  inferInstanceAs (Decidable (∀ address ∈ r.forged cfg peer, address = ip.text))

theorem authSourceKey_eq (r : Appended ip headers) (hpeer : isTrustedProxy cfg peer = true)
    (hip : isTrustedProxy cfg ip = false) : authSourceKey cfg headers (some peer) = (r.forged cfg peer).getD ip.text := by
  obtain ⟨e, he, hname⟩ := Option.bind_eq_some_iff.mp r.names
  simp only [authSourceKey, hpeer, if_true, forwardedClientIp, Appended.forged]
  cases firstUntrustedForwardedIp cfg (forwardedIps forwardedElements (headers.getAll "forwarded")) with
  | some address => rfl
  | none =>
    simp only [r.values, forwardedIps, List.filterMap_append, List.flatMap_append, List.filterMap_cons,
      List.filterMap_nil, toStr_append he]
    cases hc : r.client.toStr with
    | none => simp
    | some c =>
      obtain ⟨ips, hips⟩ := xForwardedForElements_append r.separated hc he r.alone hname
      simp only [Option.map_some, List.flatMap_cons, List.flatMap_nil, List.append_nil, hips]
      rw [← List.append_assoc, firstUntrusted_append hip]
      rfl

/-- A request has the source of another one that the same client did not tamper with just
when it is not tampered with either. -/
theorem authSourceKey_eq_iff {headers' : HeaderMap} (r : Appended ip headers) (r' : Appended ip headers')
    (hpeer : isTrustedProxy cfg peer = true) (hip : isTrustedProxy cfg ip = false) (hr' : r'.Unforged cfg peer) :
    authSourceKey cfg headers (some peer) = authSourceKey cfg headers' (some peer) ↔ r.Unforged cfg peer := by
  have hunforged : (r'.forged cfg peer).getD ip.text = ip.text := by
    cases hf : r'.forged cfg peer with
    | none => rfl
    | some address => exact hr' address hf
  rw [authSourceKey_eq r hpeer hip, authSourceKey_eq r' hpeer hip, hunforged]
  unfold Appended.Unforged
  cases r.forged cfg peer <;> simp

end

def ascii (s : String) : HeaderValue := s.toList.map fun c => UInt8.ofNat c.toNat

def behindProxy : SecurityConfig where
  requireAuth := true
  authFailureLimitPerMinute := 60
  trustedProxies := ["10.0.0.0/8"]
  apiKeys := []

def clientIp : IpAddr := .v4 0xcb007107

/-- The proxy's element after what the client sent in the same line, and in others. -/
def sent (client : HeaderValue) (others : HeaderMap) : HeaderMap :=
  others ++ [("x-forwarded-for", client ++ ascii "203.0.113.7")]

def sentAppended (client : HeaderValue) (others : HeaderMap) (hothers : others.getAll "x-forwarded-for" = [])
    (hclient : client = [] ∨ client.getLast? = some 44) : Appended clientIp (sent client others) where
  earlier := []
  client := client
  element := ascii "203.0.113.7"
  values := by
    rw [HeaderMap.getAll, List.map_eq_nil_iff] at hothers
    simp [sent, HeaderMap.getAll, List.filter_append, hothers]
  separated := hclient
  alone := by decide
  names := by decide

/-- What the client puts before the proxy's element changes nothing. -/
theorem authSourceKey_eq_chain :
    authSourceKey behindProxy (sent (ascii "198.51.100.9,") []) (some (.v4 0x0a000005)) =
      authSourceKey behindProxy (sent [] []) (some (.v4 0x0a000005)) :=
  (authSourceKey_eq_iff (sentAppended (ascii "198.51.100.9,") [] rfl (.inr (by decide)))
    (sentAppended [] [] rfl (.inl rfl)) (by decide) (by decide) (by decide)).mpr (by decide)

/-- With a `Forwarded` header the client has the source of its choice; with a byte that is
not ASCII in the proxy's line it has the proxy's. -/
theorem source_forged :
    ∃ (_ : Appended clientIp (sent [] [("forwarded", ascii "for=198.51.100.9")]))
      (_ : Appended clientIp (sent [0xff, 44] [])) (_ : Appended clientIp (sent [] [])),
      isTrustedProxy behindProxy (.v4 0x0a000005) = true ∧ isTrustedProxy behindProxy clientIp = false ∧
      authSourceKey behindProxy (sent [] [("forwarded", ascii "for=198.51.100.9")]) (some (.v4 0x0a000005)) =
        "198.51.100.9" ∧
      authSourceKey behindProxy (sent [0xff, 44] []) (some (.v4 0x0a000005)) = "10.0.0.5" ∧
      authSourceKey behindProxy (sent [] []) (some (.v4 0x0a000005)) = "203.0.113.7" :=
  ⟨sentAppended [] _ rfl (.inl rfl), sentAppended [0xff, 44] [] rfl (.inr rfl), sentAppended [] [] rfl (.inl rfl),
    by decide⟩

end Llmctl
