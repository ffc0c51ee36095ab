import Llmctl.Net.Guards
import Llmctl.Net.IpAddrSound

/-!
# What a guard makes of another spelling

No IPv6 address that stands for an IPv4 address is blocked, and no host name with a
trailing dot is one of the compared names. So a spelling goes round a guard exactly where
the guard refuses the first spelling for its name or its IPv4 address.
-/

namespace Llmctl

open Net

/-! ## Blocked addresses -/

/-- The networks that downloads must not reach. -/
def DownloadLocal (ip : BitVec 32) : Prop :=
  loopbackNetwork.Contains ip ∨ linkLocalNetwork.Contains ip ∨ unspecifiedNetwork.Contains ip ∨
    ∃ network ∈ privateNetworks, network.Contains ip

/-- The networks that endpoints must not lie in. -/
def EndpointLocal (ip : BitVec 32) : Prop := DownloadLocal ip ∨ sharedNetwork.Contains ip

theorem isSharedAddressSpace_iff (ip : BitVec 32) : isSharedAddressSpace ip = true ↔ sharedNetwork.Contains ip := by
  have hmask : ∀ octet : Fin 256, ((octet : Nat) &&& 0xC0 = 64 ↔ (octet : Nat) / 64 = 1) := by decide +kernel
  have hsecond := hmask ⟨Ipv4.octet ip 1, Nat.mod_lt _ (by decide)⟩
  have hlt : ip.toNat < 2 ^ 32 := ip.isLt
  simp only [isSharedAddressSpace, Bool.and_eq_true, beq_iff_eq, hsecond]
  simp only [Ipv4.octet, sharedNetwork, network4, Network4.Contains]
  omega

theorem octets_imds {ip : BitVec 32} (h : Ipv4.octets ip = [169, 254, 169, 254]) : Ipv4.isLinkLocal ip = true := by
  simp only [Ipv4.octets, List.cons.injEq] at h
  simp [Ipv4.isLinkLocal, h.1, h.2.1]

theorem isBlockedDownloadIp_v4 (ip : BitVec 32) : isBlockedDownloadIp (.v4 ip) = true ↔ DownloadLocal ip := by
  simp only [isBlockedDownloadIp, Bool.or_eq_true, beq_iff_eq]
  unfold DownloadLocal
  rw [← Ipv4.isLoopback_iff, ← Ipv4.isLinkLocal_iff, ← Ipv4.isUnspecified_iff, ← Ipv4.isPrivate_iff]
  constructor
  · rintro ((((h | h) | h) | h) | h)
    · exact .inl h
    · exact .inr (.inr (.inr h))
    · exact .inr (.inl h)
    · exact .inr (.inr (.inl h))
    · exact .inr (.inl (octets_imds h))
  · rintro (h | h | h | h)
    · exact .inl (.inl (.inl (.inl h)))
    · exact .inl (.inl (.inr h))
    · exact .inl (.inr h)
    · exact .inl (.inl (.inl (.inr h)))

theorem isBlockedEndpointIp_v4 (ip : BitVec 32) : isBlockedEndpointIp (.v4 ip) = true ↔ EndpointLocal ip := by
  simp only [isBlockedEndpointIp, Bool.or_eq_true]
  unfold EndpointLocal DownloadLocal
  rw [← Ipv4.isLoopback_iff, ← Ipv4.isLinkLocal_iff, ← Ipv4.isUnspecified_iff, ← Ipv4.isPrivate_iff, ← isSharedAddressSpace_iff]
  constructor
  · rintro ((((h | h) | h) | h) | h)
    · exact .inl (.inl h)
    · exact .inl (.inr (.inl h))
    · exact .inl (.inr (.inr (.inr h)))
    · exact .inl (.inr (.inr (.inl h)))
    · exact .inr h
  · rintro ((h | h | h | h) | h)
    · exact .inl (.inl (.inl (.inl h)))
    · exact .inl (.inl (.inl (.inr h)))
    · exact .inl (.inr h)
    · exact .inl (.inl (.inr h))
    · exact .inr h

theorem isBlockedDownloadIp_mapped (ip : BitVec 32) : isBlockedDownloadIp (.v6 (Ipv6.mapped ip)) = false := by
  simp [isBlockedDownloadIp, Ipv6.isLoopback_mapped, Ipv6.isUnspecified_mapped, Ipv6.isUniqueLocal_mapped,
    Ipv6.isUnicastLinkLocal_mapped]

theorem isBlockedEndpointIp_mapped (ip : BitVec 32) : isBlockedEndpointIp (.v6 (Ipv6.mapped ip)) = false := by
  simp [isBlockedEndpointIp, isIpv6LinkLocal, isIpv6UniqueLocal, Ipv6.isLoopback_mapped, Ipv6.isUnspecified_mapped,
    Ipv6.segment_mapped]

/-- Where one of the two forms is never blocked, the forms agree on what is not blocked. -/
theorem same_answer_iff {blocked mapped : Bool} {networks : Prop} (h : blocked = true ↔ networks) (hmapped : mapped = false) :
    blocked = mapped ↔ ¬ networks := by
  rw [hmapped, ← h, Bool.not_eq_true]

/-! ## Accepted hosts -/

/-- A guard looks at the host of a URL whose other parts it has let pass. -/
structure Guard where
  pass : (scheme username : String) → (password : Option String) → Prop
  allowed : Net.Host → Prop
  /-- The compared names and the IPv4 addresses that are refused. -/
  names : String → Prop
  networks : BitVec 32 → Prop
  scheme : ∀ {scheme username password}, pass scheme username password → HttpScheme scheme
  domain : ∀ {name}, IpAddr.parse name.toList = none → (allowed (.domain name) ↔ ¬ names name)
  dotted : ∀ name, ¬ names (name ++ ".")
  ipv4 : ∀ ip, allowed (.ipv4 ip) ↔ ¬ networks ip
  mapped : ∀ ip, allowed (.ipv6 (Ipv6.mapped ip))

def Guard.Accepts (guard : Guard) (parser : UrlParser) (url : String) : Prop :=
  ∃ parsed host, parser.parse url = some parsed ∧ guard.pass parsed.scheme parsed.username parsed.password ∧
    parsed.host = some host ∧ guard.allowed host

/-- The first host is refused for its name or its IPv4 address, and the second one is its
spelling with a trailing dot, or as an IPv6 address. -/
inductive Guard.GoesRound (guard : Guard) : Net.Host → Net.Host → Prop where
  | trailingDot {name : String} (h : guard.names name) : GoesRound guard (.domain name) (.domain (name ++ "."))
  | mapped {ip : BitVec 32} (h : guard.networks ip) : GoesRound guard (.ipv4 ip) (.ipv6 (Ipv6.mapped ip))

/-- A second URL goes round what the guard refuses the first one for. -/
def Guard.Evaded (guard : Guard) (parser : UrlParser) (url url' : String) : Prop :=
  ∃ (parsed parsed' : Url) (host host' : Net.Host), parser.parse url = some parsed ∧ parser.parse url' = some parsed' ∧
    guard.pass parsed.scheme parsed.username parsed.password ∧
    parsed.host = some host ∧ parsed'.host = some host' ∧ guard.GoesRound host host'

section
variable (guard : Guard) {parser : UrlParser}

theorem Guard.not_goesRound (host : Net.Host) : ¬ guard.GoesRound host host := by
  have hne {other : Net.Host} (h : guard.GoesRound host other) : host ≠ other := by
    cases h with
    | trailingDot h =>
      intro hother
      injection hother with hname
      have hlength := congrArg String.length hname
      simp at hlength
    | mapped h => exact fun hother => by cases hother
  exact fun h => hne h rfl

theorem Guard.allowed_iff {host host' : Net.Host} (h : SameHost host host')
    (hdomain : ∀ name, host = .domain name → IpAddr.parse name.toList = none)
    (hdomain' : ∀ name, host' = .domain name → IpAddr.parse name.toList = none) :
    (guard.allowed host ↔ guard.allowed host') ↔ ¬ guard.GoesRound host host' := by
  cases h with
  | refl => exact iff_of_true Iff.rfl (guard.not_goesRound host)
  | trailingDot name =>
    have hallowed := (guard.domain (hdomain' _ rfl)).mpr (guard.dotted name)
    rw [iff_true_right hallowed, guard.domain (hdomain _ rfl)]
    refine not_congr ⟨fun hname => .trailingDot hname, fun hround => ?_⟩
    cases hround with
    | trailingDot hname => exact hname
  | mapped ip =>
    rw [iff_true_right (guard.mapped ip), guard.ipv4 ip]
    refine not_congr ⟨fun hip => .mapped hip, fun hround => ?_⟩
    cases hround with
    | mapped hip => exact hip

variable {url url' scheme username : String} {password : Option String} {host host' : Net.Host}

theorem Guard.accepts_iff (h : parser.parse url = some { scheme, username, password, host := some host }) :
    guard.Accepts parser url ↔ guard.pass scheme username password ∧ guard.allowed host := by
  unfold Guard.Accepts
  rw [h]
  constructor
  · rintro ⟨parsed', host', hparsed, hpass, hhost, hallowed⟩
    cases hparsed
    cases hhost
    exact ⟨hpass, hallowed⟩
  · rintro ⟨hpass, hallowed⟩
    exact ⟨_, _, rfl, hpass, rfl, hallowed⟩

theorem Guard.evaded_iff (h : parser.parse url = some { scheme, username, password, host := some host })
    (h' : parser.parse url' = some { scheme, username, password, host := some host' }) :
    guard.Evaded parser url url' ↔ guard.pass scheme username password ∧ guard.GoesRound host host' := by
  unfold Guard.Evaded
  rw [h, h']
  constructor
  · rintro ⟨parsed, parsed', host₁, host₁', hparsed, hparsed', hpass, hhost, hhost', hround⟩
    cases hparsed
    cases hparsed'
    cases hhost
    cases hhost'
    exact ⟨hpass, hround⟩
  · rintro ⟨hpass, hround⟩
    exact ⟨_, _, host, host', rfl, rfl, hpass, rfl, rfl, hround⟩

theorem Guard.not_accepts (h : ∀ parsed, parser.parse url = some parsed → ¬ guard.pass parsed.scheme parsed.username parsed.password) :
    ¬ guard.Accepts parser url := by
  rintro ⟨parsed, host, hparsed, hpass, -⟩
  exact h parsed hparsed hpass

theorem Guard.not_evaded (h : ∀ parsed, parser.parse url = some parsed → ¬ guard.pass parsed.scheme parsed.username parsed.password) :
    ¬ guard.Evaded parser url url' := by
  rintro ⟨parsed, parsed', host, host', hparsed, -, hpass, -⟩
  exact h parsed hparsed hpass

/-- What the guard sees of a URL is that of its text. -/
theorem Guard.not_pass {text : UrlText} (hpass : ¬ guard.pass text.scheme text.username text.password) {read : Option Net.Host}
    (hparse : parser.parse url = read.map fun host =>
      { scheme := text.scheme, username := text.username, password := text.password, host := some host })
    (parsed : Url) (hparsed : parser.parse url = some parsed) :
    ¬ guard.pass parsed.scheme parsed.username parsed.password := by
  rw [hparse] at hparsed
  obtain ⟨host, -, rfl⟩ := Option.map_eq_some_iff.mp hparsed
  exact hpass

/-- A spelling goes round a guard where the guard refuses the host in its first spelling,
and nowhere else. -/
theorem Guard.accepts_respelled (hw : parser.Whatwg) (h : parser.Respelled url url') :
    (guard.Accepts parser url ↔ guard.Accepts parser url') ↔ ¬ guard.Evaded parser url url' := by
  obtain ⟨text, text', host, host', hsplit, hsplit', hhost, rfl, hspelling⟩ := h
  have hparse := UrlParser.parse_of_split hsplit hhost
  have hparse' := UrlParser.parse_of_split hsplit' rfl
  dsimp only at hparse'
  by_cases hpass : guard.pass text.scheme text.username text.password
  · obtain ⟨hread, hread'⟩ | ⟨a, b, hread, hread', hsame⟩ := hspelling.readHost hw (guard.scheme hpass)
    · rw [hread, Option.map_none] at hparse
      rw [hread', Option.map_none] at hparse'
      refine iff_of_true (iff_of_false (guard.not_accepts ?_) (guard.not_accepts ?_)) (guard.not_evaded ?_)
      · simp [hparse]
      · simp [hparse']
      · simp [hparse]
    · rw [hread, Option.map_some] at hparse
      rw [hread', Option.map_some] at hparse'
      have hdomain (name : String) (ha : a = .domain name) : IpAddr.parse name.toList = none :=
        hw.domain (guard.scheme hpass) (ha ▸ hread)
      have hdomain' (name : String) (hb : b = .domain name) : IpAddr.parse name.toList = none :=
        hw.domain (guard.scheme hpass) (hb ▸ hread')
      have hpassed : guard.pass text.scheme text.username text.password ↔ True := iff_true_intro hpass
      rw [guard.accepts_iff hparse, guard.accepts_iff hparse', guard.evaded_iff hparse hparse', hpassed]
      rw [true_and, true_and, true_and]
      exact guard.allowed_iff hsame hdomain hdomain'
  · have hnot := guard.not_pass hpass hparse
    exact iff_of_true (iff_of_false (guard.not_accepts hnot) (guard.not_accepts (guard.not_pass hpass hparse')))
      (guard.not_evaded hnot)

end

/-! ## The texts of hosts -/

theorem ipv6_text_head (ip : BitVec 128) : ∃ rest, (Net.Host.ipv6 ip).text.toList = '[' :: rest := by
  simp only [Net.Host.text, String.toList_append]
  exact ⟨_, rfl⟩

theorem ipv6_text_parse (ip : BitVec 128) : IpAddr.parse (Net.Host.ipv6 ip).text.toList = none := by
  obtain ⟨rest, hrest⟩ := ipv6_text_head ip
  refine @IpAddr.parse_eq_none '[' (by decide) (by decide) (by decide) (by decide) _ ?_
  rw [hrest]
  exact List.mem_cons_self

theorem toLower_of_digit {c : Char} (h : (digit 10 c).isSome) : c.toLower = c := by
  unfold Char.toLower
  rw [dif_neg]
  rintro ⟨hlow, hhigh⟩
  have hlow : 65 ≤ c.toNat := hlow
  have hhigh : c.toNat ≤ 90 := hhigh
  have hnone : digit 10 c = none := by grind [digit]
  rw [hnone] at h
  cases h

/-- A host that is an address has none of the compared names, in whatever case. -/
theorem text_toLower_not_mem {host : Net.Host} {ip : IpAddr} (h : hostIp host = some ip) {names : List String}
    (hnames : ∀ name ∈ names, ∀ c ∈ name.toList.head?, c ≠ '[' ∧ digit 10 c = none) :
    asciiLower host.text ∉ names := by
  have hhead : ∃ c rest, host.text.toList = c :: rest ∧ c.toLower = c ∧ (c = '[' ∨ (digit 10 c).isSome) := by
    cases host with
    | domain name => cases h
    | ipv4 ip =>
      obtain ⟨c, rest, htext, hc⟩ := IpAddr.ipv4Text_head ip
      exact ⟨c, rest, htext, toLower_of_digit hc, .inr hc⟩
    | ipv6 ip =>
      obtain ⟨rest, hrest⟩ := ipv6_text_head ip
      exact ⟨'[', rest, hrest, by decide, .inl rfl⟩
  obtain ⟨c, rest, htext, hlower, hc⟩ := hhead
  intro hmem
  have hfirst : (asciiLower host.text).toList.head? = some c := by
    rw [asciiLower, String.toList_ofList, htext]
    simp [hlower]
  obtain ⟨hbracket, hdigit⟩ := hnames _ hmem c hfirst
  cases hc with
  | inl hc => exact hbracket hc
  | inr hc =>
    rw [hdigit] at hc
    cases hc

/-! ## Downloads -/

def downloadNames : List String := ["localhost", "metadata.google.internal"]

def downloadAllowed (host : Net.Host) : Prop :=
  host.text ∉ downloadNames ∧ ∀ ip, IpAddr.parse host.text.toList = some ip → isBlockedDownloadIp ip = false

theorem downloadAllowed_ipv4 (ip : BitVec 32) : downloadAllowed (.ipv4 ip) ↔ ¬ DownloadLocal ip := by
  have hparse : IpAddr.parse (Net.Host.ipv4 ip).text.toList = some (.v4 ip) := IpAddr.parse_ipv4Text ip
  have hnames : ∀ name ∈ downloadNames, IpAddr.parse name.toList = none := by decide
  unfold downloadAllowed
  rw [← isBlockedDownloadIp_v4, Bool.not_eq_true]
  constructor
  · exact fun h => h.2 _ hparse
  · intro h
    constructor
    · intro hmem
      rw [hnames _ hmem] at hparse
      cases hparse
    · intro ip' hparse'
      rw [hparse] at hparse'
      cases hparse'
      exact h

theorem downloadAllowed_ipv6 (ip : BitVec 128) : downloadAllowed (.ipv6 ip) := by
  have hnames : ∀ name ∈ downloadNames, name.toList.head? ≠ some '[' := by decide
  obtain ⟨rest, hrest⟩ := ipv6_text_head ip
  constructor
  · intro hmem
    exact hnames _ hmem (by rw [hrest]; rfl)
  · intro ip' hparse
    rw [ipv6_text_parse] at hparse
    cases hparse

theorem downloadAllowed_domain {name : String} (h : IpAddr.parse name.toList = none) :
    downloadAllowed (.domain name) ↔ ¬ name ∈ downloadNames := by
  refine and_iff_left ?_
  intro ip hparse
  rw [show (Net.Host.domain name).text = name from rfl, h] at hparse
  cases hparse

theorem getLast_dotted (name : String) : (name ++ ".").toList.getLast? = some '.' := by simp

def downloadGuard : Guard where
  pass scheme _ _ := scheme = "https"
  allowed := downloadAllowed
  names name := name ∈ downloadNames
  networks := DownloadLocal
  scheme := .inr
  domain := downloadAllowed_domain
  dotted name hmem := by
    have hnames : ∀ name ∈ downloadNames, name.toList.getLast? ≠ some '.' := by decide
    exact hnames _ hmem (getLast_dotted name)
  ipv4 := downloadAllowed_ipv4
  mapped ip := downloadAllowed_ipv6 _

theorem validateDirectDownloadUrl_iff (parser : UrlParser) (url : String) :
    validateDirectDownloadUrl parser url = .ok () ↔ downloadGuard.Accepts parser url := by
  unfold validateDirectDownloadUrl Guard.Accepts
  cases parser.parse url with
  | none => simp
  | some parsed =>
    obtain ⟨scheme, username, password, host⟩ := parsed
    have hmem (host : Net.Host) :
        host.text ∈ downloadNames ↔ host.text = "localhost" ∨ host.text = "metadata.google.internal" := by
      simp [downloadNames]
    simp only [downloadGuard, downloadAllowed, hmem]
    by_cases hscheme : scheme = "https"
    · cases host with
      | none => simp [hscheme]
      | some host =>
        by_cases hlocalhost : host.text = "localhost"
        · simp [hscheme, hlocalhost]
        · by_cases hmetadata : host.text = "metadata.google.internal"
          · simp [hscheme, hmetadata]
          · cases hparse : IpAddr.parse host.text.toList with
            | none => simp [hscheme, hlocalhost, hmetadata, hparse]
            | some ip => cases hblocked : isBlockedDownloadIp ip <;> simp [hscheme, hlocalhost, hmetadata, hparse, hblocked]
    · simp [hscheme]

/-! ## Endpoints -/

def endpointAllowed (host : Net.Host) : Prop :=
  asciiLower host.text ∉ ssrfBlockedMetadataHosts ∧ ∀ ip, hostIp host = some ip → isBlockedEndpointIp ip = false

theorem metadataHosts_head : ∀ name ∈ ssrfBlockedMetadataHosts, ∀ c ∈ name.toList.head?, c ≠ '[' ∧ digit 10 c = none := by
  intro name hname c hc
  simp only [ssrfBlockedMetadataHosts, List.mem_cons, List.not_mem_nil, or_false] at hname
  have hfirst : c = 'm' ∨ c = 'i' := by
    obtain rfl | rfl | rfl := hname
    · exact .inl (Option.some.inj hc).symm
    · exact .inl (Option.some.inj hc).symm
    · exact .inr (Option.some.inj hc).symm
  obtain rfl | rfl := hfirst
  · decide
  · decide

theorem endpointAllowed_ip {host : Net.Host} {ip : IpAddr} (h : hostIp host = some ip) :
    endpointAllowed host ↔ isBlockedEndpointIp ip = false := by
  constructor
  · exact fun hallowed => hallowed.2 ip h
  · intro hblocked
    refine ⟨text_toLower_not_mem h metadataHosts_head, fun ip' hip => ?_⟩
    rw [h] at hip
    cases hip
    exact hblocked

theorem toLower_dotted (name : String) : asciiLower (name ++ ".") = asciiLower name ++ "." := by
  simp [asciiLower]

def endpointGuard : Guard where
  pass scheme username password := HttpScheme scheme ∧ username.isEmpty ∧ password.isNone
  allowed := endpointAllowed
  names name := asciiLower name ∈ ssrfBlockedMetadataHosts
  networks := EndpointLocal
  scheme := And.left
  domain _ := and_iff_left fun _ hip => by cases hip
  dotted name hmem := by
    have hnames : ∀ name ∈ ssrfBlockedMetadataHosts, name.toList.getLast? ≠ some '.' := by decide
    rw [toLower_dotted] at hmem
    exact hnames _ hmem (getLast_dotted _)
  ipv4 ip := by rw [endpointAllowed_ip rfl, ← isBlockedEndpointIp_v4, Bool.not_eq_true]
  mapped ip := (endpointAllowed_ip rfl).mpr (isBlockedEndpointIp_mapped ip)

theorem validateHttpEndpoint_iff (parser : UrlParser) (debug : String → String) (endpoint : String) :
    validateHttpEndpoint parser debug endpoint = .ok () ↔ endpointGuard.Accepts parser (trim endpoint) := by
  unfold validateHttpEndpoint Guard.Accepts
  cases parser.parse (trim endpoint) with
  | none => simp
  | some parsed =>
    obtain ⟨scheme, username, password, host⟩ := parsed
    simp only [endpointGuard, endpointAllowed, HttpScheme]
    by_cases hscheme : scheme = "http" ∨ scheme = "https"
    · by_cases husername : username = ""
      · cases password with
        | some password => simp [hscheme]
        | none =>
          cases host with
          | none => simp [hscheme, husername]
          | some host =>
            by_cases hname : asciiLower host.text ∈ ssrfBlockedMetadataHosts
            · simp [hscheme, husername, hname]
            · cases hip : hostIp host with
              | none => simp [hscheme, husername, hname, hip]
              | some ip => cases hblocked : isBlockedEndpointIp ip <;> simp [hscheme, husername, hname, hip, hblocked]
      · simp [hscheme, husername]
    · simp [hscheme]

/-! ## Both guards -/

/-- Each filter, and each guard, gives two forms of a host one answer exactly where it
does not refuse the first for a compared name or for an IPv4 network. -/
theorem guards_respelled {parser : UrlParser} (hw : parser.Whatwg) (debug : String → String) :
    (∀ ip, isBlockedDownloadIp (.v4 ip) = isBlockedDownloadIp (.v6 (Ipv6.mapped ip)) ↔ ¬ DownloadLocal ip) ∧
    (∀ ip, isBlockedEndpointIp (.v4 ip) = isBlockedEndpointIp (.v6 (Ipv6.mapped ip)) ↔ ¬ EndpointLocal ip) ∧
    (∀ url url', parser.Respelled url url' →
      ((validateDirectDownloadUrl parser url = .ok () ↔ validateDirectDownloadUrl parser url' = .ok ()) ↔
        ¬ downloadGuard.Evaded parser url url')) ∧
    ∀ endpoint endpoint', parser.Respelled (trim endpoint) (trim endpoint') →
      ((validateHttpEndpoint parser debug endpoint = .ok () ↔ validateHttpEndpoint parser debug endpoint' = .ok ()) ↔
        ¬ endpointGuard.Evaded parser (trim endpoint) (trim endpoint')) := by
  refine ⟨fun ip => same_answer_iff (isBlockedDownloadIp_v4 ip) (isBlockedDownloadIp_mapped ip),
    fun ip => same_answer_iff (isBlockedEndpointIp_v4 ip) (isBlockedEndpointIp_mapped ip),
    fun url url' h => ?_, fun endpoint endpoint' h => ?_⟩
  · rw [validateDirectDownloadUrl_iff, validateDirectDownloadUrl_iff]
    exact downloadGuard.accepts_respelled hw h
  · rw [validateHttpEndpoint_iff, validateHttpEndpoint_iff]
    exact endpointGuard.accepts_respelled hw h

/-! ## A parser of some URLs -/

/-- Of names with an `m` and of addresses. -/
def sampleHost (host : String) : Option Net.Host :=
  let host := asciiLower host
  if 'm' ∈ host.toList then some (.domain host)
  else
    match host.toList with
    | '[' :: rest =>
      match IpAddr.parse (rest.takeWhile (· ≠ ']')) with
      | some (.v6 ip) => some (.ipv6 ip)
      | _ => none
    | text =>
      match IpAddr.parse text with
      | some (.v4 ip) => some (.ipv4 ip)
      | _ => none

def sampleParser : UrlParser where
  split url :=
    match url.toList with
    | 'h' :: 't' :: 't' :: 'p' :: 's' :: ':' :: '/' :: '/' :: rest =>
      some { scheme := "https", username := "", password := none, host := some (String.ofList (rest.takeWhile (· ≠ '/'))),
             tail := String.ofList (rest.dropWhile (· ≠ '/')) }
    | _ => none
  readHost _ := sampleHost

theorem sampleHost_domain {host name : String} (h : sampleHost host = some (.domain name)) :
    'm' ∈ (asciiLower host).toList ∧ name = asciiLower host := by
  unfold sampleHost at h
  by_cases hm : 'm' ∈ (asciiLower host).toList
  · simp only [hm, if_true] at h
    cases h
    exact ⟨hm, rfl⟩
  · simp only [hm, if_false] at h
    split at h
    · split at h <;> cases h
    · split at h <;> cases h

theorem sampleParser_readHost (scheme host : String) : sampleParser.readHost scheme host = sampleHost host := by
  simp only [sampleParser]

theorem sampleParser_whatwg : sampleParser.Whatwg where
  letterCase {scheme host host'} _ h := by
    rw [sampleParser_readHost, sampleParser_readHost]
    unfold sampleHost
    rw [h]
  trailingDot {scheme host name} _ h _ := by
    rw [sampleParser_readHost] at h ⊢
    obtain ⟨hm, rfl⟩ := sampleHost_domain h
    unfold sampleHost
    rw [toLower_dotted]
    exact if_pos (by simp [hm])
  domain {scheme host name} _ h := by
    rw [sampleParser_readHost] at h
    obtain ⟨hm, rfl⟩ := sampleHost_domain h
    exact @IpAddr.parse_eq_none 'm' (by decide) (by decide) (by decide) (by decide) _ hm

def sampleText (host : String) : UrlText :=
  { scheme := "https", username := "", password := none, host := some host, tail := "/a" }

theorem sampleParser_respelled {url url' host host' : String} (hsplit : sampleParser.split url = some (sampleText host))
    (hsplit' : sampleParser.split url' = some (sampleText host')) (h : HostSpelling sampleHost host host') :
    sampleParser.Respelled url url' := ⟨_, _, host, host', hsplit, hsplit', rfl, rfl, h⟩

theorem guards_respelled_models :
    sampleParser.Respelled "https://models.example/a" "https://Models.Example./a" ∧
      ((validateDirectDownloadUrl sampleParser "https://models.example/a" = .ok () ↔
          validateDirectDownloadUrl sampleParser "https://Models.Example./a" = .ok ()) ↔
        ¬ downloadGuard.Evaded sampleParser "https://models.example/a" "https://Models.Example./a") := by
  have hspelling : HostSpelling sampleHost "models.example" "Models.Example." :=
    @HostSpelling.trailingDot _ _ _ "models.example" (by decide +kernel) (by decide +kernel) (by decide +kernel)
  have h : sampleParser.Respelled "https://models.example/a" "https://Models.Example./a" :=
    sampleParser_respelled (by decide +kernel) (by decide +kernel) hspelling
  exact ⟨h, (guards_respelled sampleParser_whatwg id).2.2.1 _ _ h⟩

/-- The addresses of the loopback and of the metadata service pass in their IPv6 form, and
a metadata name passes with a trailing dot. -/
theorem respelled_passes :
    (isBlockedDownloadIp (.v4 0x7f000001) = true ∧ isBlockedDownloadIp (.v6 (Ipv6.mapped 0x7f000001)) = false) ∧
    (isBlockedEndpointIp (.v4 0x7f000001) = true ∧ isBlockedEndpointIp (.v6 (Ipv6.mapped 0x7f000001)) = false) ∧
    (sampleParser.Respelled "https://169.254.169.254/a" "https://[::ffff:a9fe:a9fe]/a" ∧
      validateDirectDownloadUrl sampleParser "https://169.254.169.254/a" ≠ .ok () ∧
      validateDirectDownloadUrl sampleParser "https://[::ffff:a9fe:a9fe]/a" = .ok () ∧
      validateHttpEndpoint sampleParser id "https://169.254.169.254/a" ≠ .ok () ∧
      validateHttpEndpoint sampleParser id "https://[::ffff:a9fe:a9fe]/a" = .ok ()) ∧
    sampleParser.Respelled "https://metadata.google.internal/a" "https://metadata.google.internal./a" ∧
      validateDirectDownloadUrl sampleParser "https://metadata.google.internal/a" ≠ .ok () ∧
      validateDirectDownloadUrl sampleParser "https://metadata.google.internal./a" = .ok () ∧
      validateHttpEndpoint sampleParser id "https://metadata.google.internal/a" ≠ .ok () ∧
      validateHttpEndpoint sampleParser id "https://metadata.google.internal./a" = .ok () := by
  have haddress : HostSpelling sampleHost "169.254.169.254" "[::ffff:a9fe:a9fe]" :=
    @HostSpelling.mapped _ _ _ 0xa9fea9fe (by decide +kernel) (by decide +kernel)
  have hname : HostSpelling sampleHost "metadata.google.internal" "metadata.google.internal." :=
    @HostSpelling.trailingDot _ _ _ "metadata.google.internal" (by decide +kernel) (by decide +kernel) (by decide +kernel)
  refine ⟨by decide +kernel, by decide +kernel, ⟨sampleParser_respelled ?_ ?_ haddress, ?_, ?_, ?_, ?_⟩,
    sampleParser_respelled ?_ ?_ hname, ?_, ?_, ?_, ?_⟩
  all_goals decide +kernel

end Llmctl
