import PahoMqtt.ServerURIs
import PahoMqtt.Socks5Proxy

/-!
# The broker that a request names

What the request to a proxy says, compared with the host and the port that an
attempt without a proxy connects to.  The request is made of the URI that the
client was created with, as it is without its scheme.
-/

set_option linter.style.nameCheck false

namespace PahoMqtt
namespace Socks5

open Lib MQTTAsync

/-- An address that a request can name. -/
inductive Address where
  | ipv4 (address : Bytes)
  | domain (name : Bytes)
  | ipv6 (address : Bytes)
deriving DecidableEq

/-- The address that a text stands for. -/
def addressOf (inet_pton : InetPton) (text : Bytes) : Address :=
  match inet_pton.inet text, inet_pton.inet6 text with
  | some address, _ => .ipv4 address.toList
  | none, some address => .ipv6 address.toList
  | none, none => .domain text

/-- An address of `n` bytes, and a port. -/
def decodeAddress (kind : Bytes → Address) (n : Nat) (bytes : Bytes) : Option (Address × Nat) :=
  match bytes.drop n with
  | [high, low] => some (kind (bytes.take n), 256 * high.toNat + low.toNat)
  | _ => none

/-- A request for a connection, as a proxy reads it. -/
def decodeConnect : Bytes → Option (Address × Nat)
  | 0x05 :: 0x01 :: 0x00 :: atyp :: bytes =>
      if atyp = SOCKS_ATYPE_IP_V4 then decodeAddress .ipv4 4 bytes
      else if atyp = SOCKS_ATYPE_IP_V6 then decodeAddress .ipv6 16 bytes
      else if atyp = SOCKS_ATYPE_DOMAINNAME then
        match bytes with
        | len :: bytes => decodeAddress .domain len.toNat bytes
        | [] => none
      else none
  | _ => none

/-- The texts that `inet_pton` accepts: four numbers with dots, or groups with colons. -/
structure Documented (inet_pton : InetPton) : Prop where
  inet_text : ∀ text address, inet_pton.inet text = some address →
    ∀ b ∈ text, isdigit b = true ∨ b = 46
  inet6_text : ∀ text address, inet_pton.inet6 text = some address →
    ∀ b ∈ text, isdigit b = true ∨ 65 ≤ b ∧ b ≤ 70 ∨ 97 ≤ b ∧ b ≤ 102 ∨ b = 58 ∨ b = 46
  inet_nonempty : inet_pton.inet [] = none
  inet6_colons : ∀ text address, inet_pton.inet6 text = some address → 2 ≤ text.count 58

/-- The text of a host is what its kind says. -/
def HostValid (inet_pton : InetPton) : Host → Prop
  | .name text =>
      text ≠ [] ∧ 47 ∉ text ∧ 58 ∉ text ∧ 91 ∉ text ∧ 93 ∉ text ∧
        inet_pton.inet text = none ∧ inet_pton.inet6 text = none
  | .ipv4 text => ∃ address, inet_pton.inet text = some address
  | .ipv6 text => ∃ address, inet_pton.inet6 text = some address

/-- A URI with a host, and a port of two bytes if it has one. -/
structure Valid (inet_pton : InetPton) (uri : BrokerURI) : Prop where
  host : HostValid inet_pton uri.host
  digits : ∀ digits, uri.port = some digits → ∀ b ∈ digits, isdigit b = true
  port_le : ∀ digits, uri.port = some digits → decimal digits ≤ 65535

/--
The request of an attempt names the host and the port that the attempt would connect
to without a proxy.
-/
def NamesBroker (inet_pton : InetPton) (openssl : Bool) (m : AsyncServer) (currentURI : Nat) :
    Prop :=
  ∃ request host port, connectPacket inet_pton m.clientServerURI = some request ∧
    directTarget openssl m currentURI = some (host, port) ∧
    decodeConnect request = some (addressOf inet_pton host, port)

section Requests

variable {inet_pton : InetPton}

theorem decodeAddress_port
    {kind : Bytes → Address} {n : Nat} {address : Bytes}
    (hlength : address.length = n) :
    decodeAddress kind n (address ++ port) = some (kind address, 1883) := by
  rw [decodeAddress, ← hlength, List.drop_left, List.take_left]
  rfl

/-- A request names the text that it was made of, and the port 1883. -/
theorem connectPacket_decodes
    {text request : Bytes}
    (hrequest : connectPacket inet_pton text = some request) :
    decodeConnect request = some (addressOf inet_pton text, 1883) := by
  revert hrequest
  rw [connectPacket, addressOf]
  cases inet_pton.inet text with
  | some address =>
      intro hrequest
      obtain rfl := Option.some.inj hrequest
      exact decodeAddress_port address.size_toArray
  | none =>
      cases inet_pton.inet6 text with
      | some address =>
          intro hrequest
          obtain rfl := Option.some.inj hrequest
          exact decodeAddress_port address.size_toArray
      | none =>
          intro hrequest
          by_cases hlong : text.length > 255
          · simp [hlong] at hrequest
          · simp only [if_neg hlong, Option.some.injEq] at hrequest
            subst hrequest
            have hlength : text.length = (UInt8.ofNat text.length).toNat := by
              rw [UInt8.toNat_ofNat']
              omega
            exact decodeAddress_port hlength

/-- There is a request, unless the text is no address and too long for a name. -/
theorem connectPacket_exists
    (text : Bytes) :
    (∃ request, connectPacket inet_pton text = some request) ↔
      (addressOf inet_pton text = .domain text → text.length ≤ 255) := by
  rw [connectPacket, addressOf]
  cases inet_pton.inet text with
  | some address =>
      simp
  | none =>
      cases inet_pton.inet6 text with
      | some address =>
          simp
      | none =>
          by_cases hlong : text.length > 255
          · simp [hlong]
          · simp [Nat.le_of_not_lt hlong]

/-- A text with another byte is no address with four numbers. -/
theorem Documented.inet_none
    (h : Documented inet_pton) {text : Bytes} {b : UInt8}
    (hb : b ∈ text)
    (hdigit : isdigit b = false)
    (hdot : b ≠ 46) :
    inet_pton.inet text = none := by
  cases haddress : inet_pton.inet text with
  | none =>
      rfl
  | some address =>
      rcases h.inet_text text address haddress b hb with htrue | heq
      · rw [hdigit] at htrue
        cases htrue
      · exact absurd heq hdot

/-- A text with a slash or a bracket is no address at all. -/
theorem Documented.none_of_mem
    (h : Documented inet_pton) {text : Bytes} {b : UInt8}
    (hb : b ∈ text)
    (hother : b = 47 ∨ b = 91 ∨ b = 93) :
    inet_pton.inet text = none ∧ inet_pton.inet6 text = none := by
  have hdigit : isdigit b = false := by
    rcases hother with rfl | rfl | rfl
    · rfl
    · rfl
    · rfl
  have hrest : ¬ (65 ≤ b ∧ b ≤ 70 ∨ 97 ≤ b ∧ b ≤ 102 ∨ b = 58 ∨ b = 46) := by
    rcases hother with rfl | rfl | rfl
    · decide
    · decide
    · decide
  refine ⟨h.inet_none hb hdigit (fun heq => hrest (Or.inr (Or.inr (Or.inr heq)))), ?_⟩
  cases haddress : inet_pton.inet6 text with
  | none =>
      rfl
  | some address =>
      rcases h.inet6_text text address haddress b hb with htrue | hchar
      · rw [hdigit] at htrue
        cases htrue
      · exact absurd hchar hrest

/-- The characters of a valid URI are those of its parts. -/
theorem Valid.lexical
    (h : Documented inet_pton) {uri : BrokerURI}
    (hvalid : Valid inet_pton uri) :
    uri.Lexical := by
  obtain ⟨scheme, host, port⟩ := uri
  have hhost := hvalid.host
  cases host with
  | name text =>
      obtain ⟨hne, hslash, hcolon, hopening, hclosing, _, _⟩ := hhost
      exact ⟨hne, hslash, hopening, hclosing, fun hmem => absurd hmem hcolon, hvalid.digits,
        hvalid.port_le⟩
  | ipv4 text =>
      obtain ⟨address, haddress⟩ := hhost
      have hnot : ∀ b : UInt8, isdigit b = false → b ≠ 46 → b ∉ text := by
        intro b hdigit hdot hmem
        rw [h.inet_none hmem hdigit hdot] at haddress
        cases haddress
      refine ⟨?_, hnot 47 rfl (by decide), hnot 91 rfl (by decide), hnot 93 rfl (by decide),
        fun hmem => absurd hmem (hnot 58 rfl (by decide)), hvalid.digits, hvalid.port_le⟩
      rintro (rfl : text = [])
      rw [h.inet_nonempty] at haddress
      cases haddress
  | ipv6 text =>
      obtain ⟨address, haddress⟩ := hhost
      have hnot : ∀ b : UInt8, b = 47 ∨ b = 91 ∨ b = 93 → b ∉ text := by
        intro b hother hmem
        rw [(h.none_of_mem hmem hother).2] at haddress
        cases haddress
      refine ⟨?_, hnot 47 (by simp), hnot 91 (by simp), hnot 93 (by simp),
        fun _ => ⟨text, rfl⟩, hvalid.digits, hvalid.port_le⟩
      rintro (rfl : text = [])
      have hcolons := h.inet6_colons [] address haddress
      simp at hcolons

theorem addressOf_none
    {text : Bytes}
    (h : inet_pton.inet text = none ∧ inet_pton.inet6 text = none) :
    addressOf inet_pton text = .domain text := by
  rw [addressOf, h.1, h.2]

/-- A host that stands for a name is one, and has no character of a URI. -/
theorem HostValid.domain
    {host : Host} {name : Bytes}
    (hvalid : HostValid inet_pton host)
    (hname : addressOf inet_pton host.bare = .domain name) :
    host = .name name ∧ 47 ∉ name ∧ 58 ∉ name ∧ 91 ∉ name := by
  cases host with
  | name text =>
      obtain ⟨_, hslash, hcolon, hopening, _, hinet, hinet6⟩ := hvalid
      rw [Host.bare, addressOf_none ⟨hinet, hinet6⟩] at hname
      obtain rfl := Address.domain.inj hname
      exact ⟨rfl, hslash, hcolon, hopening⟩
  | ipv4 text =>
      obtain ⟨address, haddress⟩ := hvalid
      rw [Host.bare, addressOf, haddress] at hname
      cases hname
  | ipv6 text =>
      obtain ⟨address, haddress⟩ := hvalid
      rw [Host.bare, addressOf, haddress] at hname
      cases hinet : inet_pton.inet text with
      | none =>
          rw [hinet] at hname
          cases hname
      | some other =>
          rw [hinet] at hname
          cases hname

section Created

variable {uri : BrokerURI}

/-- A URI of a host only. -/
theorem address_bare
    (hport : uri.port = none)
    (hhost : ∀ text, uri.host ≠ .ipv6 text) :
    uri.address = uri.host.bare := by
  rw [BrokerURI.address, BrokerURI.portText, hport, List.append_nil]
  cases hcase : uri.host with
  | name text => rfl
  | ipv4 text => rfl
  | ipv6 text => exact absurd hcase (hhost text)

/-- A URI with a port or with brackets is no address, and no name of a host. -/
theorem Valid.address_other
    (h : Documented inet_pton)
    (hvalid : Valid inet_pton uri)
    (hother : uri.port = none → ∃ text, uri.host = .ipv6 text) :
    addressOf inet_pton uri.address = .domain uri.address ∧
      (58 ∈ uri.address ∨ 91 ∈ uri.address) := by
  by_cases hbrackets : ∃ text, uri.host = .ipv6 text
  · obtain ⟨text, htext⟩ := hbrackets
    have hmem : 91 ∈ uri.address := by
      simp [BrokerURI.address, htext, Host.text]
    exact ⟨addressOf_none (h.none_of_mem hmem (by simp)), Or.inr hmem⟩
  · cases hport : uri.port with
    | none =>
        exact absurd (hother hport) hbrackets
    | some digits =>
        have hlexical := hvalid.lexical h
        have hcolon : 58 ∉ uri.host.bare := fun hmem => hbrackets (hlexical.colon hmem)
        have hdigits : 58 ∉ digits := not_mem_digits (hvalid.digits digits hport) rfl
        have haddress : uri.address = uri.host.bare ++ 58 :: digits := by
          rw [BrokerURI.address, BrokerURI.portText, hport]
          cases hcase : uri.host with
          | name text => rfl
          | ipv4 text => rfl
          | ipv6 text => exact absurd ⟨text, hcase⟩ hbrackets
        have hmem : 58 ∈ uri.address := by
          rw [haddress]
          simp
        refine ⟨addressOf_none ⟨h.inet_none hmem rfl (by decide), ?_⟩, Or.inl hmem⟩
        cases hinet6 : inet_pton.inet6 uri.address with
        | none =>
            rfl
        | some address =>
            have hcount := h.inet6_colons uri.address address hinet6
            rw [haddress, List.count_append, List.count_cons_self,
              List.count_eq_zero_of_not_mem hcolon, List.count_eq_zero_of_not_mem hdigits] at hcount
            omega

/-- A request never names a host with a slash. -/
theorem Valid.domain_slash
    {name : Bytes}
    (h : Documented inet_pton)
    (hvalid : Valid inet_pton uri)
    (hname : addressOf inet_pton uri.address = .domain name) :
    47 ∉ name := by
  by_cases hother : uri.port = none → ∃ text, uri.host = .ipv6 text
  · rw [(hvalid.address_other h hother).1] at hname
    obtain rfl := Address.domain.inj hname
    exact (hvalid.lexical h).address_slash
  · push Not at hother
    rw [address_bare hother.1 hother.2] at hname
    exact (hvalid.host.domain hname).2.1

end Created

variable {openssl : Bool} {uri : BrokerURI} {uris : List BrokerURI} {m₀ m : AsyncServer}
variable {tr : List (Transition AsyncServer ServerEvent)}

/--
An attempt through a proxy is made to the broker of its URI exactly if the client was
created with a URI that has no port and no brackets, with a name that fits in a byte,
the attempt is made to the same host, and to the port 1883.
-/
theorem request_names_broker_iff
    (h : Documented inet_pton)
    (huri : Valid inet_pton uri)
    (huris : ∀ other ∈ uris, Valid inet_pton other)
    (hcreate : createWithOptions openssl uri.text = some m₀)
    (hrun : Runs (ServerStep openssl) m₀ tr m)
    (hserverURIs : m.serverURIs = uris.map (·.text)) (currentURI : Nat) :
    NamesBroker inet_pton openssl m currentURI ↔
      uri.port = none ∧ (∀ text, uri.host ≠ .ipv6 text) ∧
        (∀ text, uri.host = .name text → text.length ≤ 255) ∧
        (uri.attempted uris currentURI).Known openssl ∧
        addressOf inet_pton (uri.attempted uris currentURI).host.bare =
          addressOf inet_pton uri.host.bare ∧
        (uri.attempted uris currentURI).effectivePort
          (defaultPort openssl (m.processCommand openssl currentURI).1) = 1883 := by
  have hlexical := huri.lexical h
  obtain ⟨hknown₀, hserver₀, hclient₀⟩ := hlexical.created hcreate
  obtain ⟨hserver, hclient⟩ := runs_serverURI hrun
  rw [hserver₀] at hserver
  rw [hclient₀] at hclient
  have hattempted : Valid inet_pton (uri.attempted uris currentURI) := by
    rw [BrokerURI.attempted]
    cases hother : uris[currentURI]? with
    | none => exact huri
    | some other => exact huris other (List.mem_of_getElem? hother)
  have htarget (hknown : (uri.attempted uris currentURI).Known openssl) :=
    BrokerURI.directTarget_known hlexical (fun other hmem => (huris other hmem).lexical h) hserver
      hserverURIs hknown
  constructor
  · rintro ⟨request, host, port, hrequest, hdirect, hdecode⟩
    rw [hclient] at hrequest
    obtain ⟨haddress, hport⟩ := Prod.mk.inj
      (Option.some.inj ((connectPacket_decodes hrequest).symm.trans hdecode))
    have hknown : (uri.attempted uris currentURI).Known openssl := by
      by_contra hunknown
      rcases BrokerURI.directTarget_unknown hknown₀ hserver hserverURIs hunknown hdirect with
        hslash | hzero
      · rw [addressOf_none (h.none_of_mem hslash (by simp))] at haddress
        exact huri.domain_slash h haddress hslash
      · omega
    rw [htarget hknown] at hdirect
    obtain ⟨rfl, rfl⟩ := Prod.mk.inj (Option.some.inj hdirect)
    have hbare : ¬ (uri.port = none → ∃ text, uri.host = .ipv6 text) := by
      intro hother
      obtain ⟨hdomain, hcharacter⟩ := huri.address_other h hother
      obtain ⟨_, _, hcolon, hopening⟩ :=
        hattempted.host.domain (haddress.symm.trans hdomain)
      rcases hcharacter with hmem | hmem
      · exact hcolon hmem
      · exact hopening hmem
    push Not at hbare
    rw [address_bare hbare.1 hbare.2] at haddress hrequest
    refine ⟨hbare.1, hbare.2, ?_, hknown, haddress.symm, hport.symm⟩
    intro text htext
    have hexists := (connectPacket_exists uri.host.bare).mp ⟨request, hrequest⟩
    have hhost := huri.host
    rw [htext] at hexists hhost
    exact hexists (addressOf_none ⟨hhost.2.2.2.2.2.1, hhost.2.2.2.2.2.2⟩)
  · rintro ⟨hport, hhost, hlength, hknown, haddress, heffective⟩
    have hrequest : ∃ request, connectPacket inet_pton uri.address = some request := by
      rw [address_bare hport hhost]
      refine (connectPacket_exists uri.host.bare).mpr (fun hdomain => ?_)
      exact hlength _ (huri.host.domain hdomain).1
    obtain ⟨request, hrequest⟩ := hrequest
    refine ⟨request, _, _, ?_, htarget hknown, ?_⟩
    · rw [hclient, hrequest]
    · rw [connectPacket_decodes hrequest, address_bare hport hhost, haddress, heffective]

end Requests

/-- A URI of a host by its name. -/
def nameURI (port : Option Bytes) : BrokerURI := ⟨some .tcp, .name (ascii "b"), port⟩

theorem hostNames_documented : Documented hostNames where
  inet_text _ _ h := by cases h
  inet6_text _ _ h := by cases h
  inet_nonempty := rfl
  inet6_colons _ _ h := by cases h

theorem nameURI_valid
    {port : Option Bytes}
    (hport : port = none ∨ port = some (ascii "1883")) :
    Valid hostNames (nameURI port) := by
  have hdigits_eq : ∀ digits, port = some digits → digits = ascii "1883" := by
    intro digits hdigits
    rcases hport with hnone | hsome
    · rw [hnone] at hdigits
      cases hdigits
    · exact (Option.some.inj (hsome.symm.trans hdigits)).symm
  refine ⟨?_, ?_, ?_⟩
  · refine ⟨?_, ?_, ?_, ?_, ?_, rfl, rfl⟩
    all_goals decide
  · intro digits hdigits
    rw [hdigits_eq digits hdigits, ← List.all_eq_true]
    decide
  · intro digits hdigits
    have hvalue : decimal (ascii "1883") = 1883 := by decide
    rw [hdigits_eq digits hdigits, hvalue]
    omega

theorem request_names_broker_iff_name :
    ∃ m₀, createWithOptions false (nameURI none).text = some m₀ ∧
      NamesBroker hostNames false (m₀.connect [(nameURI (some (ascii "1883"))).text]) 0 := by
  obtain ⟨m₀, hcreate⟩ : ∃ m₀, createWithOptions false (nameURI none).text = some m₀ :=
    ⟨_, rfl⟩
  have hlist : ∀ other ∈ [nameURI (some (ascii "1883"))], Valid hostNames other := by
    intro other hother
    rw [List.mem_singleton.mp hother]
    exact nameURI_valid (Or.inr rfl)
  have hrun : Runs (ServerStep false) m₀ [⟨m₀, .connect [(nameURI (some (ascii "1883"))).text],
      m₀.connect [(nameURI (some (ascii "1883"))).text]⟩]
        (m₀.connect [(nameURI (some (ascii "1883"))).text]) :=
    Runs.cons rfl (Runs.nil _)
  refine ⟨m₀, hcreate, ?_⟩
  refine (request_names_broker_iff hostNames_documented (nameURI_valid (Or.inl rfl)) hlist hcreate
    hrun rfl 0).mpr ⟨rfl, ?_, ?_, Or.inr rfl, rfl, ?_⟩
  · rintro text ⟨⟩
  · rintro text ⟨⟩
    decide
  · have hport : decimal (ascii "1883") = 1883 := by decide
    exact hport

/-- With a port in the URI, the request has it in the name of the host. -/
theorem port_in_name :
    ∃ m₀, createWithOptions false (nameURI (some (ascii "1884"))).text = some m₀ ∧
      directTarget false m₀ 0 = some (ascii "b", 1884) ∧
      (∃ request, connectPacket hostNames m₀.clientServerURI = some request ∧
        decodeConnect request = some (.domain (ascii "b:1884"), 1883)) ∧
      ¬ NamesBroker hostNames false m₀ 0 := by
  obtain ⟨m₀, hcreate, hclient, hdirect⟩ : ∃ m₀,
      createWithOptions false (nameURI (some (ascii "1884"))).text = some m₀ ∧
        m₀.clientServerURI = ascii "b:1884" ∧
        directTarget false m₀ 0 = some (ascii "b", 1884) :=
    ⟨_, rfl, by decide, by decide⟩
  obtain ⟨request, hrequest, hdecode⟩ : ∃ request,
      connectPacket hostNames m₀.clientServerURI = some request ∧
        decodeConnect request = some (.domain (ascii "b:1884"), 1883) := by
    rw [hclient]
    exact ⟨_, rfl, by decide⟩
  refine ⟨m₀, hcreate, hdirect, ⟨request, hrequest, hdecode⟩, ?_⟩
  rintro ⟨request', host, port, hrequest', hdirect', hdecode'⟩
  obtain rfl : request = request' := Option.some.inj (hrequest.symm.trans hrequest')
  obtain ⟨_, rfl⟩ := Prod.mk.inj (Option.some.inj (hdirect.symm.trans hdirect'))
  have hport := congrArg Prod.snd (Option.some.inj (hdecode.symm.trans hdecode'))
  cases hport

end Socks5
end PahoMqtt
