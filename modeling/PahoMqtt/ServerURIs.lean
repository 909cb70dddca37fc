import PahoMqtt.Bytes
import PahoMqtt.Lib.CStrings
import PahoMqtt.Lib.Runs

/-!
# The server that a client connects to

The URI of a client is given to `MQTTAsync_create`, and others may be given with
the connect options.  An attempt takes one of them without its scheme;
`MQTTProtocol_addressPort` and `Socket_new` find the host and the port in it.
-/

namespace PahoMqtt
namespace MQTTAsync

open Lib

def URI_TCP : Bytes := ascii "tcp://"

def URI_WS : Bytes := ascii "ws://"

def URI_SSL : Bytes := ascii "ssl://"

def URI_WSS : Bytes := ascii "wss://"

def MQTT_DEFAULT_PORT : Nat := 1883

def SECURE_MQTT_DEFAULT_PORT : Nat := 8883

/-- The URI begins with a scheme; two of the schemes are only known with OpenSSL. -/
def knownScheme (openssl : Bool) (serverURI : Bytes) : Bool :=
  strncmp URI_TCP.length serverURI URI_TCP || strncmp URI_WS.length serverURI URI_WS ||
    (openssl && (strncmp URI_SSL.length serverURI URI_SSL ||
      strncmp URI_WSS.length serverURI URI_WSS))

/-- A URI without its scheme, and what the scheme asks for. -/
structure SkippedScheme where
  serverURI : Bytes
  ssl : Bool
  websocket : Bool

def skipScheme (openssl : Bool) (serverURI : Bytes) : SkippedScheme :=
  if strncmp URI_TCP.length serverURI URI_TCP then
    ⟨serverURI.drop URI_TCP.length, false, false⟩
  else if strncmp URI_WS.length serverURI URI_WS then
    ⟨serverURI.drop URI_WS.length, false, true⟩
  else if openssl && strncmp URI_SSL.length serverURI URI_SSL then
    ⟨serverURI.drop URI_SSL.length, true, false⟩
  else if openssl && strncmp URI_WSS.length serverURI URI_WSS then
    ⟨serverURI.drop URI_WSS.length, true, true⟩
  else
    ⟨serverURI, false, false⟩

/-- The members of `MQTTAsyncs` that say where to connect. -/
structure AsyncServer where
  serverURI : Bytes
  /-- The member of `Clients` with the same name. -/
  clientServerURI : Bytes
  serverURIs : List Bytes
  ssl : Bool
  websocket : Bool

/-- `MQTTAsync_createWithOptions`; none for `MQTTASYNC_BAD_PROTOCOL`. -/
def createWithOptions (openssl : Bool) (serverURI : Bytes) : Option AsyncServer :=
  if ascii "://" <:+: serverURI ∧ knownScheme openssl serverURI = false then none
  else
    let skipped := skipScheme openssl serverURI
    some
      { serverURI := skipped.serverURI
        clientServerURI := skipped.serverURI
        serverURIs := []
        ssl := skipped.ssl
        websocket := skipped.websocket }

namespace AsyncServer

/-- `MQTTAsync_connect` with a list of URIs. -/
def connect (m : AsyncServer) (serverURIs : List Bytes) : AsyncServer := { m with serverURIs }

/-- The URI that `MQTTAsync_processCommand` passes to `MQTTProtocol_connect`. -/
def processCommand (openssl : Bool) (m : AsyncServer) (currentURI : Nat) : AsyncServer × Bytes :=
  match m.serverURIs[currentURI]? with
  | none => (m, m.serverURI)
  | some serverURI =>
      let skipped := skipScheme openssl serverURI
      ({ m with ssl := m.ssl || skipped.ssl, websocket := m.websocket || skipped.websocket },
        skipped.serverURI)

end AsyncServer

inductive ServerEvent where
  | connect (serverURIs : List Bytes)
  | processCommand (currentURI : Nat)

def ServerStep (openssl : Bool) (m : AsyncServer) (e : ServerEvent) (m' : AsyncServer) : Prop :=
  match e with
  | .connect serverURIs => m' = m.connect serverURIs
  | .processCommand currentURI => m' = (m.processCommand openssl currentURI).1

/-- An attempt does not change the URI that the client was created with. -/
theorem runs_serverURI
    {openssl : Bool} {m m' : AsyncServer} {tr : List (Transition AsyncServer ServerEvent)}
    (hrun : Runs (ServerStep openssl) m tr m') :
    m'.serverURI = m.serverURI ∧ m'.clientServerURI = m.clientServerURI := by
  refine (hrun.invariant (I := fun u => u.serverURI = m.serverURI ∧
    u.clientServerURI = m.clientServerURI) ?_ ⟨rfl, rfl⟩).2
  intro u e u' h hstep
  cases e with
  | connect serverURIs =>
      obtain rfl : u' = _ := hstep
      exact h
  | processCommand currentURI =>
      obtain rfl : u' = _ := hstep
      rw [AsyncServer.processCommand]
      split
      · exact h
      · exact h

end MQTTAsync

namespace MQTTProtocol

open Lib

/-- The colon before the port, unless it is one of an address in brackets. -/
def portColon (uri : Bytes) : Option Nat :=
  match strrchr 58 uri, strrchr 93 uri with
  | some colon_pos, some bracket =>
      if uri.head? = some 91 ∧ colon_pos < bracket then none else some colon_pos
  | colon_pos, _ => colon_pos

/-- `MQTTProtocol_addressPort`; none where it reads the byte before the URI. -/
def addressPort (uri : Bytes) (default_port : Int) : Option (Nat × Int) :=
  let (len, port) :=
    match portColon uri with
    | some colon_pos => (colon_pos, atoi (uri.drop (colon_pos + 1)))
    | none => (uri.length, default_port)
  if len = 0 then none
  else if uri[len - 1]? = some 93 then some (len - 1, port)
  else some (len, port)

end MQTTProtocol

namespace Socket

/-- The text that `Socket_new` looks up. -/
def addressText (addr : Bytes) (addr_len : Nat) : Bytes :=
  if addr.head? = some 91 then (addr.drop 1).take (addr_len - 1) else addr.take addr_len

/-- The port that `Socket_new` connects to, as `htons` leaves it. -/
def networkPort (port : Int) : Nat := (port % 65536).toNat

end Socket

namespace MQTTAsync

open Lib

/-- The port of a URI that has none. -/
def defaultPort (openssl : Bool) (m : AsyncServer) : Nat :=
  if openssl && m.ssl then SECURE_MQTT_DEFAULT_PORT else MQTT_DEFAULT_PORT

/-- The host and the port that an attempt without a proxy connects to. -/
def directTarget (openssl : Bool) (m : AsyncServer) (currentURI : Nat) : Option (Bytes × Nat) :=
  let (m, ip_address) := m.processCommand openssl currentURI
  (MQTTProtocol.addressPort ip_address (defaultPort openssl m)).map
    (fun (addr_len, port) => (Socket.addressText ip_address addr_len, Socket.networkPort port))

/-! ### URIs by their parts -/

/-- The schemes of URIs, with OpenSSL or without it. -/
inductive Scheme where
  | tcp
  | ws
  | ssl
  | wss
deriving DecidableEq

def Scheme.text : Scheme → Bytes
  | .tcp => URI_TCP
  | .ws => URI_WS
  | .ssl => URI_SSL
  | .wss => URI_WSS

def Scheme.secure : Scheme → Bool
  | .tcp | .ws => false
  | .ssl | .wss => true

/-- A host, by its name or by an address. -/
inductive Host where
  | name (text : Bytes)
  | ipv4 (text : Bytes)
  | ipv6 (text : Bytes)

/-- The text of a host without brackets. -/
def Host.bare : Host → Bytes
  | .name text => text
  | .ipv4 text => text
  | .ipv6 text => text

/-- The text of a host in a URI. -/
def Host.text : Host → Bytes
  | .name text => text
  | .ipv4 text => text
  | .ipv6 text => 91 :: text ++ [93]

structure BrokerURI where
  scheme : Option Scheme
  host : Host
  port : Option Bytes

namespace BrokerURI

/-- The colon and the port, if there is one. -/
def portText (uri : BrokerURI) : Bytes :=
  match uri.port with
  | none => []
  | some digits => 58 :: digits

/-- The URI without its scheme. -/
def address (uri : BrokerURI) : Bytes := uri.host.text ++ uri.portText

def text (uri : BrokerURI) : Bytes :=
  match uri.scheme with
  | none => uri.address
  | some scheme => scheme.text ++ uri.address

/-- The port of the URI, or the default. -/
def effectivePort (uri : BrokerURI) (default_port : Nat) : Nat :=
  match uri.port with
  | none => default_port
  | some digits => decimal digits

/-- The scheme is one that the library knows. -/
def Known (openssl : Bool) (uri : BrokerURI) : Prop :=
  openssl = true ∨ uri.scheme.all (fun scheme => !scheme.secure) = true

/-- The characters of a URI are those of its parts, and the port has two bytes. -/
structure Lexical (uri : BrokerURI) : Prop where
  nonempty : uri.host.bare ≠ []
  slash : 47 ∉ uri.host.bare
  opening : 91 ∉ uri.host.bare
  closing : 93 ∉ uri.host.bare
  colon : 58 ∈ uri.host.bare → ∃ text, uri.host = .ipv6 text
  digits : ∀ digits, uri.port = some digits → ∀ b ∈ digits, isdigit b = true
  port_le : ∀ digits, uri.port = some digits → decimal digits ≤ 65535

end BrokerURI

/-! ### Finding the parts -/

section Parts

variable {text digits : Bytes}

theorem not_mem_digits
    (hdigits : ∀ b ∈ digits, isdigit b = true) {b : UInt8}
    (hb : isdigit b = false) :
    b ∉ digits := by
  intro hmem
  rw [hdigits b hmem] at hb
  cases hb

/-- A byte of a text is not one that the text does not have. -/
theorem getElem?_ne
    {b : UInt8} {n : Nat}
    (hb : b ∉ text) :
    text[n]? ≠ some b :=
  fun h => hb (List.mem_of_getElem? h)

theorem head?_ne
    {b : UInt8}
    (hb : b ∉ text) :
    text.head? ≠ some b :=
  fun h => hb (List.mem_of_mem_head? h)

/-- A host without a colon and without a port. -/
theorem addressPort_plain
    (hne : text ≠ [])
    (hcolon : 58 ∉ text)
    (hclosing : 93 ∉ text) (default_port : Int) :
    MQTTProtocol.addressPort text default_port = some (text.length, default_port) := by
  have hport : MQTTProtocol.portColon text = none := by
    rw [MQTTProtocol.portColon, strrchr_none hcolon]
  have hlength : text.length ≠ 0 := fun h => hne (List.length_eq_zero_iff.mp h)
  rw [MQTTProtocol.addressPort, hport]
  simp only [if_neg hlength, if_neg (getElem?_ne hclosing)]

/-- A host without a colon, and a port. -/
theorem addressPort_plain_port
    (hne : text ≠ [])
    (hclosing : 93 ∉ text)
    (hdigits : ∀ b ∈ digits, isdigit b = true) (default_port : Int) :
    MQTTProtocol.addressPort (text ++ 58 :: digits) default_port =
      some (text.length, (decimal digits : Int)) := by
  have hnot : 93 ∉ text ++ 58 :: digits := by
    have hbracket : 93 ∉ digits := not_mem_digits hdigits (by decide)
    simp [hclosing, hbracket]
  have hport : MQTTProtocol.portColon (text ++ 58 :: digits) = some text.length := by
    rw [MQTTProtocol.portColon, strrchr_none hnot,
      strrchr_append (not_mem_digits hdigits (by decide))]
  have hlength : text.length ≠ 0 := fun h => hne (List.length_eq_zero_iff.mp h)
  have hdrop : (text ++ 58 :: digits).drop (text.length + 1) = digits := by
    simp
  rw [MQTTProtocol.addressPort, hport]
  simp only [if_neg hlength, if_neg (getElem?_ne hnot), hdrop, atoi_digits hdigits]

/-- A host in brackets without a port; its colons are before the closing one. -/
theorem addressPort_brackets
    (text : Bytes) (default_port : Int) :
    MQTTProtocol.addressPort (91 :: text ++ [93]) default_port =
      some (text.length + 1, default_port) := by
  have hbracket : strrchr 93 (91 :: text ++ [93]) = some (text.length + 1) := by
    rw [strrchr_append (by simp) (91 :: text), List.length_cons]
  have hport : MQTTProtocol.portColon (91 :: text ++ [93]) = none := by
    rw [MQTTProtocol.portColon, hbracket]
    by_cases hcolon : 58 ∈ 91 :: text ++ [93]
    · obtain ⟨before, after, hsplit, _, hlast⟩ := strrchr_split hcolon
      rw [hlast]
      have hlt : before.length < text.length + 1 := by
        have hget : (91 :: text ++ [93])[before.length]? = some 58 := by
          rw [hsplit]
          simp
        by_contra hge
        rw [List.getElem?_append_right (by simpa using hge)] at hget
        generalize before.length - (91 :: text).length = n at hget
        cases n with
        | zero => simp at hget
        | succ n => simp at hget
      simp [hlt]
    · rw [strrchr_none hcolon]
  rw [MQTTProtocol.addressPort, hport]
  simp

/-- A host in brackets and a port. -/
theorem addressPort_brackets_port
    (hdigits : ∀ b ∈ digits, isdigit b = true) (default_port : Int) :
    MQTTProtocol.addressPort (91 :: text ++ [93] ++ 58 :: digits) default_port =
      some (text.length + 1, (decimal digits : Int)) := by
  have hcolon : strrchr 58 (91 :: text ++ [93] ++ 58 :: digits) = some (text.length + 2) := by
    rw [strrchr_append (not_mem_digits hdigits (by decide))]
    simp
  have hbracket : strrchr 93 (91 :: text ++ [93] ++ 58 :: digits) = some (text.length + 1) := by
    have hnot : 93 ∉ 58 :: digits := by
      have hdigit : 93 ∉ digits := not_mem_digits hdigits (by decide)
      simp [hdigit]
    rw [List.append_assoc, List.singleton_append, strrchr_append hnot (91 :: text),
      List.length_cons]
  have hport : MQTTProtocol.portColon (91 :: text ++ [93] ++ 58 :: digits) =
      some (text.length + 2) := by
    rw [MQTTProtocol.portColon, hcolon, hbracket]
    simp
  have hget : (91 :: text ++ [93] ++ 58 :: digits)[text.length + 2 - 1]? = some 93 := by
    simp
  have hdrop : (91 :: text ++ [93] ++ 58 :: digits).drop (text.length + 2 + 1) = digits := by
    rw [List.drop_append]
    simp
  rw [MQTTProtocol.addressPort, hport]
  simp only [hget, hdrop, atoi_digits hdigits]
  simp

end Parts

namespace BrokerURI

variable {uri : BrokerURI} {openssl : Bool}

/-- The bytes of a host before its port are found to be the host. -/
theorem Lexical.addressPort
    (h : uri.Lexical) (default_port : Nat) :
    ∃ addr_len, MQTTProtocol.addressPort uri.address default_port =
        some (addr_len, (uri.effectivePort default_port : Int)) ∧
      Socket.addressText uri.address addr_len = uri.host.bare := by
  obtain ⟨hne, _, hopening, hclosing, hcolon, hdigits, _⟩ := h
  obtain ⟨scheme, host, port⟩ := uri
  have hplain : ∀ text : Bytes, text ≠ [] → 58 ∉ text → 91 ∉ text → 93 ∉ text →
      ∃ addr_len, MQTTProtocol.addressPort (text ++ portText ⟨scheme, host, port⟩) default_port =
          some (addr_len, (effectivePort ⟨scheme, host, port⟩ default_port : Int)) ∧
        Socket.addressText (text ++ portText ⟨scheme, host, port⟩) addr_len = text := by
    intro text htext hplain hopened hclosed
    refine ⟨text.length, ?_, ?_⟩
    · cases port with
      | none =>
          simpa [portText, effectivePort] using
            addressPort_plain htext hplain hclosed (default_port : Int)
      | some digits =>
          exact addressPort_plain_port htext hclosed (hdigits digits rfl) default_port
    · have hhead : (text ++ portText ⟨scheme, host, port⟩).head? ≠ some 91 := by
        rw [List.head?_append_of_ne_nil _ htext]
        exact head?_ne hopened
      rw [Socket.addressText, if_neg hhead, List.take_left]
  cases host with
  | name text =>
      refine hplain text hne (fun hmem => ?_) hopening hclosing
      obtain ⟨text', htext'⟩ := hcolon hmem
      cases htext'
  | ipv4 text =>
      refine hplain text hne (fun hmem => ?_) hopening hclosing
      obtain ⟨text', htext'⟩ := hcolon hmem
      cases htext'
  | ipv6 text =>
      refine ⟨text.length + 1, ?_, ?_⟩
      · cases port with
        | none =>
            simpa [address, Host.text, portText, effectivePort] using
              addressPort_brackets text (default_port : Int)
        | some digits =>
            exact addressPort_brackets_port (hdigits digits rfl) default_port
      · simp [Socket.addressText, address, Host.text, Host.bare]

/-- There is no slash after the scheme. -/
theorem Lexical.address_slash
    (h : uri.Lexical) :
    47 ∉ uri.address := by
  have hport : 47 ∉ uri.portText := by
    rw [portText]
    cases hport : uri.port with
    | none => simp
    | some digits =>
        have hdigit : 47 ∉ digits := not_mem_digits (h.digits digits hport) (by decide)
        simp [hdigit]
  have hslash := h.slash
  rw [address, List.mem_append, not_or]
  refine ⟨?_, hport⟩
  cases hhost : uri.host with
  | name text =>
      rw [hhost] at hslash
      exact hslash
  | ipv4 text =>
      rw [hhost] at hslash
      exact hslash
  | ipv6 text =>
      rw [hhost] at hslash
      simpa [Host.text, Host.bare] using hslash

/-- The comparison with the text of a scheme. -/
theorem strncmp_scheme
    (scheme : Scheme) (serverURI : Bytes) :
    strncmp scheme.text.length serverURI scheme.text = true ↔ scheme.text <+: serverURI := by
  refine strncmp_length_iff ?_ serverURI
  cases scheme with
  | tcp => decide
  | ws => decide
  | ssl => decide
  | wss => decide

/-- Without a slash there is no scheme. -/
theorem skipScheme_none
    {serverURI : Bytes}
    (hslash : 47 ∉ serverURI) :
    skipScheme openssl serverURI = ⟨serverURI, false, false⟩ := by
  have hnot (scheme : Scheme) : strncmp scheme.text.length serverURI scheme.text = false := by
    rw [← Bool.not_eq_true, strncmp_scheme]
    intro hbegins
    refine hslash (hbegins.subset ?_)
    cases scheme with
    | tcp => decide
    | ws => decide
    | ssl => decide
    | wss => decide
  have htcp := hnot .tcp
  have hws := hnot .ws
  have hssl := hnot .ssl
  have hwss := hnot .wss
  simp only [Scheme.text] at htcp hws hssl hwss
  simp [skipScheme, htcp, hws, hssl, hwss]

/-- No text begins with two schemes. -/
theorem strncmp_other
    {scheme : Scheme} (other : Scheme)
    (hother : other ≠ scheme) (rest : Bytes) :
    strncmp other.text.length (scheme.text ++ rest) other.text = false := by
  cases scheme <;> cases other <;> first
    | exact absurd rfl hother
    | rfl

theorem skipScheme_known
    {scheme : Scheme}
    (hknown : openssl = true ∨ scheme.secure = false) (rest : Bytes) :
    (skipScheme openssl (scheme.text ++ rest)).serverURI = rest := by
  have hself : strncmp scheme.text.length (scheme.text ++ rest) scheme.text = true :=
    (strncmp_scheme scheme _).mpr (List.prefix_append _ _)
  have hother (other : Scheme) (h : other ≠ scheme) := strncmp_other other h rest
  cases scheme with
  | tcp =>
      simp only [Scheme.text] at hself ⊢
      rw [skipScheme, if_pos hself]
      exact List.drop_left
  | ws =>
      have htcp := hother .tcp (by decide)
      simp only [Scheme.text] at hself htcp ⊢
      rw [skipScheme, htcp, if_neg (by decide), if_pos hself]
      exact List.drop_left
  | ssl =>
      obtain rfl : openssl = true := hknown.resolve_right (by decide)
      have htcp := hother .tcp (by decide)
      have hws := hother .ws (by decide)
      simp only [Scheme.text] at hself htcp hws ⊢
      rw [skipScheme, htcp, hws, hself]
      exact List.drop_left
  | wss =>
      obtain rfl : openssl = true := hknown.resolve_right (by decide)
      have htcp := hother .tcp (by decide)
      have hws := hother .ws (by decide)
      have hssl := hother .ssl (by decide)
      simp only [Scheme.text] at hself htcp hws hssl ⊢
      rw [skipScheme, htcp, hws, hssl, hself]
      exact List.drop_left

/-- Without OpenSSL, a scheme that needs it is left where it is. -/
theorem skipScheme_unknown
    {scheme : Scheme}
    (hsecure : scheme.secure = true) (rest : Bytes) :
    skipScheme false (scheme.text ++ rest) = ⟨scheme.text ++ rest, false, false⟩ ∧
      knownScheme false (scheme.text ++ rest) = false := by
  have htcp : strncmp URI_TCP.length (scheme.text ++ rest) URI_TCP = false := by
    refine strncmp_other .tcp ?_ rest
    rintro rfl
    cases hsecure
  have hws : strncmp URI_WS.length (scheme.text ++ rest) URI_WS = false := by
    refine strncmp_other .ws ?_ rest
    rintro rfl
    cases hsecure
  constructor
  · simp [skipScheme, htcp, hws]
  · simp [knownScheme, htcp, hws]

/-- A URI with a known scheme is left without it. -/
theorem Lexical.skipScheme
    (h : uri.Lexical)
    (hknown : uri.Known openssl) :
    (MQTTAsync.skipScheme openssl uri.text).serverURI = uri.address := by
  rw [text]
  cases hscheme : uri.scheme with
  | none =>
      rw [skipScheme_none h.address_slash]
  | some scheme =>
      refine skipScheme_known ?_ uri.address
      simpa [Known, hscheme] using hknown

/-- A client that could be created has the URI without its scheme, which is a known one. -/
theorem Lexical.created
    {m : AsyncServer}
    (h : uri.Lexical)
    (hcreate : createWithOptions openssl uri.text = some m) :
    uri.Known openssl ∧ m.serverURI = uri.address ∧ m.clientServerURI = uri.address := by
  have hknown : uri.Known openssl := by
    by_contra hunknown
    simp only [Known, not_or, Bool.not_eq_true] at hunknown
    obtain ⟨rfl, hall⟩ := hunknown
    cases hscheme : uri.scheme with
    | none =>
        simp [hscheme] at hall
    | some scheme =>
        have hsecure : scheme.secure = true := by
          simpa [hscheme] using hall
        have hcontains : ascii "://" <:+: uri.text := by
          rw [text, hscheme]
          refine List.IsInfix.trans ?_ (List.prefix_append _ _).isInfix
          cases scheme with
          | tcp => decide
          | ws => decide
          | ssl => decide
          | wss => decide
        have hnot : knownScheme false uri.text = false := by
          rw [text, hscheme]
          exact (skipScheme_unknown hsecure uri.address).2
        rw [createWithOptions, if_pos ⟨hcontains, hnot⟩] at hcreate
        cases hcreate
  rw [createWithOptions] at hcreate
  split_ifs at hcreate
  obtain rfl := Option.some.inj hcreate
  exact ⟨hknown, h.skipScheme hknown, h.skipScheme hknown⟩

theorem portColon_eq
    {text : Bytes} {colon_pos : Nat}
    (hhead : text.head? ≠ some 91)
    (hlast : strrchr 58 text = some colon_pos) :
    MQTTProtocol.portColon text = some colon_pos := by
  rw [MQTTProtocol.portColon, hlast]
  cases strrchr 93 text with
  | none => rfl
  | some bracket => simp [hhead]

/-- What is found in a URI with a scheme that was left: a slash in the host, or no port. -/
theorem addressPort_unknown
    {scheme : Scheme} {default_port port : Int} {addr_len : Nat}
    (hsecure : scheme.secure = true)
    (hfound : MQTTProtocol.addressPort (scheme.text ++ uri.address) default_port =
      some (addr_len, port)) :
    47 ∈ Socket.addressText (scheme.text ++ uri.address) addr_len ∨
      Socket.networkPort port = 0 := by
  obtain ⟨a, b, c, hscheme, hhead, hthird⟩ : ∃ a b c : UInt8,
      scheme.text = [a, b, c] ++ 58 :: [47, 47] ∧ a ≠ 91 ∧ c ≠ 93 := by
    cases scheme with
    | tcp => cases hsecure
    | ws => cases hsecure
    | ssl => exact ⟨115, 115, 108, rfl, by decide, by decide⟩
    | wss => exact ⟨119, 115, 115, rfl, by decide, by decide⟩
  rw [hscheme] at hfound ⊢
  by_cases hcolon : 58 ∈ uri.address
  · -- the last colon is behind the slashes
    obtain ⟨before, after, haddress, hafter, _⟩ := strrchr_split hcolon
    have htext : [a, b, c] ++ 58 :: [47, 47] ++ uri.address =
        ([a, b, c] ++ 58 :: [47, 47] ++ before) ++ 58 :: after := by
      rw [haddress, ← List.append_assoc]
    rw [htext] at hfound ⊢
    have hne : (([a, b, c] ++ 58 :: [47, 47] ++ before) ++ 58 :: after).head? ≠ some 91 := by
      simpa using hhead
    rw [MQTTProtocol.addressPort, portColon_eq hne (strrchr_append hafter _)] at hfound
    have hlong : 4 < addr_len := by
      simp only [List.length_append, List.length_cons, List.length_nil] at hfound
      split_ifs at hfound <;> simp only [Option.some.injEq, Prod.mk.injEq] at hfound <;> omega
    refine Or.inl ?_
    rw [Socket.addressText, if_neg hne]
    refine List.mem_of_getElem? (i := 4) ?_
    rw [List.getElem?_take_of_lt hlong]
    rfl
  · have hafter : 58 ∉ [47, 47] ++ uri.address := by
      simp [hcolon]
    have htext : [a, b, c] ++ 58 :: [47, 47] ++ uri.address =
        [a, b, c] ++ 58 :: ([47, 47] ++ uri.address) := rfl
    have hne : ([a, b, c] ++ 58 :: ([47, 47] ++ uri.address)).head? ≠ some 91 := by
      simpa using hhead
    rw [htext, MQTTProtocol.addressPort, portColon_eq hne (strrchr_append hafter _)] at hfound
    refine Or.inr ?_
    simp [hthird] at hfound
    rw [← hfound.2]
    rfl

/-! ### The target of an attempt -/

section Attempts

variable {m : AsyncServer} {uris : List BrokerURI} {currentURI : Nat}

/-- The URI of an attempt. -/
def attempted (uri : BrokerURI) (uris : List BrokerURI) (currentURI : Nat) : BrokerURI :=
  (uris[currentURI]?).getD uri

theorem processCommand_text
    (hserverURI : m.serverURI = uri.address)
    (hserverURIs : m.serverURIs = uris.map (·.text)) :
    (m.processCommand openssl currentURI).2 =
      match uris[currentURI]? with
      | none => uri.address
      | some other => (MQTTAsync.skipScheme openssl other.text).serverURI := by
  rw [AsyncServer.processCommand, hserverURIs, List.getElem?_map]
  cases uris[currentURI]? with
  | none => exact hserverURI
  | some other => rfl

theorem directTarget_known
    (huri : uri.Lexical)
    (huris : ∀ other ∈ uris, other.Lexical)
    (hserverURI : m.serverURI = uri.address)
    (hserverURIs : m.serverURIs = uris.map (·.text))
    (hknown : (attempted uri uris currentURI).Known openssl) :
    directTarget openssl m currentURI =
      some ((attempted uri uris currentURI).host.bare,
        (attempted uri uris currentURI).effectivePort
          (defaultPort openssl (m.processCommand openssl currentURI).1)) := by
  have htext : (m.processCommand openssl currentURI).2 =
        (attempted uri uris currentURI).address ∧ (attempted uri uris currentURI).Lexical := by
    rw [processCommand_text hserverURI hserverURIs, attempted]
    rw [attempted] at hknown
    cases hother : uris[currentURI]? with
    | none =>
        exact ⟨rfl, huri⟩
    | some other =>
        rw [hother] at hknown
        have hlexical := huris other (List.mem_of_getElem? hother)
        exact ⟨hlexical.skipScheme hknown, hlexical⟩
  obtain ⟨addr_len, hfound, haddress⟩ := htext.2.addressPort
    (defaultPort openssl (m.processCommand openssl currentURI).1)
  have hport : (attempted uri uris currentURI).effectivePort
      (defaultPort openssl (m.processCommand openssl currentURI).1) < 65536 := by
    rw [effectivePort]
    split
    · rw [defaultPort]
      split_ifs
      · decide
      · decide
    · have := htext.2.port_le _ ‹_›
      omega
  simp only [directTarget, htext.1, hfound, Option.map_some, haddress, Socket.networkPort]
  congr 2
  omega

theorem directTarget_unknown
    {host : Bytes} {port : Nat}
    (huri : uri.Known openssl)
    (hserverURI : m.serverURI = uri.address)
    (hserverURIs : m.serverURIs = uris.map (·.text))
    (hunknown : ¬ (attempted uri uris currentURI).Known openssl)
    (htarget : directTarget openssl m currentURI = some (host, port)) :
    47 ∈ host ∨ port = 0 := by
  rw [attempted] at hunknown
  simp only [directTarget, processCommand_text hserverURI hserverURIs] at htarget
  cases hother : uris[currentURI]? with
  | none =>
      rw [hother] at hunknown
      exact absurd huri hunknown
  | some other =>
      rw [hother] at hunknown htarget
      simp only [Option.getD_some, Known, not_or, Bool.not_eq_true] at hunknown
      obtain ⟨rfl, hall⟩ := hunknown
      cases hscheme : other.scheme with
      | none =>
          simp [hscheme] at hall
      | some scheme =>
          have hsecure : scheme.secure = true := by
            simpa [hscheme] using hall
          have hskip := (skipScheme_unknown hsecure other.address).1
          simp only [text, hscheme, hskip] at htarget
          obtain ⟨⟨addr_len, port'⟩, hfound, hresult⟩ := Option.map_eq_some_iff.mp htarget
          obtain ⟨rfl, rfl⟩ := Prod.mk.inj hresult
          exact addressPort_unknown hsecure hfound

end Attempts

end BrokerURI

end MQTTAsync
end PahoMqtt
