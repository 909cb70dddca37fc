import PahoMqtt.PacketBodies
import PahoMqtt.Utf8Validation
import PahoMqtt.ProtocolClient
import PahoMqtt.PropertyLengths
import PahoMqtt.Lib.Buffers

/-!
# The answer to a SUBSCRIBE

`MQTTClient_subscribeMany5` takes the codes from the list of the SUBACK: for
MQTT 5 into the response, before it into the array of the caller.  The list is
as long as the server has made it; the array has as many elements as topics.
-/

namespace PahoMqtt

open UTF8 MQTTPacket MQTTProperties

/-- `MQTTResponse` -/
structure MQTTResponse where
  reasonCode : Int
  reasonCodeCount : Nat
  reasonCodes : Option (List Int)
  properties : Option Properties
deriving DecidableEq

namespace MQTTClient

def MQTTCLIENT_SUCCESS : Int := 0
def MQTTCLIENT_FAILURE : Int := -1
def MQTTCLIENT_DISCONNECTED : Int := -3
def MQTTCLIENT_MAX_MESSAGES_INFLIGHT : Int := -4
def MQTTCLIENT_BAD_UTF8_STRING : Int := -5
def MQTTCLIENT_BAD_QOS : Int := -9
def MQTT_BAD_SUBSCRIBE : Int := 0x80

/-- `UTF8_validateString` -/
def UTF8_validateString (char : CharType) (string : Bytes) : Except ReadError Bool :=
  UTF8_validate char (toInt (strlen string)) (some string)

/-- The arrays of the caller: as many requested QoS as topics. -/
structure Requested where
  topic : List Bytes
  qos : List Int
  same : topic.length = qos.length

/-- What ends `MQTTClient_waitfor` with a packet: its return code, and the SUBACK that has come. -/
structure Answer where
  rc : Int
  aHeader : UInt8
  body : Bytes

/-- What `MQTTClient_subscribeMany5` leaves behind. -/
structure Subscribed where
  response : MQTTResponse
  qos : List Int
  /-- `MQTTClient_disconnect_internal` was called. -/
  disconnects : Bool
deriving DecidableEq

/-- The loop that checks the topics and the QoS; the return code of the first one that is bad. -/
def checkTopics (validate : Bytes → Except ReadError Bool) :
    List (Bytes × Int) → Except ReadError (Option Int)
  | [] => .ok none
  | (topic, qos) :: requests =>
      match validate topic with
      | .error e => .error e
      | .ok false => .ok (some MQTTCLIENT_BAD_UTF8_STRING)
      | .ok true =>
          if qos < 0 ∨ qos > 2 then .ok (some MQTTCLIENT_BAD_QOS)
          else checkTopics validate requests

/-- `MQTTClient_waitfor`: the packet and the return code; a SUBACK that is refused is an error. -/
def waitfor (MQTTVersion : Nat) : Option Answer → Except ReadError (Option Suback × Int)
  | none => .ok (none, SOCKET_ERROR)
  | some answer =>
      match suback MQTTVersion answer.aHeader answer.body with
      | .ok pack => .ok (some pack, answer.rc)
      | .error .malformed => .ok (none, SOCKET_ERROR)
      | .error .outOfBounds => .error .outOfBounds

/-- `qos[i++] = *reqqos` for each element of the list; behind the end is other memory. -/
def storeCodes : (codes : List UInt8) → (i : Nat) → (qos : List Int) → Except ReadError (List Int)
  | [], _, qos => .ok qos
  | reqqos :: codes, i, qos =>
      if i < qos.length then storeCodes codes (i + 1) (qos.set i reqqos.toNat)
      else .error .outOfBounds

/-- The codes and the properties of a SUBACK in the response. -/
def respond (sub : Suback) : MQTTResponse where
  reasonCode := (sub.qoss.headD 0).toNat
  reasonCodeCount := sub.qoss.length
  reasonCodes :=
    if sub.qoss.length > 1 then some (sub.qoss.map fun code => (code.toNat : Int)) else none
  properties := if sub.properties.array.length > 0 then some sub.properties else none

/-- The end of `MQTTClient_subscribeMany5`, from where its return code is looked at. -/
def finish (rc : Int) (resp : MQTTResponse) (qos : List Int) : Subscribed where
  response := if rc < 0 then { resp with reasonCode := rc } else resp
  qos
  disconnects := decide (rc = SOCKET_ERROR)

/-- `goto exit` -/
def leave (rc : Int) (resp : MQTTResponse) (qos : List Int) : Subscribed :=
  { finish rc resp qos with disconnects := false }

/--
`MQTTClient_subscribeMany5`.  `sent` is the return value of
`MQTTProtocol_subscribe`, `answer` what is received while it waits.
-/
def subscribeMany5 (char : CharType) (m : Option Clients) (requested : Requested) (sent : Int)
    (answer : Option Answer) : Except ReadError Subscribed :=
  let resp : MQTTResponse := ⟨MQTTCLIENT_FAILURE, 0, none, none⟩
  match m with
  | none => .ok (leave MQTTCLIENT_FAILURE resp requested.qos)
  | some c =>
      if c.connected = false then .ok (leave MQTTCLIENT_DISCONNECTED resp requested.qos)
      else
        match checkTopics (UTF8_validateString char) (requested.topic.zip requested.qos) with
        | .error e => .error e
        | .ok (some rc) => .ok (leave rc resp requested.qos)
        | .ok none =>
            if (MQTTProtocol.assignMsgId c).1 = 0 then
              .ok (leave MQTTCLIENT_MAX_MESSAGES_INFLIGHT resp requested.qos)
            else if sent ≠ TCPSOCKET_COMPLETE then .ok (finish sent resp requested.qos)
            else
              match waitfor c.MQTTVersion answer with
              | .error e => .error e
              | .ok (none, _) => .ok (finish SOCKET_ERROR resp requested.qos)
              | .ok (some sub, rc) =>
                  if c.MQTTVersion = 5 then
                    .ok (finish TCPSOCKET_COMPLETE (respond sub) requested.qos)
                  else
                    match storeCodes sub.qoss 0 requested.qos with
                    | .error e => .error e
                    | .ok qos =>
                        .ok (finish TCPSOCKET_COMPLETE { resp with reasonCode := rc } qos)

/-- `MQTTClient_subscribe5`: the array of one element is a variable of the function. -/
def subscribe5 (char : CharType) (m : Option Clients) (topic : Bytes) (qos : Int) (sent : Int)
    (answer : Option Answer) : Except ReadError MQTTResponse :=
  match subscribeMany5 char m ⟨[topic], [qos], rfl⟩ sent answer with
  | .error e => .error e
  | .ok result =>
      if result.qos.head? = some MQTT_BAD_SUBSCRIBE then
        .ok { result.response with reasonCode := MQTT_BAD_SUBSCRIBE }
      else .ok result.response

/-! ### The list -/

/-- The codes that a body has: everything behind its id and, for MQTT 5, its properties. -/
def HasCodes (MQTTVersion : Nat) (body codes : Bytes) : Prop :=
  ∃ hi lo rest, body = hi :: lo :: rest ∧
    if MQTTVersion ≥ 5 then ∃ size, IsSection TakenInt rest size ∧ codes = rest.drop size
    else codes = rest

/-- A packet is made of a body with codes, and lists them. -/
theorem suback_ok_iff
    {MQTTVersion : Nat} (aHeader : UInt8) {body : Bytes} (codes : Bytes)
    (hlen : body.length < 268435456) :
    (∃ pack, suback MQTTVersion aHeader body = .ok pack ∧ pack.qoss = codes) ↔
      HasCodes MQTTVersion body codes ∧ codes ≠ [] := by
  rcases two_bytes body with hshort | ⟨hi, lo, rest, rfl⟩
  · have hid := readMsgId_short hshort
    refine iff_of_false ?_ ?_
    · rintro ⟨pack, hpack, _⟩
      simp [suback, hid] at hpack
    · rintro ⟨⟨hi, lo, rest, rfl, _⟩, _⟩
      simp only [List.length_cons] at hshort
      omega
  · obtain ⟨msgId, hid⟩ := readMsgId_cons hi lo rest
    have hcodes : HasCodes MQTTVersion (hi :: lo :: rest) codes ↔
        if MQTTVersion ≥ 5 then ∃ size, IsSection TakenInt rest size ∧ codes = rest.drop size
        else codes = rest := by
      constructor
      · rintro ⟨_, _, _, hsame, h⟩
        cases hsame
        exact h
      · intro h
        exact ⟨hi, lo, rest, rfl, h⟩
    rw [hcodes]
    unfold suback
    rw [hid]
    dsimp only
    by_cases hversion : MQTTVersion ≥ 5
    · simp only [hversion, if_true]
      constructor
      · rintro ⟨pack, hpack, rfl⟩
        cases hread : MQTTProperties.read (hi :: lo :: rest) 2 with
        | error e =>
            rw [hread] at hpack
            cases hpack
        | ok res =>
            obtain ⟨props, pos⟩ := res
            rw [hread] at hpack
            dsimp only at hpack
            split at hpack
            · cases hpack
            next hsome =>
              cases hpack
              rw [List.length_eq_zero_iff, List.drop_eq_nil_iff] at hsome
              obtain ⟨size, hsection, rfl⟩ := section_of_read (by omega) hread (by omega)
              refine ⟨⟨size, hsection, ?_⟩, ?_⟩
              · rw [← List.drop_drop]
                rfl
              · rw [Ne, List.drop_eq_nil_iff]
                exact hsome
      · rintro ⟨⟨size, hsection, rfl⟩, hsome⟩
        have hbehind : IsSection TakenInt ((hi :: lo :: rest).drop 2) size := hsection
        obtain ⟨props, hread⟩ := read_section hbehind
        rw [hread]
        dsimp only
        have hdrop : (hi :: lo :: rest).drop (2 + size) = rest.drop size := by
          rw [← List.drop_drop]
          rfl
        rw [hdrop, if_neg (by rwa [List.length_eq_zero_iff])]
        exact ⟨_, rfl, rfl⟩
    · simp only [hversion, if_false]
      cases rest with
      | nil =>
          refine iff_of_false ?_ ?_
          · rintro ⟨pack, hpack, _⟩
            cases hpack
          · rintro ⟨rfl, hsome⟩
            exact hsome rfl
      | cons b rest =>
          constructor
          · rintro ⟨pack, hpack, rfl⟩
            cases hpack
            exact ⟨rfl, List.cons_ne_nil b rest⟩
          · rintro ⟨rfl, _⟩
            exact ⟨_, rfl, rfl⟩

/-! ### The array of the caller -/

/-- The codes are stored one by one, until there is no element for the next one. -/
theorem storeCodes_eq
    (codes : List UInt8) (i : Nat) (qos : List Int)
    (hi : i ≤ qos.length) :
    storeCodes codes i qos =
      if i + codes.length ≤ qos.length then
        .ok (qos.take i ++ codes.map (fun code => (code.toNat : Int)) ++
          qos.drop (i + codes.length))
      else .error .outOfBounds := by
  induction codes generalizing i qos with
  | nil =>
      rw [storeCodes, List.length_nil, Nat.add_zero, if_pos hi, List.map_nil, List.append_nil,
        List.take_append_drop]
  | cons reqqos codes ih =>
      rw [storeCodes, List.length_cons]
      by_cases hlt : i < qos.length
      · rw [if_pos hlt, ih _ _ (by rwa [List.length_set]), List.length_set,
          Lib.take_succ_set hlt, List.drop_set_of_lt (by omega), List.map_cons,
          Nat.add_right_comm i 1, Nat.add_assoc i]
        simp only [List.append_assoc, List.singleton_append]
      · rw [if_neg hlt, if_neg (by omega)]

/-- A response that has the codes. -/
def Lists (response : MQTTResponse) (codes : Bytes) : Prop :=
  response.reasonCodeCount = codes.length ∧
    (∀ code, codes.head? = some code → response.reasonCode = code.toNat) ∧
    response.reasonCodes =
      if codes.length > 1 then some (codes.map fun code => (code.toNat : Int)) else none

theorem respond_lists
    (sub : Suback) :
    Lists (respond sub) sub.qoss := by
  refine ⟨rfl, ?_, rfl⟩
  intro code hcode
  rw [respond, List.headD_eq_head?_getD, hcode]
  rfl

/-! ### The whole call -/

/-- The SUBSCRIBE of a call is written, and its SUBACK waited for. -/
structure Awaits (char : CharType) (c : Clients) (requested : Requested) : Prop where
  connected : c.connected = true
  checked : checkTopics (UTF8_validateString char) (requested.topic.zip requested.qos) = .ok none
  assigned : (MQTTProtocol.assignMsgId c).1 ≠ 0

/-- From the SUBACK on the call depends on the packet that is made of it only. -/
theorem subscribeMany5_awaits
    {char : CharType} {c : Clients} {requested : Requested}
    (h : Awaits char c requested)
    (answer : Answer) :
    subscribeMany5 char (some c) requested TCPSOCKET_COMPLETE (some answer) =
      match suback c.MQTTVersion answer.aHeader answer.body with
      | .error .malformed =>
          .ok (finish SOCKET_ERROR ⟨MQTTCLIENT_FAILURE, 0, none, none⟩ requested.qos)
      | .error .outOfBounds => .error .outOfBounds
      | .ok sub =>
          if c.MQTTVersion = 5 then .ok (finish TCPSOCKET_COMPLETE (respond sub) requested.qos)
          else
            match storeCodes sub.qoss 0 requested.qos with
            | .error e => .error e
            | .ok qos =>
                .ok (finish TCPSOCKET_COMPLETE ⟨answer.rc, 0, none, none⟩ qos) := by
  unfold subscribeMany5 waitfor
  dsimp only
  rw [h.connected, h.checked]
  simp only [Bool.true_eq_false, if_false, h.assigned, ne_eq, not_true]
  cases suback c.MQTTVersion answer.aHeader answer.body with
  | ok sub => rfl
  | error e =>
      cases e with
      | malformed => rfl
      | outOfBounds => rfl

/--
A SUBACK is read inside its body, no packet is made of it or one that lists its
codes, and the call gives these codes to its caller: for MQTT 5 in the response
alone, else in the elements of the array alone.
-/
structure Delivers (char : CharType) (c : Clients) (requested : Requested) (answer : Answer) :
    Prop where
  list : suback c.MQTTVersion answer.aHeader answer.body = .error .malformed ∨
    ∃ pack, suback c.MQTTVersion answer.aHeader answer.body = .ok pack ∧
      HasCodes c.MQTTVersion answer.body pack.qoss
  returns : ∃ result,
    subscribeMany5 char (some c) requested TCPSOCKET_COMPLETE (some answer) = .ok result ∧
    ∀ pack, suback c.MQTTVersion answer.aHeader answer.body = .ok pack →
      if c.MQTTVersion = 5 then result.qos = requested.qos ∧ Lists result.response pack.qoss
      else result.qos.length = requested.qos.length ∧ ∀ i, i < requested.qos.length →
        result.qos[i]? =
          if i < pack.qoss.length then (pack.qoss[i]?).map fun code => (code.toNat : Int)
          else requested.qos[i]?

theorem subscribeMany5_delivers
    {char : CharType} {c : Clients} {requested : Requested} {answer : Answer} {pack : Suback}
    (h : Awaits char c requested)
    (hlen : answer.body.length < 268435456)
    (hpack : suback c.MQTTVersion answer.aHeader answer.body = .ok pack)
    (hroom : c.MQTTVersion = 5 ∨ pack.qoss.length ≤ requested.qos.length) :
    Delivers char c requested answer := by
  have hcodes := ((suback_ok_iff answer.aHeader pack.qoss hlen).mp ⟨pack, hpack, rfl⟩).1
  refine ⟨.inr ⟨pack, hpack, hcodes⟩, ?_⟩
  rw [subscribeMany5_awaits h, hpack]
  dsimp only
  by_cases hversion : c.MQTTVersion = 5
  · rw [if_pos hversion]
    refine ⟨_, rfl, ?_⟩
    rintro _ ⟨⟩
    rw [if_pos hversion]
    exact ⟨rfl, respond_lists pack⟩
  · have hle := hroom.resolve_left hversion
    rw [if_neg hversion, storeCodes_eq _ _ _ (Nat.zero_le _), if_pos (by rwa [Nat.zero_add])]
    refine ⟨_, rfl, ?_⟩
    rintro _ ⟨⟩
    rw [if_neg hversion]
    change (List.length (_ ++ _) = _) ∧ ∀ i, i < _ → (_ ++ _)[i]? = _
    rw [List.take_zero, List.nil_append, Nat.zero_add]
    refine ⟨?_, ?_⟩
    · rw [List.length_append, List.length_map, List.length_drop]
      omega
    · intro i hi
      split
      next hcode =>
        rw [List.getElem?_append_left (by rwa [List.length_map]), List.getElem?_map]
      next hrest =>
        rw [List.getElem?_append_right (by rw [List.length_map]; omega), List.length_map,
          List.getElem?_drop]
        congr 1
        omega

/-- Before MQTT 5 the code behind the last element is stored behind the array. -/
theorem subscribeMany5_overruns
    {char : CharType} {c : Clients} {requested : Requested} {answer : Answer} {codes : Bytes}
    (h : Awaits char c requested)
    (hlen : answer.body.length < 268435456)
    (hversion : c.MQTTVersion ≠ 5)
    (hcodes : HasCodes c.MQTTVersion answer.body codes)
    (hlong : requested.qos.length < codes.length) :
    subscribeMany5 char (some c) requested TCPSOCKET_COMPLETE (some answer) =
      .error .outOfBounds := by
  have hsome : codes ≠ [] := by
    rintro rfl
    exact absurd hlong (Nat.not_lt_zero _)
  obtain ⟨pack, hpack, rfl⟩ := (suback_ok_iff answer.aHeader codes hlen).mpr ⟨hcodes, hsome⟩
  rw [subscribeMany5_awaits h, hpack]
  dsimp only
  rw [if_neg hversion, storeCodes_eq _ _ _ (Nat.zero_le _), Nat.zero_add,
    if_neg (Nat.not_le.mpr hlong)]

/-- For one topic the array is a variable on the stack of `MQTTClient_subscribe5`. -/
theorem subscribe5_overruns
    {char : CharType} {c : Clients} {topic : Bytes} {qos : Int} {answer : Answer} {codes : Bytes}
    (h : Awaits char c ⟨[topic], [qos], rfl⟩)
    (hlen : answer.body.length < 268435456)
    (hversion : c.MQTTVersion ≠ 5)
    (hcodes : HasCodes c.MQTTVersion answer.body codes)
    (hlong : 1 < codes.length) :
    subscribe5 char (some c) topic qos TCPSOCKET_COMPLETE (some answer) = .error .outOfBounds := by
  rw [subscribe5, subscribeMany5_overruns h hlen hversion hcodes hlong]

/--
The codes are delivered when the packet is refused by its properties, or there
are codes, and the array has an element for each of them if it is used.
-/
theorem subscribeMany5_delivers_iff
    {char : CharType} {c : Clients} {requested : Requested} {answer : Answer}
    (h : Awaits char c requested)
    (hlen : answer.body.length < 268435456) :
    Delivers char c requested answer ↔
      RefusesSuback c.MQTTVersion answer.body ∨
        ∃ codes, codes ≠ [] ∧ HasCodes c.MQTTVersion answer.body codes ∧
          (c.MQTTVersion = 5 ∨ codes.length ≤ requested.qos.length) := by
  constructor
  · rintro ⟨hrefused | ⟨pack, hpack, hcodes⟩, result, hresult, _⟩
    · exact .inl ((suback_malformed_iff _ _ _).mp hrefused)
    · have hsome := ((suback_ok_iff answer.aHeader pack.qoss hlen).mp ⟨pack, hpack, rfl⟩).2
      refine .inr ⟨pack.qoss, hsome, hcodes, ?_⟩
      by_contra hnot
      obtain ⟨hversion, hlong⟩ := not_or.mp hnot
      rw [subscribeMany5_overruns h hlen hversion hcodes (Nat.lt_of_not_le hlong)] at hresult
      cases hresult
  · rintro (hrefused | ⟨codes, hsome, hcodes, hroom⟩)
    · have hpack := (suback_malformed_iff _ answer.aHeader _).mpr hrefused
      refine ⟨.inl hpack, ?_⟩
      rw [subscribeMany5_awaits h, hpack]
      refine ⟨_, rfl, ?_⟩
      rintro _ ⟨⟩
    · obtain ⟨pack, hpack, rfl⟩ := (suback_ok_iff answer.aHeader codes hlen).mpr ⟨hcodes, hsome⟩
      exact subscribeMany5_delivers h hlen hpack hroom

theorem UTF8_validateString_chars
    (char : CharType) {chars : List Char}
    (hnul : (0 : UInt8) ∉ chars.flatMap String.utf8EncodeChar)
    (hlen : (chars.flatMap String.utf8EncodeChar).length < 2147483648) :
    UTF8_validateString char (chars.flatMap String.utf8EncodeChar) = .ok true := by
  obtain ⟨rc, hrc, htrue⟩ := UTF8_validate_iff char (chars.flatMap String.utf8EncodeChar)
  rw [UTF8_validateString, strlen_eq_length hnul, toInt_of_lt (by omega) (by omega), hrc,
    htrue.mpr ⟨chars, rfl⟩]

/-- Valid strings with a QoS in its range pass the check. -/
theorem checkTopics_valid
    {validate : Bytes → Except ReadError Bool} {requests : List (Bytes × Int)}
    (h : ∀ request ∈ requests, validate request.1 = .ok true ∧ 0 ≤ request.2 ∧ request.2 ≤ 2) :
    checkTopics validate requests = .ok none := by
  induction requests with
  | nil =>
      rfl
  | cons request requests ih =>
      obtain ⟨⟨hvalid, hnonneg, hle⟩, hrest⟩ := List.forall_mem_cons.mp h
      rw [checkTopics, hvalid]
      dsimp only
      rw [if_neg (by omega)]
      exact ih hrest

/-- A client that is connected and has nothing in flight. -/
def subscriber (MQTTVersion : Nat) : Clients where
  net := ⟨false, false, none, 0, []⟩
  MQTTVersion
  connected := true
  good := true
  msgID := 0
  retryInterval := 0
  inboundMsgs := []
  outboundMsgs := []

/-- One topic, with QoS 1. -/
def oneTopic : Requested := ⟨[[97]], [1], rfl⟩

theorem awaits_oneTopic
    (MQTTVersion : Nat) :
    Awaits .signed (subscriber MQTTVersion) oneTopic where
  connected := rfl
  checked := by
    refine checkTopics_valid (List.forall_mem_singleton.mpr ⟨?_, by decide, by decide⟩)
    exact @UTF8_validateString_chars .signed ['a'] (by decide) (by decide)
  assigned := by
    rw [MQTTProtocol.assignMsgId]
    exact (by decide : (1 : MsgId) ≠ 0)

theorem subscribeMany5_delivers_iff_sample :
    Delivers .signed (subscriber 4) oneTopic ⟨0, 0x90, [0, 1, 1]⟩ :=
  (subscribeMany5_delivers_iff (awaits_oneTopic 4) (by decide)).mpr
    (.inr ⟨[1], by decide, ⟨0, 1, [1], rfl, rfl⟩, .inr (by decide)⟩)

/-- Two codes for one topic. -/
theorem two_codes_not_delivered :
    Awaits .signed (subscriber 4) oneTopic ∧
      ¬Delivers .signed (subscriber 4) oneTopic ⟨0, 0x90, [0, 1, 1, 1]⟩ := by
  refine ⟨awaits_oneTopic 4, ?_⟩
  intro h
  obtain ⟨result, hresult, _⟩ := h.returns
  rw [@subscribeMany5_overruns _ _ _ _ [1, 1] (awaits_oneTopic 4) (by decide) (by decide)
    ⟨0, 1, [1, 1], rfl, rfl⟩ (by decide)] at hresult
  cases hresult

end MQTTClient
end PahoMqtt
