import PahoMqtt.AckParsing
import PahoMqtt.SectionEnds
import PahoMqtt.PublishRoundTrip

/-!
# The bodies of restored packets

What a well-formed body of each packet type is, and which bodies the functions
of the table refuse.  A body that is neither is read behind its end, or a packet
is made of it although something in it is missing or left over.
-/

namespace PahoMqtt
namespace MQTTPacket

open MQTTProperties

/-! ### Well-formed bodies -/

/-- Flags and a return code; for MQTT 5 also properties, up to the end. -/
def IsConnack (MQTTVersion : Nat) (body : Bytes) : Prop :=
  ∃ flags rc rest, body = flags :: rc :: rest ∧
    if MQTTVersion ≥ 5 then WellFormedSection rest rest.length else rest = []

/-- A topic, an id where the QoS asks for one, properties for MQTT 5, and a payload. -/
def IsPublish (MQTTVersion qos : Nat) (body : Bytes) : Prop :=
  ∃ (topic id rest : Bytes), body = topic ++ (id ++ rest) ∧ IsString topic ∧
    id.length = (if qos > 0 then 2 else 0) ∧
    (MQTTVersion ≥ 5 → ∃ size, WellFormedSection rest size)

def IsAck (MQTTVersion : Nat) (type : PacketType) (body : Bytes) : Prop :=
  ∃ msgId rc props, SpellsAck MQTTVersion type body msgId rc props

/-- An id, properties for MQTT 5, and at least one code. -/
def IsSuback (MQTTVersion : Nat) (body : Bytes) : Prop :=
  ∃ hi lo rest, body = hi :: lo :: rest ∧
    if MQTTVersion ≥ 5 then ∃ size, WellFormedSection rest size ∧ size < rest.length
    else rest ≠ []

/-- An id, and for MQTT 5 properties and at least one code. -/
def IsUnsuback (MQTTVersion : Nat) (body : Bytes) : Prop :=
  ∃ hi lo rest, body = hi :: lo :: rest ∧
    if MQTTVersion ≥ 5 then ∃ size, WellFormedSection rest size ∧ size < rest.length
    else rest = []

/-- A well-formed body of a packet with this header; only of packets that a server may send. -/
def WellFormedBody (MQTTVersion : Nat) (header : Header) (body : Bytes) : Prop :=
  match header.type with
  | .connack => IsConnack MQTTVersion body
  | .publish => IsPublish MQTTVersion header.qos.val body
  | .puback | .pubrec | .pubrel | .pubcomp | .disconnect => IsAck MQTTVersion header.type body
  | .suback => IsSuback MQTTVersion body
  | .unsuback => IsUnsuback MQTTVersion body
  | .pingreq | .pingresp => body = []
  | .reserved | .connect | .subscribe | .unsubscribe | .auth => False

/-! ### Refused bodies -/

def RefusesConnack (MQTTVersion : Nat) (body : Bytes) : Prop :=
  ∃ flags rc rest, body = flags :: rc :: rest ∧ rest ≠ [] ∧ (MQTTVersion ≥ 5 → Refused rest)

/-- No topic, or properties that are refused. -/
def RefusesPublish (MQTTVersion qos : Nat) (body : Bytes) : Prop :=
  NoString body ∨ ∃ (topic id rest : Bytes), body = topic ++ (id ++ rest) ∧ IsString topic ∧
    id.length = (if qos > 0 then 2 else 0) ∧ MQTTVersion ≥ 5 ∧ Refused rest

/-- Properties that are refused, in a body of more than three bytes. -/
def RefusesAck (MQTTVersion : Nat) (type : PacketType) (body : Bytes) : Prop :=
  ∃ id rc rest, body = id ++ rc :: rest ∧ id.length = (if type = .disconnect then 0 else 2) ∧
    MQTTVersion ≥ 5 ∧ 3 < body.length ∧ Refused rest

def RefusesSuback (MQTTVersion : Nat) (body : Bytes) : Prop :=
  ∃ hi lo rest, body = hi :: lo :: rest ∧ MQTTVersion ≥ 5 ∧ Refused rest

/-- Properties that are refused, or with nothing behind them. -/
def RefusesUnsuback (MQTTVersion : Nat) (body : Bytes) : Prop :=
  ∃ hi lo rest, body = hi :: lo :: rest ∧ MQTTVersion ≥ 5 ∧ (Refused rest ∨ TakenWhole rest)

/-- No packet is made of the body; of a type without a function in the table never. -/
def RefusedBody (MQTTVersion : Nat) (header : Header) (body : Bytes) : Prop :=
  match header.type with
  | .connack => RefusesConnack MQTTVersion body
  | .publish => RefusesPublish MQTTVersion header.qos.val body
  | .puback | .pubrec | .pubrel | .pubcomp | .disconnect => RefusesAck MQTTVersion header.type body
  | .suback => RefusesSuback MQTTVersion body
  | .unsuback => RefusesUnsuback MQTTVersion body
  | .pingreq | .pingresp => False
  | .reserved | .connect | .subscribe | .unsubscribe | .auth => True

/-! ### The functions of the table -/

theorem map_malformed_iff
    {α β : Type} (f : α → β) (r : Except ReadError α) :
    r.map f = .error .malformed ↔ r = .error .malformed := by
  cases r <;> simp [Except.map]

theorem readMsgId_cons
    (hi lo : UInt8) (rest : Bytes) :
    ∃ msgId, readMsgId (hi :: lo :: rest) 0 = .ok (msgId, 2) := by
  simp [readMsgId, readInt]

/-- The bytes of a body whose first two are read without asking for them. -/
theorem two_bytes
    (body : Bytes) :
    body.length < 2 ∨ ∃ b₀ b₁ rest, body = b₀ :: b₁ :: rest := by
  match body with
  | [] => exact .inl (by simp)
  | [_] => exact .inl (by simp)
  | b₀ :: b₁ :: rest => exact .inr ⟨b₀, b₁, rest, rfl⟩

theorem readMsgId_short
    {body : Bytes}
    (hshort : body.length < 2) :
    readMsgId body 0 = .error .outOfBounds := by
  match body, hshort with
  | [], _ => rfl
  | [_], _ => rfl

/-- A function that reads two bytes, and refuses by what is behind them. -/
theorem malformed_behind_two
    {α : Type} {f : Bytes → Except ReadError α} {P : Bytes → Prop} {body : Bytes}
    (hshort : body.length < 2 → f body = .error .outOfBounds)
    (hcons : ∀ b₀ b₁ rest, body = b₀ :: b₁ :: rest → (f body = .error .malformed ↔ P rest)) :
    f body = .error .malformed ↔ ∃ b₀ b₁ rest, body = b₀ :: b₁ :: rest ∧ P rest := by
  rcases two_bytes body with hlt | ⟨b₀, b₁, rest, hbody⟩
  · rw [hshort hlt]
    refine iff_of_false (by simp) ?_
    rintro ⟨b₀, b₁, rest, rfl, _⟩
    simp at hlt
  · rw [hcons b₀ b₁ rest hbody]
    constructor
    · intro h
      exact ⟨b₀, b₁, rest, hbody, h⟩
    · rintro ⟨_, _, _, hsame, h⟩
      rw [hbody] at hsame
      cases hsame
      exact h

theorem connack_cons
    (MQTTVersion : Nat) (aHeader flags rc : UInt8) (rest : Bytes) :
    (connack MQTTVersion aHeader (flags :: rc :: rest) = .error .malformed ↔
      rest ≠ [] ∧ (MQTTVersion ≥ 5 → Refused rest)) ∧
    ((if MQTTVersion ≥ 5 then WellFormedSection rest rest.length else rest = []) →
      ∃ pack, connack MQTTVersion aHeader (flags :: rc :: rest) = .ok pack) := by
  have hchars : readChar (flags :: rc :: rest) 0 = .ok (flags, 1) ∧
      readChar (flags :: rc :: rest) 1 = .ok (rc, 2) := ⟨rfl, rfl⟩
  have hmalformed : MQTTProperties.read (flags :: rc :: rest) 2 = .error .malformed ↔
      Refused rest := read_malformed_iff _ 2
  unfold connack
  rw [hchars.1]
  dsimp only
  rw [hchars.2]
  dsimp only
  by_cases hversion : MQTTVersion ≥ 5
  · simp only [hversion, if_true, Nat.not_lt.mpr hversion, if_false, true_imp_iff]
    cases rest with
    | nil => simp
    | cons b rest =>
        have hlong : (flags :: rc :: b :: rest).length > 2 := by simp
        rw [if_pos hlong]
        refine ⟨?_, ?_⟩
        · rw [← hmalformed]
          cases MQTTProperties.read (flags :: rc :: b :: rest) 2 <;> simp
        · intro hwf
          have hsection : IsSection TakenInt ((flags :: rc :: b :: rest).drop 2)
              (b :: rest).length := hwf.taken
          obtain ⟨props, hread⟩ := read_section hsection
          rw [hread]
          exact ⟨_, rfl⟩
  · simp only [hversion, if_false, false_imp_iff, and_true, Nat.lt_of_not_ge hversion, if_true]
    cases rest <;> simp

theorem connack_short
    (MQTTVersion : Nat) (aHeader : UInt8) {body : Bytes}
    (hshort : body.length < 2) :
    connack MQTTVersion aHeader body = .error .outOfBounds := by
  match body, hshort with
  | [], _ => rfl
  | [_], _ => rfl

theorem connack_malformed_iff
    (MQTTVersion : Nat) (aHeader : UInt8) (body : Bytes) :
    connack MQTTVersion aHeader body = .error .malformed ↔ RefusesConnack MQTTVersion body := by
  refine malformed_behind_two (connack_short MQTTVersion aHeader) ?_
  rintro flags rc rest rfl
  exact (connack_cons MQTTVersion aHeader flags rc rest).1

theorem connack_wellFormed
    {MQTTVersion : Nat} {body : Bytes}
    (h : IsConnack MQTTVersion body)
    (aHeader : UInt8) :
    ∃ pack, connack MQTTVersion aHeader body = .ok pack := by
  obtain ⟨flags, rc, rest, rfl, hrest⟩ := h
  exact (connack_cons MQTTVersion aHeader flags rc rest).2 hrest

/-- Behind the id of a SUBACK. -/
theorem suback_cons
    (MQTTVersion : Nat) (aHeader hi lo : UInt8) (rest : Bytes) :
    (suback MQTTVersion aHeader (hi :: lo :: rest) = .error .malformed ↔
      MQTTVersion ≥ 5 ∧ Refused rest) ∧
    ((if MQTTVersion ≥ 5 then ∃ size, WellFormedSection rest size ∧ size < rest.length
        else rest ≠ []) →
      ∃ pack, suback MQTTVersion aHeader (hi :: lo :: rest) = .ok pack) := by
  obtain ⟨msgId, hid⟩ := readMsgId_cons hi lo rest
  have hmalformed : MQTTProperties.read (hi :: lo :: rest) 2 = .error .malformed ↔
      Refused rest := read_malformed_iff _ 2
  unfold suback
  rw [hid]
  dsimp only
  by_cases hversion : MQTTVersion ≥ 5
  · simp only [hversion, if_true, true_and]
    refine ⟨?_, ?_⟩
    · rw [← hmalformed]
      cases MQTTProperties.read (hi :: lo :: rest) 2 with
      | error e => simp
      | ok res =>
          dsimp only
          split <;> simp
    · rintro ⟨size, hwf, hcodes⟩
      have hsection : IsSection TakenInt ((hi :: lo :: rest).drop 2) size := hwf.taken
      obtain ⟨props, hread⟩ := read_section hsection
      rw [hread]
      dsimp only
      rw [if_neg (by simp only [List.length_drop, List.length_cons]; omega)]
      exact ⟨_, rfl⟩
  · simp only [hversion, if_false, false_and, iff_false]
    cases rest <;> simp

theorem suback_malformed_iff
    (MQTTVersion : Nat) (aHeader : UInt8) (body : Bytes) :
    suback MQTTVersion aHeader body = .error .malformed ↔ RefusesSuback MQTTVersion body := by
  refine malformed_behind_two ?_ ?_
  · intro hshort
    simp [suback, readMsgId_short hshort]
  · rintro hi lo rest rfl
    exact (suback_cons MQTTVersion aHeader hi lo rest).1

theorem suback_wellFormed
    {MQTTVersion : Nat} {body : Bytes}
    (h : IsSuback MQTTVersion body)
    (aHeader : UInt8) :
    ∃ pack, suback MQTTVersion aHeader body = .ok pack := by
  obtain ⟨hi, lo, rest, rfl, hrest⟩ := h
  exact (suback_cons MQTTVersion aHeader hi lo rest).2 hrest

/-- Behind the id of an UNSUBACK; properties that take everything leave no code. -/
theorem unsuback_cons
    (MQTTVersion : Nat) (aHeader hi lo : UInt8) {rest : Bytes}
    (hlen : (hi :: lo :: rest).length < 4294967295) :
    (unsuback MQTTVersion aHeader (hi :: lo :: rest) = .error .malformed ↔
      MQTTVersion ≥ 5 ∧ (Refused rest ∨ TakenWhole rest)) ∧
    ((if MQTTVersion ≥ 5 then ∃ size, WellFormedSection rest size ∧ size < rest.length
        else rest = []) →
      ∃ pack, unsuback MQTTVersion aHeader (hi :: lo :: rest) = .ok pack) := by
  obtain ⟨msgId, hid⟩ := readMsgId_cons hi lo rest
  have hmalformed : MQTTProperties.read (hi :: lo :: rest) 2 = .error .malformed ↔
      Refused rest := read_malformed_iff _ 2
  have hwhole : (∃ props pos', MQTTProperties.read (hi :: lo :: rest) 2 = .ok (props, pos') ∧
      (hi :: lo :: rest).length ≤ pos') ↔ TakenWhole rest := read_toEnd_iff 2 hlen
  unfold unsuback
  rw [hid]
  dsimp only
  by_cases hversion : MQTTVersion ≥ 5
  · simp only [hversion, if_true, true_and]
    refine ⟨?_, ?_⟩
    · rw [← hmalformed, ← hwhole]
      cases MQTTProperties.read (hi :: lo :: rest) 2 with
      | error e => simp
      | ok res =>
          simp only [reduceCtorEq, Except.ok.injEq, false_or, List.length_drop,
            Nat.sub_eq_zero_iff_le]
          constructor
          · intro h
            split at h
            next hend => exact ⟨res.1, res.2, rfl, hend⟩
            · cases h
          · rintro ⟨_, _, rfl, hend⟩
            rw [if_pos hend]
    · rintro ⟨size, hwf, hcodes⟩
      have hsection : IsSection TakenInt ((hi :: lo :: rest).drop 2) size := hwf.taken
      obtain ⟨props, hread⟩ := read_section hsection
      rw [hread]
      dsimp only
      rw [if_neg (by simp only [List.length_drop, List.length_cons]; omega)]
      exact ⟨_, rfl⟩
  · simp only [hversion, if_false, false_and, iff_false]
    simp

theorem unsuback_malformed_iff
    (MQTTVersion : Nat) (aHeader : UInt8) {body : Bytes}
    (hlen : body.length < 4294967295) :
    unsuback MQTTVersion aHeader body = .error .malformed ↔ RefusesUnsuback MQTTVersion body := by
  refine malformed_behind_two ?_ ?_
  · intro hshort
    simp [unsuback, readMsgId_short hshort]
  · rintro hi lo rest rfl
    exact (unsuback_cons MQTTVersion aHeader hi lo hlen).1

theorem unsuback_wellFormed
    {MQTTVersion : Nat} {body : Bytes}
    (hlen : body.length < 4294967295)
    (h : IsUnsuback MQTTVersion body)
    (aHeader : UInt8) :
    ∃ pack, unsuback MQTTVersion aHeader body = .ok pack := by
  obtain ⟨hi, lo, rest, rfl, hrest⟩ := h
  exact (unsuback_cons MQTTVersion aHeader hi lo hlen).2 hrest

/-- Behind the topic and the id a PUBLISH depends on its properties. -/
theorem publish_read
    (MQTTVersion : Nat) {aHeader : UInt8} {data topic : Bytes} {pos pos' : Nat} {msgId : MsgId}
    (htopic : readUTFlen data 0 = .ok (topic, pos))
    (hid : (if (Header.ofByte aHeader).qos.val > 0 then readMsgId data pos else .ok (0, pos)) =
      (.ok (msgId, pos') : Except ReadError (MsgId × Nat))) :
    ∃ make : Properties × Nat → Publish, publish MQTTVersion aHeader data =
      (if MQTTVersion ≥ 5 then MQTTProperties.read data pos'
        else .ok (MQTTProperties.initializer, pos')).map make := by
  unfold publish
  rw [htopic]
  dsimp only
  rw [hid]
  dsimp only
  refine ⟨fun res =>
    { header := Header.ofByte aHeader, topic, topiclen := topic.length, msgId
      payload := data.drop res.2, MQTTVersion, properties := res.1, mask := ⟨0, 0, 0, 0⟩ }, ?_⟩
  generalize (if MQTTVersion ≥ 5 then MQTTProperties.read data pos'
    else .ok (MQTTProperties.initializer, pos')) = props
  cases props <;> rfl

/-- The id of a PUBLISH has no choice of where it stands. -/
theorem publish_at
    {MQTTVersion : Nat} {aHeader : UInt8} {data topic id rest : Bytes}
    (hdata : data = topic ++ (id ++ rest))
    (htopic : IsString topic)
    (hid : id.length = if (Header.ofByte aHeader).qos.val > 0 then 2 else 0) :
    data.drop (topic.length + id.length) = rest ∧
    ∃ make : Properties × Nat → Publish, publish MQTTVersion aHeader data =
      (if MQTTVersion ≥ 5 then MQTTProperties.read data (topic.length + id.length)
        else .ok (MQTTProperties.initializer, topic.length + id.length)).map make := by
  have hbehind : data.drop topic.length = id ++ rest := by
    rw [hdata, List.drop_left]
  refine ⟨by rw [← List.drop_drop, hbehind, List.drop_left], ?_⟩
  rcases idStage (Header.ofByte aHeader).qos.val data topic.length with
    ⟨msgId, _, _, hread⟩ | ⟨hqos, hshort, _⟩
  · rw [← hid] at hread
    exact publish_read MQTTVersion (readUTFlen_topic htopic hdata) hread
  · rw [if_pos hqos] at hid
    rw [hbehind, List.length_append] at hshort
    omega

theorem publish_malformed_iff
    (MQTTVersion : Nat) (aHeader : UInt8) (data : Bytes) :
    publish MQTTVersion aHeader data = .error .malformed ↔
      RefusesPublish MQTTVersion (Header.ofByte aHeader).qos.val data := by
  have hparts : ∀ {topic id rest : Bytes}, data = topic ++ (id ++ rest) → IsString topic →
      (id.length = if (Header.ofByte aHeader).qos.val > 0 then 2 else 0) →
      (publish MQTTVersion aHeader data = .error .malformed ↔ MQTTVersion ≥ 5 ∧ Refused rest) := by
    intro topic id rest hdata htopic hid
    obtain ⟨hrest, make, hpublish⟩ := @publish_at MQTTVersion aHeader _ _ _ _ hdata htopic hid
    rw [hpublish, map_malformed_iff]
    by_cases hversion : MQTTVersion ≥ 5
    · simp only [hversion, if_true, true_and]
      rw [read_malformed_iff, hrest]
    · simp [hversion]
  constructor
  · intro hmalformed
    rcases lenStringRead_cases data 0 with ⟨topic, rest, hdata, htopic, hread⟩ | ⟨hno, _⟩
    · rw [List.drop_zero] at hdata
      rw [Nat.zero_add] at hread
      have hbehind : data.drop topic.length = rest := by
        rw [hdata, List.drop_left]
      rcases idStage (Header.ofByte aHeader).qos.val data topic.length with
        ⟨msgId, rest', hrest, _⟩ | ⟨hqos, _, hid⟩
      · rw [hbehind] at hrest
        have hid : (if (Header.ofByte aHeader).qos.val > 0 then writeInt msgId.toNat
            else []).length = if (Header.ofByte aHeader).qos.val > 0 then 2 else 0 := by
          split <;> simp
        rw [hrest] at hdata
        exact .inr ⟨_, _, _, hdata, htopic, hid, (hparts hdata htopic hid).mp hmalformed⟩
      · unfold publish readUTFlen at hmalformed
        simp [hread, hqos, hid] at hmalformed
    · exact .inl hno
  · rintro (hno | ⟨topic, id, rest, hdata, htopic, hid, hrefused⟩)
    · have hread : readUTFlen data 0 = .error .malformed :=
        (lenStringRead_malformed_iff data 0).mpr hno
      unfold publish
      rw [hread]
    · exact (hparts hdata htopic hid).mpr hrefused

theorem publish_wellFormed
    {MQTTVersion : Nat} {aHeader : UInt8} {data : Bytes}
    (h : IsPublish MQTTVersion (Header.ofByte aHeader).qos.val data) :
    ∃ pack, publish MQTTVersion aHeader data = .ok pack := by
  obtain ⟨topic, id, rest, hdata, htopic, hid, hprops⟩ := h
  obtain ⟨hrest, make, hpublish⟩ := @publish_at MQTTVersion aHeader _ _ _ _ hdata htopic hid
  rw [hpublish]
  by_cases hversion : MQTTVersion ≥ 5
  · obtain ⟨size, hwf⟩ := hprops hversion
    have hsection := hwf.taken
    rw [← hrest] at hsection
    obtain ⟨props, hread⟩ := read_section hsection
    rw [if_pos hversion, hread]
    exact ⟨_, rfl⟩
  · rw [if_neg hversion]
    exact ⟨_, rfl⟩

/-! ### Acknowledgements -/

/-- Behind the id the number of bytes decides what is read. -/
theorem ack_behind
    {MQTTVersion : Nat} {aHeader : UInt8} {msgId : MsgId} {data id tail : Bytes}
    (hdata : data = id ++ tail)
    (hlen : id.length = if (Header.ofByte aHeader).type = .disconnect then 0 else 2)
    (hid : (if (Header.ofByte aHeader).type ≠ .disconnect then readMsgId data 0 else .ok (0, 0)) =
      (.ok (msgId, id.length) : Except ReadError (MsgId × Nat))) :
    (∃ pack, ack MQTTVersion aHeader data = .ok pack) ∨
    ∃ rc rest, tail = rc :: rest ∧ MQTTVersion ≥ 5 ∧ 3 < id.length + tail.length ∧
      data.drop (id.length + 1) = rest ∧
      ∃ make : Properties × Nat → Ack, ack MQTTVersion aHeader data =
        (MQTTProperties.read data (id.length + 1)).map make := by
  by_cases hshort : MQTTVersion ≥ 5 → id.length + tail.length ≤ 2
  · exact .inl ⟨_, ack_short hdata hid hshort⟩
  · obtain ⟨hversion, hmore⟩ := Classical.not_imp.mp hshort
    have htwo : id.length ≤ 2 := by
      rw [hlen]
      split <;> omega
    cases htail : tail with
    | nil =>
        rw [htail, List.length_nil] at hmore
        omega
    | cons rc rest =>
        by_cases hthree : id.length + tail.length = 3
        · exact .inl ⟨_, ack_three hdata hid htail hversion hthree⟩
        · rw [htail] at hthree hmore
          refine .inr ⟨rc, rest, rfl, hversion, by omega, ?_, _, ack_long hdata hid htail hversion
            (by rw [htail]; omega)⟩
          rw [← List.drop_drop, hdata, htail, List.drop_left, List.drop_one, List.tail_cons]

theorem ack_malformed_iff
    (MQTTVersion : Nat) (aHeader : UInt8) (data : Bytes) :
    ack MQTTVersion aHeader data = .error .malformed ↔
      RefusesAck MQTTVersion (Header.ofByte aHeader).type data := by
  rcases ackIdStage (Header.ofByte aHeader).type data with
    ⟨msgId, tail, hdata, hid⟩ | ⟨htype, hshort, hid⟩
  · have hlen := ackIdBytes_length (Header.ofByte aHeader).type msgId
    generalize ackIdBytes (Header.ofByte aHeader).type msgId = id at *
    have hsize : data.length = id.length + tail.length := by
      rw [hdata, List.length_append]
    have hsame : ∀ {id' rc rest}, data = id' ++ rc :: rest →
        (id'.length = if (Header.ofByte aHeader).type = .disconnect then 0 else 2) →
        tail = rc :: rest := by
      intro id' rc rest hdata' hlen'
      rw [hdata] at hdata'
      exact (List.append_inj hdata' (by rw [hlen, hlen'])).2
    rcases ack_behind hdata hlen hid with
      ⟨pack, hack⟩ | ⟨rc, rest, htail, hversion, hmore, hdrop, make, hack⟩
    · refine iff_of_false ?_ ?_
      · rw [hack]
        simp
      · rintro ⟨id', rc, rest, hdata', hlen', hversion, hmore, hrefused⟩
        have htail := hsame hdata' hlen'
        have hlong := ack_long hdata hid htail hversion (by omega)
        have hread : MQTTProperties.read data (id.length + 1) = .error .malformed := by
          refine (read_malformed_iff data _).mpr ?_
          rwa [← List.drop_drop, hdata, htail, List.drop_left, List.drop_one, List.tail_cons]
        rw [hread, hack] at hlong
        cases hlong
    · rw [hack, map_malformed_iff, read_malformed_iff, hdrop]
      constructor
      · intro hrefused
        exact ⟨id, rc, rest, by rw [hdata, htail], hlen, hversion, by omega, hrefused⟩
      · rintro ⟨id', rc', rest', hdata', hlen', _, _, hrefused⟩
        have hcons := hsame hdata' hlen'
        rw [htail] at hcons
        cases hcons
        exact hrefused
  · refine iff_of_false (by unfold ack; simp [htype, hid]) ?_
    rintro ⟨id', rc, rest, rfl, hlen', _⟩
    rw [if_neg htype] at hlen'
    rw [List.length_append] at hshort
    omega

theorem ack_wellFormed
    {MQTTVersion : Nat} {aHeader : UInt8} {data : Bytes}
    (h : IsAck MQTTVersion (Header.ofByte aHeader).type data) :
    ∃ pack, ack MQTTVersion aHeader data = .ok pack := by
  obtain ⟨msgId, rc, props, tail, hdata, hreason⟩ := h
  have hlen := ackIdBytes_length (Header.ofByte aHeader).type msgId
  rcases ackIdStage (Header.ofByte aHeader).type data with
    ⟨msgId', tail', hdata', hid⟩ | ⟨htype, hshort, _⟩
  · have hlen' := ackIdBytes_length (Header.ofByte aHeader).type msgId'
    have htails : tail' = tail := by
      rw [hdata'] at hdata
      exact (List.append_inj hdata (by rw [hlen, hlen'])).2
    rcases ack_behind hdata' hlen' hid with
      hpack | ⟨rc', rest, htail, _, hmore, hdrop, make, hack⟩
    · exact hpack
    · have htwo : (ackIdBytes (Header.ofByte aHeader).type msgId').length ≤ 2 := by
        rw [hlen']
        split <;> omega
      rw [htails] at htail hmore
      have hsection : WellFormedSection rest rest.length := by
        cases hreason with
        | omitted => cases htail
        | reasonCode =>
            rw [List.length_singleton] at hmore
            omega
        | properties _ _ h =>
            cases htail
            exact (isSection_iff _ _ _).mpr ⟨_, h⟩
      have htaken := hsection.taken
      rw [← hdrop] at htaken
      obtain ⟨props', hread⟩ := read_section htaken
      rw [hack, hread]
      exact ⟨_, rfl⟩
  · rw [hdata, List.length_append, hlen, if_neg htype] at hshort
    omega

/-! ### What the table makes of a body -/

/-- NULL: the function of the table has returned it, or there is no function. -/
def IsNull (r : Except ReadError (Option AnyPacket)) : Prop :=
  r = .error .malformed ∨ r = .ok none

/-- Nothing outside the body is read, and a packet is only returned if `P` holds. -/
def ReturnsOnly (P : Prop) (r : Except ReadError (Option AnyPacket)) : Prop :=
  r ≠ .error .outOfBounds ∧ ∀ pack, r = .ok (some pack) → P

theorem returnsOnly_false_iff
    (r : Except ReadError (Option AnyPacket)) :
    ReturnsOnly False r ↔ IsNull r := by
  unfold ReturnsOnly IsNull
  match r with
  | .error .malformed => simp
  | .error .outOfBounds => simp
  | .ok none => simp
  | .ok (some pack) => simp

/-- Where `P` is enough for a packet, it is only returned if `P` holds, or never. -/
theorem returnsOnly_iff
    {P : Prop} {r : Except ReadError (Option AnyPacket)}
    (hreturned : P → ∃ pack, r = .ok (some pack)) :
    ReturnsOnly P r ↔ IsNull r ∨ P := by
  constructor
  · rintro ⟨hinside, hpack⟩
    match r with
    | .error .malformed => exact .inl (.inl rfl)
    | .error .outOfBounds => exact absurd rfl hinside
    | .ok none => exact .inl (.inr rfl)
    | .ok (some pack) => exact .inr (hpack pack rfl)
  · rintro (hnull | hP)
    · obtain ⟨hinside, hnone⟩ := (returnsOnly_false_iff r).mpr hnull
      exact ⟨hinside, fun pack hpack => (hnone pack hpack).elim⟩
    · obtain ⟨pack, rfl⟩ := hreturned hP
      exact ⟨by simp, fun _ _ => hP⟩

/-- A packet function is called, and its packet or NULL is returned. -/
theorem called
    {α : Type} {r : Except ReadError α} {f : α → AnyPacket} {refused wellFormed : Prop}
    (hrefused : r = .error .malformed ↔ refused)
    (hwellFormed : wellFormed → ∃ pack, r = .ok pack) :
    (IsNull ((r.map f).map some) ↔ refused) ∧
      (wellFormed → ∃ pack, (r.map f).map some = .ok (some pack)) := by
  rw [← hrefused]
  cases r with
  | error e => simpa [IsNull, Except.map] using hwellFormed
  | ok pack => simp [IsNull, Except.map]

end MQTTPacket

namespace MQTTPersistence

open MQTTPacket

/-- The table refuses just the refused bodies, and takes all the well-formed ones. -/
theorem newPacket_spec
    (MQTTVersion : Nat) (byte : UInt8) {body : Bytes}
    (hlen : body.length < 4294967295) :
    (IsNull (newPacket MQTTVersion byte body) ↔
      RefusedBody MQTTVersion (Header.ofByte byte) body) ∧
    (WellFormedBody MQTTVersion (Header.ofByte byte) body →
      ∃ pack, newPacket MQTTVersion byte body = .ok (some pack)) := by
  have hack := called (f := .ack) (ack_malformed_iff MQTTVersion byte body)
    (@ack_wellFormed MQTTVersion byte body)
  unfold newPacket RefusedBody WellFormedBody
  rw [← Header.code_ofByte]
  cases htype : (Header.ofByte byte).type with
  | reserved | connect | subscribe | unsubscribe | auth =>
      exact ⟨iff_of_true (.inr rfl) trivial, False.elim⟩
  | connack =>
      exact called (connack_malformed_iff MQTTVersion byte body)
        (fun h => connack_wellFormed h byte)
  | publish =>
      exact called (publish_malformed_iff MQTTVersion byte body) publish_wellFormed
  | puback | pubrec | pubrel | pubcomp | disconnect =>
      rw [htype] at hack
      exact hack
  | suback =>
      exact called (suback_malformed_iff MQTTVersion byte body) (fun h => suback_wellFormed h byte)
  | unsuback =>
      exact called (unsuback_malformed_iff MQTTVersion byte hlen)
        (fun h => unsuback_wellFormed hlen h byte)
  | pingreq | pingresp =>
      refine ⟨iff_of_false ?_ id, fun _ => ⟨_, rfl⟩⟩
      rintro (h | h) <;> cases h

end MQTTPersistence
end PahoMqtt
