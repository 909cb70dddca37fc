import PahoMqtt.SectionReading
import PahoMqtt.Packets

/-!
# The parts of a received PUBLISH

`MQTTPacket_publish` with the payload length it computes.  The topic is checked
against the end of the body; the message id is not, and the properties are only
as far as their strings go.
-/

namespace PahoMqtt
namespace MQTTPacket

open MQTTProperties

/-- `MQTTPacket_publish` with `payloadlen`, the `int` of what is left behind the payload's start. -/
def publishAt (MQTTVersion : Nat) (aHeader : UInt8) (data : Bytes) :
    Except ReadError (Publish × Int) :=
  let header := Header.ofByte aHeader
  match readUTFlen data 0 with
  | .error e => .error e
  | .ok (topic, pos) =>
      match (if header.qos.val > 0 then readMsgId data pos else .ok (0, pos)) with
      | .error e => .error e
      | .ok (msgId, pos) =>
          match (if MQTTVersion ≥ 5 then MQTTProperties.read data pos
            else .ok (MQTTProperties.initializer, pos)) with
          | .error e => .error e
          | .ok (properties, pos) =>
              .ok ({ header, topic, topiclen := topic.length, msgId, payload := data.drop pos,
                     MQTTVersion, properties, mask := ⟨0, 0, 0, 0⟩ },
                toInt ((data.length : Int) - pos))

theorem publish_eq_publishAt
    (MQTTVersion : Nat) (aHeader : UInt8) (data : Bytes) :
    publish MQTTVersion aHeader data = (publishAt MQTTVersion aHeader data).map Prod.fst := by
  unfold publish publishAt
  dsimp only
  generalize readUTFlen data 0 = topic
  cases topic with
  | error e => rfl
  | ok topic =>
      dsimp only
      generalize (if (Header.ofByte aHeader).qos.val > 0 then readMsgId data topic.2
        else .ok (0, topic.2)) = id
      cases id with
      | error e => rfl
      | ok id =>
          dsimp only
          generalize (if MQTTVersion ≥ 5 then MQTTProperties.read data id.2
            else .ok (MQTTProperties.initializer, id.2)) = properties
          cases properties <;> rfl

/-- The bytes of the message id, which only a packet of QoS 1 or more has. -/
def idBytes (pack : Publish) : Bytes :=
  if pack.header.qos.val > 0 then writeInt pack.msgId.toNat else []

/-- The bytes are those that `MQTTProperties_read` takes behind the first parts of the body. -/
def PropertyBytes (data : Bytes) (pack : Publish) (bytes : Bytes) : Prop :=
  let pos := 2 + pack.topic.length + (idBytes pack).length
  if pack.MQTTVersion ≥ 5 then
    MQTTProperties.read data pos = .ok (pack.properties, pos + bytes.length)
  else
    bytes = []

/--
Nothing outside the body is read, and a packet is made of all its bytes in
order: the topic with its length, the id, the properties and the payload.
-/
def ParsesExactly (MQTTVersion : Nat) (aHeader : UInt8) (data : Bytes) : Prop :=
  match publishAt MQTTVersion aHeader data with
  | .error .outOfBounds => False
  | .error .malformed => True
  | .ok (pack, payloadlen) =>
      ∃ properties,
        data = writeInt pack.topic.length ++
          (pack.topic ++ (idBytes pack ++ (properties ++ pack.payload))) ∧
        PropertyBytes data pack properties ∧ payloadlen = pack.payload.length

/--
The topic does not fit, or behind it there is room for an id that is due, and
then the properties of an MQTT 5 packet are refused or end inside the body.
-/
def Parsable (MQTTVersion qos : Nat) (data : Bytes) : Prop :=
  NoString data ∨ ∃ (topic id rest : Bytes), data = topic ++ (id ++ rest) ∧ IsString topic ∧
    id.length = (if qos > 0 then 2 else 0) ∧
    (MQTTVersion ≥ 5 → Refused rest ∨ ∃ size, IsSection TakenInt rest size)

/-! ### Reading the parts -/

theorem writeInt_bytes
    (hi lo : UInt8) :
    writeInt (256 * hi.toNat + lo.toNat) = [hi, lo] := by
  have hhi := hi.toNat_lt
  have hlo := lo.toNat_lt
  have hdiv : (256 * hi.toNat + lo.toNat) / 256 = hi.toNat := by omega
  have hmod : (256 * hi.toNat + lo.toNat) % 256 = lo.toNat := by omega
  simp [writeInt, hdiv, hmod]

/-- A string is its length and its bytes. -/
theorem isString_eq_write
    {str : Bytes}
    (h : IsString str) :
    str = writeInt (str.drop 2).length ++ str.drop 2 := by
  obtain ⟨hi, lo, data, rfl, hlen⟩ := h
  rw [List.drop_succ_cons, List.drop_succ_cons, List.drop_zero, hlen, writeInt_bytes]
  rfl

/-- Two bytes are an id, and fewer are not asked for. -/
theorem readMsgId_cases
    (data : Bytes) (pos : Nat) :
    (∃ (msgId : MsgId) (rest : Bytes), data.drop pos = writeInt msgId.toNat ++ rest ∧
      readMsgId data pos = .ok (msgId, pos + 2)) ∨
    ((data.drop pos).length < 2 ∧ readMsgId data pos = .error .outOfBounds) := by
  cases hhi : data[pos]? with
  | none =>
      have := List.getElem?_eq_none_iff.mp hhi
      refine .inr ⟨by rw [List.length_drop]; omega, ?_⟩
      simp [readMsgId, readInt, hhi]
  | some hi =>
      cases hlo : data[pos + 1]? with
      | none =>
          have := List.getElem?_eq_none_iff.mp hlo
          refine .inr ⟨by rw [List.length_drop]; omega, ?_⟩
          simp [readMsgId, readInt, hhi, hlo]
      | some lo =>
          have hlt : 256 * hi.toNat + lo.toNat < 65536 := by
            have := hi.toNat_lt
            have := lo.toNat_lt
            omega
          have hid : (UInt16.ofNat (256 * hi.toNat + lo.toNat)).toNat =
              256 * hi.toNat + lo.toNat := by
            simp only [UInt16.toNat_ofNat']
            omega
          refine .inl ⟨UInt16.ofNat (256 * hi.toNat + lo.toNat), data.drop (pos + 1 + 1), ?_, ?_⟩
          · rw [hid, writeInt_bytes, drop_of_getElem? hhi, drop_of_getElem? hlo]
            rfl
          · simp [readMsgId, readInt, hhi, hlo]

theorem readUTFlen_topic
    {data topic rest : Bytes}
    (htopic : IsString topic)
    (hdata : data = topic ++ rest) :
    readUTFlen data 0 = .ok (topic.drop 2, topic.length) := by
  have hdrop : data.drop 0 = topic ++ rest := hdata
  have hread := lenStringRead_isString htopic hdrop
  rwa [Nat.zero_add] at hread

/-- Where the properties start, or why they are not reached. -/
theorem idStage
    (qos : Nat) (data : Bytes) (pos : Nat) :
    (∃ (msgId : MsgId) (rest : Bytes),
      data.drop pos = (if qos > 0 then writeInt msgId.toNat else []) ++ rest ∧
      (if qos > 0 then readMsgId data pos else .ok (0, pos)) =
        (.ok (msgId, pos + if qos > 0 then 2 else 0) : Except ReadError (MsgId × Nat))) ∨
    (qos > 0 ∧ (data.drop pos).length < 2 ∧ readMsgId data pos = .error .outOfBounds) := by
  by_cases hqos : qos > 0
  · simp only [hqos, if_true, true_and]
    exact readMsgId_cases data pos
  · simp only [hqos, if_false, false_and, or_false]
    exact ⟨0, data.drop pos, rfl, rfl⟩

/-- A body has one topic and one id. -/
theorem parsable_iff
    {MQTTVersion qos : Nat} {data topic id rest : Bytes}
    (hdata : data = topic ++ (id ++ rest))
    (htopic : IsString topic)
    (hid : id.length = if qos > 0 then 2 else 0) :
    Parsable MQTTVersion qos data ↔
      (MQTTVersion ≥ 5 → Refused rest ∨ ∃ size, IsSection TakenInt rest size) := by
  constructor
  · rintro (hno | ⟨topic', id', rest', hdata', htopic', hid', hrest'⟩)
    · exact absurd htopic (hno _ _ hdata)
    · have hread := readUTFlen_topic htopic hdata
      rw [readUTFlen_topic htopic' hdata'] at hread
      simp only [Except.ok.injEq, Prod.mk.injEq] at hread
      rw [hdata] at hdata'
      obtain ⟨_, htail⟩ := List.append_inj hdata' hread.2.symm
      obtain ⟨_, rfl⟩ := List.append_inj htail (by rw [hid, hid'])
      exact hrest'
  · intro hrest
    exact .inr ⟨topic, id, rest, hdata, htopic, hid, hrest⟩

theorem section_le
    {VarInt : Bytes → Nat → Prop} {bytes : Bytes} {size : Nat}
    (h : IsSection VarInt bytes size) :
    size ≤ bytes.length := by
  obtain ⟨lead, n, items, rest, rfl, _, _, rfl, rfl⟩ := h
  simp only [List.length_append]
  omega

/-! ### The whole body -/

/-- The parts of a body, with the properties as the first `n` bytes behind the id. -/
theorem body_parts
    {data topic id rest : Bytes}
    (hdata : data = topic ++ (id ++ rest))
    (htopic : IsString topic)
    (n : Nat) :
    data = writeInt (topic.drop 2).length ++ (topic.drop 2 ++
      (id ++ (rest.take n ++ data.drop (topic.length + id.length + n)))) := by
  have hrest : data.drop (topic.length + id.length) = rest := by
    rw [hdata, ← List.append_assoc, ← List.length_append, List.drop_left]
  rw [← List.drop_drop, hrest, List.take_append_drop, ← List.append_assoc,
    ← isString_eq_write htopic]
  exact hdata

/-- The length of the payload does not wrap round. -/
theorem payloadlen_eq
    {data : Bytes} {pos : Nat}
    (hlen : data.length < 268435456)
    (hpos : pos ≤ data.length) :
    toInt ((data.length : Int) - pos) = (data.drop pos).length := by
  rw [List.length_drop, toInt_of_lt (by omega) (by omega)]
  omega

/-- Behind the topic and the id everything depends on the properties. -/
theorem parsesExactly_behind
    {MQTTVersion : Nat} {aHeader : UInt8} {data topic rest : Bytes} {msgId : MsgId}
    (hlen : data.length < 268435456)
    (hdata : data = topic ++
      ((if (Header.ofByte aHeader).qos.val > 0 then writeInt msgId.toNat else []) ++ rest))
    (htopic : IsString topic)
    (hid : (if (Header.ofByte aHeader).qos.val > 0 then readMsgId data topic.length
        else .ok (0, topic.length)) =
      (.ok (msgId, topic.length + if (Header.ofByte aHeader).qos.val > 0 then 2 else 0) :
        Except ReadError (MsgId × Nat))) :
    ParsesExactly MQTTVersion aHeader data ↔
      (MQTTVersion ≥ 5 → Refused rest ∨ ∃ size, IsSection TakenInt rest size) := by
  have hread := readUTFlen_topic htopic hdata
  generalize hidBytes : (if (Header.ofByte aHeader).qos.val > 0 then writeInt msgId.toNat else []) =
    id at *
  have hidLength : id.length = if (Header.ofByte aHeader).qos.val > 0 then 2 else 0 := by
    rw [← hidBytes]
    split <;> simp
  rw [← hidLength] at hid
  have htwo : 2 + (topic.drop 2).length = topic.length := by
    have := congrArg List.length (isString_eq_write htopic)
    rw [List.length_append, writeInt_length] at this
    omega
  have hrest : data.drop (topic.length + id.length) = rest := by
    rw [hdata, ← List.append_assoc, ← List.length_append, List.drop_left]
  have hsize := congrArg List.length hdata
  simp only [List.length_append] at hsize
  have hparts := body_parts hdata htopic
  unfold ParsesExactly publishAt
  rw [hread]
  dsimp only
  rw [hid]
  dsimp only
  by_cases hversion : MQTTVersion ≥ 5
  · have hmalformed := read_malformed_iff data (topic.length + id.length)
    rw [hrest] at hmalformed
    simp only [hversion, if_true, true_imp_iff]
    cases hprops : MQTTProperties.read data (topic.length + id.length) with
    | error e =>
        cases e with
        | malformed =>
            exact iff_of_true trivial (.inl (hmalformed.mp hprops))
        | outOfBounds =>
            refine iff_of_false (fun h => h) ?_
            rintro (hrefused | ⟨size, hsection⟩)
            · rw [hmalformed.mpr hrefused] at hprops
              cases hprops
            · rw [← hrest] at hsection
              obtain ⟨props, hok⟩ := read_section hsection
              rw [hprops] at hok
              cases hok
    | ok res =>
        obtain ⟨props, pos⟩ := res
        simp only [PropertyBytes, idBytes, hidBytes, hversion, if_true]
        constructor
        · rintro ⟨properties, hsame, hproperties, _⟩
          simp only [htwo, hprops, Except.ok.injEq, Prod.mk.injEq, true_and] at hproperties
          have hlength := congrArg List.length hsame
          simp only [List.length_append, writeInt_length, List.length_drop] at hlength
          obtain ⟨size, hsection, _⟩ := section_of_read (by omega) hprops (by omega)
          rw [hrest] at hsection
          exact .inr ⟨size, hsection⟩
        · rintro (hrefused | ⟨size, hsection⟩)
          · rw [hmalformed.mpr hrefused] at hprops
            cases hprops
          · have hle := section_le hsection
            rw [← hrest] at hsection
            obtain ⟨props', hok⟩ := read_section hsection
            rw [hprops] at hok
            cases hok
            refine ⟨rest.take size, hparts size, ?_, payloadlen_eq hlen (by omega)⟩
            rw [htwo, hprops, List.length_take, Nat.min_eq_left hle]
  · simp only [hversion, if_false, false_imp_iff, iff_true, PropertyBytes, idBytes, hidBytes]
    exact ⟨[], by simpa using hparts 0, rfl, payloadlen_eq hlen (by omega)⟩

/--
A body is parsed safely and into just its parts when the topic is cut off, or
there are the bytes of an id that is due and properties that are refused or end
inside the body.
-/
theorem publish_parsesExactly_iff
    (MQTTVersion : Nat) (aHeader : UInt8) {data : Bytes}
    (hlen : data.length < 268435456) :
    ParsesExactly MQTTVersion aHeader data ↔
      Parsable MQTTVersion (Header.ofByte aHeader).qos.val data := by
  rcases lenStringRead_cases data 0 with ⟨topic, rest, hdrop, htopic, hread⟩ | ⟨hno, hread⟩
  · rw [List.drop_zero] at hdrop
    rw [Nat.zero_add] at hread
    have hrest : data.drop topic.length = rest := by
      rw [hdrop, List.drop_left]
    rcases idStage (Header.ofByte aHeader).qos.val data topic.length with
      ⟨msgId, rest', hrest', hid⟩ | ⟨hqos, hshort, hid⟩
    · rw [hrest] at hrest'
      subst hrest'
      rw [parsesExactly_behind hlen hdrop htopic hid, parsable_iff hdrop htopic]
      split <;> simp
    · refine iff_of_false ?_ ?_
      · unfold ParsesExactly publishAt readUTFlen
        simp [hread, hqos, hid]
      · rintro (hno | ⟨topic', id, rest', hdata, htopic', hlength, _⟩)
        · exact hno _ _ hdrop htopic
        · have hread' := readUTFlen_topic htopic' hdata
          rw [readUTFlen, hread] at hread'
          simp only [Except.ok.injEq, Prod.mk.injEq] at hread'
          have hsize := congrArg List.length hdata
          rw [if_pos hqos] at hlength
          simp only [List.length_append, List.length_drop] at hsize hshort
          omega
  · refine iff_of_true ?_ (.inl hno)
    unfold ParsesExactly publishAt readUTFlen
    simp [hread]

theorem publish_parsesExactly_iff_qos1 :
    ParsesExactly 4 50 [0, 1, 97, 0, 5, 120] := by
  refine (publish_parsesExactly_iff 4 50 (by decide)).mpr (.inr ?_)
  exact ⟨[0, 1, 97], [0, 5], [120], rfl, ⟨0, 1, [97], rfl, rfl⟩, rfl, by omega⟩

/-- A PUBLISH of QoS 1 with one byte behind its topic: the id is read behind the end. -/
theorem missing_id_not_parsesExactly :
    publishAt 4 50 [0, 1, 97, 5] = .error .outOfBounds ∧ ¬ParsesExactly 4 50 [0, 1, 97, 5] := by
  have hread : publishAt 4 50 [0, 1, 97, 5] = .error .outOfBounds := by
    decide
  refine ⟨hread, ?_⟩
  unfold ParsesExactly
  rw [hread]
  exact id

end MQTTPacket
end PahoMqtt
