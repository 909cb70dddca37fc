import PahoMqtt.PublishParsing
import PahoMqtt.ProtocolClient
import PahoMqtt.Reassembly
import PahoMqtt.PacketTable

/-!
# A PUBLISH on the wire and in the store

`MQTTPacket_send_publish` hands three or four buffers to `MQTTPacket_sends`,
which puts a fixed header in front, stores all of them if the QoS asks for it,
and writes them.  The same bytes are read by `MQTTPacket_publish`, once behind
`MQTTPacket_decode` and once behind the loop of `MQTTPersistence_restorePacket`.
-/

namespace PahoMqtt

open MQTTPacket MQTTProperties

namespace MQTTPersistence

/--
The loop of `MQTTPersistence_restorePacket` over the remaining length, in `int`s:
the length, and the number of bytes of the fixed header.
-/
def restoreLength (buffer : Bytes) :
    (fuel : Nat) → (multiplier remaining_length : Int) → (fixed_header_length : Nat) →
      Except ReadError (Int × Nat)
  | 0, _, _, _ => .error .outOfBounds
  | fuel + 1, multiplier, remaining_length, fixed_header_length =>
      match buffer[fixed_header_length]? with
      | none => .error .outOfBounds
      | some c =>
          let remaining_length := toInt (remaining_length + (c.toNat % 128 : Nat) * multiplier)
          if c.toNat / 128 = 1 then
            restoreLength buffer fuel (toInt (multiplier * 128)) remaining_length
              (fixed_header_length + 1)
          else
            .ok (remaining_length, fixed_header_length + 1)

/-- The call of the packet's function, where its type has one. -/
def newPacket (MQTTVersion : Nat) (byte : UInt8) (data : Bytes) :
    Except ReadError (Option AnyPacket) :=
  let ptype := byte.toNat / 16
  if ptype < PacketType.connect.code ∨ ptype > PacketType.disconnect.code then
    .ok none
  else
    match (new_packets[ptype]?).join with
    | none => .ok none
    | some pack => (pack.call MQTTVersion byte data).map some

/-- `MQTTPersistence_restorePacket`; NULL is none or malformed. -/
def restorePacket (MQTTVersion : Nat) (buffer : Bytes) : Except ReadError (Option AnyPacket) :=
  match buffer[0]? with
  | none => .error .outOfBounds
  | some byte =>
      match restoreLength buffer buffer.length 1 0 1 with
      | .error e => .error e
      | .ok (remaining_length, fixed_header_length) =>
          if toSize (toInt (fixed_header_length + remaining_length)) = buffer.length then
            newPacket MQTTVersion byte (buffer.drop fixed_header_length)
          else
            .ok none

end MQTTPersistence

namespace MQTTPacket

/-- The bytes that `MQTTPacket_sends` stores and writes for a publication. -/
def publishBytes (pack : Publish) (dup : Bool) (qos : Nat) (retained : Bool) : Bytes :=
  fixedHeader (publishHeader dup qos retained) ((publishBuffers pack qos).map List.length).sum ++
    (publishBuffers pack qos).flatten

/-- What was received or restored is what was sent; there is no id without QoS 1 or 2. -/
structure SamePublication (pack : Publish) (dup : Bool) (qos : Nat) (retained : Bool)
    (got : Publish) : Prop where
  topic : got.topic = pack.topic
  topiclen : got.topiclen = pack.topic.length
  flags : got.header = publishHeader dup qos retained
  msgId : qos > 0 → got.msgId = pack.msgId
  payload : got.payload = pack.payload
  MQTTVersion : got.MQTTVersion = pack.MQTTVersion
  properties : pack.MQTTVersion ≥ 5 → got.properties = pack.properties

/-- A publication that the API can send. -/
structure Sendable (pack : Publish) (qos : Nat) : Prop where
  topic : pack.topic.length ≤ 65535
  noNul : (0 : UInt8) ∉ pack.topic
  qos_le : qos ≤ 2
  properties : pack.MQTTVersion ≥ 5 → Survives pack.properties
  total : ((publishBuffers pack qos).map List.length).sum < 268435456

end MQTTPacket

/-! ### The fixed header -/

namespace MQTTPacket

theorem lengthField_of_isVarInt
    {bytes : Bytes} {n : Nat}
    (h : Lib.IsVarInt bytes n) :
    LengthField bytes n := by
  induction h with
  | @last b hlast =>
      have hmod : b.toNat % 128 = b.toNat := by omega
      have hfield := LengthField.last b (by omega)
      rwa [hmod] at hfield
  | more hmore _ ih =>
      exact .more _ ((continues_iff _).mpr hmore) ih

end MQTTPacket

namespace MQTTPersistence

/-- One more digit in an `int`, which may wrap round, and the multiplier of the next one. -/
theorem digit_wraps
    (multiplier sum : Int) (digit : Nat) :
    toInt (toInt sum + digit * toInt multiplier) = toInt (sum + digit * multiplier) ∧
      toInt (toInt multiplier * 128) = toInt (multiplier * 128) := by
  refine ⟨?_, ?_⟩
  · rw [toInt, toInt, Int.bmod_add_bmod, toInt, Int.add_bmod, Int.mul_bmod_bmod, ← Int.add_bmod]
    rfl
  · rw [toInt, toInt, Int.bmod_mul_bmod]
    rfl

/-- A remaining length of any number of bytes, as an `int` holds it. -/
theorem restoreLength_isVarInt
    {lead : Bytes} {n : Nat}
    (h : Lib.IsVarInt lead n)
    {buffer rest : Bytes} {fuel pos : Nat} {multiplier sum : Int}
    (hdrop : buffer.drop pos = lead ++ rest)
    (hfuel : lead.length ≤ fuel) :
    restoreLength buffer fuel (toInt multiplier) (toInt sum) pos =
      .ok (toInt (sum + n * multiplier), pos + lead.length) := by
  induction h generalizing fuel multiplier sum pos with
  | @last b hlast =>
      obtain ⟨fuel, rfl⟩ : ∃ m, fuel = m + 1 := ⟨fuel - 1, by simp at hfuel; omega⟩
      have hmod : b.toNat % 128 = b.toNat := by omega
      rw [restoreLength, (getElem?_of_drop hdrop).1]
      dsimp only
      rw [(digit_wraps multiplier sum _).1, if_neg (by rw [continues_iff]; omega), hmod]
      rfl
  | @more b bytes n hmore htail ih =>
      obtain ⟨fuel, rfl⟩ : ∃ m, fuel = m + 1 := ⟨fuel - 1, by simp at hfuel; omega⟩
      rw [List.length_cons] at hfuel
      obtain ⟨hdigit, hmultiplier⟩ := digit_wraps multiplier sum (b.toNat % 128)
      obtain ⟨hb, hrest⟩ := getElem?_of_drop hdrop
      have hvalue : sum + (b.toNat % 128 : Nat) * multiplier + n * (multiplier * 128) =
          sum + (b.toNat % 128 + 128 * n : Nat) * multiplier := by
        push_cast
        ring
      rw [restoreLength, hb]
      dsimp only
      rw [hdigit, if_pos ((continues_iff b).mpr hmore), hmultiplier, ih hrest (by omega), hvalue,
        List.length_cons, Nat.add_assoc, Nat.add_comm 1]

end MQTTPersistence

/-! ### The parts of the body -/

namespace MQTTPacket

/-- A body of a topic, an id, properties and a payload is parsed into these. -/
theorem publish_of_parts
    {MQTTVersion : Nat} {byte : UInt8} {data topic payload : Bytes} {msgId : MsgId}
    {properties : Properties}
    (htopic : topic.length ≤ 65535)
    (hproperties : MQTTVersion ≥ 5 → Survives properties)
    (hdata : data = writeInt topic.length ++ (topic ++
      ((if (Header.ofByte byte).qos.val > 0 then writeInt msgId.toNat else []) ++
        ((if MQTTVersion ≥ 5 then write properties else []) ++ payload)))) :
    publish MQTTVersion byte data = .ok
      { header := Header.ofByte byte, topic, topiclen := topic.length
        msgId := if (Header.ofByte byte).qos.val > 0 then msgId else 0
        payload, MQTTVersion
        properties := if MQTTVersion ≥ 5 then properties else initializer
        mask := ⟨0, 0, 0, 0⟩ } := by
  have htopicRead : readUTFlen data 0 = .ok (topic, 2 + topic.length) := by
    have hdrop : data.drop 0 = writeMQTTLenString topic ++
        ((if (Header.ofByte byte).qos.val > 0 then writeInt msgId.toNat else []) ++
          ((if MQTTVersion ≥ 5 then write properties else []) ++ payload)) := by
      rw [writeMQTTLenString, List.append_assoc]
      exact hdata
    have hread := lenStringRead_write htopic hdrop
    rwa [Nat.zero_add] at hread
  have hbehind : data.drop (2 + topic.length) =
      (if (Header.ofByte byte).qos.val > 0 then writeInt msgId.toNat else []) ++
        ((if MQTTVersion ≥ 5 then write properties else []) ++ payload) := by
    rw [hdata, ← List.append_assoc, ← writeInt_length topic.length, ← List.length_append,
      List.drop_left]
  have hid : ∃ pos, (if (Header.ofByte byte).qos.val > 0 then readMsgId data (2 + topic.length)
        else .ok (0, 2 + topic.length)) =
          (.ok (if (Header.ofByte byte).qos.val > 0 then msgId else 0, pos) :
            Except ReadError (MsgId × Nat)) ∧
      data.drop pos = (if MQTTVersion ≥ 5 then write properties else []) ++ payload := by
    by_cases hqos : (Header.ofByte byte).qos.val > 0
    · simp only [hqos, if_true] at hbehind ⊢
      refine ⟨2 + topic.length + 2, ?_, ?_⟩
      · simp [readMsgId, readInt_writeInt msgId.toNat_lt hbehind]
      · rw [← writeInt_length msgId.toNat]
        exact Lib.Reader.drop_add hbehind
    · simp only [hqos, if_false] at hbehind ⊢
      exact ⟨_, rfl, hbehind⟩
  obtain ⟨pos, hidRead, hrest⟩ := hid
  have hprops : ∃ pos', (if MQTTVersion ≥ 5 then MQTTProperties.read data pos
        else .ok (initializer, pos)) =
          (.ok (if MQTTVersion ≥ 5 then properties else initializer, pos') :
            Except ReadError (Properties × Nat)) ∧
      data.drop pos' = payload := by
    by_cases hversion : MQTTVersion ≥ 5
    · simp only [hversion, if_true] at hrest ⊢
      have hread := reads_of_survives (hproperties hversion) hrest trivial
      exact ⟨_, hread, Lib.Reader.drop_add hrest⟩
    · simp only [hversion, if_false] at hrest ⊢
      exact ⟨pos, rfl, hrest⟩
  obtain ⟨pos', hpropsRead, hpayload⟩ := hprops
  unfold publish
  rw [htopicRead]
  dsimp only
  rw [hidRead]
  dsimp only
  rw [hpropsRead]
  simp only [hpayload]

theorem publishBuffers_flatten
    {pack : Publish} {qos : Nat}
    (hnul : (0 : UInt8) ∉ pack.topic) :
    (publishBuffers pack qos).flatten = writeInt pack.topic.length ++ (pack.topic ++
      ((if qos > 0 then writeInt pack.msgId.toNat else []) ++
        ((if pack.MQTTVersion ≥ 5 then write pack.properties else []) ++ pack.payload))) := by
  have hlen := strlen_eq_length hnul
  unfold publishBuffers publishVariable
  rw [hlen, List.take_length]
  by_cases hqos : qos > 0
  · simp [hqos]
  · by_cases hversion : pack.MQTTVersion ≥ 5 <;> simp [hqos, hversion]

/-! ### The length of the third buffer -/

theorem decodeBuf_lt
    {buf : Bytes} {pos len n : Nat}
    (h : decodeBuf buf pos = .ok (len, n)) :
    n < 268435456 := by
  rcases VBIdecode_ok h with ⟨lead, rest, m, hdrop, hvar, hfour, _⟩ | ⟨lead, rest, hdrop, hfour, hmore, _⟩
  · have htaken : TakenInt lead m := .wellFormed hvar hfour
    rw [decodeBuf_taken htaken hdrop] at h
    cases h
    exact htaken.lt
  · have hread := VBIdecode_continues hmore 1 0 0 hdrop
    have hlt := Lib.varIntDigits_lt lead
    have hpow : 128 ^ 4 = 268435456 := by norm_num
    rw [decodeBuf, ← hfour, hread] at h
    cases h
    rw [hfour, hpow] at hlt
    omega

/-- The buffer that is allocated for a list that survives is the one that is written. -/
theorem len_of_survives
    {props : Properties}
    (hsurvives : Survives props)
    (hlt : (write props).length < 268435456) :
    len props = (write props).length := by
  have hread : MQTTProperties.read (write props) 0 = .ok (props, (write props).length) := hsurvives
  unfold MQTTProperties.read at hread
  split at hread
  · split at hread
    · cases hread
    next l n hdecode =>
      split at hread
      · cases hread
      next array pos hloop =>
        simp only [Except.ok.injEq, Prod.mk.injEq] at hread
        obtain ⟨hprops, hpos⟩ := hread
        have hn := decodeBuf_lt hdecode
        have hlength : props.length = n := by rw [← hprops]
        have hwrite : write props = encode n ++ props.array.flatMap propertyWrite := by
          rw [write, hlength, toSize_of_lt (by omega)]
        have hfour : (encode n).length ≤ 4 := (encode_length_le_iff 3 n).mpr (by omega)
        have hdrop : (write props).drop 0 = encode n ++ props.array.flatMap propertyWrite := hwrite
        rw [decodeBuf_taken (.wellFormed (encode_isVarInt n) hfour) hdrop] at hdecode
        cases hdecode
        obtain ⟨_, m, hm, hmod⟩ := readLoop_consumes (by omega) hloop
        rw [len, hlength, VBIlen_eq_log hn, toInt_of_lt (by omega), ← encode_length]
        · omega
        · rw [← encode_length]
          omega
  · cases hread

/-! ### There and back -/

theorem publishHeader_qos
    (dup : Bool) {qos : Nat} (retained : Bool)
    (hqos : qos ≤ 2) :
    (Header.ofByte (publishHeader dup qos retained).toByte).qos.val = qos := by
  rw [Header.ofByte_toByte]
  simp only [publishHeader, Fin.val_ofNat]
  omega

/-- The body of a sent publication is parsed into the publication. -/
theorem publish_of_buffers
    {pack : Publish} {qos : Nat}
    (h : Sendable pack qos)
    (dup retained : Bool) :
    ∃ got, publish pack.MQTTVersion (publishHeader dup qos retained).toByte
        (publishBuffers pack qos).flatten = .ok got ∧
      SamePublication pack dup qos retained got := by
  have hqos := publishHeader_qos dup retained h.qos_le
  have hparts := @publishBuffers_flatten pack qos h.noNul
  have hread := @publish_of_parts pack.MQTTVersion (publishHeader dup qos retained).toByte
    (publishBuffers pack qos).flatten pack.topic pack.payload pack.msgId pack.properties
    h.topic h.properties (by rw [hqos]; exact hparts)
  rw [hqos] at hread
  refine ⟨_, hread, ?_⟩
  constructor
  · rfl
  · rfl
  · exact Header.ofByte_toByte _
  · intro hpos
    exact if_pos hpos
  · rfl
  · rfl
  · intro hversion
    exact if_pos hversion

theorem buffers_length
    (pack : Publish) (qos : Nat) :
    (publishBuffers pack qos).flatten.length = ((publishBuffers pack qos).map List.length).sum :=
  List.length_flatten

theorem encode_total_le
    {pack : Publish} {qos : Nat}
    (h : Sendable pack qos) :
    (encode (publishBuffers pack qos).flatten.length).length ≤ 4 := by
  have htotal := h.total
  rw [buffers_length]
  exact (encode_length_le_iff 3 _).mpr (by omega)

/-- The packet as it is framed on the wire. -/
def publishFrame {pack : Publish} {qos : Nat} (h : Sendable pack qos) (dup retained : Bool) :
    Frame where
  byte := (publishHeader dup qos retained).toByte
  length := encode (publishBuffers pack qos).flatten.length
  body := (publishBuffers pack qos).flatten
  length_field := lengthField_of_isVarInt (encode_isVarInt _)
  length_le := encode_total_le h

theorem publishFrame_bytes
    {pack : Publish} {qos : Nat}
    (h : Sendable pack qos)
    (dup retained : Bool) :
    (publishFrame h dup retained).bytes = publishBytes pack dup qos retained := by
  simp [Frame.bytes, Frame.header, publishFrame, publishBytes, fixedHeader]

/-- The stored bytes are taken apart at the same place. -/
theorem restorePacket_publishBytes
    {pack : Publish} {qos : Nat}
    (h : Sendable pack qos)
    (dup retained : Bool) :
    MQTTPersistence.restorePacket pack.MQTTVersion (publishBytes pack dup qos retained) =
      (publish pack.MQTTVersion (publishHeader dup qos retained).toByte
        (publishBuffers pack qos).flatten).map fun got => some (.publish got) := by
  have hfour := encode_total_le h
  have htotal := h.total
  have hbytes : publishBytes pack dup qos retained = (publishHeader dup qos retained).toByte ::
      (encode (publishBuffers pack qos).flatten.length ++ (publishBuffers pack qos).flatten) := by
    simp [publishBytes, fixedHeader]
  rw [← buffers_length] at htotal
  generalize (publishBuffers pack qos).flatten = body at *
  have hvar := encode_isVarInt body.length
  have hlength : (publishBytes pack dup qos retained).length =
      1 + (encode body.length).length + body.length := by
    rw [hbytes, List.length_cons, List.length_append]
    omega
  have hdrop : (publishBytes pack dup qos retained).drop 1 = encode body.length ++ body := by
    rw [hbytes, List.drop_one, List.tail_cons]
  have hloop := @MQTTPersistence.restoreLength_isVarInt _ _ hvar
    (publishBytes pack dup qos retained) body (publishBytes pack dup qos retained).length 1 1 0
    hdrop (by omega)
  have hdata : (publishBytes pack dup qos retained).drop (1 + (encode body.length).length) =
      body := Lib.Reader.drop_add hdrop
  have hsize : toSize (toInt ((1 + (encode body.length).length : Nat) + (body.length : Nat))) =
      (publishBytes pack dup qos retained).length := by
    rw [hlength, ← Nat.cast_add, toInt_of_lt (by omega) (by omega), toSize_of_lt (by omega)]
  have htype : (publishHeader dup qos retained).toByte.toNat / 16 = 3 := by
    rw [← Header.code_ofByte, Header.ofByte_toByte]
    rfl
  have hfirst : (publishBytes pack dup qos retained)[0]? =
      some (publishHeader dup qos retained).toByte := by
    rw [hbytes]
    rfl
  have hn : toInt (0 + (body.length : Int) * 1) = body.length := by
    rw [zero_add, mul_one, toInt_of_lt (by omega) (by omega)]
  have hstart : toInt 1 = 1 ∧ toInt 0 = 0 := by decide
  rw [hstart.1, hstart.2, hn] at hloop
  have hcall : MQTTPersistence.newPacket pack.MQTTVersion
      (publishHeader dup qos retained).toByte body =
        (publish pack.MQTTVersion (publishHeader dup qos retained).toByte body).map
          fun got => some (.publish got) := by
    unfold MQTTPersistence.newPacket
    rw [htype]
    change (Except.map _ _).map some = _
    cases publish pack.MQTTVersion (publishHeader dup qos retained).toByte body <;> rfl
  unfold MQTTPersistence.restorePacket
  rw [hfirst]
  dsimp only
  rw [hloop]
  dsimp only
  rw [if_pos hsize, hdata, hcall]

/--
The bytes of a sent publication are framed and parsed into the publication, and
the bytes that are stored for one of QoS 1 or 2 are restored to it.
-/
theorem publish_roundTrips
    {pack : Publish} {qos : Nat}
    (h : Sendable pack qos)
    (dup retained : Bool) :
    (pack.MQTTVersion ≥ 5 → len pack.properties = (write pack.properties).length) ∧
    (∃ frame : Frame, frame.bytes = publishBytes pack dup qos retained ∧
      ∃ got, publish pack.MQTTVersion frame.byte frame.body = .ok got ∧
        SamePublication pack dup qos retained got) ∧
    (qos > 0 →
      (∀ env net store, MQTTPersistence.StoreWorks env → env.beforeWrite = none →
        net.persistence = some store →
        (send_publish env net pack dup qos retained).2.2.persistence =
          some (MQTTPersistence.putRecord store
            (MQTTPersistence.putStem .publish false pack.MQTTVersion) pack.msgId
            (publishBytes pack dup qos retained))) ∧
      ∃ got, MQTTPersistence.restorePacket pack.MQTTVersion (publishBytes pack dup qos retained) =
          .ok (some (.publish got)) ∧
        SamePublication pack dup qos retained got) := by
  obtain ⟨got, hparse, hsame⟩ := publish_of_buffers h dup retained
  refine ⟨?_, ⟨publishFrame h dup retained, publishFrame_bytes h dup retained, got, hparse, hsame⟩,
    ?_⟩
  · intro hversion
    refine len_of_survives (h.properties hversion) ?_
    have htotal := h.total
    rw [← buffers_length, publishBuffers_flatten h.noNul] at htotal
    simp only [hversion, if_true, List.length_append] at htotal
    omega
  · intro hqos
    have hqos' : qos = 1 ∨ qos = 2 := by
      have := h.qos_le
      omega
    refine ⟨?_, got, ?_, hsame⟩
    · intro env net store hworks hhook hstore
      rw [send_publish_works hworks hstore pack dup retained hqos']
      simp [MQTTPersistence.callBeforeWrite, hhook, publishBytes]
    · rw [restorePacket_publishBytes h, hparse]
      rfl

/-- A publication of MQTT 5 with a topic alias. -/
def aliasPublish : Publish where
  header := publishHeader false 2 true
  topic := [97, 47, 98]
  topiclen := 3
  msgId := 300
  payload := [120, 0, 121]
  MQTTVersion := 5
  properties := add initializer ⟨35, .integer2 7, rfl⟩
  mask := ⟨0, 0, 0, 0⟩

theorem publish_roundTrips_alias :
    ∃ got, MQTTPersistence.restorePacket 5 (publishBytes aliasPublish true 2 true) =
        .ok (some (.publish got)) ∧ SamePublication aliasPublish true 2 true got := by
  have hsendable : Sendable aliasPublish 2 := by
    constructor
    · decide
    · decide
    · exact le_rfl
    · intro _
      change read (write aliasPublish.properties) 0 = .ok (aliasPublish.properties, _)
      decide
    · decide
  exact ((publish_roundTrips hsendable true true).2.2 (by omega)).2

end MQTTPacket

end PahoMqtt
