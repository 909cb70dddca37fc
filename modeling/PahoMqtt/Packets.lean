import PahoMqtt.Properties

/-!
# MQTT packets

The packet structures of MQTTPacket.h and the functions of the `new_packets`
table that build them from the bytes of a packet.  Message ids are the two-byte
integers that stand in a packet.

A packet function returns the packet, or `malformed` where the source returns
NULL.
-/

namespace PahoMqtt

/-- The values of the type nibble; `reserved` is the nibble 0. -/
inductive PacketType where
  | reserved
  | connect
  | connack
  | publish
  | puback
  | pubrec
  | pubrel
  | pubcomp
  | subscribe
  | suback
  | unsubscribe
  | unsuback
  | pingreq
  | pingresp
  | disconnect
  | auth
deriving DecidableEq, Repr

namespace PacketType

def code : PacketType → Nat
  | .reserved => 0
  | .connect => 1
  | .connack => 2
  | .publish => 3
  | .puback => 4
  | .pubrec => 5
  | .pubrel => 6
  | .pubcomp => 7
  | .subscribe => 8
  | .suback => 9
  | .unsubscribe => 10
  | .unsuback => 11
  | .pingreq => 12
  | .pingresp => 13
  | .disconnect => 14
  | .auth => 15

def ofCode : Nat → PacketType
  | 1 => .connect
  | 2 => .connack
  | 3 => .publish
  | 4 => .puback
  | 5 => .pubrec
  | 6 => .pubrel
  | 7 => .pubcomp
  | 8 => .subscribe
  | 9 => .suback
  | 10 => .unsubscribe
  | 11 => .unsuback
  | 12 => .pingreq
  | 13 => .pingresp
  | 14 => .disconnect
  | 15 => .auth
  | _ => .reserved

@[simp] theorem ofCode_code
    (t : PacketType) :
    ofCode t.code = t := by
  cases t <;> rfl

theorem code_ofCode
    {n : Nat}
    (hn : n < 16) :
    (ofCode n).code = n := by
  interval_cases n <;> rfl

theorem code_lt
    (t : PacketType) :
    t.code < 16 := by
  cases t <;> decide

end PacketType

/-- The QoS has two bits. -/
instance qosBits : NeZero 4 := ⟨by decide⟩

/-- The bit fields of the header byte. -/
structure Header where
  type : PacketType
  dup : Bool
  qos : Fin 4
  retain : Bool
deriving DecidableEq, Repr

namespace Header

def toByte (header : Header) : UInt8 :=
  UInt8.ofNat
    (16 * header.type.code + 8 * header.dup.toNat + 2 * header.qos.val + header.retain.toNat)

def ofByte (byte : UInt8) : Header where
  type := PacketType.ofCode (byte.toNat / 16)
  dup := byte.toNat / 8 % 2 = 1
  qos := ⟨byte.toNat / 2 % 4, Nat.mod_lt _ (by decide)⟩
  retain := byte.toNat % 2 = 1

@[simp] theorem code_ofByte
    (byte : UInt8) :
    (ofByte byte).type.code = byte.toNat / 16 := by
  have hlt := byte.toNat_lt
  exact PacketType.code_ofCode (by omega)

/-- The bit fields are read back from the byte. -/
@[simp] theorem ofByte_toByte
    (header : Header) :
    ofByte header.toByte = header := by
  obtain ⟨type, dup, qos, retain⟩ := header
  have htype := type.code_lt
  have hdup : dup.toNat ≤ 1 := Bool.toNat_le dup
  have hqos := qos.isLt
  have hretain : retain.toNat ≤ 1 := Bool.toNat_le retain
  have hbyte : (toByte ⟨type, dup, qos, retain⟩).toNat =
      16 * type.code + 8 * dup.toNat + 2 * qos.val + retain.toNat := by
    simp only [toByte, UInt8.toNat_ofNat']
    omega
  simp only [ofByte, hbyte, Header.mk.injEq]
  refine ⟨?_, ?_, ?_, ?_⟩
  · have : (16 * type.code + 8 * dup.toNat + 2 * qos.val + retain.toNat) / 16 = type.code := by
      omega
    rw [this, PacketType.ofCode_code]
  · have : (16 * type.code + 8 * dup.toNat + 2 * qos.val + retain.toNat) / 8 % 2 = dup.toNat := by
      omega
    rw [this]
    cases dup <;> rfl
  · apply Fin.ext
    show (16 * type.code + 8 * dup.toNat + 2 * qos.val + retain.toNat) / 2 % 4 = qos.val
    omega
  · have : (16 * type.code + 8 * dup.toNat + 2 * qos.val + retain.toNat) % 2 = retain.toNat := by
      omega
    rw [this]
    cases retain <;> rfl

end Header

abbrev MsgId := UInt16

/-- `MAX_MSG_ID` -/
def MAX_MSG_ID : MsgId := 65535

/-- The four bytes of a WebSocket masking key. -/
structure Mask where
  b₀ : UInt8
  b₁ : UInt8
  b₂ : UInt8
  b₃ : UInt8
deriving DecidableEq, Repr

/-- `Publish`; the payload carries its own length. -/
structure Publish where
  header : Header
  topic : Bytes
  topiclen : Nat
  msgId : MsgId
  payload : Bytes
  MQTTVersion : Nat
  properties : Properties
  mask : Mask
deriving DecidableEq

/-- `Ack`, with the members `Puback`, `Pubrec`, `Pubrel` and `Pubcomp`. -/
structure Ack where
  header : Header
  msgId : MsgId
  rc : UInt8
  MQTTVersion : Nat
  properties : Properties
deriving DecidableEq

namespace MQTTPacket

/-- `readUTFlen` returns NULL where `MQTTLenStringRead` returns -1. -/
def readUTFlen (buf : Bytes) (pos : Nat) : Except ReadError (Bytes × Nat) :=
  lenStringRead buf pos

/-- A two-byte integer that is a message id. -/
def readMsgId (buf : Bytes) (pos : Nat) : Except ReadError (MsgId × Nat) :=
  match readInt buf pos with
  | .error e => .error e
  | .ok (n, pos) => .ok (UInt16.ofNat n, pos)

/-- `MQTTPacket_publish`; only a packet of QoS 1 or more has a message id. -/
def publish (MQTTVersion : Nat) (aHeader : UInt8) (data : Bytes) : Except ReadError Publish :=
  let header := Header.ofByte aHeader
  match readUTFlen data 0 with
  | .error e => .error e
  | .ok (topic, pos) =>
      match (if header.qos.val > 0 then readMsgId data pos else .ok (0, pos)) with
      | .error e => .error e
      | .ok (msgId, pos) =>
          match (if MQTTVersion ≥ 5 then MQTTProperties.read data pos
            else .ok (MQTTProperties.initializer, pos)) with
          | .error e => .error e
          | .ok (properties, pos) =>
              .ok { header, topic, topiclen := topic.length, msgId, payload := data.drop pos,
                    MQTTVersion, properties, mask := ⟨0, 0, 0, 0⟩ }

/--
`MQTTPacket_ack`.  Before MQTT 5 the reason code is not set and nothing reads
it; a DISCONNECT has no message id.
-/
def ack (MQTTVersion : Nat) (aHeader : UInt8) (data : Bytes) : Except ReadError Ack :=
  let header := Header.ofByte aHeader
  match (if header.type ≠ .disconnect then readMsgId data 0 else .ok (0, 0)) with
  | .error e => .error e
  | .ok (msgId, pos) =>
      match (if MQTTVersion ≥ 5 ∧ data.length > 2 then readChar data pos else .ok (0, pos)) with
      | .error e => .error e
      | .ok (rc, pos) =>
          match (if MQTTVersion ≥ 5 ∧ data.length > 3 then MQTTProperties.read data pos
            else .ok (MQTTProperties.initializer, pos)) with
          | .error e => .error e
          | .ok (properties, _) => .ok { header, msgId, rc, MQTTVersion, properties }

end MQTTPacket

end PahoMqtt
