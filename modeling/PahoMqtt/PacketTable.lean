import PahoMqtt.PacketReading

/-!
# The packets of the table

The functions in `new_packets` besides those of a PUBLISH and of the
acknowledgements, and what a place of the table makes of the bytes of a packet.
None of them asks whether the integers and bytes it reads are there.
-/

namespace PahoMqtt
namespace MQTTPacket

/-- `Connack` -/
structure Connack where
  header : Header
  flags : UInt8
  rc : UInt8
  MQTTVersion : Nat
  properties : Properties
deriving DecidableEq

/-- `Suback` -/
structure Suback where
  header : Header
  msgId : MsgId
  MQTTVersion : Nat
  properties : Properties
  qoss : List UInt8
deriving DecidableEq

/-- `Unsuback` -/
structure Unsuback where
  header : Header
  msgId : MsgId
  MQTTVersion : Nat
  properties : Properties
  reasonCodes : List UInt8
deriving DecidableEq

/-- What the pointer that a function of the table returns points to. -/
inductive AnyPacket where
  | connack (pack : Connack)
  | publish (pack : Publish)
  | ack (pack : Ack)
  | suback (pack : Suback)
  | unsuback (pack : Unsuback)
  | header_only (header : Header)
deriving DecidableEq

/-- `MQTTPacket_connack` -/
def connack (MQTTVersion : Nat) (aHeader : UInt8) (data : Bytes) : Except ReadError Connack :=
  let header := Header.ofByte aHeader
  match readChar data 0 with
  | .error e => .error e
  | .ok (flags, pos) =>
      match readChar data pos with
      | .error e => .error e
      | .ok (rc, pos) =>
          if MQTTVersion < 5 then
            if data.length ≠ 2 then .error .malformed
            else .ok { header, flags, rc, MQTTVersion, properties := MQTTProperties.initializer }
          else
            match (if data.length > 2 then MQTTProperties.read data pos
              else .ok (MQTTProperties.initializer, pos)) with
            | .error e => .error e
            | .ok (properties, _) => .ok { header, flags, rc, MQTTVersion, properties }

/--
`MQTTPacket_suback`.  A packet without codes is freed before its list is: what
is then read is no longer memory of the packet.
-/
def suback (MQTTVersion : Nat) (aHeader : UInt8) (data : Bytes) : Except ReadError Suback :=
  let header := Header.ofByte aHeader
  match readMsgId data 0 with
  | .error e => .error e
  | .ok (msgId, pos) =>
      match (if MQTTVersion ≥ 5 then MQTTProperties.read data pos
        else .ok (MQTTProperties.initializer, pos)) with
      | .error e => .error e
      | .ok (properties, pos) =>
          if (data.drop pos).length = 0 then .error .outOfBounds
          else .ok { header, msgId, MQTTVersion, properties, qoss := data.drop pos }

/-- `MQTTPacket_unsuback`; before MQTT 5 there are no reason codes. -/
def unsuback (MQTTVersion : Nat) (aHeader : UInt8) (data : Bytes) : Except ReadError Unsuback :=
  let header := Header.ofByte aHeader
  match readMsgId data 0 with
  | .error e => .error e
  | .ok (msgId, pos) =>
      if MQTTVersion ≥ 5 then
        match MQTTProperties.read data pos with
        | .error e => .error e
        | .ok (properties, pos) =>
            if (data.drop pos).length = 0 then .error .malformed
            else .ok { header, msgId, MQTTVersion, properties, reasonCodes := data.drop pos }
      else
        .ok { header, msgId, MQTTVersion, properties := MQTTProperties.initializer
              reasonCodes := [] }

/-- `MQTTPacket_header_only` -/
def header_only (aHeader : UInt8) : Header :=
  Header.ofByte aHeader

/-- The call of a function in the table. -/
def PacketConstructor.call (MQTTVersion : Nat) (aHeader : UInt8) (data : Bytes) :
    PacketConstructor → Except ReadError AnyPacket
  | .connack => (MQTTPacket.connack MQTTVersion aHeader data).map .connack
  | .publish => (MQTTPacket.publish MQTTVersion aHeader data).map .publish
  | .ack => (MQTTPacket.ack MQTTVersion aHeader data).map .ack
  | .suback => (MQTTPacket.suback MQTTVersion aHeader data).map .suback
  | .unsuback => (MQTTPacket.unsuback MQTTVersion aHeader data).map .unsuback
  | .header_only => .ok (.header_only (MQTTPacket.header_only aHeader))

end MQTTPacket
end PahoMqtt
