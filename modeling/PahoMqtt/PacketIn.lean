import PahoMqtt.Outbound

/-!
# Receiving packets

`MQTTPacket_Factory`, once the bytes of a packet have arrived, and the part of
`MQTTAsync_cycle` that passes a packet of an in-flight exchange on to its
handler.  The factory stores a QoS 2 PUBLISH, and the cycle goes on with
whatever packet it returns.

A client then steps by an action of its own, or by a cycle over received bytes;
every step has an environment of its own.
-/

namespace PahoMqtt

open MQTTPersistence

namespace MQTTPacket

/-- The entry of `new_packets`, for the types that are part of an exchange. -/
def newPacket (MQTTVersion : Nat) (byte : UInt8) (data : Bytes) : Except ReadError (Option Packet) :=
  let ptype := (Header.ofByte byte).type
  if MQTTVersion < 5 ∧ PacketType.disconnect.code ≤ ptype.code then
    .ok none
  else
    match ptype with
    | .publish => (publish MQTTVersion byte data).map (fun pack => some (.publish pack))
    | .puback | .pubrec | .pubrel | .pubcomp | .disconnect | .auth =>
        (ack MQTTVersion byte data).map (fun pack => some (.ack pack))
    | _ => .ok none

/--
`MQTTPacket_Factory` of a header byte and the data behind the remaining length:
its `error`, and the packet, which it returns in any case.
-/
def Factory (env : Env) (net : Net) (MQTTVersion : Nat) (byte : UInt8) (data : Bytes) :
    Int × Option Packet × Net :=
  match newPacket MQTTVersion byte data with
  | .error _ => (SOCKET_ERROR, none, net)
  | .ok none => (TCPSOCKET_COMPLETE, none, net)
  | .ok (some (.ack pack)) => (TCPSOCKET_COMPLETE, some (.ack pack), net)
  | .ok (some (.publish pack)) =>
      if pack.header.qos = 2 then
        let (error, net) := putPacket env net (byte :: encode data.length) [data]
          .publish pack.msgId true MQTTVersion
        (error, some (.publish pack), net)
      else
        (TCPSOCKET_COMPLETE, some (.publish pack), net)

end MQTTPacket

/-- `MQTTAsync_cycle` over a packet that has arrived; the handler's code replaces the factory's. -/
def MQTTAsync.cycle (env : Env) (client : Clients) (byte : UInt8) (data : Bytes) : Int × Clients :=
  match MQTTPacket.Factory env client.net client.MQTTVersion byte data with
  | (error, none, net) => (error, { client with net })
  | (_, some pack, net) => { client with net }.handle env pack

/-- What a run of a client consists of, its packets still in bytes. -/
inductive CycleEvent where
  | act (action : Action)
  | receive (byte : UInt8) (data : Bytes)

/-- An event, and the environment in which it happens. -/
structure CycleStep where
  env : Env
  event : CycleEvent

namespace Clients

/-- The outcome of an event, with its return code. -/
def cycleOutcome (client : Clients) (e : CycleStep) : Int × Clients :=
  match e.event with
  | .act action => client.start.act e.env action
  | .receive byte data => MQTTAsync.cycle e.env client.start byte data

def CycleAdmissible (client : Clients) (e : CycleStep) : Prop :=
  match e.event with
  | .act action => action.Admissible client
  | .receive _ _ => True

/-- One step of a client. -/
def Cycles (client : Clients) (e : CycleStep) (client' : Clients) : Prop :=
  client.CycleAdmissible e ∧ client' = (client.cycleOutcome e).2

end Clients

/-! ### What the factory does -/

namespace MQTTPacket

theorem publish_MQTTVersion
    {MQTTVersion : Nat} {byte : UInt8} {data : Bytes} {pack : Publish}
    (h : publish MQTTVersion byte data = .ok pack) :
    pack.MQTTVersion = MQTTVersion ∧ pack.header = Header.ofByte byte := by
  unfold publish at h
  dsimp only at h
  split at h
  · cases h
  · split at h
    · cases h
    · split at h
      · cases h
      · cases h
        exact ⟨rfl, rfl⟩

theorem ack_MQTTVersion
    {MQTTVersion : Nat} {byte : UInt8} {data : Bytes} {pack : Ack}
    (h : ack MQTTVersion byte data = .ok pack) :
    pack.MQTTVersion = MQTTVersion ∧ pack.header = Header.ofByte byte := by
  unfold ack at h
  dsimp only at h
  split at h
  · cases h
  · split at h
    · cases h
    · split at h
      · cases h
      · cases h
        exact ⟨rfl, rfl⟩

theorem newPacket_cases
    (MQTTVersion : Nat) (byte : UInt8) (data : Bytes) :
    newPacket MQTTVersion byte data = .ok none ∨
      newPacket MQTTVersion byte data =
        (publish MQTTVersion byte data).map (fun pack => some (.publish pack)) ∨
      newPacket MQTTVersion byte data =
        (ack MQTTVersion byte data).map (fun pack => some (.ack pack)) := by
  unfold newPacket
  dsimp only
  split
  · exact .inl rfl
  · split
    · exact .inr (.inl rfl)
    all_goals first
      | exact .inl rfl
      | exact .inr (.inr rfl)

/-- A packet of the factory was read from the bytes. -/
theorem newPacket_eq_some
    {MQTTVersion : Nat} {byte : UInt8} {data : Bytes} {pack : Packet}
    (h : newPacket MQTTVersion byte data = .ok (some pack)) :
    (∃ p, pack = .publish p ∧ publish MQTTVersion byte data = .ok p) ∨
      ∃ a, pack = .ack a ∧ ack MQTTVersion byte data = .ok a := by
  rcases newPacket_cases MQTTVersion byte data with hnone | hpublish | hack
  · rw [hnone] at h
    cases h
  · rw [hpublish] at h
    cases hp : publish MQTTVersion byte data with
    | error e =>
        rw [hp] at h
        cases h
    | ok p =>
        rw [hp] at h
        cases h
        exact .inl ⟨p, rfl, rfl⟩
  · rw [hack] at h
    cases ha : ack MQTTVersion byte data with
    | error e =>
        rw [ha] at h
        cases h
    | ok a =>
        rw [ha] at h
        cases h
        exact .inr ⟨a, rfl, rfl⟩

/-- It has the version it was asked for. -/
theorem newPacket_MQTTVersion
    {MQTTVersion : Nat} {byte : UInt8} {data : Bytes} {pack : Packet}
    (h : newPacket MQTTVersion byte data = .ok (some pack)) :
    pack.MQTTVersion = MQTTVersion := by
  rcases newPacket_eq_some h with ⟨p, rfl, hp⟩ | ⟨a, rfl, ha⟩
  · exact (publish_MQTTVersion hp).1
  · exact (ack_MQTTVersion ha).1

/-- The packet of the factory is the one of the table. -/
theorem Factory_packet
    {env : Env} {net net' : Net} {MQTTVersion : Nat} {byte : UInt8} {data : Bytes} {error : Int}
    {pack : Packet}
    (h : Factory env net MQTTVersion byte data = (error, some pack, net')) :
    newPacket MQTTVersion byte data = .ok (some pack) := by
  unfold Factory at h
  split at h
  · cases h
  · cases h
  next hnew =>
    cases h
    exact hnew
  next hnew =>
    split at h <;>
    · cases h
      exact hnew

end MQTTPacket

end PahoMqtt
