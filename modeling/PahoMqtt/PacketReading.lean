import PahoMqtt.SocketBuffer
import PahoMqtt.Packets

/-!
# Reading packets from a socket

`MQTTPacket_Factory` reads the header byte and the remaining length byte by
byte, then the data.  Each call of `recv` may give less than was asked for, or
nothing; the call of the factory is then interrupted, and the next one for the
socket starts from the bytes that its queue holds.
-/

namespace PahoMqtt

/-- What `recv` gives on a socket: the bytes that are on their way, and how many each call takes. -/
structure Incoming where
  unread : Bytes
  pieces : List Nat

/-- `recv`; none is EWOULDBLOCK. -/
def recv (incoming : Incoming) (size : Nat) : Option Bytes × Incoming :=
  if size = 0 then (some [], incoming)
  else
    match incoming.pieces with
    | [] => (none, incoming)
    | piece :: pieces =>
        if piece = 0 ∨ incoming.unread = [] then (none, { incoming with pieces })
        else
          let n := min piece size
          (some (incoming.unread.take n), ⟨incoming.unread.drop n, pieces⟩)

/-- The state that reading depends on: the buffers of all sockets, and the input of one. -/
structure Reading where
  buffers : SocketBuffer
  incoming : Incoming

namespace Socket

/-- `Socket_getch` -/
def getch (r : Reading) (socket : Nat) : (Int × UInt8) × Reading :=
  let ((rc, c), buffers) := r.buffers.getQueuedChar socket
  if rc ≠ TCPSOCKET_INTERRUPTED then ((rc, c), { r with buffers })
  else
    match recv r.incoming 1 with
    | (none, incoming) =>
        ((TCPSOCKET_INTERRUPTED, 0), ⟨buffers.interrupted socket 0, incoming⟩)
    | (some (c :: _), incoming) =>
        ((TCPSOCKET_COMPLETE, c), ⟨buffers.queueChar socket c, incoming⟩)
    | (some [], incoming) => ((SOCKET_ERROR, 0), ⟨buffers, incoming⟩)

/-- The memory of the queue that data is read into. -/
def fill (buffers : SocketBuffer) (socket : Nat) (buf : Bytes) : SocketBuffer :=
  match buffers.find socket with
  | some queue => buffers.write socket { queue with buf }
  | none => { buffers with def_queue := { buffers.def_queue with buf } }

/-- The data that a read leaves in the queue is given up, or kept for the next read. -/
def keep (buffers : SocketBuffer) (socket bytes actual_len : Nat) : SocketBuffer :=
  if actual_len = bytes then buffers.complete socket else buffers.interrupted socket actual_len

/-- `Socket_getdata`: the buffer, and how much of it was read. -/
def getdata (r : Reading) (socket bytes : Nat) : (Option Bytes × Nat) × Reading :=
  if bytes = 0 then
    let buffers := r.buffers.complete socket
    ((some buffers.def_queue.buf, 0), { r with buffers })
  else
    let ((buf, actual_len), buffers) := r.buffers.getQueuedData socket bytes
    match recv r.incoming (bytes - actual_len) with
    | (none, incoming) =>
        ((some buf, actual_len), ⟨keep buffers socket bytes actual_len, incoming⟩)
    | (some [], incoming) => ((none, actual_len), ⟨buffers, incoming⟩)
    | (some data, incoming) =>
        let buf := SocketBuffer.overwrite buf actual_len data
        let actual_len := actual_len + data.length
        ((some buf, actual_len),
          ⟨keep (fill buffers socket buf) socket bytes actual_len, incoming⟩)

end Socket

namespace MQTTPacket

/-- The functions in `new_packets`. -/
inductive PacketConstructor where
  | connack
  | publish
  | ack
  | suback
  | unsuback
  | header_only
deriving DecidableEq, Repr

/-- `new_packets`, indexed by packet code. -/
def new_packets : List (Option PacketConstructor) :=
  [none, none, some .connack, some .publish, some .ack, some .ack, some .ack, some .ack, none,
    some .suback, none, some .unsuback, some .header_only, some .header_only, some .ack,
    some .ack]

/-- The constructor that `MQTTPacket_Factory` calls for a header byte. -/
def constructorOf (MQTTVersion : Nat) (byte : UInt8) : Option PacketConstructor :=
  let ptype := byte.toNat / 16
  if ptype < PacketType.connect.code ∨
      (MQTTVersion < 5 ∧ ptype ≥ PacketType.disconnect.code) ∨
      (MQTTVersion ≥ 5 ∧ ptype > PacketType.auth.code) then
    none
  else (new_packets[ptype]?).join

/-- The loop of `MQTTPacket_decode`, with the number of bytes that may still be read. -/
def decodeLoop (socket : Nat) : (tries multiplier value : Nat) → Reading → (Int × Nat) × Reading
  | 0, _, value, r => ((SOCKET_ERROR, value), r)
  | tries + 1, multiplier, value, r =>
      match Socket.getch r socket with
      | ((rc, c), r) =>
          if rc ≠ TCPSOCKET_COMPLETE then ((rc, value), r)
          else
            let value := value + c.toNat % 128 * multiplier
            if c.toNat / 128 = 1 then decodeLoop socket tries (multiplier * 128) value r
            else ((rc, value), r)

def MAX_NO_OF_REMAINING_LENGTH_BYTES : Nat := 4

/-- `MQTTPacket_decode` -/
def decode (r : Reading) (socket : Nat) : (Int × Nat) × Reading :=
  decodeLoop socket MAX_NO_OF_REMAINING_LENGTH_BYTES 1 0 r

/-- A packet that the factory has completed: the constructor, and the arguments of its call. -/
structure Completed where
  passed_to : Option PacketConstructor
  MQTTVersion : Nat
  byte : UInt8
  data : Bytes
deriving DecidableEq

/-- The part of `MQTTPacket_Factory` that reads, up to the call of the constructor. -/
def readPacket (MQTTVersion : Nat) (r : Reading) (socket : Nat) :
    (Int × Option Completed) × Reading :=
  match Socket.getch r socket with
  | ((rc, byte), r) =>
      if rc ≠ TCPSOCKET_COMPLETE then ((rc, none), r)
      else
        match decode r socket with
        | ((rc, remaining_length), r) =>
            if rc ≠ TCPSOCKET_COMPLETE then ((rc, none), r)
            else
              match Socket.getdata r socket remaining_length with
              | ((data, actual_len), r) =>
                  if remaining_length ≠ 0 ∧ data = none then ((SOCKET_ERROR, none), r)
                  else if actual_len < remaining_length then
                    ((TCPSOCKET_INTERRUPTED, none), r)
                  else
                    ((TCPSOCKET_COMPLETE, some
                      ⟨constructorOf MQTTVersion byte, MQTTVersion, byte,
                        (data.getD []).take remaining_length⟩), r)

end MQTTPacket
end PahoMqtt
