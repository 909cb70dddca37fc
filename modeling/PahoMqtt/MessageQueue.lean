import PahoMqtt.AsyncCommands

/-!
# Queued messages and their records

The entries of the queue of received messages (MQTTPersistence.h), the record
that `MQTTPersistence_persistQueueEntry` writes for one, and
`MQTTPersistence_restoreQueueEntry`, which reads it back without looking where
the buffer ends.
-/

namespace PahoMqtt

open MQTTPacket

namespace HostInt

/-- `*(int*)ptr`, wherever the pointer is. -/
def load (host : HostInt) (buf : Bytes) (pos : Nat) : Except ReadError (Int32 × Nat) :=
  match host.read buf pos with
  | .error _ => .error .outOfBounds
  | .ok res => .ok res

theorem loads_bytes
    (host : HostInt) (n : Int32) :
    Lib.Reader.Reads host.load (host.bytes n) n (fun _ => True) := by
  intro buf pos rest h hrest
  rw [load, host.reads_bytes n h hrest]

end HostInt

namespace MQTTPersistence

/-- `MQTTPersistence_message` -/
structure QueuedMessage where
  struct_version : Nat
  payloadlen : Int32
  payload : Bytes
  qos : Int32
  retained : Int32
  dup : Int32
  msgid : Int32
  properties : Properties
deriving DecidableEq

/-- `MQTTPersistence_qEntry` -/
structure QEntry where
  msg : QueuedMessage
  topicName : Bytes
  topicLen : Int32
  seqno : Nat
deriving DecidableEq

/-- The property list that goes into an MQTT 5 record. -/
def persistedProperties (qe : QEntry) : Properties :=
  if qe.msg.struct_version ≥ 1 then qe.msg.properties else MQTTProperties.initializer

/-- The buffers of `MQTTPersistence_persistQueueEntry`. -/
def queueEntryRecord (host : HostInt) (MQTTVersion : Nat) (qe : QEntry) : Bytes :=
  host.bytes qe.msg.payloadlen ++
    (qe.msg.payload.take qe.msg.payloadlen.toNatClampNeg ++
      (host.bytes qe.msg.qos ++
        (host.bytes qe.msg.retained ++
          (host.bytes qe.msg.dup ++
            (host.bytes qe.msg.msgid ++
              (MQTTAsync.cstring qe.topicName ++
                (host.bytes qe.topicLen ++
                  if MQTTVersion ≥ 5 then
                    MQTTProperties.write (persistedProperties qe)
                  else
                    [])))))))

/-- A string of the record, copied up to its NUL wherever that is. -/
def loadString (buf : Bytes) (pos : Nat) : Except ReadError (Bytes × Nat) :=
  if strlen (buf.drop pos) < buf.length - pos then
    .ok ((buf.drop pos).take (strlen (buf.drop pos)), pos + (strlen (buf.drop pos) + 1))
  else
    .error .outOfBounds

/-- A payload of `data_size` bytes; the allocation of a negative size fails. -/
def loadPayload (data_size : Int32) (buf : Bytes) (pos : Nat) : Except ReadError (Bytes × Nat) :=
  if data_size < 0 then
    .error .malformed
  else if pos + data_size.toNatClampNeg ≤ buf.length then
    .ok ((buf.drop pos).take data_size.toNatClampNeg, pos + data_size.toNatClampNeg)
  else
    .error .outOfBounds

/-- The property list of the record; a list that cannot be read is left empty. -/
def loadProperties (MQTTVersion : Nat) (buf : Bytes) (pos : Nat) : Except ReadError Properties :=
  if MQTTVersion ≥ 5 then
    match MQTTProperties.read buf pos with
    | .ok (properties, _) => .ok properties
    | .error .malformed => .ok MQTTProperties.initializer
    | .error .outOfBounds => .error .outOfBounds
  else
    .ok MQTTProperties.initializer

/-- `MQTTPersistence_restoreQueueEntry`, which returns NULL where this is `malformed`. -/
def restoreQueueEntry (host : HostInt) (buffer : Bytes) (MQTTVersion : Nat) :
    Except ReadError QEntry := do
  let (payloadlen, pos) ← host.load buffer 0
  let (payload, pos) ← loadPayload payloadlen buffer pos
  let (qos, pos) ← host.load buffer pos
  let (retained, pos) ← host.load buffer pos
  let (dup, pos) ← host.load buffer pos
  let (msgid, pos) ← host.load buffer pos
  let (topicName, pos) ← loadString buffer pos
  let (topicLen, pos) ← host.load buffer pos
  let properties ← loadProperties MQTTVersion buffer pos
  return { msg := { struct_version := 1, payloadlen, payload, qos, retained, dup, msgid, properties }
           topicName, topicLen, seqno := 0 }

/-! ### Reading an entry's own record -/

/-- The entry comes back from its record, but for its sequence number. -/
def QEntry.Restorable (host : HostInt) (MQTTVersion : Nat) (qe : QEntry) : Prop :=
  restoreQueueEntry host (queueEntryRecord host MQTTVersion qe) (if MQTTVersion ≥ 5 then 5 else 4) =
    .ok { qe with seqno := 0 }

/-- What `Protocol_processPublication` queues, for a topic without NUL. -/
structure QEntry.WellFormed (MQTTVersion : Nat) (qe : QEntry) : Prop where
  struct_version : qe.msg.struct_version = 1
  payload : qe.msg.payload.length = qe.msg.payloadlen.toNatClampNeg
  nonneg : ¬qe.msg.payloadlen < 0
  topic : (0 : UInt8) ∉ qe.topicName
  survives : MQTTVersion ≥ 5 → MQTTProperties.Survives qe.msg.properties
  none : MQTTVersion < 5 → qe.msg.properties = MQTTProperties.initializer

theorem loadPayload_reads
    {data_size : Int32} {payload : Bytes}
    (hnonneg : ¬data_size < 0)
    (hlen : payload.length = data_size.toNatClampNeg)
    {buf rest : Bytes} {pos : Nat}
    (hpos : pos ≤ buf.length)
    (h : buf.drop pos = payload ++ rest) :
    loadPayload data_size buf pos = .ok (payload, pos + payload.length) := by
  have hroom := congrArg List.length h
  rw [List.length_drop, List.length_append] at hroom
  rw [loadPayload, if_neg hnonneg, if_pos (by omega), h, ← hlen, List.take_left]

theorem loads_cstring
    {s : Bytes}
    (hnul : (0 : UInt8) ∉ s)
    {buf rest : Bytes} {pos : Nat}
    (h : buf.drop pos = MQTTAsync.cstring s ++ rest) :
    loadString buf pos = .ok (s, pos + (MQTTAsync.cstring s).length) := by
  rw [MQTTAsync.cstring_eq hnul, List.append_assoc] at h
  have hlen := congrArg List.length h
  simp only [List.length_drop, List.length_append, List.length_cons, List.length_nil] at hlen
  have hstrlen : strlen (s ++ ([0] ++ rest)) = s.length := MQTTAsync.strlen_append hnul rest
  rw [loadString, h, hstrlen, if_pos (by omega), List.take_left, MQTTAsync.cstring_eq hnul,
    List.length_append]
  rfl

theorem QEntry.WellFormed.restorable
    (host : HostInt) {MQTTVersion : Nat} {qe : QEntry}
    (h : qe.WellFormed MQTTVersion) :
    qe.Restorable host MQTTVersion := by
  rw [Restorable]
  generalize hbuf : queueEntryRecord host MQTTVersion qe = buf
  have hpayloadlen : buf.drop 0 = _ := hbuf.symm
  have hpayload := Lib.Reader.drop_add hpayloadlen
  have htake : qe.msg.payload.take qe.msg.payloadlen.toNatClampNeg = qe.msg.payload :=
    List.take_of_length_le h.payload.le
  rw [htake] at hpayload
  have hqos := Lib.Reader.drop_add hpayload
  have hretained := Lib.Reader.drop_add hqos
  have hdup := Lib.Reader.drop_add hretained
  have hmsgid := Lib.Reader.drop_add hdup
  have htopic := Lib.Reader.drop_add hmsgid
  have htopicLen := Lib.Reader.drop_add htopic
  have hproperties := Lib.Reader.drop_add htopicLen
  have hpos : 0 + (host.bytes qe.msg.payloadlen).length ≤ buf.length := by
    rw [← hbuf, queueEntryRecord, List.length_append]
    omega
  have hlist : ∀ pos, buf.drop pos = (if MQTTVersion ≥ 5 then
      MQTTProperties.write (persistedProperties qe) else []) →
      loadProperties (if MQTTVersion ≥ 5 then 5 else 4) buf pos = .ok qe.msg.properties := by
    intro pos hdrop
    by_cases hversion : MQTTVersion ≥ 5
    · have hprops : persistedProperties qe = qe.msg.properties := by
        rw [persistedProperties, h.struct_version]
        rfl
      rw [if_pos hversion, hprops, ← List.append_nil (MQTTProperties.write _)] at hdrop
      have hread := MQTTProperties.reads_of_survives (h.survives hversion) hdrop trivial
      simp only [loadProperties, if_pos hversion, ge_iff_le, le_refl, if_true, hread]
    · simp only [loadProperties, if_neg hversion, ge_iff_le, Nat.reduceLeDiff, if_false,
        h.none (Nat.not_le.mp hversion)]
  simp only [restoreQueueEntry, bind, Except.bind, pure, Except.pure,
    host.loads_bytes _ hpayloadlen trivial, loadPayload_reads h.nonneg h.payload hpos hpayload,
    host.loads_bytes _ hqos trivial, host.loads_bytes _ hretained trivial,
    host.loads_bytes _ hdup trivial, host.loads_bytes _ hmsgid trivial,
    loads_cstring h.topic htopic, host.loads_bytes _ htopicLen trivial, hlist _ hproperties,
    ← h.struct_version]

/-! ### Topics with a NUL -/

/-- What `Protocol_processPublication` queues of a packet that was read. -/
structure QEntry.Received (MQTTVersion : Nat) (qe : QEntry) : Prop where
  struct_version : qe.msg.struct_version = 1
  payload : qe.msg.payload.length = qe.msg.payloadlen.toNatClampNeg
  nonneg : ¬qe.msg.payloadlen < 0
  topicLen : qe.topicLen = Int32.ofNat qe.topicName.length
  bound : qe.topicName.length < 65536
  survives : MQTTVersion ≥ 5 → MQTTProperties.Survives qe.msg.properties
  none : MQTTVersion < 5 → qe.msg.properties = MQTTProperties.initializer

theorem notMem_take_strlen
    (s : Bytes) :
    (0 : UInt8) ∉ s.take (strlen s) := by
  induction s with
  | nil =>
      exact List.not_mem_nil
  | cons b s ih =>
      rw [strlen]
      by_cases hb : b = 0
      · rw [if_pos hb]
        exact List.not_mem_nil
      · rw [if_neg hb, List.take_succ_cons, List.mem_cons, not_or]
        exact ⟨Ne.symm hb, ih⟩

/-- The entry as its record shows it. -/
def QEntry.cut (qe : QEntry) : QEntry :=
  { qe with topicName := qe.topicName.take (strlen qe.topicName) }

theorem queueEntryRecord_cut
    (host : HostInt) (MQTTVersion : Nat) (qe : QEntry) :
    queueEntryRecord host MQTTVersion qe.cut = queueEntryRecord host MQTTVersion qe := by
  have htopic : MQTTAsync.cstring qe.cut.topicName = MQTTAsync.cstring qe.topicName :=
    MQTTAsync.cstring_eq (notMem_take_strlen qe.topicName)
  rw [queueEntryRecord, htopic]
  rfl

/-- The record has the bytes of the topic before its first NUL only. -/
theorem QEntry.Received.restores_cut
    (host : HostInt) {MQTTVersion : Nat} {qe : QEntry}
    (h : qe.Received MQTTVersion) :
    restoreQueueEntry host (queueEntryRecord host MQTTVersion qe)
      (if MQTTVersion ≥ 5 then 5 else 4) = .ok { qe.cut with seqno := 0 } := by
  have hwell : qe.cut.WellFormed MQTTVersion :=
    { struct_version := h.struct_version
      payload := h.payload
      nonneg := h.nonneg
      topic := notMem_take_strlen qe.topicName
      survives := h.survives
      none := h.none }
  rw [← queueEntryRecord_cut]
  exact hwell.restorable host

/-- An entry comes back from its record exactly if its topic has no NUL. -/
theorem QEntry.Received.restorable_iff
    (host : HostInt) {MQTTVersion : Nat} {qe : QEntry}
    (h : qe.Received MQTTVersion) :
    qe.Restorable host MQTTVersion ↔ (0 : UInt8) ∉ qe.topicName := by
  rw [Restorable, h.restores_cut host, Except.ok.injEq]
  constructor
  · intro heq
    have htopic : qe.topicName.take (strlen qe.topicName) = qe.topicName :=
      congrArg QEntry.topicName heq
    exact htopic ▸ notMem_take_strlen qe.topicName
  · intro hnul
    rw [QEntry.cut, strlen_eq_length hnul, List.take_length]

/-- A message without a payload. -/
def emptyMessage (topicName : Bytes) : QEntry where
  msg :=
    { struct_version := 1, payloadlen := 0, payload := [], qos := 1, retained := 0, dup := 0
      msgid := 1, properties := MQTTProperties.initializer }
  topicName
  topicLen := Int32.ofNat topicName.length
  seqno := 0

theorem received_emptyMessage
    {topicName : Bytes}
    (hbound : topicName.length < 65536) :
    (emptyMessage topicName).Received 4 where
  struct_version := rfl
  payload := rfl
  nonneg := (by decide : ¬(0 : Int32) < 0)
  topicLen := rfl
  bound := hbound
  survives h := absurd h (by decide)
  none _ := rfl

theorem QEntry.restorable_plain_topic :
    (emptyMessage [97, 47, 98]).Restorable .littleEndian 4 :=
  ((received_emptyMessage (by decide)).restorable_iff .littleEndian).mpr (by decide)

/-- The topic `a`, NUL, `b` comes back as `a`, with a length of three bytes. -/
theorem QEntry.restored_topic_cut :
    (emptyMessage [97, 0, 98]).Received 4 ∧
      ¬ (emptyMessage [97, 0, 98]).Restorable .littleEndian 4 := by
  have h : (emptyMessage [97, 0, 98]).Received 4 := received_emptyMessage (by decide)
  refine ⟨h, ?_⟩
  rw [Restorable, h.restores_cut, Except.ok.injEq]
  intro heq
  cases congrArg QEntry.topicName heq

end MQTTPersistence

end PahoMqtt
