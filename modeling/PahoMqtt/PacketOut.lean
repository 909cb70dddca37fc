import PahoMqtt.Persistence

/-!
# Sending packets

`MQTTPacket_send` and `MQTTPacket_sends` with the functions that use them for
publications and acknowledgements.  The record of a packet is stored first, by
the same call that then starts the write; the return code of the write replaces
that of the store.

Each function comes with what it adds to the log, which is all that a run of
the client can tell about it apart from the store.
-/

namespace PahoMqtt
namespace MQTTPacket

open MQTTPersistence

/-- The message id at the front of a buffer. -/
def peekMsgId (buf : Bytes) : MsgId :=
  match readMsgId buf 0 with
  | .ok (msgId, _) => msgId
  | .error _ => 0

/-- The fixed header of a packet with `total` more bytes. -/
def fixedHeader (header : Header) (total : Nat) : Bytes :=
  header.toByte :: encode total

/-- Log the start of a write; a socket with an unfinished write does not take another one. -/
def logHanded (before after : Net) (header : Header) (msgId : MsgId) (rc : Int) : Net :=
  if Socket.noPendingWrites before then
    after.emit (.handed header msgId rc before.persistence)
  else
    after

/-- The net after `MQTTPacket_send` has stored a PUBREL. -/
def stored (env : Env) (net : Net) (header : Header) (buffer : Bytes) (MQTTVersion : Nat) : Net :=
  if header.type = .pubrel then
    (putPacket env net (fixedHeader header buffer.length) [buffer] header.type
      (peekMsgId buffer) false MQTTVersion).2
  else
    net

/-- `MQTTPacket_send` -/
def send (env : Env) (net : Net) (header : Header) (buffer : Bytes) (MQTTVersion : Nat) :
    Int × Net :=
  let net := stored env net header buffer MQTTVersion
  let (rc, _, net') := WebSocket.putdatas env net
    (fixedHeader header buffer.length).length ⟨[buffer], ⟨0, 0, 0, 0⟩⟩
  (rc, logHanded net net' header (peekMsgId buffer) rc)

/-- The id that `MQTTPacket_sends` reads from the third buffer. -/
def sendsMsgId (header : Header) (bufs : PacketBuffers) : MsgId :=
  if header.type = .publish ∧ header.qos ≠ 0 then peekMsgId (bufs.buffers.getD 2 []) else 0

/-- The net after `MQTTPacket_sends` has stored a PUBLISH of QoS 1 or 2. -/
def storeds (env : Env) (net : Net) (header : Header) (bufs : PacketBuffers) (MQTTVersion : Nat) :
    Net :=
  if header.type = .publish ∧ header.qos ≠ 0 then
    (putPacket env net (fixedHeader header (bufs.buffers.map List.length).sum) bufs.buffers
      header.type (sendsMsgId header bufs) false MQTTVersion).2
  else
    net

/-- `MQTTPacket_sends`: the return code and the buffers as they are left. -/
def sends (env : Env) (net : Net) (header : Header) (bufs : PacketBuffers) (MQTTVersion : Nat) :
    Int × PacketBuffers × Net :=
  let net := storeds env net header bufs MQTTVersion
  let (rc, bufs', net') := WebSocket.putdatas env net
    (fixedHeader header (bufs.buffers.map List.length).sum).length bufs
  (rc, bufs', logHanded net net' header (sendsMsgId header bufs) rc)

/-! ### Acknowledgements -/

def ackHeader (type : PacketType) (dup : Bool) : Header where
  type := type
  dup := dup
  qos := if type = .pubrel then 1 else 0
  retain := false

/-- `MQTTPacket_send_ack` -/
def send_ack (env : Env) (net : Net) (MQTTVersion : Nat) (type : PacketType) (msgid : MsgId)
    (dup : Bool) : Int × Net :=
  send env net (ackHeader type dup) (writeInt msgid.toNat) MQTTVersion

def send_puback (env : Env) (net : Net) (MQTTVersion : Nat) (msgid : MsgId) : Int × Net :=
  send_ack env net MQTTVersion .puback msgid false

def send_pubrec (env : Env) (net : Net) (MQTTVersion : Nat) (msgid : MsgId) : Int × Net :=
  send_ack env net MQTTVersion .pubrec msgid false

def send_pubrel (env : Env) (net : Net) (MQTTVersion : Nat) (msgid : MsgId) (dup : Bool) :
    Int × Net :=
  send_ack env net MQTTVersion .pubrel msgid dup

def send_pubcomp (env : Env) (net : Net) (MQTTVersion : Nat) (msgid : MsgId) : Int × Net :=
  send_ack env net MQTTVersion .pubcomp msgid false

/-! ### Publications -/

def publishHeader (dup : Bool) (qos : Nat) (retained : Bool) : Header where
  type := .publish
  dup := dup
  qos := Fin.ofNat 4 qos
  retain := retained

/-- The buffer between the topic and the payload. -/
def publishVariable (pack : Publish) (qos : Nat) : Bytes :=
  (if qos > 0 then writeInt pack.msgId.toNat else []) ++
    (if pack.MQTTVersion ≥ 5 then MQTTProperties.write pack.properties else [])

/-- The buffers of `MQTTPacket_send_publish`; without an id and properties there are three. -/
def publishBuffers (pack : Publish) (qos : Nat) : List Bytes :=
  let topic := pack.topic.take (strlen pack.topic)
  if qos > 0 ∨ pack.MQTTVersion ≥ 5 then
    [writeInt (strlen pack.topic), topic, publishVariable pack qos, pack.payload]
  else
    [writeInt (strlen pack.topic), topic, pack.payload]

/--
`MQTTPacket_send_publish`: the return code and the publication with its topic
and payload as the socket layer leaves them in memory.
-/
def send_publish (env : Env) (net : Net) (pack : Publish) (dup : Bool) (qos : Nat)
    (retained : Bool) : Int × Publish × Net :=
  let bufs := publishBuffers pack qos
  let (rc, left, net) :=
    sends env net (publishHeader dup qos retained) ⟨bufs, pack.mask⟩ pack.MQTTVersion
  (rc,
    { pack with
      topic := left.buffers.getD 1 [] ++ pack.topic.drop (strlen pack.topic)
      payload := left.buffers.getD (bufs.length - 1) []
      mask := left.mask },
    net)

/-! ### Reading ids back -/

theorem peekMsgId_writeInt
    (msgId : MsgId) (rest : Bytes) :
    peekMsgId (writeInt msgId.toNat ++ rest) = msgId := by
  have hlt : msgId.toNat < 65536 := msgId.toNat_lt
  have hread : readInt (writeInt msgId.toNat ++ rest) 0 = .ok (msgId.toNat, 2) :=
    readInt_writeInt hlt rfl
  simp [peekMsgId, readMsgId, hread]

@[simp] theorem peekMsgId_ack
    (msgId : MsgId) :
    peekMsgId (writeInt msgId.toNat) = msgId := by
  simpa using peekMsgId_writeInt msgId []

theorem sendsMsgId_publish
    (pack : Publish) (dup : Bool) {qos : Nat} (retained : Bool) (mask : Mask)
    (hqos : qos = 1 ∨ qos = 2) :
    sendsMsgId (publishHeader dup qos retained) ⟨publishBuffers pack qos, mask⟩ = pack.msgId := by
  have hpos : qos > 0 := by omega
  have hfour : ¬4 ∣ qos := by omega
  simp [sendsMsgId, publishHeader, publishBuffers, publishVariable, hpos, hfour,
    peekMsgId_writeInt]

/-! ### The log of a send -/

theorem logHanded_log
    (before after : Net) (header : Header) (msgId : MsgId) (rc : Int) :
    (logHanded before after header msgId rc).log =
      after.log ++
        if Socket.noPendingWrites before then [.handed header msgId rc before.persistence]
        else [] := by
  unfold logHanded
  split <;> simp [Net.emit]

/-- The store is written before the write is started, and not by it. -/
theorem send_persistence
    (env : Env) (net : Net) (header : Header) (buffer : Bytes) (MQTTVersion : Nat) :
    (send env net header buffer MQTTVersion).2.persistence =
      (stored env net header buffer MQTTVersion).persistence := by
  unfold send logHanded
  dsimp only
  split <;> exact (WebSocket.putdatas_same env _ _ _).persistence

theorem send_log
    (env : Env) (net : Net) (header : Header) (buffer : Bytes) (MQTTVersion : Nat) :
    (send env net header buffer MQTTVersion).2.log =
      (stored env net header buffer MQTTVersion).log ++
        if Socket.noPendingWrites net then
          [.handed header (peekMsgId buffer) (send env net header buffer MQTTVersion).1
            (stored env net header buffer MQTTVersion).persistence]
        else [] := by
  have hpending : Socket.noPendingWrites (stored env net header buffer MQTTVersion) =
      Socket.noPendingWrites net := by
    unfold stored
    split
    · simp only [Socket.noPendingWrites, (putPacket_socket env net _ _ _ _ _ _).2]
    · rfl
  unfold send
  dsimp only
  rw [logHanded_log, (WebSocket.putdatas_same env _ _ _).log, hpending]

theorem sends_persistence
    (env : Env) (net : Net) (header : Header) (bufs : PacketBuffers) (MQTTVersion : Nat) :
    (sends env net header bufs MQTTVersion).2.2.persistence =
      (storeds env net header bufs MQTTVersion).persistence := by
  unfold sends logHanded
  dsimp only
  split <;> exact (WebSocket.putdatas_same env _ _ _).persistence

theorem sends_log
    (env : Env) (net : Net) (header : Header) (bufs : PacketBuffers) (MQTTVersion : Nat) :
    (sends env net header bufs MQTTVersion).2.2.log =
      (storeds env net header bufs MQTTVersion).log ++
        if Socket.noPendingWrites net then
          [.handed header (sendsMsgId header bufs) (sends env net header bufs MQTTVersion).1
            (storeds env net header bufs MQTTVersion).persistence]
        else [] := by
  have hpending : Socket.noPendingWrites (storeds env net header bufs MQTTVersion) =
      Socket.noPendingWrites net := by
    unfold storeds
    split
    · simp only [Socket.noPendingWrites, (putPacket_socket env net _ _ _ _ _ _).2]
    · rfl
  unfold sends
  dsimp only
  rw [logHanded_log, (WebSocket.putdatas_same env _ _ _).log, hpending]

/-! ### A store that works -/

/-- Sending an acknowledgement stores the record of a PUBREL and nothing else. -/
theorem send_pubrel_works
    {env : Env} {net : Net} {store : Store}
    (hworks : StoreWorks env)
    (hstore : net.persistence = some store)
    (MQTTVersion : Nat) (msgid : MsgId) (dup : Bool) :
    ∃ record, (send_pubrel env net MQTTVersion msgid dup).2.persistence =
      some (putRecord store (putStem .pubrel false MQTTVersion) msgid record) := by
  have htype : (ackHeader .pubrel dup).type = .pubrel := rfl
  unfold send_pubrel send_ack
  rw [send_persistence, stored, if_pos htype, putPacket_works hworks hstore, peekMsgId_ack]
  exact ⟨_, rfl⟩

theorem send_persistence_other
    (env : Env) (net : Net) (header : Header) (buffer : Bytes) (MQTTVersion : Nat)
    (htype : header.type ≠ .pubrel) :
    (send env net header buffer MQTTVersion).2.persistence = net.persistence := by
  rw [send_persistence, stored, if_neg htype]

/-- The record of a PUBLISH of QoS 1 or 2: the packet before it is masked. -/
theorem send_publish_works
    {env : Env} {net : Net} {store : Store}
    (hworks : StoreWorks env)
    (hstore : net.persistence = some store)
    (pack : Publish) (dup : Bool) {qos : Nat} (retained : Bool)
    (hqos : qos = 1 ∨ qos = 2) :
    (send_publish env net pack dup qos retained).2.2.persistence =
      some (putRecord store (putStem .publish false pack.MQTTVersion) pack.msgId
        (callBeforeWrite env net.calls
          (fixedHeader (publishHeader dup qos retained)
            ((publishBuffers pack qos).map List.length).sum :: publishBuffers pack qos)).2.flatten) := by
  have hheader : (publishHeader dup qos retained).qos ≠ 0 := by
    rcases hqos with rfl | rfl <;> simp [publishHeader]
  have htype : (publishHeader dup qos retained).type = .publish := rfl
  have hid := sendsMsgId_publish pack dup retained pack.mask hqos
  unfold send_publish
  dsimp only
  rw [sends_persistence, storeds, if_pos ⟨htype, hheader⟩, putPacket_works hworks hstore, hid]
  rfl

theorem send_publish_qos0_persistence
    (env : Env) (net : Net) (pack : Publish) (dup : Bool) (retained : Bool) :
    (send_publish env net pack dup 0 retained).2.2.persistence = net.persistence := by
  have hheader : (publishHeader dup 0 retained).qos = 0 := rfl
  unfold send_publish
  dsimp only
  rw [sends_persistence, storeds, if_neg (by simp [hheader])]

/-- Storing a record adds no more to the log than that it was stored. -/
theorem putPacket_logs
    {P : Output → Prop}
    (env : Env) (net : Net) (buf0 : Bytes) (buffers : List Bytes) (htype : PacketType)
    (msgId : MsgId) (MQTTVersion : Nat)
    (hput : ∀ rc, P (.putPacket htype msgId false rc)) :
    Net.Logs P net (putPacket env net buf0 buffers htype msgId false MQTTVersion).2 := by
  refine ⟨_, putPacket_log env net _ _ _ _ _ _, ?_⟩
  intro o ho
  split at ho
  · obtain rfl := List.mem_singleton.mp ho
    exact hput _
  · cases ho

/-- What a sent packet adds to the log: the storing of its record, and the start of its write. -/
theorem send_logs
    {P : Output → Prop}
    (env : Env) (net : Net) (header : Header) (buffer : Bytes) (MQTTVersion : Nat)
    (hput : ∀ rc, header.type = .pubrel → P (.putPacket header.type (peekMsgId buffer) false rc))
    (hhanded : ∀ rc store, P (.handed header (peekMsgId buffer) rc store)) :
    Net.Logs P net (send env net header buffer MQTTVersion).2 := by
  have hstored : Net.Logs P net (stored env net header buffer MQTTVersion) := by
    unfold stored
    split
    next htype => exact putPacket_logs env net _ _ _ _ _ fun rc => hput rc htype
    · exact Net.Logs.refl net
  refine hstored.trans ⟨_, send_log env net header buffer MQTTVersion, ?_⟩
  intro o ho
  split at ho
  · obtain rfl := List.mem_singleton.mp ho
    exact hhanded _ _
  · cases ho

theorem sends_logs
    {P : Output → Prop}
    (env : Env) (net : Net) (header : Header) (bufs : PacketBuffers) (MQTTVersion : Nat)
    (hput : ∀ rc, header.type = .publish ∧ header.qos ≠ 0 →
      P (.putPacket header.type (sendsMsgId header bufs) false rc))
    (hhanded : ∀ rc store, P (.handed header (sendsMsgId header bufs) rc store)) :
    Net.Logs P net (sends env net header bufs MQTTVersion).2.2 := by
  have hstored : Net.Logs P net (storeds env net header bufs MQTTVersion) := by
    unfold storeds
    split
    next htype => exact putPacket_logs env net _ _ _ _ _ fun rc => hput rc htype
    · exact Net.Logs.refl net
  refine hstored.trans ⟨_, sends_log env net header bufs MQTTVersion, ?_⟩
  intro o ho
  split at ho
  · obtain rfl := List.mem_singleton.mp ho
    exact hhanded _ _
  · cases ho

end MQTTPacket
end PahoMqtt
