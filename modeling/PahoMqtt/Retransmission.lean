import PahoMqtt.ClientSteps
import PahoMqtt.Lib.Runs
import PahoMqtt.WebSocketFrames

/-!
# Publications that are sent again over a WebSocket

A publication of QoS 1 or 2 is sent again by `MQTTProtocol_retries` from the
memory that it was sent from before.  Where no earlier transmission of it was
interrupted, the data in that memory is not masked, and the frame carries the
same packet with the dup flag.  After an interruption the data stays masked, with
the key remembered: the topic is then masked a second time, and the id and the
properties, which are written anew, are not masked at all.
-/

namespace PahoMqtt
namespace MQTTProtocol

open MQTTPacket

/-! ### What is put on the socket -/

/-- The bytes of a publication's packet. -/
def publishBytes (pack : Publish) (dup : Bool) (qos : Nat) (retained : Bool) : Bytes :=
  let buffers := publishBuffers pack qos
  fixedHeader (publishHeader dup qos retained) (WebSocket.totalLength buffers) ++ buffers.flatten

/-- What `MQTTPacket_send_publish` gives to the socket. -/
def publishFrame (env : Env) (net : Net) (pack : Publish) (dup : Bool) (qos : Nat)
    (retained : Bool) : Bytes :=
  let header := publishHeader dup qos retained
  let bufs : PacketBuffers := ⟨publishBuffers pack qos, pack.mask⟩
  (WebSocket.putFrame env (storeds env net header bufs pack.MQTTVersion)
    (fixedHeader header (WebSocket.totalLength bufs.buffers)) bufs).2.flatten

/-- `retryMessage` sends the publication. -/
def PublishDue (retryInterval now : Int) (regardless : Bool) (m : Messages) : Prop :=
  (regardless = true ∨ now - m.lastTouch > max retryInterval 10 * 1000) ∧
    (m.qos = 1 ∨ (m.qos = 2 ∧ m.nextMessageType = some .pubrec))

instance (retryInterval now : Int) (regardless : Bool) (m : Messages) :
    Decidable (PublishDue retryInterval now regardless m) :=
  inferInstanceAs (Decidable ((_ ∨ _) ∧ (_ ∨ (_ ∧ _))))

/-- What `retryMessage` gives to the socket of a publication. -/
def retryFrame (env : Env) (retryInterval now : Int) (regardless : Bool) (net : Net)
    (m : Messages) : Option Bytes :=
  if PublishDue retryInterval now regardless m then
    m.publish.map fun p => publishFrame env net (retryPublish m p) true m.qos m.retain
  else none

/-- The messages that `retryLoop` sends publications of, each as it was before, with the frames. -/
def retryLoopFrames (env : Env) (retryInterval now : Int) (regardless connected : Bool) :
    (good : Bool) → Net → List Messages → List (Messages × Bytes)
  | _, _, [] => []
  | good, net, m :: msgs =>
      if connected ∧ good ∧ Socket.noPendingWrites net then
        let (_, good, net') := retryMessage env retryInterval now regardless net m
        ((retryFrame env retryInterval now regardless net m).map (m, ·)).toList ++
          retryLoopFrames env retryInterval now regardless connected good net' msgs
      else []

/-- The publications that `retries` sends. -/
def retriesFrames (env : Env) (now : Int) (client : Clients) (regardless : Bool) :
    List (Messages × Bytes) :=
  if !regardless ∧ client.retryInterval ≤ 0 then []
  else
    retryLoopFrames env client.retryInterval now regardless client.connected client.good
      client.net client.outboundMsgs

/-- A frame of masked data, which is this packet. -/
def UnmasksTo (frame packet : Bytes) : Prop :=
  ∃ (key : Lib.FrameKey) (header : Lib.FrameHeader),
    header.fin = true ∧ header.opcode = WebSocket.OP_BINARY ∧ header.key = some key ∧
    header.len = packet.length ∧ header.form = Lib.LengthForm.shortest header.len ∧
    frame = header.bytes ++ Lib.applyKey key 0 packet

/-! ### Runs -/

/-- What concerns a message that was sent: it is sent again, or anything else happens. -/
inductive ResendEvent where
  | retries (now : Int) (regardless : Bool)
  | elsewhere (client : Clients)

/-- What a retry sends of a message stays. -/
structure SameSend (m m' : Messages) : Prop where
  qos : m'.qos = m.qos
  retain : m'.retain = m.retain
  msgid : m'.msgid = m.msgid
  MQTTVersion : m'.MQTTVersion = m.MQTTVersion
  properties : m'.properties = m.properties
  publish : m'.publish = m.publish

/-- The message with this id is left alone or removed, and the client has a WebSocket. -/
structure Undisturbed (msgid : MsgId) (client client' : Clients) : Prop where
  messages : ∀ m' ∈ client'.outboundMsgs, m'.msgid = msgid →
    ∃ m ∈ client.outboundMsgs, SameSend m m'
  websocket : client'.net.websocket = true

def ResendStep (env : Env) (msgid : MsgId) (client : Clients) (e : ResendEvent)
    (client' : Clients) : Prop :=
  match e with
  | .retries now regardless => client' = retries env now client regardless
  | .elsewhere other => client' = other ∧ Undisturbed msgid client other

/-- The publications that a step sends. -/
def resentFrames (env : Env) (client : Clients) : ResendEvent → List (Messages × Bytes)
  | .retries now regardless => retriesFrames env now client regardless
  | .elsewhere _ => []

def noMask : Mask := ⟨0, 0, 0, 0⟩

/-- The message is not sent again while a key is remembered for its data. -/
def ResendsClear (env : Env) (msgid : MsgId) (client : Clients) (e : ResendEvent) : Prop :=
  ∀ sent ∈ resentFrames env client e, sent.1.msgid = msgid →
    ∀ p ∈ sent.1.publish, p.mask = noMask

instance (env : Env) (msgid : MsgId) (client : Clients) (e : ResendEvent) :
    Decidable (ResendsClear env msgid client e) :=
  inferInstanceAs (Decidable (∀ sent ∈ resentFrames env client e, _ → ∀ p ∈ sent.1.publish, _))

/-! ### A transmission of data that is not masked -/

theorem UnmasksTo.of_fresh
    {opcode : Nat} {fresh : Mask} {buf0 : Bytes} {bufs : PacketBuffers}
    (hopcode : opcode = WebSocket.OP_BINARY)
    (hmask : bufs.mask.b₀ = 0)
    (hlen : buf0.length + WebSocket.totalLength bufs.buffers < 2 ^ 63)
    (hheader : buf0.length + WebSocket.calculateFrameHeaderSize
      (buf0.length + WebSocket.totalLength bufs.buffers) < 2 ^ 31) :
    UnmasksTo ((WebSocket.buildFrameData opcode true fresh buf0 bufs).1 ++
      (WebSocket.buildFrameData opcode true fresh buf0 bufs).2.buffers.flatten)
      (buf0 ++ bufs.buffers.flatten) := by
  subst hopcode
  have hlength : (buf0 ++ bufs.buffers.flatten).length =
      buf0.length + WebSocket.totalLength bufs.buffers := by
    rw [List.length_append, WebSocket.totalLength_eq]
  refine ⟨fresh.key, WebSocket.sentHeader WebSocket.OP_BINARY true _ fresh (by decide) hlen,
    rfl, rfl, rfl, hlength.symm, rfl, ?_⟩
  rw [WebSocket.buildFrameData_fresh _ fresh buf0 hmask hheader, WebSocket.maskBuffers_flatten,
    Lib.applyKey_append, Nat.zero_add, ← WebSocket.frameHeader_bytes, List.append_assoc]

theorem storeds_websocket
    (env : Env) (net : Net) (header : Header) (bufs : PacketBuffers) (MQTTVersion : Nat) :
    (storeds env net header bufs MQTTVersion).websocket = net.websocket := by
  unfold storeds
  split
  · exact (MQTTPersistence.putPacket_socket env net _ _ _ _ _ _).1
  · rfl

/-- Data that is not masked goes out as the packet. -/
theorem publishFrame_unmasks
    (env : Env) {net : Net}
    (hws : net.websocket = true)
    (pack : Publish) (dup : Bool) (qos : Nat) (retained : Bool)
    (hmask : pack.mask = noMask)
    (hsize : (publishBytes pack dup qos retained).length < 2 ^ 63) :
    UnmasksTo (publishFrame env net pack dup qos retained)
      (publishBytes pack dup qos retained) := by
  have hlen : (fixedHeader (publishHeader dup qos retained)
      (WebSocket.totalLength (publishBuffers pack qos))).length +
        WebSocket.totalLength (publishBuffers pack qos) < 2 ^ 63 := by
    rw [publishBytes, List.length_append, ← WebSocket.totalLength_eq] at hsize
    exact hsize
  have hheader := WebSocket.fixedHeader_fits (publishHeader dup qos retained)
    ((fixedHeader (publishHeader dup qos retained)
      (WebSocket.totalLength (publishBuffers pack qos))).length +
        WebSocket.totalLength (publishBuffers pack qos))
    (lt_of_le_of_lt (Nat.le_add_left _ _) hlen)
  have hframe : ∀ (net : Net) (buf0 : Bytes) (bufs : PacketBuffers), net.websocket = true →
      (WebSocket.putFrame env net buf0 bufs).2.flatten =
        (WebSocket.buildFrameData WebSocket.OP_BINARY true (env.rand net.calls) buf0 bufs).1 ++
          (WebSocket.buildFrameData WebSocket.OP_BINARY true (env.rand net.calls) buf0
            bufs).2.buffers.flatten := by
    intro net buf0 bufs hws
    rw [WebSocket.putFrame, if_pos hws]
    dsimp only
    split <;> rfl
  rw [publishFrame, publishBytes]
  dsimp only
  rw [hframe _ _ _ ((storeds_websocket env net _ _ _).trans hws)]
  exact UnmasksTo.of_fresh rfl (by rw [hmask]; rfl) hlen hheader

/-- When the buffers are not masked and no key is remembered, they are as they were before. -/
theorem putdatas_clear
    (env : Env) (net : Net) (buf0len : Nat) (bufs : PacketBuffers)
    (hmask : bufs.mask = noMask)
    (hclear : (WebSocket.putdatas env net buf0len bufs).2.1.mask = noMask) :
    (WebSocket.putdatas env net buf0len bufs).2.1.buffers = bufs.buffers := by
  have hzero : bufs.mask.b₀ = 0 := by rw [hmask]; rfl
  unfold WebSocket.putdatas at hclear ⊢
  dsimp only at hclear ⊢
  split
  next hws =>
    rw [if_pos hws] at hclear
    split
    · rw [WebSocket.unmaskData_buildFrame _ _ _ hzero]
    next hrc =>
      rw [if_neg hrc, WebSocket.buildFrame, if_pos hzero] at hclear
      dsimp only at hclear
      rw [WebSocket.buildFrame, if_pos hzero]
      dsimp only
      rw [hclear]
      exact WebSocket.maskBuffers_zero _ _
  · rfl

theorem send_publish_clear
    (env : Env) (net : Net) (pack : Publish) (dup : Bool) {qos : Nat} (retained : Bool)
    (hmask : pack.mask = noMask)
    (hclear : (send_publish env net pack dup qos retained).2.1.mask = noMask) :
    (send_publish env net pack dup qos retained).2.1.topic = pack.topic ∧
      (send_publish env net pack dup qos retained).2.1.payload = pack.payload := by
  have hbuffers := putdatas_clear env
    (storeds env net (publishHeader dup qos retained) ⟨publishBuffers pack qos, pack.mask⟩
      pack.MQTTVersion)
    (fixedHeader (publishHeader dup qos retained)
      ((publishBuffers pack qos).map List.length).sum).length
    ⟨publishBuffers pack qos, pack.mask⟩ hmask hclear
  unfold send_publish sends
  dsimp only
  rw [hbuffers]
  unfold publishBuffers
  dsimp only
  split
  · exact ⟨List.take_append_drop _ _, rfl⟩
  · exact ⟨List.take_append_drop _ _, rfl⟩

theorem send_publish_websocket
    (env : Env) (net : Net) (pack : Publish) (dup : Bool) (qos : Nat) (retained : Bool) :
    (send_publish env net pack dup qos retained).2.2.websocket = net.websocket := by
  unfold send_publish sends logHanded
  dsimp only
  split <;> exact (WebSocket.putdatas_same env _ _ _).websocket.trans
    (storeds_websocket env net _ _ _)

theorem send_pubrel_websocket
    (env : Env) (net : Net) (MQTTVersion : Nat) (msgid : MsgId) (dup : Bool) :
    (send_pubrel env net MQTTVersion msgid dup).2.websocket = net.websocket := by
  have hstored : ∀ header buffer,
      (stored env net header buffer MQTTVersion).websocket = net.websocket := by
    intro header buffer
    unfold stored
    split
    · exact (MQTTPersistence.putPacket_socket env net _ _ _ _ _ _).1
    · rfl
  unfold send_pubrel send_ack send logHanded
  dsimp only
  split <;> exact (WebSocket.putdatas_same env _ _ _).websocket.trans (hstored _ _)

/-! ### A message between its transmissions -/

/-- The publication that `MQTTProtocol_startPublish` stores and sends. -/
def storedPublish (publish : Publish) : Publish :=
  { publish with
    properties :=
      if publish.MQTTVersion ≥ 5 then MQTTProperties.copy publish.properties
      else MQTTProperties.initializer }

/-- The message of a publication; where no key is remembered its data is not masked. -/
structure Kept (pack : Publish) (qos : Nat) (retained : Bool) (m : Messages) : Prop where
  qos : m.qos = qos
  retain : m.retain = retained
  MQTTVersion : m.MQTTVersion = pack.MQTTVersion
  properties : m.properties = pack.properties
  publish : ∃ p, m.publish = some p ∧
    (p.mask = noMask → p.topic = pack.topic ∧ p.payload = pack.payload)

namespace Kept

variable {pack : Publish} {qos : Nat} {retained : Bool} {m m' : Messages}

theorem sameSend
    (h : Kept pack qos retained m)
    (hsame : SameSend m m') :
    Kept pack qos retained m' :=
  ⟨hsame.qos.trans h.qos, hsame.retain.trans h.retain, hsame.MQTTVersion.trans h.MQTTVersion,
    hsame.properties.trans h.properties, by rw [hsame.publish]; exact h.publish⟩

/-- A retry makes the same packet, but for the dup flag. -/
theorem publishBytes_eq
    (h : Kept pack qos retained m)
    (hmsgid : m.msgid = pack.msgId)
    {p : Publications}
    (hp : m.publish = some p)
    (hclear : p.mask = noMask) :
    publishBytes (retryPublish m p) true m.qos m.retain = publishBytes pack true qos retained := by
  obtain ⟨p', hp', hdata⟩ := h.publish
  obtain rfl : p = p' := Option.some.inj (hp.symm.trans hp')
  obtain ⟨htopic, hpayload⟩ := hdata hclear
  have hbuffers : publishBuffers (retryPublish m p) m.qos = publishBuffers pack qos := by
    unfold publishBuffers publishVariable retryPublish
    simp only [h.qos, h.MQTTVersion, h.properties, hmsgid, htopic, hpayload]
  rw [publishBytes, publishBytes, hbuffers, h.qos, h.retain]

theorem retryFrame_unmasks
    (h : Kept pack qos retained m)
    (hmsgid : m.msgid = pack.msgId)
    (hsize : (publishBytes pack true qos retained).length < 2 ^ 63)
    {env : Env} {retryInterval now : Int} {regardless : Bool} {net : Net} {frame : Bytes}
    (hws : net.websocket = true)
    (hclear : ∀ p, m.publish = some p → p.mask = noMask)
    (hframe : retryFrame env retryInterval now regardless net m = some frame) :
    UnmasksTo frame (publishBytes pack true qos retained) := by
  rw [retryFrame] at hframe
  split at hframe
  case isFalse =>
    cases hframe
  obtain ⟨p, hp, _⟩ := h.publish
  have hbytes := h.publishBytes_eq hmsgid hp (hclear p hp)
  rw [hp, Option.map_some] at hframe
  obtain rfl := Option.some.inj hframe
  rw [← hbytes] at hsize ⊢
  exact publishFrame_unmasks env hws (retryPublish m p) true m.qos m.retain (hclear p hp) hsize

/-- A retry leaves the data as it was, or masked with the key that is remembered. -/
theorem retryMessage
    (h : Kept pack qos retained m)
    (env : Env) (retryInterval now : Int) (regardless : Bool) (net : Net)
    (hclear : (retryFrame env retryInterval now regardless net m).isSome →
      ∀ p, m.publish = some p → p.mask = noMask) :
    Kept pack qos retained (MQTTProtocol.retryMessage env retryInterval now regardless net m).1 := by
  obtain ⟨p, hp, hdata⟩ := h.publish
  have hsame := retryMessage_same env retryInterval now regardless net m
  refine ⟨hsame.qos.trans h.qos, hsame.retain.trans h.retain, hsame.MQTTVersion.trans h.MQTTVersion,
    hsame.properties.trans h.properties, ?_⟩
  rw [retryFrame] at hclear
  unfold MQTTProtocol.retryMessage
  by_cases hdue : regardless = true ∨ now - m.lastTouch > max retryInterval 10 * 1000
  · rw [if_pos hdue]
    by_cases hpublish : m.qos = 1 ∨ (m.qos = 2 ∧ m.nextMessageType = some .pubrec)
    · have hsent : PublishDue retryInterval now regardless m := ⟨hdue, hpublish⟩
      rw [if_pos hsent, hp] at hclear
      have hmask : p.mask = noMask := hclear rfl p rfl
      have hleft : ∀ sent : Publish, (sent.mask = noMask →
          sent.topic = p.topic ∧ sent.payload = p.payload) →
          ∃ p', some (p.left sent) = some p' ∧
            (p'.mask = noMask → p'.topic = pack.topic ∧ p'.payload = pack.payload) := by
        intro sent hsent
        refine ⟨p.left sent, rfl, fun hsentmask => ?_⟩
        obtain ⟨htopic, hpayload⟩ := hsent hsentmask
        obtain ⟨htopic', hpayload'⟩ := hdata hmask
        exact ⟨htopic.trans htopic', hpayload.trans hpayload'⟩
      rw [if_pos hpublish, hp]
      dsimp only
      split
      · exact hleft _ (send_publish_clear env net (retryPublish m p) true m.retain hmask)
      · exact hleft _ (send_publish_clear env net (retryPublish m p) true m.retain hmask)
    · rw [if_neg hpublish]
      split
      · dsimp only
        split
        · exact ⟨p, hp, hdata⟩
        · exact ⟨p, hp, hdata⟩
      · exact ⟨p, hp, hdata⟩
  · rw [if_neg hdue]
    exact ⟨p, hp, hdata⟩

end Kept

theorem retryMessage_websocket
    (env : Env) (retryInterval now : Int) (regardless : Bool) (net : Net) (m : Messages) :
    (retryMessage env retryInterval now regardless net m).2.2.websocket = net.websocket := by
  unfold retryMessage
  split
  · split
    · split
      · rfl
      · dsimp only
        split
        · exact send_publish_websocket env net _ true m.qos m.retain
        · exact send_publish_websocket env net _ true m.qos m.retain
    · split
      · dsimp only
        split
        · exact send_pubrel_websocket env net m.MQTTVersion m.msgid false
        · exact send_pubrel_websocket env net m.MQTTVersion m.msgid false
      · rfl
  · rfl

/-- The loop over the messages: what is sent of those with the id, and what is left of them. -/
theorem retryLoop_kept
    {pack : Publish} {qos : Nat} {retained : Bool}
    (env : Env) (retryInterval now : Int) (regardless connected : Bool)
    (hsize : (publishBytes pack true qos retained).length < 2 ^ 63)
    {msgs : List Messages} (good : Bool) {net : Net}
    (hws : net.websocket = true)
    (hkept : ∀ m ∈ msgs, m.msgid = pack.msgId → Kept pack qos retained m)
    (hclear : ∀ sent ∈ retryLoopFrames env retryInterval now regardless connected good net msgs,
      sent.1.msgid = pack.msgId → ∀ p, sent.1.publish = some p → p.mask = noMask) :
    (∀ m ∈ (retryLoop env retryInterval now regardless connected good net msgs).1,
        m.msgid = pack.msgId → Kept pack qos retained m) ∧
      ∀ sent ∈ retryLoopFrames env retryInterval now regardless connected good net msgs,
        sent.1.msgid = pack.msgId → UnmasksTo sent.2 (publishBytes pack true qos retained) := by
  induction msgs generalizing good net with
  | nil =>
      refine ⟨?_, ?_⟩
      · intro m hm
        cases hm
      · intro sent hsent
        cases hsent
  | cons m msgs ih =>
      rw [retryLoopFrames] at hclear ⊢
      rw [retryLoop]
      by_cases hgoes : connected ∧ good ∧ Socket.noPendingWrites net
      case neg =>
        rw [if_neg hgoes, if_neg hgoes]
        refine ⟨hkept, ?_⟩
        intro sent hsent
        cases hsent
      rw [if_pos hgoes] at hclear ⊢
      rw [if_pos hgoes]
      dsimp only at hclear ⊢
      obtain ⟨hmsgs, hframes⟩ := ih
        (retryMessage env retryInterval now regardless net m).2.1
        ((retryMessage_websocket env retryInterval now regardless net m).trans hws)
        (fun x hx => hkept x (List.mem_cons_of_mem m hx))
        (fun sent hsent => hclear sent (List.mem_append_right _ hsent))
      have hhead : ∀ frame, retryFrame env retryInterval now regardless net m = some frame →
          m.msgid = pack.msgId → ∀ p, m.publish = some p → p.mask = noMask := by
        intro frame hframe
        refine hclear (m, frame) (List.mem_append_left _ ?_)
        rw [hframe]
        exact List.mem_singleton_self _
      refine ⟨?_, ?_⟩
      · intro x hx hid
        rcases List.mem_cons.mp hx with rfl | hx
        · have hmsgid : m.msgid = pack.msgId :=
            (retryMessage_same env retryInterval now regardless net m).msgid.symm.trans hid
          refine (hkept m List.mem_cons_self hmsgid).retryMessage env _ now regardless net ?_
          intro hsome
          obtain ⟨frame, hframe⟩ := Option.isSome_iff_exists.mp hsome
          exact hhead frame hframe hmsgid
        · exact hmsgs x hx hid
      · intro sent hsent hid
        rcases List.mem_append.mp hsent with hsent | hsent
        · obtain ⟨frame, hframe, rfl⟩ := Option.map_eq_some_iff.mp (Option.mem_toList.mp hsent)
          exact (hkept m List.mem_cons_self hid).retryFrame_unmasks hid hsize hws
            (hhead frame hframe hid) hframe
        · exact hframes sent hsent hid

theorem retries_kept
    (pack : Publish) (qos : Nat) (retained : Bool) (env : Env) (now : Int) (regardless : Bool)
    (hsize : (publishBytes pack true qos retained).length < 2 ^ 63)
    {client : Clients}
    (hws : client.net.websocket = true)
    (hkept : ∀ m ∈ client.outboundMsgs, m.msgid = pack.msgId → Kept pack qos retained m)
    (hclear : ResendsClear env pack.msgId client (.retries now regardless)) :
    ((retries env now client regardless).net.websocket = true ∧
        ∀ m ∈ (retries env now client regardless).outboundMsgs,
          m.msgid = pack.msgId → Kept pack qos retained m) ∧
      ∀ sent ∈ retriesFrames env now client regardless,
        sent.1.msgid = pack.msgId → UnmasksTo sent.2 (publishBytes pack true qos retained) := by
  unfold ResendsClear resentFrames at hclear
  dsimp only at hclear
  unfold retries
  rw [retriesFrames] at hclear ⊢
  by_cases hoff : !regardless ∧ client.retryInterval ≤ 0
  · rw [if_pos hoff, if_pos hoff]
    refine ⟨⟨hws, hkept⟩, ?_⟩
    intro sent hsent
    cases hsent
  · rw [if_neg hoff] at hclear ⊢
    rw [if_neg hoff]
    obtain ⟨hmsgs, hframes⟩ := retryLoop_kept env client.retryInterval now regardless
      client.connected hsize client.good hws hkept hclear
    refine ⟨⟨?_, hmsgs⟩, hframes⟩
    have hmsg : ∀ net, ∀ m ∈ client.outboundMsgs, net.websocket = true →
        (retryMessage env client.retryInterval now regardless net m).2.2.websocket = true :=
      fun net m _ hws =>
        (retryMessage_websocket env client.retryInterval now regardless net m).trans hws
    have hsocket := retryLoop_net
      (R := fun net net' => net.websocket = true → net'.websocket = true)
      env client.retryInterval now regardless client.connected
      (fun _ h => h) (fun _ _ _ h h' hws => h' (h hws)) hmsg client.good client.net
    exact hsocket hws

/-! ### The first transmission -/

theorem startPublish_kept
    (env : Env) {client : Clients} {publish : Publish} {qos : Nat} (retained : Bool)
    (hws : client.net.websocket = true)
    (hqos : 0 < qos)
    (hmask : publish.mask = noMask)
    (hnew : findMsg client.outboundMsgs publish.msgId = none) :
    (startPublish env client publish qos retained).2.net.websocket = true ∧
      ∀ m ∈ (startPublish env client publish qos retained).2.outboundMsgs,
        m.msgid = publish.msgId → Kept (storedPublish publish) qos retained m := by
  unfold startPublish
  rw [if_pos hqos]
  refine ⟨(send_publish_websocket env client.net _ false qos retained).trans hws, ?_⟩
  intro m hm hid
  rcases List.mem_append.mp hm with hm | hm
  · exact absurd (List.mem_map.mpr ⟨m, hm, hid⟩) (findMsg_eq_none.mp hnew)
  · obtain rfl := List.mem_singleton.mp hm
    refine ⟨rfl, rfl, rfl, rfl, _, rfl, ?_⟩
    exact send_publish_clear env client.net (storedPublish publish) false retained hmask

/--
Whatever of a publication is interrupted and whatever else the client does: as
long as it is not sent again while a key is remembered for its data, every frame
sent for it unmasks to the packet that was published, but for the dup flag.
-/
theorem resent_frames_unmask
    (env : Env) (client₀ : Clients) (publish : Publish) (qos : Nat) (retained : Bool)
    (hws : client₀.net.websocket = true)
    (hqos : qos = 1 ∨ qos = 2)
    (hmask : publish.mask = noMask)
    (hnew : findMsg client₀.outboundMsgs publish.msgId = none)
    (hsize : (publishBytes (storedPublish publish) false qos retained).length < 2 ^ 63)
    {tr : List (Lib.Transition Clients ResendEvent)} {client : Clients}
    (hrun : Lib.Runs (ResendStep env publish.msgId)
      (startPublish env client₀ publish qos retained).2 tr client)
    (hclear : ∀ x ∈ tr, ResendsClear env publish.msgId x.pre x.event) :
    UnmasksTo (publishFrame env client₀.net (storedPublish publish) false qos retained)
        (publishBytes (storedPublish publish) false qos retained) ∧
      ∀ x ∈ tr, ∀ sent ∈ resentFrames env x.pre x.event, sent.1.msgid = publish.msgId →
        UnmasksTo sent.2 (publishBytes (storedPublish publish) true qos retained) := by
  refine ⟨publishFrame_unmasks env hws (storedPublish publish) false qos retained hmask hsize, ?_⟩
  have hpos : 0 < qos := by omega
  have hstart := startPublish_kept env retained hws hpos hmask hnew
  have hpres : ∀ s e t, (s.net.websocket = true ∧ ∀ m ∈ s.outboundMsgs,
        m.msgid = publish.msgId → Kept (storedPublish publish) qos retained m) →
      ResendsClear env publish.msgId s e → ResendStep env publish.msgId s e t →
      t.net.websocket = true ∧ ∀ m ∈ t.outboundMsgs,
        m.msgid = publish.msgId → Kept (storedPublish publish) qos retained m := by
    rintro s e t ⟨hws', hkept⟩ hsafe hstep
    cases e with
    | retries now regardless =>
        obtain rfl : t = _ := hstep
        exact (retries_kept (storedPublish publish) qos retained env now regardless hsize hws' hkept
          hsafe).1
    | elsewhere other =>
        obtain ⟨rfl, hmessages, hwebsocket⟩ := hstep
        refine ⟨hwebsocket, ?_⟩
        intro m' hm' hid
        obtain ⟨m, hm, hsame⟩ := hmessages m' hm' hid
        exact (hkept m hm (hsame.msgid.symm.trans hid)).sameSend hsame
  obtain ⟨hall, _⟩ := hrun.invariant_of hpres hstart hclear
  intro x hx sent hsent hid
  obtain ⟨hws', hkept⟩ := (hall x hx).1
  have hsafe := hclear x hx
  cases hevent : x.event with
  | retries now regardless =>
      rw [hevent] at hsent hsafe
      exact (retries_kept (storedPublish publish) qos retained env now regardless hsize hws' hkept
        hsafe).2 sent hsent hid
  | elsewhere other =>
      rw [hevent] at hsent
      cases hsent

/-! ### A publication that was interrupted -/

def webSocketClient : Clients where
  net := ⟨true, false, none, 0, []⟩
  MQTTVersion := 4
  connected := true
  good := true
  msgID := 0
  retryInterval := 0
  inboundMsgs := []
  outboundMsgs := []

def shortPublish : Publish where
  header := { type := .reserved, dup := false, qos := 0, retain := false }
  topic := [97]
  topiclen := 1
  msgId := 1
  payload := [1, 2, 3]
  MQTTVersion := 4
  properties := MQTTProperties.initializer
  mask := noMask


/-- The client when the publication was started. -/
def afterStart (env : Env) : Clients :=
  (startPublish env webSocketClient shortPublish 1 false).2

theorem resent_frames_unmask_complete :
    ∃ sent, resentFrames Env.reliable (afterStart Env.reliable) (.retries 0 true) = [sent] ∧
      UnmasksTo sent.2 (publishBytes (storedPublish shortPublish) true 1 false) := by
  obtain ⟨sent, hsent⟩ : ∃ sent,
      resentFrames Env.reliable (afterStart Env.reliable) (.retries 0 true) = [sent] :=
    ⟨_, rfl⟩
  have hid : [sent].map (·.1.msgid) = [1] := by
    rw [← hsent]
    rfl
  have hmem : sent ∈ resentFrames Env.reliable (afterStart Env.reliable) (.retries 0 true) := by
    rw [hsent]
    exact List.mem_cons_self
  have hstep : ResendStep Env.reliable 1 (afterStart Env.reliable) (.retries 0 true)
      (retries Env.reliable 0 (afterStart Env.reliable) true) := rfl
  refine ⟨sent, hsent, (resent_frames_unmask Env.reliable webSocketClient shortPublish 1 false rfl
    (Or.inl rfl) rfl rfl (by decide) (Lib.Runs.cons hstep (Lib.Runs.nil _)) ?_).2 _
      List.mem_cons_self sent hmem (List.cons.inj hid).1⟩
  intro x hx
  obtain rfl := List.mem_singleton.mp hx
  decide

/-- The first write takes a single byte. -/
def firstShort : Env :=
  { Env.reliable with writev := fun call total => if call = 0 then some 1 else some total }

/-- The socket has taken the rest of the frame. -/
def writeFinished (client : Clients) : Clients :=
  { client with net := { client.net with writePending := false } }

/-- What is behind the first two bytes of a short frame. -/
theorem UnmasksTo.short
    {frame packet : Bytes}
    (h : UnmasksTo frame packet)
    (hshort : packet.length < 126) :
    ∃ key : Lib.FrameKey, frame.drop 2 = key.toList ++ Lib.applyKey key 0 packet := by
  obtain ⟨key, header, _, _, hkey, hlen, hform, rfl⟩ := h
  refine ⟨key, ?_⟩
  rw [Lib.FrameHeader.bytes, Lib.FrameHeader.keyBytes, hkey, hform, Lib.LengthForm.shortest, hlen,
    if_pos hshort]
  rfl

/-- What is sent again after the interruption is neither the packet nor its duplicate. -/
theorem interrupted_publication_garbled :
    ∃ tr client, Lib.Runs (ResendStep firstShort 1) (afterStart firstShort) tr client ∧
      ∃ x ∈ tr, ∃ sent ∈ resentFrames firstShort x.pre x.event, sent.1.msgid = 1 ∧
        ∀ dup, ¬UnmasksTo sent.2 (publishBytes (storedPublish shortPublish) dup 1 false) := by
  have hfinish : ResendStep firstShort 1 (afterStart firstShort)
      (.elsewhere (writeFinished (afterStart firstShort)))
      (writeFinished (afterStart firstShort)) :=
    ⟨rfl, fun m hm _ => ⟨m, hm, ⟨rfl, rfl, rfl, rfl, rfl, rfl⟩⟩, rfl⟩
  have hretry : ResendStep firstShort 1 (writeFinished (afterStart firstShort)) (.retries 0 true)
      (retries firstShort 0 (writeFinished (afterStart firstShort)) true) := rfl
  obtain ⟨sent, hsent⟩ : ∃ sent, resentFrames firstShort (writeFinished (afterStart firstShort))
      (.retries 0 true) = [sent] :=
    ⟨_, rfl⟩
  have hid : [sent].map (·.1.msgid) = [1] := by
    rw [← hsent]
    rfl
  -- the topic 97 is not masked, nor is the id
  have hbytes : [sent].map (·.2) =
      [[0x82, 0x8A, 1, 2, 3, 4, 0x3B, 0x0A, 3, 5, 97, 0, 1, 5, 3, 1]] := by
    rw [← hsent]
    decide
  refine ⟨_, _, Lib.Runs.cons hfinish (Lib.Runs.cons hretry (Lib.Runs.nil _)), _,
    List.mem_cons_of_mem _ List.mem_cons_self, sent, by rw [hsent]; exact List.mem_cons_self,
    (List.cons.inj hid).1, ?_⟩
  intro dup hunmasks
  obtain ⟨key, hframe⟩ := hunmasks.short (by cases dup <;> decide)
  have hsentbytes : sent.2 = _ := (List.cons.inj hbytes).1
  rw [hsentbytes] at hframe
  have hkey : key.toList = [1, 2, 3, 4] := by
    have htake := congrArg (List.take 4) hframe
    rw [List.take_left' key.length_toList] at htake
    exact htake.symm
  obtain rfl : key = #v[1, 2, 3, 4] := Vector.toList_inj.mp hkey
  cases dup with
  | false => exact absurd hframe (by decide)
  | true => exact absurd hframe (by decide)

end MQTTProtocol
end PahoMqtt
