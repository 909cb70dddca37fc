import PahoMqtt.PacketOut
import PahoMqtt.Messages
import PahoMqtt.Lib.Runs

/-!
# The protocol client

The in-flight message lists of a client and the functions of
MQTTProtocolClient.c that work on them: starting a publication, the five packet
handlers, the retries.  Around them stand the closing and the completion of a
connection, as far as they touch the lists and the socket.

A client steps by an action of its own or by a packet that it receives.
-/

namespace PahoMqtt

/-- `Clients` -/
structure Clients where
  net : Net
  MQTTVersion : Nat
  connected : Bool
  good : Bool
  msgID : MsgId
  retryInterval : Int
  inboundMsgs : List Messages
  outboundMsgs : List Messages

namespace MQTTProtocol

open MQTTPacket

/-! ### Message ids -/

def nextMsgId (msgid : MsgId) : MsgId :=
  if msgid = MAX_MSG_ID then 1 else msgid + 1

/-- The loop of `MQTTProtocol_assignMsgId`; 0 is returned when none is free. -/
def assignMsgIdLoop (msgs : List Messages) (start_msgid : MsgId) : (fuel : Nat) → MsgId → MsgId
  | 0, _ => 0
  | fuel + 1, msgid =>
      if (findMsg msgs msgid).isSome then
        let msgid := nextMsgId msgid
        if msgid = start_msgid then 0 else assignMsgIdLoop msgs start_msgid fuel msgid
      else
        msgid

/-- `MQTTProtocol_assignMsgId`; the result is also 0 where the loop does not end. -/
def assignMsgId (client : Clients) : MsgId × Clients :=
  let msgid := assignMsgIdLoop client.outboundMsgs client.msgID 65536 (nextMsgId client.msgID)
  (msgid, if msgid ≠ 0 then { client with msgID := msgid } else client)

theorem assignMsgIdLoop_fresh
    (msgs : List Messages) (start_msgid : MsgId) (fuel : Nat) (msgid : MsgId)
    (h : assignMsgIdLoop msgs start_msgid fuel msgid ≠ 0) :
    findMsg msgs (assignMsgIdLoop msgs start_msgid fuel msgid) = none := by
  induction fuel generalizing msgid with
  | zero =>
      exact absurd rfl h
  | succ fuel ih =>
      unfold assignMsgIdLoop at h ⊢
      by_cases hused : (findMsg msgs msgid).isSome
      · rw [if_pos hused] at h ⊢
        by_cases hround : nextMsgId msgid = start_msgid
        · simp [hround] at h
        · simp only [hround, if_false] at h ⊢
          exact ih (nextMsgId msgid) h
      · rw [if_neg hused]
        simpa using hused

/-- An id that is assigned is not in use. -/
theorem assignMsgId_fresh
    (client : Clients)
    (h : (assignMsgId client).1 ≠ 0) :
    findMsg client.outboundMsgs (assignMsgId client).1 = none :=
  assignMsgIdLoop_fresh _ _ _ _ h

/-! ### Starting a publication -/

/-- `MQTTProtocol_storePublication` -/
def storePublication (publish : Publish) : Publications where
  topic := publish.topic
  topiclen := publish.topiclen
  payload := publish.payload
  mask := publish.mask

/-- `MQTTProtocol_createMessage` of a new message -/
def createMessage (now : Int) (publish : Publish) (qos : Nat) (retained : Bool) : Messages where
  qos := qos
  retain := retained
  msgid := publish.msgId
  MQTTVersion := publish.MQTTVersion
  properties :=
    if publish.MQTTVersion ≥ 5 then MQTTProperties.copy publish.properties
    else MQTTProperties.initializer
  publish := some (storePublication publish)
  lastTouch := now
  nextMessageType := if qos = 2 then some .pubrec else none

/-- `MQTTProtocol_startPublish` -/
def startPublish (env : Env) (pubclient : Clients) (publish : Publish) (qos : Nat)
    (retained : Bool) : Int × Clients :=
  if qos > 0 then
    let m := createMessage (env.time_now pubclient.net.calls) publish qos retained
    let qos12pub := { publish with properties := m.properties, MQTTVersion := m.MQTTVersion }
    let (rc, sent, net) := send_publish env pubclient.net qos12pub false qos retained
    let m := { m with publish := m.publish.map (Publications.left · sent) }
    (rc, { pubclient with net, outboundMsgs := pubclient.outboundMsgs ++ [m] })
  else
    let (rc, _, net) := send_publish env pubclient.net publish false qos retained
    (rc, { pubclient with net })

/-! ### Received packets -/

/-- `Protocol_processPublication` passes a publication on to the application. -/
def processPublication (client : Clients) (publish : Publish) : Clients :=
  { client with net := client.net.emit (.processPublication publish) }

/-- The entry that `MQTTProtocol_handlePublishes` makes for a QoS 2 packet. -/
def receivedMessage (publish : Publish) : Messages where
  qos := publish.header.qos.val
  retain := publish.header.retain
  msgid := publish.msgId
  MQTTVersion := publish.MQTTVersion
  properties :=
    if publish.MQTTVersion ≥ 5 then MQTTProperties.copy publish.properties
    else MQTTProperties.initializer
  publish := some (storePublication publish)
  lastTouch := 0
  nextMessageType := some .pubrel

/-- The packet that both handlers make up from an inbound message for its delivery. -/
def publicationOf (m : Messages) : Publish where
  header := { type := .reserved, dup := false, qos := Fin.ofNat 4 m.qos, retain := m.retain }
  topic := (m.publish.map (·.topic)).getD []
  topiclen := (m.publish.map (·.topiclen)).getD 0
  msgId := m.msgid
  payload := (m.publish.map (·.payload)).getD []
  MQTTVersion := m.MQTTVersion
  properties := m.properties
  mask := ⟨0, 0, 0, 0⟩

/-- `MQTTProtocol_handlePublishes` -/
def handlePublishes (env : Env) (client : Clients) (publish : Publish) : Int × Clients :=
  if publish.header.qos = 0 then
    (TCPSOCKET_COMPLETE, processPublication client publish)
  else if !Socket.noPendingWrites client.net then
    (SOCKET_ERROR, client)
  else if publish.header.qos = 1 then
    let (rc, net) := send_puback env client.net publish.MQTTVersion publish.msgId
    (rc, processPublication { client with net } publish)
  else if publish.header.qos = 2 then
    let m := receivedMessage publish
    let already_received := (findMsg client.inboundMsgs m.msgid).isSome
    let (rc, net) := send_pubrec env client.net publish.MQTTVersion publish.msgId
    let client := { client with net }
    if already_received then
      -- the queued publication is discarded, whatever its version
      (rc, { client with inboundMsgs := modifyMsg client.inboundMsgs m.msgid (fun _ => m) })
    else if m.MQTTVersion ≥ 5 then
      (rc, processPublication
        { client with inboundMsgs := client.inboundMsgs ++ [{ m with publish := none }] }
        (publicationOf m))
    else
      (rc, { client with inboundMsgs := client.inboundMsgs ++ [m] })
  else
    (TCPSOCKET_COMPLETE, client)

/-- `MQTTProtocol_handlePubacks` -/
def handlePubacks (env : Env) (client : Clients) (puback : Ack) : Int × Clients :=
  match findMsg client.outboundMsgs puback.msgId with
  | none => (TCPSOCKET_COMPLETE, client)
  | some m =>
      if m.qos ≠ 1 then
        (TCPSOCKET_COMPLETE, client)
      else
        let (rc, net) := MQTTPersistence.remove env client.net
          (if m.MQTTVersion ≥ 5 then .v5PublishSent else .publishSent) puback.msgId
        (rc, { client with net, outboundMsgs := removeMsg client.outboundMsgs puback.msgId })

/-- `MQTTREASONCODE_UNSPECIFIED_ERROR` -/
def UNSPECIFIED_ERROR : UInt8 := 128

/-- `MQTTProtocol_handlePubrecs` -/
def handlePubrecs (env : Env) (client : Clients) (pubrec : Ack) : Int × Clients :=
  match findMsg client.outboundMsgs pubrec.msgId with
  | none => (TCPSOCKET_COMPLETE, client)
  | some m =>
      if m.qos ≠ 2 then
        (TCPSOCKET_COMPLETE, client)
      else if m.nextMessageType ≠ some .pubrec then
        (TCPSOCKET_COMPLETE, client)
      else if pubrec.MQTTVersion ≥ 5 ∧ pubrec.rc ≥ UNSPECIFIED_ERROR then
        let (rc, net) := MQTTPersistence.remove env client.net
          (if pubrec.MQTTVersion ≥ 5 then .v5PublishSent else .publishSent) pubrec.msgId
        (rc, { client with net, outboundMsgs := removeMsg client.outboundMsgs pubrec.msgId })
      else
        let (rc, net) := send_pubrel env client.net pubrec.MQTTVersion pubrec.msgId false
        (rc, { client with
          net
          outboundMsgs := modifyMsg client.outboundMsgs pubrec.msgId (fun m =>
            { m with nextMessageType := some .pubcomp, lastTouch := env.time_now net.calls }) })

/-- `MQTTProtocol_handlePubrels` -/
def handlePubrels (env : Env) (client : Clients) (pubrel : Ack) : Int × Clients :=
  match findMsg client.inboundMsgs pubrel.msgId with
  | none =>
      if pubrel.header.dup = false then
        (TCPSOCKET_COMPLETE, client)
      else if !Socket.noPendingWrites client.net then
        (SOCKET_ERROR, client)
      else
        let (rc, net) := send_pubcomp env client.net pubrel.MQTTVersion pubrel.msgId
        (rc, { client with net })
  | some m =>
      if m.qos ≠ 2 then
        (TCPSOCKET_COMPLETE, client)
      else if m.nextMessageType ≠ some .pubrel then
        (TCPSOCKET_COMPLETE, client)
      else if !Socket.noPendingWrites client.net then
        (SOCKET_ERROR, client)
      else
        let (rc, net) := send_pubcomp env client.net pubrel.MQTTVersion pubrel.msgId
        let client := { client with net }
        -- only for 3.1.1 and lower
        let client :=
          if m.MQTTVersion ≥ 5 then client else processPublication client (publicationOf m)
        let (removed, net) := MQTTPersistence.remove env client.net
          (if m.MQTTVersion ≥ 5 then .v5PublishReceived else .publishReceived) pubrel.msgId
        (rc + removed,
          { client with net, inboundMsgs := removeMsg client.inboundMsgs pubrel.msgId })

/-- `MQTTProtocol_handlePubcomps` -/
def handlePubcomps (env : Env) (client : Clients) (pubcomp : Ack) : Int × Clients :=
  match findMsg client.outboundMsgs pubcomp.msgId with
  | none => (TCPSOCKET_COMPLETE, client)
  | some m =>
      if m.qos ≠ 2 then
        (TCPSOCKET_COMPLETE, client)
      else if m.nextMessageType ≠ some .pubcomp then
        (TCPSOCKET_COMPLETE, client)
      else
        let (rc, net) := MQTTPersistence.remove env client.net
          (if m.MQTTVersion ≥ 5 then .v5PublishSent else .publishSent) pubcomp.msgId
        (rc, { client with net, outboundMsgs := removeMsg client.outboundMsgs pubcomp.msgId })

/-! ### Retries -/

/-- `MQTTProtocol_closeSession`: the closing itself is a later action of the client. -/
def closeSession (net : Net) : Net :=
  net.emit .closeSession

/-- The packet that a retry sends for a stored publication. -/
def retryPublish (m : Messages) (p : Publications) : Publish where
  header := { type := .reserved, dup := false, qos := 0, retain := false }
  topic := p.topic
  topiclen := p.topiclen
  msgId := m.msgid
  payload := p.payload
  MQTTVersion := m.MQTTVersion
  properties := m.properties
  mask := p.mask

/-- The body of the loop of `MQTTProtocol_retries`: the message, `good` and the net after it. -/
def retryMessage (env : Env) (retryInterval now : Int) (regardless : Bool) (net : Net)
    (m : Messages) : Messages × Bool × Net :=
  if regardless ∨ now - m.lastTouch > max retryInterval 10 * 1000 then
    if m.qos = 1 ∨ (m.qos = 2 ∧ m.nextMessageType = some .pubrec) then
      match m.publish with
      | none => (m, true, net)
      | some p =>
          let (rc, sent, net) := send_publish env net (retryPublish m p) true m.qos m.retain
          let m := { m with publish := some (p.left sent) }
          if rc = SOCKET_ERROR then
            (m, false, closeSession net)
          else
            ({ m with lastTouch := env.time_now net.calls }, true, net)
    else if m.qos ≠ 0 ∧ m.nextMessageType = some .pubcomp then
      let (rc, net) := send_pubrel env net m.MQTTVersion m.msgid false
      if rc ≠ TCPSOCKET_COMPLETE then
        (m, false, closeSession net)
      else
        ({ m with lastTouch := env.time_now net.calls }, true, net)
    else
      (m, true, net)
  else
    (m, true, net)

/-- The loop of `MQTTProtocol_retries` over the rest of the list, while the client is good. -/
def retryLoop (env : Env) (retryInterval now : Int) (regardless connected : Bool) :
    (good : Bool) → Net → List Messages → List Messages × Bool × Net
  | good, net, [] => ([], good, net)
  | good, net, m :: msgs =>
      if connected ∧ good ∧ Socket.noPendingWrites net then
        let (m, good, net) := retryMessage env retryInterval now regardless net m
        let (msgs, good, net) := retryLoop env retryInterval now regardless connected good net msgs
        (m :: msgs, good, net)
      else
        (m :: msgs, good, net)

/-- `MQTTProtocol_retries` -/
def retries (env : Env) (now : Int) (client : Clients) (regardless : Bool) : Clients :=
  if !regardless ∧ client.retryInterval ≤ 0 then
    client
  else
    let (outboundMsgs, good, net) := retryLoop env client.retryInterval now regardless
      client.connected client.good client.net client.outboundMsgs
    { client with outboundMsgs, good, net }

/-- `MQTTProtocol_retry` for one client -/
def retry (env : Env) (now : Int) (doRetry regardless : Bool) (client : Clients) : Clients :=
  if !client.connected then
    client
  else if !client.good then
    { client with net := closeSession client.net }
  else if !Socket.noPendingWrites client.net then
    client
  else if doRetry then
    retries env now client regardless
  else
    client

end MQTTProtocol

/-! ### Connections -/

namespace MQTTAsync

/--
`MQTTAsync_closeOnly` of an open socket, with the body of the DISCONNECT packet
that it sends.  `Socket_close` takes the socket off the unfinished writes.
-/
def closeOnly (env : Env) (client : Clients) (disconnect : Bytes) : Clients :=
  let net :=
    if client.connected ∧ Socket.noPendingWrites client.net then
      (MQTTPacket.send env client.net
        { type := .disconnect, dup := false, qos := 0, retain := false }
        disconnect client.MQTTVersion).2
    else
      client.net
  { client with net := { net with writePending := false }, good := false, connected := false }

/-- `MQTTAsync_completeConnection` when the session is kept. -/
def completeConnection (env : Env) (client : Clients) (websocket : Bool) : Clients :=
  let client :=
    { client with net := { client.net with websocket }, connected := true, good := true }
  if client.outboundMsgs.length > 0 then
    let touched := client.outboundMsgs.map (fun m => { m with lastTouch := 0 })
    MQTTProtocol.retry env 0 true true { client with outboundMsgs := touched }
  else
    client

end MQTTAsync

/-! ### Steps -/

/-- What a client does on its own. -/
inductive Action where
  | startPublish (publish : Publish) (qos : Nat) (retained : Bool)
  | retry (now : Int) (doRetry regardless : Bool)
  /-- `Socket_continueWrites` has finished the pending write, or given it up. -/
  | continueWrites
  | closeOnly (disconnect : Bytes)
  | completeConnection (websocket : Bool)

/-- The packets that the handlers take. -/
inductive Packet where
  | publish (pack : Publish)
  | ack (pack : Ack)

namespace Packet

def MQTTVersion : Packet → Nat
  | .publish pack => pack.MQTTVersion
  | .ack pack => pack.MQTTVersion

end Packet

namespace Clients

/-- The log is started afresh by every step. -/
def start (client : Clients) : Clients :=
  { client with net := { client.net with log := [] } }

/-- An action with its return code. -/
def act (env : Env) (client : Clients) : Action → Int × Clients
  | .startPublish publish qos retained =>
      MQTTProtocol.startPublish env client publish qos retained
  | .retry now doRetry regardless => (0, MQTTProtocol.retry env now doRetry regardless client)
  | .continueWrites => (0, { client with net := { client.net with writePending := false } })
  | .closeOnly disconnect => (0, MQTTAsync.closeOnly env client disconnect)
  | .completeConnection websocket => (0, MQTTAsync.completeConnection env client websocket)

/-- The call of the handler of a packet, by the packet's type. -/
def handle (env : Env) (client : Clients) : Packet → Int × Clients
  | .publish pack => MQTTProtocol.handlePublishes env client pack
  | .ack pack =>
      match pack.header.type with
      | .puback => MQTTProtocol.handlePubacks env client pack
      | .pubrec => MQTTProtocol.handlePubrecs env client pack
      | .pubrel => MQTTProtocol.handlePubrels env client pack
      | .pubcomp => MQTTProtocol.handlePubcomps env client pack
      | _ => (TCPSOCKET_COMPLETE, client)

end Clients

/-- What a run of the handlers consists of. -/
inductive Event where
  | act (action : Action)
  | packet (pack : Packet)

/--
What the callers see to: the version is the client's, and a publication with an
acknowledgement has an id that is not in use (`assignMsgId_fresh`).
-/
def Action.Admissible (client : Clients) : Action → Prop
  | .startPublish publish qos _ =>
      publish.MQTTVersion = client.MQTTVersion ∧ qos ≤ 2 ∧
        (qos > 0 → publish.msgId ≠ 0 ∧ findMsg client.outboundMsgs publish.msgId = none)
  | _ => True

def Event.Admissible (client : Clients) : Event → Prop
  | .act action => action.Admissible client
  | .packet pack => pack.MQTTVersion = client.MQTTVersion

/-- The outcome of an event, with its return code. -/
def Clients.outcome (env : Env) (client : Clients) : Event → Int × Clients
  | .act action => client.start.act env action
  | .packet pack => client.start.handle env pack

/-- One step of a client. -/
def Clients.Step (env : Env) (client : Clients) (e : Event) (client' : Clients) : Prop :=
  e.Admissible client ∧ client' = (client.outcome env e).2

/-- The run of a client over a list of admissible events. -/
theorem Clients.runs_trace
    (env : Env) (client : Clients) (es : List Event)
    (hadm : ∀ x ∈ Lib.trace (fun c e => (outcome env c e).2) client es,
      x.event.Admissible x.pre) :
    Lib.Runs (Clients.Step env) client (Lib.trace (fun c e => (outcome env c e).2) client es)
      (es.foldl (fun c e => (outcome env c e).2) client) :=
  Lib.Runs.of_trace client es
    (fun x hx => ⟨hadm x hx, Lib.post_of_mem_trace hx⟩)

/-- A client before its first connection. -/
def Clients.fresh (MQTTVersion : Nat) (retryInterval : Int) (persistence : Option Store) :
    Clients where
  net := { websocket := false, writePending := false, persistence, calls := 0, log := [] }
  MQTTVersion := MQTTVersion
  connected := false
  good := false
  msgID := 0
  retryInterval := retryInterval
  inboundMsgs := []
  outboundMsgs := []

end PahoMqtt
