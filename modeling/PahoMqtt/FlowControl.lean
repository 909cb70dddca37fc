import PahoMqtt.CommandQueue
import PahoMqtt.Outbound

/-!
# The flow of publications over the connections of a client

An asynchronous client over several connections: the CONNACK that completes a
connection, the commands that start new publications, the retries, the packets
received and the closing.  What the server is owed and what it has not
acknowledged is followed from the packets that go out and come in; no function
of the client reads it.

`mqttasync_mutex` is held while a command is processed and while a CONNACK is
handled, so that each of these is one step.
-/

namespace PahoMqtt

/-! ### The Receive Maximum -/

namespace MQTTProperties

/-- `MQTTPROPERTY_CODE_RECEIVE_MAXIMUM` -/
def RECEIVE_MAXIMUM : UInt8 := 33

/-- `MQTTProperties_hasProperty` -/
def hasProperty (props : Properties) (propid : UInt8) : Bool :=
  props.array.any (·.identifier = propid)

/-- `MQTTProperties_getNumericValue` -/
def getNumericValue (props : Properties) (propid : UInt8) : Int :=
  match props.array.find? (·.identifier = propid) with
  | none => -9999999
  | some prop =>
      match prop.value with
      | .byte b => b.toNat
      | .integer2 n => n.toNat
      | .integer4 n => n.toInt32.toInt
      | _ => -999999

end MQTTProperties

/-- The fields of a CONNACK that the client reads. -/
structure Connack where
  rc : UInt8
  sessionPresent : Bool
  properties : Properties

/-- The Receive Maximum that a CONNACK gives; without the property it is 65535. -/
def Connack.receiveMaximum (connack : Connack) : Int :=
  if MQTTProperties.hasProperty connack.properties MQTTProperties.RECEIVE_MAXIMUM then
    MQTTProperties.getNumericValue connack.properties MQTTProperties.RECEIVE_MAXIMUM
  else 65535

/-! ### What the server sees -/

/-- The id of a QoS 1 or 2 PUBLISH that went out. -/
def Output.sentPublish : Output → Option MsgId
  | .handed header msgId rc _ =>
      if header.type = .publish ∧ header.qos ≠ 0 ∧ rc ≠ SOCKET_ERROR then some msgId else none
  | _ => none

/-- The id of a PUBLISH with dup or a PUBREL that went out. -/
def Output.resent : Output → Option MsgId
  | .handed header msgId rc _ =>
      if (header.type = .publish ∧ header.dup = true ∨ header.type = .pubrel) ∧
          rc ≠ SOCKET_ERROR then
        some msgId
      else none
  | _ => none

/-- A PUBLISH went out. -/
def Output.isPublish : Output → Bool
  | .handed header _ rc _ => header.type = .publish ∧ rc ≠ SOCKET_ERROR
  | _ => false

def Output.isCloseSession : Output → Bool
  | .closeSession => true
  | _ => false

/-- The packet acknowledges a PUBLISH: a PUBACK, a PUBCOMP or a PUBREC with an error. -/
def Ack.acknowledges (pack : Ack) : Bool :=
  pack.header.type = .puback ∨ pack.header.type = .pubcomp ∨
    (pack.header.type = .pubrec ∧ pack.MQTTVersion ≥ 5 ∧ pack.rc ≥ MQTTProtocol.UNSPECIFIED_ERROR)

/-- A connection as the server sees it. -/
structure Wire where
  receiveMaximum : Int
  /-- The QoS 1 and 2 PUBLISH packets that were sent and are not acknowledged. -/
  unacked : List MsgId
  /-- The older messages that are neither sent again nor completed. -/
  owed : List MsgId

namespace Wire

/-- No connection. -/
def closed : Wire := ⟨65535, [], []⟩

/-- What a step of the client puts on the connection. -/
def observe (wire : Wire) (client : Clients) : Wire :=
  { wire with
    unacked := wire.unacked ++ client.net.log.filterMap Output.sentPublish
    owed := wire.owed.filter (fun msgid =>
      msgid ∈ msgIds client.outboundMsgs ∧ msgid ∉ client.net.log.filterMap Output.resent) }

/-- A packet arrives. -/
def receive (wire : Wire) : Packet → Wire
  | .ack pack =>
      if pack.acknowledges then
        { wire with unacked := wire.unacked.filter (· ≠ pack.msgId) }
      else wire
  | .publish _ => wire

end Wire

namespace MQTTAsync

/-! ### The client -/

/-- The options of `MQTTAsync_connect` that matter here. -/
structure ConnectOptions where
  cleansession : Bool
  cleanstart : Bool
  maxInflight : Int
  retryInterval : Int
  /-- The session expiry interval, where the connect properties have one. -/
  sessionExpiry : Option Nat

/--
A client with its connection.  `closing` tells that a DISCONNECT of the library
stands before the other commands of the client.
-/
structure FlowState where
  client : Clients
  cleansession : Bool
  cleanstart : Bool
  sessionExpiry : Nat
  maxInflightMessages : Int
  connect_state : ConnectState
  closing : Bool
  wire : Wire

/-- `MQTTASYNC_FAILURE` -/
def FAILURE : Int := -1

/-- The keys that `MQTTAsync_unpersistInflightMessages` removes. -/
def isInflightKey (key : Key) : Bool :=
  Stem.publishSent.isStemOf key || Stem.v5PublishSent.isStemOf key || Stem.pubrel.isStemOf key ||
    Stem.v5Pubrel.isStemOf key || Stem.publishReceived.isStemOf key ||
    Stem.v5PublishReceived.isStemOf key

/-- The loop of `MQTTAsync_unpersistInflightMessages`. -/
def unpersistLoop (env : Env) : Net → List Key → Int × Net
  | net, [] => (0, net)
  | net, key :: msgkeys =>
      if isInflightKey key then
        let rc := env.premove net.calls
        if rc = 0 then
          unpersistLoop env
            { net.tick with persistence := net.persistence.map (·.remove key) } msgkeys
        else (rc, net.tick)
      else unpersistLoop env net msgkeys

/-- `MQTTAsync_unpersistInflightMessages`, with what `pkeys` answers. -/
def unpersistInflightMessages (env : Env) (pkeys : Int × List Key) (net : Net) : Int × Net :=
  match net.persistence with
  | none => (0, net)
  | some _ => if pkeys.1 = 0 then unpersistLoop env net pkeys.2 else (pkeys.1, net)

/-- `MQTTAsync_cleanSession` -/
def cleanSession (env : Env) (pkeys : Int × List Key) (client : Clients) : Int × Clients :=
  let (rc, net) := unpersistInflightMessages env pkeys client.net
  (rc, { client with net, inboundMsgs := [], outboundMsgs := [], msgID := 0 })

/-- The packet that `MQTTAsync_processCommand` makes up for a publication. -/
def publishOf (client : Clients) (command : Command) (pub : Pub) : Publish where
  header := { type := .reserved, dup := false, qos := 0, retain := false }
  topic := pub.destinationName.getD []
  topiclen := 0
  msgId := UInt16.ofNat command.token.toNatClampNeg
  payload := (pub.payload.getD []).take pub.payloadlen.toNatClampNeg
  MQTTVersion := client.MQTTVersion
  properties := if client.MQTTVersion ≥ 5 then command.properties else MQTTProperties.initializer
  mask := ⟨0, 0, 0, 0⟩

namespace FlowState

/-- The fields that decide whether a command may be processed. -/
def connection (s : FlowState) : Connection where
  connected := s.client.connected
  connect_state := s.connect_state
  noPendingWrites := Socket.noPendingWrites s.client.net
  outboundMsgs := s.client.outboundMsgs.length
  maxInflightMessages := s.maxInflightMessages
  shouldBeConnected := true
  MQTTVersion := s.client.MQTTVersion

/-- A publication of the client is the next command, and not blocked. -/
def mayPublish (s : FlowState) (command : Command) : Bool :=
  !s.closing && s.connection.mayProcess command

/-- The client after a step, with what the step puts on the connection. -/
def after (s : FlowState) (client : Clients) : FlowState :=
  { s with
    client
    closing := s.closing || client.net.log.any Output.isCloseSession
    wire := s.wire.observe client }

/-- The session is cleaned when a connection completes. -/
def cleansOn (s : FlowState) (connack : Connack) : Bool :=
  s.cleansession || s.cleanstart || s.client.MQTTVersion ≥ 4 && !connack.sessionPresent

/-- The cleaning in `MQTTAsync_completeConnection`. -/
def cleaned (env : Env) (s : FlowState) (pkeys : Int × List Key) (connack : Connack) :
    Int × Clients :=
  if s.cleansOn connack then cleanSession env pkeys s.client.start else (0, s.client.start)

/-- `MQTTAsync_closeOnly` -/
def closeOnly (env : Env) (s : FlowState) (disconnect : Bytes) : FlowState :=
  { s with
    client := MQTTAsync.closeOnly env s.client.start disconnect
    connect_state := .notInProgress
    closing := false
    wire := .closed }

/-- `MQTTAsync_closeSession` -/
def closeSession (env : Env) (s : FlowState) (disconnect : Bytes) (pkeys : Int × List Key) :
    FlowState :=
  let s := s.closeOnly env disconnect
  if s.cleansession = true ∨ s.client.MQTTVersion ≥ 5 ∧ s.sessionExpiry = 0 then
    { s with client := (cleanSession env pkeys s.client).2 }
  else s

/-- The closing in `nextOrClose`; `more` tells whether there is another server to try. -/
def nextOrClose (env : Env) (s : FlowState) (more : Bool) (disconnect : Bytes)
    (pkeys : Int × List Key) : FlowState :=
  if more then s.closeOnly env disconnect else s.closeSession env disconnect pkeys

/--
The client whose connection a CONNACK does not complete; it is connected already where
the session is not cleaned in the store.
-/
def notCompleted (env : Env) (s : FlowState) (pkeys : Int × List Key) (connack : Connack)
    (websocket : Bool) : FlowState :=
  if s.connect_state = .waitForConnack ∧ connack.rc = 0 then
    let client := (s.cleaned env pkeys connack).2
    { s with
      client :=
        { client with net := { client.net with websocket }, connected := true, good := true }
      connect_state := .notInProgress }
  else s

/--
The connection that a CONNACK completes, after the cleaning.  The closing that a
failed re-send asks for is a command of its own, so the client is still
connected at the end.
-/
def complete (env : Env) (s : FlowState) (client : Clients) (connack : Connack)
    (websocket : Bool) : FlowState :=
  let kept := msgIds client.outboundMsgs
  let s := { s with
    connect_state := .notInProgress
    closing := false
    wire := ⟨connack.receiveMaximum, [], kept⟩ }
  let s := s.after (MQTTAsync.completeConnection env client websocket)
  { s with
    maxInflightMessages :=
      if s.client.MQTTVersion ≥ 5 ∧
          MQTTProperties.hasProperty connack.properties MQTTProperties.RECEIVE_MAXIMUM = true then
        min s.maxInflightMessages
          (MQTTProperties.getNumericValue connack.properties MQTTProperties.RECEIVE_MAXIMUM)
      else s.maxInflightMessages }

end FlowState

/-- What the threads do to a client, as far as its publications are concerned. -/
inductive FlowEvent where
  | connect (options : ConnectOptions)
  /-- A stage on the way to a connection is reached. -/
  | connecting (state : ConnectState)
  | connack (connack : Connack) (websocket : Bool) (pkeys : Int × List Key) (more : Bool)
      (disconnect : Bytes)
  | processCommand (command : Command) (pub : Pub)
  /-- The client's own retries, or those at the completion of another client's connection. -/
  | retry (now : Int) (doRetry regardless : Bool)
  /-- The write of a packet that is no publication has not been finished. -/
  | writeInterrupted
  | continueWrites
  | packet (pack : Packet)
  | disconnect
  | closeOnly (disconnect : Bytes)
  | closeSession (disconnect : Bytes) (pkeys : Int × List Key)

namespace FlowState

def next (env : Env) (s : FlowState) : FlowEvent → FlowState
  | .connect options =>
      { s with
        client := { s.client.start with retryInterval := options.retryInterval }
        cleansession := options.cleansession
        cleanstart := options.cleanstart
        sessionExpiry := options.sessionExpiry.getD s.sessionExpiry
        maxInflightMessages := options.maxInflight }
  | .connecting state => { s with client := s.client.start, connect_state := state }
  | .connack connack websocket pkeys more disconnect =>
      if s.connect_state = .waitForConnack ∧ connack.rc = 0 ∧
          (s.cleaned env pkeys connack).1 = 0 then
        s.complete env (s.cleaned env pkeys connack).2 connack websocket
      else (s.notCompleted env pkeys connack websocket).nextOrClose env more disconnect pkeys
  | .processCommand command pub =>
      let (rc, client) := s.client.start.act env (.startPublish (publishOf s.client command pub)
        pub.qos.toNatClampNeg (pub.retained ≠ 0))
      let s := s.after client
      { s with closing := s.closing || rc = SOCKET_ERROR }
  | .retry now doRetry regardless =>
      s.after (s.client.start.act env (.retry now doRetry regardless)).2
  | .writeInterrupted =>
      { s with client :=
          { s.client.start with net := { s.client.start.net with writePending := true } } }
  | .continueWrites => s.after (s.client.start.act env .continueWrites).2
  | .packet pack => { s with wire := s.wire.receive pack }.after (s.client.start.handle env pack).2
  | .disconnect => { s with client := s.client.start, connect_state := .disconnecting }
  | .closeOnly disconnect => s.closeOnly env disconnect
  | .closeSession disconnect pkeys => s.closeSession env disconnect pkeys

/--
A connection is set up only where there is none; a command is processed when
its turn comes, and `MQTTAsync_send` has checked its QoS.
-/
def Admissible (s : FlowState) : FlowEvent → Prop
  | .connecting state =>
      s.client.connected = false ∧ state ≠ .disconnecting ∧ s.connect_state ≠ .disconnecting
  | .processCommand command pub =>
      command.details = .pub pub ∧ 0 ≤ pub.qos ∧ pub.qos ≤ 2 ∧ s.mayPublish command = true
  | .packet pack => pack.MQTTVersion = s.client.MQTTVersion
  | _ => True

instance (s : FlowState) : (e : FlowEvent) → Decidable (s.Admissible e)
  | .connecting state =>
      inferInstanceAs (Decidable
        (s.client.connected = false ∧ state ≠ .disconnecting ∧ s.connect_state ≠ .disconnecting))
  | .processCommand command pub =>
      inferInstanceAs (Decidable
        (command.details = .pub pub ∧ 0 ≤ pub.qos ∧ pub.qos ≤ 2 ∧ s.mayPublish command = true))
  | .packet pack => inferInstanceAs (Decidable (pack.MQTTVersion = s.client.MQTTVersion))
  | .connect _ => inferInstanceAs (Decidable True)
  | .connack .. => inferInstanceAs (Decidable True)
  | .retry .. => inferInstanceAs (Decidable True)
  | .writeInterrupted => inferInstanceAs (Decidable True)
  | .continueWrites => inferInstanceAs (Decidable True)
  | .disconnect => inferInstanceAs (Decidable True)
  | .closeOnly _ => inferInstanceAs (Decidable True)
  | .closeSession .. => inferInstanceAs (Decidable True)

/-- A step of the threads. -/
def Step (env : Env) (s : FlowState) (e : FlowEvent) (t : FlowState) : Prop :=
  s.Admissible e ∧ t = s.next env e

/-- The run of a list of events. -/
theorem runs_trace
    {env : Env} {s : FlowState} {events : List FlowEvent}
    (hadm : ∀ x ∈ Lib.trace (next env) s events, x.pre.Admissible x.event) :
    Lib.Runs (Step env) s (Lib.trace (next env) s events) (events.foldl (next env) s) :=
  Lib.Runs.of_trace s events fun x hx => ⟨hadm x hx, Lib.post_of_mem_trace hx⟩

/-- A client that has not been connected. -/
def fresh (MQTTVersion : Nat) (persistence : Option Store) : FlowState where
  client := Clients.fresh MQTTVersion 0 persistence
  cleansession := false
  cleanstart := false
  sessionExpiry := 0
  maxInflightMessages := 10
  connect_state := .notInProgress
  closing := false
  wire := .closed

/-- A message of QoS 1 with the given id. -/
def qos1 (token : Int32) : FlowEvent :=
  .processCommand
    ⟨token, MQTTProperties.initializer, .pub ⟨some [97], 1, some [120], 1, 0⟩⟩
    ⟨some [97], 1, some [120], 1, 0⟩

/-- A CONNACK that accepts, with the given Receive Maximum. -/
def accepted (sessionPresent : Bool) (receiveMaximum : UInt16) : FlowEvent :=
  .connack ⟨0, sessionPresent, ⟨[⟨33, .integer2 receiveMaximum, rfl⟩], 3⟩⟩ false (0, []) false []

/-- The session is to be kept for an hour. -/
def keepSession : ConnectOptions := ⟨false, false, 10, 0, some 3600⟩

end FlowState
end MQTTAsync

/-! ### What a packet adds to an observation of the log -/

namespace MQTTPacket

section

variable {f : Output → Option MsgId}
  (hput : ∀ htype msgId scr rc, f (.putPacket htype msgId scr rc) = none)

include hput

theorem putPacket_observed
    (env : Env) (net : Net) (buf0 : Bytes) (buffers : List Bytes) (htype : PacketType)
    (msgId : MsgId) (scr : Bool) (MQTTVersion : Nat) :
    (MQTTPersistence.putPacket env net buf0 buffers htype msgId scr MQTTVersion).2.log.filterMap f =
      net.log.filterMap f := by
  rw [MQTTPersistence.putPacket_log, List.filterMap_append]
  split
  · rw [List.filterMap_cons_none (hput _ _ _ _), List.filterMap_nil, List.append_nil]
  · rw [List.filterMap_nil, List.append_nil]

theorem stored_observed
    (env : Env) (net : Net) (header : Header) (buffer : Bytes) (MQTTVersion : Nat) :
    (stored env net header buffer MQTTVersion).log.filterMap f = net.log.filterMap f := by
  unfold stored
  split
  · exact putPacket_observed hput env net _ _ _ _ _ _
  · rfl

theorem storeds_observed
    (env : Env) (net : Net) (header : Header) (bufs : PacketBuffers) (MQTTVersion : Nat) :
    (storeds env net header bufs MQTTVersion).log.filterMap f = net.log.filterMap f := by
  unfold storeds
  split
  · exact putPacket_observed hput env net _ _ _ _ _ _
  · rfl

/-- Only the start of the write is observed, and none where the socket is busy. -/
theorem send_observed
    (env : Env) (net : Net) (header : Header) (buffer : Bytes) (MQTTVersion : Nat) :
    ∃ store,
      (send env net header buffer MQTTVersion).2.log.filterMap f = net.log.filterMap f ++
        if Socket.noPendingWrites net then
          (f (.handed header (peekMsgId buffer) (send env net header buffer MQTTVersion).1
            store)).toList
        else [] := by
  refine ⟨(stored env net header buffer MQTTVersion).persistence, ?_⟩
  rw [send_log, List.filterMap_append, stored_observed hput]
  split
  · rw [List.filterMap_cons, List.filterMap_nil]
    cases f (.handed header (peekMsgId buffer) (send env net header buffer MQTTVersion).1
      (stored env net header buffer MQTTVersion).persistence) <;> rfl
  · rfl

theorem sends_observed
    (env : Env) (net : Net) (header : Header) (bufs : PacketBuffers) (MQTTVersion : Nat) :
    ∃ store,
      (sends env net header bufs MQTTVersion).2.2.log.filterMap f = net.log.filterMap f ++
        if Socket.noPendingWrites net then
          (f (.handed header (sendsMsgId header bufs) (sends env net header bufs MQTTVersion).1
            store)).toList
        else [] := by
  refine ⟨(storeds env net header bufs MQTTVersion).persistence, ?_⟩
  rw [sends_log, List.filterMap_append, storeds_observed hput]
  split
  · rw [List.filterMap_cons, List.filterMap_nil]
    cases f (.handed header (sendsMsgId header bufs) (sends env net header bufs MQTTVersion).1
      (storeds env net header bufs MQTTVersion).persistence) <;> rfl
  · rfl

end

end MQTTPacket

namespace Net

/-- The log gains observations of `ids`, in their order. -/
def Gains (f : Output → Option MsgId) (ids : List MsgId) (net net' : Net) : Prop :=
  ∃ seen : List MsgId, seen.Sublist ids ∧ net'.log.filterMap f = net.log.filterMap f ++ seen

namespace Gains

variable {f : Output → Option MsgId} {ids ids' : List MsgId} {net₁ net₂ net₃ : Net}

theorem of_eq
    (ids : List MsgId)
    (h : net₂.log.filterMap f = net₁.log.filterMap f) :
    Gains f ids net₁ net₂ :=
  ⟨[], List.nil_sublist _, by rw [h, List.append_nil]⟩

theorem trans
    (h₁ : Gains f ids net₁ net₂)
    (h₂ : Gains f ids' net₂ net₃) :
    Gains f (ids ++ ids') net₁ net₃ := by
  obtain ⟨seen₁, hsub₁, hlog₁⟩ := h₁
  obtain ⟨seen₂, hsub₂, hlog₂⟩ := h₂
  refine ⟨seen₁ ++ seen₂, hsub₁.append hsub₂, ?_⟩
  rw [hlog₂, hlog₁, List.append_assoc]

theorem closeSession
    (h : Gains f ids net₁ net₂)
    (hclose : f .closeSession = none) :
    Gains f ids net₁ (MQTTProtocol.closeSession net₂) := by
  obtain ⟨seen, hseen, hlog⟩ := h
  refine ⟨seen, hseen, ?_⟩
  rw [MQTTProtocol.closeSession, Net.emit, List.filterMap_append, List.filterMap_cons_none hclose,
    List.filterMap_nil, List.append_nil, hlog]

end Gains
end Net

/-! ### What a retry adds -/

/-- A retry sends the message as a PUBLISH. -/
def resendable (m : Messages) : Bool :=
  m.qos = 1 ∨ (m.qos = 2 ∧ m.nextMessageType = some .pubrec)

/-- The time of a retry has come. -/
def retryDue (retryInterval now : Int) (regardless : Bool) (m : Messages) : Bool :=
  regardless = true ∨ now - m.lastTouch > max retryInterval 10 * 1000

namespace MQTTProtocol

open MQTTPacket

section

variable {f : Output → Option MsgId}
  (hput : ∀ htype msgId scr rc, f (.putPacket htype msgId scr rc) = none)

include hput

theorem send_publish_gains
    (env : Env) (net : Net) (pack : Publish) (dup : Bool) {qos : Nat} (retained : Bool)
    {ids : List MsgId}
    (hqos : qos = 1 ∨ qos = 2)
    (hids : ∀ rc store,
      (f (.handed (publishHeader dup qos retained) pack.msgId rc store)).toList.Sublist ids) :
    Net.Gains f ids net (send_publish env net pack dup qos retained).2.2 := by
  obtain ⟨store, hlog⟩ := sends_observed hput env net
    (publishHeader dup qos retained) ⟨publishBuffers pack qos, pack.mask⟩ pack.MQTTVersion
  rw [sendsMsgId_publish pack dup retained _ hqos] at hlog
  refine ⟨_, ?_, hlog⟩
  split
  · exact hids _ _
  · exact List.nil_sublist _

theorem send_pubrel_gains
    (env : Env) (net : Net) (MQTTVersion : Nat) (msgid : MsgId) {ids : List MsgId}
    (hids : ∀ rc store,
      (f (.handed (ackHeader .pubrel false) msgid rc store)).toList.Sublist ids) :
    Net.Gains f ids net (send_pubrel env net MQTTVersion msgid false).2 := by
  obtain ⟨store, hlog⟩ := send_observed hput env net (ackHeader .pubrel false)
    (writeInt msgid.toNat) MQTTVersion
  rw [peekMsgId_ack] at hlog
  refine ⟨_, ?_, hlog⟩
  split
  · exact hids _ _
  · exact List.nil_sublist _

/-- A single retry sends a PUBLISH, a PUBREL or nothing. -/
theorem retryMessage_gains
    (hclose : f .closeSession = none)
    (env : Env) (retryInterval now : Int) (regardless : Bool) (net : Net) (m : Messages)
    {ids : List MsgId}
    (hpublish : retryDue retryInterval now regardless m = true → resendable m = true →
      ∀ rc store,
        (f (.handed (publishHeader true m.qos m.retain) m.msgid rc store)).toList.Sublist ids)
    (hpubrel : retryDue retryInterval now regardless m = true → ∀ rc store,
        (f (.handed (ackHeader .pubrel false) m.msgid rc store)).toList.Sublist ids) :
    Net.Gains f ids net (retryMessage env retryInterval now regardless net m).2.2 := by
  unfold retryMessage
  split
  next hdue =>
    have hdue' : retryDue retryInterval now regardless m = true := by simpa [retryDue] using hdue
    split
    next hqos =>
      have hre : resendable m = true := by simpa [resendable] using hqos
      split
      · exact Net.Gains.of_eq _ rfl
      next p _ =>
        have hsend := send_publish_gains hput env net (retryPublish m p) true m.retain
          (hqos.imp_right And.left) (hpublish hdue' hre)
        dsimp only
        split
        · exact hsend.closeSession hclose
        · exact hsend
    · split
      · have hsend := send_pubrel_gains hput env net m.MQTTVersion m.msgid (hpubrel hdue')
        dsimp only
        split
        · exact hsend.closeSession hclose
        · exact hsend
      · exact Net.Gains.of_eq _ rfl
  · exact Net.Gains.of_eq _ rfl

end

/-- The loop goes through the messages in their order. -/
theorem retryLoop_gains
    {f : Output → Option MsgId} {p : Messages → Bool}
    (env : Env) (retryInterval now : Int) (regardless connected : Bool)
    (hmsg : ∀ net m, Net.Gains f (if p m then [m.msgid] else []) net
      (retryMessage env retryInterval now regardless net m).2.2)
    (good : Bool) (net : Net) (msgs : List Messages) :
    Net.Gains f (msgIds (msgs.filter p)) net
      (retryLoop env retryInterval now regardless connected good net msgs).2.2 := by
  induction msgs generalizing good net with
  | nil =>
      exact Net.Gains.of_eq _ rfl
  | cons m msgs ih =>
      unfold retryLoop
      split
      · have htrans := (hmsg net m).trans
          (ih (retryMessage env retryInterval now regardless net m).2.1
            (retryMessage env retryInterval now regardless net m).2.2)
        rw [List.filter_cons]
        split
        next hm =>
          rw [if_pos hm] at htrans
          exact htrans
        next hm =>
          rw [if_neg hm] at htrans
          exact htrans
      · exact Net.Gains.of_eq _ rfl

end MQTTProtocol

/-! ### The connection of a client -/

namespace Clients

/-- No packet changes whether the client is connected. -/
theorem handle_connected
    (env : Env) (client : Clients) (pack : Packet) :
    (client.handle env pack).2.connected = client.connected :=
  (handle_fixed env client pack).2

theorem startPublish_connected
    (env : Env) (client : Clients) (publish : Publish) (qos : Nat) (retained : Bool) :
    (client.act env (.startPublish publish qos retained)).2.connected = client.connected := by
  simp only [act, MQTTProtocol.startPublish]
  split <;> rfl

theorem retry_connected
    (env : Env) (client : Clients) (now : Int) (doRetry regardless : Bool) :
    (MQTTProtocol.retry env now doRetry regardless client).connected = client.connected := by
  simp only [MQTTProtocol.retry, MQTTProtocol.retries]
  repeat' split
  all_goals rfl

theorem completeConnection_connected
    (env : Env) (client : Clients) (websocket : Bool) :
    (MQTTAsync.completeConnection env client websocket).connected = true := by
  simp only [MQTTAsync.completeConnection]
  split
  · rw [retry_connected]
  · rfl

end Clients

namespace MQTTAsync

/-- The QoS that `MQTTAsync_send` lets through. -/
theorem qos_toNat
    {qos : Int32}
    (hlow : 0 ≤ qos)
    (hhigh : qos ≤ 2) :
    qos.toNatClampNeg ≤ 2 ∧ (qos.toNatClampNeg > 0 ↔ qos > 0) := by
  rw [Int32.le_iff_toInt_le] at hlow hhigh
  have hzero : (0 : Int32).toInt = 0 := rfl
  have htwo : (2 : Int32).toInt = 2 := rfl
  have hnat : qos.toNatClampNeg = qos.toInt.toNat := rfl
  rw [gt_iff_lt, gt_iff_lt, Int32.lt_iff_toInt_lt]
  omega

namespace FlowState

theorem unpersistLoop_same
    (env : Env) (net : Net) (msgkeys : List Key) :
    let net' := (unpersistLoop env net msgkeys).2
    net'.log = net.log ∧ net'.writePending = net.writePending ∧ net'.calls ≥ net.calls := by
  induction msgkeys generalizing net with
  | nil =>
      exact ⟨rfl, rfl, le_refl _⟩
  | cons key msgkeys ih =>
      unfold unpersistLoop
      split
      · dsimp only
        split
        · obtain ⟨hlog, hpending, hcalls⟩ :=
            ih { net.tick with persistence := net.persistence.map (·.remove key) }
          exact ⟨hlog, hpending, (Nat.le_succ _).trans hcalls⟩
        · exact ⟨rfl, rfl, Nat.le_succ _⟩
      · exact ih net

theorem unpersistInflightMessages_same
    (env : Env) (pkeys : Int × List Key) (net : Net) :
    let net' := (unpersistInflightMessages env pkeys net).2
    net'.log = net.log ∧ net'.writePending = net.writePending ∧ net'.calls ≥ net.calls := by
  unfold unpersistInflightMessages
  split
  · exact ⟨rfl, rfl, le_refl _⟩
  · split
    · exact unpersistLoop_same env net pkeys.2
    · exact ⟨rfl, rfl, le_refl _⟩

/-- What `MQTTAsync_processCommand` has seen to before a publication is started. -/
structure PublishReady (s : FlowState) (pub : Pub) : Prop where
  closing : s.closing = false
  connected : s.client.connected = true
  noPendingWrites : Socket.noPendingWrites s.client.net = true
  ids_left : s.client.outboundMsgs.length < 65534
  flow_control : pub.qos > 0 → (s.client.outboundMsgs.length : Int) < s.maxInflightMessages

theorem publishReady
    {s : FlowState} {command : Command} {pub : Pub}
    (hpub : command.details = .pub pub)
    (hready : s.mayPublish command = true) :
    s.PublishReady pub := by
  have htype : command.type = .publish := by rw [Command.type, hpub]; rfl
  have hqos : command.qos = pub.qos := by rw [Command.qos, hpub]
  have hids : MAX_MSG_ID.toNat - 1 = 65534 := rfl
  rw [mayPublish, Bool.and_eq_true, Bool.not_eq_true', Connection.mayProcess] at hready
  obtain ⟨hclosing, hprocess⟩ := hready
  have hrequest : command.isRequest = true := by simp [Command.isRequest, htype]
  simp only [htype, hqos, hids, hrequest, connection] at hprocess
  split at hprocess
  next hconn =>
    simp only [reduceCtorEq, false_or] at hconn
    split at hprocess
    · cases hprocess
    next hleft =>
      split at hprocess
      · cases hprocess
      next hflow =>
        have hcount : ¬s.client.outboundMsgs.length ≥ 65534 := fun h => hleft ⟨trivial, h⟩
        refine ⟨hclosing, hconn.1, hconn.2.2, not_le.mp hcount, ?_⟩
        intro hpos
        exact not_le.mp (fun h => hflow ⟨Or.inl ⟨trivial, hpos⟩, h⟩)
  · cases hprocess

/-- The messages that are left when a CONNACK has cleaned the session or kept it. -/
def kept (s : FlowState) (connack : Connack) : List Messages :=
  if s.cleansOn connack then [] else s.client.outboundMsgs

theorem cleaned_spec
    (env : Env) (s : FlowState) (pkeys : Int × List Key) (connack : Connack) :
    let client := (s.cleaned env pkeys connack).2
    client.outboundMsgs = s.kept connack ∧ client.MQTTVersion = s.client.MQTTVersion ∧
      client.net.log = [] ∧ client.net.writePending = s.client.net.writePending ∧
      client.net.calls ≥ s.client.net.calls := by
  dsimp only [cleaned, kept]
  split
  · obtain ⟨hlog, hpending, hcalls⟩ := unpersistInflightMessages_same env pkeys s.client.start.net
    exact ⟨rfl, rfl, hlog, hpending, hcalls⟩
  · exact ⟨rfl, rfl, rfl, rfl, le_refl _⟩

/-- After a closing there is no connection, and no message that was not there before. -/
structure Closed (s t : FlowState) : Prop where
  connected : t.client.connected = false
  wire : t.wire = .closed
  version : t.client.MQTTVersion = s.client.MQTTVersion
  outbound : t.client.outboundMsgs = s.client.outboundMsgs ∨ t.client.outboundMsgs = []

theorem closeOnly_closed
    (env : Env) (s : FlowState) (disconnect : Bytes) :
    Closed s (s.closeOnly env disconnect) :=
  ⟨rfl, rfl, rfl, Or.inl rfl⟩

theorem closeSession_closed
    (env : Env) (s : FlowState) (disconnect : Bytes) (pkeys : Int × List Key) :
    Closed s (s.closeSession env disconnect pkeys) := by
  dsimp only [closeSession]
  split
  · exact ⟨rfl, rfl, rfl, Or.inr rfl⟩
  · exact closeOnly_closed env s disconnect

theorem nextOrClose_closed
    (env : Env) (s : FlowState) (more : Bool) (disconnect : Bytes) (pkeys : Int × List Key) :
    Closed s (s.nextOrClose env more disconnect pkeys) := by
  unfold nextOrClose
  split
  · exact closeOnly_closed env s disconnect
  · exact closeSession_closed env s disconnect pkeys

/-- A client that is not connected by a CONNACK is closed, and may have lost its messages. -/
theorem notCompleted_closed
    (env : Env) (s : FlowState) (pkeys : Int × List Key) (connack : Connack) (websocket : Bool)
    (more : Bool) (disconnect : Bytes) :
    Closed s
      ((s.notCompleted env pkeys connack websocket).nextOrClose env more disconnect pkeys) := by
  have hclosed :=
    nextOrClose_closed env (s.notCompleted env pkeys connack websocket) more disconnect pkeys
  rw [notCompleted] at hclosed ⊢
  split at hclosed
  next hconnected =>
    obtain ⟨hkept, hversion, _⟩ := cleaned_spec env s pkeys connack
    rw [if_pos hconnected]
    refine ⟨hclosed.connected, hclosed.wire, hclosed.version.trans hversion, ?_⟩
    rcases hclosed.outbound with hsame | hnone
    · rw [kept] at hkept
      split at hkept
      · exact .inr (hsame.trans hkept)
      · exact .inl (hsame.trans hkept)
    · exact .inr hnone
  next hother =>
    rw [if_neg hother]
    exact hclosed

end FlowState
end MQTTAsync
end PahoMqtt
