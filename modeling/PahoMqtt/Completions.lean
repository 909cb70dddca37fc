import PahoMqtt.FlowControl

/-!
# The completion of requests

A request of the application waits on the command queue until it is started, and
then among the responses of its client until the packet comes that completes it.
`MQTTAsync_cycle` looks for the response by the id of the packet alone, after the
handler has dealt with the message of that id: what the handler made of the
packet it does not ask.

`mqttasync_mutex` is held while a packet is handled, while a command is
processed and while a client is closed or destroyed, so that each of these is
one step.
-/

namespace PahoMqtt

open MQTTPacket MQTTProtocol

namespace MQTTAsync

/-- The callbacks of a request, by whether they are set. -/
structure Callbacks where
  onSuccess : Bool
  onFailure : Bool
  onSuccess5 : Bool
  onFailure5 : Bool
deriving DecidableEq

/-- A request on a list; its serial number stands for its address. -/
structure PendingRequest where
  serial : Nat
  command : Command
  callbacks : Callbacks
deriving DecidableEq

/-- The functions that call the callbacks of a request. -/
inductive Reporter where
  | cycle
  | processCommand
  | receiveThread
  | writeComplete
  | freeResponses
  | freeCommands
deriving DecidableEq

/-- A callback that was called. -/
inductive Report where
  | deliveryComplete (msgid : MsgId)
  | completed (reporter : Reporter) (request : PendingRequest) (success : Bool)
deriving DecidableEq

namespace PendingRequest

/-- A publication of QoS 1 or 2. -/
def isAcknowledged (request : PendingRequest) : Bool :=
  request.command.type = .publish && request.command.qos > 0

/-- The id that a publication is sent with. -/
def msgId (request : PendingRequest) : MsgId :=
  UInt16.ofNat request.command.token.toNatClampNeg

/-- `onSuccess` or else `onSuccess5` is called. -/
def succeed (reporter : Reporter) (request : PendingRequest) : List Report :=
  if request.callbacks.onSuccess || request.callbacks.onSuccess5 then
    [.completed reporter request true]
  else []

/-- `onFailure` or else `onFailure5` is called. -/
def fail (reporter : Reporter) (request : PendingRequest) : List Report :=
  if request.callbacks.onFailure || request.callbacks.onFailure5 then
    [.completed reporter request false]
  else []

end PendingRequest

/--
A client with its requests.  `deliveryComplete` tells whether that callback is
set; `pending_write` is the address of the request that it points to.
-/
structure CompletionState where
  flow : FlowState
  deliveryComplete : Bool
  commands : List PendingRequest
  responses : List PendingRequest
  pending_write : Option Nat
  accepted : Nat
  /-- The callbacks that the last step has called. -/
  reports : List Report

/-- `MQTT_BAD_SUBSCRIBE` -/
def BAD_SUBSCRIBE : Nat := 128

namespace FlowState

/-- `MQTTAsync_closeSession` cleans the session. -/
def cleansOnClose (s : FlowState) : Bool :=
  s.cleansession || s.client.MQTTVersion ≥ 5 && s.sessionExpiry = 0

/-- `MQTTAsync_cleanSession` is called. -/
def cleansSession (env : Env) (s : FlowState) : FlowEvent → Bool
  | .connack connack _ pkeys more _ =>
      if s.connect_state = .waitForConnack ∧ connack.rc = 0 then
        s.cleansOn connack ||
          (s.cleaned env pkeys connack).1 ≠ 0 && !more && s.cleansOnClose
      else !more && s.cleansOnClose
  | .closeSession .. => s.cleansOnClose
  | _ => false

/-- A SUBSCRIBE or an UNSUBSCRIBE was written, with this result. -/
def requestSent (s : FlowState) (rc : Int) : FlowState :=
  let net := s.client.start.net.tick
  { s with
    client := { s.client.start with
      net := { net with writePending := net.writePending || rc = TCPSOCKET_INTERRUPTED } }
    closing := s.closing || rc = SOCKET_ERROR || rc = MQTTPersistence.PERSISTENCE_ERROR }

end FlowState

namespace CompletionState

/-- A step calls its own callbacks and starts its own log. -/
def start (s : CompletionState) : CompletionState :=
  { s with flow := { s.flow with client := s.flow.client.start }, reports := [] }

/-- `MQTTAsync_freeResponses` -/
def freeResponses (s : CompletionState) : CompletionState :=
  { s with
    responses := []
    reports := s.reports ++ s.responses.flatMap (PendingRequest.fail .freeResponses) }

/-- `MQTTAsync_freeCommands` -/
def freeCommands (s : CompletionState) : CompletionState :=
  { s with
    commands := []
    reports := s.reports ++ s.commands.flatMap (PendingRequest.fail .freeCommands) }

/-- `MQTTAsync_addCommand` of a new request; `full` tells whether the buffer of the client is. -/
def addCommand (s : CompletionState) (command : Command) (callbacks : Callbacks) (full : Bool) :
    CompletionState :=
  let commands := s.commands ++ [⟨s.accepted, command, callbacks⟩]
  { s with
    commands :=
      if command.type = .publish ∧ full = true then
        commands.eraseP (fun request => request.command.type = .publish)
      else commands
    accepted := s.accepted + 1 }

/-- The part of `MQTTAsync_processCommand` that starts a request: its result and the client. -/
def startRequest (env : Env) (s : CompletionState) (command : Command) (rc : Int) :
    Int × FlowState :=
  match command.details with
  | .pub pub =>
      ((s.flow.client.start.act env (.startPublish (publishOf s.flow.client command pub)
          pub.qos.toNatClampNeg (pub.retained ≠ 0))).1,
        s.flow.next env (.processCommand command pub))
  | _ => (rc, s.flow.requestSent rc)

/-- The rest of `MQTTAsync_processCommand`, with the result of the start. -/
def requestStarted (s : CompletionState) (request : PendingRequest) (rc : Int) : CompletionState :=
  let unacknowledged := request.command.type = .publish ∧ request.command.qos = 0
  let s :=
    if unacknowledged then
      if rc = TCPSOCKET_COMPLETE then
        { s with reports := s.reports ++ request.succeed .processCommand }
      else { s with pending_write := some request.serial }
    else s
  if unacknowledged ∧ rc ≠ SOCKET_ERROR ∧ rc ≠ MQTTPersistence.PERSISTENCE_ERROR then
    if rc = TCPSOCKET_INTERRUPTED then { s with responses := s.responses ++ [request] } else s
  else if rc = SOCKET_ERROR ∨ rc = MQTTPersistence.PERSISTENCE_ERROR then
    { s with reports := s.reports ++ request.fail .processCommand }
  else { s with responses := s.responses ++ [request] }

/--
`MQTTAsync_processCommand`; `rc` is what became of the write of a SUBSCRIBE or
an UNSUBSCRIBE.
-/
def processCommand (env : Env) (s : CompletionState) (request : PendingRequest) (rc : Int) :
    CompletionState :=
  let (rc, flow) := s.startRequest env request.command rc
  { s with flow, commands := s.commands.erase request }.requestStarted request rc

/-- The first response that has the id as its token. -/
def findResponse (s : CompletionState) (msgid : MsgId) : Option PendingRequest :=
  s.responses.find? (fun request => request.command.token = Int32.ofNat msgid.toNat)

/-- The callbacks of `MQTTAsync_cycle`, after the handler of the packet. -/
def acknowledged (s : CompletionState) (msgid : MsgId) (ackrc : UInt8) : CompletionState :=
  let s :=
    if s.deliveryComplete then { s with reports := s.reports ++ [.deliveryComplete msgid] } else s
  match s.findResponse msgid with
  | none => s
  | some request =>
      { s with
        responses := s.responses.erase request
        reports := s.reports ++
          if request.callbacks.onSuccess then [.completed .cycle request true]
          else if request.callbacks.onSuccess5 = true ∧ ackrc < UNSPECIFIED_ERROR then
            [.completed .cycle request true]
          else if request.callbacks.onFailure5 = true ∧ ackrc ≥ UNSPECIFIED_ERROR then
            [.completed .cycle request false]
          else [] }

/-- `MQTTAsync_cycle` with a packet of the client; the retry after it is a step of its own. -/
def cycle (env : Env) (s : CompletionState) (pack : Packet) : CompletionState :=
  let s := { s with flow := s.flow.next env (.packet pack) }
  match pack with
  | .ack pack =>
      if pack.acknowledges then
        s.acknowledged pack.msgId (if pack.MQTTVersion ≥ 5 then pack.rc else 0)
      else s
  | .publish _ => s

/-- The callbacks of `MQTTAsync_receiveThread` for a SUBACK. -/
def suback (s : CompletionState) (msgid : MsgId) (qoss : List Nat) : CompletionState :=
  match s.findResponse msgid with
  | none => s
  | some request =>
      { s with
        responses := s.responses.erase request
        reports := s.reports ++
          if s.flow.client.MQTTVersion ≥ 5 then
            if qoss.length = 1 ∧ qoss.headD 0 ≥ UNSPECIFIED_ERROR.toNat then
              if request.callbacks.onFailure5 then [.completed .receiveThread request false] else []
            else if request.callbacks.onSuccess5 then [.completed .receiveThread request true]
            else []
          else if qoss.length = 1 ∧ qoss.headD 0 = BAD_SUBSCRIBE then
            if request.callbacks.onFailure then [.completed .receiveThread request false] else []
          else if request.callbacks.onSuccess then [.completed .receiveThread request true]
          else [] }

/-- The callbacks of `MQTTAsync_receiveThread` for an UNSUBACK. -/
def unsuback (s : CompletionState) (msgid : MsgId) : CompletionState :=
  match s.findResponse msgid with
  | none => s
  | some request =>
      { s with
        responses := s.responses.erase request
        reports := s.reports ++ request.succeed .receiveThread }

/-- The request that `pending_write` points to, where it is among the responses. -/
def pendingResponse (s : CompletionState) : Option PendingRequest :=
  match s.pending_write with
  | none => none
  | some addr => s.responses.find? (fun request => request.serial = addr)

/-- `MQTTAsync_writeComplete` -/
def writeComplete (env : Env) (s : CompletionState) (rc : Int) : CompletionState :=
  let s := { s with flow := s.flow.next env .continueWrites }
  match s.pendingResponse with
  | none => { s with pending_write := none }
  | some request =>
      let detached := { s with responses := s.responses.erase request, pending_write := none }
      if request.command.type = .publish then
        if rc = 1 ∧ request.command.qos = 0 then
          { detached with reports := s.reports ++ request.succeed .writeComplete }
        else if rc = -1 then
          { detached with reports := s.reports ++ request.fail .writeComplete }
        else { s with pending_write := none }
      else detached

/-- A step of the connection, with the responses that it frees. -/
def connection (env : Env) (s : CompletionState) (e : FlowEvent) : CompletionState :=
  let t := { s with flow := s.flow.next env e }
  if s.flow.cleansSession env e then t.freeResponses else t

end CompletionState

/-- What the threads do to the requests of a client. -/
inductive CompletionEvent where
  | addCommand (command : Command) (callbacks : Callbacks) (full : Bool)
  | processCommand (request : PendingRequest) (rc : Int)
  | cycle (pack : Packet)
  | suback (msgid : MsgId) (qoss : List Nat)
  | unsuback (msgid : MsgId)
  | writeComplete (rc : Int)
  /-- The client is connected, is closed, or retries. -/
  | connection (e : FlowEvent)
  /-- `MQTTAsync_destroy`, which is the last step of a client. -/
  | destroy (disconnect : Bytes) (pkeys : Int × List Key)

/-- The events of a connection that the requests have no part in. -/
def FlowEvent.ofConnection : FlowEvent → Bool
  | .processCommand .. => false
  | .continueWrites => false
  | .packet _ => false
  | _ => true

namespace CompletionState

def next (env : Env) (s : CompletionState) : CompletionEvent → CompletionState
  | .addCommand command callbacks full => s.start.addCommand command callbacks full
  | .processCommand request rc => s.start.processCommand env request rc
  | .cycle pack => s.start.cycle env pack
  | .suback msgid qoss => s.start.suback msgid qoss
  | .unsuback msgid => s.start.unsuback msgid
  | .writeComplete rc => s.start.writeComplete env rc
  | .connection e => s.start.connection env e
  | .destroy disconnect pkeys =>
      ((s.start.connection env (.closeSession disconnect pkeys)).freeResponses).freeCommands

/--
`MQTTAsync_send` has checked the QoS of a publication; a command is processed
when its turn comes.
-/
def Admissible (s : CompletionState) : CompletionEvent → Prop
  | .addCommand command _ _ => command.isRequest = true
  | .processCommand request _ =>
      request ∈ s.commands ∧ 0 ≤ request.command.qos ∧ request.command.qos ≤ 2 ∧
        s.flow.mayPublish request.command = true
  | .cycle pack => pack.MQTTVersion = s.flow.client.MQTTVersion
  | .connection e => e.ofConnection = true ∧ s.flow.Admissible e
  | _ => True

/-- A step of the threads. -/
def Step (env : Env) (s : CompletionState) (e : CompletionEvent) (t : CompletionState) : Prop :=
  s.Admissible e ∧ t = s.next env e

/-- A client that has made no request. -/
def fresh (MQTTVersion : Nat) (persistence : Option Store) (deliveryComplete : Bool) :
    CompletionState where
  flow := FlowState.fresh MQTTVersion persistence
  deliveryComplete := deliveryComplete
  commands := []
  responses := []
  pending_write := none
  accepted := 0
  reports := []

end CompletionState

end MQTTAsync
end PahoMqtt
