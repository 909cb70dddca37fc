import PahoMqtt.ConnectCycle
import PahoMqtt.Keepalive
import PahoMqtt.Lib.Runs

/-!
# Reconnecting automatically

How a client of MQTTAsync.c loses its connection, and how it is connected
again: the connect and disconnect commands of one client, in their order on the
command queue, and the interval that `MQTTAsync_checkTimeouts` waits for before
it tries once more.  The commands of other clients, and those that send, are
not here.

`mqttasync_mutex` is held while a command is processed, while the timeouts are
checked and while the receive thread handles a packet or an error.  A time is
the number of microseconds of the clock.
-/

namespace PahoMqtt
namespace MQTTAsync

open Keepalive (MQTTTime_difftime)

/-- `details.dis`, with the start time of the command. -/
structure DisconnectCommand where
  internal : Bool
  timeout : Int
  start_time : Int
deriving DecidableEq

inductive ConnectionCommand where
  | connect (command : ConnectCommand)
  | disconnect (command : DisconnectCommand)
deriving DecidableEq

/-- The commands are of one type. -/
def ConnectionCommand.sameType : ConnectionCommand → ConnectionCommand → Bool
  | .connect _, .connect _ => true
  | .disconnect _, .disconnect _ => true
  | _, _ => false

/-- The fields of a `MQTTAsyncs` that reconnecting depends on. -/
structure Reconnecting where
  serverURIcount : Nat
  /-- `c->MQTTVersion` -/
  MQTTVersion : Nat
  connected : Bool
  connect_state : ConnectState
  connect : ConnectCommand
  disconnect : DisconnectCommand
  /-- The connect and disconnect commands of the client on the queue. -/
  commands : List ConnectionCommand
  automaticReconnect : Bool
  minRetryInterval : Int
  maxRetryInterval : Int
  shouldBeConnected : Bool
  retrying : Bool
  reconnectNow : Bool
  currentIntervalBase : Int
  currentInterval : Int
  lastConnectionFailedTime : Int
  /-- How often connecting has failed since `retrying` was set; no function reads it. -/
  failures : Nat
  /-- The static `last` of `MQTTAsync_checkTimeouts`. -/
  last : Int

def RAND_MAX : Int := 2147483647

/-- `max_sleep` of `MQTTAsync_randomJitter`; a product with 1.2 is exact enough to be truncated. -/
def maxSleep (currentIntervalBase maxInterval : Int) : Int :=
  min maxInterval currentIntervalBase * 6 / 5

/-- `min_sleep` of `MQTTAsync_randomJitter` -/
def minSleep (currentIntervalBase minInterval : Int) : Int :=
  max minInterval currentIntervalBase * 5 / 6

/-- `MQTTAsync_randomJitter`, with the random number that ends its loop. -/
def randomJitter (currentIntervalBase minInterval maxInterval r : Int) : Int :=
  let max_sleep := maxSleep currentIntervalBase maxInterval
  let min_sleep := minSleep currentIntervalBase minInterval
  if min_sleep ≥ max_sleep then min_sleep
  else
    let range := max_sleep - min_sleep + 1
    let buckets := RAND_MAX / range
    min_sleep + r / buckets

/-- What the loop of `MQTTAsync_randomJitter` waits for. -/
def jitterLimit (currentIntervalBase minInterval maxInterval : Int) : Int :=
  let range :=
    maxSleep currentIntervalBase maxInterval - minSleep currentIntervalBase minInterval + 1
  RAND_MAX / range * range

/-- The options of `MQTTAsync_connect` that matter here. -/
structure ReconnectOptions where
  serverURIcount : Nat
  MQTTVersion : Nat
  onSuccess : Bool
  onFailure : Bool
  /-- `automaticReconnect` and the intervals, from version 4 of the structure on. -/
  retry : Option (Bool × Int × Int)

namespace Reconnecting

/-- A command becomes the first, unless one of its type heads the queue. -/
def insertFirst (s : Reconnecting) (command : ConnectionCommand) (atHead : Bool) : Reconnecting :=
  if atHead && s.commands.head?.any command.sameType then s
  else { s with commands := command :: s.commands.eraseP command.sameType }

/-- `MQTTAsync_addCommand`; `atHead` tells whether the first of the commands heads the queue. -/
def addCommand (s : Reconnecting) : ConnectionCommand → Bool → Reconnecting
  | .connect command, atHead => s.insertFirst (.connect command) atHead
  | .disconnect command, atHead =>
      if command.internal then s.insertFirst (.disconnect command) atHead
      else { s with commands := s.commands ++ [.disconnect command] }

/-- The base of the interval after another failure. -/
def nextBase (s : Reconnecting) : Int :=
  if s.retrying then min (s.currentIntervalBase * 2) s.maxRetryInterval
  else s.minRetryInterval

/-- `MQTTAsync_startConnectRetry` -/
def startConnectRetry (s : Reconnecting) (now r : Int) : Reconnecting :=
  if s.automaticReconnect && s.shouldBeConnected then
    { s with
      lastConnectionFailedTime := now
      currentIntervalBase := s.nextBase
      failures := if s.retrying then s.failures + 1 else 0
      retrying := true
      currentInterval := randomJitter s.nextBase s.minRetryInterval s.maxRetryInterval r }
  else s

/-- `MQTTAsync_closeOnly` -/
def closeOnly (s : Reconnecting) : Reconnecting :=
  { s with connected := false, connect_state := .notInProgress }

/-- The callbacks of the connect command once the failure callback is called. -/
def failureCalled (s : Reconnecting) : Reconnecting :=
  if s.connect.onFailure then
    { s with connect := { s.connect with onSuccess := false, onFailure := false } }
  else s

/-- `MQTTAsync_checkDisconnect`; `finished` tells that no message is in flight. -/
def checkDisconnect (s : Reconnecting) (command : DisconnectCommand) (finished : Bool)
    (now r : Int) : Reconnecting :=
  if finished || MQTTTime_difftime now command.start_time ≥ command.timeout then
    if command.internal then s.closeOnly.startConnectRetry now r else s.closeOnly
  else s

/-- `MQTTAsync_disconnect1` -/
def disconnect1 (s : Reconnecting) (internal : Bool) (timeout now : Int) (atHead : Bool) :
    Reconnecting :=
  let s := if internal then s else { s with shouldBeConnected := false }
  if s.connected then s.addCommand (.disconnect ⟨internal, timeout, now⟩) atHead else s

/-- A failed connect command in `MQTTAsync_processCommand`. -/
def connectFailed (s : Reconnecting) (command : ConnectCommand) (now r : Int) (atHead : Bool) :
    Reconnecting :=
  -- `MQTTAsync_disconnect` is called for its effect on a client that is not connected
  let s := { s.disconnect1 false 0 now atHead with shouldBeConnected := true }
  if checkConn s.serverURIcount s.MQTTVersion command then
    s.addCommand (.connect (advance s.MQTTVersion command)) atHead
  else { s with connect := command }.startConnectRetry now r

/-- `MQTTAsync_processCommand` for a connect command that is taken from the queue. -/
def processConnect (s : Reconnecting) (command : ConnectCommand) (result : ConnectResult)
    (now r : Int) (atHead : Bool) : Reconnecting :=
  if s.connect_state ≠ .notInProgress ∨ s.connected then { s with connect := command }
  else
    let command := { command with MQTTVersion := tryVersion s.MQTTVersion command }
    match result with
    | .inProgress state => { s with connect_state := state, connect := command }
    | .failed => s.connectFailed command now r atHead
    | .failedInProgress state =>
        { s with connect_state := state }.connectFailed command now r atHead

/-- `MQTTAsync_processCommand` for a disconnect command that is taken from the queue. -/
def processDisconnect (s : Reconnecting) (command : DisconnectCommand) (finished : Bool)
    (now r : Int) : Reconnecting :=
  let s :=
    if s.connect_state ≠ .notInProgress ∨ s.connected then
      let s := if s.connect_state ≠ .notInProgress then s.failureCalled else s
      { s with connect_state := .disconnecting }.checkDisconnect command finished now r
    else s
  { s with disconnect := command }

/-- `nextOrClose` -/
def nextOrClose (s : Reconnecting) (now r : Int) (atHead : Bool) : Reconnecting :=
  if checkConn s.serverURIcount s.MQTTVersion s.connect then
    s.closeOnly.addCommand (.connect (advance s.MQTTVersion s.connect)) atHead
  else s.closeOnly.failureCalled.startConnectRetry now r

/-- The command that `MQTTAsync_reconnect` and `MQTTAsync_checkTimeouts` put on the queue. -/
def reconnectCommand (s : Reconnecting) : ConnectionCommand :=
  .connect
    (if s.MQTTVersion = MQTTVERSION_DEFAULT then
      { s.connect with MQTTVersion := MQTTVERSION_DEFAULT }
    else s.connect)

/-- `MQTTAsync_reconnect` -/
def reconnect (s : Reconnecting) (atHead : Bool) : Reconnecting :=
  if s.automaticReconnect then
    if s.shouldBeConnected then
      let s := { s with reconnectNow := true }
      if s.retrying then s
      else
        { s with
          currentIntervalBase := s.minRetryInterval
          currentInterval := s.minRetryInterval
          failures := 0
          retrying := true }
    else s
  else s.addCommand s.reconnectCommand atHead

/-- The time of an automatic reconnect has come. -/
def reconnects (s : Reconnecting) (now : Int) : Bool :=
  s.automaticReconnect && s.retrying &&
    (s.reconnectNow ||
      MQTTTime_difftime now s.lastConnectionFailedTime > s.currentInterval * 1000)

/-- `MQTTAsync_checkTimeouts` is not called again too soon. -/
def due (s : Reconnecting) (now : Int) : Bool :=
  MQTTTime_difftime now s.last ≥ 3000

/-- `MQTTAsync_checkTimeouts` for a disconnect that waits for the messages in flight. -/
def checkDisconnecting (s : Reconnecting) (finished : Bool) (now r : Int) : Reconnecting :=
  if s.connect_state = .disconnecting then s.checkDisconnect s.disconnect finished now r else s

/-- `MQTTAsync_checkTimeouts`; `timedOut` tells that the connect command has. -/
def checkTimeouts (s : Reconnecting) (finished timedOut : Bool) (now r : Int) (atHead : Bool) :
    Reconnecting :=
  if s.due now then
    let s := { s with last := now }.checkDisconnecting finished now r
    if s.connect_state ≠ .notInProgress ∧ timedOut then s.nextOrClose now r atHead
    else if s.reconnects now then
      { s.addCommand s.reconnectCommand atHead with reconnectNow := false }
    else s
  else s

/-- `MQTTAsync_completeConnection`, with a CONNACK that accepts. -/
def completeConnection (s : Reconnecting) : Reconnecting :=
  { s with
    retrying := false
    connected := true
    connect_state := .notInProgress
    connect :=
      if s.connect.onSuccess then { s.connect with onSuccess := false, onFailure := false }
      else s.connect }

/-- `MQTTAsync_connect`, as far as it does not fail. -/
def startConnect (s : Reconnecting) (options : ReconnectOptions) (atHead : Bool) :
    Reconnecting :=
  let (automaticReconnect, minRetryInterval, maxRetryInterval) :=
    options.retry.getD (s.automaticReconnect, s.minRetryInterval, s.maxRetryInterval)
  { s with
    serverURIcount := options.serverURIcount
    MQTTVersion := options.MQTTVersion
    automaticReconnect, minRetryInterval, maxRetryInterval
    connect := { s.connect with onSuccess := options.onSuccess, onFailure := options.onFailure }
    shouldBeConnected := true }.addCommand
      (.connect ⟨0, MQTTVERSION_DEFAULT, options.onSuccess, options.onFailure⟩) atHead

end Reconnecting

/-- What the threads and the application do; `r` is a random number, if one is needed. -/
inductive ReconnectEvent where
  | connect (options : ReconnectOptions) (atHead : Bool)
  | reconnect (atHead : Bool)
  /-- `MQTTAsync_disconnect` is called by the application. -/
  | disconnect (timeout now : Int) (atHead : Bool)
  /-- `MQTTAsync_disconnect_internal` -/
  | disconnectInternal (now : Int) (atHead : Bool)
  | processCommand (result : ConnectResult) (finished : Bool) (now r : Int) (atHead : Bool)
  | checkTimeouts (finished timedOut : Bool) (now r : Int) (atHead : Bool)
  /-- `MQTTAsync_connecting` reaches another stage. -/
  | connecting (state : ConnectState)
  | nextOrClose (now r : Int) (atHead : Bool)
  | connack

namespace Reconnecting

/-- `MQTTAsync_processCommand` for the first command of the client. -/
def processCommand (s : Reconnecting) (result : ConnectResult) (finished : Bool) (now r : Int)
    (atHead : Bool) : Reconnecting :=
  match s.commands with
  | [] => s
  | .connect command :: commands =>
      { s with commands }.processConnect command result now r atHead
  | .disconnect command :: commands =>
      { s with commands }.processDisconnect command finished now r

def next (s : Reconnecting) : ReconnectEvent → Reconnecting
  | .connect options atHead => s.startConnect options atHead
  | .reconnect atHead => s.reconnect atHead
  | .disconnect timeout now atHead => s.disconnect1 false timeout now atHead
  | .disconnectInternal now atHead => s.disconnect1 true 0 now atHead
  | .processCommand result finished now r atHead => s.processCommand result finished now r atHead
  | .checkTimeouts finished timedOut now r atHead => s.checkTimeouts finished timedOut now r atHead
  | .connecting state => { s with connect_state := state }
  | .nextOrClose now r atHead => s.nextOrClose now r atHead
  | .connack => s.completeConnection

/-- A random number that ends the loop of `MQTTAsync_randomJitter`, where that comes to it. -/
def EndsLoop (s : Reconnecting) (r : Int) : Prop :=
  minSleep s.nextBase s.minRetryInterval < maxSleep s.nextBase s.maxRetryInterval →
    0 ≤ r ∧ r < jitterLimit s.nextBase s.minRetryInterval s.maxRetryInterval

/--
An attempt goes through its stages, and only an attempt or a connection can fail.  The
intervals are short enough for an `int` of milliseconds.
-/
def Admissible (s : Reconnecting) : ReconnectEvent → Prop
  | .connect options _ => ∀ retry ∈ options.retry, retry.2.1 ≤ 1000000 ∧ retry.2.2 ≤ 1000000
  | .processCommand result _ _ r _ =>
      s.EndsLoop r ∧
        match result with
        | .inProgress state | .failedInProgress state => ConnectingState.Stage state
        | .failed => True
  | .checkTimeouts _ _ _ r _ => s.EndsLoop r
  | .connecting state =>
      ConnectingState.Stage s.connect_state ∧ ConnectingState.Stage state
  | .nextOrClose _ r _ =>
      s.EndsLoop r ∧ (s.connect_state ≠ .notInProgress ∨ s.connected = true)
  | .connack => s.connect_state = .waitForConnack
  | _ => True

def Step (s : Reconnecting) (e : ReconnectEvent) (t : Reconnecting) : Prop :=
  s.Admissible e ∧ t = s.next e

end Reconnecting
end MQTTAsync
end PahoMqtt
