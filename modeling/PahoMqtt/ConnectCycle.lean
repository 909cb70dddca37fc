import PahoMqtt.CommandQueue

/-!
# Connecting to one of several servers

A connect command carries the index of the server it is for and the version of
the protocol; when an attempt fails it is put back on the queue for the next
server or the next version.  Three functions advance the pair, and others put a
connect command on the queue on their own account.  The module follows the
attempts of a connect cycle and says when they go through all the servers.

Of the command queue only the connect command of the client matters here;
`MQTTAsync_addCommand` keeps no more than one.  `mqttasync_mutex` is held while
a command is processed and while a failed attempt is dealt with.
-/

namespace PahoMqtt
namespace MQTTAsync

/-- `details.conn`, and whether a callback of either kind is set. -/
structure ConnectCommand where
  currentURI : Nat
  MQTTVersion : Nat
  onSuccess : Bool
  onFailure : Bool
deriving DecidableEq, Repr

def MQTTVERSION_DEFAULT : Nat := 0

def MQTTVERSION_3_1 : Nat := 3

def MQTTVERSION_3_1_1 : Nat := 4

/-- What has become of a connect cycle. -/
inductive Outcome where
  | running
  | succeeded
  | failed
deriving DecidableEq, Repr

/--
A connect cycle as the application sees it: the servers and versions that were
tried, whether there is a failure callback, and how often it was called.
-/
structure Cycle where
  tried : List (Nat × Nat)
  onFailure : Bool
  failures : Nat
  outcome : Outcome
deriving DecidableEq

/-- The fields of a `MQTTAsyncs` that connecting depends on. -/
structure ConnectingState where
  serverURIcount : Nat
  /-- `c->MQTTVersion`, the version that the options ask for. -/
  MQTTVersion : Nat
  connected : Bool
  connect_state : ConnectState
  connect : ConnectCommand
  /-- The connect command on the queue. -/
  queued : Option ConnectCommand
  automaticReconnect : Bool
  shouldBeConnected : Bool
  retrying : Bool
  reconnectNow : Bool
  /-- The cycle that was started last; no function of the client reads it. -/
  cycle : Option Cycle

/-- `MQTTAsync_checkConn` -/
def checkConn (serverURIcount version : Nat) (command : ConnectCommand) : Bool :=
  command.currentURI + 1 < serverURIcount ||
    command.MQTTVersion = MQTTVERSION_3_1_1 && version = MQTTVERSION_DEFAULT

/-- The version that `MQTTAsync_processCommand` tries, with the version of the options. -/
def tryVersion (version : Nat) (command : ConnectCommand) : Nat :=
  if version = MQTTVERSION_DEFAULT then
    if command.MQTTVersion = MQTTVERSION_DEFAULT then MQTTVERSION_3_1_1
    else if command.MQTTVersion = MQTTVERSION_3_1_1 then MQTTVERSION_3_1
    else command.MQTTVersion
  else version

/-- The command for the next attempt, as `MQTTAsync_processCommand` and `nextOrClose` change it. -/
def advance (version : Nat) (command : ConnectCommand) : ConnectCommand :=
  if version = MQTTVERSION_DEFAULT then
    if command.MQTTVersion = MQTTVERSION_3_1 then
      { command with
        currentURI := command.currentURI + 1, MQTTVersion := MQTTVERSION_DEFAULT }
    else command
  else { command with currentURI := command.currentURI + 1 }

/-- What `MQTTProtocol_connect` comes to. -/
inductive ConnectResult where
  /-- The attempt goes on. -/
  | inProgress (state : ConnectState)
  | failed
  /-- The handshake with a proxy has failed, and `connect_state` is left as it was set for it. -/
  | failedInProgress (state : ConnectState)

namespace ConnectingState

/-- `MQTTAsync_addCommand`; `atHead` tells whether the command that is there heads the queue. -/
def addCommand (s : ConnectingState) (command : ConnectCommand) (atHead : Bool) :
    ConnectingState :=
  if s.queued.isSome ∧ atHead = true then s else { s with queued := some command }

/-- `MQTTAsync_startConnectRetry` -/
def startConnectRetry (s : ConnectingState) : ConnectingState :=
  if s.automaticReconnect = true ∧ s.shouldBeConnected = true then { s with retrying := true }
  else s

/-- A server is tried; what follows the end of a cycle in success is no part of it. -/
def attempt (s : ConnectingState) (pair : Nat × Nat) : ConnectingState :=
  { s with cycle := s.cycle.map fun c =>
      if c.outcome = .succeeded then c else { c with tried := c.tried ++ [pair] } }

/-- The last attempt has failed, and the failure callback is called where it is set. -/
def giveUp (s : ConnectingState) (onFailure : Bool) : ConnectingState :=
  { s with cycle := s.cycle.map fun c =>
      if c.outcome = .succeeded then c
      else { c with
        outcome := .failed, failures := c.failures + if onFailure then 1 else 0 } }

/-- A cycle is running. -/
def running (s : ConnectingState) : Bool :=
  s.cycle.any (·.outcome = .running)

/-- A connect command is put on the queue; unless a cycle is running, it starts one. -/
def startCycle (s : ConnectingState) (command : ConnectCommand) (atHead : Bool) :
    ConnectingState :=
  let t := s.addCommand command atHead
  if s.running then t
  else { t with cycle := some ⟨[], command.onFailure, 0, .running⟩ }

/-- The command that `MQTTAsync_reconnect` and `MQTTAsync_checkTimeouts` put on the queue. -/
def reconnectCommand (s : ConnectingState) : ConnectCommand :=
  if s.MQTTVersion = MQTTVERSION_DEFAULT then
    { s.connect with MQTTVersion := MQTTVERSION_DEFAULT }
  else s.connect

/-- `MQTTAsync_reconnect` -/
def reconnect (s : ConnectingState) (atHead : Bool) : ConnectingState :=
  if s.automaticReconnect then
    if s.shouldBeConnected then { s with reconnectNow := true, retrying := true } else s
  else s.startCycle s.reconnectCommand atHead

/-- The time of an automatic reconnect has come in `MQTTAsync_checkTimeouts`. -/
def reconnectsNow (s : ConnectingState) (elapsed : Bool) : Bool :=
  s.automaticReconnect && s.retrying && (s.reconnectNow || elapsed)

/-- The reconnect in `MQTTAsync_checkTimeouts`. -/
def checkTimeouts (s : ConnectingState) (elapsed atHead : Bool) : ConnectingState :=
  if s.reconnectsNow elapsed then
    { s.startCycle s.reconnectCommand atHead with reconnectNow := false }
  else s

/-- A failed connect command in `MQTTAsync_processCommand`. -/
def connectFailed (s : ConnectingState) (command : ConnectCommand) : ConnectingState :=
  let s := { s with shouldBeConnected := true }
  if checkConn s.serverURIcount s.MQTTVersion command then
    s.addCommand (advance s.MQTTVersion command) false
  else { s.giveUp command.onFailure with connect := command }.startConnectRetry

/-- The connect command of `MQTTAsync_processCommand`, taken from the queue. -/
def processCommand (s : ConnectingState) (command : ConnectCommand) (result : ConnectResult) :
    ConnectingState :=
  let s := { s with queued := none }
  if s.connect_state ≠ .notInProgress ∨ s.connected = true then
    { s with connect := command }
  else
    let command := { command with MQTTVersion := tryVersion s.MQTTVersion command }
    let s := s.attempt (command.currentURI, command.MQTTVersion)
    match result with
    | .inProgress state => { s with connect_state := state, connect := command }
    | .failed => s.connectFailed command
    | .failedInProgress state => { s with connect_state := state }.connectFailed command

/-- The connection is closed, or was not made. -/
def closeOnly (s : ConnectingState) : ConnectingState :=
  { s with connected := false, connect_state := .notInProgress }

/-- `nextOrClose`; a connection that was lost is no attempt of a cycle. -/
def nextOrClose (s : ConnectingState) (atHead : Bool) : ConnectingState :=
  let s := if s.connected then { s with cycle := none } else s
  if checkConn s.serverURIcount s.MQTTVersion s.connect then
    s.closeOnly.addCommand (advance s.MQTTVersion s.connect) atHead
  else
    let t := s.closeOnly.giveUp s.connect.onFailure
    let t :=
      -- both pointers are nulled once the failure callback is called
      if s.connect.onFailure then
        { t with connect := { t.connect with onSuccess := false, onFailure := false } }
      else t
    t.startConnectRetry

/-- A CONNACK that accepts. -/
def completeConnection (s : ConnectingState) : ConnectingState :=
  { s with
    retrying := false
    connected := true
    connect_state := .notInProgress
    connect :=
      if s.connect.onSuccess then { s.connect with onSuccess := false, onFailure := false }
      else s.connect
    cycle := s.cycle.map fun c => if c.outcome = .running then { c with outcome := .succeeded } else c }

end ConnectingState

/-- What the threads do to the connection of a client. -/
inductive ConnectEvent where
  | connect (serverURIcount MQTTVersion : Nat) (onSuccess onFailure automaticReconnect : Bool)
      (atHead : Bool)
  | reconnect (atHead : Bool)
  | checkTimeouts (elapsed : Bool) (atHead : Bool)
  | processCommand (result : ConnectResult)
  /-- `MQTTAsync_connecting` reaches another stage. -/
  | connecting (state : ConnectState)
  | nextOrClose (atHead : Bool)
  | connack
  /-- A DISCONNECT is processed; it may wait for the messages in flight. -/
  | disconnect (closes : Bool)

namespace ConnectingState

def next (s : ConnectingState) : ConnectEvent → ConnectingState
  | .connect serverURIcount MQTTVersion onSuccess onFailure automaticReconnect atHead =>
      let t := { s with
        serverURIcount, MQTTVersion, automaticReconnect
        connect := { s.connect with onSuccess, onFailure }
        shouldBeConnected := true }
      { t.addCommand ⟨0, MQTTVERSION_DEFAULT, onSuccess, onFailure⟩ atHead with
        cycle := some ⟨[], onFailure, 0, .running⟩ }
  | .reconnect atHead => s.reconnect atHead
  | .checkTimeouts elapsed atHead => s.checkTimeouts elapsed atHead
  | .processCommand result =>
      match s.queued with
      | some command => s.processCommand command result
      | none => s
  | .connecting state => { s with connect_state := state }
  | .nextOrClose atHead => s.nextOrClose atHead
  | .connack => s.completeConnection
  | .disconnect closes =>
      let s := { s with connect_state := .disconnecting, cycle := none }
      if closes then s.closeOnly else s

/-- The stages of an attempt. -/
def Stage (state : ConnectState) : Prop :=
  state ≠ .notInProgress ∧ state ≠ .disconnecting

/--
There is at least one server; an attempt goes through its stages, and only an
attempt or a connection can fail or be closed.
-/
def Admissible (s : ConnectingState) : ConnectEvent → Prop
  | .connect serverURIcount _ _ _ _ _ => 1 ≤ serverURIcount
  | .processCommand result =>
      s.queued.isSome = true ∧
        match result with
        | .inProgress state | .failedInProgress state => Stage state
        | .failed => True
  | .connecting state => Stage s.connect_state ∧ Stage state
  | .nextOrClose _ => s.connect_state ≠ .notInProgress ∨ s.connected = true
  | .connack => s.connect_state = .waitForConnack
  | .disconnect _ => s.connect_state ≠ .notInProgress ∨ s.connected = true
  | _ => True

/-- A step of the threads. -/
def Step (s : ConnectingState) (e : ConnectEvent) (t : ConnectingState) : Prop :=
  s.Admissible e ∧ t = s.next e

/-- A client that has not been connected. -/
def fresh : ConnectingState where
  serverURIcount := 1
  MQTTVersion := MQTTVERSION_DEFAULT
  connected := false
  connect_state := .notInProgress
  connect := ⟨0, 0, false, false⟩
  queued := none
  automaticReconnect := false
  shouldBeConnected := false
  retrying := false
  reconnectNow := false
  cycle := none

/-! ### What a cycle is for -/

/-- The servers and versions in the order in which a cycle has to try them. -/
def pairs (serverURIcount version : Nat) : List (Nat × Nat) :=
  if version = MQTTVERSION_DEFAULT then
    (List.range serverURIcount).flatMap
      fun k => [(k, MQTTVERSION_3_1_1), (k, MQTTVERSION_3_1)]
  else (List.range serverURIcount).map fun k => (k, version)

/-- The attempts of a cycle are as they have to be. -/
structure Cycle.Good (serverURIcount version : Nat) (c : Cycle) : Prop where
  in_order : c.tried <+: pairs serverURIcount version
  once : c.tried.Nodup
  all_tried : c.outcome = .failed → c.tried = pairs serverURIcount version
  failures : c.failures = if c.outcome = .failed ∧ c.onFailure = true then 1 else 0

/--
The cycle is as it has to be: while it runs, an attempt is going on or waits for
its turn, and the index of the server is within the list; once it has failed,
nothing is left to be tried.
-/
structure TriesEveryServer (s : ConnectingState) : Prop where
  good : ∀ c, s.cycle = some c → Cycle.Good s.serverURIcount s.MQTTVersion c
  goes_on : s.running = true → s.queued.isSome = true ∨ s.connect_state ≠ .notInProgress
  index_lt : s.running = true → s.connect_state ≠ .notInProgress →
    s.connect.currentURI < s.serverURIcount
  stops : ∀ c, s.cycle = some c → c.outcome = .failed →
    s.queued = none ∧ s.connect_state = .notInProgress

end ConnectingState
end MQTTAsync
end PahoMqtt
