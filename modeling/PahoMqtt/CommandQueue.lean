import Mathlib.Data.Int.Basic
import PahoMqtt.Lib.Lanes
import PahoMqtt.Lib.Runs
import PahoMqtt.AsyncCommands

/-!
# The command queue of the asynchronous clients

All clients share the list `MQTTAsync_commands`.  The functions of the
application append commands to it or, for a CONNECT and a DISCONNECT of the
library itself, put them at its head; the send thread takes from it the first
command of a client that is not blocked.  What the commands leave behind in the
store is the subject of other modules.
-/

namespace PahoMqtt
namespace MQTTAsync

/-- The address of a `MQTTAsyncs`. -/
abbrev Handle := Nat

/-- `connect_state` -/
inductive ConnectState where
  | notInProgress
  | tcpInProgress
  | sslInProgress
  | websocketInProgress
  | waitForConnack
  | proxyConnectInProgress
  | socks5ProxyConnectInProgress
  | disconnecting
deriving DecidableEq, Repr

/-- The fields of `MQTTAsync_createOptions` that `MQTTAsync_send` and the command queue read. -/
structure CreateOptions where
  struct_version : Nat
  sendWhileDisconnected : Bool
  maxBufferedMessages : Int
  allowDisconnectedSendAtAnyTime : Bool
  deleteOldestMessages : Bool
deriving DecidableEq

/--
What the other threads make of a client: the fields of its connection that
decide whether a command may be processed and a message sent.
-/
structure Connection where
  connected : Bool
  connect_state : ConnectState
  noPendingWrites : Bool
  outboundMsgs : Nat
  maxInflightMessages : Int
  shouldBeConnected : Bool
  MQTTVersion : Nat
deriving DecidableEq

/-- `MQTTAsyncs` -/
structure MQTTAsyncs where
  createOptions : Option CreateOptions
  noBufferedMessages : Int
  connection : Connection
deriving DecidableEq

/-- An element of `MQTTAsync_commands`; its serial number stands for its address. -/
structure CommandElement where
  client : Handle
  command : Command
  internal : Bool
  serial : Nat
deriving DecidableEq

def Command.type (command : Command) : PacketType :=
  command.details.type

/-- `details.pub.qos`, and 0 where the command is no PUBLISH. -/
def Command.qos (command : Command) : Int32 :=
  match command.details with
  | .pub pub => pub.qos
  | _ => 0

/-- A PUBLISH, a SUBSCRIBE or an UNSUBSCRIBE. -/
def Command.isRequest (command : Command) : Bool :=
  command.type = .publish || command.type = .subscribe || command.type = .unsubscribe

/-- `MQTTAsync_commands` and the clients; `current` is the list's own last search result. -/
structure AsyncState where
  handles : List Handle
  client : Handle → MQTTAsyncs
  commands : List CommandElement
  current : Option CommandElement
  added : Nat

namespace AsyncState

def modifyClient (s : AsyncState) (m : Handle) (f : MQTTAsyncs → MQTTAsyncs) : AsyncState :=
  { s with client := fun m' => if m' = m then f (s.client m) else s.client m' }

/-- `ListFindItem`: the element found the last time is tried first. -/
def listFindItem (s : AsyncState) (callback : CommandElement → Bool) : Option CommandElement :=
  match s.current with
  | some cmd => if callback cmd then some cmd else s.commands.find? callback
  | none => s.commands.find? callback

/-- `ListUnlink`, of an element that has been found. -/
def listUnlink (s : AsyncState) (cmd : CommandElement) : AsyncState :=
  { s with
    commands := s.commands.erase cmd
    current :=
      if s.current = some cmd then (s.commands.dropWhile (fun c => decide (c ≠ cmd)))[1]?
      else s.current }

def listAppend (s : AsyncState) (cmd : CommandElement) : AsyncState :=
  { s with commands := s.commands ++ [cmd], added := s.added + 1 }

def listInsertFirst (s : AsyncState) (cmd : CommandElement) : AsyncState :=
  { s with commands := cmd :: s.commands, added := s.added + 1 }

end AsyncState

/-- `clientCompareConnectCommand` -/
def clientCompareConnectCommand (cmd1 cmd2 : CommandElement) : Bool :=
  cmd1.client = cmd2.client && cmd1.command.type = cmd2.command.type &&
    (cmd1.command.type = .connect || cmd1.command.type = .disconnect)

namespace AsyncState

/-- `ListRemoveItem(MQTTAsync_commands, command, clientCompareConnectCommand)` -/
def removeConnectCommand (s : AsyncState) (command : CommandElement) : AsyncState :=
  match s.listFindItem (fun cmd => clientCompareConnectCommand cmd command) with
  | some cmd => s.listUnlink cmd
  | none => s

/-- The head of the queue is a command of the same client and type. -/
def headIsDuplicate (s : AsyncState) (command : CommandElement) : Bool :=
  match s.commands with
  | head :: _ => head.client = command.client && head.command.type = command.command.type
  | [] => false

/-- The buffer limit of a client is reached. -/
def bufferIsFull (s : AsyncState) (m : Handle) : Bool :=
  match (s.client m).createOptions with
  | some createOptions => createOptions.maxBufferedMessages ≤ (s.client m).noBufferedMessages
  | none => false

/-- The first PUBLISH of a client. -/
def firstPublish (s : AsyncState) (m : Handle) : Option CommandElement :=
  s.commands.find? (fun cmd => cmd.client = m && cmd.command.type = .publish)

/-- The end of `MQTTAsync_addCommand`, for a PUBLISH that has been appended. -/
def bufferPublish (s : AsyncState) (m : Handle) : AsyncState :=
  if s.bufferIsFull m then
    match s.firstPublish m with
    | some first_publish => s.listUnlink first_publish
    | none => s
  else
    s.modifyClient m (fun c => { c with noBufferedMessages := c.noBufferedMessages + 1 })

/-- The element a command becomes. -/
def element (s : AsyncState) (m : Handle) (command : Command) (internal : Bool) :
    CommandElement :=
  ⟨m, command, internal, s.added⟩

/-- `MQTTAsync_addCommand` -/
def addCommand (s : AsyncState) (m : Handle) (command : Command) (internal : Bool) :
    AsyncState :=
  let cmd := s.element m command internal
  if command.type = .connect ∨ command.type = .disconnect ∧ internal = true then
    -- a duplicate is freed without being added
    if s.headIsDuplicate cmd then s
    else (s.removeConnectCommand cmd).listInsertFirst cmd
  else if command.type = .publish then (s.listAppend cmd).bufferPublish m
  else s.listAppend cmd

/-- One command that `MQTTAsync_restoreCommands` has read. -/
def restoreCommand (s : AsyncState) (m : Handle) (command : Command) : AsyncState :=
  let s' := s.listAppend (s.element m command false)
  if command.type = .publish then
    s'.modifyClient m (fun c => { c with noBufferedMessages := c.noBufferedMessages + 1 })
  else s'

end AsyncState

/-- The conditions in `MQTTAsync_processCommand` under which a command may be processed. -/
def Connection.mayProcess (c : Connection) (command : Command) : Bool :=
  if command.type = .connect ∨ command.type = .disconnect ∨
      c.connected = true ∧ c.connect_state = .notInProgress ∧ c.noPendingWrites = true then
    if command.isRequest = true ∧ c.outboundMsgs ≥ MAX_MSG_ID.toNat - 1 then
      -- no more message ids available
      false
    else if (command.type = .publish ∧ command.qos > 0 ∨ command.type = .subscribe ∨
        command.type = .unsubscribe) ∧ c.outboundMsgs ≥ c.maxInflightMessages then
      -- flow control
      false
    else true
  else false

namespace AsyncState

/-- The command's client is not blocked. -/
def mayProcess (s : AsyncState) (cmd : CommandElement) : Bool :=
  (s.client cmd.client).connection.mayProcess cmd.command

/-- The loop of `MQTTAsync_processCommand`, with its list of ignored clients. -/
def nextCommand (s : AsyncState) : Option CommandElement :=
  Lib.firstReady CommandElement.client s.mayProcess [] s.commands

/-- The command is detached from the queue. -/
def detachCommand (s : AsyncState) (command : CommandElement) : AsyncState :=
  if command.command.type = .publish then
    (s.modifyClient command.client
      (fun c => { c with noBufferedMessages := c.noBufferedMessages - 1 })).listUnlink command
  else s.listUnlink command

/-- What `MQTTAsync_processCommand` does to the queue. -/
def processCommand (s : AsyncState) : AsyncState :=
  match s.nextCommand with
  | some command => s.detachCommand command
  | none => s

/-- No client has been created. -/
def fresh : AsyncState where
  handles := []
  client _ := ⟨none, 0, ⟨false, .notInProgress, true, 0, 0, false, 4⟩⟩
  commands := []
  current := none
  added := 0

end AsyncState

/-- What the threads do to the queue and to the clients. -/
inductive CommandEvent where
  | createWithOptions (m : Handle) (options : Option CreateOptions) (connection : Connection)
  | restoreCommand (m : Handle) (command : Command)
  | addCommand (m : Handle) (command : Command) (internal : Bool)
  | processCommand
  | listFindItem (cmd : CommandElement)
  | connection (m : Handle) (connection : Connection)

namespace AsyncState

def next (s : AsyncState) : CommandEvent → AsyncState
  | .createWithOptions m options connection =>
      { s.modifyClient m (fun _ => ⟨options, 0, connection⟩) with handles := m :: s.handles }
  | .restoreCommand m command => s.restoreCommand m command
  | .addCommand m command internal => s.addCommand m command internal
  | .processCommand => s.processCommand
  | .listFindItem cmd => { s with current := some cmd }
  | .connection m connection => s.modifyClient m (fun c => { c with connection := connection })

/-- A client is created once, and commands are given to clients that exist. -/
def Admissible (s : AsyncState) : CommandEvent → Prop
  | .createWithOptions m _ _ => m ∉ s.handles
  | .restoreCommand m _ => m ∈ s.handles
  | .addCommand m _ _ => m ∈ s.handles
  | .listFindItem cmd => cmd ∈ s.commands
  | _ => True

instance (s : AsyncState) : (e : CommandEvent) → Decidable (s.Admissible e)
  | .createWithOptions m _ _ => inferInstanceAs (Decidable (m ∉ s.handles))
  | .restoreCommand m _ => inferInstanceAs (Decidable (m ∈ s.handles))
  | .addCommand m _ _ => inferInstanceAs (Decidable (m ∈ s.handles))
  | .listFindItem cmd => inferInstanceAs (Decidable (cmd ∈ s.commands))
  | .processCommand => inferInstanceAs (Decidable True)
  | .connection _ _ => inferInstanceAs (Decidable True)

/-- A step of the asynchronous clients. -/
def Step (s : AsyncState) (e : CommandEvent) (t : AsyncState) : Prop :=
  s.Admissible e ∧ t = s.next e

/-- The run of a list of events. -/
theorem runs_trace
    {s : AsyncState} {events : List CommandEvent}
    (hadm : ∀ x ∈ Lib.trace next s events, x.pre.Admissible x.event) :
    Lib.Runs Step s (Lib.trace next s events) (events.foldl next s) :=
  Lib.Runs.of_trace s events fun x hx => ⟨hadm x hx, Lib.post_of_mem_trace hx⟩

/-! ### What the operations on the list do to the rest -/

section

variable {s : AsyncState} {m : Handle} {f : MQTTAsyncs → MQTTAsyncs} {cmd : CommandElement}

@[simp] theorem modifyClient_commands : (s.modifyClient m f).commands = s.commands := rfl
@[simp] theorem modifyClient_added : (s.modifyClient m f).added = s.added := rfl
@[simp] theorem modifyClient_current : (s.modifyClient m f).current = s.current := rfl
@[simp] theorem modifyClient_handles : (s.modifyClient m f).handles = s.handles := rfl
@[simp] theorem listUnlink_commands : (s.listUnlink cmd).commands = s.commands.erase cmd := rfl
@[simp] theorem listUnlink_added : (s.listUnlink cmd).added = s.added := rfl
@[simp] theorem listUnlink_client : (s.listUnlink cmd).client = s.client := rfl
@[simp] theorem listUnlink_handles : (s.listUnlink cmd).handles = s.handles := rfl
@[simp] theorem listAppend_commands : (s.listAppend cmd).commands = s.commands ++ [cmd] := rfl
@[simp] theorem listAppend_added : (s.listAppend cmd).added = s.added + 1 := rfl
@[simp] theorem listAppend_client : (s.listAppend cmd).client = s.client := rfl
@[simp] theorem listAppend_handles : (s.listAppend cmd).handles = s.handles := rfl
@[simp] theorem listAppend_current : (s.listAppend cmd).current = s.current := rfl
@[simp] theorem listInsertFirst_commands :
    (s.listInsertFirst cmd).commands = cmd :: s.commands := rfl
@[simp] theorem listInsertFirst_added : (s.listInsertFirst cmd).added = s.added + 1 := rfl
@[simp] theorem listInsertFirst_client : (s.listInsertFirst cmd).client = s.client := rfl
@[simp] theorem listInsertFirst_handles : (s.listInsertFirst cmd).handles = s.handles := rfl

@[simp] theorem modifyClient_self : (s.modifyClient m f).client m = f (s.client m) :=
  if_pos rfl

theorem modifyClient_other
    {m' : Handle}
    (h : m' ≠ m) :
    (s.modifyClient m f).client m' = s.client m' :=
  if_neg h

end

end AsyncState
end MQTTAsync
end PahoMqtt
