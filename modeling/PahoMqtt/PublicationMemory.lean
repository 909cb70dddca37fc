import PahoMqtt.Lib.Runs
import PahoMqtt.Packets

/-!
# The memory of publications

A publication is allocated in parts: the structure, the topic and the payload.
It is kept in `state.publications`, and messages and pending writes point to it;
its parts are freed, or given to the queue of messages.  Here these functions are
those of MQTTProtocolClient.c again, with the pointers that they hold and with each
access: one to memory that has been freed, and freeing what is not allocated, is a
fault.  `passed` and `leaked` are read by no function.
-/

namespace PahoMqtt
namespace PublicationMemory

/-- What a pointer to a topic or a payload points to. -/
inductive Pointer where
  | null
  /-- Into the buffer that a packet was read into. -/
  | packet
  | block (addr : Nat)
deriving DecidableEq

def Pointer.blocks : Pointer → List Nat
  | .block addr => [addr]
  | _ => []

/-- `Publications`, at its address. -/
structure Publications where
  addr : Nat
  topic : Pointer
  payload : Pointer
  refcount : Int
deriving DecidableEq

def Publications.blocks (p : Publications) : List Nat :=
  p.addr :: (p.topic.blocks ++ p.payload.blocks)

/-- The members of `Messages` that tell what is done with `publish`. -/
structure Messages where
  msgid : MsgId
  qos : Nat
  MQTTVersion : Nat
  nextMessageType : Option PacketType
  publish : Option Nat
deriving DecidableEq

/-- What is allocated, and `state.publications`. -/
structure Store where
  allocated : List Nat
  /-- The next address that `malloc` returns. -/
  fresh : Nat
  publications : List Publications
  /-- The topics and payloads that the queue of messages was given. -/
  passed : List Pointer
  /-- The blocks to which no pointer was kept. -/
  leaked : List Nat

namespace Store

def malloc (st : Store) : Nat × Store :=
  (st.fresh, { st with allocated := st.fresh :: st.allocated, fresh := st.fresh + 1 })

/-- What is allocated after `free` of a pointer; `none` is a fault. -/
def released (allocated : List Nat) : Pointer → Option (List Nat)
  | .null => some allocated
  | .packet => none
  | .block addr => if addr ∈ allocated then some (allocated.erase addr) else none

def free (st : Store) (ptr : Pointer) : Option Store :=
  (released st.allocated ptr).map fun allocated => { st with allocated }

/-- The bytes that a pointer points to are read. -/
def read (st : Store) : Pointer → Option Unit
  | .null => none
  | .packet => some ()
  | .block addr => if addr ∈ st.allocated then some () else none

/-- The topic and the payload are written to the socket; a payload of no bytes is `NULL`. -/
def send (p : Publications) (st : Store) : Option Unit := do
  st.read p.topic
  if p.payload = .null then return () else st.read p.payload

/-- The members of the publication that a pointer points to. -/
def publication (st : Store) (publish : Option Nat) : Option Publications :=
  publish.bind fun addr => st.publications.find? (·.addr = addr)

/-- `MQTTProtocol_storePublication` -/
def storePublication (topic payload : Pointer) (st : Store) : Nat × Store :=
  let (addr, st) := st.malloc
  (addr, { st with publications := st.publications ++ [⟨addr, topic, payload, 1⟩] })

/-- `ListRemove` of a publication from `state.publications`, which frees the structure. -/
def listRemove (addr : Nat) (st : Store) : Option Store :=
  if st.publications.any (·.addr = addr) then
    { st with publications := st.publications.eraseP (·.addr = addr) }.free (.block addr)
  else some st

/-- A publication is changed where it is. -/
def setPublication (p : Publications) (st : Store) : Store :=
  { st with publications := st.publications.map fun q => if q.addr = p.addr then p else q }

/-- `MQTTProtocol_removePublication` -/
def removePublication (publish : Option Nat) (st : Store) : Option Store := do
  if publish = none then return st
  let p ← st.publication publish
  if p.refcount - 1 = 0 then
    let st ← st.free p.payload
    let st ← st.free p.topic
    st.listRemove p.addr
  else return st.setPublication { p with refcount := p.refcount - 1 }

/-- `Protocol_processPublication` -/
def processPublication (topic payload : Pointer) (allocatePayload : Bool) (st : Store) :
    Option Store := do
  let (payload, st) ←
    if allocatePayload then do
      st.read payload
      let (copy, st) := st.malloc
      pure (Pointer.block copy, st)
    else pure (payload, st)
  -- the length of the topic is taken for the list and for the store
  st.read topic
  return { st with passed := st.passed ++ [topic, payload] }

end Store

/-- The lists that point to publications. -/
structure State where
  store : Store
  outboundMsgs : List Messages
  inboundMsgs : List Messages
  /-- The sockets of `pending_writes` and the publications. -/
  pending_writes : List (Nat × Nat)

/-- The first message with the id becomes another one. -/
def replaceMsg (msgid : MsgId) (m : Messages) : List Messages → List Messages
  | [] => []
  | msg :: msgs => if msg.msgid = msgid then m :: msgs else msg :: replaceMsg msgid m msgs

def findMsg (msgs : List Messages) (msgid : MsgId) : Option Messages :=
  msgs.find? (·.msgid = msgid)

/-- `ListRemove` of the message that was found. -/
def removeMsg (msgs : List Messages) (msgid : MsgId) : List Messages :=
  msgs.eraseP (·.msgid = msgid)

namespace State

/-- `MQTTProtocol_startPublish`, with what it leaves of the caller's pointers. -/
def startPublish (qos : Nat) (msgid : MsgId) (MQTTVersion socket : Nat) (interrupted : Bool)
    (topic payload : Pointer) (s : State) : Pointer × Pointer × State :=
  if qos > 0 then
    let (p, store) := s.store.storePublication topic payload
    let m : Messages :=
      { msgid, qos, MQTTVersion, nextMessageType := if qos = 2 then some .pubrec else none
        publish := some p }
    (.null, .null, { s with store, outboundMsgs := s.outboundMsgs ++ [m] })
  else if interrupted then
    -- MQTTProtocol_storeQoS0
    let (p, store) := s.store.storePublication topic payload
    (.null, .null, { s with store, pending_writes := s.pending_writes ++ [(socket, p)] })
  else (topic, payload, s)

/-- What `MQTTClient_publish5` allocates for a publication and frees afterwards. -/
def publish (qos : Nat) (msgid : MsgId) (MQTTVersion socket : Nat) (hasPayload interrupted : Bool)
    (s : State) : Option State := do
  let (payload, store) :=
    if hasPayload then (Pointer.block s.store.malloc.1, s.store.malloc.2) else (.null, s.store)
  let (topic, store) := store.malloc
  let (topic, payload, s) :=
    { s with store }.startPublish qos msgid MQTTVersion socket interrupted (.block topic) payload
  let store ← s.store.free topic
  let store ← store.free payload
  return { s with store }

/-- `MQTTProtocol_handlePublishes`, after the packet has been read; `clear` is what
`Socket_noPendingWrites` returns. -/
def handlePublishes (qos : Nat) (msgid : MsgId) (MQTTVersion : Nat) (clear : Bool) (s : State) :
    Option State := do
  let (topic, store) := s.store.malloc
  if qos = 0 ∨ (clear ∧ qos = 1) then
    let store ← store.processPublication (.block topic) .packet true
    return { s with store }
  else if !clear ∨ qos ≠ 2 then
    -- MQTTPacket_freePublish
    let store ← store.free (.block topic)
    return { s with store }
  else
    let (p, store) := store.storePublication (.block topic) .packet
    let m : Messages :=
      { msgid, qos, MQTTVersion, nextMessageType := some .pubrel, publish := some p }
    let already_received := findMsg s.inboundMsgs msgid
    let (store, inboundMsgs) ←
      match already_received with
      | some msg => do
          let store ← store.removePublication msg.publish
          pure (store, replaceMsg msgid m s.inboundMsgs)
      | none => pure (store, s.inboundMsgs ++ [m])
    let publication ← store.publication (some p)
    if MQTTVersion ≥ 5 ∧ already_received.isNone then
      let store ← store.processPublication publication.topic publication.payload true
      let store ← store.listRemove p
      -- the message stands last
      let inboundMsgs := inboundMsgs.dropLast ++ [{ m with publish := none }]
      return { s with store, inboundMsgs }
    else
      let (payload, store) := store.malloc
      store.read publication.payload
      let store := store.setPublication { publication with payload := .block payload }
      return { s with store, inboundMsgs }

/-- A message leaves the outbound list with its publication. -/
def acknowledged (m : Messages) (s : State) : Option State := do
  let store ← s.store.removePublication m.publish
  return { s with store, outboundMsgs := removeMsg s.outboundMsgs m.msgid }

/-- `MQTTProtocol_handlePubacks` -/
def handlePubacks (msgid : MsgId) (s : State) : Option State :=
  match findMsg s.outboundMsgs msgid with
  | some m => if m.qos ≠ 1 then some s else s.acknowledged m
  | none => some s

/-- `MQTTProtocol_handlePubrecs`; the PUBREC has the reason code of an error or not. -/
def handlePubrecs (msgid : MsgId) (error : Bool) (s : State) : Option State :=
  match findMsg s.outboundMsgs msgid with
  | some m =>
      if m.qos ≠ 2 ∨ m.nextMessageType ≠ some .pubrec then some s
      else if error then s.acknowledged m
      else some { s with
        outboundMsgs := replaceMsg msgid { m with nextMessageType := some .pubcomp }
          s.outboundMsgs }
  | none => some s

/-- `MQTTProtocol_handlePubcomps` -/
def handlePubcomps (msgid : MsgId) (s : State) : Option State :=
  match findMsg s.outboundMsgs msgid with
  | some m =>
      if m.qos ≠ 2 ∨ m.nextMessageType ≠ some .pubcomp then some s else s.acknowledged m
  | none => some s

/-- `MQTTProtocol_handlePubrels` -/
def handlePubrels (msgid : MsgId) (clear : Bool) (s : State) : Option State :=
  match findMsg s.inboundMsgs msgid with
  | none => some s
  | some m =>
      if m.qos ≠ 2 ∨ m.nextMessageType ≠ some .pubrel ∨ !clear then some s
      else do
        let (topic, payload) ←
          match m.publish with
          | some _ => (s.store.publication m.publish).map fun p => (p.topic, p.payload)
          | none => pure (.null, .null)
        let store ←
          if m.MQTTVersion ≥ 5 then
            pure { s.store with leaked := s.store.leaked ++ (topic.blocks ++ payload.blocks) }
          else s.store.processPublication topic payload false
        let store ←
          match m.publish with
          | some p => store.listRemove p
          | none => pure store
        return { s with store, inboundMsgs := removeMsg s.inboundMsgs msgid }

/-- `MQTTProtocol_emptyMessageList` -/
def emptyMessageList (msgs : List Messages) (store : Store) : Option Store :=
  msgs.foldlM (fun store m => store.removePublication m.publish) store

/-- The message lists in `MQTTClient_cleanSession` -/
def cleanSession (s : State) : Option State := do
  let store ← emptyMessageList s.inboundMsgs s.store
  let store ← emptyMessageList s.outboundMsgs store
  return { s with store, inboundMsgs := [], outboundMsgs := [] }

/-- The loop of `MQTTProtocol_checkPendingWrites`; `clear` are the sockets with nothing pending. -/
def checkLoop (clear : List Nat) : List (Nat × Nat) → Store → Option (Store × List (Nat × Nat))
  | [], store => some (store, [])
  | (socket, p) :: writes, store =>
      if socket ∈ clear then do
        let store ← store.removePublication (some p)
        checkLoop clear writes store
      else do
        let (store, left) ← checkLoop clear writes store
        return (store, (socket, p) :: left)

/-- `MQTTProtocol_checkPendingWrites` -/
def checkPendingWrites (clear : List Nat) (s : State) : Option State := do
  let (store, pending_writes) ← checkLoop clear s.pending_writes s.store
  return { s with store, pending_writes }

/-- A message is sent again in `MQTTProtocol_retries`. -/
def retry (i : Nat) (s : State) : Option State :=
  match s.outboundMsgs[i]? with
  | none => some s
  | some m =>
      if m.qos = 1 ∨ (m.qos = 2 ∧ m.nextMessageType = some .pubrec) then do
        let p ← s.store.publication m.publish
        s.store.send p
        return s
      else some s

/-- Nothing has been stored. -/
def initial : State where
  store := ⟨[], 0, [], [], []⟩
  outboundMsgs := []
  inboundMsgs := []
  pending_writes := []

end State

/-- What is done with publications; `clear` tells where no write is pending. -/
inductive MemoryEvent where
  | publish (qos : Nat) (msgid : MsgId) (MQTTVersion socket : Nat) (hasPayload interrupted : Bool)
  | handlePublishes (qos : Nat) (msgid : MsgId) (MQTTVersion : Nat) (clear : Bool)
  | handlePubacks (msgid : MsgId)
  | handlePubrecs (msgid : MsgId) (error : Bool)
  | handlePubrels (msgid : MsgId) (clear : Bool)
  | handlePubcomps (msgid : MsgId)
  | retry (i : Nat)
  | cleanSession
  | checkPendingWrites (clear : List Nat)

/-- The state after an event; none is a fault. -/
def State.next (s : State) : MemoryEvent → Option State
  | .publish qos msgid MQTTVersion socket hasPayload interrupted =>
      s.publish qos msgid MQTTVersion socket hasPayload interrupted
  | .handlePublishes qos msgid MQTTVersion clear => s.handlePublishes qos msgid MQTTVersion clear
  | .handlePubacks msgid => s.handlePubacks msgid
  | .handlePubrecs msgid error => s.handlePubrecs msgid error
  | .handlePubrels msgid clear => s.handlePubrels msgid clear
  | .handlePubcomps msgid => s.handlePubcomps msgid
  | .retry i => s.retry i
  | .cleanSession => s.cleanSession
  | .checkPendingWrites clear => s.checkPendingWrites clear

def MemoryStep (s : State) (e : MemoryEvent) (s' : State) : Prop :=
  s.next e = some s'

end PublicationMemory
end PahoMqtt
