import PahoMqtt.MessageIds
import PahoMqtt.ReceiveMaximum
import PahoMqtt.SubscribeMany

/-!
# Publishing through the synchronous client

`MQTTClient_publish5` blocks while as many messages are in flight as the
connection allows, or while the socket is writing.  It gives `mqttclient_mutex`
up while it waits, so that other threads publish, packets are handled and the
connection may be lost or set up anew in the meantime.

What is done between taking the mutex and giving it up is one step.  A session
is closed at once here, not by a command of its own.  The token is the id that
was assigned: after a wait for the write the source reads it from the message
again, which may be gone by then.
-/

namespace PahoMqtt
namespace MQTTClient

/-- The arguments of `MQTTClient_publish5`. -/
structure Request where
  topicName : Bytes
  payload : Bytes
  qos : Nat
  retained : Bool
  properties : Option Properties

/-- Why a thread in `MQTTClient_publish5` has given up the mutex. -/
inductive Wait where
  /-- The queue is full, or the socket is writing. -/
  | blocked (request : Request)
  /-- The packet has been written in part. -/
  | writing (qos : Nat) (msgid : MsgId)

/-- `MQTTClients`, with the threads that wait in `MQTTClient_publish5`. -/
structure MQTTClients where
  c : Clients
  cleansession : Bool
  cleanstart : Bool
  maxInflightMessages : Int
  threads : Nat → Option Wait

/-- The options of `MQTTClient_connect` that matter here. -/
structure ConnectOptions where
  struct_version : Int
  MQTTVersion : Nat
  cleansession : Bool
  cleanstart : Bool
  reliable : Bool
  maxInflightMessages : Int
  retryInterval : Int

/-- The body of a DISCONNECT, and what `pclear` returns and leaves. -/
structure Closing where
  disconnect : Bytes
  pclear : Int × Store

/-- What a call returns: the response of a publication with its token, or a return code. -/
inductive Returns where
  | publish (thread : Nat) (reasonCode : Int) (deliveryToken : Option MsgId)
  | waitForCompletion (rc : Int)
deriving DecidableEq

/-! ### Sessions -/

/-- `MQTTClient_cleanSession` -/
def cleanSession (pclear : Int × Store) (client : Clients) : Int × Clients :=
  let (rc, net) :=
    match client.net.persistence with
    | none => (0, client.net)
    | some _ => (pclear.1, { client.net with persistence := some pclear.2 })
  (rc, { client with net, inboundMsgs := [], outboundMsgs := [], msgID := 0 })

namespace MQTTClients

/-- `MQTTClient_closeSession` -/
def closeSession (env : Env) (closing : Closing) (m : MQTTClients) : MQTTClients :=
  let net :=
    if m.c.connected then
      (MQTTPacket.send env m.c.net { type := .disconnect, dup := false, qos := 0, retain := false }
        closing.disconnect m.c.MQTTVersion).2
    else m.c.net
  let c :=
    { m.c with net := { net with writePending := false }, good := false, connected := false }
  { m with
    c := if m.c.MQTTVersion < 5 ∧ m.cleansession = true then (cleanSession closing.pclear c).2
      else c }

/-- Where the library has asked for it, the session is closed. -/
def settle (env : Env) (closing : Closing) (m : MQTTClients) : MQTTClients :=
  if m.c.net.log.any Output.isCloseSession then m.closeSession env closing else m

end MQTTClients

/-- What `MQTTClient_connectURI` sets `maxInflightMessages` to. -/
def ConnectOptions.window (options : ConnectOptions) : Int :=
  if options.struct_version ≥ 6 ∧ options.maxInflightMessages > 0 then options.maxInflightMessages
  else if options.reliable then 1 else 10

namespace MQTTClients

/-- `MQTTClient_connectURI` sets the options of the next connection. -/
def connectURI (options : ConnectOptions) (m : MQTTClients) : MQTTClients :=
  { m with
    c := { m.c with MQTTVersion := options.MQTTVersion, retryInterval := options.retryInterval }
    cleansession := options.MQTTVersion < 5 && options.cleansession
    cleanstart := options.MQTTVersion ≥ 5 && options.cleanstart
    maxInflightMessages := options.window }

/-- The end of `MQTTClient_connectURIVersion` when the CONNACK accepts: the re-sending. -/
def resend (env : Env) (closing : Closing) (rc : Int) (m : MQTTClients) : Int × MQTTClients :=
  if m.c.outboundMsgs.length > 0 then
    let touched := m.c.outboundMsgs.map (fun msg => { msg with lastTouch := 0 })
    let c := MQTTProtocol.retry env 0 true true { m.c with outboundMsgs := touched }
    let m := { m with c }.settle env closing
    (if m.c.connected then rc else MQTTCLIENT_DISCONNECTED, m)
  else (rc, m)

/-- The cleaning of a session that does not go on, when the CONNACK accepts. -/
def cleaned (closing : Closing) (m : MQTTClients) : Int × MQTTClients :=
  if m.cleansession || m.cleanstart then
    let (rc, c) := cleanSession closing.pclear m.c
    (rc, { m with c })
  else (MQTTCLIENT_SUCCESS, m)

/-- The end of `MQTTClient_connectURIVersion` where its return code is `rc`. -/
def finish (env : Env) (closing : Closing) (connack : Connack) (rc : Int) (m : MQTTClients) :
    MQTTClients :=
  if rc = MQTTCLIENT_SUCCESS then
    -- back in `MQTTClient_connectAll`
    { m with
      maxInflightMessages :=
        if m.c.MQTTVersion = 5 ∧
            MQTTProperties.hasProperty connack.properties MQTTProperties.RECEIVE_MAXIMUM = true then
          min m.maxInflightMessages
            (MQTTProperties.getNumericValue connack.properties MQTTProperties.RECEIVE_MAXIMUM)
        else m.maxInflightMessages }
  else m.closeSession env closing

/-- A CONNACK in `MQTTClient_connectURIVersion`. -/
def connack (env : Env) (closing : Closing) (connack : Connack) (m : MQTTClients) : MQTTClients :=
  if connack.rc = 0 then
    let (rc, m) := { m with c := { m.c with connected := true, good := true } }.cleaned closing
    let (rc, m) := m.resend env closing rc
    m.finish env closing connack rc
  else m.finish env closing connack connack.rc.toNat

/-! ### Publishing -/

/-- The thread has given up the mutex. -/
def wait (m : MQTTClients) (thread : Nat) (reason : Wait) : MQTTClients :=
  { m with threads := Function.update m.threads thread (some reason) }

/-- The thread has left `MQTTClient_publish5`. -/
def leave (m : MQTTClients) (thread : Nat) : MQTTClients :=
  { m with threads := Function.update m.threads thread none }

/-- The token, for a message that has one. -/
def token (qos : Nat) (msgid : MsgId) : Option MsgId :=
  if qos > 0 then some msgid else none

/-- The loop that waits for the rest of the packet to be written. -/
def writeLoop (thread qos : Nat) (msgid : MsgId) (m : MQTTClients) :
    Option Returns × MQTTClients :=
  if m.c.connected = true ∧ Socket.noPendingWrites m.c.net = false then
    (none, m.wait thread (.writing qos msgid))
  else
    let rc := if qos > 0 ∨ m.c.connected = true then MQTTCLIENT_SUCCESS else MQTTCLIENT_FAILURE
    (some (.publish thread rc (token qos msgid)), m.leave thread)

/-- The packet that is made up for a publication. -/
def publishOf (c : Clients) (request : Request) (msgid : MsgId) : Publish where
  header := { type := .reserved, dup := false, qos := 0, retain := false }
  topic := request.topicName
  topiclen := 0
  msgId := msgid
  payload := request.payload
  MQTTVersion := c.MQTTVersion
  properties :=
    if c.MQTTVersion ≥ 5 then request.properties.getD MQTTProperties.initializer
    else MQTTProperties.initializer
  mask := ⟨0, 0, 0, 0⟩

/-- `MQTTClient_publish5` from where the packet is made up. -/
def sendPublication (env : Env) (closing : Closing) (thread : Nat) (request : Request)
    (msgid : MsgId) (m : MQTTClients) : Option Returns × MQTTClients :=
  let (rc, c) := MQTTProtocol.startPublish env m.c (publishOf m.c request msgid) request.qos
    request.retained
  if rc = TCPSOCKET_INTERRUPTED then
    writeLoop thread request.qos msgid { m with c }
  else if rc = SOCKET_ERROR then
    -- the send will be retried where the QoS is not 0
    let rc := if request.qos > 0 then MQTTCLIENT_SUCCESS else MQTTCLIENT_FAILURE
    (some (.publish thread rc (token request.qos msgid)),
      ({ m with c }.closeSession env closing).leave thread)
  else
    (some (.publish thread rc (token request.qos msgid)), { m with c }.leave thread)

/-- `MQTTClient_publish5` from where the id is assigned. -/
def assignAndSend (env : Env) (closing : Closing) (thread : Nat) (request : Request)
    (m : MQTTClients) : Option Returns × MQTTClients :=
  if request.qos > 0 then
    let (msgid, c) := MQTTProtocol.assignMsgId m.c
    if msgid = 0 then
      (some (.publish thread MQTTCLIENT_MAX_MESSAGES_INFLIGHT none), { m with c }.leave thread)
    else sendPublication env closing thread request msgid { m with c }
  else sendPublication env closing thread request 0 m

/-- The loop that waits for the queue, from where its condition is looked at. -/
def publishLoop (env : Env) (closing : Closing) (thread : Nat) (request : Request)
    (m : MQTTClients) : Option Returns × MQTTClients :=
  if m.c.outboundMsgs.length ≥ m.maxInflightMessages ∨ Socket.noPendingWrites m.c.net = false then
    (none, m.wait thread (.blocked request))
  else assignAndSend env closing thread request m

/-- `MQTTClient_publish5` -/
def publish5 (env : Env) (char : CharType) (closing : Closing) (thread : Nat) (request : Request)
    (m : MQTTClients) : Option Returns × MQTTClients :=
  if m.c.connected = false then
    (some (.publish thread MQTTCLIENT_DISCONNECTED none), m)
  else
    match UTF8_validateString char request.topicName with
    | .ok true => publishLoop env closing thread request m
    | _ => (some (.publish thread MQTTCLIENT_BAD_UTF8_STRING none), m)

/-- A thread in `MQTTClient_publish5` has the mutex again. -/
def resume (env : Env) (closing : Closing) (thread : Nat) (m : MQTTClients) :
    Option Returns × MQTTClients :=
  match m.threads thread with
  | none => (none, m)
  | some (.blocked request) =>
      if m.c.connected = false then
        (some (.publish thread MQTTCLIENT_FAILURE none), m.leave thread)
      else publishLoop env closing thread request m
  | some (.writing qos msgid) => writeLoop thread qos msgid m

/-- A turn of the loop of `MQTTClient_waitForCompletion`, where the time is not over. -/
def waitForCompletion (mdt : Int) (m : MQTTClients) : Option Returns :=
  if m.c.connected = false then some (.waitForCompletion MQTTCLIENT_DISCONNECTED)
  else if m.c.outboundMsgs.any (fun msg => (msg.msgid.toNat : Int) = mdt) then none
  else some (.waitForCompletion MQTTCLIENT_SUCCESS)

end MQTTClients

/-! ### Steps -/

/-- What a thread does while it has the mutex. -/
inductive Call where
  | publish5 (thread : Nat) (request : Request)
  | resume (thread : Nat)
  | waitForCompletion (mdt : Int)
  | connectURI (options : ConnectOptions)
  | connack (connack : Connack)
  | packet (pack : Packet)
  | retry (now : Int) (doRetry regardless : Bool)
  | continueWrites
  /-- The write of a packet that is no publication has not been finished. -/
  | writeInterrupted
  | closeSession

/-- A call, and what it needs where it closes the session. -/
structure SyncEvent where
  call : Call
  closing : Closing

namespace MQTTClients

/-- The log is started afresh by every step. -/
def start (m : MQTTClients) : MQTTClients :=
  { m with c := m.c.start }

/-- What a call returns, if it is at its end, and the client after it. -/
def outcome (env : Env) (char : CharType) (m : MQTTClients) (e : SyncEvent) :
    Option Returns × MQTTClients :=
  match e.call with
  | .publish5 thread request => m.start.publish5 env char e.closing thread request
  | .resume thread => m.start.resume env e.closing thread
  | .waitForCompletion mdt => (m.waitForCompletion mdt, m.start)
  | .connectURI options => (none, m.start.connectURI options)
  | .connack connack => (none, m.start.connack env e.closing connack)
  | .packet pack => (none, { m with c := (m.c.start.handle env pack).2 })
  | .retry now doRetry regardless =>
      (none, { m with c := MQTTProtocol.retry env now doRetry regardless m.c.start }.settle env
        e.closing)
  | .continueWrites =>
      (none, { m with c := { m.c.start with net := { m.c.start.net with writePending := false } } })
  | .writeInterrupted =>
      (none, { m with c := { m.c.start with net := { m.c.start.net with writePending := true } } })
  | .closeSession => (none, m.start.closeSession env e.closing)

/-- A thread calls `MQTTClient_publish5` when it is not in it. -/
def Admissible (m : MQTTClients) (e : SyncEvent) : Prop :=
  match e.call with
  | .publish5 thread _ => m.threads thread = none
  | _ => True

/-- A step of the threads. -/
def Step (env : Env) (char : CharType) (m : MQTTClients) (e : SyncEvent) (m' : MQTTClients) :
    Prop :=
  m.Admissible e ∧ m' = (m.outcome env char e).2

/-- The run of a list of events. -/
theorem runs_trace
    {env : Env} {char : CharType} {m : MQTTClients} {events : List SyncEvent}
    (h : ∀ x ∈ Lib.trace (fun m e => (m.outcome env char e).2) m events,
      x.pre.Admissible x.event) :
    Lib.Runs (Step env char) m (Lib.trace (fun m e => (m.outcome env char e).2) m events)
      (events.foldl (fun m e => (m.outcome env char e).2) m) :=
  Lib.Runs.of_trace m events fun x hx => ⟨h x hx, Lib.post_of_mem_trace hx⟩

/-- A client that has not been connected. -/
def fresh (MQTTVersion : Nat) (persistence : Option Store) : MQTTClients where
  c := Clients.fresh MQTTVersion 0 persistence
  cleansession := false
  cleanstart := false
  maxInflightMessages := 0
  threads := fun _ => none

/-- A call that does not close the session. -/
def does (call : Call) : SyncEvent := ⟨call, ⟨[], 0, Lib.ExactMap.empty⟩⟩

/-- A publication of QoS 1. -/
def publishes (thread : Nat) : SyncEvent :=
  does (.publish5 thread ⟨[], [120], 1, false, none⟩)

/-- A connection for one message at a time. -/
def connects : List SyncEvent :=
  [does (.connectURI ⟨6, 5, false, false, true, 0, 0⟩),
    does (.connack ⟨0, false, MQTTProperties.initializer⟩)]

def puback (msgId : MsgId) : SyncEvent :=
  does (.packet (.ack
    ⟨{ type := .puback, dup := false, qos := 0, retain := false }, msgId, 0, 5,
      MQTTProperties.initializer⟩))

/-- Two threads publish, and the second one waits for the message of the first. -/
def twoPublish : List SyncEvent :=
  connects ++ [publishes 0, publishes 1, puback 1, does (.resume 1), does (.waitForCompletion 1)]

/-- The run of the client from its creation on. -/
abbrev runOf (events : List SyncEvent) : List (Lib.Transition MQTTClients SyncEvent) :=
  Lib.trace (fun m e => (m.outcome Env.reliable .unsigned e).2) (fresh 5 none) events

theorem runs_twoPublish :
    Lib.Runs (Step Env.reliable .unsigned) (fresh 5 none) (runOf twoPublish)
      (twoPublish.foldl (fun m e => (m.outcome Env.reliable .unsigned e).2) (fresh 5 none)) := by
  refine runs_trace ?_
  simp only [twoPublish, connects, List.cons_append, List.nil_append, Lib.trace,
    List.forall_mem_cons]
  exact ⟨trivial, trivial, rfl, rfl, trivial, trivial, trivial, List.forall_mem_nil _⟩

theorem connectURI_twoPublish :
    ∀ x ∈ runOf twoPublish, ∀ options, x.event.call = .connectURI options → options.window ≤ 1 := by
  intro x hx options hcall
  have hevent := Lib.event_of_mem_trace hx
  simp only [twoPublish, connects, List.cons_append, List.nil_append, List.mem_cons,
    List.not_mem_nil, or_false] at hevent
  rcases hevent with h | h | h | h | h | h | h
  · rw [h] at hcall
    obtain rfl := Call.connectURI.inj hcall
    decide
  all_goals
    rw [h] at hcall
    cases hcall

end MQTTClients

/-! ### What a step does to the messages in flight -/

/-- The messages in flight stay, unless the session is cleaned. -/
def Keeps (cleanable : Prop) (ids ids' : List MsgId) : Prop :=
  ids' = ids ∨ cleanable ∧ ids' = []

namespace Keeps

variable {P Q : Prop} {ids₁ ids₂ ids₃ : List MsgId}

theorem trans
    (h₁ : Keeps P ids₁ ids₂)
    (h₂ : Keeps P ids₂ ids₃) :
    Keeps P ids₁ ids₃ := by
  rcases h₂ with rfl | h₂
  · exact h₁
  · exact .inr h₂

theorem mono
    (h : Keeps P ids₁ ids₂)
    (hPQ : P → Q) :
    Keeps Q ids₁ ids₂ :=
  h.imp_right (And.imp_left hPQ)

end Keeps

namespace MQTTClients

/-- The ids of the messages in flight, which are the tokens that are pending. -/
def ids (m : MQTTClients) : List MsgId :=
  msgIds m.c.outboundMsgs

/-- The session is one that is cleaned. -/
def Cleanable (m : MQTTClients) : Prop :=
  m.cleansession = true ∨ m.cleanstart = true

/-- There is room for a message, and the socket is free. -/
structure MayPublish (m : MQTTClients) : Prop where
  connected : m.c.connected = true
  room : m.c.outboundMsgs.length < m.maxInflightMessages
  free : Socket.noPendingWrites m.c.net = true

/-- A message with the token `t` is put in flight. -/
structure Starts (t : MsgId) (m m' : MQTTClients) : Prop where
  may : m.MayPublish
  ne_zero : t ≠ 0
  fresh : t ∉ m.ids
  ids : Keeps m.Cleanable (m.ids ++ [t]) m'.ids

section

variable {env : Env} {char : CharType} {closing : Closing} {m : MQTTClients}

theorem closeSession_keeps
    (env : Env) (closing : Closing) (m : MQTTClients) :
    Keeps (m.cleansession = true) m.ids (m.closeSession env closing).ids := by
  unfold closeSession MQTTClients.ids
  dsimp only
  by_cases hcleans : m.c.MQTTVersion < 5 ∧ m.cleansession = true
  · rw [if_pos hcleans]
    exact .inr ⟨hcleans.2, rfl⟩
  · rw [if_neg hcleans]
    exact .inl rfl

theorem settle_keeps
    (env : Env) (closing : Closing) (m : MQTTClients) :
    Keeps (m.cleansession = true) m.ids (m.settle env closing).ids := by
  unfold settle
  split
  · exact closeSession_keeps env closing m
  · exact .inl rfl

theorem retry_ids
    (env : Env) (now : Int) (doRetry regardless : Bool) (c : Clients) :
    msgIds (MQTTProtocol.retry env now doRetry regardless c).outboundMsgs =
      msgIds c.outboundMsgs :=
  (MQTTProtocol.retry_spec env now doRetry regardless c).1.msgIds_eq

theorem resend_keeps
    (env : Env) (closing : Closing) (rc : Int) (m : MQTTClients) :
    Keeps (m.cleansession = true) m.ids (m.resend env closing rc).2.ids := by
  unfold resend
  split
  · refine Keeps.trans (.inl ?_) (settle_keeps env closing _)
    exact (retry_ids env 0 true true _).trans (by simp only [msgIds, List.map_map]; rfl)
  · exact .inl rfl

theorem resend_cleansession
    (env : Env) (closing : Closing) (rc : Int) (m : MQTTClients) :
    (m.resend env closing rc).2.cleansession = m.cleansession := by
  unfold resend settle closeSession
  dsimp only
  split_ifs <;> rfl

theorem cleaned_keeps
    (closing : Closing) (m : MQTTClients) :
    Keeps m.Cleanable m.ids (m.cleaned closing).2.ids ∧
      (m.cleaned closing).2.cleansession = m.cleansession := by
  unfold cleaned
  split
  next hcleans => exact ⟨.inr ⟨by simpa [Cleanable] using hcleans, rfl⟩, rfl⟩
  next => exact ⟨.inl rfl, rfl⟩

theorem finish_keeps
    (env : Env) (closing : Closing) (connack : Connack) (rc : Int) (m : MQTTClients) :
    Keeps (m.cleansession = true) m.ids (m.finish env closing connack rc).ids := by
  unfold finish
  split
  · exact .inl rfl
  · exact closeSession_keeps env closing m

theorem connack_keeps
    (env : Env) (closing : Closing) (connack : Connack) (m : MQTTClients) :
    Keeps m.Cleanable m.ids (m.connack env closing connack).ids := by
  unfold MQTTClients.connack
  split
  next =>
    dsimp only
    obtain ⟨hcleaned, hsession⟩ :=
      cleaned_keeps closing { m with c := { m.c with connected := true, good := true } }
    have hresent := resend_keeps env closing
      (cleaned closing { m with c := { m.c with connected := true, good := true } }).1
      (cleaned closing { m with c := { m.c with connected := true, good := true } }).2
    have hfinished := finish_keeps env closing connack
      (resend env closing
        (cleaned closing { m with c := { m.c with connected := true, good := true } }).1
        (cleaned closing { m with c := { m.c with connected := true, good := true } }).2).1
      (resend env closing
        (cleaned closing { m with c := { m.c with connected := true, good := true } }).1
        (cleaned closing { m with c := { m.c with connected := true, good := true } }).2).2
    rw [resend_cleansession, hsession] at hfinished
    rw [hsession] at hresent
    exact (hcleaned.trans (hresent.mono .inl)).trans (hfinished.mono .inl)
  next => exact (finish_keeps env closing connack _ m).mono .inl

/-! ### A publication -/

/-- How a publication with the token `t` goes on once it has been started. -/
structure Ends (thread qos : Nat) (t : MsgId) (m : MQTTClients)
    (r : Option Returns × MQTTClients) : Prop where
  ids : Keeps (m.cleansession = true) m.ids r.2.ids
  token : ∀ other rc tok, r.1 = some (.publish other rc tok) →
    other = thread ∧ tok = token qos t ∧ rc ≠ MQTTCLIENT_MAX_MESSAGES_INFLIGHT
  threads : ∀ other, r.2.threads other = m.threads other ∨ r.2.threads other = none ∨
    r.2.threads other = some (.writing qos t)

theorem leave_threads
    (m : MQTTClients) (thread other : Nat) :
    (m.leave thread).threads other = m.threads other ∨ (m.leave thread).threads other = none := by
  by_cases h : other = thread
  · subst h
    exact .inr (Function.update_self _ _ _)
  · exact .inl (Function.update_of_ne h _ _)

theorem wait_self
    (m : MQTTClients) (thread : Nat) (reason : Wait) :
    (m.wait thread reason).threads thread = some reason :=
  Function.update_self _ _ _

theorem wait_of_ne
    (m : MQTTClients) {thread other : Nat} (reason : Wait)
    (h : other ≠ thread) :
    (m.wait thread reason).threads other = m.threads other :=
  Function.update_of_ne h _ _

theorem wait_threads
    (m : MQTTClients) (thread other : Nat) (reason : Wait) :
    (m.wait thread reason).threads other = m.threads other ∨
      (m.wait thread reason).threads other = some reason := by
  by_cases h : other = thread
  · subst h
    exact .inr (wait_self m other reason)
  · exact .inl (wait_of_ne m reason h)

theorem leave_ends
    {qos : Nat} {t : MsgId} {m' : MQTTClients} {rc : Int} (thread : Nat)
    (hids : Keeps (m.cleansession = true) m.ids m'.ids)
    (hthreads : m'.threads = m.threads)
    (hrc : rc ≠ MQTTCLIENT_MAX_MESSAGES_INFLIGHT) :
    Ends thread qos t m (some (.publish thread rc (token qos t)), m'.leave thread) := by
  refine ⟨hids, ?_, fun other => ?_⟩
  · intro other rc' tok h
    obtain ⟨rfl, rfl, rfl⟩ := Returns.publish.inj (Option.some.inj h)
    exact ⟨rfl, rfl, hrc⟩
  · rcases leave_threads m' thread other with h | h
    · exact .inl (h.trans (congrFun hthreads other))
    · exact .inr (.inl h)

theorem writeLoop_ends
    (thread qos : Nat) (t : MsgId) (m : MQTTClients) :
    Ends thread qos t m (m.writeLoop thread qos t) := by
  unfold writeLoop
  split
  · refine ⟨.inl rfl, nofun, fun other => ?_⟩
    rcases wait_threads m thread other (.writing qos t) with h | h
    · exact .inl h
    · exact .inr (.inr h)
  · refine leave_ends thread (.inl rfl) rfl ?_
    split <;> decide

/-- The return codes of a write. -/
theorem putdatas_rc
    (env : Env) (net : Net) (total : Nat) :
    (Socket.putdatas env net total).1 ≠ MQTTCLIENT_MAX_MESSAGES_INFLIGHT := by
  have hne : SOCKET_ERROR ≠ MQTTCLIENT_MAX_MESSAGES_INFLIGHT ∧
      TCPSOCKET_COMPLETE ≠ MQTTCLIENT_MAX_MESSAGES_INFLIGHT ∧
      TCPSOCKET_INTERRUPTED ≠ MQTTCLIENT_MAX_MESSAGES_INFLIGHT := by decide
  unfold Socket.putdatas
  split
  · exact hne.1
  · split
    · exact hne.1
    · split
      · exact hne.2.1
      · exact hne.2.2

theorem startPublish_rc
    (env : Env) (c : Clients) (publish : Publish) (qos : Nat) (retained : Bool) :
    (MQTTProtocol.startPublish env c publish qos retained).1 ≠
      MQTTCLIENT_MAX_MESSAGES_INFLIGHT := by
  have hput : ∀ (net : Net) (buf0len : Nat) (bufs : PacketBuffers),
      (WebSocket.putdatas env net buf0len bufs).1 ≠ MQTTCLIENT_MAX_MESSAGES_INFLIGHT := by
    intro net buf0len bufs
    unfold WebSocket.putdatas
    dsimp only
    split
    · split <;> exact putdatas_rc env _ _
    · exact putdatas_rc env _ _
  unfold MQTTProtocol.startPublish
  split <;> exact hput _ _ _

theorem assignMsgId_outbound
    (c : Clients) :
    (MQTTProtocol.assignMsgId c).2.outboundMsgs = c.outboundMsgs ∧
      (MQTTProtocol.assignMsgId c).2.connected = c.connected := by
  unfold MQTTProtocol.assignMsgId
  dsimp only
  split <;> exact ⟨rfl, rfl⟩

theorem startPublish_ids
    (env : Env) (c : Clients) (request : Request) (t : MsgId) :
    msgIds (MQTTProtocol.startPublish env c (publishOf c request t) request.qos
      request.retained).2.outboundMsgs = msgIds c.outboundMsgs ++ (token request.qos t).toList := by
  unfold MQTTProtocol.startPublish token
  by_cases hqos : request.qos > 0
  · rw [if_pos hqos, if_pos hqos, Option.toList_some]
    exact List.map_append
  · rw [if_neg hqos, if_neg hqos, Option.toList_none, List.append_nil]

theorem sendPublication_ends
    (env : Env) (closing : Closing) (thread : Nat) (request : Request) (t : MsgId)
    (m : MQTTClients) :
    ∃ c, msgIds c.outboundMsgs = m.ids ++ (token request.qos t).toList ∧
      Ends thread request.qos t { m with c } (sendPublication env closing thread request t m) := by
  refine ⟨_, startPublish_ids env m.c request t, ?_⟩
  unfold sendPublication
  dsimp only
  by_cases hpart : (MQTTProtocol.startPublish env m.c (publishOf m.c request t) request.qos
      request.retained).1 = TCPSOCKET_INTERRUPTED
  · rw [if_pos hpart]
    exact writeLoop_ends thread request.qos t _
  · rw [if_neg hpart]
    split
    · refine leave_ends thread (closeSession_keeps env closing _) rfl ?_
      split <;> decide
    · exact leave_ends thread (.inl rfl) rfl (startPublish_rc env _ _ _ _)

/-- A publication that goes on has a token that no message in flight has. -/
theorem assignAndSend_spec
    (env : Env) (closing : Closing) (thread : Nat) (request : Request) (m : MQTTClients) :
    ((MQTTProtocol.assignMsgId m.c).1 = 0 ∧
      assignAndSend env closing thread request m =
        (some (.publish thread MQTTCLIENT_MAX_MESSAGES_INFLIGHT none),
          { m with c := (MQTTProtocol.assignMsgId m.c).2 }.leave thread)) ∨
    ∃ t c, (request.qos > 0 → t ≠ 0 ∧ t ∉ m.ids) ∧
      msgIds c.outboundMsgs = m.ids ++ (token request.qos t).toList ∧
      Ends thread request.qos t { m with c } (assignAndSend env closing thread request m) := by
  unfold assignAndSend
  by_cases hqos : request.qos > 0
  · rw [if_pos hqos]
    dsimp only
    by_cases hzero : (MQTTProtocol.assignMsgId m.c).1 = 0
    · rw [if_pos hzero]
      exact .inl ⟨hzero, rfl⟩
    · rw [if_neg hzero]
      obtain ⟨c, hids, hends⟩ := sendPublication_ends env closing thread request
        (MQTTProtocol.assignMsgId m.c).1 { m with c := (MQTTProtocol.assignMsgId m.c).2 }
      refine .inr ⟨_, c, fun _ => ⟨hzero, ?_⟩, ?_, hends⟩
      · exact findMsg_eq_none.mp (MQTTProtocol.assignMsgId_fresh m.c hzero)
      · rw [hids, MQTTClients.ids, (assignMsgId_outbound m.c).1]
        rfl
  · rw [if_neg hqos]
    obtain ⟨c, hids, hends⟩ := sendPublication_ends env closing thread request 0 m
    exact .inr ⟨0, c, fun h => absurd h hqos, hids, hends⟩

/-- What a step does to the messages in flight, what it returns and who waits after it. -/
structure Outcome (m : MQTTClients) (e : SyncEvent) (r : Option Returns × MQTTClients) : Prop where
  ids : Keeps m.Cleanable m.ids r.2.ids ∨ (∃ t, Starts t m r.2) ∨
    ∃ pack msg, e.call = .packet (.ack pack) ∧
      findMsg m.c.outboundMsgs pack.msgId = some msg ∧ Completes pack msg ∧
      r.2.ids = m.ids.filter (· ≠ pack.msgId)
  token : ∀ thread rc t, r.1 = some (.publish thread rc (some t)) →
    Starts t m r.2 ∨ ∃ qos > 0, m.threads thread = some (.writing qos t)
  writing : ∀ thread qos t, qos > 0 → r.2.threads thread = some (.writing qos t) →
    Starts t m r.2 ∨ m.threads thread = some (.writing qos t)
  full : ∀ thread tok, r.1 = some (.publish thread MQTTCLIENT_MAX_MESSAGES_INFLIGHT tok) →
    m.MayPublish ∧ (MQTTProtocol.assignMsgId m.c).1 = 0

/-- Calls that are no publications. -/
theorem outcome_of_none
    {e : SyncEvent} {m' : MQTTClients}
    (hids : Keeps m.Cleanable m.ids m'.ids)
    (hthreads : m'.threads = m.threads) :
    Outcome m e (none, m') :=
  ⟨.inl hids, nofun, fun _ _ _ _ h => .inr (hthreads ▸ h), nofun⟩

/-- Returning without having started a message. -/
theorem outcome_of_return
    {e : SyncEvent} {thread : Nat} {rc : Int} {m' : MQTTClients}
    (hids : m'.ids = m.ids)
    (hthreads : ∀ other, m'.threads other = m.threads other ∨ m'.threads other = none)
    (hfull : rc = MQTTCLIENT_MAX_MESSAGES_INFLIGHT →
      m.MayPublish ∧ (MQTTProtocol.assignMsgId m.c).1 = 0) :
    Outcome m e (some (.publish thread rc none), m') := by
  refine ⟨.inl (.inl hids), ?_, ?_, ?_⟩
  · intro other rc' t h
    cases h
  · intro other qos t _ h
    rcases hthreads other with h' | h'
    · exact .inr (h'.symm.trans h)
    · cases h'.symm.trans h
  · intro other tok h
    exact hfull (Returns.publish.inj (Option.some.inj h)).2.1

theorem publishLoop_outcome
    (env : Env) (closing : Closing) (thread : Nat) (request : Request) {m : MQTTClients}
    (e : SyncEvent)
    (hconnected : m.c.connected = true) :
    Outcome m e (publishLoop env closing thread request m) := by
  unfold publishLoop
  by_cases hblocked : (m.c.outboundMsgs.length : Int) ≥ m.maxInflightMessages ∨
      Socket.noPendingWrites m.c.net = false
  · rw [if_pos hblocked]
    refine ⟨.inl (.inl rfl), nofun, fun other qos t _ h => .inr ?_, nofun⟩
    rcases wait_threads m thread other (.blocked request) with h' | h'
    · exact h'.symm.trans h
    · cases h'.symm.trans h
  · rw [if_neg hblocked]
    rw [not_or, not_le, Bool.not_eq_false] at hblocked
    have hmay : m.MayPublish := ⟨hconnected, hblocked.1, hblocked.2⟩
    rcases assignAndSend_spec env closing thread request m with
      ⟨hzero, hfull⟩ | ⟨t, c, hfresh, hids, hends⟩
    · rw [hfull]
      refine outcome_of_return ?_ (leave_threads _ thread) fun _ => ⟨hmay, hzero⟩
      exact congrArg msgIds (assignMsgId_outbound m.c).1
    · by_cases hqos : request.qos > 0
      · obtain ⟨hne, hnot⟩ := hfresh hqos
        have htoken : token request.qos t = some t := if_pos hqos
        have hstarts : Starts t m (assignAndSend env closing thread request m).2 := by
          refine ⟨hmay, hne, hnot, ?_⟩
          have h := hends.ids.mono (Q := m.Cleanable) .inl
          rw [MQTTClients.ids, hids, htoken] at h
          exact h
        refine ⟨.inr (.inl ⟨t, hstarts⟩), ?_, ?_, ?_⟩
        · intro other rc tok h
          obtain rfl := Option.some.inj ((hends.token _ _ _ h).2.1.trans htoken)
          exact .inl hstarts
        · intro other qos tok hpos h
          rcases hends.threads other with h' | h' | h'
          · exact .inr (h'.symm.trans h)
          · cases h'.symm.trans h
          · obtain ⟨-, rfl⟩ := Wait.writing.inj (Option.some.inj (h'.symm.trans h))
            exact .inl hstarts
        · intro other tok h
          exact absurd rfl (hends.token _ _ _ h).2.2
      · have htoken : token request.qos t = none := if_neg hqos
        rw [htoken, Option.toList_none, List.append_nil] at hids
        refine ⟨.inl ?_, ?_, ?_, ?_⟩
        · have h := hends.ids.mono (Q := m.Cleanable) .inl
          rw [MQTTClients.ids, hids] at h
          exact h
        · intro other rc tok h
          cases (hends.token _ _ _ h).2.1.trans htoken
        · intro other qos tok hpos h
          rcases hends.threads other with h' | h' | h'
          · exact .inr (h'.symm.trans h)
          · cases h'.symm.trans h
          · obtain ⟨rfl, -⟩ := Wait.writing.inj (Option.some.inj (h'.symm.trans h))
            exact absurd hpos hqos
        · intro other tok h
          exact absurd rfl (hends.token _ _ _ h).2.2

theorem writeLoop_outcome
    {m : MQTTClients} (e : SyncEvent) {thread qos : Nat} {t : MsgId}
    (hwaits : m.threads thread = some (.writing qos t)) :
    Outcome m e (m.writeLoop thread qos t) := by
  have hends := writeLoop_ends thread qos t m
  refine ⟨.inl (hends.ids.mono .inl), ?_, ?_, ?_⟩
  · intro other rc tok h
    obtain ⟨rfl, htok, -⟩ := hends.token _ _ _ h
    unfold token at htok
    split at htok
    next hpos =>
      obtain rfl := Option.some.inj htok
      exact .inr ⟨qos, hpos, hwaits⟩
    next => cases htok
  · intro other qos' t' hpos h
    unfold writeLoop at h
    split at h
    · by_cases hother : other = thread
      · subst hother
        exact .inr (hwaits.trans ((wait_self m other _).symm.trans h))
      · exact .inr ((wait_of_ne m _ hother).symm.trans h)
    · rcases leave_threads m thread other with h' | h'
      · exact .inr (h'.symm.trans h)
      · cases h'.symm.trans h
  · intro other tok h
    exact absurd rfl (hends.token _ _ _ h).2.2

theorem connack_threads
    (env : Env) (closing : Closing) (connack : Connack) (m : MQTTClients) :
    (m.connack env closing connack).threads = m.threads := by
  have hresend : ∀ rc (m : MQTTClients), (m.resend env closing rc).2.threads = m.threads := by
    intro rc m
    unfold resend settle closeSession
    dsimp only
    split_ifs <;> rfl
  have hcleaned : ∀ m : MQTTClients, (m.cleaned closing).2.threads = m.threads := by
    intro m
    unfold cleaned
    split <;> rfl
  have hfinish : ∀ rc (m : MQTTClients), (m.finish env closing connack rc).threads = m.threads := by
    intro rc m
    unfold finish
    split <;> rfl
  unfold MQTTClients.connack
  split
  · dsimp only
    rw [hfinish, hresend, hcleaned]
  · exact hfinish _ m

theorem handle_ids
    (env : Env) (c : Clients) (pack : Packet) :
    msgIds (c.handle env pack).2.outboundMsgs = msgIds c.outboundMsgs ∨
      ∃ a msg, pack = .ack a ∧ findMsg c.outboundMsgs a.msgId = some msg ∧ Completes a msg ∧
        msgIds (c.handle env pack).2.outboundMsgs =
          (msgIds c.outboundMsgs).filter (· ≠ a.msgId) := by
  rcases handle_outbound env c pack with ⟨a, hpack, heffect⟩ | hsame
  · cases heffect with
    | ignored _ _ h =>
      left
      rw [h]
    | completed msg _ hfound hcompletes h =>
      refine .inr ⟨a, msg, hpack, hfound, hcompletes, ?_⟩
      rw [h]
      exact msgIds_removeMsg_eq _ _
    | movedOn msg _ _ h =>
      left
      rw [h]
      exact msgIds_movedOn env _ _ _
  · left
    rw [hsame]

/-- What the step of a thread does. -/
theorem outcome_spec
    (env : Env) (char : CharType) (m : MQTTClients) (e : SyncEvent) :
    Outcome m.start e (m.outcome env char e) := by
  have hkept : ∀ other, m.start.threads other = m.start.threads other ∨
      m.start.threads other = none := fun _ => .inl rfl
  unfold outcome
  cases hcall : e.call with
  | publish5 thread request =>
    dsimp only
    unfold publish5
    by_cases hconnected : m.start.c.connected = false
    · rw [if_pos hconnected]
      exact outcome_of_return rfl hkept (fun h => absurd h (by decide))
    · rw [if_neg hconnected]
      split
      · exact publishLoop_outcome env e.closing thread request e (by simpa using hconnected)
      · exact outcome_of_return rfl hkept (fun h => absurd h (by decide))
  | resume thread =>
    dsimp only
    unfold resume
    cases hwaits : m.start.threads thread with
    | none => exact outcome_of_none (.inl rfl) rfl
    | some reason =>
      cases reason with
      | blocked request =>
        dsimp only
        by_cases hconnected : m.start.c.connected = false
        · rw [if_pos hconnected]
          exact outcome_of_return rfl (leave_threads _ thread) (fun h => absurd h (by decide))
        · rw [if_neg hconnected]
          exact publishLoop_outcome env e.closing thread request e (by simpa using hconnected)
      | writing qos t => exact writeLoop_outcome e hwaits
  | waitForCompletion mdt =>
    refine ⟨.inl (.inl rfl), ?_, fun _ _ _ _ h => .inr h, ?_⟩
    · intro thread rc t h
      dsimp only [MQTTClients.waitForCompletion] at h
      split_ifs at h <;> cases h
    · intro thread tok h
      dsimp only [MQTTClients.waitForCompletion] at h
      split_ifs at h <;> cases h
  | connectURI options => exact outcome_of_none (.inl rfl) rfl
  | connack connack =>
    exact outcome_of_none (connack_keeps env e.closing connack m.start)
      (connack_threads env e.closing connack m.start)
  | packet pack =>
    rcases handle_ids env m.start.c pack with h | ⟨a, msg, rfl, hfound, hcompletes, h⟩
    · exact outcome_of_none (.inl h) rfl
    · exact ⟨.inr (.inr ⟨a, msg, hcall, hfound, hcompletes, h⟩), nofun,
        fun _ _ _ _ h => .inr h, nofun⟩
  | retry now doRetry regardless =>
    refine outcome_of_none ?_ ?_
    · refine Keeps.trans (.inl ?_) ((settle_keeps env e.closing _).mono .inl)
      exact retry_ids env now doRetry regardless m.start.c
    · dsimp only [settle, closeSession]
      split <;> rfl
  | continueWrites => exact outcome_of_none (.inl rfl) rfl
  | writeInterrupted => exact outcome_of_none (.inl rfl) rfl
  | closeSession =>
    exact outcome_of_none ((closeSession_keeps env e.closing m.start).mono .inl) rfl

end

end MQTTClients
end MQTTClient
end PahoMqtt
