import PahoMqtt.Lib.Handover
import PahoMqtt.Inbound
import PahoMqtt.MessageArrived
import PahoMqtt.SyncClient

/-!
# Receiving through the synchronous client

Every publication is put on `messageQueue`.  Where there is a `messageArrived`,
the thread of `MQTTClient_run` calls it for the first of the queue, without
`mqttclient_mutex`, and takes the message off the queue when the callback accepts
it; where the thread is not running, `MQTTClient_receive` returns the first.
While the callback is being called, the other threads publish, connect and close
the session, which empties the queue when the session is cleaned; no packet is
handled, though, since only the thread that calls the callback does that.

The numbers of the publications and the lists of calls are read by no function.
The records of the queue are kept apart from those of the messages in flight,
which have other keys.
-/

namespace PahoMqtt
namespace MQTTClient

open MQTTPersistence
open MQTTAsync (Arrival QueuedArrival publicationMessage)
open MQTTAsync.ArrivalState (offeredTopicLen)

/-- `MQTTCLIENT_TOPICNAME_TRUNCATED` -/
def MQTTCLIENT_TOPICNAME_TRUNCATED : Int := -7

/-- A message that was passed to `messageArrived`, or that `MQTTClient_receive` returned. -/
structure Handed where
  number : Nat
  topicName : Bytes
  topicLen : Int32
  msg : QueuedMessage
  /-- What the callback returned, or `MQTTClient_receive`. -/
  rc : Int
  /-- By `MQTTClient_receive`. -/
  received : Bool

namespace Handed

/-- The message is the application's. -/
def taken (h : Handed) : Bool :=
  h.received || h.rc != 0

def arrival (h : Handed) : Arrival :=
  ⟨h.number, h.topicName, h.msg⟩

def offer (h : Handed) : Lib.Offer Nat :=
  ⟨h.number, h.taken⟩

end Handed

/-- The call of `messageArrived` for an entry, which returned `rc`. -/
def passed (entry : QueuedArrival) (rc : Int) : Handed where
  number := entry.number
  topicName := entry.qe.entry.topicName
  topicLen := offeredTopicLen entry.qe.entry
  msg := entry.qe.entry.msg
  rc
  received := false

/-- What `MQTTClient_deliverMessage` returns for an entry, when the last cycle returned `rc`. -/
def returned (entry : QueuedArrival) (rc : Int) : Handed where
  number := entry.number
  topicName := entry.qe.entry.topicName
  topicLen := entry.qe.entry.topicLen
  msg := entry.qe.entry.msg
  rc :=
    if (strlen entry.qe.entry.topicName : Int) ≠ entry.qe.entry.topicLen.toInt then
      MQTTCLIENT_TOPICNAME_TRUNCATED
    else rc
  received := true

/-- The publications that the application has taken. -/
def takenArrivals (calls : List Handed) : List Arrival :=
  (calls.filter (·.taken)).map (·.arrival)

/-- The call is one in which `MQTTClient_cleanSession` is called. -/
def MQTTClients.cleansSession (m : MQTTClients) (call : Call) (m' : MQTTClients) : Bool :=
  match call with
  | .connack connack =>
      if connack.rc = 0 then m.cleansession || m.cleanstart
      else m.c.MQTTVersion < 5 && m.cleansession
  | .closeSession => m.c.MQTTVersion < 5 && m.cleansession
  -- a session that a write has closed is no longer connected
  | _ => m.c.connected && !m'.c.connected && (m.c.MQTTVersion < 5 && m.cleansession)

/-- A client with its queue of messages. -/
structure Receiver where
  m : MQTTClients
  /-- The client has a store. -/
  persistence : Bool
  /-- There is a `messageArrived`. -/
  ma : Bool
  running : Bool
  qentry_seqno : Nat
  /-- The store, as far as it holds the records of the queue. -/
  records : Store
  messageQueue : List QueuedArrival
  /-- The entry that `messageArrived` is being called with. -/
  offered : Option QueuedArrival
  arrivals : List Arrival
  calls : List Handed
  /-- The numbers of the messages that were on the queue when a session was cleaned. -/
  emptied : List Nat

namespace Receiver

def queueClient (r : Receiver) : QueueClient where
  MQTTVersion := r.m.c.MQTTVersion
  command_seqno := 0
  qentry_seqno := r.qentry_seqno
  store := r.records

/-- The entry that is made of a publication. -/
def entryOf (publish : Publish) : QEntry where
  msg := publicationMessage publish
  topicName := publish.topic
  topicLen := Int32.ofNat publish.topiclen
  seqno := 0

/-- `Protocol_processPublication` -/
def processPublication (host : HostInt) (r : Receiver) (publish : Publish) : Receiver :=
  let number := r.arrivals.length
  let arrivals := r.arrivals ++ [⟨number, publish.topic, publicationMessage publish⟩]
  if r.persistence then
    let (client, qe) := persistQueueEntry host r.queueClient (entryOf publish)
    { r with
      arrivals
      qentry_seqno := client.qentry_seqno
      records := client.store
      messageQueue := r.messageQueue ++ [⟨number, qe⟩] }
  else
    { r with
      arrivals
      messageQueue := r.messageQueue ++ [⟨number, ⟨entryOf publish, none⟩⟩] }

/-- `MQTTPersistence_clear` and `MQTTClient_emptyMessageQueue`, in `MQTTClient_cleanSession` -/
def emptyMessageQueue (closing : Closing) (r : Receiver) : Receiver :=
  { r with
    records := if r.persistence then closing.pclear.2 else r.records
    messageQueue := []
    emptied := r.emptied ++ r.messageQueue.map (·.number) }

/-- A call of another function, the publications it passes on, and its cleaning of the session. -/
def call (env : Env) (char : CharType) (host : HostInt) (r : Receiver) (e : SyncEvent) : Receiver :=
  let m := (r.m.outcome env char e).2
  let queued := (deliveries m.c.net).foldl (processPublication host) { r with m }
  if r.m.cleansSession e.call m then queued.emptyMessageQueue e.closing else queued

/-- The record of an entry is removed from the store. -/
def unpersist (qe : QEntry) (r : Receiver) : Receiver :=
  if r.persistence then
    { r with records := (unpersistQueueEntry r.queueClient qe).store }
  else r

/-- `MQTTClient_run` gives up the mutex to call `messageArrived`. -/
def offer (r : Receiver) : Receiver :=
  match r.messageQueue with
  | [] => r
  | entry :: _ =>
      if r.running = true ∧ r.ma = true ∧ r.offered.isNone then { r with offered := some entry }
      else r

/--
`messageArrived` has returned, and `MQTTClient_run` has the mutex again.  Where the
session has been cleaned in the meantime the entry was freed, and `freed` is what is
read of it.
-/
def answer (rc : Int) (freed : Nat) (r : Receiver) : Receiver :=
  match r.offered with
  | none => r
  | some entry =>
      let qe := entry.qe.entry
      let r := { r with offered := none, calls := r.calls ++ [passed entry rc] }
      if rc = 0 then r
      else
        let seqno :=
          if r.messageQueue.any (·.number = entry.number) then qe.seqno else freed
        let r := r.unpersist { qe with seqno }
        -- `ListRemove` finds the entry by its address
        { r with messageQueue := r.messageQueue.filter (·.number ≠ entry.number) }

/-- The end of `MQTTClient_receive`: `MQTTClient_deliverMessage` of the first message. -/
def receive (rc : Int) (r : Receiver) : Receiver :=
  match r.messageQueue with
  | [] => r
  | entry :: messageQueue =>
      let r := r.unpersist entry.qe.entry
      { r with messageQueue, calls := r.calls ++ [returned entry rc] }

end Receiver

/-- What happens to a client and its queue. -/
inductive ReceiverEvent where
  | call (e : SyncEvent)
  | offer
  | answer (rc : Int) (freed : Nat)
  | receive (rc : Int)
  | setCallbacks
  /-- The thread of `MQTTClient_run` begins or ends. -/
  | setRunning (running : Bool)

namespace Receiver

def next (env : Env) (char : CharType) (host : HostInt) (r : Receiver) :
    ReceiverEvent → Receiver
  | .call e => r.call env char host e
  | .offer => r.offer
  | .answer rc freed => r.answer rc freed
  | .receive rc => r.receive rc
  | .setCallbacks => { r with ma := true }
  | .setRunning running => { r with running }

/--
Packets are of the client's version, and are not handled while the thread that does so
calls the callback; that thread does not end in the meantime, and `MQTTClient_receive`
does nothing while it runs.
-/
def Admissible (r : Receiver) : ReceiverEvent → Prop
  | .call e =>
      r.m.Admissible e ∧ ∀ pack, e.call = .packet pack →
        r.offered = none ∧ pack.MQTTVersion = r.m.c.MQTTVersion
  | .receive _ => r.running = false
  | .setRunning running => running = false → r.offered = none
  | _ => True

def Step (env : Env) (char : CharType) (host : HostInt) (r : Receiver) (e : ReceiverEvent)
    (r' : Receiver) : Prop :=
  r.Admissible e ∧ r' = r.next env char host e

/-- A client before its first message; those that were restored count as publications. -/
structure Created (r : Receiver) : Prop where
  arrivals : r.arrivals = r.messageQueue.map (·.arrival)
  numbers : r.arrivals.map (·.number) = List.range r.arrivals.length
  offered : r.offered = none
  calls : r.calls = []
  emptied : r.emptied = []

end Receiver

/-- The step is a call that cleans the session. -/
def CleansSession (x : Lib.Transition Receiver ReceiverEvent) : Prop :=
  ∃ e, x.event = .call e ∧ x.pre.m.cleansSession e.call x.post.m = true

/-- The publications that a step passes on. -/
def publishedBy (x : Lib.Transition Receiver ReceiverEvent) : List Publish :=
  match x.event with
  | .call _ => deliveries x.post.m.c.net
  | _ => []

/-! ### The queue as a desk -/

namespace Receiver

open Lib (Desk)

/-- The publications as items that are handed over. -/
def desk (r : Receiver) : Desk where
  came := r.arrivals.length
  first := r.arrivals.length - r.messageQueue.length
  offered := r.offered.map (·.number)
  offers := r.calls.map (·.offer)
  dropped := r.emptied

/-- The queue holds the last publications, and whatever was handed over is one of them. -/
structure Numbered (r : Receiver) : Prop where
  numbers : r.arrivals.map (·.number) = List.range r.arrivals.length
  queue : r.messageQueue.map (·.arrival) <:+ r.arrivals
  offered : ∀ entry, r.offered = some entry → entry.arrival ∈ r.arrivals ∧ r.running = true
  calls : ∀ call ∈ r.calls, call.arrival ∈ r.arrivals
  inTurn : r.desk.InTurn

section

variable {r : Receiver}

/-- Persisting an entry changes neither its topic nor its message. -/
theorem processPublication_cases
    (host : HostInt) (r : Receiver) (publish : Publish) :
    ∃ entry : QueuedArrival, ∃ qentry_seqno records,
      entry.arrival = ⟨r.arrivals.length, publish.topic, publicationMessage publish⟩ ∧
      r.processPublication host publish =
        { r with
          qentry_seqno
          records
          arrivals := r.arrivals ++ [entry.arrival]
          messageQueue := r.messageQueue ++ [entry] } := by
  unfold processPublication
  split
  · obtain ⟨htopic, hmsg⟩ :=
      MQTTAsync.persistQueueEntry_entry host r.queueClient (entryOf publish)
    refine ⟨⟨r.arrivals.length, (persistQueueEntry host r.queueClient (entryOf publish)).2⟩,
      (persistQueueEntry host r.queueClient (entryOf publish)).1.qentry_seqno,
      (persistQueueEntry host r.queueClient (entryOf publish)).1.store, ?_, ?_⟩
    · rw [QueuedArrival.arrival, htopic, hmsg]
      rfl
    · rw [QueuedArrival.arrival, htopic, hmsg]
      rfl
  · exact ⟨⟨_, ⟨entryOf publish, none⟩⟩, r.qentry_seqno, r.records, rfl, rfl⟩

/-- The record of an entry is all that is touched. -/
theorem unpersist_eq
    (qe : QEntry) (r : Receiver) :
    ∃ records, r.unpersist qe = { r with records } := by
  unfold unpersist
  split
  · exact ⟨_, rfl⟩
  · exact ⟨r.records, rfl⟩

@[simp] theorem passed_taken
    (entry : QueuedArrival) (rc : Int) :
    (passed entry rc).taken = (rc != 0) := by
  rfl

/-- The callback is called for the first of the queue, or nothing happens. -/
theorem offer_cases
    (r : Receiver) :
    r.offer = r ∨ ∃ entry rest, r.messageQueue = entry :: rest ∧ r.running = true ∧
      r.offered = none ∧ r.offer = { r with offered := some entry } := by
  unfold offer
  split
  · exact .inl rfl
  next entry rest hqueue =>
    split
    next hmay =>
      exact .inr ⟨entry, rest, hqueue, hmay.1, Option.isNone_iff_eq_none.mp hmay.2.2, rfl⟩
    · exact .inl rfl

/-- The call that has ended is listed, and an entry that was accepted goes. -/
theorem answer_cases
    (rc : Int) (freed : Nat) (r : Receiver) :
    r.answer rc freed = r ∨ ∃ entry records, r.offered = some entry ∧
      r.answer rc freed =
        { r with
          offered := none
          records
          calls := r.calls ++ [passed entry rc]
          messageQueue :=
            if rc = 0 then r.messageQueue
            else r.messageQueue.filter (·.number ≠ entry.number) } := by
  unfold answer
  split
  · exact .inl rfl
  next entry hoffered =>
    refine .inr ⟨entry, ?_⟩
    by_cases hrc : rc = 0
    · exact ⟨r.records, hoffered, by simp only [hrc, if_true]⟩
    · obtain ⟨records, hrecords⟩ := unpersist_eq
        { entry.qe.entry with
          seqno :=
            if r.messageQueue.any (·.number = entry.number) then entry.qe.entry.seqno
            else freed }
        { r with
          offered := none
          calls := r.calls ++ [passed entry rc] }
      refine ⟨records, hoffered, ?_⟩
      simp only [if_neg hrc, hrecords]

/-- The first message of the queue is returned, or there is none. -/
theorem receive_cases
    (rc : Int) (r : Receiver) :
    r.receive rc = r ∨ ∃ entry rest records, r.messageQueue = entry :: rest ∧
      r.receive rc =
        { r with
          records
          messageQueue := rest
          calls := r.calls ++ [returned entry rc] } := by
  unfold receive
  split
  · exact .inl rfl
  next entry rest hqueue =>
    obtain ⟨records, hrecords⟩ := unpersist_eq entry.qe.entry r
    refine .inr ⟨entry, rest, records, hqueue, ?_⟩
    simp only [hrecords]

namespace Numbered

theorem number_at
    (h : r.Numbered)
    {k : Nat} {a : Arrival}
    (ha : r.arrivals[k]? = some a) :
    a.number = k := by
  have hk := (List.getElem?_eq_some_iff.mp ha).1
  have hnumber := congrArg (fun l => l[k]?) h.numbers
  simpa only [List.getElem?_map, ha, Option.map_some, List.getElem?_range hk,
    Option.some.injEq] using hnumber

theorem arrival_number
    (h : r.Numbered)
    {a : Arrival}
    (ha : a ∈ r.arrivals) :
    r.arrivals[a.number]? = some a := by
  obtain ⟨i, hi⟩ := List.mem_iff_getElem?.mp ha
  rw [h.number_at hi]
  exact hi

theorem queue_le
    (h : r.Numbered) :
    r.messageQueue.length ≤ r.arrivals.length := by
  have hle := h.queue.length_le
  rwa [List.length_map] at hle

/-- The numbers of the queue are the last ones. -/
theorem queue_numbers
    (h : r.Numbered) :
    r.messageQueue.map (·.number) = List.range' r.desk.first r.messageQueue.length := by
  obtain ⟨before, hsplit⟩ := h.queue
  have hlength := congrArg List.length hsplit
  rw [List.length_append, List.length_map] at hlength
  have hnumbers := h.numbers
  rw [← hsplit, List.map_append, List.map_map, hsplit, ← hlength, List.range_eq_range',
    ← List.range'_append_1] at hnumbers
  have hright := (List.append_inj hnumbers (by rw [List.length_map, List.length_range'])).2
  have hfirst : r.desk.first = before.length := by
    rw [desk, ← hlength, Nat.add_sub_cancel]
  rw [hfirst]
  simpa [Function.comp_def, QueuedArrival.arrival] using hright

theorem head_number
    (h : r.Numbered)
    {entry : QueuedArrival} {rest : List QueuedArrival}
    (hqueue : r.messageQueue = entry :: rest) :
    entry.number = r.desk.first ∧ r.desk.first < r.arrivals.length := by
  have hnumbers := h.queue_numbers
  have hle := h.queue_le
  rw [hqueue, List.map_cons, List.length_cons, List.range'_succ] at hnumbers
  refine ⟨(List.cons.inj hnumbers).1, ?_⟩
  rw [hqueue, List.length_cons] at hle
  rw [desk, hqueue, List.length_cons]
  dsimp only
  omega

theorem entry_mem
    (h : r.Numbered)
    {entry : QueuedArrival}
    (hentry : entry ∈ r.messageQueue) :
    entry.arrival ∈ r.arrivals :=
  h.queue.subset (List.mem_map_of_mem hentry)

/-- A publication comes to wait. -/
theorem processPublication
    (h : r.Numbered) (host : HostInt) (publish : Publish) :
    (r.processPublication host publish).Numbered := by
  obtain ⟨entry, qentry_seqno, records, harrival, heq⟩ := processPublication_cases host r publish
  rw [heq]
  have hsubset : ∀ a ∈ r.arrivals, a ∈ r.arrivals ++ [entry.arrival] := fun a ha =>
    List.mem_append_left _ ha
  constructor
  · dsimp only
    rw [List.map_append, h.numbers, List.length_append, List.length_singleton, List.range_succ,
      harrival]
    rfl
  · dsimp only
    rw [List.map_append]
    obtain ⟨before, hsplit⟩ := h.queue
    exact ⟨before, by rw [← List.append_assoc, hsplit]; rfl⟩
  · intro e he
    obtain ⟨hmem, hrunning⟩ := h.offered e he
    exact ⟨hsubset _ hmem, hrunning⟩
  · exact fun c hc => hsubset _ (h.calls c hc)
  · have hstep := Lib.Desk.Step.come r.desk
    have hturn := hstep.inTurn h.inTurn
    simp only [desk, List.length_append, List.length_singleton] at hturn ⊢
    rw [Nat.add_sub_add_right]
    exact hturn

/-- The queue is emptied with the session. -/
theorem emptyMessageQueue
    (h : r.Numbered) (closing : Closing) :
    (r.emptyMessageQueue closing).Numbered := by
  refine ⟨h.numbers, List.nil_suffix, h.offered, h.calls, ?_⟩
  have hstep := Lib.Desk.Step.drop r.desk
  have hturn := hstep.inTurn h.inTurn
  have hle := h.queue_le
  have hlength : r.desk.came - r.desk.first = r.messageQueue.length := by
    simp only [desk]
    omega
  rw [hlength, ← h.queue_numbers] at hturn
  exact hturn

theorem call
    (h : r.Numbered) (env : Env) (char : CharType) (host : HostInt) (e : SyncEvent) :
    (r.call env char host e).Numbered := by
  have hfold : ∀ (publishes : List Publish) {r : Receiver}, r.Numbered →
      (publishes.foldl (Receiver.processPublication host) r).Numbered := by
    intro publishes
    induction publishes with
    | nil => exact fun h => h
    | cons publish publishes ih => exact fun h => ih (h.processPublication host publish)
  have hqueued := hfold (deliveries (r.m.outcome env char e).2.c.net)
    (r := { r with m := (r.m.outcome env char e).2 })
    ⟨h.numbers, h.queue, h.offered, h.calls, h.inTurn⟩
  unfold Receiver.call
  dsimp only
  split
  · exact hqueued.emptyMessageQueue e.closing
  · exact hqueued

/-- Taking an entry off the queue by its number. -/
theorem filter_queue
    (h : r.Numbered)
    {k : Nat}
    (hk : k ≤ r.desk.first) :
    r.messageQueue.filter (·.number ≠ k) =
      if k = r.desk.first then r.messageQueue.tail else r.messageQueue := by
  have hnumbers := h.queue_numbers
  have hle := h.queue_le
  cases hqueue : r.messageQueue with
  | nil => simp
  | cons entry rest =>
      rw [hqueue, List.map_cons, List.length_cons, List.range'_succ] at hnumbers
      obtain ⟨hhead, htail⟩ := List.cons.inj hnumbers
      have hrest : ∀ e ∈ rest, r.desk.first < e.number := by
        intro e he
        have hmem : e.number ∈ rest.map (·.number) := List.mem_map_of_mem he
        rw [htail, List.mem_range'_1] at hmem
        omega
      have hkept : rest.filter (·.number ≠ k) = rest := by
        refine List.filter_eq_self.mpr fun e he => ?_
        have := hrest e he
        simp only [decide_eq_true_eq]
        omega
      by_cases hfirst : k = r.desk.first
      · rw [if_pos hfirst, List.filter_cons_of_neg (by simp [hhead, hfirst]), hkept,
          List.tail_cons]
      · rw [if_neg hfirst, List.filter_cons_of_pos (by simp only [decide_eq_true_eq]; omega), hkept]

/-- What has been handed over is listed, and the queue is what is left of it. -/
theorem handed
    (h : r.Numbered)
    {entry : QueuedArrival} (call : Handed) (messageQueue : List QueuedArrival) (records : Store)
    (hmem : entry.arrival ∈ r.arrivals)
    (hcall : call.arrival = entry.arrival)
    (hqueue : messageQueue =
      if call.taken = true ∧ entry.number = r.desk.first then r.messageQueue.tail
      else r.messageQueue)
    (hturn : Lib.Desk.InTurn
      { r.desk with
        offered := none
        first :=
          if call.taken = true ∧ entry.number = r.desk.first then r.desk.first + 1
          else r.desk.first
        offers := r.desk.offers ++ [⟨entry.number, call.taken⟩] }) :
    Numbered
      { r with
        offered := none
        records
        calls := r.calls ++ [call]
        messageQueue } := by
  have hnumber : call.number = entry.number := congrArg Arrival.number hcall
  have hle := h.queue_le
  have hsuffix : messageQueue.map (·.arrival) <:+ r.arrivals := by
    rw [hqueue]
    split
    · rw [List.map_tail]
      exact (List.tail_suffix _).trans h.queue
    · exact h.queue
  refine ⟨h.numbers, hsuffix, nofun, ?_, ?_⟩
  · intro c hc
    rcases List.mem_append.mp hc with hc | hc
    · exact h.calls c hc
    · obtain rfl := List.mem_singleton.mp hc
      rw [hcall]
      exact hmem
  · have hfirst : r.arrivals.length - messageQueue.length =
        if call.taken = true ∧ entry.number = r.desk.first then r.desk.first + 1
        else r.desk.first := by
      have hcame := hturn.first_le
      rw [hqueue]
      split
      next hgone =>
        rw [if_pos hgone] at hcame
        simp only [desk, List.length_tail] at hcame ⊢
        omega
      next => rfl
    rw [← hfirst] at hturn
    simpa [desk, Handed.offer, hnumber] using hturn

theorem offer
    (h : r.Numbered) :
    r.offer.Numbered := by
  rcases offer_cases r with heq | ⟨entry, rest, hqueue, hrunning, hfree, heq⟩
  · rw [heq]
    exact h
  · obtain ⟨hnumber, hwaits⟩ := h.head_number hqueue
    have hentry : entry ∈ r.messageQueue := by
      rw [hqueue]
      exact List.mem_cons_self
    rw [heq]
    refine ⟨h.numbers, h.queue, ?_, h.calls, ?_⟩
    · intro e he
      obtain rfl := Option.some.inj he
      exact ⟨h.entry_mem hentry, hrunning⟩
    · have hnone : r.desk.offered = none := by
        rw [desk, hfree]
        rfl
      have hturn := (Lib.Desk.Step.offer r.desk hnone hwaits).inTurn h.inTurn
      have hdesk : ({ r with offered := some entry } : Receiver).desk =
          { r.desk with offered := some r.desk.first } :=
        congrArg (fun k => ({ r.desk with offered := some k } : Desk)) hnumber
      rw [hdesk]
      exact hturn

/-- The callback returns: an entry that it accepts goes, if it is still there. -/
theorem answer
    (h : r.Numbered) (rc : Int) (freed : Nat) :
    (r.answer rc freed).Numbered := by
  rcases answer_cases rc freed r with heq | ⟨entry, records, hoffered, heq⟩
  · rw [heq]
    exact h
  · have hdesk : r.desk.offered = some entry.number := by
      rw [desk, hoffered]
      rfl
    have hturn := (Lib.Desk.Step.answer r.desk entry.number (rc != 0) hdesk).inTurn h.inTurn
    obtain ⟨-, -, hplace⟩ := h.inTurn.offered _ hdesk
    have hle : entry.number ≤ r.desk.first := by
      rcases hplace with heq | hdropped
      · exact heq.le
      · exact (h.inTurn.dropped_lt _ hdropped).le
    rw [heq]
    refine h.handed (passed entry rc) _ records (h.offered entry hoffered).1 rfl ?_ hturn
    rw [passed_taken]
    by_cases hrc : rc = 0
    · simp [hrc]
    · rw [if_neg hrc, h.filter_queue hle]
      simp [hrc]

theorem receive
    (h : r.Numbered)
    (hfree : r.offered = none)
    (rc : Int) :
    (r.receive rc).Numbered := by
  rcases receive_cases rc r with heq | ⟨entry, rest, records, hqueue, heq⟩
  · rw [heq]
    exact h
  · obtain ⟨hnumber, hwaits⟩ := h.head_number hqueue
    have hentry : entry ∈ r.messageQueue := by
      rw [hqueue]
      exact List.mem_cons_self
    have hnone : r.desk.offered = none := by
      rw [desk, hfree]
      rfl
    have hturn := (Lib.Desk.Step.give r.desk hnone hwaits).inTurn h.inTurn
    have hnow : (returned entry rc).taken = true ∧ entry.number = r.desk.first := ⟨rfl, hnumber⟩
    have hhanded := h.handed (returned entry rc) rest records (h.entry_mem hentry) rfl
      (by rw [if_pos hnow, hqueue, List.tail_cons])
      (by
        rw [if_pos hnow, hnumber, ← hnone]
        exact hturn)
    rw [heq]
    rw [← hfree] at hhanded
    exact hhanded

theorem next
    {env : Env} {char : CharType} {host : HostInt} {e : ReceiverEvent}
    (h : r.Numbered)
    (hadm : r.Admissible e) :
    (r.next env char host e).Numbered := by
  cases e with
  | call e => exact h.call env char host e
  | offer => exact h.offer
  | answer rc freed => exact h.answer rc freed
  | receive rc =>
      refine h.receive ?_ rc
      by_contra hne
      obtain ⟨entry, hoffered⟩ := Option.ne_none_iff_exists'.mp hne
      exact absurd ((h.offered entry hoffered).2.symm.trans hadm) (by decide)
  | setCallbacks => exact ⟨h.numbers, h.queue, h.offered, h.calls, h.inTurn⟩
  | setRunning running =>
      refine ⟨h.numbers, h.queue, ?_, h.calls, h.inTurn⟩
      intro entry hoffered
      refine ⟨(h.offered entry hoffered).1, ?_⟩
      by_contra hstopped
      have hnone := hadm (Bool.eq_false_iff.mpr hstopped)
      exact nomatch hoffered.symm.trans hnone

end Numbered

theorem Created.numbered
    (h : r.Created) :
    r.Numbered := by
  refine ⟨h.numbers, ?_, ?_, ?_, ?_⟩
  · rw [← h.arrivals]
  · intro entry hoffered
    exact nomatch hoffered.symm.trans h.offered
  · intro call hcall
    rw [h.calls] at hcall
    exact absurd hcall List.not_mem_nil
  · have hdesk : r.desk = ⟨r.arrivals.length, 0, none, [], []⟩ := by
      rw [desk, h.calls, h.offered, h.emptied, h.arrivals, List.length_map, Nat.sub_self]
      rfl
    rw [hdesk]
    exact Lib.Desk.InTurn.start _

end
end Receiver

end MQTTClient
end PahoMqtt
