import PahoMqtt.Lib.Redelivery
import PahoMqtt.Lib.Runs
import PahoMqtt.Net
import PahoMqtt.QueuePersistence

/-!
# Passing publications on to the application

`Protocol_processPublication` offers a publication to `messageArrived`, or adds
it to the queue of messages; `MQTTAsync_receiveThread` offers the first message
of the queue.  Each publication has a number, which no function reads, and the
state lists the publications and the calls of `messageArrived`.
-/

namespace PahoMqtt
namespace MQTTAsync

open MQTTPersistence

/-- A publication that was processed; the number tells it from others that are the same. -/
structure Arrival where
  number : Nat
  topicName : Bytes
  msg : QueuedMessage
deriving DecidableEq

/-- A call of `messageArrived` for a publication, and what it returned. -/
structure MessageArrivedCall where
  number : Nat
  topicName : Bytes
  topicLen : Int32
  msg : QueuedMessage
  rc : Int

/-- An entry of `messageQueue`, and the number of the publication that it was made for. -/
structure QueuedArrival where
  number : Nat
  qe : Queued QEntry

/-- The members of `Clients` and `MQTTAsyncs` that passing on a publication uses. -/
structure ArrivalState where
  client : QueueClient
  connected : Bool
  persistence : Bool
  /-- `MQTTAsync_handles` has the client. -/
  found : Bool
  /-- There is a `messageArrived`. -/
  ma : Bool
  messageQueue : List QueuedArrival
  arrivals : List Arrival
  calls : List MessageArrivedCall

/-- The message that is made of a publication. -/
def publicationMessage (publish : Publish) : QueuedMessage :=
  { struct_version := 1
    payloadlen := Int32.ofNat publish.payload.length
    payload := publish.payload
    qos := Int32.ofNat publish.header.qos.val
    retained := if publish.header.retain then 1 else 0
    -- a message of QoS 2 is not passed on with the flag
    dup := if publish.header.qos = 2 then 0 else if publish.header.dup then 1 else 0
    msgid := Int32.ofNat publish.msgId.toNat
    properties :=
      if publish.MQTTVersion ≥ 5 then MQTTProperties.copy publish.properties
      else MQTTProperties.initializer }

namespace ArrivalState

/-- `MQTTAsync_deliverMessage`, with what the callback returns. -/
def deliverMessage (s : ArrivalState) (number : Nat) (topicName : Bytes) (topicLen : Int32)
    (mm : QueuedMessage) (rc : Int) : ArrivalState :=
  { s with calls := s.calls ++ [⟨number, topicName, topicLen, mm, rc⟩] }

/-- The entry is appended, and persisted where the client has persistence. -/
def queueUp (host : HostInt) (s : ArrivalState) (number : Nat) (qe : QEntry) : ArrivalState :=
  if s.persistence then
    let (client, qe) := persistQueueEntry host s.client qe
    { s with client, messageQueue := s.messageQueue ++ [⟨number, qe⟩] }
  else
    { s with messageQueue := s.messageQueue ++ [⟨number, ⟨qe, none⟩⟩] }

/-- `Protocol_processPublication`, with what the callback returns if it is called. -/
def processPublication (host : HostInt) (s : ArrivalState) (publish : Publish) (answer : Int) :
    ArrivalState :=
  let mm := publicationMessage publish
  let topicLen := Int32.ofNat publish.topiclen
  let number := s.arrivals.length
  let qe : QEntry := { msg := mm, topicName := publish.topic, topicLen, seqno := 0 }
  let arrival : Arrival := { number, topicName := publish.topic, msg := mm }
  let arrived := { s with arrivals := s.arrivals ++ [arrival] }
  if s.messageQueue = [] ∧ s.connected ∧ s.found ∧ s.ma then
    let delivered := arrived.deliverMessage number publish.topic topicLen mm answer
    if answer = 0 then delivered.queueUp host number qe else delivered
  else
    arrived.queueUp host number qe

/-- The length that is passed for a topic; 0 where it is that of the string. -/
def offeredTopicLen (qe : QEntry) : Int32 :=
  if (strlen qe.topicName : Int) = qe.topicLen.toInt then 0 else qe.topicLen

/-- The part of `MQTTAsync_receiveThread` that follows `MQTTAsync_cycle` for a socket. -/
def receiveThread (s : ArrivalState) (rc answer : Int) : ArrivalState :=
  if rc = SOCKET_ERROR then
    -- nextOrClose does not touch the queue
    { s with connected := false }
  else
    match s.messageQueue with
    | [] => s
    | ⟨number, qe⟩ :: messageQueue =>
        if s.ma then
          let delivered := s.deliverMessage number qe.entry.topicName (offeredTopicLen qe.entry)
            qe.entry.msg answer
          if answer = 0 then delivered
          else if s.persistence then
            { delivered with client := unpersistQueueEntry s.client qe.entry, messageQueue }
          else { delivered with messageQueue }
        else s

end ArrivalState

/-- What happens to the client of an application. -/
inductive ArrivalEvent where
  | processPublication (publish : Publish) (answer : Int)
  | receiveThread (rc answer : Int)
  /-- A connection begins, or one ends in any of the ways that end one. -/
  | setConnected (connected : Bool)
  /-- Another function changes the store, or the version of the protocol. -/
  | setClient (client : QueueClient)

def ArrivalState.next (host : HostInt) (s : ArrivalState) : ArrivalEvent → ArrivalState
  | .processPublication publish answer => s.processPublication host publish answer
  | .receiveThread rc answer => s.receiveThread rc answer
  | .setConnected connected => { s with connected }
  | .setClient client => { s with client }

def ArrivalStep (host : HostInt) (s : ArrivalState) (e : ArrivalEvent) (s' : ArrivalState) : Prop :=
  s' = s.next host e

/-! ### Calls and entries as publications -/

def MessageArrivedCall.arrival (call : MessageArrivedCall) : Arrival :=
  ⟨call.number, call.topicName, call.msg⟩

def QueuedArrival.arrival (entry : QueuedArrival) : Arrival :=
  ⟨entry.number, entry.qe.entry.topicName, entry.qe.entry.msg⟩

/-- The publications that the callback has accepted. -/
def acceptedArrivals (calls : List MessageArrivedCall) : List Arrival :=
  (calls.filter (fun call => call.rc ≠ 0)).map (·.arrival)

/-- What an event adds to the publications. -/
def ArrivalEvent.published : ArrivalEvent → List (Bytes × QueuedMessage)
  | .processPublication publish _ => [(publish.topic, publicationMessage publish)]
  | _ => []

def Arrival.content (arrival : Arrival) : Bytes × QueuedMessage :=
  (arrival.topicName, arrival.msg)

/-- A call is an offer. -/
def MessageArrivedCall.offer (call : MessageArrivedCall) : Lib.Offer Arrival :=
  ⟨call.arrival, decide (call.rc ≠ 0)⟩

namespace ArrivalState

/-- The publications as items that wait and are offered. -/
def line (s : ArrivalState) : Lib.Line Arrival :=
  ⟨s.arrivals, s.messageQueue.map (·.arrival), s.calls.map (·.offer)⟩

/-- A client before its first call; the messages that were restored count as publications. -/
structure Created (s : ArrivalState) : Prop where
  arrivals : s.arrivals = s.messageQueue.map (·.arrival)
  numbers : s.arrivals.map (·.number) = List.range s.arrivals.length
  calls : s.calls = []

end ArrivalState

theorem accepted_offers
    (calls : List MessageArrivedCall) :
    Lib.accepted (calls.map (·.offer)) = acceptedArrivals calls := by
  induction calls with
  | nil =>
      rfl
  | cons call calls ih =>
      by_cases hrc : call.rc = 0
      · simpa [acceptedArrivals, Lib.accepted, MessageArrivedCall.offer, hrc] using ih
      · simpa [acceptedArrivals, Lib.accepted, MessageArrivedCall.offer, hrc] using ih

/-- Persisting an entry changes neither its topic nor its message. -/
theorem persistQueueEntry_entry
    (host : HostInt) (client : QueueClient) (qe : QEntry) :
    (persistQueueEntry host client qe).2.entry.topicName = qe.topicName ∧
      (persistQueueEntry host client qe).2.entry.msg = qe.msg := by
  rw [persistQueueEntry]
  split
  · exact ⟨rfl, rfl⟩
  · exact ⟨rfl, rfl⟩

namespace ArrivalState

theorem queueUp_line
    (host : HostInt) (s : ArrivalState) (number : Nat) (qe : QEntry) :
    (s.queueUp host number qe).line =
      { s.line with waiting := s.line.waiting ++ [⟨number, qe.topicName, qe.msg⟩] } := by
  obtain ⟨htopic, hmsg⟩ := persistQueueEntry_entry host s.client qe
  rw [queueUp]
  split_ifs with hpersistence
  · simp [line, QueuedArrival.arrival, htopic, hmsg]
  · simp [line, QueuedArrival.arrival]

theorem deliverMessage_line
    (s : ArrivalState) (number : Nat) (topicName : Bytes) (topicLen : Int32) (mm : QueuedMessage)
    (rc : Int) :
    (s.deliverMessage number topicName topicLen mm rc).line =
      { s.line with
        offers := s.line.offers ++ [⟨⟨number, topicName, mm⟩, decide (rc ≠ 0)⟩] } := by
  simp [line, deliverMessage, MessageArrivedCall.offer, MessageArrivedCall.arrival]

/-- A publication is offered, or it waits. -/
theorem processPublication_line
    (host : HostInt) (s : ArrivalState) (publish : Publish) (answer : Int) :
    ∃ e, Lib.Line.Step s.line e (s.processPublication host publish answer).line := by
  rw [processPublication]
  split_ifs with hdirect hanswer
  · -- rejected, so it is the first that waits
    refine ⟨.offer ⟨s.arrivals.length, publish.topic, publicationMessage publish⟩ false, ?_⟩
    rw [queueUp_line, deliverMessage_line]
    have hstep := Lib.Line.Step.offer s.line
      ⟨s.arrivals.length, publish.topic, publicationMessage publish⟩ false
      (by rw [line, hdirect.1, List.map_nil])
    simpa [line, hdirect.1, hanswer] using hstep
  · refine ⟨.offer ⟨s.arrivals.length, publish.topic, publicationMessage publish⟩ true, ?_⟩
    rw [deliverMessage_line]
    have hstep := Lib.Line.Step.offer s.line
      ⟨s.arrivals.length, publish.topic, publicationMessage publish⟩ true
      (by rw [line, hdirect.1, List.map_nil])
    simpa [line, hdirect.1, hanswer] using hstep
  · refine ⟨.wait ⟨s.arrivals.length, publish.topic, publicationMessage publish⟩, ?_⟩
    rw [queueUp_line]
    exact Lib.Line.Step.wait s.line _

/-- The first message of the queue is offered, or nothing happens. -/
theorem receiveThread_line
    (s : ArrivalState) (rc answer : Int) :
    (s.receiveThread rc answer).line = s.line ∨
      ∃ e, Lib.Line.Step s.line e (s.receiveThread rc answer).line := by
  rw [receiveThread]
  by_cases hrc : rc = SOCKET_ERROR
  · rw [if_pos hrc]
    exact Or.inl rfl
  · rw [if_neg hrc]
    cases hqueue : s.messageQueue with
    | nil =>
        exact Or.inl rfl
    | cons entry messageQueue =>
        dsimp only
        have hwaiting : s.line.waiting = entry.arrival :: messageQueue.map (·.arrival) := by
          rw [line, hqueue, List.map_cons]
        split_ifs with hma hanswer hpersistence
        · refine Or.inr ⟨.retry false, ?_⟩
          have hstep := Lib.Line.Step.retry s.line _ _ false hwaiting
          rw [deliverMessage_line]
          simpa [line, QueuedArrival.arrival, hqueue, hanswer] using hstep
        · refine Or.inr ⟨.retry true, ?_⟩
          have hstep := Lib.Line.Step.retry s.line _ _ true hwaiting
          simpa [line, deliverMessage, MessageArrivedCall.offer, MessageArrivedCall.arrival,
            QueuedArrival.arrival, hanswer] using hstep
        · refine Or.inr ⟨.retry true, ?_⟩
          have hstep := Lib.Line.Step.retry s.line _ _ true hwaiting
          simpa [line, deliverMessage, MessageArrivedCall.offer, MessageArrivedCall.arrival,
            QueuedArrival.arrival, hanswer] using hstep
        · exact Or.inl rfl

theorem queueUp_arrivals
    (host : HostInt) (s : ArrivalState) (number : Nat) (qe : QEntry) :
    (s.queueUp host number qe).arrivals = s.arrivals := by
  rw [queueUp]
  split_ifs
  · rfl
  · rfl

theorem processPublication_arrivals
    (host : HostInt) (s : ArrivalState) (publish : Publish) (answer : Int) :
    (s.processPublication host publish answer).arrivals =
      s.arrivals ++ [⟨s.arrivals.length, publish.topic, publicationMessage publish⟩] := by
  rw [processPublication]
  split_ifs
  · rw [queueUp_arrivals]
    rfl
  · rfl
  · rw [queueUp_arrivals]

theorem receiveThread_arrivals
    (s : ArrivalState) (rc answer : Int) :
    (s.receiveThread rc answer).arrivals = s.arrivals := by
  rw [receiveThread]
  by_cases hrc : rc = SOCKET_ERROR
  · rw [if_pos hrc]
  · rw [if_neg hrc]
    cases s.messageQueue with
    | nil =>
        rfl
    | cons entry messageQueue =>
        dsimp only
        split_ifs
        · rfl
        · rfl
        · rfl
        · rfl

/-- What an event adds to the publications has the next number. -/
theorem next_arrivals
    (host : HostInt) (s : ArrivalState) (e : ArrivalEvent) :
    (s.next host e).arrivals =
      s.arrivals ++ e.published.map (fun content => ⟨s.arrivals.length, content.1, content.2⟩) := by
  cases e with
  | processPublication publish answer =>
      exact processPublication_arrivals host s publish answer
  | receiveThread rc answer =>
      exact (receiveThread_arrivals s rc answer).trans (List.append_nil s.arrivals).symm
  | setConnected connected =>
      exact (List.append_nil s.arrivals).symm
  | setClient client =>
      exact (List.append_nil s.arrivals).symm

/-- The publications are in the line in the order of their numbers. -/
structure Numbered (s : ArrivalState) : Prop where
  numbers : s.arrivals.map (·.number) = List.range s.arrivals.length
  inOrder : s.line.InOrder

theorem Created.numbered
    {s : ArrivalState}
    (h : s.Created) :
    s.Numbered := by
  refine ⟨h.numbers, ?_⟩
  have hline : s.line = ⟨s.arrivals, s.arrivals, []⟩ := by
    rw [line, h.calls, ← h.arrivals, List.map_nil]
  rw [hline]
  exact Lib.Line.inOrder_start s.arrivals

theorem Numbered.nodup
    {s : ArrivalState}
    (h : s.Numbered) :
    s.arrivals.Nodup := by
  refine List.Nodup.of_map (·.number) ?_
  rw [h.numbers]
  exact List.nodup_range

/-- Every step keeps the order. -/
theorem Numbered.next
    {s : ArrivalState}
    (h : s.Numbered) (host : HostInt) (e : ArrivalEvent) :
    (s.next host e).Numbered := by
  constructor
  · rw [next_arrivals]
    cases e with
    | processPublication publish answer =>
        simp [ArrivalEvent.published, h.numbers, List.range_succ]
    | _ =>
        simpa [ArrivalEvent.published] using h.numbers
  · cases e with
    | processPublication publish answer =>
        obtain ⟨e, hstep⟩ := processPublication_line host s publish answer
        exact hstep.inOrder h.inOrder
    | receiveThread rc answer =>
        rcases receiveThread_line s rc answer with hsame | ⟨e, hstep⟩
        · rw [ArrivalState.next, hsame]
          exact h.inOrder
        · exact hstep.inOrder h.inOrder
    | setConnected connected =>
        exact h.inOrder
    | setClient client =>
        exact h.inOrder

/-- What is waiting is offered in the next round of the receiving thread. -/
theorem receiveThread_offers
    {s : ArrivalState} {entry : QueuedArrival} {messageQueue : List QueuedArrival} {rc : Int}
    (hqueue : s.messageQueue = entry :: messageQueue)
    (hma : s.ma = true)
    (hrc : rc ≠ SOCKET_ERROR) (answer : Int) :
    (s.receiveThread rc answer).calls =
      s.calls ++ [⟨entry.number, entry.qe.entry.topicName, offeredTopicLen entry.qe.entry,
        entry.qe.entry.msg, answer⟩] := by
  rw [receiveThread, if_neg hrc, hqueue]
  dsimp only
  rw [if_pos hma]
  split_ifs
  · rfl
  · rfl
  · rfl

end ArrivalState

/-! ### Runs -/

section Runs

open Lib

variable {host : HostInt} {s s' : ArrivalState} {tr : List (Transition ArrivalState ArrivalEvent)}

theorem runs_numbered
    (hrun : Runs (ArrivalStep host) s tr s')
    (hcreated : s.Created) :
    s'.Numbered :=
  (hrun.invariant (fun s e s' (h : s.Numbered) hstep => by rw [hstep]; exact h.next host e)
    hcreated.numbered).2

/-- The publications of a run are those that were processed. -/
theorem runs_published
    (hrun : Runs (ArrivalStep host) s tr s') :
    s'.arrivals.map (·.content) =
      s.arrivals.map (·.content) ++ tr.flatMap (fun x => x.event.published) := by
  induction hrun with
  | nil s =>
      simp
  | @cons s u s' e tr hstep _ ih =>
      obtain rfl : u = s.next host e := hstep
      have hcontent : (e.published.map fun content =>
          (⟨s.arrivals.length, content.1, content.2⟩ : Arrival)).map (·.content) = e.published := by
        rw [List.map_map]
        exact List.map_id _
      rw [ih, ArrivalState.next_arrivals, List.map_append, hcontent, List.flatMap_cons,
        List.append_assoc]

/--
The publications that the callback has accepted, and then those in the queue, are all
that were processed, in their order.  Each call is for the first publication that was
not accepted before; the same is passed again exactly if it was rejected and there is
another call.  What was rejected last is passed in the next round of the thread.
-/
theorem accepted_in_order
    (hrun : Runs (ArrivalStep host) s tr s')
    (hcreated : s.Created) :
    s'.arrivals.map (·.content) =
        s.arrivals.map (·.content) ++ tr.flatMap (fun x => x.event.published) ∧
      acceptedArrivals s'.calls ++ s'.messageQueue.map (·.arrival) = s'.arrivals ∧
      (∀ (before : List MessageArrivedCall) (call : MessageArrivedCall)
          (after : List MessageArrivedCall), s'.calls = before ++ call :: after →
        acceptedArrivals before ++ [call.arrival] <+: s'.arrivals ∧
          ((∃ later ∈ after, later.arrival = call.arrival) ↔ call.rc = 0 ∧ after ≠ []) ∧
          ∀ later rest, after = later :: rest → (later.arrival = call.arrival ↔ call.rc = 0)) ∧
      ∀ (before : List MessageArrivedCall) (call : MessageArrivedCall),
        s'.calls = before ++ [call] → call.rc = 0 → s'.ma →
        ∀ rc answer, rc ≠ SOCKET_ERROR →
          ∃ again, (s'.receiveThread rc answer).calls = s'.calls ++ [again] ∧
            again.arrival = call.arrival := by
  have hnumbered := runs_numbered hrun hcreated
  have horder := hnumbered.inOrder
  have hoffers : ∀ {before call after}, s'.calls = before ++ call :: after →
      s'.line.offers = before.map (·.offer) ++ call.offer :: after.map (·.offer) := by
    intro before call after hcalls
    rw [ArrivalState.line, hcalls, List.map_append, List.map_cons]
  have hrejected : ∀ {call : MessageArrivedCall}, call.offer.accepted = false ↔ call.rc = 0 := by
    intro call
    simp [MessageArrivedCall.offer]
  refine ⟨runs_published hrun, ?_, ?_, ?_⟩
  · rw [← accepted_offers]
    exact horder.accounted
  · intro before call after hcalls
    have hfirst := horder.first _ _ _ (hoffers hcalls)
    rw [accepted_offers] at hfirst
    have hagain := horder.again_iff hnumbered.nodup (hoffers hcalls)
    refine ⟨hfirst, ?_, ?_⟩
    · rw [hrejected] at hagain
      simpa [MessageArrivedCall.offer] using hagain
    · rintro later rest rfl
      constructor
      · intro hsame
        have := hagain.mp ⟨later.offer, List.mem_cons_self, hsame⟩
        exact hrejected.mp this.1
      · intro hrc
        exact horder.again (hoffers hcalls) (hrejected.mpr hrc)
  · intro before call hcalls hrc hma rc answer hsocket
    have hwaits := horder.waits (hoffers hcalls) (hrejected.mpr hrc)
    cases hqueue : s'.messageQueue with
    | nil =>
        simp [ArrivalState.line, hqueue] at hwaits
    | cons entry messageQueue =>
        have hentry : entry.arrival = call.arrival := by
          simpa [ArrivalState.line, hqueue, MessageArrivedCall.offer] using hwaits
        exact ⟨_, ArrivalState.receiveThread_offers hqueue hma hsocket answer, hentry⟩

end Runs

/-- A client that is connected and has persistence. -/
def connectedClient : ArrivalState :=
  { client := ⟨4, 0, 0, Lib.ExactMap.empty⟩, connected := true, persistence := true
    found := true, ma := true, messageQueue := [], arrivals := [], calls := [] }

/-- A publication of QoS 0 with the topic `a`. -/
def publicationOf (payload : Bytes) : Publish :=
  { header := ⟨.publish, false, 0, false⟩, topic := [97], topiclen := 1, msgId := 0, payload
    MQTTVersion := 4, properties := MQTTProperties.initializer, mask := ⟨0, 0, 0, 0⟩ }

/-- The first of two publications is rejected twice before it is accepted. -/
def rejectedTwice : List ArrivalEvent :=
  [.processPublication (publicationOf [1]) 0, .receiveThread 0 0,
    .processPublication (publicationOf [2]) 1, .setConnected false, .receiveThread 0 1]

theorem accepted_in_order_rejected :
    ∃ s' : ArrivalState, s'.arrivals.length = 2 ∧ s'.calls.map (·.rc) = [0, 0, 1] ∧
      acceptedArrivals s'.calls ++ s'.messageQueue.map (·.arrival) = s'.arrivals := by
  have hrun : Lib.Runs (ArrivalStep .littleEndian) connectedClient
      (Lib.trace (ArrivalState.next .littleEndian) connectedClient rejectedTwice)
      (rejectedTwice.foldl (ArrivalState.next .littleEndian) connectedClient) :=
    Lib.Runs.of_trace connectedClient rejectedTwice (fun x hx => Lib.post_of_mem_trace hx)
  have hinOrder := accepted_in_order hrun ⟨rfl, rfl, rfl⟩
  exact ⟨_, rfl, rfl, hinOrder.2.1⟩

end MQTTAsync
end PahoMqtt
