import PahoMqtt.MessageArrived
import PahoMqtt.PublishParsing

/-!
# The length of a topic that is passed on

What `messageArrived` is called with for a publication, by
`Protocol_processPublication` and by `MQTTAsync_receiveThread`.  The length of the
topic is documented to be 0 unless a NUL is inside the topic.
-/

namespace PahoMqtt

/-- A NUL ends the string before the buffer ends. -/
theorem strlen_lt_length
    {s : Bytes}
    (hnul : (0 : UInt8) ∈ s) :
    strlen s < s.length := by
  induction s with
  | nil =>
      cases hnul
  | cons b s ih =>
      by_cases hb : b = 0
      · simp [strlen, hb]
      · have htail : (0 : UInt8) ∈ s := by
          rcases List.mem_cons.mp hnul with h | h
          · exact absurd h.symm hb
          · exact h
        simpa [strlen, hb] using ih htail

namespace MQTTAsync

open MQTTPersistence

/-- `topicLen` as it is documented for `MQTTAsync_messageArrived`. -/
def documentedTopicLen (topicName : Bytes) : Int32 :=
  if 0 ∈ topicName then Int32.ofNat topicName.length else 0

/-- The topic, and its length, of a packet; a publication of QoS 2 is made from a stored one. -/
def TopicRead (publish : Publish) : Prop :=
  ∃ (MQTTVersion : Nat) (aHeader : UInt8) (data : Bytes) (pack : Publish),
    MQTTPacket.publish MQTTVersion aHeader data = .ok pack ∧
      publish.topic = pack.topic ∧ publish.topiclen = pack.topiclen

/-- A step of a client whose publications have been received. -/
def ReceivingStep (host : HostInt) (s : ArrivalState) (e : ArrivalEvent) (s' : ArrivalState) :
    Prop :=
  ArrivalStep host s e s' ∧
    ∀ publish answer, e = .processPublication publish answer → TopicRead publish

/-- Nothing keeps `Protocol_processPublication` from calling `messageArrived`. -/
def ArrivalState.OffersDirectly (s : ArrivalState) : Prop :=
  s.messageQueue = [] ∧ s.connected ∧ s.found ∧ s.ma

/-- The publications that were processed in a run. -/
def processed (tr : List (Lib.Transition ArrivalState ArrivalEvent)) : List Publish :=
  tr.filterMap fun x =>
    match x.event with
    | .processPublication publish _ => some publish
    | _ => none

/-- The arguments of a call are those that are documented for the publication. -/
structure MessageArrivedCall.Presents (call : MessageArrivedCall) (publish : Publish) : Prop where
  topicName : call.topicName = publish.topic
  topicLen : call.topicLen = documentedTopicLen publish.topic
  msg : call.msg = publicationMessage publish

/-! ### The length of a topic that was read -/

/-- Two bytes hold the length of a string. -/
theorem readUTFlen_length
    {buf topic : Bytes} {pos pos' : Nat}
    (h : MQTTPacket.readUTFlen buf pos = .ok (topic, pos')) :
    topic.length < 65536 := by
  rw [MQTTPacket.readUTFlen] at h
  rcases MQTTProperties.lenStringRead_cases buf pos with ⟨str, rest, _, hstr, hread⟩ | ⟨_, hread⟩
  · rw [hread] at h
    obtain ⟨hi, lo, data, rfl, hlen⟩ := hstr
    cases h
    have hhi := hi.toNat_lt
    have hlo := lo.toNat_lt
    simp only [List.drop_succ_cons, List.drop_zero]
    omega
  · rw [hread] at h
    cases h

theorem publish_topiclen
    {MQTTVersion : Nat} {aHeader : UInt8} {data : Bytes} {pack : Publish}
    (h : MQTTPacket.publish MQTTVersion aHeader data = .ok pack) :
    pack.topiclen = pack.topic.length ∧ pack.topic.length < 65536 := by
  unfold MQTTPacket.publish at h
  dsimp only at h
  cases htopic : MQTTPacket.readUTFlen data 0 with
  | error e =>
      rw [htopic] at h
      cases h
  | ok res =>
      have hlen := readUTFlen_length htopic
      rw [htopic] at h
      dsimp only at h
      -- what is read behind the topic does not change it
      split at h
      · cases h
      · split at h
        · cases h
        · cases h
          exact ⟨rfl, hlen⟩

theorem TopicRead.topiclen
    {publish : Publish}
    (h : TopicRead publish) :
    publish.topiclen = publish.topic.length ∧ publish.topic.length < 65536 := by
  obtain ⟨MQTTVersion, aHeader, data, pack, hread, htopic, hlen⟩ := h
  rw [htopic, hlen]
  exact publish_topiclen hread

/-- What is queued of a publication that was read, where its payload has a length. -/
theorem TopicRead.received
    {publish : Publish}
    (h : TopicRead publish)
    (hpayload : publish.payload.length < 2 ^ 31)
    (hsurvives : publish.MQTTVersion ≥ 5 →
      MQTTProperties.Survives (MQTTProperties.copy publish.properties)) (seqno : Nat) :
    QEntry.Received publish.MQTTVersion
      ⟨publicationMessage publish, publish.topic, Int32.ofNat publish.topiclen, seqno⟩ := by
  obtain ⟨htopiclen, hbound⟩ := h.topiclen
  have hint : (Int32.ofNat publish.payload.length).toInt = publish.payload.length :=
    Int32.toInt_ofNat_of_lt hpayload
  refine ⟨rfl, ?_, ?_, by rw [htopiclen], hbound, fun hversion => ?_, fun hversion => ?_⟩
  · show publish.payload.length = (Int32.ofNat publish.payload.length).toNatClampNeg
    rw [← Int32.toNat_toInt, hint, Int.toNat_natCast]
  · show ¬Int32.ofNat publish.payload.length < 0
    rw [Int32.lt_iff_toInt_lt, hint]
    exact Int.not_lt.mpr (Int.natCast_nonneg _)
  · simpa only [publicationMessage, if_pos hversion] using hsurvives hversion
  · simp only [publicationMessage, if_neg (Nat.not_le.mpr hversion)]

theorem ofNat_eq_zero_iff
    {topic : Bytes}
    (hlen : topic.length < 65536) :
    Int32.ofNat topic.length = 0 ↔ topic = [] := by
  constructor
  · intro h
    have hint := congrArg Int32.toInt h
    rw [Int32.toInt_ofNat_of_lt (by omega)] at hint
    exact List.eq_nil_of_length_eq_zero (by simpa using hint)
  · rintro rfl
    rfl

/-- The length itself is what is documented only where no other value could be. -/
theorem ofNat_eq_documented_iff
    {topic : Bytes}
    (hlen : topic.length < 65536) :
    Int32.ofNat topic.length = documentedTopicLen topic ↔ 0 ∈ topic ∨ topic = [] := by
  rw [documentedTopicLen]
  split_ifs with hnul
  · simp [hnul]
  · rw [ofNat_eq_zero_iff hlen]
    simp [hnul]

/-- The receiving thread passes on the documented length. -/
theorem offeredTopicLen_documented
    {qe : QEntry}
    (hlen : qe.topicName.length < 65536)
    (htopicLen : qe.topicLen = Int32.ofNat qe.topicName.length) :
    ArrivalState.offeredTopicLen qe = documentedTopicLen qe.topicName := by
  have hint : qe.topicLen.toInt = qe.topicName.length := by
    rw [htopicLen, Int32.toInt_ofNat_of_lt (by omega)]
  rw [ArrivalState.offeredTopicLen, documentedTopicLen, hint]
  by_cases hnul : 0 ∈ qe.topicName
  · have hlt := strlen_lt_length hnul
    rw [if_neg (by omega), if_pos hnul, htopicLen]
  · rw [if_pos (by rw [strlen_eq_length hnul]), if_neg hnul]

/-! ### What a step adds to the queue and to the calls -/

/-- What waits has the length of its topic, as it was read. -/
structure QueuedArrival.Measured (entry : QueuedArrival) : Prop where
  bound : entry.qe.entry.topicName.length < 65536
  topicLen : entry.qe.entry.topicLen = Int32.ofNat entry.qe.entry.topicName.length

def MessageArrivedCall.Documented (call : MessageArrivedCall) : Prop :=
  call.topicLen = documentedTopicLen call.topicName

/-- What has been received since there were `base` publications waits as it was read. -/
structure Kept (base : Nat) (s : ArrivalState) : Prop where
  base_le : base ≤ s.arrivals.length
  queue : ∀ entry ∈ s.messageQueue, base ≤ entry.number → entry.Measured

/-- The calls for what has been received since then. -/
def CallsDocumented (base : Nat) (s : ArrivalState) : Prop :=
  ∀ call ∈ s.calls, base ≤ call.number → call.Documented

/-- A topic without a NUL is not passed on directly. -/
def QueuedUnlessNul (s : ArrivalState) (e : ArrivalEvent) : Prop :=
  ∀ publish answer, e = .processPublication publish answer → s.OffersDirectly →
    0 ∈ publish.topic ∨ publish.topic = []

theorem persistQueueEntry_topicLen
    (host : HostInt) (client : QueueClient) (qe : QEntry) :
    (persistQueueEntry host client qe).2.entry.topicLen = qe.topicLen := by
  rw [persistQueueEntry]
  split
  · rfl
  · rfl

namespace ArrivalState

theorem queueUp_calls
    (host : HostInt) (s : ArrivalState) (number : Nat) (qe : QEntry) :
    (s.queueUp host number qe).calls = s.calls := by
  rw [queueUp]
  split_ifs
  · rfl
  · rfl

theorem queueUp_messageQueue
    (host : HostInt) (s : ArrivalState) (number : Nat) (qe : QEntry) :
    ∃ entry : QueuedArrival, (s.queueUp host number qe).messageQueue = s.messageQueue ++ [entry] ∧
      entry.qe.entry.topicName = qe.topicName ∧ entry.qe.entry.topicLen = qe.topicLen := by
  rw [queueUp]
  split_ifs
  · exact ⟨_, rfl, (persistQueueEntry_entry host s.client qe).1,
      persistQueueEntry_topicLen host s.client qe⟩
  · exact ⟨_, rfl, rfl, rfl⟩

/-- A direct call has the length that was read, and it is the only call. -/
theorem processPublication_calls
    (host : HostInt) (s : ArrivalState) (publish : Publish) (answer : Int) :
    (s.OffersDirectly ∧ (s.processPublication host publish answer).calls =
        s.calls ++ [⟨s.arrivals.length, publish.topic, Int32.ofNat publish.topiclen,
          publicationMessage publish, answer⟩]) ∨
      (¬ s.OffersDirectly ∧ (s.processPublication host publish answer).calls = s.calls) := by
  rw [processPublication]
  by_cases hdirect : s.messageQueue = [] ∧ s.connected ∧ s.found ∧ s.ma
  · refine .inl ⟨hdirect, ?_⟩
    rw [if_pos hdirect]
    dsimp only
    split_ifs
    · rw [queueUp_calls]
      rfl
    · rfl
  · refine .inr ⟨hdirect, ?_⟩
    rw [if_neg hdirect, queueUp_calls]

theorem processPublication_messageQueue
    (host : HostInt) (s : ArrivalState) (publish : Publish) (answer : Int) :
    (s.processPublication host publish answer).messageQueue = s.messageQueue ∨
      ∃ entry : QueuedArrival,
        (s.processPublication host publish answer).messageQueue = s.messageQueue ++ [entry] ∧
          entry.qe.entry.topicName = publish.topic ∧
          entry.qe.entry.topicLen = Int32.ofNat publish.topiclen := by
  rw [processPublication]
  split_ifs
  · exact .inr (queueUp_messageQueue host _ _ _)
  · exact .inl rfl
  · exact .inr (queueUp_messageQueue host _ _ _)

/-- The receiving thread offers the first entry of the queue, or it calls nothing. -/
theorem receiveThread_calls
    (s : ArrivalState) (rc answer : Int) :
    (s.receiveThread rc answer).calls = s.calls ∨
      ∃ entry ∈ s.messageQueue, (s.receiveThread rc answer).calls =
        s.calls ++ [⟨entry.number, entry.qe.entry.topicName, offeredTopicLen entry.qe.entry,
          entry.qe.entry.msg, answer⟩] := by
  by_cases hrc : rc = SOCKET_ERROR
  · rw [receiveThread, if_pos hrc]
    exact .inl rfl
  · cases hqueue : s.messageQueue with
    | nil =>
        rw [receiveThread, if_neg hrc, hqueue]
        exact .inl rfl
    | cons entry messageQueue =>
        cases hma : s.ma with
        | false =>
            rw [receiveThread, if_neg hrc, hqueue]
            simp [hma]
        | true =>
            exact .inr ⟨entry, List.mem_cons_self, receiveThread_offers hqueue hma hrc answer⟩

theorem receiveThread_messageQueue
    (s : ArrivalState) (rc answer : Int) :
    ∀ entry ∈ (s.receiveThread rc answer).messageQueue, entry ∈ s.messageQueue := by
  intro entry hentry
  by_cases hrc : rc = SOCKET_ERROR
  · rwa [receiveThread, if_pos hrc] at hentry
  · rw [receiveThread, if_neg hrc] at hentry
    cases hqueue : s.messageQueue with
    | nil =>
        rw [hqueue] at hentry
        rwa [← hqueue]
    | cons first rest =>
        rw [hqueue] at hentry
        dsimp only at hentry
        split_ifs at hentry
        · simpa [deliverMessage, hqueue] using hentry
        · exact List.mem_cons_of_mem _ hentry
        · exact List.mem_cons_of_mem _ hentry
        · rwa [← hqueue]

/-- No call is forgotten. -/
theorem next_calls
    (host : HostInt) (s : ArrivalState) (e : ArrivalEvent) :
    s.calls <+: (s.next host e).calls := by
  cases e with
  | processPublication publish answer =>
      rcases processPublication_calls host s publish answer with ⟨_, hcalls⟩ | ⟨_, hcalls⟩
      · rw [next, hcalls]
        exact List.prefix_append _ _
      · rw [next, hcalls]
  | receiveThread rc answer =>
      rcases receiveThread_calls s rc answer with hcalls | ⟨entry, _, hcalls⟩
      · rw [next, hcalls]
      · rw [next, hcalls]
        exact List.prefix_append _ _
  | setConnected connected =>
      exact List.prefix_rfl
  | setClient client =>
      exact List.prefix_rfl

end ArrivalState

/-- Every step keeps what waits as it was read. -/
theorem Kept.next
    {base : Nat} {host : HostInt} {s s' : ArrivalState} {e : ArrivalEvent}
    (h : Kept base s)
    (hstep : ReceivingStep host s e s') :
    Kept base s' := by
  obtain ⟨rfl, hread⟩ := hstep
  constructor
  · rw [ArrivalState.next_arrivals, List.length_append]
    have := h.base_le
    omega
  · cases e with
    | processPublication publish answer =>
        obtain ⟨hlen, hbound⟩ := (hread publish answer rfl).topiclen
        rcases s.processPublication_messageQueue host publish answer with
          hqueue | ⟨new, hqueue, htopic, htopicLen⟩
        · rw [ArrivalState.next, hqueue]
          exact h.queue
        · rw [ArrivalState.next, hqueue]
          intro entry hentry hnumber
          rcases List.mem_append.mp hentry with hold | hnew
          · exact h.queue entry hold hnumber
          · obtain rfl := List.mem_singleton.mp hnew
            exact ⟨by rw [htopic]; exact hbound, by rw [htopicLen, htopic, hlen]⟩
    | receiveThread rc answer =>
        intro entry hentry hnumber
        exact h.queue entry (s.receiveThread_messageQueue rc answer entry hentry) hnumber
    | setConnected connected =>
        exact h.queue
    | setClient client =>
        exact h.queue

theorem calls_append_documented
    {base : Nat} {s s' : ArrivalState} {call : MessageArrivedCall}
    (h : CallsDocumented base s)
    (hcalls : s'.calls = s.calls ++ [call])
    (hcall : base ≤ call.number → call.Documented) :
    CallsDocumented base s' := by
  intro call' hmem hnumber
  rw [hcalls] at hmem
  rcases List.mem_append.mp hmem with hold | hnew
  · exact h call' hold hnumber
  · obtain rfl := List.mem_singleton.mp hnew
    exact hcall hnumber

/-- A step that passes on no topic without a NUL directly makes no other calls than documented. -/
theorem CallsDocumented.next
    {base : Nat} {host : HostInt} {s s' : ArrivalState} {e : ArrivalEvent}
    (h : CallsDocumented base s)
    (hkept : Kept base s)
    (hqueued : QueuedUnlessNul s e)
    (hstep : ReceivingStep host s e s') :
    CallsDocumented base s' := by
  obtain ⟨rfl, hread⟩ := hstep
  cases e with
  | processPublication publish answer =>
      obtain ⟨hlen, hbound⟩ := (hread publish answer rfl).topiclen
      rcases s.processPublication_calls host publish answer with ⟨hdirect, hcalls⟩ | ⟨_, hcalls⟩
      · refine calls_append_documented h hcalls fun _ => ?_
        rw [MessageArrivedCall.Documented, hlen]
        exact (ofNat_eq_documented_iff hbound).mpr (hqueued publish answer rfl hdirect)
      · intro call hcall
        exact h call (by rwa [ArrivalState.next, hcalls] at hcall)
  | receiveThread rc answer =>
      rcases s.receiveThread_calls rc answer with hcalls | ⟨entry, hentry, hcalls⟩
      · intro call hcall
        exact h call (by rwa [ArrivalState.next, hcalls] at hcall)
      · refine calls_append_documented h hcalls fun hnumber => ?_
        have hmeasured := hkept.queue entry hentry hnumber
        exact offeredTopicLen_documented hmeasured.bound hmeasured.topicLen
  | setConnected connected =>
      exact h
  | setClient client =>
      exact h

/-- A topic without a NUL that is passed on directly has another length than documented. -/
theorem not_callsDocumented
    {base : Nat} {host : HostInt} {s s' : ArrivalState} {e : ArrivalEvent}
    (hkept : Kept base s)
    (hdirect : ¬ QueuedUnlessNul s e)
    (hstep : ReceivingStep host s e s') :
    ¬ CallsDocumented base s' := by
  obtain ⟨rfl, hread⟩ := hstep
  simp only [QueuedUnlessNul, not_forall] at hdirect
  obtain ⟨publish, answer, rfl, hoffers, htopic⟩ := hdirect
  obtain ⟨hlen, hbound⟩ := (hread publish answer rfl).topiclen
  rcases s.processPublication_calls host publish answer with ⟨_, hcalls⟩ | ⟨hqueued, _⟩
  · intro hdocumented
    have hcall := hdocumented _ (by
      rw [ArrivalState.next, hcalls]
      exact List.mem_append_right _ List.mem_cons_self) hkept.base_le
    rw [MessageArrivedCall.Documented, hlen] at hcall
    exact htopic ((ofNat_eq_documented_iff hbound).mp hcall)
  · exact absurd hoffers hqueued

/-! ### Runs -/

section Runs

open Lib

variable {host : HostInt} {s s' : ArrivalState} {tr : List (Transition ArrivalState ArrivalEvent)}

theorem runs_arrivalStep
    (hrun : Runs (ReceivingStep host) s tr s') :
    Runs (ArrivalStep host) s tr s' := by
  induction hrun with
  | nil s =>
      exact .nil s
  | cons hstep _ ih =>
      exact .cons hstep.1 ih

theorem runs_calls
    (hrun : Runs (ReceivingStep host) s tr s') :
    (∀ x ∈ tr, x.post.calls <+: s'.calls) ∧ s.calls <+: s'.calls := by
  induction hrun with
  | nil s =>
      refine ⟨?_, List.prefix_rfl⟩
      intro x hx
      cases hx
  | @cons s u s' e tr hstep _ ih =>
      obtain rfl : u = s.next host e := hstep.1
      refine ⟨?_, (s.next_calls host e).trans ih.2⟩
      intro x hx
      rcases List.mem_cons.mp hx with rfl | hx
      · exact ih.2
      · exact ih.1 x hx

theorem published_processed
    (tr : List (Transition ArrivalState ArrivalEvent)) :
    tr.flatMap (fun x => x.event.published) =
      (processed tr).map (fun publish => (publish.topic, publicationMessage publish)) := by
  induction tr with
  | nil =>
      rfl
  | cons x tr ih =>
      obtain ⟨pre, event, post⟩ := x
      rw [List.flatMap_cons, ih]
      cases event with
      | processPublication publish answer =>
          rfl
      | _ =>
          rfl

/-- The number of a call says which publication it is made for. -/
theorem call_publication
    (hrun : Runs (ReceivingStep host) s tr s')
    (hcreated : s.Created)
    {call : MessageArrivedCall}
    (hcall : call ∈ s'.calls)
    (hnumber : s.arrivals.length ≤ call.number) :
    ∃ publish, (processed tr)[call.number - s.arrivals.length]? = some publish ∧
      call.topicName = publish.topic ∧ call.msg = publicationMessage publish := by
  have hnumbered := runs_numbered (runs_arrivalStep hrun) hcreated
  obtain ⟨before, after, hsplit⟩ := List.append_of_mem hcall
  have hfirst := hnumbered.inOrder.first (before.map (·.offer)) call.offer (after.map (·.offer))
    (by rw [ArrivalState.line, hsplit, List.map_append, List.map_cons])
  have hmem : call.arrival ∈ s'.arrivals :=
    hfirst.subset (List.mem_append_right _ (List.mem_singleton_self _))
  obtain ⟨i, hi, hget⟩ := List.mem_iff_getElem.mp hmem
  -- the publications stand at their numbers
  have hindex : call.number = i := by
    have hnumbers := congrArg (fun l : List Nat => l[i]?) hnumbered.numbers
    simp only [List.getElem?_map, List.getElem?_eq_getElem hi, hget, Option.map_some,
      List.getElem?_range hi, Option.some.injEq] at hnumbers
    exact hnumbers
  have hcontents := runs_published (runs_arrivalStep hrun)
  rw [published_processed] at hcontents
  have hcontent := congrArg (fun l : List (Bytes × QueuedMessage) => l[i]?) hcontents
  rw [List.getElem?_append_right (by rw [List.length_map]; omega)] at hcontent
  simp only [List.getElem?_map, List.getElem?_eq_getElem hi, hget, Option.map_some,
    List.length_map] at hcontent
  obtain ⟨publish, hpublish, hpair⟩ := Option.map_eq_some_iff.mp hcontent.symm
  obtain ⟨htopic, hmsg⟩ := Prod.mk.inj hpair
  exact ⟨publish, by rw [hindex]; exact hpublish, htopic.symm, hmsg.symm⟩

/-- A client has nothing of what it will receive. -/
theorem created_kept
    (hcreated : s.Created) :
    Kept s.arrivals.length s := by
  refine ⟨le_rfl, ?_⟩
  intro entry hentry hnumber
  have hmem : entry.arrival ∈ s.arrivals := by
    rw [hcreated.arrivals]
    exact List.mem_map_of_mem hentry
  have hrange := List.mem_map_of_mem (f := (·.number)) hmem
  rw [hcreated.numbers, List.mem_range] at hrange
  exact absurd hnumber (not_le.mpr hrange)

/-- All calls of a run are as documented if and only if each direct call may be. -/
theorem callsDocumented_iff
    (hrun : Runs (ReceivingStep host) s tr s')
    (hcreated : s.Created) :
    CallsDocumented s.arrivals.length s' ↔ ∀ x ∈ tr, QueuedUnlessNul x.pre x.event := by
  have hkept := hrun.invariant (fun s e s' (h : Kept _ s) hstep => h.next hstep)
    (created_kept hcreated)
  have hstart : CallsDocumented s.arrivals.length s := by
    intro call hcall
    rw [hcreated.calls] at hcall
    cases hcall
  have hiff := Runs.invariant_iff
    (I := fun s' => Kept s.arrivals.length s' ∧ CallsDocumented s.arrivals.length s')
    (C := QueuedUnlessNul)
    (fun s e t hI hC hstep => ⟨hI.1.next hstep, hI.2.next hI.1 hC hstep⟩)
    (fun s e t hI hC hstep hI' => not_callsDocumented hI.1 hC hstep hI'.2)
    hrun ⟨created_kept hcreated, hstart⟩
  constructor
  · intro hend
    refine hiff.mp ?_
    intro x hx
    refine ⟨(hkept.1 x hx).2, ?_⟩
    intro call hcall
    exact hend call (((runs_calls hrun).1 x hx).subset hcall)
  · intro hqueued
    exact (hrun.invariant_of
      (I := fun s' => Kept s.arrivals.length s' ∧ CallsDocumented s.arrivals.length s')
      (C := QueuedUnlessNul)
      (fun s e t hI hC hstep => ⟨hI.1.next hstep, hI.2.next hI.1 hC hstep⟩)
      ⟨created_kept hcreated, hstart⟩ hqueued).2.2

/--
Each publication that a client processes is passed on with its topic, its message and
the documented length, directly and from the queue alike, if and only if none is
passed on directly whose topic is not empty and has no NUL.
-/
theorem presented_iff
    (hrun : Runs (ReceivingStep host) s tr s')
    (hcreated : s.Created) :
    (∀ i publish, (processed tr)[i]? = some publish →
      ∀ call ∈ s'.calls, call.number = s.arrivals.length + i → call.Presents publish) ↔
      ∀ x ∈ tr, ∀ publish answer, x.event = .processPublication publish answer →
        x.pre.OffersDirectly → 0 ∈ publish.topic ∨ publish.topic = [] := by
  refine Iff.trans ?_ (callsDocumented_iff hrun hcreated)
  constructor
  · intro hpresents call hcall hnumber
    obtain ⟨publish, hpublish, htopic, _⟩ := call_publication hrun hcreated hcall hnumber
    have hcall := hpresents _ publish hpublish call hcall (by omega)
    rw [MessageArrivedCall.Documented, htopic]
    exact hcall.topicLen
  · intro hdocumented i publish hpublish call hcall hnumber
    obtain ⟨publish', hpublish', htopic, hmsg⟩ :=
      call_publication hrun hcreated hcall (by omega)
    obtain rfl : publish = publish' := by
      rw [hnumber, Nat.add_sub_cancel_left, hpublish] at hpublish'
      exact Option.some.inj hpublish'
    exact ⟨htopic, by rw [← htopic]; exact hdocumented call hcall (by omega), hmsg⟩

end Runs

theorem publicationOf_read
    (payload : Bytes) :
    TopicRead (publicationOf payload) :=
  ⟨4, 48, [0, 1, 97], { publicationOf [] with payload := [] }, by decide, rfl, rfl⟩

/-- The topic `a` waits for a connection, and what has arrived twice is offered twice. -/
def waitingFirst : List ArrivalEvent :=
  [.setConnected false, .processPublication (publicationOf [1]) 1, .setConnected true,
    .receiveThread 0 0, .receiveThread 0 1]

theorem receivingStep_of_trace
    {s : ArrivalState} {es : List ArrivalEvent}
    (hread : ∀ publish answer, .processPublication publish answer ∈ es → TopicRead publish) :
    Lib.Runs (ReceivingStep .littleEndian) s (Lib.trace (ArrivalState.next .littleEndian) s es)
      (es.foldl (ArrivalState.next .littleEndian) s) := by
  refine Lib.Runs.of_trace s es ?_
  intro x hx
  refine ⟨Lib.post_of_mem_trace hx, ?_⟩
  intro publish answer hevent
  exact hread publish answer (hevent ▸ Lib.event_of_mem_trace hx)

theorem presented_iff_waiting :
    ∃ call ∈ (waitingFirst.foldl (ArrivalState.next .littleEndian) connectedClient).calls,
      call.number = 0 ∧ call.Presents (publicationOf [1]) := by
  have hrun : Lib.Runs (ReceivingStep .littleEndian) connectedClient
      (Lib.trace (ArrivalState.next .littleEndian) connectedClient waitingFirst)
      (waitingFirst.foldl (ArrivalState.next .littleEndian) connectedClient) := by
    refine receivingStep_of_trace ?_
    intro publish answer hmem
    simp only [waitingFirst, List.mem_cons, List.not_mem_nil, or_false, reduceCtorEq, false_or,
      ArrivalEvent.processPublication.injEq] at hmem
    rw [hmem.1]
    exact publicationOf_read [1]
  refine ⟨_, List.mem_cons_self, rfl, (presented_iff hrun ⟨rfl, rfl, rfl⟩).mpr ?_ 0
    (publicationOf [1]) rfl _ List.mem_cons_self rfl⟩
  intro x hx publish answer hevent hdirect
  simp only [waitingFirst, Lib.trace, List.mem_cons, List.not_mem_nil, or_false] at hx
  rcases hx with rfl | rfl | rfl | rfl | rfl
  · cases hevent
  · exact absurd hdirect.2.1 (by decide)
  · cases hevent
  · cases hevent
  · cases hevent

/-- The topic `a` is passed on with the length 1 and then, when it was rejected, with 0. -/
theorem rejected_not_presented :
    ∃ s' : ArrivalState,
      Lib.Runs (ReceivingStep .littleEndian) connectedClient
        (Lib.trace (ArrivalState.next .littleEndian) connectedClient rejectedTwice) s' ∧
      connectedClient.Created ∧
      s'.calls.map (fun call => (call.number, call.topicName, call.topicLen)) =
        [(0, [97], 1), (0, [97], 0), (0, [97], 0)] ∧
      documentedTopicLen [97] = 0 ∧
      ¬ ∀ i publish, (processed (Lib.trace (ArrivalState.next .littleEndian) connectedClient
          rejectedTwice))[i]? = some publish →
        ∀ call ∈ s'.calls, call.number = connectedClient.arrivals.length + i →
          call.Presents publish := by
  refine ⟨rejectedTwice.foldl (ArrivalState.next .littleEndian) connectedClient, ?_,
    ⟨rfl, rfl, rfl⟩, rfl, rfl, ?_⟩
  · refine receivingStep_of_trace ?_
    intro publish answer hmem
    simp only [rejectedTwice, List.mem_cons, List.not_mem_nil, or_false, reduceCtorEq, false_or,
      ArrivalEvent.processPublication.injEq] at hmem
    rcases hmem with ⟨rfl, _⟩ | ⟨rfl, _⟩
    · exact publicationOf_read [1]
    · exact publicationOf_read [2]
  · intro hpresents
    have hfirst := (hpresents 0 (publicationOf [1]) rfl _ List.mem_cons_self rfl).topicLen
    exact absurd hfirst (by decide)

end MQTTAsync
end PahoMqtt
