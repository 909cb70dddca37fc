import PahoMqtt.SequenceNumbers
import PahoMqtt.SyncExactlyOnce

/-!
# Restarts of the synchronous client

A client with a store may stop between any two steps, also while `messageArrived`
is being called, and another one is created over the store that it leaves.  As
long as no message is persisted while one from before a wrap of the sequence
numbers waits, the new client finds the messages that wait, in their order: what
is handed over in turn within one client is handed over in turn across all of
them, and a message whose callback had not returned is offered again.
-/

namespace PahoMqtt
namespace MQTTClient

open MQTTProtocol MQTTPersistence
open MQTTAsync (Arrival QueuedArrival publicationMessage)

/-! ### A packet passes on at most one publication -/

theorem deliveries_handlePublishes
    (env : Env) (c : Clients) (publish : Publish) :
    (deliveries (handlePublishes env c.start publish).2.net).length ≤ 1 := by
  have hsend := deliveries_send_ack env c.start.net publish.MQTTVersion
  simp only [deliveries_start] at hsend
  unfold handlePublishes
  split
  · simp [processPublication, deliveries_emit]
  · split
    · simp
    · split
      · simp [processPublication, deliveries_emit, MQTTPacket.send_puback, hsend]
      · split
        · dsimp only
          split
          · simp [MQTTPacket.send_pubrec, hsend]
          · split
            · simp [processPublication, deliveries_emit, MQTTPacket.send_pubrec, hsend]
            · simp [MQTTPacket.send_pubrec, hsend]
        · simp

theorem deliveries_handlePubrels
    (env : Env) (c : Clients) (pubrel : Ack) :
    (deliveries (handlePubrels env c.start pubrel).2.net).length ≤ 1 := by
  have hsend := deliveries_send_ack env c.start.net pubrel.MQTTVersion
  simp only [deliveries_start] at hsend
  unfold handlePubrels
  split
  · split
    · simp
    · split
      · simp
      · simp [MQTTPacket.send_pubcomp, hsend]
  · split
    · simp
    · split
      · simp
      · split
        · simp
        · dsimp only
          rw [deliveries_remove]
          split
          · simp [MQTTPacket.send_pubcomp, hsend]
          · simp [processPublication, deliveries_emit, MQTTPacket.send_pubcomp, hsend]

theorem deliveries_handle
    (env : Env) (c : Clients) (pack : Packet) :
    (deliveries (c.start.handle env pack).2.net).length ≤ 1 := by
  cases pack with
  | publish publish => exact deliveries_handlePublishes env c publish
  | ack pack =>
      simp only [Clients.handle]
      split
      · unfold handlePubacks
        split
        · simp
        · split
          · simp
          · simp [deliveries_remove]
      · unfold handlePubrecs
        split
        · simp
        · split
          · simp
          · split
            · simp
            · split
              · simp [deliveries_remove]
              · simp [MQTTPacket.send_pubrel, deliveries_send_ack]
      · exact deliveries_handlePubrels env c pack
      · unfold handlePubcomps
        split
        · simp
        · split
          · simp
          · split
            · simp
            · simp [deliveries_remove]
      · simp

/-- A call passes on at most one publication. -/
theorem deliveries_outcome_length
    (env : Env) (char : CharType) (m : MQTTClients) (e : SyncEvent) :
    (deliveries (m.outcome env char e).2.c.net).length ≤ 1 := by
  obtain ⟨call, closing⟩ := e
  by_cases hpack : ∃ pack, call = .packet pack
  · obtain ⟨pack, rfl⟩ := hpack
    exact deliveries_handle env m.c pack
  by_cases hconnect : ∃ options, call = .connectURI options
  · obtain ⟨options, rfl⟩ := hconnect
    exact Nat.zero_le 1
  · have hretains := MQTTClients.outcome_retains env char m ⟨call, closing⟩
      (fun pack h => hpack ⟨pack, h⟩) (fun options h => absurd ⟨options, h⟩ hconnect)
    rw [hretains.deliveries]
    exact Nat.zero_le 1

/-! ### Clients one after the other -/

/-- `MQTTClient_create` over the store of a client that has stopped; `m` is the rest of it. -/
def Receiver.restarted (host : HostInt) (m : MQTTClients) (keys : List Key) (r : Receiver) :
    Receiver :=
  let (qentry_seqno, queue) :=
    restoreMessageQueue host (.created m.c.MQTTVersion r.records) keys
  { r with
    m
    ma := false
    running := false
    qentry_seqno
    -- the numbers that the last publications have, as many as were restored
    messageQueue := List.zipWith QueuedArrival.mk
      (List.range' (r.arrivals.length - queue.length) queue.length) queue
    offered := none }

/-- What happens to clients that are created one after the other. -/
inductive LifeEvent where
  | step (e : ReceiverEvent)
  /-- The keys are as `pkeys` returns them. -/
  | restart (m : MQTTClients) (keys : List Key)

namespace Receiver

def lifeNext (env : Env) (char : CharType) (host : HostInt) (r : Receiver) :
    LifeEvent → Receiver
  | .step e => r.next env char host e
  | .restart m keys => r.restarted host m keys

def LifeAdmissible (r : Receiver) : LifeEvent → Prop
  | .step e => r.Admissible e
  | .restart _ keys => r.records.Enumerates keys

def LifeStep (env : Env) (char : CharType) (host : HostInt) (r : Receiver) (e : LifeEvent)
    (r' : Receiver) : Prop :=
  r.LifeAdmissible e ∧ r' = r.lifeNext env char host e

end Receiver

/-- A step of one of the clients, or a restart. -/
abbrev LifeTransition := Lib.Transition Receiver LifeEvent

def LifeTransition.receipt (x : LifeTransition) : Option Receipt :=
  Lib.Transition.image id
    (fun _ e =>
      match e with
      | .step e => some e
      | .restart _ _ => none) x

/--
What goes on the queue finds no message there from before a wrap of the sequence
numbers, and its record is read back; the queue is emptied together with the store,
and not while a message of it is being offered.
-/
structure InTurn (x : Receipt) : Prop where
  queued : ∀ publish ∈ publishedBy x,
    QueueState.Room x.pre.qentry_seqno (records (x.pre.messageQueue.map (·.qe))) ∧
      (Receiver.entryOf publish).WellFormed x.post.m.c.MQTTVersion
  emptied : ∀ e, x.event = .call e → x.pre.m.cleansSession e.call x.post.m = true →
    x.pre.offered = none ∧ ∀ key, isQueueKey key = true → e.closing.pclear.2 key = none

/-- The condition on a transition; the clients are all of MQTT 5, or none is. -/
structure KeptInTurn (x : LifeTransition) : Prop where
  MQTTVersion : x.post.m.c.MQTTVersion ≥ 5 ↔ x.pre.m.c.MQTTVersion ≥ 5
  inTurn : ∀ y, x.receipt = some y → InTurn y

/-- The records of the store are those of the queue, in its order. -/
structure Stored (host : HostInt) (r : Receiver) : Prop where
  persistence : r.persistence = true
  seqno_lt : r.qentry_seqno < PERSISTENCE_SEQNO_LIMIT
  holds : messageNumbering.Holds r.records (records (r.messageQueue.map (·.qe)))
  own : ∀ qe ∈ r.messageQueue.map (·.qe), ∃ record, qe.record = some record ∧
    ownEntry host record = some qe ∧ record.kind = decide (r.m.c.MQTTVersion ≥ 5) ∧
    record.seqno < PERSISTENCE_SEQNO_LIMIT
  offered : ∀ entry, r.offered = some entry → r.messageQueue.head? = some entry

theorem Receiver.unpersist_messageQueue
    (qe : QEntry) (r : Receiver) :
    (r.unpersist qe).messageQueue = r.messageQueue := by
  obtain ⟨stored, hstored⟩ := unpersist_eq qe r
  rw [hstored]

namespace Stored

variable {host : HostInt} {r : Receiver}

theorem congr
    {r' : Receiver}
    (h : Stored host r)
    (hversion : r'.m.c.MQTTVersion ≥ 5 ↔ r.m.c.MQTTVersion ≥ 5)
    (hpersistence : r'.persistence = r.persistence)
    (hseqno : r'.qentry_seqno = r.qentry_seqno)
    (hrecords : r'.records = r.records)
    (hqueue : r'.messageQueue = r.messageQueue)
    (hoffered : ∀ entry, r'.offered = some entry → r.messageQueue.head? = some entry) :
    Stored host r' := by
  refine ⟨hpersistence.trans h.persistence, hseqno ▸ h.seqno_lt, ?_, ?_, ?_⟩
  · rw [hrecords, hqueue]
    exact h.holds
  · rw [hqueue]
    intro qe hqe
    obtain ⟨record, hrecord, hown, hkind, hlt⟩ := h.own qe hqe
    exact ⟨record, hrecord, hown, hkind.trans (decide_eq_decide.mpr hversion.symm), hlt⟩
  · rw [hqueue]
    exact hoffered

/-- A publication is persisted behind the messages that wait. -/
theorem processPublication
    (h : Stored host r)
    {publish : Publish}
    (hroom : QueueState.Room r.qentry_seqno (records (r.messageQueue.map (·.qe))))
    (hwellFormed : (Receiver.entryOf publish).WellFormed r.m.c.MQTTVersion) :
    Stored host (r.processPublication host publish) := by
  have hlt := nextSeqno_lt h.seqno_lt
  unfold Receiver.processPublication
  dsimp only
  rw [if_pos h.persistence, persistQueueEntry_eq host (Receiver.entryOf publish) h.seqno_lt]
  refine ⟨h.persistence, hlt, ?_, ?_, ?_⟩
  · dsimp only
    rw [List.map_append, QueueState.records_append]
    exact h.holds.put hroom.lt_next
  · dsimp only
    rw [List.map_append]
    intro qe hqe
    rcases List.mem_append.mp hqe with hold | hnew
    · exact h.own qe hold
    · obtain rfl := List.mem_singleton.mp hnew
      exact ⟨_, rfl, ownEntry_messageRecord (hwellFormed.restorable host), rfl, hlt⟩
  · intro entry hoffered
    dsimp only
    rw [List.head?_append, h.offered entry hoffered]
    rfl

/-- The first of the queue leaves with its record. -/
theorem tail
    (h : Stored host r)
    {entry : QueuedArrival} {rest : List QueuedArrival}
    (hqueue : r.messageQueue = entry :: rest)
    (hfree : r.offered = none) :
    Stored host { r.unpersist entry.qe.entry with messageQueue := rest } := by
  have hmem : ∀ e ∈ rest.map (·.qe), e ∈ r.messageQueue.map (·.qe) := by
    rw [hqueue]
    exact fun e he => List.mem_cons_of_mem _ he
  obtain ⟨record, hrecord, hown, hkind, hlt⟩ := h.own entry.qe
    (by rw [hqueue]; exact List.mem_cons_self)
  have hseqno : entry.qe.entry.seqno = record.seqno := (ownEntry_seqno hown).1
  have hholds := h.holds
  rw [hqueue, List.map_cons] at hholds
  unfold Receiver.unpersist
  rw [if_pos h.persistence, unpersistQueueEntry_eq (hseqno ▸ hlt)]
  refine ⟨h.persistence, h.seqno_lt, ?_, fun e he => h.own e (hmem e he), fun e he => ?_⟩
  swap
  · exact nomatch hfree.symm.trans he
  refine @QueueState.holds_unpersist _ _ _ [] _ _ _ hholds ?_ ?_
  · intro t ht
    obtain rfl : record = t := Option.some.inj (hrecord.symm.trans ht)
    rw [Lib.Numbering.keyOf, hseqno, hkind]
    rfl
  · intro hnone
    rw [hrecord] at hnone
    cases hnone

/-- The queue and the store are emptied together. -/
theorem emptyMessageQueue
    (h : Stored host r)
    {closing : Closing}
    (hfree : r.offered = none)
    (hcleared : ∀ key, isQueueKey key = true → closing.pclear.2 key = none) :
    Stored host (r.emptyMessageQueue closing) := by
  have hholds : messageNumbering.Holds closing.pclear.2 [] :=
    (QueueState.holds_nil messageNumbering).congr hcleared
  unfold Receiver.emptyMessageQueue
  rw [if_pos h.persistence]
  refine ⟨h.persistence, h.seqno_lt, hholds, ?_, ?_⟩
  · exact fun _ hqe => nomatch hqe
  · exact fun _ hoffered => nomatch hfree.symm.trans hoffered

/-- A call persists what it queues, or it empties the queue. -/
theorem call
    {env : Env} {char : CharType} {e : SyncEvent}
    (h : Stored host r)
    (hversion : (r.call env char host e).m.c.MQTTVersion ≥ 5 ↔ r.m.c.MQTTVersion ≥ 5)
    (hturn : InTurn ⟨r, .call e, r.call env char host e⟩) :
    Stored host (r.call env char host e) := by
  have hm := Receiver.call_m env char host r e
  have hcalled : Stored host { r with m := (r.m.outcome env char e).2 } :=
    h.congr (hm ▸ hversion) rfl rfl rfl rfl h.offered
  have hpublished := hturn.queued
  rw [publishedBy] at hpublished
  dsimp only at hpublished
  rw [hm] at hpublished
  have hqueued : ∀ publishes : List Publish, publishes.length ≤ 1 →
      (∀ publish ∈ publishes,
        QueueState.Room r.qentry_seqno (records (r.messageQueue.map (·.qe))) ∧
          (Receiver.entryOf publish).WellFormed (r.m.outcome env char e).2.c.MQTTVersion) →
      Stored host (publishes.foldl (Receiver.processPublication host)
        { r with m := (r.m.outcome env char e).2 }) ∧
      (publishes.foldl (Receiver.processPublication host)
        { r with m := (r.m.outcome env char e).2 }).offered = r.offered := by
    intro publishes hlength hinTurn
    rcases publishes with _ | ⟨publish, _ | ⟨second, rest⟩⟩
    · exact ⟨hcalled, rfl⟩
    · obtain ⟨hroom, hwellFormed⟩ := hinTurn publish List.mem_cons_self
      obtain ⟨entry, qentry_seqno, stored, -, heq⟩ := Receiver.processPublication_cases host
        { r with m := (r.m.outcome env char e).2 } publish
      refine ⟨hcalled.processPublication hroom hwellFormed, ?_⟩
      rw [List.foldl_cons, heq]
      rfl
    · simp at hlength
  obtain ⟨hstored, hoffered⟩ := hqueued _ (deliveries_outcome_length env char r.m e) hpublished
  unfold Receiver.call
  dsimp only
  split
  next hcleans =>
    obtain ⟨hfree, hcleared⟩ := hturn.emptied e rfl (by rw [hm]; exact hcleans)
    exact hstored.emptyMessageQueue (hoffered.trans hfree) hcleared
  next => exact hstored

/-- An answer takes the message that was offered off the queue, or leaves it there. -/
theorem answer
    (h : Stored host r)
    (hnumbered : r.Numbered)
    (rc : Int) (freed : Nat) :
    Stored host (r.answer rc freed) := by
  unfold Receiver.answer
  split
  · exact h
  next entry hoffered =>
    obtain ⟨rest, hqueue⟩ := List.head?_eq_some_iff.mp (h.offered entry hoffered)
    have hwaits : r.messageQueue.any (·.number = entry.number) = true := by
      rw [hqueue]
      simp
    obtain ⟨hfirst, -⟩ := hnumbered.head_number hqueue
    have hrest : r.messageQueue.filter (·.number ≠ entry.number) = rest := by
      rw [hnumbered.filter_queue hfirst.le, if_pos hfirst, hqueue]
      rfl
    dsimp only
    by_cases hrc : rc = 0
    · rw [if_pos hrc]
      exact h.congr Iff.rfl rfl rfl rfl rfl fun _ he => nomatch he
    · rw [if_neg hrc, if_pos hwaits]
      have hanswered : Stored host
          { r with offered := none, calls := r.calls ++ [passed entry rc] } :=
        h.congr Iff.rfl rfl rfl rfl rfl fun _ he => nomatch he
      have htail := hanswered.tail hqueue rfl
      refine htail.congr Iff.rfl rfl rfl rfl ?_ htail.offered
      exact (congrArg (List.filter _) (Receiver.unpersist_messageQueue _ _)).trans hrest

/-- What `MQTTClient_receive` returns leaves with its record. -/
theorem receive
    (h : Stored host r)
    (hfree : r.offered = none)
    (rc : Int) :
    Stored host (r.receive rc) := by
  unfold Receiver.receive
  split
  · exact h
  next entry rest hqueue =>
    have htail := h.tail hqueue hfree
    exact htail.congr Iff.rfl rfl rfl rfl rfl htail.offered

/-- Every step of a client keeps the store. -/
theorem next
    {env : Env} {char : CharType} {e : ReceiverEvent}
    (h : Stored host r)
    (hnumbered : r.Numbered)
    (hadm : r.Admissible e)
    (hversion : (r.next env char host e).m.c.MQTTVersion ≥ 5 ↔ r.m.c.MQTTVersion ≥ 5)
    (hturn : InTurn ⟨r, e, r.next env char host e⟩) :
    Stored host (r.next env char host e) := by
  cases e with
  | call e => exact h.call hversion hturn
  | offer =>
      rw [Receiver.next]
      rcases Receiver.offer_cases r with heq | ⟨entry, rest, hqueue, -, -, heq⟩
      · rw [heq]
        exact h
      · rw [heq]
        refine h.congr Iff.rfl rfl rfl rfl rfl fun e he => ?_
        obtain rfl := Option.some.inj he
        rw [hqueue]
        rfl
  | answer rc freed => exact h.answer hnumbered rc freed
  | receive rc =>
      refine h.receive (Option.eq_none_iff_forall_ne_some.mpr fun entry hoffered => ?_) rc
      have hrunning := (hnumbered.offered entry hoffered).2
      exact absurd (hrunning.symm.trans hadm) (by decide)
  | setCallbacks => exact h.congr Iff.rfl rfl rfl rfl rfl h.offered
  | setRunning running => exact h.congr Iff.rfl rfl rfl rfl rfl h.offered

/-- The messages that are restored are those that wait. -/
theorem restored
    (h : Stored host r)
    (MQTTVersion : Nat)
    {keys : List Key}
    (hkeys : r.records.Enumerates keys) :
    (restoreMessageQueue host (.created MQTTVersion r.records) keys).2 =
      r.messageQueue.map (·.qe) := by
  have hholds : messageNumbering.Holds (QueueClient.created MQTTVersion r.records).store
      (records (r.messageQueue.map (·.qe))) := h.holds
  rw [restoreMessageQueue_holds host hholds hkeys]
  refine QueueState.InOrder.filterMap_ownEntry fun qe hqe => ?_
  obtain ⟨record, hrecord, hown, -⟩ := h.own qe hqe
  exact ⟨record, hrecord, hown⟩

/-- The new client has the queue of the one before it. -/
theorem restarted_messageQueue
    (h : Stored host r)
    (hnumbered : r.Numbered)
    (m : MQTTClients)
    {keys : List Key}
    (hkeys : r.records.Enumerates keys) :
    (r.restarted host m keys).messageQueue = r.messageQueue := by
  have hnumbers := hnumbered.queue_numbers
  rw [Receiver.desk] at hnumbers
  unfold Receiver.restarted
  dsimp only
  rw [h.restored _ hkeys, List.length_map, ← hnumbers, List.zipWith_map, List.zipWith_self]
  exact List.map_id' _

theorem restarted
    (h : Stored host r)
    (hnumbered : r.Numbered)
    {m : MQTTClients} {keys : List Key}
    (hkeys : r.records.Enumerates keys)
    (hversion : m.c.MQTTVersion ≥ 5 ↔ r.m.c.MQTTVersion ≥ 5) :
    Stored host (r.restarted host m keys) := by
  have hseqno : (restoreMessageQueue host (.created m.c.MQTTVersion r.records) keys).1 <
      PERSISTENCE_SEQNO_LIMIT := by
    refine restoreMessageQueue_seqno_lt (Nat.succ_pos _) ?_
    rw [h.restored _ hkeys]
    intro qe hqe
    obtain ⟨record, -, hown, -, hlt⟩ := h.own qe hqe
    rw [(ownEntry_seqno hown).1]
    exact hlt
  have hcounted : Stored host
      { r with qentry_seqno := (r.restarted host m keys).qentry_seqno, offered := none } :=
    ⟨h.persistence, hseqno, h.holds, h.own, fun _ he => nomatch he⟩
  exact hcounted.congr hversion rfl rfl rfl (h.restarted_messageQueue hnumbered m hkeys)
    fun _ he => nomatch he

end Stored

/-- A restart keeps the turns; a message that was being offered waits again. -/
theorem Receiver.Numbered.restarted
    {host : HostInt} {r : Receiver}
    (hnumbered : r.Numbered)
    (h : Stored host r)
    {m : MQTTClients} {keys : List Key}
    (hkeys : r.records.Enumerates keys) :
    (r.restarted host m keys).Numbered := by
  have hqueue := h.restarted_messageQueue hnumbered m hkeys
  refine ⟨hnumbered.numbers, ?_, (fun _ he => nomatch he), hnumbered.calls, ?_⟩
  · rw [hqueue]
    exact hnumbered.queue
  · have hdesk : (r.restarted host m keys).desk = { r.desk with offered := none } := by
      unfold Receiver.desk
      rw [hqueue]
      rfl
    rw [hdesk]
    exact { hnumbered.inTurn with offered := fun _ he => nomatch he }

/-- The publications that a transition passes on. -/
def LifeTransition.published (x : LifeTransition) : List Publish :=
  (x.receipt.map publishedBy).getD []

/-- The transition is a call that cleans the session. -/
def LifeTransition.CleansSession (x : LifeTransition) : Prop :=
  ∃ y, x.receipt = some y ∧ MQTTClient.CleansSession y

section Runs

open Lib

variable {env : Env} {char : CharType} {host : HostInt} {r r' : Receiver}
variable {e : LifeEvent} {tr : List LifeTransition}

theorem lifeStep_keeps
    (hstep : Receiver.LifeStep env char host r e r')
    (hkept : KeptInTurn ⟨r, e, r'⟩)
    (hstored : Stored host r)
    (hnumbered : r.Numbered) :
    Stored host r' ∧ r'.Numbered := by
  cases e with
  | step e =>
      obtain ⟨hadm, rfl⟩ := hstep
      exact ⟨hstored.next hnumbered hadm hkept.MQTTVersion (hkept.inTurn _ rfl),
        hnumbered.next hadm⟩
  | restart m keys =>
      obtain ⟨hkeys, rfl⟩ := hstep
      exact ⟨hstored.restarted hnumbered hkeys hkept.MQTTVersion,
        hnumbered.restarted hstored hkeys⟩

theorem lifeStep_arrivals
    (hstep : Receiver.LifeStep env char host r e r') :
    r'.arrivals.map (·.content) = r.arrivals.map (·.content) ++
        (LifeTransition.published ⟨r, e, r'⟩).map
          (fun publish => (publish.topic, publicationMessage publish)) ∧
      (¬LifeTransition.CleansSession ⟨r, e, r'⟩ → r'.emptied = r.emptied) := by
  cases e with
  | step e =>
      obtain ⟨-, rfl⟩ := hstep
      obtain ⟨hcontents, hemptied⟩ := Receiver.next_arrivals env char host r e
      exact ⟨hcontents, fun hnot => hemptied fun hcleans => hnot ⟨_, rfl, hcleans⟩⟩
  | restart m keys =>
      obtain ⟨-, rfl⟩ := hstep
      exact ⟨(List.append_nil _).symm, fun _ => rfl⟩

theorem runs_keep
    (hrun : Runs (Receiver.LifeStep env char host) r tr r')
    (hkept : ∀ x ∈ tr, KeptInTurn x)
    (hstored : Stored host r)
    (hnumbered : r.Numbered) :
    Stored host r' ∧ r'.Numbered ∧
      r'.arrivals.map (·.content) = r.arrivals.map (·.content) ++
        (tr.flatMap (·.published)).map
          (fun publish => (publish.topic, publicationMessage publish)) ∧
      ((∀ x ∈ tr, ¬x.CleansSession) → r'.emptied = r.emptied) := by
  induction hrun with
  | nil r => exact ⟨hstored, hnumbered, (List.append_nil _).symm, fun _ => rfl⟩
  | @cons r u r' e tr hstep _ ih =>
      obtain ⟨hstored', hnumbered'⟩ := lifeStep_keeps hstep (hkept _ List.mem_cons_self) hstored
        hnumbered
      obtain ⟨hcontents, hemptied⟩ := lifeStep_arrivals hstep
      obtain ⟨hlast, hlast', hrest, hlater⟩ := ih
        (fun x hx => hkept x (List.mem_cons_of_mem _ hx)) hstored' hnumbered'
      refine ⟨hlast, hlast', ?_, fun hnone => ?_⟩
      · rw [hrest, hcontents, List.flatMap_cons, List.map_append, List.append_assoc]
      · rw [hlater fun x hx => hnone x (List.mem_cons_of_mem _ hx),
          hemptied (hnone _ List.mem_cons_self)]

/-- The store of a client that has not been connected is empty, and so is its queue. -/
theorem fresh_stored
    (host : HostInt) (MQTTVersion : Nat) :
    Stored host (Receiver.fresh MQTTVersion (some ExactMap.empty)) :=
  ⟨rfl, Nat.succ_pos _, QueueState.holds_nil _, fun _ hqe => absurd hqe List.not_mem_nil,
    (fun _ he => nomatch he)⟩

/--
Over all restarts, the publications of the packets are handed over one by one in
their order; a client that is created finds the messages that wait, and as long as
no session is cleaned what was taken and what waits are all publications.
-/
theorem handed_over_across_restarts
    {MQTTVersion : Nat}
    (hrun : Runs (Receiver.LifeStep env char host)
      (Receiver.fresh MQTTVersion (some ExactMap.empty)) tr r')
    (hkept : ∀ x ∈ tr, KeptInTurn x) :
    Orderly r' ∧
      (∀ m keys, r'.records.Enumerates keys →
        (r'.restarted host m keys).messageQueue = r'.messageQueue) ∧
      r'.arrivals.map (·.content) = (tr.flatMap (·.published)).map
        (fun publish => (publish.topic, publicationMessage publish)) ∧
      ((∀ x ∈ tr, ¬x.CleansSession) →
        takenArrivals r'.calls ++ r'.messageQueue.map (·.arrival) = r'.arrivals) := by
  have hcreated := Receiver.fresh_created MQTTVersion (some ExactMap.empty)
  obtain ⟨hstored, hnumbered, hcontents, hemptied⟩ :=
    runs_keep hrun hkept (fresh_stored host MQTTVersion) hcreated.numbered
  refine ⟨hnumbered.orderly, ?_, hcontents, fun hnone => ?_⟩
  · exact fun m keys hkeys => hstored.restarted_messageQueue hnumbered m hkeys
  · exact hnumbered.taken_append_waiting (hemptied hnone)

end Runs

/-- A step that queues nothing and cleans no session meets the condition. -/
theorem keptInTurn_quiet
    {r r' : Receiver} {e : ReceiverEvent}
    (hversion : r'.m.c.MQTTVersion = r.m.c.MQTTVersion)
    (hpublished : publishedBy ⟨r, e, r'⟩ = [])
    (hkept : ¬CleansSession ⟨r, e, r'⟩) :
    KeptInTurn ⟨r, .step e, r'⟩ ∧ ¬LifeTransition.CleansSession ⟨r, .step e, r'⟩ := by
  refine ⟨⟨by rw [hversion], ?_⟩, ?_⟩
  · intro y hy
    obtain rfl := Option.some.inj hy
    refine ⟨fun publish hpublish => ?_, fun e he hcleans => absurd ⟨e, he, hcleans⟩ hkept⟩
    have hnone : publish ∈ publishedBy ⟨r, e, r'⟩ := hpublish
    rw [hpublished] at hnone
    exact absurd hnone List.not_mem_nil
  · rintro ⟨y, hy, hcleans⟩
    obtain rfl := Option.some.inj hy
    exact hkept hcleans

theorem keptInTurn_restart
    {r r' : Receiver} {m : MQTTClients} {keys : List Key}
    (hversion : r'.m.c.MQTTVersion = r.m.c.MQTTVersion) :
    KeptInTurn ⟨r, .restart m keys, r'⟩ ∧
      ¬LifeTransition.CleansSession ⟨r, .restart m keys, r'⟩ := by
  refine ⟨⟨by rw [hversion], ?_⟩, ?_⟩
  · intro y hy
    cases hy
  · rintro ⟨y, hy, -⟩
    cases hy

/-- A client stops while `messageArrived` is being called, and the next one calls it again. -/
def stoppedInCallback : List LifeEvent :=
  [.step .setCallbacks, .step (.setRunning true)] ++
    MQTTClients.connects.map (fun e => .step (.call e)) ++
    [.step (receives 1), .step .offer,
      .restart (MQTTClients.fresh 5 (some Lib.ExactMap.empty)) [Stem.v5Queue.key 1],
      .step .setCallbacks, .step (.setRunning true), .step .offer, .step (.answer 1 0)]

theorem handed_over_across_restarts_once :
    ∃ r' : Receiver, r'.arrivals.map (·.msg.msgid) = [1] ∧
      r'.calls.map (fun call => (call.number, call.taken)) = [(0, true)] ∧
      Orderly r' ∧ takenArrivals r'.calls ++ r'.messageQueue.map (·.arrival) = r'.arrivals := by
  have hkeys : ∀ bytes : Bytes, Lib.ExactMap.Enumerates
      (Lib.ExactMap.empty.put (Stem.v5Queue.key 1) bytes : Store) [Stem.v5Queue.key 1] := by
    intro bytes
    refine ⟨List.nodup_singleton _, fun k => ?_⟩
    rw [List.mem_singleton, Lib.ExactMap.put_apply]
    split <;> simp [*]
  have hrun : Lib.Runs (Receiver.LifeStep Env.reliable .unsigned .littleEndian)
      (Receiver.fresh 5 (some Lib.ExactMap.empty))
      (Lib.trace (Receiver.lifeNext Env.reliable .unsigned .littleEndian)
        (Receiver.fresh 5 (some Lib.ExactMap.empty)) stoppedInCallback)
      (stoppedInCallback.foldl (Receiver.lifeNext Env.reliable .unsigned .littleEndian)
        (Receiver.fresh 5 (some Lib.ExactMap.empty))) := by
    have hadm : ∀ x ∈ Lib.trace (Receiver.lifeNext Env.reliable .unsigned .littleEndian)
        (Receiver.fresh 5 (some Lib.ExactMap.empty)) stoppedInCallback,
        x.pre.LifeAdmissible x.event := by
      simp only [stoppedInCallback, MQTTClients.connects, List.map_cons, List.map_nil,
        List.cons_append, List.nil_append, Lib.trace, List.forall_mem_cons]
      refine ⟨trivial, ?_, ⟨trivial, ?_⟩, ⟨trivial, ?_⟩, ⟨trivial, ?_⟩, trivial, hkeys _, trivial,
        ?_, trivial, trivial, List.forall_mem_nil _⟩
      · exact fun h => absurd h (by decide)
      · intro pack hpack
        cases hpack
      · intro pack hpack
        cases hpack
      · intro pack hpack
        obtain rfl := Call.packet.inj hpack
        exact ⟨rfl, rfl⟩
      · exact fun h => absurd h (by decide)
    exact Lib.Runs.of_trace _ _ fun x hx => ⟨hadm x hx, Lib.post_of_mem_trace hx⟩
  have hkept : ∀ x ∈ Lib.trace (Receiver.lifeNext Env.reliable .unsigned .littleEndian)
      (Receiver.fresh 5 (some Lib.ExactMap.empty)) stoppedInCallback,
      KeptInTurn x ∧ ¬LifeTransition.CleansSession x := by
    simp only [stoppedInCallback, MQTTClients.connects, List.map_cons, List.map_nil,
      List.cons_append, List.nil_append, Lib.trace, List.forall_mem_cons]
    refine ⟨?_, ?_, ?_, ?_, ?_, ?_, keptInTurn_restart rfl, ?_, ?_, ?_, ?_, List.forall_mem_nil _⟩
    · exact keptInTurn_quiet rfl rfl (by rintro ⟨e, he, -⟩; cases he)
    · exact keptInTurn_quiet rfl rfl (by rintro ⟨e, he, -⟩; cases he)
    · refine keptInTurn_quiet rfl rfl ?_
      rintro ⟨e, he, hcleans⟩
      cases he
      exact absurd hcleans (by decide)
    · refine keptInTurn_quiet rfl rfl ?_
      rintro ⟨e, he, hcleans⟩
      cases he
      exact absurd hcleans (by decide)
    · refine ⟨⟨Iff.rfl, ?_⟩, ?_⟩
      · intro y hy
        obtain rfl := Option.some.inj hy
        refine ⟨?_, ?_⟩
        · intro publish hpublish
          obtain rfl := List.mem_singleton.mp hpublish
          refine ⟨fun record hrecord => absurd hrecord List.not_mem_nil, rfl, rfl, by decide,
            by decide, fun _ => MQTTProperties.survives_initializer, fun _ => rfl⟩
        · intro e he hcleans
          cases he
          exact absurd hcleans (by decide)
      · rintro ⟨y, hy, e, he, hcleans⟩
        obtain rfl := Option.some.inj hy
        cases he
        exact absurd hcleans (by decide)
    · exact keptInTurn_quiet rfl rfl (by rintro ⟨e, he, -⟩; cases he)
    · exact keptInTurn_quiet rfl rfl (by rintro ⟨e, he, -⟩; cases he)
    · exact keptInTurn_quiet rfl rfl (by rintro ⟨e, he, -⟩; cases he)
    · exact keptInTurn_quiet rfl rfl (by rintro ⟨e, he, -⟩; cases he)
    · exact keptInTurn_quiet rfl rfl (by rintro ⟨e, he, -⟩; cases he)
  obtain ⟨horderly, -, -, hall⟩ := handed_over_across_restarts hrun fun x hx => (hkept x hx).1
  refine ⟨_, ?_, ?_, horderly, hall fun x hx => (hkept x hx).2⟩
  · decide +kernel
  · decide +kernel

end MQTTClient
end PahoMqtt
