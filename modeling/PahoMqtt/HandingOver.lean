import PahoMqtt.SyncReceiving

/-!
# Messages are handed over in turn

The application of a synchronous client gets the publications one by one in the
order of their packets, whichever threads publish, connect and close sessions in
the meantime, and whether the messages are passed to `messageArrived` or returned
by `MQTTClient_receive`.  None is taken twice, and none is passed over unless its
session has been cleaned.
-/

namespace PahoMqtt
namespace MQTTClient

open MQTTAsync (Arrival QueuedArrival publicationMessage)

/-- The publication was taken in one of these calls, or it was emptied with the session. -/
def Settled (calls : List Handed) (emptied : List Nat) (k : Nat) : Prop :=
  (∃ call ∈ calls, call.taken = true ∧ call.number = k) ∨ k ∈ emptied

theorem done_iff
    {calls : List Handed} {emptied : List Nat} {k : Nat} :
    Lib.Desk.Done (calls.map (·.offer)) emptied k ↔ Settled calls emptied k := by
  simp [Lib.Desk.Done, Lib.Desk.mem_accepted, Settled, Handed.offer]

/--
Each message that is handed over is a publication, and all publications before it have
been taken or were emptied with a session.  What was taken is not handed over again,
and what was rejected is the next, unless it was emptied.  A publication that was
neither taken nor emptied is on the queue.
-/
structure Orderly (r : Receiver) : Prop where
  handed : ∀ call ∈ r.calls, r.arrivals[call.number]? = some call.arrival
  in_turn : ∀ before call after, r.calls = before ++ call :: after →
    ∀ k < call.number, Settled before r.emptied k
  once : ∀ before call after, r.calls = before ++ call :: after → call.taken = true →
    ∀ later ∈ after, call.number < later.number
  again : ∀ before call later after, r.calls = before ++ call :: later :: after →
    call.taken = false → later.number = call.number ∨ call.number ∈ r.emptied
  offered : ∀ entry, r.offered = some entry →
    r.arrivals[entry.number]? = some entry.arrival ∧
      (∀ k < entry.number, Settled r.calls r.emptied k) ∧
      ∀ call ∈ r.calls, call.taken = true → call.number < entry.number
  waiting : ∀ entry ∈ r.messageQueue,
    r.arrivals[entry.number]? = some entry.arrival ∧
      ∀ call ∈ r.calls, call.taken = true → call.number < entry.number
  kept : ∀ k < r.arrivals.length, Settled r.calls r.emptied k ∨
    ∃ entry ∈ r.messageQueue, entry.number = k

namespace Receiver

variable {r : Receiver}

/-- What was taken comes before what is still to be handed over. -/
theorem taken_before
    {k : Nat}
    (h : Lib.Desk.Next r.desk.offers k) :
    ∀ call ∈ r.calls, call.taken = true → call.number < k :=
  fun call hcall htaken => (h call.offer (List.mem_map_of_mem hcall)).2 htaken

theorem Numbered.orderly
    (h : r.Numbered) :
    Orderly r := by
  have hoffers : ∀ {before call after}, r.calls = before ++ call :: after →
      r.desk.offers = before.map (·.offer) ++ call.offer :: after.map (·.offer) := by
    intro before call after hcalls
    rw [desk, hcalls, List.map_append, List.map_cons]
  have hpassed : ∀ k < r.desk.first, Settled r.calls r.emptied k := fun k hk =>
    done_iff.mp (h.inTurn.passed k hk)
  constructor
  · intro call hcall
    exact h.arrival_number (h.calls call hcall)
  · intro before call after hcalls k hk
    exact done_iff.mp (h.inTurn.in_turn _ _ _ (hoffers hcalls) k hk)
  · intro before call after hcalls htaken later hlater
    exact h.inTurn.once (hoffers hcalls) htaken _ (List.mem_map_of_mem hlater)
  · intro before call later after hcalls hrejected
    exact h.inTurn.again (hoffers hcalls) hrejected
  · intro entry hoffered
    have hdesk : r.desk.offered = some entry.number := by
      rw [desk, hoffered]
      rfl
    obtain ⟨-, hnext, hplace⟩ := h.inTurn.offered _ hdesk
    have hle : entry.number ≤ r.desk.first := by
      rcases hplace with heq | hdropped
      · exact heq.le
      · exact (h.inTurn.dropped_lt _ hdropped).le
    refine ⟨h.arrival_number (h.offered entry hoffered).1, ?_, taken_before hnext⟩
    exact fun k hk => hpassed k (hk.trans_le hle)
  · intro entry hentry
    refine ⟨h.arrival_number (h.entry_mem hentry), fun call hcall htaken => ?_⟩
    have hmem : entry.number ∈ r.messageQueue.map (·.number) := List.mem_map_of_mem hentry
    rw [h.queue_numbers, List.mem_range'_1] at hmem
    exact (taken_before h.inTurn.next call hcall htaken).trans_le hmem.1
  · intro k hk
    by_cases hfirst : k < r.desk.first
    · exact .inl (hpassed k hfirst)
    · have hmem : k ∈ r.messageQueue.map (·.number) := by
        have hle := h.queue_le
        rw [h.queue_numbers, List.mem_range'_1]
        simp only [desk] at hfirst ⊢
        omega
      exact .inr (List.mem_map.mp hmem)

/-- Where no session has been cleaned, what was taken and what waits are all publications. -/
theorem Numbered.taken_append_waiting
    (h : r.Numbered)
    (hkept : r.emptied = []) :
    takenArrivals r.calls ++ r.messageQueue.map (·.arrival) = r.arrivals := by
  obtain ⟨before, hsplit⟩ := h.queue
  have hlength := congrArg List.length hsplit
  rw [List.length_append, List.length_map] at hlength
  have hfirst : r.desk.first = before.length := by
    rw [desk, ← hlength, Nat.add_sub_cancel]
  have haccepted := h.inTurn.accepted_eq hkept
  have htaken : (takenArrivals r.calls).map (·.number) = Lib.accepted r.desk.offers := by
    simp only [takenArrivals, Lib.accepted, desk, List.filter_map, List.map_map]
    rfl
  rw [haccepted, hfirst] at htaken
  have hall : ∀ a ∈ takenArrivals r.calls, a ∈ r.arrivals := by
    intro a ha
    obtain ⟨call, hcall, rfl⟩ := List.mem_map.mp ha
    exact h.calls call (List.mem_filter.mp hcall).1
  have heq : takenArrivals r.calls = before := by
    refine List.ext_getElem? fun i => ?_
    have hnumber := congrArg (fun l => l[i]?) htaken
    rw [List.getElem?_map] at hnumber
    by_cases hi : i < before.length
    · rw [List.getElem?_range hi] at hnumber
      obtain ⟨a, ha, rfl⟩ := Option.map_eq_some_iff.mp hnumber
      have hfound := h.arrival_number (hall a (List.mem_of_getElem? ha))
      rw [ha, ← hfound, ← hsplit, List.getElem?_append_left hi]
    · have hnone : (takenArrivals r.calls)[i]? = none := by
        refine List.getElem?_eq_none ?_
        have hlen := congrArg List.length htaken
        rw [List.length_map, List.length_range] at hlen
        omega
      rw [hnone, List.getElem?_eq_none (not_lt.mp hi)]
  rw [heq]
  exact hsplit

theorem foldl_arrivals
    (host : HostInt) (publishes : List Publish) (r : Receiver) :
    ((publishes.foldl (Receiver.processPublication host) r).arrivals.map (·.content) =
        r.arrivals.map (·.content) ++ publishes.map
          (fun publish => (publish.topic, publicationMessage publish))) ∧
      (publishes.foldl (Receiver.processPublication host) r).m = r.m ∧
      (publishes.foldl (Receiver.processPublication host) r).emptied = r.emptied := by
  induction publishes generalizing r with
  | nil => simp
  | cons publish publishes ih =>
      obtain ⟨entry, qentry_seqno, records, harrival, heq⟩ :=
        processPublication_cases host r publish
      obtain ⟨hcontents, hm, hemptied⟩ := ih (r.processPublication host publish)
      rw [List.foldl_cons]
      refine ⟨?_, hm.trans (by rw [heq]), hemptied.trans (by rw [heq])⟩
      rw [hcontents, heq, harrival]
      simp [Arrival.content]

theorem call_m
    (env : Env) (char : CharType) (host : HostInt) (r : Receiver) (e : SyncEvent) :
    (r.call env char host e).m = (r.m.outcome env char e).2 := by
  obtain ⟨-, hm, -⟩ := foldl_arrivals host
    (deliveries (r.m.outcome env char e).2.c.net) { r with m := (r.m.outcome env char e).2 }
  unfold call
  dsimp only
  split
  · exact hm
  · exact hm

/-- What a step does to the publications, and that only a cleaned session empties the queue. -/
theorem next_arrivals
    (env : Env) (char : CharType) (host : HostInt) (r : Receiver) (e : ReceiverEvent) :
    (r.next env char host e).arrivals.map (·.content) =
        r.arrivals.map (·.content) ++
          (publishedBy ⟨r, e, r.next env char host e⟩).map
            (fun publish => (publish.topic, publicationMessage publish)) ∧
      (¬CleansSession ⟨r, e, r.next env char host e⟩ →
        (r.next env char host e).emptied = r.emptied) := by
  cases e with
  | call e =>
      obtain ⟨hcontents, -, hemptied⟩ := foldl_arrivals host
        (deliveries (r.m.outcome env char e).2.c.net) { r with m := (r.m.outcome env char e).2 }
      refine ⟨?_, fun hkept => ?_⟩
      · rw [publishedBy]
        dsimp only [next]
        rw [call_m]
        unfold call
        dsimp only
        split
        · exact hcontents
        · exact hcontents
      · have hnot : ¬r.m.cleansSession e.call (r.m.outcome env char e).2 = true := by
          intro hcleans
          exact hkept ⟨e, rfl, by dsimp only [next]; rw [call_m]; exact hcleans⟩
        dsimp only [next]
        unfold call
        rw [if_neg hnot]
        exact hemptied
  | offer =>
      rcases offer_cases r with heq | ⟨entry, rest, -, -, -, heq⟩
      · simp [next, heq, publishedBy]
      · simp [next, heq, publishedBy]
  | answer rc freed =>
      rcases answer_cases rc freed r with heq | ⟨entry, records, -, heq⟩
      · simp [next, heq, publishedBy]
      · simp [next, heq, publishedBy]
  | receive rc =>
      rcases receive_cases rc r with heq | ⟨entry, rest, records, -, heq⟩
      · simp [next, heq, publishedBy]
      · simp [next, heq, publishedBy]
  | setCallbacks => simp [next, publishedBy]
  | setRunning running => simp [next, publishedBy]

end Receiver

section Runs

open Lib

variable {env : Env} {char : CharType} {host : HostInt} {r r' : Receiver}
variable {tr : List (Transition Receiver ReceiverEvent)}

theorem runs_numbered
    (hrun : Runs (Receiver.Step env char host) r tr r')
    (h : r.Numbered) :
    (∀ x ∈ tr, x.pre.Numbered ∧ x.post.Numbered) ∧ r'.Numbered :=
  hrun.invariant (fun r e r' (h : r.Numbered) hstep => by rw [hstep.2]; exact h.next hstep.1) h

theorem runs_arrivals
    (hrun : Runs (Receiver.Step env char host) r tr r') :
    r'.arrivals.map (·.content) = r.arrivals.map (·.content) ++
        tr.flatMap (fun x => (publishedBy x).map
          (fun publish => (publish.topic, publicationMessage publish))) ∧
      ((∀ x ∈ tr, ¬CleansSession x) → r'.emptied = r.emptied) := by
  induction hrun with
  | nil r => simp
  | @cons r u r' e tr hstep _ ih =>
      obtain rfl : u = r.next env char host e := hstep.2
      obtain ⟨hcontents, hkept⟩ := Receiver.next_arrivals env char host r e
      obtain ⟨hrest, hlater⟩ := ih
      refine ⟨?_, fun hnone => ?_⟩
      · rw [hrest, hcontents, List.flatMap_cons, List.append_assoc]
      · rw [hlater fun x hx => hnone x (List.mem_cons_of_mem _ hx),
          hkept (hnone _ List.mem_cons_self)]

/--
In every run of the client, the publications of the packets are handed over to the
application one by one in their order, by the callback or by `MQTTClient_receive`;
while no session is cleaned, what the application has taken and what waits on the
queue are all publications.
-/
theorem handed_over_in_turn
    (hrun : Runs (Receiver.Step env char host) r tr r')
    (hcreated : r.Created) :
    Orderly r' ∧
      r'.arrivals.map (·.content) = r.arrivals.map (·.content) ++
        tr.flatMap (fun x => (publishedBy x).map
          (fun publish => (publish.topic, publicationMessage publish))) ∧
      ((∀ x ∈ tr, ¬CleansSession x) →
        takenArrivals r'.calls ++ r'.messageQueue.map (·.arrival) = r'.arrivals) := by
  have hnumbered := (runs_numbered hrun hcreated.numbered).2
  obtain ⟨hcontents, hkept⟩ := runs_arrivals hrun
  refine ⟨hnumbered.orderly, hcontents, fun hnone => ?_⟩
  exact hnumbered.taken_append_waiting ((hkept hnone).trans hcreated.emptied)

end Runs

/-- A client that has not been connected. -/
def Receiver.fresh (MQTTVersion : Nat) (persistence : Option Store) : Receiver where
  m := MQTTClients.fresh MQTTVersion persistence
  persistence := persistence.isSome
  ma := false
  running := false
  qentry_seqno := 0
  records := Lib.ExactMap.empty
  messageQueue := []
  offered := none
  arrivals := []
  calls := []
  emptied := []

theorem Receiver.fresh_created
    (MQTTVersion : Nat) (persistence : Option Store) :
    (Receiver.fresh MQTTVersion persistence).Created :=
  ⟨rfl, rfl, rfl, rfl, rfl⟩

/-- A publication of QoS 1. -/
def receives (msgId : MsgId) : ReceiverEvent :=
  .call (MQTTClients.does (.packet (.publish
    { header := ⟨.publish, false, 1, false⟩, topic := [97], topiclen := 1, msgId, payload := [120]
      MQTTVersion := 5, properties := MQTTProperties.initializer, mask := ⟨0, 0, 0, 0⟩ })))

/-- The first of two messages is rejected and then accepted, the second one is returned. -/
def twoReceived : List ReceiverEvent :=
  .setCallbacks :: .setRunning true :: MQTTClients.connects.map .call ++
    [receives 1, .offer, .answer 0 0, receives 2, .offer, .answer 1 0, .setRunning false,
      .receive 0]

theorem handed_over_in_turn_two :
    ∃ r' : Receiver, r'.arrivals.map (·.msg.msgid) = [1, 2] ∧
      r'.calls.map (fun call => (call.number, call.taken)) = [(0, false), (0, true), (1, true)] ∧
      Orderly r' ∧ takenArrivals r'.calls ++ r'.messageQueue.map (·.arrival) = r'.arrivals := by
  have hrun : Lib.Runs (Receiver.Step Env.reliable .unsigned .littleEndian)
      (Receiver.fresh 5 none)
      (Lib.trace (Receiver.next Env.reliable .unsigned .littleEndian) (Receiver.fresh 5 none)
        twoReceived)
      (twoReceived.foldl (Receiver.next Env.reliable .unsigned .littleEndian)
        (Receiver.fresh 5 none)) := by
    have hadm : ∀ x ∈ Lib.trace (Receiver.next Env.reliable .unsigned .littleEndian)
        (Receiver.fresh 5 none) twoReceived, x.pre.Admissible x.event := by
      simp only [twoReceived, MQTTClients.connects, List.map_cons, List.map_nil, List.cons_append,
        List.nil_append, Lib.trace, List.forall_mem_cons]
      refine ⟨?_, ?_, ?_, ?_, ?_, ?_, ?_, ?_, ?_, ?_, ?_, ?_, List.forall_mem_nil _⟩
      · exact trivial
      · exact fun h => absurd h (by decide)
      · refine ⟨trivial, ?_⟩
        intro pack hpack
        cases hpack
      · refine ⟨trivial, ?_⟩
        intro pack hpack
        cases hpack
      · refine ⟨trivial, ?_⟩
        rintro pack hpack
        obtain rfl := Call.packet.inj hpack
        exact ⟨rfl, rfl⟩
      · exact trivial
      · exact trivial
      · refine ⟨trivial, ?_⟩
        rintro pack hpack
        obtain rfl := Call.packet.inj hpack
        exact ⟨Option.isNone_iff_eq_none.mp (by decide +kernel), by decide +kernel⟩
      · exact trivial
      · exact trivial
      · exact fun _ => Option.isNone_iff_eq_none.mp (by decide +kernel)
      · change Receiver.running _ = false
        decide +kernel
    exact Lib.Runs.of_trace _ _ fun x hx => ⟨hadm x hx, Lib.post_of_mem_trace hx⟩
  obtain ⟨horderly, -, hall⟩ := handed_over_in_turn hrun (Receiver.fresh_created 5 none)
  refine ⟨_, rfl, rfl, horderly, hall ?_⟩
  simp only [twoReceived, MQTTClients.connects, List.map_cons, List.map_nil, List.cons_append,
    List.nil_append, Lib.trace, List.forall_mem_cons]
  refine ⟨?_, ?_, ?_, ?_, ?_, ?_, ?_, ?_, ?_, ?_, ?_, ?_, List.forall_mem_nil _⟩
  all_goals
    rintro ⟨e, he, hcleans⟩
    cases he
    try exact absurd hcleans (by decide)

end MQTTClient
end PahoMqtt
