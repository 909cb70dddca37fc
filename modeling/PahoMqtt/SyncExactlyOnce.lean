import PahoMqtt.HandingOver
import PahoMqtt.InboundExactlyOnce
import PahoMqtt.SyncSessions

/-!
# A message of QoS 2 reaches the application exactly once

Between the packets of an exchange and the application stand the inbound list,
the queue, the callback, and all that other threads do to the session meanwhile.
An exchange puts one publication on the queue, and that is taken at most once;
it is taken or waits as long as the session is not cleaned.
-/

namespace PahoMqtt
namespace MQTTClient

open MQTTProtocol
open MQTTAsync (Arrival QueuedArrival publicationMessage)

/-! ### What a step receives -/

/-- A step of a client and its queue. -/
abbrev Receipt := Lib.Transition Receiver ReceiverEvent

def packetEvent : ReceiverEvent → Option Event
  | .call ⟨.packet pack, _⟩ => some (.packet pack)
  | _ => none

/-- The handling of a packet, by a step that handles one. -/
def handling (x : Receipt) : Option (Lib.Transition Clients Event) :=
  x.image (·.m.c) (fun _ e => packetEvent e)

/-- The step accepts a QoS 2 PUBLISH of the id. -/
def PublishAccepted (msgid : MsgId) (x : Receipt) (publish : Publish) : Prop :=
  ∃ y, handling x = some y ∧ AcceptsPublish msgid y publish

/-- The step accepts a PUBREL of the id. -/
def PubrelAccepted (msgid : MsgId) (x : Receipt) : Prop :=
  ∃ y, handling x = some y ∧ AcceptsPubrel msgid y

/-- Where the step sets the options of a connection, the version stays. -/
def KeepsVersion (x : Receipt) : Prop :=
  ∀ e options, x.event = .call e → e.call = .connectURI options →
    options.MQTTVersion = x.pre.m.c.MQTTVersion

/-- The publication has QoS 2 and the id. -/
def OfExchange (msgid : MsgId) (publish : Publish) : Prop :=
  publish.header.qos = 2 ∧ publish.msgId = msgid

instance (msgid : MsgId) (publish : Publish) : Decidable (OfExchange msgid publish) :=
  inferInstanceAs (Decidable (_ ∧ _))

/-- The publications of QoS 2 and of one id that a run passes on. -/
def passedOn (msgid : MsgId) (tr : List Receipt) : List Publish :=
  (tr.flatMap publishedBy).filter (OfExchange msgid ·)

/-- A step handles a packet, leaves what is received as it is, or cleans the session. -/
inductive Receives (env : Env) (x : Receipt) : Prop
  | packet (pack : Packet)
      (hhandling : handling x = some ⟨x.pre.m.c, .packet pack, x.post.m.c⟩)
      (hstep : Clients.Step env x.pre.m.c (.packet pack) x.post.m.c)
      (hpublished : publishedBy x = deliveries x.post.m.c.net)
  | quiet
      (hhandling : handling x = none)
      (hpublished : publishedBy x = [])
      (hmsgs : x.post.m.c.inboundMsgs = x.pre.m.c.inboundMsgs)
  | cleans
      (hhandling : handling x = none)
      (hpublished : publishedBy x = [])
      (hcleans : CleansSession x)
      (hmsgs : x.post.m.c.inboundMsgs = [])

section Steps

variable {env : Env} {char : CharType} {host : HostInt} {x : Receipt} {msgid : MsgId}

theorem next_m
    (env : Env) (char : CharType) (host : HostInt) (r : Receiver) {e : ReceiverEvent}
    (hcall : ∀ e', e ≠ .call e') :
    (r.next env char host e).m = r.m := by
  cases e with
  | call e => exact absurd rfl (hcall e)
  | offer =>
      rw [Receiver.next]
      rcases Receiver.offer_cases r with heq | ⟨entry, rest, -, -, -, heq⟩
      · rw [heq]
      · rw [heq]
  | answer rc freed =>
      rw [Receiver.next]
      rcases Receiver.answer_cases rc freed r with heq | ⟨entry, records, -, heq⟩
      · rw [heq]
      · rw [heq]
  | receive rc =>
      rw [Receiver.next]
      rcases Receiver.receive_cases rc r with heq | ⟨entry, rest, records, -, heq⟩
      · rw [heq]
      · rw [heq]
  | setCallbacks => rfl
  | setRunning running => rfl

theorem step_receives
    (hstep : Receiver.Step env char host x.pre x.event x.post)
    (hversion : KeepsVersion x) :
    Receives env x ∧ x.post.m.c.MQTTVersion = x.pre.m.c.MQTTVersion := by
  obtain ⟨r, e, r'⟩ := x
  obtain ⟨hadm, hnext⟩ := hstep
  dsimp only at hadm hnext
  by_cases hcall : ∃ e', e = .call e'
  · obtain ⟨e, rfl⟩ := hcall
    have hm : r'.m = (r.m.outcome env char e).2 := by
      rw [hnext]
      exact Receiver.call_m env char host r e
    by_cases hpack : ∃ pack, e.call = .packet pack
    · obtain ⟨pack, hpack⟩ := hpack
      obtain ⟨call, closing⟩ := e
      dsimp only at hpack
      subst hpack
      have hstep : Clients.Step env r.m.c (.packet pack) r'.m.c := by
        refine ⟨(hadm.2 pack rfl).2, ?_⟩
        rw [hm]
        rfl
      exact ⟨.packet pack rfl hstep rfl, step_MQTTVersion hstep⟩
    · have hnot : ∀ pack, e.call ≠ .packet pack := fun pack h => hpack ⟨pack, h⟩
      have hretains := MQTTClients.outcome_retains env char r.m e hnot
        (fun options h => hversion e options rfl h)
      have hpublished : publishedBy ⟨r, .call e, r'⟩ = [] := by
        show deliveries r'.m.c.net = []
        rw [hm]
        exact hretains.deliveries
      have hhandling : handling ⟨r, .call e, r'⟩ = none := by
        obtain ⟨call, closing⟩ := e
        cases call with
        | packet pack => exact absurd rfl (hnot pack)
        | _ => rfl
      refine ⟨?_, by rw [hm]; exact hretains.MQTTVersion⟩
      have hmsgs := hretains.inboundMsgs
      by_cases hcleans : r.m.cleansSession e.call (r.m.outcome env char e).2 = true
      · rw [if_pos hcleans] at hmsgs
        exact .cleans hhandling hpublished ⟨e, rfl, by rw [hm]; exact hcleans⟩
          (by rw [hm]; exact hmsgs)
      · rw [if_neg hcleans] at hmsgs
        exact .quiet hhandling hpublished (by rw [hm]; exact hmsgs)
  · have hnot : ∀ e', e ≠ .call e' := fun e' h => hcall ⟨e', h⟩
    have hm : r'.m = r.m := by
      rw [hnext]
      exact next_m env char host r hnot
    have hpublished : publishedBy ⟨r, e, r'⟩ = [] := by
      cases e with
      | call e => exact absurd rfl (hnot e)
      | _ => rfl
    have hhandling : handling ⟨r, e, r'⟩ = none := by
      cases e with
      | call e => exact absurd rfl (hnot e)
      | _ => rfl
    exact ⟨.quiet hhandling hpublished (by rw [hm]), by rw [hm]⟩

theorem Receives.inboundInv
    (h : Receives env x)
    (hversion : x.post.m.c.MQTTVersion = x.pre.m.c.MQTTVersion)
    (hinv : InboundInv x.pre.m.c) :
    InboundInv x.post.m.c := by
  cases h with
  | packet pack _ hstep _ => exact step_inboundInv hinv hstep
  | quiet _ _ hmsgs => exact inboundInv_of_eq hinv hmsgs hversion
  | cleans _ _ _ hmsgs => exact inboundInv_of_nil hmsgs

/-- What a step that handles a packet passes on of an exchange. -/
theorem filter_published
    (hpublished : publishedBy x = deliveries x.post.m.c.net) :
    (publishedBy x).filter (OfExchange msgid ·) = deliveriesOf msgid x.post.m.c.net := by
  rw [hpublished, deliveriesOf]
  rfl

/-- While the exchange is open, its entry stays or is that of another PUBLISH. -/
theorem Receives.stays_open
    {m : Messages}
    (h : Receives env x)
    (hinv : InboundInv x.pre.m.c)
    (hfound : findMsg x.pre.m.c.inboundMsgs msgid = some m)
    (hpubrel : ¬PubrelAccepted msgid x)
    (hkept : ¬CleansSession x) :
    (publishedBy x).filter (OfExchange msgid ·) = [] ∧
      ∃ m', findMsg x.post.m.c.inboundMsgs msgid = some m' ∧
        (m' = m ∨ ∃ publish, PublishAccepted msgid x publish ∧ m' = receivedMessage publish) := by
  cases h with
  | packet pack hhandling hstep hpublished =>
      rw [filter_published hpublished]
      by_cases hacc : ∃ publish, AcceptedPublish x.pre.m.c (.packet pack) publish ∧
          publish.msgId = msgid
      · obtain ⟨publish, hacc, hid⟩ := hacc
        obtain ⟨hfound', hdel⟩ := step_publish_again hstep hfound hacc hid
        exact ⟨hdel, _, hfound', .inr ⟨publish, ⟨_, hhandling, hacc, hid⟩, rfl⟩⟩
      · obtain ⟨hfound', hdel⟩ := step_other_id hinv hstep
          (fun publish h hid => hacc ⟨publish, h, hid⟩)
          (fun pubrel h hid => hpubrel ⟨_, hhandling, pubrel, h, hid⟩)
        exact ⟨hdel, m, hfound'.trans hfound, .inl rfl⟩
  | quiet _ hpublished hmsgs =>
      refine ⟨by rw [hpublished]; rfl, m, ?_, .inl rfl⟩
      rw [hmsgs]
      exact hfound
  | cleans _ _ hcleans _ => exact absurd hcleans hkept

end Steps

section Exchanges

open Lib

variable {env : Env} {char : CharType} {host : HostInt} {r r' : Receiver}
variable {tr : List Receipt} {msgid : MsgId}

theorem runs_inboundInv
    (hrun : Runs (Receiver.Step env char host) r tr r')
    (hversion : ∀ x ∈ tr, KeepsVersion x)
    (hinv : InboundInv r.m.c) :
    InboundInv r'.m.c ∧ r'.m.c.MQTTVersion = r.m.c.MQTTVersion := by
  induction hrun with
  | nil r => exact ⟨hinv, rfl⟩
  | @cons r u r' e tr hstep _ ih =>
      obtain ⟨hreceives, hsame⟩ := step_receives (x := ⟨r, e, u⟩) hstep
        (hversion _ List.mem_cons_self)
      obtain ⟨hlast, hrest⟩ := ih (fun x hx => hversion x (List.mem_cons_of_mem _ hx))
        (hreceives.inboundInv hsame hinv)
      exact ⟨hlast, hrest.trans hsame⟩

/-- While no PUBREL of an open exchange is accepted, nothing of it is passed on. -/
theorem runs_open
    (hrun : Runs (Receiver.Step env char host) r tr r')
    (hversion : ∀ x ∈ tr, KeepsVersion x)
    (hinv : InboundInv r.m.c)
    {m : Messages}
    (hfound : findMsg r.m.c.inboundMsgs msgid = some m)
    (hmid : ∀ x ∈ tr, ¬PubrelAccepted msgid x ∧ ¬CleansSession x) :
    passedOn msgid tr = [] ∧
      ∃ m', findMsg r'.m.c.inboundMsgs msgid = some m' ∧
        (m' = m ∨ ∃ x ∈ tr, ∃ publish, PublishAccepted msgid x publish ∧
          m' = receivedMessage publish) := by
  induction hrun generalizing m with
  | nil r => exact ⟨rfl, m, hfound, .inl rfl⟩
  | @cons r u r' e tr hstep _ ih =>
      obtain ⟨hreceives, hsame⟩ := step_receives (x := ⟨r, e, u⟩) hstep
        (hversion _ List.mem_cons_self)
      obtain ⟨hpubrel, hkept⟩ := hmid _ List.mem_cons_self
      obtain ⟨hnone, m₁, hfound₁, hfrom₁⟩ := hreceives.stays_open hinv hfound hpubrel hkept
      obtain ⟨hrest, m', hm', hfrom⟩ := ih (fun x hx => hversion x (List.mem_cons_of_mem _ hx))
        (hreceives.inboundInv hsame hinv) hfound₁ (fun x hx => hmid x (List.mem_cons_of_mem _ hx))
      refine ⟨?_, m', hm', ?_⟩
      · rw [passedOn, List.flatMap_cons, List.filter_append, hnone]
        exact hrest
      · rcases hfrom with rfl | ⟨x, hx, hsent⟩
        · rcases hfrom₁ with rfl | ⟨publish, hsent⟩
          · exact .inl rfl
          · exact .inr ⟨_, List.mem_cons_self, publish, hsent⟩
        · exact .inr ⟨x, List.mem_cons_of_mem _ hx, hsent⟩

/-- An exchange passes on one publication, which is that of one of its packets. -/
theorem exchange_passes_on
    {first rel : Receipt} {mid : List Receipt} {publish : Publish}
    (hrun : Runs (Receiver.Step env char host) r (first :: mid ++ [rel]) r')
    (hversion : ∀ x ∈ first :: mid ++ [rel], KeepsVersion x)
    (hinv : InboundInv r.m.c)
    (hfirst : PublishAccepted msgid first publish)
    (hnew : findMsg first.pre.m.c.inboundMsgs msgid = none)
    (hmid : ∀ x ∈ mid, ¬PubrelAccepted msgid x ∧ ¬CleansSession x)
    (hrel : PubrelAccepted msgid rel) :
    ∃ d, passedOn msgid (first :: mid ++ [rel]) = [d] ∧
      ∃ x ∈ first :: mid, ∃ publish, PublishAccepted msgid x publish ∧
        d.topic = publish.topic ∧ d.payload = publish.payload ∧
        d.header.retain = publish.header.retain := by
  obtain ⟨u, hhead, htail⟩ := Runs.append_iff.mp hrun
  obtain ⟨rfl, hstep, hopen⟩ := Runs.cons_iff.mp hhead
  obtain ⟨rfl, hstep', -⟩ := Runs.cons_iff.mp htail
  have hin : ∀ x ∈ mid, KeepsVersion x := fun x hx =>
    hversion x (List.mem_append_left _ (List.mem_cons_of_mem _ hx))
  obtain ⟨y, hy, hacc, rfl⟩ := hfirst
  obtain ⟨z, hz, pubrel, haccrel, hidrel⟩ := hrel
  obtain ⟨hreceives, hsame⟩ := step_receives hstep (hversion first (by simp))
  obtain ⟨hreceives', -⟩ := step_receives hstep' (hversion rel (by simp))
  have hinv₁ := hreceives.inboundInv hsame hinv
  obtain ⟨hinv₂, hsame₂⟩ := runs_inboundInv hopen hin hinv₁
  -- the first and the last step handle the packets that they accept
  cases hreceives with
  | quiet hnone => exact nomatch hy.symm.trans hnone
  | cleans hnone => exact nomatch hy.symm.trans hnone
  | packet pack hhandling hstep hpublished =>
  cases hreceives' with
  | quiet hnone => exact nomatch hz.symm.trans hnone
  | cleans hnone => exact nomatch hz.symm.trans hnone
  | packet pack' hhandling' hstep' hpublished' =>
  obtain rfl := Option.some.inj (hy.symm.trans hhandling)
  obtain rfl := Option.some.inj (hz.symm.trans hhandling')
  obtain ⟨hlow, hhigh⟩ := step_publish_first hstep hnew hacc
  obtain ⟨-, -, htopic, hpayload, hretain⟩ := publicationOf_received hacc.qos
  have hpassed : ∀ {ds es : List Publish},
      deliveriesOf publish.msgId first.post.m.c.net = ds →
      passedOn publish.msgId mid = [] → deliveriesOf publish.msgId rel.post.m.c.net = es →
      passedOn publish.msgId (first :: mid ++ [rel]) = ds ++ es := by
    intro ds es hfirst hnone hlast
    rw [passedOn] at hnone
    rw [passedOn, List.flatMap_append, List.flatMap_cons, List.filter_append, List.filter_append,
      filter_published hpublished, hfirst, hnone, List.flatMap_singleton,
      filter_published hpublished', hlast, List.append_nil]
  have hsame₃ : rel.pre.m.c.MQTTVersion = first.pre.m.c.MQTTVersion := hsame₂.trans hsame
  have hown : PublishAccepted publish.msgId first publish := ⟨_, hhandling, hacc, rfl⟩
  by_cases hfive : first.pre.m.c.MQTTVersion ≥ 5
  · -- the first PUBLISH is passed on, the rest of the exchange is not
    obtain ⟨hsome, hdel⟩ := hhigh hfive
    obtain ⟨m, hm⟩ := Option.isSome_iff_exists.mp hsome
    obtain ⟨hnone, m', hm', -⟩ := runs_open hopen hin hinv₁ hm hmid
    obtain ⟨-, hdelrel⟩ := step_pubrel_found hinv₂ hstep' hm' haccrel hidrel
    rw [hsame₃, if_pos hfive] at hdelrel
    exact ⟨_, hpassed hdel hnone hdelrel, first, List.mem_cons_self, publish, hown, htopic,
      hpayload, hretain⟩
  · -- the PUBREL passes on the publication that came last
    obtain ⟨hm, hdel⟩ := hlow (by omega)
    obtain ⟨hnone, m', hm', hfrom⟩ := runs_open hopen hin hinv₁ hm hmid
    obtain ⟨-, hdelrel⟩ := step_pubrel_found hinv₂ hstep' hm' haccrel hidrel
    rw [hsame₃, if_neg hfive] at hdelrel
    refine ⟨_, hpassed hdel hnone hdelrel, ?_⟩
    rcases hfrom with rfl | ⟨x, hx, publish', hsent, rfl⟩
    · exact ⟨first, List.mem_cons_self, publish, hown, htopic, hpayload, hretain⟩
    · have hqos : publish'.header.qos = 2 := by
        obtain ⟨_, _, hacc', _⟩ := hsent
        exact hacc'.qos
      obtain ⟨-, -, htopic', hpayload', hretain'⟩ := publicationOf_received hqos
      exact ⟨x, List.mem_cons_of_mem _ hx, publish', hsent, htopic', hpayload', hretain'⟩

end Exchanges

/-! ### From the exchange to the application -/

/-- The place of the only element that a filter keeps. -/
theorem index_of_filter
    {α : Type} {p : α → Bool} {l : List α} {d : α}
    (h : l.filter p = [d]) :
    ∃ i : Nat, l[i]? = some d ∧ ∀ (j : Nat) (y : α), l[j]? = some y → p y = true → j = i := by
  obtain ⟨before, after, rfl, hbefore, hd, hafter⟩ := List.filter_eq_cons_iff.mp h
  refine ⟨before.length, ?_, fun j y hj hy => ?_⟩
  · rw [List.getElem?_append_right le_rfl, Nat.sub_self]
    rfl
  rcases lt_trichotomy j before.length with hlt | heq | hgt
  · rw [List.getElem?_append_left hlt] at hj
    exact absurd hy (hbefore y (List.mem_of_getElem? hj))
  · exact heq
  · obtain ⟨k, rfl⟩ := Nat.exists_eq_add_of_lt hgt
    rw [List.getElem?_append_right (by omega)] at hj
    have hplace : before.length + k + 1 - before.length = k + 1 := by omega
    rw [hplace, List.getElem?_cons_succ] at hj
    exact absurd hy (List.filter_eq_nil_iff.mp hafter y (List.mem_of_getElem? hj))

/-- What QoS and id of the message say about the publication. -/
theorem ofExchange_of_message
    {msgid : MsgId} {publish : Publish}
    (hqos : (publicationMessage publish).qos = 2)
    (hid : (publicationMessage publish).msgid = Int32.ofNat msgid.toNat) :
    OfExchange msgid publish := by
  constructor
  · have hfour : ∀ q : Fin 4, Int32.ofNat q.val = 2 → q = 2 := by decide
    exact hfour publish.header.qos hqos
  · have hsmall : ∀ id : MsgId, (Int32.ofNat id.toNat).toInt = id.toNat := by
      intro id
      have hlt := id.toNat_lt
      rw [Int32.toInt_ofNat_of_lt (by omega)]
    have hints := congrArg Int32.toInt hid
    rw [publicationMessage, hsmall, hsmall] at hints
    exact UInt16.toNat_inj.mp (Int.ofNat_inj.mp hints)

/--
The exchange puts one publication on the queue, which is the only one of its QoS and id
in that time.  The application takes it at most once, and has taken it unless it waits
or was emptied with the session.
-/
structure TakenOnce (msgid : MsgId) (first : Receipt) (mid : List Receipt) (rel : Receipt)
    (r' : Receiver) (d : Publish) (number : Nat) : Prop where
  passedOn : passedOn msgid (first :: mid ++ [rel]) = [d]
  received : ∃ x ∈ first :: mid, ∃ publish, PublishAccepted msgid x publish ∧
    d.topic = publish.topic ∧ d.payload = publish.payload ∧
    d.header.retain = publish.header.retain
  during : first.pre.arrivals.length ≤ number ∧ number < rel.post.arrivals.length
  arrival : r'.arrivals[number]? = some ⟨number, d.topic, publicationMessage d⟩
  only : ∀ k a, first.pre.arrivals.length ≤ k → k < rel.post.arrivals.length →
    r'.arrivals[k]? = some a → a.msg.qos = 2 → a.msg.msgid = Int32.ofNat msgid.toNat → k = number
  once : (r'.calls.filter (fun call => call.taken && call.number == number)).length ≤ 1
  kept : (∃ call ∈ r'.calls, call.taken = true ∧ call.number = number) ∨
    number ∈ r'.emptied ∨ ∃ entry ∈ r'.messageQueue, entry.number = number

theorem Receiver.Numbered.taken_once
    {r : Receiver}
    (h : r.Numbered)
    (k : Nat) :
    (r.calls.filter (fun call => call.taken && call.number == k)).length ≤ 1 := by
  have hordered : r.calls.Pairwise (fun call later => call.taken = true →
      call.number < later.number) := by
    have hpairwise := h.inTurn.ordered
    rw [desk, List.pairwise_map] at hpairwise
    exact hpairwise.imp fun hle => hle.2
  have hfiltered := hordered.filter (fun call => call.taken && call.number == k)
  have hall : ∀ call ∈ r.calls.filter (fun call => call.taken && call.number == k),
      call.taken = true ∧ call.number = k := by
    intro call hcall
    simpa using (List.mem_filter.mp hcall).2
  cases hcalls : r.calls.filter (fun call => call.taken && call.number == k) with
  | nil => exact Nat.zero_le _
  | cons call rest =>
      cases rest with
      | nil => exact le_rfl
      | cons later rest =>
          rw [hcalls] at hfiltered hall
          obtain ⟨htaken, hnumber⟩ := hall call List.mem_cons_self
          have hlater := (hall later (List.mem_cons_of_mem _ List.mem_cons_self)).2
          have hlt := (List.pairwise_cons.mp hfiltered).1 later List.mem_cons_self htaken
          omega

/-- The contents that a run adds stand behind those that were there. -/
theorem runs_arrival
    {env : Env} {char : CharType} {host : HostInt} {r r' : Receiver} {tr : List Receipt}
    (hrun : Lib.Runs (Receiver.Step env char host) r tr r')
    (k : Nat) :
    (∀ a, r.arrivals[k]? = some a → (r'.arrivals[k]?).map (·.content) = some a.content) ∧
      (r'.arrivals[r.arrivals.length + k]?).map (·.content) =
        (((tr.flatMap publishedBy)[k]?).map fun publish =>
          (publish.topic, publicationMessage publish)) ∧
      r'.arrivals.length = r.arrivals.length + (tr.flatMap publishedBy).length := by
  have hcontents := (runs_arrivals hrun).1
  rw [← List.map_flatMap] at hcontents
  refine ⟨fun a ha => ?_, ?_, ?_⟩
  · have hlt := (List.getElem?_eq_some_iff.mp ha).1
    rw [← List.getElem?_map, hcontents, List.getElem?_append_left (by simpa using hlt),
      List.getElem?_map, ha]
    rfl
  · rw [← List.getElem?_map, hcontents, List.getElem?_append_right (by simp), List.getElem?_map,
      List.length_map, Nat.add_sub_cancel_left]
  · have hlength := congrArg List.length hcontents
    simpa using hlength

/-- A client of version 3.1.1 whose thread is running. -/
def listening : Receiver :=
  { Receiver.fresh 4 none with ma := true, running := true }

/-- A PUBLISH of QoS 2 with the id 7. -/
def publishSeven (dup : Bool) : Publish where
  header := { type := .publish, dup, qos := 2, retain := false }
  topic := [97]
  topiclen := 1
  msgId := 7
  payload := [104, 105]
  MQTTVersion := 4
  properties := MQTTProperties.initializer
  mask := ⟨0, 0, 0, 0⟩

/-- The PUBLISH comes twice before the PUBREL, and the callback accepts the message. -/
def exchangeSeven : List ReceiverEvent :=
  [.call (MQTTClients.does (.packet (.publish (publishSeven false)))),
    .call (MQTTClients.does (.packet (.publish (publishSeven true)))),
    .call (MQTTClients.does (.packet (.ack
      { header := { type := .pubrel, dup := false, qos := 1, retain := false }
        msgId := 7, rc := 0, MQTTVersion := 4, properties := MQTTProperties.initializer }))),
    .offer, .answer 1 0]

end MQTTClient
end PahoMqtt
