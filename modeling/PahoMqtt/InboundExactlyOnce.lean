import PahoMqtt.Inbound

/-!
# Inbound QoS 2 publications are delivered exactly once

An exchange of an id begins with an accepted PUBLISH of the id when it is not in
the inbound list and ends with the next accepted PUBREL of it.  Between the two
the id stays in the list, with the publication that came last.  Before MQTT 5
the PUBREL delivers that publication; from MQTT 5 on the first PUBLISH has
delivered its own.

The runs may hold any other events of the client as well: other packets,
publications of its own, retries, disconnections.
-/

namespace PahoMqtt

open MQTTProtocol

abbrev ClientRun := List (Lib.Transition Clients Event)

/-- The QoS 2 deliveries of one id in a step. -/
def deliveriesOf (msgid : MsgId) (net : Net) : List Publish :=
  (deliveries net).filter (fun d => d.header.qos = 2 ∧ d.msgId = msgid)

/-- The QoS 2 deliveries of one id in a run. -/
def runDeliveriesOf (msgid : MsgId) (tr : ClientRun) : List Publish :=
  tr.flatMap (fun x => deliveriesOf msgid x.post.net)

/-- The step accepts a QoS 2 PUBLISH of the id. -/
def AcceptsPublish (msgid : MsgId) (x : Lib.Transition Clients Event) (publish : Publish) : Prop :=
  AcceptedPublish x.pre x.event publish ∧ publish.msgId = msgid

/-- The step accepts a PUBREL of the id. -/
def AcceptsPubrel (msgid : MsgId) (x : Lib.Transition Clients Event) : Prop :=
  ∃ pubrel, AcceptedPubrel x.pre x.event pubrel ∧ pubrel.msgId = msgid

section Steps

variable {env : Env} {client client' : Clients} {e : Event} {msgid : MsgId}

theorem publicationOf_received
    {publish : Publish}
    (hqos : publish.header.qos = 2) :
    (publicationOf (receivedMessage publish)).header.qos = 2 ∧
      (publicationOf (receivedMessage publish)).msgId = publish.msgId ∧
      (publicationOf (receivedMessage publish)).topic = publish.topic ∧
      (publicationOf (receivedMessage publish)).payload = publish.payload ∧
      (publicationOf (receivedMessage publish)).header.retain = publish.header.retain := by
  refine ⟨?_, rfl, rfl, rfl, rfl⟩
  show Fin.ofNat 4 publish.header.qos.val = 2
  rw [hqos]
  rfl

theorem findMsg_receivedMsgs_ne
    {msgs : List Messages} {publish : Publish}
    (hne : publish.msgId ≠ msgid) :
    findMsg (receivedMsgs msgs publish) msgid = findMsg msgs msgid := by
  have hid : ∀ p, ({ receivedMessage publish with publish := p } : Messages).msgid ≠ msgid :=
    fun _ => hne
  have hmodify := findMsg_modifyMsg msgs publish.msgId msgid (fun _ => receivedMessage publish)
    (fun _ _ => rfl)
  unfold receivedMsgs
  split
  · rw [hmodify, if_neg (Ne.symm hne)]
  · split
    · rw [findMsg_append, if_neg (hid none), Option.or_none]
    · rw [findMsg_append, if_neg (hid _), Option.or_none]

/-- A step that accepts no packet of the id leaves the id as it is and delivers nothing of it. -/
theorem step_other_id
    (hinv : InboundInv client)
    (hstep : client.Step env e client')
    (hpublish : ∀ publish, AcceptedPublish client e publish → publish.msgId ≠ msgid)
    (hpubrel : ∀ pubrel, AcceptedPubrel client e pubrel → pubrel.msgId ≠ msgid) :
    findMsg client'.inboundMsgs msgid = findMsg client.inboundMsgs msgid ∧
      deliveriesOf msgid client'.net = [] := by
  by_cases hacc : ∃ publish, AcceptedPublish client e publish
  · obtain ⟨publish, hacc⟩ := hacc
    have hne := hpublish publish hacc
    obtain ⟨hmsgs, hdel⟩ := step_acceptedPublish hstep hacc
    refine ⟨by rw [hmsgs, findMsg_receivedMsgs_ne hne], ?_⟩
    have hid := (publicationOf_received hacc.qos).2.1
    rw [deliveriesOf, hdel]
    split
    · rfl
    · simp [hid, hne]
  · by_cases hrel : ∃ pubrel, AcceptedPubrel client e pubrel
    · obtain ⟨pubrel, hrel⟩ := hrel
      have hne := hpubrel pubrel hrel
      obtain ⟨hmsgs, hdel⟩ := step_acceptedPubrel hinv hstep hrel
      refine ⟨by rw [hmsgs, findMsg_removeMsg, if_neg (Ne.symm hne)], ?_⟩
      rw [deliveriesOf, hdel]
      cases hfound : findMsg client.inboundMsgs pubrel.msgId with
      | none =>
          rfl
      | some m =>
          have hid : (publicationOf m).msgId = pubrel.msgId := (findMsg_eq_some hfound).2
          by_cases hfive : m.MQTTVersion ≥ 5
          · simp [hfive]
          · simp [hfive, hid, hne]
    · obtain ⟨hmsgs, hdel⟩ := step_not_accepted hstep (fun p h => hacc ⟨p, h⟩)
        (fun a h => hrel ⟨a, h⟩)
      refine ⟨by rw [hmsgs], ?_⟩
      rw [deliveriesOf, List.filter_eq_nil_iff]
      intro d hd
      simp [hdel d hd]

/-- A PUBREL of an id that is not in the list delivers nothing. -/
theorem step_pubrel_absent
    (hinv : InboundInv client)
    (hstep : client.Step env e client')
    (hnone : findMsg client.inboundMsgs msgid = none)
    (hpublish : ∀ publish, AcceptedPublish client e publish → publish.msgId ≠ msgid) :
    findMsg client'.inboundMsgs msgid = none ∧ deliveriesOf msgid client'.net = [] := by
  by_cases hrel : ∃ pubrel, AcceptedPubrel client e pubrel ∧ pubrel.msgId = msgid
  · obtain ⟨pubrel, hrel, rfl⟩ := hrel
    obtain ⟨hmsgs, hdel⟩ := step_acceptedPubrel hinv hstep hrel
    refine ⟨by rw [hmsgs, findMsg_removeMsg, if_pos rfl], ?_⟩
    rw [deliveriesOf, hdel, hnone]
    rfl
  · have hother := step_other_id hinv hstep hpublish
      (fun pubrel h hid => hrel ⟨pubrel, h, hid⟩)
    exact ⟨hother.1.trans hnone, hother.2⟩

/-- A repeated PUBLISH replaces the publication where it stands and delivers nothing. -/
theorem step_publish_again
    {m : Messages} {publish : Publish}
    (hstep : client.Step env e client')
    (hfound : findMsg client.inboundMsgs msgid = some m)
    (hacc : AcceptedPublish client e publish)
    (hid : publish.msgId = msgid) :
    findMsg client'.inboundMsgs msgid = some (receivedMessage publish) ∧
      deliveriesOf msgid client'.net = [] := by
  subst hid
  obtain ⟨hmsgs, hdel⟩ := step_acceptedPublish hstep hacc
  have hsome : (findMsg client.inboundMsgs publish.msgId).isSome := by
    simp [hfound]
  have hmodify := findMsg_modifyMsg client.inboundMsgs publish.msgId publish.msgId
    (fun _ => receivedMessage publish) (fun _ _ => rfl)
  refine ⟨?_, ?_⟩
  · rw [hmsgs, receivedMsgs, if_pos hsome, hmodify, if_pos rfl, hfound]
    rfl
  · rw [deliveriesOf, hdel, if_pos (Or.inl hsome)]
    rfl

/-- The first PUBLISH puts the id into the list, and delivers from MQTT 5 on. -/
theorem step_publish_first
    {publish : Publish}
    (hstep : client.Step env e client')
    (hnone : findMsg client.inboundMsgs publish.msgId = none)
    (hacc : AcceptedPublish client e publish) :
    (client.MQTTVersion < 5 →
      findMsg client'.inboundMsgs publish.msgId = some (receivedMessage publish) ∧
        deliveriesOf publish.msgId client'.net = []) ∧
    (client.MQTTVersion ≥ 5 →
      (findMsg client'.inboundMsgs publish.msgId).isSome ∧
        deliveriesOf publish.msgId client'.net = [publicationOf (receivedMessage publish)]) := by
  obtain ⟨hmsgs, hdel⟩ := step_acceptedPublish hstep hacc
  have hversion : publish.MQTTVersion = client.MQTTVersion := by
    have hadm := hstep.1
    rw [hacc.event] at hadm
    exact hadm
  obtain ⟨hqos, hid, _⟩ := publicationOf_received hacc.qos
  rw [receivedMsgs, hversion] at hmsgs
  rw [hversion] at hdel
  constructor
  · intro hlt
    have hfive : ¬client.MQTTVersion ≥ 5 := by omega
    refine ⟨?_, ?_⟩
    · rw [hmsgs]
      simp [hnone, hfive, findMsg_append, receivedMessage]
    · rw [deliveriesOf, hdel, if_pos (Or.inr hlt)]
      rfl
  · intro hfive
    have hlt : ¬client.MQTTVersion < 5 := by omega
    refine ⟨?_, ?_⟩
    · rw [hmsgs]
      simp [hnone, hfive, findMsg_append, receivedMessage]
    · rw [deliveriesOf, hdel]
      simp [hnone, hlt, hqos, hid]

/-- The PUBREL takes the id off the list, and delivers before MQTT 5. -/
theorem step_pubrel_found
    {m : Messages} {pubrel : Ack}
    (hinv : InboundInv client)
    (hstep : client.Step env e client')
    (hfound : findMsg client.inboundMsgs msgid = some m)
    (hacc : AcceptedPubrel client e pubrel)
    (hid : pubrel.msgId = msgid) :
    findMsg client'.inboundMsgs msgid = none ∧
      deliveriesOf msgid client'.net =
        if client.MQTTVersion ≥ 5 then [] else [publicationOf m] := by
  subst hid
  obtain ⟨hmsgs, hdel⟩ := step_acceptedPubrel hinv hstep hacc
  obtain ⟨hmem, hmid⟩ := findMsg_eq_some hfound
  obtain ⟨hqos, _, hversion⟩ := hinv.entries m hmem
  have hpub : (publicationOf m).header.qos = 2 := by
    show Fin.ofNat 4 m.qos = 2
    rw [hqos]
    rfl
  have hpubid : (publicationOf m).msgId = pubrel.msgId := hmid
  refine ⟨by rw [hmsgs, findMsg_removeMsg, if_pos rfl], ?_⟩
  rw [deliveriesOf, hdel, hfound, ← hversion]
  by_cases hfive : m.MQTTVersion ≥ 5
  · simp [hfive]
  · simp [hfive, hpub, hpubid]

end Steps

section Runs

variable {env : Env} {s t : Clients} {msgid : MsgId} {tr : ClientRun}

/-- While no PUBLISH of an absent id is accepted, nothing of it is delivered. -/
theorem run_absent
    (hrun : Lib.Runs (Clients.Step env) s tr t)
    (hinv : InboundInv s)
    (hnone : findMsg s.inboundMsgs msgid = none)
    (hpublish : ∀ x ∈ tr, ∀ publish, ¬AcceptsPublish msgid x publish) :
    runDeliveriesOf msgid tr = [] := by
  induction hrun with
  | nil s =>
      rfl
  | @cons s u t e tr hstep _ ih =>
      have hhead := hpublish _ List.mem_cons_self
      obtain ⟨hnone', hdel⟩ := step_pubrel_absent hinv hstep hnone
        (fun publish hacc hid => hhead publish ⟨hacc, hid⟩)
      have htail := ih (step_inboundInv hinv hstep) hnone'
        (fun x hx => hpublish x (List.mem_cons_of_mem _ hx))
      simpa [runDeliveriesOf, hdel] using htail

/--
While no PUBREL of an id in the list is accepted, nothing of it is delivered,
and its entry is the one it had or that of an accepted PUBLISH of the run.
-/
theorem run_open
    (hrun : Lib.Runs (Clients.Step env) s tr t)
    (hinv : InboundInv s)
    {m : Messages}
    (hfound : findMsg s.inboundMsgs msgid = some m)
    (hpubrel : ∀ x ∈ tr, ¬AcceptsPubrel msgid x) :
    runDeliveriesOf msgid tr = [] ∧
      ∃ m', findMsg t.inboundMsgs msgid = some m' ∧
        (m' = m ∨ ∃ x ∈ tr, ∃ publish, AcceptsPublish msgid x publish ∧
          m' = receivedMessage publish) := by
  induction hrun generalizing m with
  | nil s =>
      exact ⟨rfl, m, hfound, Or.inl rfl⟩
  | @cons s u t e tr hstep _ ih =>
      have hhead := hpubrel _ List.mem_cons_self
      have hrest := fun x hx => hpubrel x (List.mem_cons_of_mem _ hx)
      have hinv' := step_inboundInv hinv hstep
      by_cases hacc : ∃ publish, AcceptedPublish s e publish ∧ publish.msgId = msgid
      · obtain ⟨publish, hacc, hid⟩ := hacc
        obtain ⟨hfound', hdel⟩ := step_publish_again hstep hfound hacc hid
        obtain ⟨htail, m', hm', hfrom⟩ := ih hinv' hfound' hrest
        refine ⟨by simpa [runDeliveriesOf, hdel] using htail, m', hm', Or.inr ?_⟩
        rcases hfrom with rfl | ⟨x, hx, hsent⟩
        · exact ⟨_, List.mem_cons_self, publish, ⟨hacc, hid⟩, rfl⟩
        · exact ⟨x, List.mem_cons_of_mem _ hx, hsent⟩
      · obtain ⟨hfound', hdel⟩ := step_other_id hinv hstep
          (fun publish h hid => hacc ⟨publish, h, hid⟩)
          (fun pubrel h hid => hhead ⟨pubrel, h, hid⟩)
        obtain ⟨htail, m', hm', hfrom⟩ := ih hinv' (hfound'.trans hfound) hrest
        refine ⟨by simpa [runDeliveriesOf, hdel] using htail, m', hm', ?_⟩
        rcases hfrom with rfl | ⟨x, hx, hsent⟩
        · exact Or.inl rfl
        · exact Or.inr ⟨x, List.mem_cons_of_mem _ hx, hsent⟩

end Runs

/-! ### The whole exchange -/

/-- A QoS 2 PUBLISH or a PUBREL. -/
def Packet.OfInboundQoS2 : Packet → Prop
  | .publish pack => pack.header.qos = 2
  | .ack pack => pack.header.type = .pubrel

/-- A PUBREL that is not answered: its id is not in the list and it is not a duplicate. -/
def Packet.Unanswered (client : Clients) : Packet → Prop
  | .publish _ => False
  | .ack pack => findMsg client.inboundMsgs pack.msgId = none ∧ pack.header.dup = false

/-- What comes during an unfinished write changes nothing, and is refused if it asks for an ack. -/
theorem handle_busy
    (env : Env) (client : Clients) (pack : Packet)
    (hpack : pack.OfInboundQoS2)
    (hentries : InboundInv client)
    (hbusy : client.net.writePending = true) :
    (client.outcome env (.packet pack)).2 = client.start ∧
      (¬pack.Unanswered client → (client.outcome env (.packet pack)).1 = SOCKET_ERROR) := by
  have hpending : Socket.noPendingWrites client.start.net = false := by
    simpa [Socket.noPendingWrites, Clients.start] using hbusy
  have hlist : client.start.inboundMsgs = client.inboundMsgs := rfl
  cases pack with
  | publish publish =>
      have hqos : publish.header.qos = 2 := hpack
      simp [Clients.outcome, Clients.handle, handlePublishes, hqos, hpending]
  | ack pubrel =>
      have htype : pubrel.header.type = .pubrel := hpack
      simp only [Clients.outcome, Clients.handle, htype, handlePubrels, hlist, Packet.Unanswered]
      cases hfound : findMsg client.inboundMsgs pubrel.msgId with
      | none =>
          cases hdup : pubrel.header.dup <;> simp [hpending]
      | some m =>
          obtain ⟨hqos, hnext, _⟩ := hentries.entries m (findMsg_eq_some hfound).1
          simp [hqos, hnext, hpending]

/-- The one delivery `d` of an exchange, and that none follows before the id is used again. -/
structure DeliveredOnce (MQTTVersion : Nat) (msgid : MsgId)
    (first : Lib.Transition Clients Event) (mid : ClientRun)
    (rel : Lib.Transition Clients Event) (post : ClientRun) (d : Publish) : Prop where
  once : runDeliveriesOf msgid (first :: mid ++ [rel]) = [d]
  received : ∃ x ∈ first :: mid, ∃ publish, AcceptsPublish msgid x publish ∧
    d.topic = publish.topic ∧ d.payload = publish.payload ∧
    d.header.retain = publish.header.retain
  at_pubrel : MQTTVersion < 5 → runDeliveriesOf msgid [rel] = [d]
  at_publish : MQTTVersion ≥ 5 → runDeliveriesOf msgid [first] = [d]
  not_again : ∀ rest, rest <+: post → (∀ x ∈ rest, ∀ publish, ¬AcceptsPublish msgid x publish) →
    runDeliveriesOf msgid rest = []

theorem exchange_delivered_once
    {env : Env} {s t : Clients} {first rel : Lib.Transition Clients Event} {mid post : ClientRun}
    {publish : Publish} {msgid : MsgId}
    (hrun : Lib.Runs (Clients.Step env) s (first :: mid ++ rel :: post) t)
    (hinv : InboundInv s)
    (hfirst : AcceptsPublish msgid first publish)
    (hnew : findMsg first.pre.inboundMsgs msgid = none)
    (hmid : ∀ x ∈ mid, ¬AcceptsPubrel msgid x)
    (hrel : AcceptsPubrel msgid rel) :
    ∃ d, DeliveredOnce s.MQTTVersion msgid first mid rel post d := by
  obtain ⟨hacc, rfl⟩ := hfirst
  obtain ⟨u, hhead, htail⟩ := Lib.Runs.append_iff.mp hrun
  obtain ⟨rfl, hstep, hopen⟩ := Lib.Runs.cons_iff.mp hhead
  obtain ⟨rfl, hstep', hafter⟩ := Lib.Runs.cons_iff.mp htail
  obtain ⟨pubrel, haccrel, hidrel⟩ := hrel
  have hinv₁ := step_inboundInv hinv hstep
  have hinv₂ := (run_inboundInv hopen hinv₁).2
  have hinv₃ := step_inboundInv hinv₂ hstep'
  have hversion : rel.pre.MQTTVersion = first.pre.MQTTVersion :=
    (run_MQTTVersion hopen).2.trans (step_MQTTVersion hstep)
  obtain ⟨hlow, hhigh⟩ := step_publish_first hstep hnew hacc
  have hagain : ∀ rest, rest <+: post →
      (∀ x ∈ rest, ∀ p, ¬AcceptsPublish publish.msgId x p) →
      findMsg rel.post.inboundMsgs publish.msgId = none →
      runDeliveriesOf publish.msgId rest = [] := by
    intro rest hbegins hnone hgone
    obtain ⟨more, rfl⟩ := hbegins
    obtain ⟨_, hrest, _⟩ := Lib.Runs.append_iff.mp hafter
    exact run_absent hrest hinv₃ hgone hnone
  by_cases hfive : first.pre.MQTTVersion ≥ 5
  · -- the first PUBLISH delivers, the rest of the exchange does not
    obtain ⟨hsome, hdel⟩ := hhigh hfive
    obtain ⟨m, hm⟩ := Option.isSome_iff_exists.mp hsome
    obtain ⟨hnone, m', hm', _⟩ := run_open hopen hinv₁ hm hmid
    obtain ⟨hgone, hdelrel⟩ := step_pubrel_found hinv₂ hstep' hm' haccrel hidrel
    rw [hversion, if_pos hfive] at hdelrel
    obtain ⟨_, _, htopic, hpayload, hretain⟩ := publicationOf_received hacc.qos
    refine ⟨publicationOf (receivedMessage publish), ?_, ?_, ?_, ?_, ?_⟩
    · simp only [runDeliveriesOf] at hnone
      simp [runDeliveriesOf, hdel, hnone, hdelrel]
    · exact ⟨first, List.mem_cons_self, publish, ⟨hacc, rfl⟩, htopic, hpayload, hretain⟩
    · intro hlt
      omega
    · intro _
      simp [runDeliveriesOf, hdel]
    · exact fun rest hbegins hrest => hagain rest hbegins hrest hgone
  · -- the PUBREL delivers the publication that came last
    have hlt : first.pre.MQTTVersion < 5 := by omega
    obtain ⟨hm, hdel⟩ := hlow hlt
    obtain ⟨hnone, m', hm', hfrom⟩ := run_open hopen hinv₁ hm hmid
    obtain ⟨hgone, hdelrel⟩ := step_pubrel_found hinv₂ hstep' hm' haccrel hidrel
    rw [hversion, if_neg hfive] at hdelrel
    refine ⟨publicationOf m', ?_, ?_, ?_, ?_, ?_⟩
    · simp only [runDeliveriesOf] at hnone
      simp [runDeliveriesOf, hdel, hnone, hdelrel]
    · rcases hfrom with rfl | ⟨x, hx, p, hp, rfl⟩
      · obtain ⟨_, _, htopic, hpayload, hretain⟩ := publicationOf_received hacc.qos
        exact ⟨first, List.mem_cons_self, publish, ⟨hacc, rfl⟩, htopic, hpayload, hretain⟩
      · obtain ⟨_, _, htopic, hpayload, hretain⟩ := publicationOf_received hp.1.qos
        exact ⟨x, List.mem_cons_of_mem _ hx, p, hp, htopic, hpayload, hretain⟩
    · intro _
      simp [runDeliveriesOf, hdelrel]
    · intro hge
      omega
    · exact fun rest hbegins hrest => hagain rest hbegins hrest hgone

/--
Inbound QoS 2, over every run from an inbound list in order, such as the empty
one: the list never holds an id twice; a packet that comes during an unfinished
write changes nothing; and every exchange delivers exactly once.
-/
theorem inbound_exactly_once
    (env : Env)
    {s t : Clients} {tr : ClientRun}
    (hrun : Lib.Runs (Clients.Step env) s tr t)
    (hinv : InboundInv s) :
    (∀ x ∈ tr, (msgIds x.pre.inboundMsgs).Nodup ∧ (msgIds x.post.inboundMsgs).Nodup) ∧
    (∀ x ∈ tr, ∀ pack, x.event = .packet pack → pack.OfInboundQoS2 →
      x.pre.net.writePending = true →
        x.post = x.pre.start ∧
          (¬pack.Unanswered x.pre → (x.pre.outcome env x.event).1 = SOCKET_ERROR)) ∧
    ∀ pre first mid rel post publish msgid,
      tr = pre ++ (first :: mid ++ rel :: post) →
      AcceptsPublish msgid first publish →
      findMsg first.pre.inboundMsgs msgid = none →
      (∀ x ∈ mid, ¬AcceptsPubrel msgid x) →
      AcceptsPubrel msgid rel →
        ∃ d, DeliveredOnce s.MQTTVersion msgid first mid rel post d := by
  have hall := (run_inboundInv hrun hinv).1
  refine ⟨?_, ?_, ?_⟩
  · intro x hx
    exact ⟨(hall x hx).1.nodup, (hall x hx).2.nodup⟩
  · intro x hx pack hevent hpack hbusy
    have hstep := hrun.step_of_mem x hx
    rw [hevent] at hstep ⊢
    obtain ⟨hsame, hrefused⟩ := handle_busy env x.pre pack hpack (hall x hx).1 hbusy
    exact ⟨hstep.2.trans hsame, hrefused⟩
  · intro pre first mid rel post publish msgid htr hfirst hnew hmid hrel
    subst htr
    obtain ⟨u, hpre, hrest⟩ := Lib.Runs.append_iff.mp hrun
    have hversion := (run_MQTTVersion hpre).2
    obtain ⟨d, hd⟩ := exchange_delivered_once hrest (run_inboundInv hpre hinv).2 hfirst hnew
      hmid hrel
    exact ⟨d, hversion ▸ hd⟩

/-- A QoS 2 PUBLISH and its PUBREL, as a 3.1.1 client receives them. -/
def helloExchange : List Event :=
  [.packet (.publish
      { header := { type := .publish, dup := false, qos := 2, retain := false }
        topic := [97], topiclen := 1, msgId := 7, payload := [104, 105], MQTTVersion := 4
        properties := MQTTProperties.initializer, mask := ⟨0, 0, 0, 0⟩ }),
    .packet (.ack
      { header := { type := .pubrel, dup := false, qos := 1, retain := false }
        msgId := 7, rc := 0, MQTTVersion := 4, properties := MQTTProperties.initializer })]

/-- The run of a fresh 3.1.1 client over the exchange. -/
def helloRun : ClientRun :=
  Lib.trace (fun c e => (c.outcome Env.reliable e).2) (Clients.fresh 4 0 none) helloExchange

theorem inbound_exactly_once_hello :
    ∃ first rel d, helloRun = [first, rel] ∧ DeliveredOnce 4 7 first [] rel [] d := by
  have hrun : Lib.Runs (Clients.Step Env.reliable) (Clients.fresh 4 0 none) helloRun _ :=
    Clients.runs_trace Env.reliable (Clients.fresh 4 0 none) helloExchange (by
      intro x hx
      rcases List.mem_cons.mp hx with rfl | hx
      · rfl
      · obtain rfl := List.mem_singleton.mp hx
        rfl)
  obtain ⟨d, hd⟩ := (inbound_exactly_once Env.reliable hrun (inboundInv_of_nil rfl)).2.2 [] _ [] _ [] _ 7 rfl
    ⟨⟨rfl, rfl, rfl⟩, rfl⟩ rfl (by simp) ⟨_, ⟨rfl, rfl, rfl⟩, rfl⟩
  exact ⟨_, _, d, rfl, hd⟩

end PahoMqtt
