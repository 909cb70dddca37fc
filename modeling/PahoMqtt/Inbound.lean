import PahoMqtt.ClientSteps

/-!
# The inbound list

The QoS 2 exchanges of the receiving side.  A step changes the inbound list in
two cases only: a QoS 2 PUBLISH is accepted, or a PUBREL is; a packet that comes
while the socket has an unfinished write is not accepted.  In every reachable
state the list holds an id at most once and all its entries wait for their
PUBREL.
-/

namespace PahoMqtt

open MQTTPacket MQTTProtocol

/-! ### Deliveries -/

/-- The publication of a call of `Protocol_processPublication`. -/
def delivery : Output → Option Publish
  | .processPublication publish => some publish
  | _ => none

/-- The publications that the log of a step passes on. -/
def deliveries (net : Net) : List Publish :=
  net.log.filterMap delivery

theorem deliveries_emit
    (net : Net) (publish : Publish) :
    deliveries (net.emit (.processPublication publish)) = deliveries net ++ [publish] := by
  simp [deliveries, Net.emit, delivery]

theorem deliveries_of_logs
    {net net' : Net}
    (h : Net.Logs (fun o => delivery o = none) net net') :
    deliveries net' = deliveries net := by
  obtain ⟨outs, hlog, hnone⟩ := h
  have houts : outs.filterMap delivery = [] := by
    rw [List.filterMap_eq_nil_iff]
    exact hnone
  simp [deliveries, hlog, houts]

theorem deliveries_of_log_eq
    {net net' : Net}
    (h : net'.log = net.log) :
    deliveries net' = deliveries net := by
  simp [deliveries, h]

theorem deliveries_send_ack
    (env : Env) (net : Net) (MQTTVersion : Nat) (type : PacketType) (msgid : MsgId) (dup : Bool) :
    deliveries (send_ack env net MQTTVersion type msgid dup).2 = deliveries net :=
  deliveries_of_logs (send_logs env net _ _ _ (fun _ _ => rfl) (fun _ _ => rfl))

theorem deliveries_remove
    (env : Env) (net : Net) (type : Stem) (msgId : MsgId) :
    deliveries (MQTTPersistence.remove env net type msgId).2 = deliveries net :=
  deliveries_of_log_eq (MQTTPersistence.remove_same env net type msgId).2.2.1

theorem deliveries_act
    (env : Env) (client : Clients) (a : Action) :
    deliveries (client.act env a).2.net = deliveries client.net := by
  refine deliveries_of_logs ((Clients.act_logs env client a).mono ?_)
  intro o ho
  cases ho <;> rfl

@[simp] theorem deliveries_start
    (client : Clients) :
    deliveries client.start.net = [] := by
  rfl

/-! ### The packets that are accepted -/

/-- A QoS 2 PUBLISH that is not refused. -/
structure AcceptedPublish (client : Clients) (e : Event) (publish : Publish) : Prop where
  event : e = .packet (.publish publish)
  qos : publish.header.qos = 2
  idle : client.net.writePending = false

/-- A PUBREL that is not refused. -/
structure AcceptedPubrel (client : Clients) (e : Event) (pubrel : Ack) : Prop where
  event : e = .packet (.ack pubrel)
  type : pubrel.header.type = .pubrel
  idle : client.net.writePending = false

/-- The inbound list after a QoS 2 PUBLISH. -/
def receivedMsgs (msgs : List Messages) (publish : Publish) : List Messages :=
  if (findMsg msgs publish.msgId).isSome then
    modifyMsg msgs publish.msgId (fun _ => receivedMessage publish)
  else if publish.MQTTVersion ≥ 5 then
    msgs ++ [{ receivedMessage publish with publish := none }]
  else
    msgs ++ [receivedMessage publish]

theorem step_acceptedPublish
    {env : Env} {client client' : Clients} {e : Event} {publish : Publish}
    (hstep : client.Step env e client')
    (hacc : AcceptedPublish client e publish) :
    client'.inboundMsgs = receivedMsgs client.inboundMsgs publish ∧
      deliveries client'.net =
        if (findMsg client.inboundMsgs publish.msgId).isSome ∨ publish.MQTTVersion < 5 then []
        else [publicationOf (receivedMessage publish)] := by
  obtain ⟨rfl, hqos, hidle⟩ := hacc
  obtain ⟨_, rfl⟩ := hstep
  have hsend := deliveries_send_ack env client.start.net publish.MQTTVersion .pubrec
    publish.msgId false
  simp only [deliveries_start] at hsend
  have hpending : (!Socket.noPendingWrites client.start.net) = false := by
    simpa [Socket.noPendingWrites, Clients.start] using hidle
  simp only [Clients.outcome, Clients.handle, handlePublishes, hqos, hpending, receivedMsgs]
  have hid : (receivedMessage publish).msgid = publish.msgId := rfl
  have hversion : (receivedMessage publish).MQTTVersion = publish.MQTTVersion := rfl
  have hlist : client.start.inboundMsgs = client.inboundMsgs := rfl
  simp only [hid, hversion, hlist]
  by_cases hfound : (findMsg client.inboundMsgs publish.msgId).isSome
  · simp [hfound, send_pubrec, hsend]
  · by_cases hfive : publish.MQTTVersion ≥ 5
    · have hnot : ¬publish.MQTTVersion < 5 := by omega
      simp [hfound, hfive, hnot, send_pubrec, processPublication, deliveries_emit, hsend]
    · have hlt : publish.MQTTVersion < 5 := by omega
      simp [hfound, hfive, hlt, send_pubrec, hsend]

/-- What holds of the inbound list in every reachable state. -/
structure InboundInv (client : Clients) : Prop where
  nodup : (msgIds client.inboundMsgs).Nodup
  entries : ∀ m ∈ client.inboundMsgs,
    m.qos = 2 ∧ m.nextMessageType = some .pubrel ∧ m.MQTTVersion = client.MQTTVersion

theorem step_acceptedPubrel
    {env : Env} {client client' : Clients} {e : Event} {pubrel : Ack}
    (hinv : InboundInv client)
    (hstep : client.Step env e client')
    (hacc : AcceptedPubrel client e pubrel) :
    client'.inboundMsgs = removeMsg client.inboundMsgs pubrel.msgId ∧
      deliveries client'.net =
        match findMsg client.inboundMsgs pubrel.msgId with
        | none => []
        | some m => if m.MQTTVersion ≥ 5 then [] else [publicationOf m] := by
  obtain ⟨rfl, htype, hidle⟩ := hacc
  obtain ⟨_, rfl⟩ := hstep
  have hsend := deliveries_send_ack env client.start.net pubrel.MQTTVersion .pubcomp
    pubrel.msgId false
  simp only [deliveries_start] at hsend
  have hpending : (!Socket.noPendingWrites client.start.net) = false := by
    simpa [Socket.noPendingWrites, Clients.start] using hidle
  have hlist : client.start.inboundMsgs = client.inboundMsgs := rfl
  simp only [Clients.outcome, Clients.handle, handlePubrels, htype, hpending, hlist]
  cases hfound : findMsg client.inboundMsgs pubrel.msgId with
  | none =>
      have hsame : removeMsg client.inboundMsgs pubrel.msgId = client.inboundMsgs := by
        refine List.filter_eq_self.mpr ?_
        intro m hm
        have hnot := findMsg_eq_none.mp hfound
        have hne : m.msgid ≠ pubrel.msgId := by
          rintro hid
          exact hnot (List.mem_map.mpr ⟨m, hm, hid⟩)
        simpa using hne
      cases hdup : pubrel.header.dup with
      | false => simp [hsame, hlist]
      | true => simp [hsame, send_pubcomp, hsend]
  | some m =>
      obtain ⟨hqos, hnext, _⟩ := hinv.entries m (findMsg_eq_some hfound).1
      by_cases hfive : m.MQTTVersion ≥ 5
      · simp [hqos, hnext, hfive, send_pubcomp, deliveries_remove, hsend]
      · simp [hqos, hnext, hfive, send_pubcomp, deliveries_remove, processPublication,
          deliveries_emit, hsend]

/-- Nothing else touches the inbound list or delivers with QoS 2. -/
theorem step_not_accepted
    {env : Env} {client client' : Clients} {e : Event}
    (hstep : client.Step env e client')
    (hpublish : ∀ publish, ¬AcceptedPublish client e publish)
    (hpubrel : ∀ pubrel, ¬AcceptedPubrel client e pubrel) :
    client'.inboundMsgs = client.inboundMsgs ∧
      ∀ d ∈ deliveries client'.net, d.header.qos ≠ 2 := by
  obtain ⟨_, rfl⟩ := hstep
  have hlist : client.start.inboundMsgs = client.inboundMsgs := rfl
  cases e with
  | act a =>
      refine ⟨Clients.act_inboundMsgs env client.start a, ?_⟩
      simp [Clients.outcome, deliveries_act]
  | packet pack =>
      cases pack with
      | publish publish =>
          simp only [Clients.outcome, Clients.handle, handlePublishes]
          by_cases h₀ : publish.header.qos = 0
          · simp [h₀, processPublication, deliveries_emit, hlist]
          · by_cases hpending : Socket.noPendingWrites client.start.net = true
            · have hidle : client.net.writePending = false := by
                simpa [Socket.noPendingWrites, Clients.start] using hpending
              have h₂ : publish.header.qos ≠ 2 := fun h₂ => hpublish publish ⟨rfl, h₂, hidle⟩
              have hsend := deliveries_send_ack env client.start.net publish.MQTTVersion .puback
                publish.msgId false
              by_cases h₁ : publish.header.qos = 1
              · simp [h₁, hpending, processPublication, deliveries_emit, send_puback, hsend, hlist]
              · simp [h₀, h₁, h₂, hpending, hlist]
            · simp [h₀, hpending, hlist]
      | ack pack =>
          simp only [Clients.outcome, Clients.handle]
          split
          · unfold handlePubacks
            split
            · exact ⟨rfl, by simp⟩
            · split
              · exact ⟨rfl, by simp⟩
              · exact ⟨rfl, by simp [deliveries_remove]⟩
          · unfold handlePubrecs
            split
            · exact ⟨rfl, by simp⟩
            · split
              · exact ⟨rfl, by simp⟩
              · split
                · exact ⟨rfl, by simp⟩
                · split
                  · exact ⟨rfl, by simp [deliveries_remove]⟩
                  · exact ⟨rfl, by simp [send_pubrel, deliveries_send_ack]⟩
          next htype =>
            have hpending : Socket.noPendingWrites client.start.net = false := by
              have hbusy : client.net.writePending ≠ false := fun hidle =>
                hpubrel pack ⟨rfl, htype, hidle⟩
              simpa [Socket.noPendingWrites, Clients.start] using hbusy
            unfold handlePubrels
            split
            · split
              · exact ⟨rfl, by simp⟩
              · simp [hpending, hlist]
            · split
              · exact ⟨rfl, by simp⟩
              · split
                · exact ⟨rfl, by simp⟩
                · simp [hpending, hlist]
          · unfold handlePubcomps
            split
            · exact ⟨rfl, by simp⟩
            · split
              · exact ⟨rfl, by simp⟩
              · split
                · exact ⟨rfl, by simp⟩
                · exact ⟨rfl, by simp [deliveries_remove]⟩
          · exact ⟨rfl, by simp⟩

/-! ### The invariant -/

theorem inboundInv_of_eq
    {client client' : Clients}
    (hinv : InboundInv client)
    (hmsgs : client'.inboundMsgs = client.inboundMsgs)
    (hversion : client'.MQTTVersion = client.MQTTVersion) :
    InboundInv client' := by
  refine ⟨?_, ?_⟩
  · rw [hmsgs]
    exact hinv.nodup
  · rw [hmsgs, hversion]
    exact hinv.entries

theorem receivedMsgs_inv
    {client client' : Clients} {publish : Publish}
    (hinv : InboundInv client)
    (hqos : publish.header.qos = 2)
    (hpack : publish.MQTTVersion = client.MQTTVersion)
    (hmsgs : client'.inboundMsgs = receivedMsgs client.inboundMsgs publish)
    (hversion : client'.MQTTVersion = client.MQTTVersion) :
    InboundInv client' := by
  have hentry : ∀ p, let m : Messages := { receivedMessage publish with publish := p }
      m.qos = 2 ∧ m.nextMessageType = some .pubrel ∧ m.MQTTVersion = client.MQTTVersion := by
    intro p
    refine ⟨?_, rfl, hpack⟩
    show publish.header.qos.val = 2
    rw [hqos]
    rfl
  by_cases hfound : (findMsg client.inboundMsgs publish.msgId).isSome
  · rw [receivedMsgs, if_pos hfound] at hmsgs
    refine ⟨?_, ?_⟩
    · have hids := msgIds_modifyMsg client.inboundMsgs publish.msgId
        (fun _ => receivedMessage publish) (fun _ _ => rfl)
      rw [hmsgs, hids]
      exact hinv.nodup
    · intro m hm
      rw [hversion]
      rw [hmsgs] at hm
      rcases mem_modifyMsg hm with ⟨hm, _⟩ | ⟨_, _, _, rfl⟩
      · exact hinv.entries m hm
      · exact hentry _
  · have hnone : findMsg client.inboundMsgs publish.msgId = none := by
      simpa using hfound
    obtain ⟨p, hp⟩ : ∃ p, client'.inboundMsgs =
        client.inboundMsgs ++ [{ receivedMessage publish with publish := p }] := by
      rw [receivedMsgs, if_neg hfound] at hmsgs
      split at hmsgs
      · exact ⟨none, hmsgs⟩
      · exact ⟨some (storePublication publish), hmsgs⟩
    refine ⟨?_, ?_⟩
    · rw [hp]
      exact nodup_append hinv.nodup hnone
    · intro m hm
      rw [hversion]
      rw [hp] at hm
      rcases List.mem_append.mp hm with hm | hm
      · exact hinv.entries m hm
      · obtain rfl := List.mem_singleton.mp hm
        exact hentry p

theorem step_inboundInv
    {env : Env} {client client' : Clients} {e : Event}
    (hinv : InboundInv client)
    (hstep : client.Step env e client') :
    InboundInv client' := by
  have hversion := step_MQTTVersion hstep
  by_cases hpublish : ∃ publish, AcceptedPublish client e publish
  · obtain ⟨publish, hacc⟩ := hpublish
    have hpack : publish.MQTTVersion = client.MQTTVersion := by
      have hadm := hstep.1
      rw [hacc.event] at hadm
      exact hadm
    exact receivedMsgs_inv hinv hacc.qos hpack (step_acceptedPublish hstep hacc).1 hversion
  · by_cases hpubrel : ∃ pubrel, AcceptedPubrel client e pubrel
    · obtain ⟨pubrel, hacc⟩ := hpubrel
      have hmsgs := (step_acceptedPubrel hinv hstep hacc).1
      refine ⟨?_, ?_⟩
      · rw [hmsgs]
        exact (msgIds_removeMsg _ _).nodup hinv.nodup
      · rw [hmsgs, hversion]
        intro m hm
        exact hinv.entries m (mem_removeMsg.mp hm).1
    · have hmsgs := (step_not_accepted hstep (fun p h => hpublish ⟨p, h⟩)
        (fun a h => hpubrel ⟨a, h⟩)).1
      exact inboundInv_of_eq hinv hmsgs hversion

theorem inboundInv_of_nil
    {client : Clients}
    (hnil : client.inboundMsgs = []) :
    InboundInv client := by
  refine ⟨?_, ?_⟩
  · simp [hnil, msgIds]
  · simp [hnil]

/-- The inbound list is in order before and after every step of a run. -/
theorem run_inboundInv
    {env : Env} {client client' : Clients} {tr : List (Lib.Transition Clients Event)}
    (hrun : Lib.Runs (Clients.Step env) client tr client')
    (hinv : InboundInv client) :
    (∀ x ∈ tr, InboundInv x.pre ∧ InboundInv x.post) ∧ InboundInv client' :=
  hrun.invariant (fun _ _ _ hinv hstep => step_inboundInv hinv hstep) hinv

end PahoMqtt
