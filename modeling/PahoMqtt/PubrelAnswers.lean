import PahoMqtt.InboundExactlyOnce

/-!
# The PUBRELs that are answered

A PUBREL of an id that is in the inbound list is answered with a PUBCOMP, and so
is one with the dup flag set.  One without it of an id that is no longer in the
list is not, and no PUBREL that this library sends has the flag set
(`handed_pubrel_header`): when the PUBCOMP of a completed exchange is lost, the
sender's PUBREL stays without an answer.
-/

namespace PahoMqtt

open MQTTPacket MQTTProtocol

/-- The step starts the writing of a PUBCOMP with the id. -/
def SendsPubcomp (env : Env) (client : Clients) (pubrel : Ack) : Prop :=
  ∃ rc store, .handed (ackHeader .pubcomp false) pubrel.msgId rc store ∈
    (client.outcome env (.packet (.ack pubrel))).2.net.log

/-- The PUBCOMP is logged by the send of `handlePubrels`. -/
theorem send_pubcomp_handed
    (env : Env) (net : Net) (MQTTVersion : Nat) (msgid : MsgId)
    (hidle : net.writePending = false) :
    ∃ rc store, .handed (ackHeader .pubcomp false) msgid rc store ∈
      (send_pubcomp env net MQTTVersion msgid).2.log := by
  have hnone : Socket.noPendingWrites net = true := by
    simp [Socket.noPendingWrites, hidle]
  have hlog := send_log env net (ackHeader .pubcomp false) (writeInt msgid.toNat) MQTTVersion
  rw [if_pos hnone, peekMsgId_ack] at hlog
  refine ⟨(send env net (ackHeader .pubcomp false) (writeInt msgid.toNat) MQTTVersion).1,
    (stored env net (ackHeader .pubcomp false) (writeInt msgid.toNat) MQTTVersion).persistence, ?_⟩
  show _ ∈ (send env net (ackHeader .pubcomp false) (writeInt msgid.toNat) MQTTVersion).2.log
  rw [hlog]
  exact List.mem_append_right _ List.mem_cons_self

/-- The removal of the record and the delivery keep what is logged. -/
theorem handlePubrels_found_log
    {env : Env} {client : Clients} {pubrel : Ack} {m : Messages} {o : Output}
    (hfound : findMsg client.inboundMsgs pubrel.msgId = some m)
    (hqos : m.qos = 2)
    (hnext : m.nextMessageType = some .pubrel)
    (hidle : client.net.writePending = false)
    (ho : o ∈ (send_pubcomp env client.net pubrel.MQTTVersion pubrel.msgId).2.log) :
    o ∈ (handlePubrels env client pubrel).2.net.log := by
  have hnone : Socket.noPendingWrites client.net = true := by
    simp [Socket.noPendingWrites, hidle]
  unfold handlePubrels
  simp only [hfound, hqos, hnext, hnone]
  simp only [ne_eq, not_true_eq_false, if_false, Bool.not_true, Bool.false_eq_true]
  rw [(MQTTPersistence.remove_same env _ _ _).2.2.1]
  split
  · exact ho
  · exact List.mem_append_left _ ho

/--
A PUBREL that arrives while the socket has no unfinished write is answered
exactly when its id is in the inbound list or its dup flag is set.
-/
theorem pubrel_answered_iff
    (env : Env)
    {s t : Clients} {tr : ClientRun} {pubrel : Ack}
    (hrun : Lib.Runs (Clients.Step env) s tr t)
    (hinv : InboundInv s)
    (htype : pubrel.header.type = .pubrel)
    (hidle : t.net.writePending = false) :
    SendsPubcomp env t pubrel ↔
      (pubrel.header.dup = true ∨ pubrel.msgId ∈ msgIds t.inboundMsgs) := by
  have hinv' := (run_inboundInv hrun hinv).2
  have houtcome : (t.outcome env (.packet (.ack pubrel))).2 =
      (handlePubrels env t.start pubrel).2 := by
    simp only [Clients.outcome, Clients.handle, htype]
  have hlist : t.start.inboundMsgs = t.inboundMsgs := rfl
  have hidle' : t.start.net.writePending = false := hidle
  obtain ⟨rc, store, hsent⟩ :=
    send_pubcomp_handed env t.start.net pubrel.MQTTVersion pubrel.msgId hidle'
  unfold SendsPubcomp
  rw [houtcome, ← findMsg_isSome]
  cases hfound : findMsg t.inboundMsgs pubrel.msgId with
  | none =>
      cases hdup : pubrel.header.dup with
      | false =>
          simp [handlePubrels, hfound, hdup, Clients.start]
      | true =>
          have hnone : Socket.noPendingWrites t.start.net = true := by
            simp [Socket.noPendingWrites, hidle']
          refine iff_of_true ⟨rc, store, ?_⟩ (Or.inl rfl)
          simpa [handlePubrels, hlist, hfound, hdup, hnone] using hsent
  | some m =>
      obtain ⟨hqos, hnext, _⟩ := hinv'.entries m (findMsg_eq_some hfound).1
      refine iff_of_true ⟨rc, store, ?_⟩ (Or.inr rfl)
      exact handlePubrels_found_log hfound hqos hnext hidle' hsent

/-- In the exchange of `helloExchange` the PUBREL is answered. -/
theorem pubrel_answered_iff_hello :
    ∃ t pubrel, SendsPubcomp Env.reliable t pubrel ∧ pubrel.header.dup = false := by
  have hrun : Lib.Runs (Clients.Step Env.reliable) (Clients.fresh 4 0 none)
      (Lib.trace (fun c e => (c.outcome Env.reliable e).2) (Clients.fresh 4 0 none)
        (helloExchange.take 1)) _ :=
    Clients.runs_trace Env.reliable (Clients.fresh 4 0 none) (helloExchange.take 1) (by
      intro x hx
      obtain rfl := List.mem_singleton.mp hx
      rfl)
  exact ⟨_,
    { header := ackHeader .pubrel false, msgId := 7, rc := 0, MQTTVersion := 4
      properties := MQTTProperties.initializer },
    (pubrel_answered_iff Env.reliable hrun (inboundInv_of_nil rfl) rfl rfl).mpr
      (Or.inr (by decide)), rfl⟩

/--
The PUBREL that a sender of this library repeats, because the PUBCOMP of the
exchange was lost, is not answered by a receiver that has completed it.
-/
theorem repeated_pubrel_unanswered :
    ∃ t, Lib.Runs (Clients.Step Env.reliable) (Clients.fresh 4 0 none) helloRun t ∧
      t.net.writePending = false ∧
      ∃ pubrel : Ack, pubrel.header = ackHeader .pubrel false ∧ pubrel.msgId = 7 ∧
        ¬SendsPubcomp Env.reliable t pubrel := by
  let t := helloExchange.foldl (fun c e => (c.outcome Env.reliable e).2) (Clients.fresh 4 0 none)
  let pubrel : Ack :=
    { header := ackHeader .pubrel false, msgId := 7, rc := 0, MQTTVersion := 4
      properties := MQTTProperties.initializer }
  refine ⟨t, ?_, rfl, pubrel, rfl, rfl, ?_⟩
  · refine Clients.runs_trace Env.reliable (Clients.fresh 4 0 none) helloExchange ?_
    intro x hx
    rcases List.mem_cons.mp hx with rfl | hx
    · rfl
    · obtain rfl := List.mem_singleton.mp hx
      rfl
  · rintro ⟨rc, store, hmem⟩
    have hlog : (t.outcome Env.reliable (.packet (.ack pubrel))).2.net.log = [] := rfl
    rw [hlog] at hmem
    cases hmem

end PahoMqtt
