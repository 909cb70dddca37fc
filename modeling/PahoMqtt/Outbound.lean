import PahoMqtt.ClientSteps

/-!
# The outbound list

What a step can do to the outbound list.  A publication is appended with an id
that is not in use; an acknowledgement that completes a message takes it off;
an accepted PUBREC moves a message on to its PUBCOMP; everything else leaves
the messages at their points of the exchange.  In every reachable state the ids
are distinct, and a QoS 2 message waits for its PUBREC or its PUBCOMP.
-/

namespace PahoMqtt

open MQTTPacket MQTTProtocol

/-- The acknowledgement takes the message off the list. -/
def Completes (pack : Ack) (m : Messages) : Prop :=
  (pack.header.type = .puback ∧ m.qos = 1) ∨
    (pack.header.type = .pubrec ∧ m.qos = 2 ∧ m.nextMessageType = some .pubrec ∧
      pack.MQTTVersion ≥ 5 ∧ pack.rc ≥ UNSPECIFIED_ERROR) ∨
    (pack.header.type = .pubcomp ∧ m.qos = 2 ∧ m.nextMessageType = some .pubcomp)

instance (pack : Ack) (m : Messages) : Decidable (Completes pack m) := by
  unfold Completes
  infer_instance

/-- The PUBREC moves the message on to its PUBCOMP. -/
def MovesOn (pack : Ack) (m : Messages) : Prop :=
  pack.header.type = .pubrec ∧ m.qos = 2 ∧ m.nextMessageType = some .pubrec ∧
    ¬(pack.MQTTVersion ≥ 5 ∧ pack.rc ≥ UNSPECIFIED_ERROR)

instance (pack : Ack) (m : Messages) : Decidable (MovesOn pack m) := by
  unfold MovesOn
  infer_instance

/-- The stem of a sent PUBLISH, by the version. -/
def sentStem (MQTTVersion : Nat) : Stem :=
  if MQTTVersion ≥ 5 then .v5PublishSent else .publishSent

/-- The key of a PUBLISH is always printed. -/
theorem sentStem_fits
    (MQTTVersion : Nat) (msgid : MsgId) :
    MQTTPersistence.KeyFits (sentStem MQTTVersion) msgid := by
  unfold sentStem MQTTPersistence.KeyFits
  split <;> simp

/-- The stem of a sent PUBREL, by the version. -/
def pubrelStem (MQTTVersion : Nat) : Stem :=
  if MQTTVersion ≥ 5 then .v5Pubrel else .pubrel

/-- The message after its PUBREC. -/
def movedOn (env : Env) (net : Net) (m : Messages) : Messages :=
  { m with nextMessageType := some .pubcomp, lastTouch := env.time_now net.calls }

theorem findMsg_movedOn
    (env : Env) (net : Net) (msgs : List Messages) (msgid j : MsgId) :
    findMsg (modifyMsg msgs msgid (movedOn env net)) j =
      if j = msgid then (findMsg msgs j).map (movedOn env net) else findMsg msgs j :=
  findMsg_modifyMsg msgs msgid j (movedOn env net) (fun _ h => h)

theorem msgIds_movedOn
    (env : Env) (net : Net) (msgs : List Messages) (msgid : MsgId) :
    msgIds (modifyMsg msgs msgid (movedOn env net)) = msgIds msgs :=
  msgIds_modifyMsg msgs msgid (movedOn env net) (fun _ h => h)

/-- What an acknowledgement can do to the outbound list and the net. -/
inductive AckEffect (env : Env) (client : Clients) (pack : Ack) (client' : Clients) : Prop
  | ignored
      (hcompletes : ∀ m, findMsg client.outboundMsgs pack.msgId = some m → ¬Completes pack m)
      (hmoves : ∀ m, findMsg client.outboundMsgs pack.msgId = some m → ¬MovesOn pack m)
      (hsame : client' = client)
  | completed (m : Messages) (MQTTVersion : Nat)
      (hfound : findMsg client.outboundMsgs pack.msgId = some m)
      (hcompletes : Completes pack m)
      (hclient : client' = { client with
        net := (MQTTPersistence.remove env client.net (sentStem MQTTVersion) pack.msgId).2
        outboundMsgs := removeMsg client.outboundMsgs pack.msgId })
  | movedOn (m : Messages)
      (hfound : findMsg client.outboundMsgs pack.msgId = some m)
      (hmoves : MovesOn pack m)
      (hclient : client' =
        let net := (send_pubrel env client.net pack.MQTTVersion pack.msgId false).2
        { client with
          net
          outboundMsgs := modifyMsg client.outboundMsgs pack.msgId (PahoMqtt.movedOn env net) })

section Effects

variable (env : Env) (client : Clients) (pack : Ack)

theorem handlePubacks_effect
    (htype : pack.header.type = .puback) :
    AckEffect env client pack (handlePubacks env client pack).2 := by
  unfold handlePubacks
  cases hfound : findMsg client.outboundMsgs pack.msgId with
  | none =>
      exact .ignored (by simp [hfound]) (by simp [hfound]) rfl
  | some m =>
      dsimp only
      split
      next hqos =>
        refine .ignored ?_ ?_ rfl
        · rintro x hx hc
          obtain rfl : m = x := Option.some.inj (hfound.symm.trans hx)
          simp [Completes, htype] at hc
          exact hqos hc
        · rintro x hx hc
          simp [MovesOn, htype] at hc
      next hqos =>
        exact .completed m m.MQTTVersion hfound (Or.inl ⟨htype, not_not.mp hqos⟩) rfl

theorem handlePubrecs_effect
    (htype : pack.header.type = .pubrec) :
    AckEffect env client pack (handlePubrecs env client pack).2 := by
  unfold handlePubrecs
  cases hfound : findMsg client.outboundMsgs pack.msgId with
  | none =>
      exact .ignored (by simp [hfound]) (by simp [hfound]) rfl
  | some m =>
      have hx : ∀ x, findMsg client.outboundMsgs pack.msgId = some x → m = x :=
        fun x hx => Option.some.inj (hfound.symm.trans hx)
      dsimp only
      split
      next hqos =>
        refine .ignored ?_ ?_ rfl
        · rintro x h hc
          obtain rfl := hx x h
          simp [Completes, htype] at hc
          exact hqos hc.1
        · rintro x h hc
          obtain rfl := hx x h
          exact hqos hc.2.1
      next hqos =>
        split
        next hnext =>
          refine .ignored ?_ ?_ rfl
          · rintro x h hc
            obtain rfl := hx x h
            simp [Completes, htype] at hc
            exact hnext hc.2.1
          · rintro x h hc
            obtain rfl := hx x h
            exact hnext hc.2.2.1
        next hnext =>
          split
          next herror =>
            exact .completed m pack.MQTTVersion hfound
              (Or.inr (Or.inl ⟨htype, not_not.mp hqos, not_not.mp hnext, herror⟩)) rfl
          next herror =>
            exact .movedOn m hfound ⟨htype, not_not.mp hqos, not_not.mp hnext, herror⟩ rfl

theorem handlePubcomps_effect
    (htype : pack.header.type = .pubcomp) :
    AckEffect env client pack (handlePubcomps env client pack).2 := by
  unfold handlePubcomps
  cases hfound : findMsg client.outboundMsgs pack.msgId with
  | none =>
      exact .ignored (by simp [hfound]) (by simp [hfound]) rfl
  | some m =>
      have hx : ∀ x, findMsg client.outboundMsgs pack.msgId = some x → m = x :=
        fun x hx => Option.some.inj (hfound.symm.trans hx)
      dsimp only
      split
      next hqos =>
        refine .ignored ?_ ?_ rfl
        · rintro x h hc
          obtain rfl := hx x h
          simp [Completes, htype] at hc
          exact hqos hc.1
        · rintro x h hc
          simp [MovesOn, htype] at hc
      next hqos =>
        split
        next hnext =>
          refine .ignored ?_ ?_ rfl
          · rintro x h hc
            obtain rfl := hx x h
            simp [Completes, htype] at hc
            exact hnext hc.2
          · rintro x h hc
            simp [MovesOn, htype] at hc
        next hnext =>
          exact .completed m m.MQTTVersion hfound
            (Or.inr (Or.inr ⟨htype, not_not.mp hqos, not_not.mp hnext⟩)) rfl

end Effects

/-- A packet of the receiving side leaves the outbound list alone. -/
theorem handlePublishes_outbound
    (env : Env) (client : Clients) (publish : Publish) :
    (handlePublishes env client publish).2.outboundMsgs = client.outboundMsgs := by
  simp only [handlePublishes]
  repeat' split
  all_goals rfl

theorem handlePubrels_outbound
    (env : Env) (client : Clients) (pubrel : Ack) :
    (handlePubrels env client pubrel).2.outboundMsgs = client.outboundMsgs := by
  unfold handlePubrels
  dsimp only
  repeat' split
  all_goals rfl

/-- What a packet can do to the outbound list. -/
theorem handle_outbound
    (env : Env) (client : Clients) (pack : Packet) :
    (∃ a, pack = .ack a ∧ AckEffect env client a (client.handle env pack).2) ∨
      (client.handle env pack).2.outboundMsgs = client.outboundMsgs := by
  cases pack with
  | publish publish =>
      exact Or.inr (handlePublishes_outbound env client publish)
  | ack pack =>
      simp only [Clients.handle]
      split
      next htype =>
        exact Or.inl ⟨pack, rfl, handlePubacks_effect env client pack htype⟩
      next htype =>
        exact Or.inl ⟨pack, rfl, handlePubrecs_effect env client pack htype⟩
      · exact Or.inr (handlePubrels_outbound env client pack)
      next htype =>
        exact Or.inl ⟨pack, rfl, handlePubcomps_effect env client pack htype⟩
      · exact Or.inr rfl

/-! ### The invariant -/

/-- What holds of the outbound list in every reachable state. -/
structure OutboundInv (client : Clients) : Prop where
  nodup : (msgIds client.outboundMsgs).Nodup
  entries : ∀ m ∈ client.outboundMsgs,
    (m.qos = 1 ∨ (m.qos = 2 ∧
      (m.nextMessageType = some .pubrec ∨ m.nextMessageType = some .pubcomp))) ∧
    m.MQTTVersion = client.MQTTVersion

theorem outboundInv_of_same
    {client client' : Clients}
    (hinv : OutboundInv client)
    (hsame : SameExchanges client.outboundMsgs client'.outboundMsgs)
    (hversion : client'.MQTTVersion = client.MQTTVersion) :
    OutboundInv client' := by
  refine ⟨?_, ?_⟩
  · rw [hsame.msgIds_eq]
    exact hinv.nodup
  · intro m' hm'
    obtain ⟨m, hm, hmm'⟩ := hsame.exists_of_mem hm'
    rw [hmm'.qos, hmm'.nextMessageType, hmm'.MQTTVersion, hversion]
    exact hinv.entries m hm

theorem act_outboundInv
    {env : Env} {client : Clients} {a : Action}
    (hinv : OutboundInv client)
    (hadm : a.Admissible client) :
    OutboundInv (client.act env a).2 := by
  have hversion := Clients.act_MQTTVersion env client a
  by_cases hpub : ∃ publish qos retained, a = .startPublish publish qos retained ∧ qos > 0
  · obtain ⟨publish, qos, retained, rfl, hqos⟩ := hpub
    obtain ⟨hpack, hle, hnew⟩ := hadm
    obtain ⟨_, hnone⟩ := hnew hqos
    obtain ⟨m, hm, hlist⟩ := Clients.startPublish_outbound env client publish retained hqos
    refine ⟨?_, ?_⟩
    · rw [hlist]
      exact nodup_append hinv.nodup (hm.msgid_eq ▸ hnone)
    · rw [hlist, hversion]
      intro x hx
      rcases List.mem_append.mp hx with hx | hx
      · exact hinv.entries x hx
      · obtain rfl := List.mem_singleton.mp hx
        rw [hm.qos_eq, hm.next_eq, hm.version_eq, hpack]
        refine ⟨?_, rfl⟩
        rcases (by omega : qos = 1 ∨ qos = 2) with rfl | rfl
        · exact Or.inl rfl
        · exact Or.inr ⟨rfl, Or.inl rfl⟩
  · have hsame := Clients.act_outbound env client a (by
      intro publish qos retained ha
      by_contra hqos
      exact hpub ⟨publish, qos, retained, ha, by omega⟩)
    exact outboundInv_of_same hinv hsame hversion

theorem ackEffect_outboundInv
    {env : Env} {client client' : Clients} {pack : Ack}
    (hinv : OutboundInv client)
    (heffect : AckEffect env client pack client') :
    OutboundInv client' := by
  cases heffect with
  | ignored _ _ hsame =>
      exact hsame ▸ hinv
  | completed m _ _ _ hclient =>
      subst hclient
      refine ⟨(msgIds_removeMsg _ _).nodup hinv.nodup, ?_⟩
      intro x hx
      exact hinv.entries x (mem_removeMsg.mp hx).1
  | movedOn m hfound hmoves hclient =>
      subst hclient
      refine ⟨?_, ?_⟩
      · dsimp only
        rw [msgIds_movedOn]
        exact hinv.nodup
      · intro x hx
        rcases mem_modifyMsg hx with ⟨hx, _⟩ | ⟨y, hy, hid, rfl⟩
        · exact hinv.entries x hx
        · obtain rfl : m = y := by
            have hfind := findMsg_of_mem hinv.nodup hy
            rw [hid, hfound] at hfind
            exact Option.some.inj hfind
          exact ⟨Or.inr ⟨hmoves.2.1, Or.inr rfl⟩, (hinv.entries m hy).2⟩

theorem step_outboundInv
    {env : Env} {client client' : Clients} {e : Event}
    (hinv : OutboundInv client)
    (hstep : client.Step env e client') :
    OutboundInv client' := by
  obtain ⟨hadm, rfl⟩ := hstep
  have hstart : OutboundInv client.start := ⟨hinv.nodup, hinv.entries⟩
  cases e with
  | act a =>
      refine act_outboundInv hstart ?_
      cases a <;> exact hadm
  | packet pack =>
      rcases handle_outbound env client.start pack with ⟨a, _, heffect⟩ | hsame
      · exact ackEffect_outboundInv hstart heffect
      · refine outboundInv_of_same hinv ?_ (handle_MQTTVersion env client.start pack)
        show SameExchanges client.outboundMsgs (client.start.handle env pack).2.outboundMsgs
        rw [hsame]
        exact SameExchanges.refl _

theorem outboundInv_of_nil
    {client : Clients}
    (hnil : client.outboundMsgs = []) :
    OutboundInv client := by
  refine ⟨?_, ?_⟩
  · simp [hnil, msgIds]
  · simp [hnil]

/-- The outbound list is in order before and after every step of a run. -/
theorem run_outboundInv
    {env : Env} {client client' : Clients} {tr : List (Lib.Transition Clients Event)}
    (hrun : Lib.Runs (Clients.Step env) client tr client')
    (hinv : OutboundInv client) :
    (∀ x ∈ tr, OutboundInv x.pre ∧ OutboundInv x.post) ∧ OutboundInv client' :=
  hrun.invariant (fun _ _ _ hinv hstep => step_outboundInv hinv hstep) hinv

end PahoMqtt
