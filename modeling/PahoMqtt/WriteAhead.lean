import PahoMqtt.PacketIn

/-!
# Stored before sent

A PUBLISH of QoS 1 or 2, a PUBREL, and the PUBREC of a received PUBLISH each
have a record that is written before the packet is.  The return code of that
write is not looked at, though: the write of the packet, or the handler of the
received one, replaces it.  So the records are there as long as every one of
them can be stored, and where one cannot, the packet goes out without it.
-/

namespace PahoMqtt

open MQTTPacket MQTTProtocol MQTTPersistence

/-- The stem of a received PUBLISH, by the version. -/
def receivedStem (MQTTVersion : Nat) : Stem :=
  if MQTTVersion ≥ 5 then .v5PublishReceived else .publishReceived

/-- The record that has to be stored before a packet is sent. -/
def recordStem (MQTTVersion : Nat) (header : Header) : Option Stem :=
  match header.type with
  | .publish => if header.qos = 0 then none else some (sentStem MQTTVersion)
  | .pubrel => some (pubrelStem MQTTVersion)
  | .pubrec => some (receivedStem MQTTVersion)
  | _ => none

/-- The store holds a record of this stem and id. -/
def HasRecord (store : Option Store) (stem : Stem) (msgId : MsgId) : Prop :=
  ∃ records bytes, store = some records ∧ records (stem.key msgId.toNat) = some bytes

/-- The packet that is sent on the strength of a record. -/
def answeredBy (htype : PacketType) (scr : Bool) : PacketType :=
  if scr then .pubrec else htype

/--
A step keeps to the order: what is sent has its record in the store at that
moment; and where a record cannot be stored, its packet is not sent, the caller
gets an error, and the lists do not treat the step as done.
-/
structure KeepsOrder (x : Lib.Transition Clients CycleStep) : Prop where
  backed : ∀ header msgId rc store stem, .handed header msgId rc store ∈ x.post.net.log →
    recordStem x.pre.MQTTVersion header = some stem → HasRecord store stem msgId
  refused : ∀ htype msgId scr rc, .putPacket htype msgId scr rc ∈ x.post.net.log → rc ≠ 0 →
    (∀ header rc' store, .handed header msgId rc' store ∈ x.post.net.log →
      header.type ≠ answeredBy htype scr) ∧
    (x.pre.cycleOutcome x.event).1 ≠ TCPSOCKET_COMPLETE ∧
    if scr then
      findMsg x.post.inboundMsgs msgId = findMsg x.pre.inboundMsgs msgId
    else
      findMsg x.post.outboundMsgs msgId = findMsg x.pre.outboundMsgs msgId

/-! ### When the order is kept -/

/-- The hook and `pput` never fail. -/
structure PutsSucceed (env : Env) : Prop where
  pput : ∀ call, env.pput call = 0
  beforeWrite : ∀ call bufs, (callBeforeWrite env call bufs).1 = 0

/-- The key of the PUBREL that answers a received PUBREC is printed. -/
def PubrelFits (client : Clients) : CycleEvent → Prop
  | .act _ => True
  | .receive byte data =>
      ∀ pubrec m, ack client.MQTTVersion byte data = .ok pubrec →
        findMsg client.outboundMsgs pubrec.msgId = some m → MovesOn pubrec m →
        client.MQTTVersion ≥ 5 → pubrec.msgId.toNat < 10000

/-- What is logged while the order is kept. -/
def Backed (MQTTVersion : Nat) : Output → Prop
  | .putPacket _ _ _ rc => rc = 0
  | .handed header msgId _ store =>
      ∀ stem, recordStem MQTTVersion header = some stem → HasRecord store stem msgId
  | _ => True

/-- The net keeps its store, and logs in order. -/
def LogsBacked (MQTTVersion : Nat) (net net' : Net) : Prop :=
  net.persistence.isSome → net'.persistence.isSome ∧ Net.Logs (Backed MQTTVersion) net net'

namespace LogsBacked

variable {MQTTVersion : Nat} {net net₁ net₂ : Net}

theorem of_same
    (hstore : net₁.persistence = net.persistence)
    (hlog : net₁.log = net.log) :
    LogsBacked MQTTVersion net net₁ := by
  intro hsome
  rw [hstore]
  exact ⟨hsome, Net.Logs.of_eq hlog⟩

theorem refl
    (net : Net) :
    LogsBacked MQTTVersion net net :=
  of_same rfl rfl

theorem trans
    (h₁ : LogsBacked MQTTVersion net net₁)
    (h₂ : LogsBacked MQTTVersion net₁ net₂) :
    LogsBacked MQTTVersion net net₂ := by
  intro hsome
  obtain ⟨hsome₁, hlogs₁⟩ := h₁ hsome
  obtain ⟨hsome₂, hlogs₂⟩ := h₂ hsome₁
  exact ⟨hsome₂, hlogs₁.trans hlogs₂⟩

theorem emit
    (net : Net) {out : Output}
    (hout : Backed MQTTVersion out) :
    LogsBacked MQTTVersion net (net.emit out) :=
  fun hsome => ⟨hsome, Net.Logs.emit net hout⟩

end LogsBacked

/-! ### Storing and sending -/

/-- A record that can be stored is there afterwards, and the caller is told so. -/
theorem putPacket_succeeds
    {env : Env} {net : Net}
    (hputs : PutsSucceed env)
    (hstore : net.persistence.isSome)
    (buf0 : Bytes) (buffers : List Bytes) {htype : PacketType} {msgId : MsgId} {scr : Bool}
    {MQTTVersion : Nat}
    (hfits : KeyFits (putStem htype scr MQTTVersion) msgId) :
    (putPacket env net buf0 buffers htype msgId scr MQTTVersion).1 = 0 ∧
      HasRecord (putPacket env net buf0 buffers htype msgId scr MQTTVersion).2.persistence
        (putStem htype scr MQTTVersion) msgId := by
  obtain ⟨store, hstore⟩ := Option.isSome_iff_exists.mp hstore
  have hhook := hputs.beforeWrite net.calls (buf0 :: buffers)
  unfold putPacket
  simp only [hstore, messageKey_of_fits hfits]
  rw [if_neg (not_not.mpr hhook)]
  simp only [hputs.pput, if_true]
  exact ⟨trivial, _, _, rfl, Lib.ExactMap.put_self _ _ _⟩

theorem putPacket_backed
    {env : Env} {net : Net}
    (hputs : PutsSucceed env)
    (buf0 : Bytes) (buffers : List Bytes) {htype : PacketType} {msgId : MsgId} {scr : Bool}
    {MQTTVersion : Nat}
    (hfits : KeyFits (putStem htype scr MQTTVersion) msgId) :
    LogsBacked MQTTVersion net
      (putPacket env net buf0 buffers htype msgId scr MQTTVersion).2 := by
  intro hstore
  refine ⟨?_, _, putPacket_log env net buf0 buffers htype msgId scr MQTTVersion, ?_⟩
  · rw [putPacket_isSome]
    exact hstore
  · intro o ho
    rw [if_pos hstore] at ho
    obtain rfl := List.mem_singleton.mp ho
    exact (putPacket_succeeds hputs hstore buf0 buffers hfits).1

/-- `MQTTPacket_send`: a PUBREL is stored by it, a PUBREC needs its record beforehand. -/
theorem send_backed
    {env : Env} {net : Net} {header : Header} {buffer : Bytes} {MQTTVersion : Nat}
    (hputs : PutsSucceed env)
    (htype : header.type ≠ .publish)
    (hpubrel : header.type = .pubrel → KeyFits (pubrelStem MQTTVersion) (peekMsgId buffer))
    (hpubrec : header.type = .pubrec →
      HasRecord net.persistence (receivedStem MQTTVersion) (peekMsgId buffer)) :
    LogsBacked MQTTVersion net (send env net header buffer MQTTVersion).2 := by
  have hstem : header.type = .pubrel → putStem header.type false MQTTVersion =
      pubrelStem MQTTVersion := by
    intro h
    rw [h]
    rfl
  have hstored : LogsBacked MQTTVersion net (stored env net header buffer MQTTVersion) := by
    unfold stored
    split
    next h =>
      exact putPacket_backed hputs _ _ (by rw [hstem h]; exact hpubrel h)
    · exact LogsBacked.refl net
  have hrecord : net.persistence.isSome → ∀ stem, recordStem MQTTVersion header = some stem →
      HasRecord (stored env net header buffer MQTTVersion).persistence stem (peekMsgId buffer) := by
    intro hsome stem hneeds
    unfold recordStem at hneeds
    split at hneeds
    next h => exact absurd h htype
    next h =>
      cases hneeds
      unfold stored
      rw [if_pos h]
      have hfits : KeyFits (putStem header.type false MQTTVersion) (peekMsgId buffer) := by
        rw [hstem h]
        exact hpubrel h
      rw [← hstem h]
      exact (putPacket_succeeds hputs hsome _ _ hfits).2
    next h =>
      cases hneeds
      unfold stored
      rw [if_neg (by simp [h])]
      exact hpubrec h
    · cases hneeds
  intro hsome
  obtain ⟨hsome', hlogs⟩ := hstored hsome
  refine ⟨?_, hlogs.trans ⟨_, send_log env net header buffer MQTTVersion, ?_⟩⟩
  · rw [send_persistence]
    exact hsome'
  · intro o ho
    split at ho
    · obtain rfl := List.mem_singleton.mp ho
      exact hrecord hsome
    · cases ho

theorem recordStem_publishHeader
    (MQTTVersion : Nat) (dup : Bool) (qos : Nat) (retained : Bool) :
    recordStem MQTTVersion (publishHeader dup qos retained) =
      if (publishHeader dup qos retained).qos = 0 then none else some (sentStem MQTTVersion) := by
  rfl

/-- `MQTTPacket_sends` of a publication. -/
theorem send_publish_backed
    {env : Env} {net : Net}
    (hputs : PutsSucceed env)
    (pack : Publish) (dup : Bool) (qos : Nat) (retained : Bool) :
    LogsBacked pack.MQTTVersion net (send_publish env net pack dup qos retained).2.2 := by
  have hfits : ∀ msgId, KeyFits (putStem .publish false pack.MQTTVersion) msgId := by
    intro msgId
    exact sentStem_fits pack.MQTTVersion msgId
  have hstored : LogsBacked pack.MQTTVersion net (storeds env net (publishHeader dup qos retained)
      ⟨publishBuffers pack qos, pack.mask⟩ pack.MQTTVersion) := by
    unfold storeds
    split
    · exact putPacket_backed hputs _ _ (hfits _)
    · exact LogsBacked.refl net
  intro hsome
  obtain ⟨hsome', hlogs⟩ := hstored hsome
  unfold send_publish
  dsimp only
  refine ⟨?_, hlogs.trans ⟨_, sends_log env net _ _ _, ?_⟩⟩
  · rw [sends_persistence]
    exact hsome'
  · intro o ho
    split at ho
    · obtain rfl := List.mem_singleton.mp ho
      intro stem hneeds
      rw [recordStem_publishHeader] at hneeds
      have hheader : (publishHeader dup qos retained).qos ≠ 0 := by
        intro hzero
        rw [if_pos hzero] at hneeds
        cases hneeds
      rw [if_neg hheader] at hneeds
      have hstem := Option.some.inj hneeds
      rw [storeds, if_pos ⟨rfl, hheader⟩, ← hstem]
      exact (putPacket_succeeds hputs hsome _ _ (hfits _)).2
    · cases ho

theorem send_pubrel_backed
    {env : Env} {net : Net} {MQTTVersion : Nat} {msgid : MsgId}
    (hputs : PutsSucceed env)
    (hfits : KeyFits (pubrelStem MQTTVersion) msgid)
    (dup : Bool) :
    LogsBacked MQTTVersion net (send_pubrel env net MQTTVersion msgid dup).2 := by
  refine send_backed hputs (by simp [ackHeader]) (fun _ => ?_) (fun h => ?_)
  · rw [peekMsgId_ack]
    exact hfits
  · simp [ackHeader] at h

/-- An acknowledgement that needs no record, or has it. -/
theorem send_ack_backed
    {env : Env} {net : Net} {MQTTVersion : Nat} {type : PacketType} {msgid : MsgId}
    (hputs : PutsSucceed env)
    (htype : type ≠ .publish ∧ type ≠ .pubrel)
    (hpubrec : type = .pubrec → HasRecord net.persistence (receivedStem MQTTVersion) msgid) :
    LogsBacked MQTTVersion net (send_ack env net MQTTVersion type msgid false).2 := by
  refine send_backed hputs htype.1 (fun h => absurd h htype.2) (fun h => ?_)
  rw [peekMsgId_ack]
  exact hpubrec h

theorem remove_backed
    {MQTTVersion : Nat}
    (env : Env) (net : Net) (type : Stem) (msgId : MsgId) :
    LogsBacked MQTTVersion net (MQTTPersistence.remove env net type msgId).2 := by
  intro hsome
  obtain ⟨_, _, hlog, hstore⟩ := remove_same env net type msgId
  exact ⟨by rw [hstore]; exact hsome, Net.Logs.of_eq hlog⟩

/-! ### Actions -/

/-- What holds of the outbound list as long as every PUBREL has had its record. -/
structure SendInv (client : Clients) : Prop where
  outbound : OutboundInv client
  fits : ∀ m ∈ client.outboundMsgs, m.nextMessageType = some .pubcomp →
    KeyFits (pubrelStem client.MQTTVersion) m.msgid

theorem retryMessage_backed
    {env : Env} {m : Messages}
    (hputs : PutsSucceed env)
    (hfits : m.nextMessageType = some .pubcomp → KeyFits (pubrelStem m.MQTTVersion) m.msgid)
    (retryInterval now : Int) (regardless : Bool) (net : Net) :
    LogsBacked m.MQTTVersion net (retryMessage env retryInterval now regardless net m).2.2 := by
  unfold retryMessage
  split
  · split
    · split
      · exact LogsBacked.refl net
      next p _ =>
        have hsend : LogsBacked m.MQTTVersion net
            (send_publish env net (retryPublish m p) true m.qos m.retain).2.2 :=
          send_publish_backed hputs (retryPublish m p) true m.qos m.retain
        dsimp only
        split
        · exact hsend.trans (LogsBacked.emit _ trivial)
        · exact hsend
    · split
      next hnext =>
        have hsend : LogsBacked m.MQTTVersion net (send_pubrel env net m.MQTTVersion m.msgid false).2 :=
          send_pubrel_backed hputs (hfits hnext.2) false
        dsimp only
        split
        · exact hsend.trans (LogsBacked.emit _ trivial)
        · exact hsend
      · exact LogsBacked.refl net
  · exact LogsBacked.refl net

theorem retry_backed
    {env : Env} {client : Clients}
    (hputs : PutsSucceed env)
    (hinv : SendInv client)
    (now : Int) (doRetry regardless : Bool) :
    LogsBacked client.MQTTVersion client.net (retry env now doRetry regardless client).net := by
  refine retry_net env now doRetry regardless client LogsBacked.refl (fun _ _ _ => LogsBacked.trans)
    (fun net => LogsBacked.emit net trivial) ?_
  intro net m hm
  have hversion := (hinv.outbound.entries m hm).2
  rw [← hversion]
  refine retryMessage_backed hputs (fun hnext => ?_) _ now regardless net
  rw [hversion]
  exact hinv.fits m hm hnext

/-- Setting `lastTouch` and the flags of the connection changes nothing that matters here. -/
theorem sendInv_of_same
    {client client' : Clients}
    (hinv : SendInv client)
    (hsame : SameExchanges client.outboundMsgs client'.outboundMsgs)
    (hversion : client'.MQTTVersion = client.MQTTVersion) :
    SendInv client' := by
  refine ⟨outboundInv_of_same hinv.outbound hsame hversion, ?_⟩
  intro m' hm' hnext
  obtain ⟨m, hm, hmm'⟩ := hsame.exists_of_mem hm'
  rw [hmm'.nextMessageType] at hnext
  rw [hmm'.msgid, hversion]
  exact hinv.fits m hm hnext

theorem act_backed
    {env : Env} {client : Clients} {a : Action}
    (hputs : PutsSucceed env)
    (hinv : SendInv client)
    (hadm : a.Admissible client) :
    LogsBacked client.MQTTVersion client.net (client.act env a).2.net := by
  cases a with
  | startPublish publish qos retained =>
      simp only [Clients.act, startPublish]
      rw [← hadm.1]
      split
      · exact send_publish_backed hputs { publish with
          properties := (createMessage (env.time_now client.net.calls) publish qos
            retained).properties } false qos retained
      · exact send_publish_backed hputs publish false qos retained
  | retry now doRetry regardless =>
      exact retry_backed hputs hinv now doRetry regardless
  | continueWrites =>
      exact LogsBacked.of_same rfl rfl
  | closeOnly disconnect =>
      simp only [Clients.act, MQTTAsync.closeOnly]
      split
      · refine LogsBacked.trans (send_backed hputs ?_ ?_ ?_) (LogsBacked.of_same rfl rfl)
        all_goals simp
      · exact LogsBacked.of_same rfl rfl
  | completeConnection websocket =>
      simp only [Clients.act, MQTTAsync.completeConnection]
      have hnet : LogsBacked client.MQTTVersion client.net { client.net with websocket } :=
        LogsBacked.of_same rfl rfl
      split
      · have htouched : SendInv { client with
            net := { client.net with websocket }, connected := true, good := true
            outboundMsgs := client.outboundMsgs.map (fun m => { m with lastTouch := 0 }) } :=
          sendInv_of_same hinv (sameExchanges_touch _ 0) rfl
        exact hnet.trans (retry_backed hputs htouched 0 true true)
      · exact hnet

theorem act_sendInv
    {env : Env} {client : Clients} {a : Action}
    (hinv : SendInv client)
    (hadm : a.Admissible client) :
    SendInv (client.act env a).2 := by
  have hversion := Clients.act_MQTTVersion env client a
  by_cases hpub : ∃ publish qos retained, a = .startPublish publish qos retained ∧ qos > 0
  · refine ⟨act_outboundInv hinv.outbound hadm, ?_⟩
    obtain ⟨publish, qos, retained, rfl, hpos⟩ := hpub
    obtain ⟨m, hm, hlist⟩ := Clients.startPublish_outbound env client publish retained hpos
    rw [hlist, hversion]
    intro x hx hnext
    rcases List.mem_append.mp hx with hx | hx
    · exact hinv.fits x hx hnext
    · obtain rfl := List.mem_singleton.mp hx
      rw [hm.next_eq] at hnext
      split at hnext <;> cases hnext
  · have hsame := Clients.act_outbound env client a (by
      intro publish qos retained ha
      by_contra hqos
      exact hpub ⟨publish, qos, retained, ha, by omega⟩)
    exact sendInv_of_same hinv hsame hversion

/-! ### Handlers -/

/-- An acknowledgement keeps the order if the key of the PUBREL that it may cause is printed. -/
theorem ackEffect_backed
    {env : Env} {client client' : Clients} {pack : Ack}
    (hputs : PutsSucceed env)
    (heffect : AckEffect env client pack client')
    (hfits : ∀ m, findMsg client.outboundMsgs pack.msgId = some m → MovesOn pack m →
      KeyFits (pubrelStem pack.MQTTVersion) pack.msgId) :
    LogsBacked pack.MQTTVersion client.net client'.net := by
  cases heffect with
  | ignored _ _ hsame =>
      rw [hsame]
      exact LogsBacked.refl _
  | completed m MQTTVersion _ _ hclient =>
      rw [hclient]
      exact remove_backed env client.net _ _
  | movedOn m hfound hmoves hclient =>
      rw [hclient]
      exact send_pubrel_backed hputs (hfits m hfound hmoves) false

/-- A received PUBLISH of QoS 2 has to be in the store already. -/
theorem handlePublishes_backed
    {env : Env} {client : Clients} {publish : Publish}
    (hputs : PutsSucceed env)
    (hrecord : publish.header.qos = 2 →
      HasRecord client.net.persistence (receivedStem publish.MQTTVersion) publish.msgId) :
    LogsBacked publish.MQTTVersion client.net (handlePublishes env client publish).2.net := by
  have hdelivers : ∀ net p, LogsBacked publish.MQTTVersion net
      (net.emit (.processPublication p)) := fun net p => LogsBacked.emit net trivial
  unfold handlePublishes
  split
  · exact hdelivers _ _
  · split
    · exact LogsBacked.refl _
    · split
      · have hack : LogsBacked publish.MQTTVersion client.net
            (send_puback env client.net publish.MQTTVersion publish.msgId).2 :=
          send_ack_backed hputs (by simp) (fun h => by cases h)
        exact hack.trans (hdelivers _ _)
      · split
        next hqos =>
          have hack : LogsBacked publish.MQTTVersion client.net
              (send_pubrec env client.net publish.MQTTVersion publish.msgId).2 :=
            send_ack_backed hputs (by simp) (fun _ => hrecord hqos)
          dsimp only
          split
          · exact hack
          · split
            · exact hack.trans (hdelivers _ _)
            · exact hack
        · exact LogsBacked.refl _

theorem handlePubrels_backed
    {env : Env} {client : Clients}
    (hputs : PutsSucceed env)
    (pubrel : Ack) :
    LogsBacked pubrel.MQTTVersion client.net (handlePubrels env client pubrel).2.net := by
  have hack : LogsBacked pubrel.MQTTVersion client.net
      (send_pubcomp env client.net pubrel.MQTTVersion pubrel.msgId).2 :=
    send_ack_backed hputs (by simp) (fun h => by cases h)
  unfold handlePubrels
  split
  · split
    · exact LogsBacked.refl _
    · split
      · exact LogsBacked.refl _
      · exact hack
  next m _ =>
    split
    · exact LogsBacked.refl _
    · split
      · exact LogsBacked.refl _
      · split
        · exact LogsBacked.refl _
        · dsimp only
          refine LogsBacked.trans ?_ (remove_backed env _ _ _)
          split
          · exact hack
          · exact hack.trans (LogsBacked.emit _ trivial)

/-- What a handler needs to keep the order. -/
theorem handle_backed
    {env : Env} (client : Clients) {pack : Packet}
    (hputs : PutsSucceed env)
    (hpublish : ∀ publish, pack = .publish publish → publish.header.qos = 2 →
      HasRecord client.net.persistence (receivedStem publish.MQTTVersion) publish.msgId)
    (hpubrec : ∀ pubrec m, pack = .ack pubrec → findMsg client.outboundMsgs pubrec.msgId = some m →
      MovesOn pubrec m → KeyFits (pubrelStem pubrec.MQTTVersion) pubrec.msgId) :
    LogsBacked pack.MQTTVersion client.net (client.handle env pack).2.net := by
  cases pack with
  | publish publish =>
      exact handlePublishes_backed hputs (hpublish publish rfl)
  | ack pack =>
      have hfits := fun m => hpubrec pack m rfl
      simp only [Clients.handle]
      split
      next htype => exact ackEffect_backed hputs (handlePubacks_effect env client pack htype) hfits
      next htype => exact ackEffect_backed hputs (handlePubrecs_effect env client pack htype) hfits
      · exact handlePubrels_backed hputs pack
      next htype => exact ackEffect_backed hputs (handlePubcomps_effect env client pack htype) hfits
      · exact LogsBacked.refl _

theorem handle_sendInv
    {env : Env} {client : Clients} {pack : Packet}
    (hinv : SendInv client)
    (hversion : pack.MQTTVersion = client.MQTTVersion)
    (hpubrec : ∀ pubrec m, pack = .ack pubrec → findMsg client.outboundMsgs pubrec.msgId = some m →
      MovesOn pubrec m → KeyFits (pubrelStem pubrec.MQTTVersion) pubrec.msgId) :
    SendInv (client.handle env pack).2 := by
  have hsame := handle_MQTTVersion env client pack
  rcases handle_outbound env client pack with ⟨a, rfl, heffect⟩ | hout
  · refine ⟨ackEffect_outboundInv hinv.outbound heffect, ?_⟩
    rw [hsame]
    cases heffect with
    | ignored _ _ hclient =>
        rw [hclient]
        exact hinv.fits
    | completed m MQTTVersion _ _ hclient =>
        rw [hclient]
        intro x hx
        exact hinv.fits x (mem_removeMsg.mp hx).1
    | movedOn m hfound hmoves hclient =>
        rw [hclient]
        intro x hx hnext
        rcases mem_modifyMsg hx with ⟨hx, _⟩ | ⟨y, _, hid, rfl⟩
        · exact hinv.fits x hx hnext
        · have hfits := hpubrec a m rfl hfound hmoves
          rw [show a.MQTTVersion = client.MQTTVersion from hversion] at hfits
          rw [movedOn, hid]
          exact hfits
  · refine sendInv_of_same hinv ?_ hsame
    rw [hout]
    exact SameExchanges.refl _

/-! ### Cycles -/

/-- The factory has stored a PUBLISH of QoS 2 when it returns it. -/
theorem Factory_backed
    {env : Env}
    (hputs : PutsSucceed env)
    (net : Net) (MQTTVersion : Nat) (byte : UInt8) (data : Bytes) :
    LogsBacked MQTTVersion net (Factory env net MQTTVersion byte data).2.2 ∧
      ∀ publish, (Factory env net MQTTVersion byte data).2.1 = some (.publish publish) →
        publish.header.qos = 2 → net.persistence.isSome →
        HasRecord (Factory env net MQTTVersion byte data).2.2.persistence
          (receivedStem MQTTVersion) publish.msgId := by
  have hfits : ∀ msgId, KeyFits (putStem .publish true MQTTVersion) msgId := by
    intro msgId
    rw [putStem, KeyFits, if_pos rfl]
    split <;> simp
  unfold Factory
  split
  · exact ⟨LogsBacked.refl _, fun _ h => by cases h⟩
  · exact ⟨LogsBacked.refl _, fun _ h => by cases h⟩
  · exact ⟨LogsBacked.refl _, fun _ h => by cases h⟩
  next pack _ =>
    split
    · refine ⟨putPacket_backed hputs _ _ (hfits _), ?_⟩
      intro publish hpack _ hsome
      cases hpack
      exact (putPacket_succeeds hputs hsome _ _ (hfits pack.msgId)).2
    next hqos =>
      refine ⟨LogsBacked.refl _, ?_⟩
      intro publish hpack hqos'
      cases hpack
      exact absurd hqos' hqos

theorem pubrelStem_fits
    {MQTTVersion : Nat} {msgId : MsgId}
    (h : MQTTVersion ≥ 5 → msgId.toNat < 10000) :
    KeyFits (pubrelStem MQTTVersion) msgId := by
  rintro ⟨hstem, hbig⟩
  by_cases hversion : MQTTVersion ≥ 5
  · have := h hversion
    omega
  · rw [pubrelStem, if_neg hversion] at hstem
    cases hstem

theorem cycle_backed
    {env : Env} {client : Clients} {byte : UInt8} {data : Bytes}
    (hputs : PutsSucceed env)
    (hinv : SendInv client)
    (hstore : client.net.persistence.isSome)
    (hfits : PubrelFits client (.receive byte data)) :
    SendInv (MQTTAsync.cycle env client byte data).2 ∧
      LogsBacked client.MQTTVersion client.net (MQTTAsync.cycle env client byte data).2.net := by
  obtain ⟨hlogs, hreceived⟩ := Factory_backed hputs client.net client.MQTTVersion byte data
  unfold MQTTAsync.cycle
  split
  next error net hfactory =>
    rw [hfactory] at hlogs
    exact ⟨⟨⟨hinv.outbound.nodup, hinv.outbound.entries⟩, hinv.fits⟩, hlogs⟩
  next error pack net hfactory =>
    have hnew := Factory_packet hfactory
    have hversion := newPacket_MQTTVersion hnew
    rw [hfactory] at hlogs hreceived
    have hinv' : SendInv { client with net } :=
      ⟨⟨hinv.outbound.nodup, hinv.outbound.entries⟩, hinv.fits⟩
    have hpubrec : ∀ pubrec m, pack = .ack pubrec →
        findMsg client.outboundMsgs pubrec.msgId = some m → MovesOn pubrec m →
        KeyFits (pubrelStem pubrec.MQTTVersion) pubrec.msgId := by
      rintro pubrec m rfl hfound hmoves
      have hack : ack client.MQTTVersion byte data = .ok pubrec := by
        rcases newPacket_eq_some hnew with ⟨_, hpack, _⟩ | ⟨a, hpack, ha⟩
        · cases hpack
        · cases hpack
          exact ha
      rw [show pubrec.MQTTVersion = client.MQTTVersion from hversion]
      exact pubrelStem_fits (hfits pubrec m hack hfound hmoves)
    have hhandled : LogsBacked pack.MQTTVersion net ({ client with net }.handle env pack).2.net := by
      refine handle_backed { client with net } hputs ?_ hpubrec
      rintro publish rfl hqos
      rw [show publish.MQTTVersion = client.MQTTVersion from hversion]
      exact hreceived publish rfl hqos hstore
    rw [hversion] at hhandled
    exact ⟨handle_sendInv hinv' hversion hpubrec, hlogs.trans hhandled⟩

/-- The invariant of the client, with its store. -/
def Sends (client : Clients) : Prop :=
  SendInv client ∧ client.net.persistence.isSome

/-- A step in which every record can be stored logs in order. -/
theorem cycles_backed
    {client client' : Clients} {e : CycleStep}
    (hinv : Sends client)
    (hputs : PutsSucceed e.env)
    (hfits : PubrelFits client e.event)
    (hstep : client.Cycles e client') :
    Sends client' ∧ ∀ o ∈ client'.net.log, Backed client.MQTTVersion o := by
  obtain ⟨hadm, rfl⟩ := hstep
  have hstart : SendInv client.start := ⟨⟨hinv.1.outbound.nodup, hinv.1.outbound.entries⟩, hinv.1.fits⟩
  have hsome : client.start.net.persistence.isSome := hinv.2
  have hlogs : SendInv (client.cycleOutcome e).2 ∧
      LogsBacked client.MQTTVersion client.start.net (client.cycleOutcome e).2.net := by
    obtain ⟨env, event⟩ := e
    cases event with
    | act a =>
        have hadm' : a.Admissible client.start := by
          cases a <;> exact hadm
        exact ⟨act_sendInv hstart hadm', act_backed hputs hstart hadm'⟩
    | receive byte data =>
        exact cycle_backed hputs hstart hsome hfits
  obtain ⟨hsome', hbacked⟩ := hlogs.2 hsome
  exact ⟨⟨hlogs.1, hsome'⟩, hbacked.forall_mem rfl⟩

theorem keepsOrder_of_backed
    {x : Lib.Transition Clients CycleStep}
    (h : ∀ o ∈ x.post.net.log, Backed x.pre.MQTTVersion o) :
    KeepsOrder x where
  backed _ _ _ _ stem hmem hneeds := h _ hmem stem hneeds
  refused _ _ _ _ hmem hfailed := absurd (h _ hmem) hfailed

/--
In every run of a client with a store in which the hook and `pput` never fail,
and the key of every PUBREL is printed, nothing is sent before its record is
stored.
-/
theorem stored_before_sent
    {s t : Clients} {tr : List (Lib.Transition Clients CycleStep)}
    (hrun : Lib.Runs Clients.Cycles s tr t)
    (hinv : Sends s)
    (hputs : ∀ x ∈ tr, PutsSucceed x.event.env ∧ PubrelFits x.pre x.event.event) :
    ∀ x ∈ tr, KeepsOrder x := by
  have hinvs := hrun.invariant_of (I := Sends)
    (C := fun client e => PutsSucceed e.env ∧ PubrelFits client e.event)
    (fun _ _ _ h hC hstep => (cycles_backed h hC.1 hC.2 hstep).1) hinv hputs
  intro x hx
  obtain ⟨hworks, hfits⟩ := hputs x hx
  exact keepsOrder_of_backed
    (cycles_backed (hinvs.1 x hx).1 hworks hfits (hrun.step_of_mem x hx)).2

/-- A publication of QoS 2 with the id 1, its PUBREC, and a received one with the id 7. -/
def bothDirections (env : Env) : List CycleStep :=
  [⟨env, .act (.startPublish
      { header := { type := .publish, dup := false, qos := 0, retain := false }
        topic := [97], topiclen := 1, msgId := 1, payload := [104, 105], MQTTVersion := 4
        properties := MQTTProperties.initializer, mask := ⟨0, 0, 0, 0⟩ } 2 false)⟩,
    ⟨env, .receive 0x50 [0, 1]⟩,
    ⟨env, .receive 0x34 [0, 1, 97, 0, 7, 104]⟩]

/-- The run of a fresh 3.1.1 client with an empty store over it. -/
def bothDirectionsRun (env : Env) : List (Lib.Transition Clients CycleStep) :=
  Lib.trace (fun client e => (client.cycleOutcome e).2)
    (Clients.fresh 4 0 (some Lib.ExactMap.empty)) (bothDirections env)

theorem runs_bothDirectionsRun
    (env : Env) :
    Lib.Runs Clients.Cycles (Clients.fresh 4 0 (some Lib.ExactMap.empty)) (bothDirectionsRun env)
      ((bothDirections env).foldl (fun client e => (client.cycleOutcome e).2)
        (Clients.fresh 4 0 (some Lib.ExactMap.empty))) := by
  refine Lib.Runs.of_trace _ _ (fun x hx => ⟨?_, Lib.post_of_mem_trace hx⟩)
  rcases List.mem_cons.mp hx with rfl | hx
  · exact ⟨rfl, le_rfl, fun _ => ⟨by decide, rfl⟩⟩
  · rcases List.mem_cons.mp hx with rfl | hx
    · trivial
    · obtain rfl := List.mem_singleton.mp hx
      trivial

/-- A store that works has every record in time. -/
theorem stored_before_sent_both :
    (bothDirectionsRun Env.reliable).length = 3 ∧
      ∀ x ∈ bothDirectionsRun Env.reliable, KeepsOrder x := by
  refine ⟨rfl, stored_before_sent (runs_bothDirectionsRun Env.reliable)
    ⟨⟨outboundInv_of_nil rfl, fun _ hm => absurd hm List.not_mem_nil⟩, rfl⟩ ?_⟩
  have hputs : PutsSucceed Env.reliable := ⟨fun _ => rfl, fun _ _ => rfl⟩
  intro x hx
  rcases List.mem_cons.mp hx with rfl | hx
  · exact ⟨hputs, trivial⟩
  · rcases List.mem_cons.mp hx with rfl | hx
    · exact ⟨hputs, fun _ _ _ _ _ hversion => absurd hversion (by decide)⟩
    · obtain rfl := List.mem_singleton.mp hx
      exact ⟨hputs, fun _ _ _ _ _ hversion => absurd hversion (by decide)⟩

/-- A store into which nothing can be written. -/
def Env.full : Env :=
  { Env.reliable with pput := fun _ => PERSISTENCE_ERROR }

/--
With a store that refuses every record, the PUBLISH, the PUBREL and the PUBREC
are all sent, and each call returns success.
-/
theorem sent_without_record :
    ∃ t, Lib.Runs Clients.Cycles (Clients.fresh 4 0 (some Lib.ExactMap.empty))
        (bothDirectionsRun Env.full) t ∧
      ∀ x ∈ bothDirectionsRun Env.full,
        (x.pre.cycleOutcome x.event).1 = TCPSOCKET_COMPLETE ∧ ¬KeepsOrder x := by
  refine ⟨_, runs_bothDirectionsRun Env.full, ?_⟩
  have hempty : ∀ stem msgId, ¬HasRecord (some Lib.ExactMap.empty) stem msgId := by
    rintro stem msgId ⟨records, bytes, hrecords, hrecord⟩
    cases hrecords
    cases hrecord
  intro x hx
  rcases List.mem_cons.mp hx with rfl | hx
  · refine ⟨rfl, fun h => hempty _ _ (h.backed (publishHeader false 2 false) 1 0 _ _ ?_ rfl)⟩
    exact List.mem_cons_of_mem _ List.mem_cons_self
  · rcases List.mem_cons.mp hx with rfl | hx
    · refine ⟨rfl, fun h => hempty _ _ (h.backed (ackHeader .pubrel false) 1 0 _ _ ?_ rfl)⟩
      exact List.mem_cons_of_mem _ List.mem_cons_self
    · obtain rfl := List.mem_singleton.mp hx
      refine ⟨rfl, fun h => hempty _ _ (h.backed (ackHeader .pubrec false) 7 0 _ _ ?_ rfl)⟩
      exact List.mem_cons_of_mem _ List.mem_cons_self

end PahoMqtt
