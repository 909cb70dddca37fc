import PahoMqtt.ProtocolClient

/-!
# What a step of the protocol client can do

The facts about single functions that the claims about runs are derived from.
A retry goes through the outbound list and leaves every message in its place
with its exchange unchanged; an action never touches the inbound list; every
event keeps the version.
-/

namespace PahoMqtt

/-- Two states of a message that belong to the same point of the same exchange. -/
structure Messages.SameExchange (m m' : Messages) : Prop where
  qos : m'.qos = m.qos
  retain : m'.retain = m.retain
  msgid : m'.msgid = m.msgid
  MQTTVersion : m'.MQTTVersion = m.MQTTVersion
  properties : m'.properties = m.properties
  nextMessageType : m'.nextMessageType = m.nextMessageType

namespace Messages.SameExchange

theorem refl
    (m : Messages) :
    SameExchange m m :=
  ⟨rfl, rfl, rfl, rfl, rfl, rfl⟩

end Messages.SameExchange

/-- The same messages in the same order, each at the same point of its exchange. -/
abbrev SameExchanges (msgs msgs' : List Messages) : Prop :=
  List.Forall₂ Messages.SameExchange msgs msgs'

namespace SameExchanges

theorem refl
    (msgs : List Messages) :
    SameExchanges msgs msgs :=
  List.forall₂_same.mpr (fun m _ => Messages.SameExchange.refl m)

theorem msgIds_eq
    {msgs msgs' : List Messages}
    (h : SameExchanges msgs msgs') :
    msgIds msgs' = msgIds msgs := by
  induction h with
  | nil =>
      rfl
  | cons hm _ ih =>
      simp only [msgIds, List.map_cons] at ih ⊢
      rw [ih, hm.msgid]

theorem exists_of_mem
    {msgs msgs' : List Messages} {m' : Messages}
    (h : SameExchanges msgs msgs')
    (hm : m' ∈ msgs') :
    ∃ m ∈ msgs, Messages.SameExchange m m' := by
  induction h with
  | nil =>
      cases hm
  | cons hx _ ih =>
      rcases List.mem_cons.mp hm with rfl | hm
      · exact ⟨_, List.mem_cons_self, hx⟩
      · obtain ⟨m, hmem, hsame⟩ := ih hm
        exact ⟨m, List.mem_cons_of_mem _ hmem, hsame⟩

/-- A message is found exactly where it was found before. -/
theorem findMsg_rel
    {msgs msgs' : List Messages}
    (h : SameExchanges msgs msgs')
    (msgid : MsgId) :
    Option.Rel Messages.SameExchange (findMsg msgs msgid) (findMsg msgs' msgid) := by
  induction h with
  | nil =>
      exact Option.Rel.none
  | @cons m m' msgs msgs' hm _ ih =>
      simp only [findMsg, List.find?_cons, hm.msgid] at ih ⊢
      by_cases hid : m.msgid = msgid
      · simpa [hid] using hm
      · simpa [hid] using ih

end SameExchanges

namespace MQTTProtocol

open MQTTPacket

/-! ### Retries -/

theorem retryMessage_same
    (env : Env) (retryInterval now : Int) (regardless : Bool) (net : Net) (m : Messages) :
    Messages.SameExchange m (retryMessage env retryInterval now regardless net m).1 := by
  unfold retryMessage
  split
  · split
    · split
      · exact Messages.SameExchange.refl m
      · dsimp only
        split <;> exact ⟨rfl, rfl, rfl, rfl, rfl, rfl⟩
    · split
      · dsimp only
        split <;> exact ⟨rfl, rfl, rfl, rfl, rfl, rfl⟩
      · exact Messages.SameExchange.refl m
  · exact Messages.SameExchange.refl m

/-- What holds between a message and its retry holds all along the list. -/
theorem retryLoop_msgs
    {Q : Messages → Messages → Prop}
    (env : Env) (retryInterval now : Int) (regardless connected : Bool)
    (hrefl : ∀ m, Q m m)
    {msgs : List Messages}
    (hmsg : ∀ net, ∀ m ∈ msgs, Q m (retryMessage env retryInterval now regardless net m).1)
    (good : Bool) (net : Net) :
    List.Forall₂ Q msgs
      (retryLoop env retryInterval now regardless connected good net msgs).1 := by
  induction msgs generalizing good net with
  | nil =>
      exact List.Forall₂.nil
  | cons m msgs ih =>
      unfold retryLoop
      split
      · exact List.Forall₂.cons (hmsg net m List.mem_cons_self)
          (ih (fun net x hx => hmsg net x (List.mem_cons_of_mem _ hx)) _ _)
      · exact List.forall₂_same.mpr (fun m _ => hrefl m)

/-- What every single retry does to the socket and the store, the loop does. -/
theorem retryLoop_net
    {R : Net → Net → Prop}
    (env : Env) (retryInterval now : Int) (regardless connected : Bool)
    (hrefl : ∀ net, R net net)
    (htrans : ∀ net₁ net₂ net₃, R net₁ net₂ → R net₂ net₃ → R net₁ net₃)
    {msgs : List Messages}
    (hmsg : ∀ net, ∀ m ∈ msgs,
      R net (retryMessage env retryInterval now regardless net m).2.2)
    (good : Bool) (net : Net) :
    R net (retryLoop env retryInterval now regardless connected good net msgs).2.2 := by
  induction msgs generalizing good net with
  | nil =>
      exact hrefl net
  | cons m msgs ih =>
      unfold retryLoop
      split
      · exact htrans _ _ _ (hmsg net m List.mem_cons_self)
          (ih (fun net x hx => hmsg net x (List.mem_cons_of_mem _ hx)) _ _)
      · exact hrefl net

/-- The log of a single retry: a PUBLISH, a PUBREL or nothing, and the closing on an error. -/
theorem retryMessage_logs
    {P : Output → Prop}
    (env : Env) (retryInterval now : Int) (regardless : Bool) (net : Net) (m : Messages)
    (hclose : P .closeSession)
    (hput : ∀ htype msgId rc, P (.putPacket htype msgId false rc))
    (hpublish : (m.qos = 1 ∨ (m.qos = 2 ∧ m.nextMessageType = some .pubrec)) →
      ∀ rc store, P (.handed (publishHeader true m.qos m.retain) m.msgid rc store))
    (hpubrel : m.nextMessageType = some .pubcomp →
      ∀ rc store, P (.handed (ackHeader .pubrel false) m.msgid rc store)) :
    Net.Logs P net (retryMessage env retryInterval now regardless net m).2.2 := by
  unfold retryMessage
  split
  · split
    next hqos =>
      split
      · exact Net.Logs.refl net
      · dsimp only
        have hsend : ∀ p, Net.Logs P net
            (send_publish env net (retryPublish m p) true m.qos m.retain).2.2 := by
          intro p
          have hid : m.qos = 1 ∨ m.qos = 2 := hqos.imp_right And.left
          refine sends_logs env net _ _ _ (fun rc _ => hput _ _ rc) (fun rc store => ?_)
          rw [sendsMsgId_publish (retryPublish m p) true m.retain _ hid]
          exact hpublish hqos rc store
        split
        · exact (hsend _).trans (Net.Logs.emit _ hclose)
        · exact hsend _
    · split
      next hnext =>
        dsimp only
        have hsend : Net.Logs P net (send_pubrel env net m.MQTTVersion m.msgid false).2 := by
          refine send_logs env net _ _ _ (fun rc _ => hput _ _ rc) (fun rc store => ?_)
          rw [peekMsgId_ack]
          exact hpubrel hnext.2 rc store
        split
        · exact hsend.trans (Net.Logs.emit _ hclose)
        · exact hsend
      · exact Net.Logs.refl net
  · exact Net.Logs.refl net

/-- A retry of a client: its parts other than the outbound list, `good` and the net stay. -/
theorem retry_spec
    (env : Env) (now : Int) (doRetry regardless : Bool) (client : Clients) :
    let client' := retry env now doRetry regardless client
    SameExchanges client.outboundMsgs client'.outboundMsgs ∧
      client'.inboundMsgs = client.inboundMsgs ∧
      client'.MQTTVersion = client.MQTTVersion := by
  unfold retry
  split
  · exact ⟨SameExchanges.refl _, rfl, rfl⟩
  · split
    · exact ⟨SameExchanges.refl _, rfl, rfl⟩
    · split
      · exact ⟨SameExchanges.refl _, rfl, rfl⟩
      · split
        · unfold retries
          split
          · exact ⟨SameExchanges.refl _, rfl, rfl⟩
          · refine ⟨?_, rfl, rfl⟩
            exact retryLoop_msgs env _ now regardless _ Messages.SameExchange.refl
              (fun net m _ => retryMessage_same env _ now regardless net m) _ _
        · exact ⟨SameExchanges.refl _, rfl, rfl⟩

/-- What every single retry does to the socket and the store, a retry of the client does. -/
theorem retry_net
    {R : Net → Net → Prop}
    (env : Env) (now : Int) (doRetry regardless : Bool) (client : Clients)
    (hrefl : ∀ net, R net net)
    (htrans : ∀ net₁ net₂ net₃, R net₁ net₂ → R net₂ net₃ → R net₁ net₃)
    (hclose : ∀ net, R net (closeSession net))
    (hmsg : ∀ net, ∀ m ∈ client.outboundMsgs,
      R net (retryMessage env client.retryInterval now regardless net m).2.2) :
    R client.net (retry env now doRetry regardless client).net := by
  unfold retry
  split
  · exact hrefl _
  · split
    · exact hclose _
    · split
      · exact hrefl _
      · split
        · unfold retries
          split
          · exact hrefl _
          · exact retryLoop_net env _ now regardless _ hrefl htrans hmsg _ _
        · exact hrefl _

/-! ### Actions -/

/-- What a client may log by an action, with `msgs` in flight. -/
inductive ActionOutput (msgs : List Messages) : Action → Output → Prop
  | closeSession (a : Action) :
      ActionOutput msgs a .closeSession
  | putPacket (a : Action) (htype : PacketType) (msgId : MsgId) (rc : Int) :
      ActionOutput msgs a (.putPacket htype msgId false rc)
  | startPublish (publish : Publish) (qos : Nat) (retained : Bool) (msgId : MsgId) (rc : Int)
      (store : Option Store)
      (hid : qos = 1 ∨ qos = 2 → msgId = publish.msgId) :
      ActionOutput msgs (.startPublish publish qos retained)
        (.handed (publishHeader false qos retained) msgId rc store)
  | retryPublish (a : Action) (m : Messages) (rc : Int) (store : Option Store)
      (hm : ∃ x ∈ msgs, Messages.SameExchange x m)
      (hqos : m.qos = 1 ∨ (m.qos = 2 ∧ m.nextMessageType = some .pubrec)) :
      ActionOutput msgs a (.handed (publishHeader true m.qos m.retain) m.msgid rc store)
  | retryPubrel (a : Action) (m : Messages) (rc : Int) (store : Option Store)
      (hm : ∃ x ∈ msgs, Messages.SameExchange x m)
      (hnext : m.nextMessageType = some .pubcomp) :
      ActionOutput msgs a (.handed (ackHeader .pubrel false) m.msgid rc store)
  | disconnect (a : Action) (header : Header) (msgId : MsgId) (rc : Int) (store : Option Store)
      (htype : header.type = .disconnect) :
      ActionOutput msgs a (.handed header msgId rc store)

theorem startPublish_logs
    (env : Env) (client : Clients) (publish : Publish) (qos : Nat) (retained : Bool) :
    Net.Logs (ActionOutput client.outboundMsgs (.startPublish publish qos retained))
      client.net (startPublish env client publish qos retained).2.net := by
  have hsend : ∀ pack : Publish, pack.msgId = publish.msgId →
      Net.Logs (ActionOutput client.outboundMsgs (.startPublish publish qos retained))
        client.net (send_publish env client.net pack false qos retained).2.2 := by
    intro pack hpack
    refine sends_logs env client.net _ _ _ (fun rc _ => .putPacket _ _ _ rc)
      (fun rc store => .startPublish publish qos retained _ rc store ?_)
    intro hqos
    rw [sendsMsgId_publish pack false retained _ hqos, hpack]
  unfold startPublish
  split
  · exact hsend _ rfl
  · exact hsend _ rfl

theorem retry_logs
    (env : Env) (a : Action) (now : Int) (doRetry regardless : Bool) (client : Clients)
    {msgs : List Messages}
    (hsame : SameExchanges msgs client.outboundMsgs) :
    Net.Logs (ActionOutput msgs a) client.net
      (retry env now doRetry regardless client).net := by
  apply retry_net env now doRetry regardless client Net.Logs.refl
    (fun _ _ _ => Net.Logs.trans)
    (fun net => Net.Logs.emit net (.closeSession a))
  intro net m hm
  exact retryMessage_logs env _ now regardless net m (.closeSession a)
    (fun htype msgId rc => .putPacket a htype msgId rc)
    (fun hqos rc store => .retryPublish a m rc store (hsame.exists_of_mem hm) hqos)
    (fun hnext rc store => .retryPubrel a m rc store (hsame.exists_of_mem hm) hnext)

theorem closeOnly_logs
    (env : Env) (a : Action) (client : Clients) (disconnect : Bytes)
    {msgs : List Messages} :
    Net.Logs (ActionOutput msgs a) client.net
      (MQTTAsync.closeOnly env client disconnect).net := by
  unfold MQTTAsync.closeOnly
  dsimp only
  split
  · have hsend := send_logs (P := ActionOutput msgs a) env client.net
      { type := .disconnect, dup := false, qos := 0, retain := false } disconnect
      client.MQTTVersion (fun rc _ => .putPacket a _ _ rc)
      (fun rc store => .disconnect a _ _ rc store rfl)
    exact hsend.trans (Net.Logs.of_eq rfl)
  · exact Net.Logs.of_eq rfl

/-- Setting `lastTouch` keeps every message at its point of the exchange. -/
theorem sameExchanges_touch
    (msgs : List Messages) (t : Int) :
    SameExchanges msgs (msgs.map (fun m => { m with lastTouch := t })) := by
  refine List.forall₂_map_right_iff.mpr ?_
  exact List.forall₂_same.mpr (fun m _ => ⟨rfl, rfl, rfl, rfl, rfl, rfl⟩)

theorem sameExchanges_trans
    {msgs₁ msgs₂ msgs₃ : List Messages}
    (h₁ : SameExchanges msgs₁ msgs₂)
    (h₂ : SameExchanges msgs₂ msgs₃) :
    SameExchanges msgs₁ msgs₃ := by
  induction h₁ generalizing msgs₃ with
  | nil =>
      exact h₂
  | cons hm _ ih =>
      cases h₂ with
      | cons hm' hrest =>
          refine List.Forall₂.cons ?_ (ih hrest)
          exact ⟨hm'.qos.trans hm.qos, hm'.retain.trans hm.retain, hm'.msgid.trans hm.msgid,
            hm'.MQTTVersion.trans hm.MQTTVersion, hm'.properties.trans hm.properties,
            hm'.nextMessageType.trans hm.nextMessageType⟩

theorem completeConnection_spec
    (env : Env) (client : Clients) (websocket : Bool) :
    let client' := MQTTAsync.completeConnection env client websocket
    SameExchanges client.outboundMsgs client'.outboundMsgs ∧
      client'.inboundMsgs = client.inboundMsgs ∧
      client'.MQTTVersion = client.MQTTVersion := by
  unfold MQTTAsync.completeConnection
  dsimp only
  split
  · obtain ⟨hsame, hin, hversion⟩ := retry_spec env 0 true true
      { client with
        net := { client.net with websocket }, connected := true, good := true
        outboundMsgs := client.outboundMsgs.map (fun m => { m with lastTouch := 0 }) }
    exact ⟨sameExchanges_trans (sameExchanges_touch _ 0) hsame, hin, hversion⟩
  · exact ⟨SameExchanges.refl _, rfl, rfl⟩

theorem completeConnection_logs
    (env : Env) (a : Action) (client : Clients) (websocket : Bool) :
    Net.Logs (ActionOutput client.outboundMsgs a) client.net
      (MQTTAsync.completeConnection env client websocket).net := by
  unfold MQTTAsync.completeConnection
  dsimp only
  split
  · exact (Net.Logs.of_eq rfl).trans
      (retry_logs env a 0 true true _ (sameExchanges_touch client.outboundMsgs 0))
  · exact Net.Logs.of_eq rfl

end MQTTProtocol

namespace Clients

open MQTTProtocol

/-- Everything an action logs. -/
theorem act_logs
    (env : Env) (client : Clients) (a : Action) :
    Net.Logs (ActionOutput client.outboundMsgs a) client.net (client.act env a).2.net := by
  cases a with
  | startPublish publish qos retained =>
      exact startPublish_logs env client publish qos retained
  | retry now doRetry regardless =>
      exact retry_logs env _ now doRetry regardless client (SameExchanges.refl _)
  | continueWrites =>
      exact Net.Logs.of_eq rfl
  | closeOnly disconnect =>
      exact closeOnly_logs env _ client disconnect
  | completeConnection websocket =>
      exact completeConnection_logs env _ client websocket

theorem act_inboundMsgs
    (env : Env) (client : Clients) (a : Action) :
    (client.act env a).2.inboundMsgs = client.inboundMsgs := by
  cases a with
  | startPublish publish qos retained =>
      simp only [act, startPublish]
      split <;> rfl
  | retry now doRetry regardless =>
      exact (retry_spec env now doRetry regardless client).2.1
  | continueWrites =>
      rfl
  | closeOnly disconnect =>
      rfl
  | completeConnection websocket =>
      exact (completeConnection_spec env client websocket).2.1

theorem act_MQTTVersion
    (env : Env) (client : Clients) (a : Action) :
    (client.act env a).2.MQTTVersion = client.MQTTVersion := by
  cases a with
  | startPublish publish qos retained =>
      simp only [act, startPublish]
      split <;> rfl
  | retry now doRetry regardless =>
      exact (retry_spec env now doRetry regardless client).2.2
  | continueWrites =>
      rfl
  | closeOnly disconnect =>
      rfl
  | completeConnection websocket =>
      exact (completeConnection_spec env client websocket).2.2

/-- The message that a started publication of QoS 1 or 2 appends. -/
structure StartedMessage (publish : Publish) (qos : Nat) (retained : Bool) (m : Messages) :
    Prop where
  qos_eq : m.qos = qos
  retain_eq : m.retain = retained
  msgid_eq : m.msgid = publish.msgId
  version_eq : m.MQTTVersion = publish.MQTTVersion
  next_eq : m.nextMessageType = if qos = 2 then some .pubrec else none

theorem startPublish_outbound
    (env : Env) (client : Clients) (publish : Publish) {qos : Nat} (retained : Bool)
    (hqos : qos > 0) :
    ∃ m, StartedMessage publish qos retained m ∧
      (client.act env (.startPublish publish qos retained)).2.outboundMsgs =
        client.outboundMsgs ++ [m] := by
  simp only [act, startPublish, if_pos hqos]
  exact ⟨_, ⟨rfl, rfl, rfl, rfl, rfl⟩, rfl⟩

/-- Any other action leaves the outbound messages at their points of the exchange. -/
theorem act_outbound
    (env : Env) (client : Clients) (a : Action)
    (ha : ∀ publish qos retained, a = .startPublish publish qos retained → qos = 0) :
    SameExchanges client.outboundMsgs (client.act env a).2.outboundMsgs := by
  cases a with
  | startPublish publish qos retained =>
      have hqos : ¬qos > 0 := by
        have := ha publish qos retained rfl
        omega
      simp only [act, startPublish, if_neg hqos]
      exact SameExchanges.refl _
  | retry now doRetry regardless =>
      exact (retry_spec env now doRetry regardless client).1
  | continueWrites =>
      exact SameExchanges.refl _
  | closeOnly disconnect =>
      exact SameExchanges.refl _
  | completeConnection websocket =>
      exact (completeConnection_spec env client websocket).1

end Clients

/-! ### Packets -/

namespace MQTTProtocol

open MQTTPacket

/-- What a client may log when it handles a packet. -/
inductive HandlerOutput (client : Clients) : Packet → Output → Prop
  | processPublication (pack : Packet) (publish : Publish) :
      HandlerOutput client pack (.processPublication publish)
  | putPacket (pack : Packet) (msgId : MsgId) (rc : Int) :
      HandlerOutput client pack (.putPacket .pubrel msgId false rc)
  | ack (pack : Packet) (type : PacketType) (msgId : MsgId) (rc : Int) (store : Option Store)
      (htype : type ≠ .publish ∧ type ≠ .pubrel) :
      HandlerOutput client pack (.handed (ackHeader type false) msgId rc store)
  | pubrel (pubrec : Ack) (m : Messages) (rc : Int) (store : Option Store)
      (htype : pubrec.header.type = .pubrec)
      (hfound : findMsg client.outboundMsgs pubrec.msgId = some m)
      (hqos : m.qos = 2) :
      HandlerOutput client (.ack pubrec)
        (.handed (ackHeader .pubrel false) pubrec.msgId rc store)

theorem send_ack_logs
    (env : Env) (client : Clients) (pack : Packet) (MQTTVersion : Nat) {type : PacketType}
    (msgid : MsgId)
    (htype : type ≠ .publish ∧ type ≠ .pubrel) :
    Net.Logs (HandlerOutput client pack) client.net
      (send_ack env client.net MQTTVersion type msgid false).2 := by
  refine send_logs env client.net _ _ _ (fun rc h => ?_) (fun rc store => .ack pack _ _ rc store htype)
  exact absurd h htype.2

theorem remove_logs
    {P : Output → Prop}
    (env : Env) (net : Net) (type : Stem) (msgId : MsgId) :
    Net.Logs P net (MQTTPersistence.remove env net type msgId).2 :=
  Net.Logs.of_eq (MQTTPersistence.remove_same env net type msgId).2.2.1

theorem handlePublishes_logs
    (env : Env) (client : Clients) (publish : Publish) :
    Net.Logs (HandlerOutput client (.publish publish)) client.net
      (handlePublishes env client publish).2.net := by
  unfold handlePublishes
  split
  · exact Net.Logs.emit _ (.processPublication _ _)
  · split
    · exact Net.Logs.refl _
    · split
      · exact (send_ack_logs env client _ _ _ ⟨by decide, by decide⟩).trans
          (Net.Logs.emit _ (.processPublication _ _))
      · split
        · have hother : PacketType.pubrec ≠ .publish ∧ PacketType.pubrec ≠ .pubrel :=
            ⟨by decide, by decide⟩
          have hsend := send_ack_logs env client (.publish publish) publish.MQTTVersion
            publish.msgId hother
          dsimp only
          split
          · exact hsend
          · split
            · exact hsend.trans (Net.Logs.emit _ (.processPublication _ _))
            · exact hsend
        · exact Net.Logs.refl _

theorem handlePubrecs_logs
    (env : Env) (client : Clients) (pubrec : Ack)
    (htype : pubrec.header.type = .pubrec) :
    Net.Logs (HandlerOutput client (.ack pubrec)) client.net
      (handlePubrecs env client pubrec).2.net := by
  unfold handlePubrecs
  cases hfound : findMsg client.outboundMsgs pubrec.msgId with
  | none =>
      exact Net.Logs.refl _
  | some m =>
      dsimp only
      split
      · exact Net.Logs.refl _
      next hqos =>
        split
        · exact Net.Logs.refl _
        · split
          · exact remove_logs env client.net _ _
          · refine send_logs env client.net _ _ _ (fun rc _ => .putPacket _ _ rc)
              (fun rc store => ?_)
            rw [peekMsgId_ack]
            exact .pubrel pubrec m rc store htype hfound (not_not.mp hqos)

theorem handlePubrels_logs
    (env : Env) (client : Clients) (pubrel : Ack) :
    Net.Logs (HandlerOutput client (.ack pubrel)) client.net
      (handlePubrels env client pubrel).2.net := by
  have hother : PacketType.pubcomp ≠ .publish ∧ PacketType.pubcomp ≠ .pubrel :=
    ⟨by decide, by decide⟩
  have hsend := send_ack_logs env client (.ack pubrel) pubrel.MQTTVersion pubrel.msgId hother
  unfold handlePubrels
  cases hfound : findMsg client.inboundMsgs pubrel.msgId with
  | none =>
      dsimp only
      split
      · exact Net.Logs.refl _
      · split
        · exact Net.Logs.refl _
        · exact hsend
  | some m =>
      dsimp only
      split
      · exact Net.Logs.refl _
      · split
        · exact Net.Logs.refl _
        · split
          · exact Net.Logs.refl _
          · refine Net.Logs.trans ?_ (remove_logs env _ _ _)
            split
            · exact hsend
            · exact hsend.trans (Net.Logs.emit _ (.processPublication _ _))

/-- Everything the handling of a packet logs. -/
theorem handle_logs
    (env : Env) (client : Clients) (pack : Packet) :
    Net.Logs (HandlerOutput client pack) client.net (client.handle env pack).2.net := by
  cases pack with
  | publish publish =>
      exact handlePublishes_logs env client publish
  | ack pack =>
      simp only [Clients.handle]
      split
      · unfold handlePubacks
        split
        · exact Net.Logs.refl _
        · split
          · exact Net.Logs.refl _
          · exact remove_logs env client.net _ _
      next htype =>
        exact handlePubrecs_logs env client pack htype
      · exact handlePubrels_logs env client pack
      · unfold handlePubcomps
        split
        · exact Net.Logs.refl _
        · split
          · exact Net.Logs.refl _
          · split
            · exact Net.Logs.refl _
            · exact remove_logs env client.net _ _
      · exact Net.Logs.refl _

end MQTTProtocol

/-- What a client may log by an event. -/
def StepOutput (client : Clients) : Event → Output → Prop
  | .act a => MQTTProtocol.ActionOutput client.outboundMsgs a
  | .packet pack => MQTTProtocol.HandlerOutput client.start pack

/-- Everything a step logs. -/
theorem step_outputs
    {env : Env} {client client' : Clients} {e : Event}
    (hstep : client.Step env e client') :
    ∀ o ∈ client'.net.log, StepOutput client e o := by
  obtain ⟨_, rfl⟩ := hstep
  cases e with
  | act a =>
      exact (Clients.act_logs env client.start a).forall_mem rfl
  | packet pack =>
      exact (MQTTProtocol.handle_logs env client.start pack).forall_mem rfl

/-- Every PUBREL that a client sends, for the first time or again, has the same header. -/
theorem handed_pubrel_header
    {env : Env} {client client' : Clients} {e : Event} {header : Header} {msgId : MsgId} {rc : Int}
    {store : Option Store}
    (hstep : client.Step env e client')
    (hhanded : .handed header msgId rc store ∈ client'.net.log)
    (htype : header.type = .pubrel) :
    header = MQTTPacket.ackHeader .pubrel false := by
  have hout := step_outputs hstep _ hhanded
  cases e with
  | act a =>
      cases hout with
      | startPublish => cases htype
      | retryPublish => cases htype
      | retryPubrel => rfl
      | disconnect _ _ _ _ _ hdis =>
          rw [hdis] at htype
          cases htype
  | packet pack =>
      cases hout with
      | ack _ _ _ _ _ hother => exact absurd htype hother.2
      | pubrel => rfl

/-! ### What no packet changes -/

/-- No packet changes the version of the protocol or whether the client is connected. -/
theorem handle_fixed
    (env : Env) (client : Clients) (pack : Packet) :
    (client.handle env pack).2.MQTTVersion = client.MQTTVersion ∧
      (client.handle env pack).2.connected = client.connected := by
  cases pack with
  | publish publish =>
      simp only [Clients.handle, MQTTProtocol.handlePublishes]
      repeat' split
      all_goals exact ⟨rfl, rfl⟩
  | ack pack =>
      simp only [Clients.handle]
      split
      · unfold MQTTProtocol.handlePubacks
        repeat' split
        all_goals exact ⟨rfl, rfl⟩
      · unfold MQTTProtocol.handlePubrecs
        repeat' split
        all_goals exact ⟨rfl, rfl⟩
      · unfold MQTTProtocol.handlePubrels
        repeat' split
        all_goals exact ⟨rfl, rfl⟩
      · unfold MQTTProtocol.handlePubcomps
        repeat' split
        all_goals exact ⟨rfl, rfl⟩
      · exact ⟨rfl, rfl⟩

theorem handle_MQTTVersion
    (env : Env) (client : Clients) (pack : Packet) :
    (client.handle env pack).2.MQTTVersion = client.MQTTVersion :=
  (handle_fixed env client pack).1

theorem step_MQTTVersion
    {env : Env} {client client' : Clients} {e : Event}
    (hstep : client.Step env e client') :
    client'.MQTTVersion = client.MQTTVersion := by
  obtain ⟨_, rfl⟩ := hstep
  cases e with
  | act a => exact Clients.act_MQTTVersion env client.start a
  | packet pack => exact handle_MQTTVersion env client.start pack

theorem run_MQTTVersion
    {env : Env} {client client' : Clients} {tr : List (Lib.Transition Clients Event)}
    (hrun : Lib.Runs (Clients.Step env) client tr client') :
    (∀ x ∈ tr, x.pre.MQTTVersion = client.MQTTVersion) ∧
      client'.MQTTVersion = client.MQTTVersion := by
  have hall := hrun.invariant (I := fun c => c.MQTTVersion = client.MQTTVersion)
    (fun _ _ _ hI hstep => (step_MQTTVersion hstep).trans hI) rfl
  exact ⟨fun x hx => (hall.1 x hx).1, hall.2⟩

end PahoMqtt
