import PahoMqtt.Lib.SendWindow
import PahoMqtt.FlowControl

/-!
# The server's Receive Maximum

New publications are started while fewer messages are in flight than
`maxInflightMessages`, which a CONNACK lowers to its Receive Maximum.  The
re-sends do not look at it: neither those at the completion of a connection nor
those of a later retry.  The module says under which conditions on the steps the
PUBLISH packets that the server has not acknowledged stay within the Receive
Maximum all the same.
-/

namespace PahoMqtt

open MQTTPacket MQTTProtocol

/-! ### The messages that are sent again -/

/-- The ids of the messages that a retry would send as a PUBLISH. -/
def resendIds (msgs : List Messages) : List MsgId :=
  msgIds (msgs.filter resendable)

theorem resendIds_sublist
    (msgs : List Messages) :
    (resendIds msgs).Sublist (msgIds msgs) :=
  List.filter_sublist.map _

theorem SameExchange.resendable_eq
    {m m' : Messages}
    (h : Messages.SameExchange m m') :
    resendable m' = resendable m := by
  rw [resendable, resendable, h.qos, h.nextMessageType]

theorem SameExchanges.resendIds_eq
    {msgs msgs' : List Messages}
    (h : SameExchanges msgs msgs') :
    resendIds msgs' = resendIds msgs := by
  induction h with
  | nil =>
      rfl
  | @cons m m' msgs msgs' hm _ ih =>
      rw [resendIds, List.filter_cons, SameExchange.resendable_eq hm]
      rw [resendIds, resendIds] at ih
      rw [resendIds, List.filter_cons]
      by_cases hre : resendable m = true
      · rw [if_pos hre, if_pos hre]
        simp only [msgIds, List.map_cons] at ih ⊢
        rw [ih, hm.msgid]
      · rw [if_neg hre, if_neg hre]
        exact ih

theorem resendIds_removeMsg
    (msgs : List Messages) (msgid : MsgId) :
    resendIds (removeMsg msgs msgid) = (resendIds msgs).filter (· ≠ msgid) := by
  rw [resendIds, resendIds, removeMsg, msgIds, msgIds, List.filter_map, List.filter_filter,
    List.filter_filter]
  congr 2
  funext m
  exact Bool.and_comm _ _

theorem msgIds_removeMsg_eq
    (msgs : List Messages) (msgid : MsgId) :
    msgIds (removeMsg msgs msgid) = (msgIds msgs).filter (· ≠ msgid) := by
  rw [msgIds, msgIds, removeMsg, List.filter_map]
  rfl

/-- A message that has moved on to its PUBCOMP is no longer sent as a PUBLISH. -/
theorem resendIds_movedOn
    (env : Env) (net : Net) (msgs : List Messages) (msgid : MsgId) :
    (resendIds (modifyMsg msgs msgid (movedOn env net))).Sublist (resendIds msgs) := by
  induction msgs with
  | nil =>
      exact List.Sublist.slnil
  | cons m msgs ih =>
      have hcons : modifyMsg (m :: msgs) msgid (movedOn env net) =
          (if m.msgid = msgid then movedOn env net m else m) ::
            modifyMsg msgs msgid (movedOn env net) := rfl
      have hid : (if m.msgid = msgid then movedOn env net m else m).msgid = m.msgid := by
        split <;> rfl
      have hre : resendable (if m.msgid = msgid then movedOn env net m else m) = true →
          resendable m = true := by
        split
        · intro h
          simpa [resendable, movedOn] using Or.inl h
        · exact id
      rw [hcons, resendIds, resendIds, List.filter_cons, List.filter_cons]
      by_cases hmoved : resendable (if m.msgid = msgid then movedOn env net m else m) = true
      · rw [if_pos hmoved, if_pos (hre hmoved)]
        simp only [msgIds, List.map_cons, hid]
        exact List.Sublist.cons_cons _ ih
      · rw [if_neg hmoved]
        split
        · exact ih.trans (List.sublist_cons_self m.msgid _)
        · exact ih

/-! ### What a retry sends -/

theorem sentPublish_put
    (htype : PacketType) (msgId : MsgId) (scr : Bool) (rc : Int) :
    Output.sentPublish (.putPacket htype msgId scr rc) = none :=
  rfl

theorem sentPublish_handed
    (header : Header) (msgId : MsgId) (rc : Int) (store : Option Store) :
    (Output.sentPublish (.handed header msgId rc store)).toList.Sublist [msgId] := by
  unfold Output.sentPublish
  dsimp only
  split
  · exact List.Sublist.refl _
  · exact List.nil_sublist _

/-- The PUBLISH packets that a message gives rise to when it is retried. -/
theorem retryMessage_sends
    (env : Env) (retryInterval now : Int) (regardless : Bool) (net : Net) (m : Messages) :
    Net.Gains Output.sentPublish
      (if retryDue retryInterval now regardless m && resendable m then [m.msgid] else [])
      net (retryMessage env retryInterval now regardless net m).2.2 := by
  refine retryMessage_gains sentPublish_put rfl env retryInterval now regardless net m ?_ ?_
  · intro hdue hre rc store
    rw [hdue, hre]
    exact sentPublish_handed _ _ _ _
  · intro _ rc store
    have hnone : Output.sentPublish (.handed (ackHeader .pubrel false) m.msgid rc store) = none := by
      simp [Output.sentPublish, ackHeader]
    rw [hnone]
    exact List.nil_sublist _

/-- The pass of a retry comes to the messages of the client. -/
def retryRuns (client : Clients) (doRetry regardless : Bool) : Bool :=
  client.connected && client.good && Socket.noPendingWrites client.net && doRetry &&
    (regardless || client.retryInterval > 0)

/-- The messages that a retry of the client sends as a PUBLISH, unless a write fails. -/
def retried (client : Clients) (now : Int) (doRetry regardless : Bool) : List Messages :=
  if retryRuns client doRetry regardless then
    client.outboundMsgs.filter
      (fun m => retryDue client.retryInterval now regardless m && resendable m)
  else []

theorem retry_sends
    (env : Env) (client : Clients) (now : Int) (doRetry regardless : Bool) :
    Net.Gains Output.sentPublish (msgIds (retried client now doRetry regardless)) client.net
      (retry env now doRetry regardless client).net := by
  unfold retry
  split
  · exact Net.Gains.of_eq _ rfl
  next hconnected =>
    split
    · exact (Net.Gains.of_eq _ rfl).closeSession rfl
    next hgood =>
      split
      · exact Net.Gains.of_eq _ rfl
      next hpending =>
        split
        next hretry =>
          unfold retries
          split
          · exact Net.Gains.of_eq _ rfl
          next hinterval =>
            have hrun : retryRuns client doRetry regardless = true := by
              grind [retryRuns]
            rw [retried, if_pos hrun]
            exact retryLoop_gains env client.retryInterval now regardless _
              (retryMessage_sends env client.retryInterval now regardless) _ client.net _
        · exact Net.Gains.of_eq _ rfl

/-- A started publication is sent at most once, and only one of QoS 1 or 2 counts. -/
theorem startPublish_sends
    (env : Env) (client : Clients) (publish : Publish) {qos : Nat} (retained : Bool)
    (hqos : qos ≤ 2) :
    Net.Gains Output.sentPublish (if qos > 0 then [publish.msgId] else []) client.net
      (client.act env (.startPublish publish qos retained)).2.net := by
  simp only [Clients.act, startPublish]
  split
  next hpos =>
    have hid : qos = 1 ∨ qos = 2 := by omega
    exact send_publish_gains sentPublish_put env client.net
      { publish with
        properties := (createMessage (env.time_now client.net.calls) publish qos retained).properties
        MQTTVersion := publish.MQTTVersion } false retained hid
      (fun rc store => sentPublish_handed _ _ rc store)
  next hzero =>
    obtain rfl : qos = 0 := by omega
    obtain ⟨store, hlog⟩ := sends_observed sentPublish_put env client.net
      (publishHeader false 0 retained) ⟨publishBuffers publish 0, publish.mask⟩ publish.MQTTVersion
    apply Net.Gains.of_eq
    refine hlog.trans ?_
    simp [Output.sentPublish, publishHeader]

/-- Handling a packet sends no PUBLISH. -/
theorem handle_sentPublish
    (env : Env) (client : Clients) (pack : Packet) :
    ((client.start.handle env pack).2.net.log.filterMap Output.sentPublish) = [] := by
  rw [List.filterMap_eq_nil_iff]
  intro o ho
  have hout := (handle_logs env client.start pack).forall_mem rfl o ho
  cases hout with
  | processPublication | putPacket => rfl
  | ack _ _ _ _ _ hother => simp [Output.sentPublish, ackHeader, hother.1]
  | pubrel => simp [Output.sentPublish, ackHeader]

theorem retried_sublist
    (client : Clients) (now : Int) (doRetry regardless : Bool) :
    (msgIds (retried client now doRetry regardless)).Sublist (resendIds client.outboundMsgs) := by
  unfold retried
  split
  · have hfilter : client.outboundMsgs.filter
        (fun m => retryDue client.retryInterval now regardless m && resendable m) =
        (client.outboundMsgs.filter resendable).filter
          (retryDue client.retryInterval now regardless) := by
      rw [List.filter_filter]
    rw [hfilter]
    exact List.filter_sublist.map _
  · exact List.nil_sublist _

theorem completeConnection_sends
    (env : Env) (client : Clients) (websocket : Bool) :
    Net.Gains Output.sentPublish (resendIds client.outboundMsgs) client.net
      (MQTTAsync.completeConnection env client websocket).net := by
  unfold MQTTAsync.completeConnection
  dsimp only
  split
  · obtain ⟨sent, hsent, hlog⟩ := retry_sends env
      { client with
        net := { client.net with websocket }, connected := true, good := true
        outboundMsgs := client.outboundMsgs.map (fun m => { m with lastTouch := 0 }) } 0 true true
    refine ⟨sent, ?_, hlog⟩
    have hsub := hsent.trans (retried_sublist _ _ _ _)
    rwa [SameExchanges.resendIds_eq (sameExchanges_touch client.outboundMsgs 0)] at hsub
  · exact Net.Gains.of_eq _ rfl

/-! ### The window of a connection -/

namespace MQTTAsync.FlowState

/-- The QoS 1 and 2 PUBLISH packets that are not acknowledged are within the Receive Maximum. -/
def RespectsReceiveMaximum (s : FlowState) : Prop :=
  s.client.connected = true → (s.wire.unacked.length : Int) ≤ s.wire.receiveMaximum

/--
The step leaves room.  The options of a connect do not raise the limit of a
connection that there is, the messages to be sent again fit the Receive Maximum
of a CONNACK, and a retry comes to no message that is unacknowledged already.
-/
def LeavesRoom (s : FlowState) : FlowEvent → Prop
  | .connect options =>
      s.client.connected = true → min options.maxInflight 65534 ≤ s.wire.receiveMaximum
  | .connack connack _ _ _ _ =>
      s.connect_state = .waitForConnack → connack.rc = 0 →
        ((resendIds (s.kept connack)).length : Int) ≤ connack.receiveMaximum
  | .retry now doRetry regardless =>
      ∀ msgid ∈ msgIds (retried s.client now doRetry regardless), msgid ∉ s.wire.unacked
  | _ => True

instance (s : FlowState) : (e : FlowEvent) → Decidable (s.LeavesRoom e)
  | .connect options => inferInstanceAs (Decidable
      (s.client.connected = true → min options.maxInflight 65534 ≤ s.wire.receiveMaximum))
  | .connack connack _ _ _ _ => inferInstanceAs (Decidable
      (s.connect_state = .waitForConnack → connack.rc = 0 →
        ((resendIds (s.kept connack)).length : Int) ≤ connack.receiveMaximum))
  | .retry now doRetry regardless => inferInstanceAs (Decidable
      (∀ msgid ∈ msgIds (retried s.client now doRetry regardless), msgid ∉ s.wire.unacked))
  | .connecting _ => inferInstanceAs (Decidable True)
  | .processCommand .. => inferInstanceAs (Decidable True)
  | .writeInterrupted => inferInstanceAs (Decidable True)
  | .continueWrites => inferInstanceAs (Decidable True)
  | .packet _ => inferInstanceAs (Decidable True)
  | .disconnect => inferInstanceAs (Decidable True)
  | .closeOnly _ => inferInstanceAs (Decidable True)
  | .closeSession .. => inferInstanceAs (Decidable True)

/-- The unacknowledged packets and the messages in flight of a connection. -/
def Window (s : FlowState) : Prop :=
  Lib.SendWindow s.wire.receiveMaximum (s.wire.unacked : Multiset MsgId)
    (resendIds s.client.outboundMsgs : Multiset MsgId) (msgIds s.client.outboundMsgs : Multiset MsgId)

/-- What holds in every state. -/
structure WithinReceiveMaximum (s : FlowState) : Prop where
  version : s.client.MQTTVersion ≥ 5
  closed : s.client.connected = false → s.wire.unacked = []
  maxInflight : s.client.connected = true →
    min s.maxInflightMessages 65534 ≤ s.wire.receiveMaximum
  window : s.client.connected = true → s.Window

theorem WithinReceiveMaximum.respects
    {s : FlowState}
    (h : s.WithinReceiveMaximum) :
    s.RespectsReceiveMaximum :=
  fun hconnected => (h.window hconnected).card_le

theorem WithinReceiveMaximum.of_closed
    {s t : FlowState}
    (hversion : s.client.MQTTVersion ≥ 5)
    (h : Closed s t) :
    t.WithinReceiveMaximum where
  version := h.version ▸ hversion
  closed _ := by rw [h.wire]; rfl
  maxInflight hconnected := by rw [h.connected] at hconnected; cases hconnected
  window hconnected := by rw [h.connected] at hconnected; cases hconnected

/-- Only the net and the lists of the client have changed, and the window is still kept. -/
theorem WithinReceiveMaximum.of_client
    {s t : FlowState}
    (h : s.WithinReceiveMaximum)
    (hversion : t.client.MQTTVersion = s.client.MQTTVersion)
    (hconnected : t.client.connected = s.client.connected)
    (hmax : t.maxInflightMessages = s.maxInflightMessages)
    (hreceive : t.wire.receiveMaximum = s.wire.receiveMaximum)
    (hclosed : s.client.connected = false → t.wire.unacked = [])
    (hwindow : s.client.connected = true → t.Window) :
    t.WithinReceiveMaximum where
  version := hversion ▸ h.version
  closed hdown := hclosed (hconnected ▸ hdown)
  maxInflight hup := by
    rw [hmax, hreceive]
    exact h.maxInflight (hconnected ▸ hup)
  window hup := hwindow (hconnected ▸ hup)

/-- What completes a message acknowledges its PUBLISH. -/
theorem acknowledges_of_completes
    {pack : Ack} {m : Messages}
    (h : Completes pack m) :
    pack.acknowledges = true := by
  rcases h with ⟨htype, _⟩ | ⟨htype, _, _, hversion, hrc⟩ | ⟨htype, _⟩
  · simp [Ack.acknowledges, htype]
  · simp [Ack.acknowledges, htype, hversion, hrc]
  · simp [Ack.acknowledges, htype]

/-- Nothing that is still unacknowledged leaves the list, and nothing becomes due to be resent. -/
theorem ackEffect_ids
    {env : Env} {client client' : Clients} {pack : Ack} {unacked unacked' : List MsgId}
    (heffect : AckEffect env client pack client')
    (hsub : unacked'.Sublist unacked)
    (hack : pack.acknowledges = true → unacked' = unacked.filter (· ≠ pack.msgId))
    (hin : (unacked : Multiset MsgId) ≤ msgIds client.outboundMsgs) :
    (unacked' : Multiset MsgId) ≤ msgIds client'.outboundMsgs ∧
      (resendIds client'.outboundMsgs).Sublist (resendIds client.outboundMsgs) := by
  have hle : (unacked' : Multiset MsgId) ≤ unacked := Multiset.coe_le.mpr hsub.subperm
  cases heffect with
  | ignored _ _ hsame =>
      rw [hsame]
      exact ⟨hle.trans hin, List.Sublist.refl _⟩
  | completed m version _ hcompletes hclient =>
      have houtbound : client'.outboundMsgs = removeMsg client.outboundMsgs pack.msgId := by
        rw [hclient]
      rw [houtbound, resendIds_removeMsg, msgIds_removeMsg_eq,
        hack (acknowledges_of_completes hcompletes), ← Multiset.filter_coe, ← Multiset.filter_coe]
      exact ⟨Multiset.filter_le_filter _ hin, List.filter_sublist⟩
  | movedOn m _ _ hclient =>
      have houtbound : client'.outboundMsgs = modifyMsg client.outboundMsgs pack.msgId
          (PahoMqtt.movedOn env (send_pubrel env client.net pack.MQTTVersion pack.msgId false).2) := by
        rw [hclient]
      rw [houtbound, msgIds_movedOn]
      exact ⟨hle.trans hin, resendIds_movedOn _ _ _ _⟩

theorem resendIds_le
    (msgs : List Messages) :
    (resendIds msgs : Multiset MsgId) ≤ (msgIds msgs : Multiset MsgId) :=
  Multiset.coe_le.mpr (resendIds_sublist msgs).subperm

/-! ### The steps -/

section

variable {env : Env} {s : FlowState} (h : s.WithinReceiveMaximum)

include h

theorem within_connect
    {options : ConnectOptions}
    (hroom : s.LeavesRoom (.connect options)) :
    (s.next env (.connect options)).WithinReceiveMaximum where
  version := h.version
  closed := h.closed
  maxInflight := hroom
  window := h.window

theorem within_connack
    {connack : Connack} {websocket : Bool} {pkeys : Int × List Key} {more : Bool}
    {disconnect : Bytes}
    (hroom : s.LeavesRoom (.connack connack websocket pkeys more disconnect)) :
    (s.next env (.connack connack websocket pkeys more disconnect)).WithinReceiveMaximum := by
  simp only [next]
  split
  next hok =>
    obtain ⟨hkept, hversion, hlog, _⟩ := cleaned_spec env s pkeys connack
    set client := (s.cleaned env pkeys connack).2
    obtain ⟨hsame, _, hv⟩ := completeConnection_spec env client websocket
    obtain ⟨sent, hsent, hsentlog⟩ := completeConnection_sends env client websocket
    have hfive : (MQTTAsync.completeConnection env client websocket).MQTTVersion ≥ 5 := by
      rw [hv, hversion]
      exact h.version
    have hunacked : (s.complete env client connack websocket).wire.unacked = sent := by
      show [] ++ (MQTTAsync.completeConnection env client websocket).net.log.filterMap
        Output.sentPublish = sent
      rw [hsentlog, hlog]
      rfl
    refine ⟨hfive, ?_, ?_, ?_⟩
    · intro hdown
      have hup := Clients.completeConnection_connected env client websocket
      exact absurd (hup.symm.trans hdown) (by simp)
    · intro _
      show min (ite _ _ _) (65534 : Int) ≤ connack.receiveMaximum
      unfold Connack.receiveMaximum
      by_cases hhas : MQTTProperties.hasProperty connack.properties
          MQTTProperties.RECEIVE_MAXIMUM = true
      · rw [if_pos ⟨hfive, hhas⟩, if_pos hhas]
        omega
      · rw [if_neg hhas]
        omega
    · intro _
      have hids : resendIds (s.complete env client connack websocket).client.outboundMsgs =
          resendIds client.outboundMsgs := SameExchanges.resendIds_eq hsame
      have hpending := resendIds_le (s.complete env client connack websocket).client.outboundMsgs
      show Lib.SendWindow connack.receiveMaximum _ _ _
      rw [hids] at hpending
      rw [hunacked, hids]
      refine Lib.SendWindow.start (Multiset.coe_le.mpr hsent.subperm) hpending ?_
      rw [hkept]
      exact hroom hok.1 hok.2.1
  · exact .of_closed h.version (notCompleted_closed env s pkeys connack websocket more disconnect)

theorem within_processCommand
    {command : Command} {pub : Pub}
    (hadm : s.Admissible (.processCommand command pub)) :
    (s.next env (.processCommand command pub)).WithinReceiveMaximum := by
  obtain ⟨hpub, hlow, hhigh, hmay⟩ := hadm
  have hready := publishReady hpub hmay
  obtain ⟨hle, hpos⟩ := qos_toNat hlow hhigh
  have hmax := h.maxInflight hready.connected
  have hwindow := h.window hready.connected
  obtain ⟨sent, hsent, hlog⟩ := startPublish_sends env s.client.start
    (publishOf s.client command pub) (pub.retained ≠ 0) hle
  have hunacked : (s.next env (.processCommand command pub)).wire.unacked =
      s.wire.unacked ++ sent := congrArg (s.wire.unacked ++ ·) hlog
  refine h.of_client
    (Clients.act_MQTTVersion env s.client.start (.startPublish (publishOf s.client command pub)
      pub.qos.toNatClampNeg (pub.retained ≠ 0)))
    (Clients.startPublish_connected env s.client.start _ _ _) rfl rfl ?_ ?_
  · intro hdown
    exact absurd (hdown.symm.trans hready.connected) (by simp)
  · intro _
    unfold Window
    rw [hunacked]
    by_cases hqos : pub.qos.toNatClampNeg > 0
    · obtain ⟨m, hm, hlist⟩ := Clients.startPublish_outbound env s.client.start
        (publishOf s.client command pub) (pub.retained ≠ 0) hqos
      have houtbound : (s.next env (.processCommand command pub)).client.outboundMsgs =
          s.client.outboundMsgs ++ [m] := hlist
      rw [if_pos hqos, ← hm.msgid_eq] at hsent
      have hflow := hready.flow_control (hpos.mp hqos)
      have hleft := hready.ids_left
      refine Lib.SendWindow.of_inFlight ?_ (resendIds_le _) ?_
      · rw [houtbound, msgIds_append, ← Multiset.coe_add, ← Multiset.coe_add]
        exact add_le_add hwindow.outstanding_le (Multiset.coe_le.mpr hsent.subperm)
      · show ((Multiset.card _ : Nat) : Int) ≤ s.wire.receiveMaximum
        rw [houtbound, Multiset.coe_card, msgIds_append, List.length_append, List.length_singleton,
          msgIds, List.length_map]
        push_cast
        omega
    · rw [if_neg hqos, List.sublist_nil] at hsent
      have hsame := Clients.act_outbound env s.client.start
        (.startPublish (publishOf s.client command pub) pub.qos.toNatClampNeg (pub.retained ≠ 0))
        (fun _ _ _ heq => by cases heq; omega)
      have hids : msgIds (s.next env (.processCommand command pub)).client.outboundMsgs =
          msgIds s.client.outboundMsgs := hsame.msgIds_eq
      have hre : resendIds (s.next env (.processCommand command pub)).client.outboundMsgs =
          resendIds s.client.outboundMsgs := SameExchanges.resendIds_eq hsame
      rw [hsent, List.append_nil, hids, hre]
      exact hwindow

theorem within_retry
    {now : Int} {doRetry regardless : Bool}
    (hroom : s.LeavesRoom (.retry now doRetry regardless)) :
    (s.next env (.retry now doRetry regardless)).WithinReceiveMaximum := by
  obtain ⟨sent, hsent, hlog⟩ := retry_sends env s.client.start now doRetry regardless
  have hunacked : (s.next env (.retry now doRetry regardless)).wire.unacked =
      s.wire.unacked ++ sent := congrArg (s.wire.unacked ++ ·) hlog
  have hsame := Clients.act_outbound env s.client.start (.retry now doRetry regardless)
    (fun _ _ _ heq => by cases heq)
  have hids : msgIds (s.next env (.retry now doRetry regardless)).client.outboundMsgs =
      msgIds s.client.outboundMsgs := hsame.msgIds_eq
  have hre : resendIds (s.next env (.retry now doRetry regardless)).client.outboundMsgs =
      resendIds s.client.outboundMsgs := SameExchanges.resendIds_eq hsame
  refine h.of_client
    (Clients.act_MQTTVersion env s.client.start (.retry now doRetry regardless))
    (Clients.retry_connected env s.client.start _ _ _) rfl rfl ?_ ?_
  · intro hdown
    have hnone : retried s.client.start now doRetry regardless = [] := by
      unfold retried
      rw [if_neg]
      simp [retryRuns, Clients.start, hdown]
    rw [hnone] at hsent
    rw [hunacked, h.closed hdown, List.sublist_nil.mp hsent]
    rfl
  · intro hup
    unfold Window
    rw [hunacked, hids, hre, ← Multiset.coe_add]
    refine (h.window hup).resend ?_ ?_
    · exact Multiset.coe_le.mpr (hsent.trans (retried_sublist _ _ _ _)).subperm
    · intro msgid hmsgid
      exact hroom msgid (hsent.subset hmsgid)

theorem within_packet
    (pack : Packet) :
    (s.next env (.packet pack)).WithinReceiveMaximum := by
  have hunacked : (s.next env (.packet pack)).wire.unacked = (s.wire.receive pack).unacked := by
    show (s.wire.receive pack).unacked ++ _ = _
    rw [handle_sentPublish, List.append_nil]
  have hreceive : (s.wire.receive pack).unacked.Sublist s.wire.unacked := by
    unfold Wire.receive
    split
    · split
      · exact List.filter_sublist
      · exact List.Sublist.refl _
    · exact List.Sublist.refl _
  have hmax : (s.wire.receive pack).receiveMaximum = s.wire.receiveMaximum := by
    unfold Wire.receive
    split
    · split <;> rfl
    · rfl
  refine h.of_client (handle_MQTTVersion env s.client.start pack)
    (Clients.handle_connected env s.client.start pack) rfl hmax ?_ ?_
  · intro hdown
    rw [hunacked]
    rw [h.closed hdown] at hreceive
    exact List.sublist_nil.mp hreceive
  · intro hup
    have hwindow := h.window hup
    have hle : ((s.wire.receive pack).unacked : Multiset MsgId) ≤ s.wire.unacked :=
      Multiset.coe_le.mpr hreceive.subperm
    show Lib.SendWindow (s.wire.receive pack).receiveMaximum _ _ _
    rw [hmax, hunacked]
    rcases handle_outbound env s.client.start pack with ⟨ack, rfl, heffect⟩ | hsame
    · obtain ⟨hids, hre⟩ := ackEffect_ids heffect hreceive
        (fun hack => by simp [Wire.receive, hack]) hwindow.outstanding_le
      exact hwindow.mono hle (Multiset.coe_le.mpr hre.subperm) hids (resendIds_le _)
    · have houtbound : (s.next env (.packet pack)).client.outboundMsgs =
          s.client.outboundMsgs := hsame
      rw [houtbound]
      exact hwindow.mono hle (le_refl _) (hle.trans hwindow.outstanding_le) (resendIds_le _)

end

theorem step_within
    {env : Env} {s t : FlowState} {e : FlowEvent}
    (h : s.WithinReceiveMaximum)
    (hroom : s.LeavesRoom e)
    (hstep : s.Step env e t) :
    t.WithinReceiveMaximum := by
  obtain ⟨hadm, rfl⟩ := hstep
  cases e with
  | connect options => exact within_connect h hroom
  | connecting state =>
      obtain ⟨hdown, _⟩ := hadm
      exact ⟨h.version, fun _ => h.closed hdown, h.maxInflight, h.window⟩
  | connack connack websocket pkeys more disconnect => exact within_connack h hroom
  | processCommand command pub => exact within_processCommand h hadm
  | retry now doRetry regardless => exact within_retry h hroom
  | writeInterrupted => exact ⟨h.version, h.closed, h.maxInflight, h.window⟩
  | continueWrites =>
      have hunacked : (s.next env .continueWrites).wire.unacked = s.wire.unacked :=
        List.append_nil _
      refine h.of_client rfl rfl rfl rfl (fun hdown => hunacked.trans (h.closed hdown)) ?_
      intro hup
      unfold Window
      rw [hunacked]
      exact h.window hup
  | packet pack => exact within_packet h pack
  | disconnect => exact ⟨h.version, h.closed, h.maxInflight, h.window⟩
  | closeOnly disconnect => exact .of_closed h.version (closeOnly_closed env s disconnect)
  | closeSession disconnect pkeys =>
      exact .of_closed h.version (closeSession_closed env s disconnect pkeys)

/--
The PUBLISH packets of QoS 1 and 2 that are not acknowledged never exceed the
Receive Maximum of the connection, in a run whose steps all leave room.
-/
theorem receive_maximum_respected
    {env : Env} {s t : FlowState} {tr : List (Lib.Transition FlowState FlowEvent)}
    (hrun : Lib.Runs (Step env) s tr t)
    (hversion : s.client.MQTTVersion ≥ 5)
    (hconnected : s.client.connected = false)
    (hwire : s.wire = .closed)
    (hroom : ∀ x ∈ tr, x.pre.LeavesRoom x.event) :
    (∀ x ∈ tr, x.post.RespectsReceiveMaximum) ∧ t.RespectsReceiveMaximum := by
  have hdown : ¬s.client.connected = true := by simp [hconnected]
  have hstart : s.WithinReceiveMaximum :=
    ⟨hversion, fun _ => by rw [hwire]; rfl, fun hup => absurd hup hdown,
      fun hup => absurd hup hdown⟩
  obtain ⟨hall, hend⟩ := hrun.invariant_of
    (fun _ _ _ h hroom hstep => step_within h hroom hstep) hstart hroom
  exact ⟨fun x hx => (hall x hx).2.respects, hend.respects⟩

/-- Two messages are sent, and the connection is lost before they are acknowledged. -/
def twoInFlight : List FlowEvent :=
  [.connect keepSession, .connecting .waitForConnack, accepted false 2, qos1 1, qos1 2,
    .closeSession [] (0, []), .connecting .waitForConnack]

/-- Both messages are sent again to a server that takes two. -/
theorem receive_maximum_respected_two :
    ((twoInFlight ++ [accepted true 2]).foldl (next Env.reliable) (fresh 5 none)).wire.unacked =
        [1, 2] ∧
      ((twoInFlight ++ [accepted true 2]).foldl (next Env.reliable)
        (fresh 5 none)).RespectsReceiveMaximum := by
  have hrun : Lib.Runs (Step Env.reliable) (fresh 5 none) _
      ((twoInFlight ++ [accepted true 2]).foldl (next Env.reliable) (fresh 5 none)) :=
    runs_trace (by decide)
  exact ⟨by decide, (receive_maximum_respected hrun (by decide) rfl rfl (by decide)).2⟩

/-- Both messages are sent again to a server that takes one. -/
theorem receive_maximum_exceeded :
    ∃ tr t, Lib.Runs (Step Env.reliable) (fresh 5 none) tr t ∧ t.client.connected = true ∧
      t.wire.receiveMaximum = 1 ∧ t.wire.unacked = [1, 2] ∧ ¬t.RespectsReceiveMaximum := by
  refine ⟨_, (twoInFlight ++ [accepted true 1]).foldl (next Env.reliable) (fresh 5 none),
    runs_trace (by decide), by decide, by decide, by decide, ?_⟩
  intro hrespects
  exact absurd (hrespects (by decide)) (by decide)

end MQTTAsync.FlowState

end PahoMqtt
