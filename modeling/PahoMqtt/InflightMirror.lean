import PahoMqtt.Outbound

/-!
# The in-flight store mirrors the outbound list

With a store that works, the PUBLISH records of the store are those of the
messages in the outbound list, and its PUBREL records those of the messages that
wait for their PUBCOMP.  A step breaks this in two cases only, both for an id of
five digits: before MQTT 5 an acknowledgement that takes a message off the list
leaves its records in the store, because the removal stops at the key `sc5-`
that does not fit; from MQTT 5 on a PUBREL has no record, because its key does
not fit.
-/

namespace PahoMqtt

open MQTTPacket MQTTProtocol MQTTPersistence

theorem putStem_publish
    (MQTTVersion : Nat) :
    putStem .publish false MQTTVersion = sentStem MQTTVersion := by
  simp [putStem, sentStem]

theorem putStem_pubrel
    (MQTTVersion : Nat) :
    putStem .pubrel false MQTTVersion = pubrelStem MQTTVersion := by
  simp [putStem, pubrelStem]

theorem sentStem_mem
    (MQTTVersion : Nat) :
    sentStem MQTTVersion ∈ sentStems := by
  unfold sentStem
  split <;> decide

theorem pubrelStem_mem
    (MQTTVersion : Nat) :
    pubrelStem MQTTVersion ∈ sentStems := by
  unfold pubrelStem
  split <;> decide

theorem sentStem_ne_pubrelStem
    (MQTTVersion : Nat) :
    sentStem MQTTVersion ≠ pubrelStem MQTTVersion := by
  unfold sentStem pubrelStem
  split <;> decide

/-- The records of the sending side are those of the list. -/
structure Mirror (MQTTVersion : Nat) (msgs : List Messages) (store : Store) : Prop where
  publish : ∀ msgid : MsgId,
    (store ((sentStem MQTTVersion).key msgid.toNat)).isSome ↔ (findMsg msgs msgid).isSome
  pubrel : ∀ msgid : MsgId,
    (store ((pubrelStem MQTTVersion).key msgid.toNat)).isSome ↔
      ∃ m, findMsg msgs msgid = some m ∧ m.qos = 2 ∧ m.nextMessageType = some .pubcomp
  foreign : ∀ stem ∈ sentStems, stem ≠ sentStem MQTTVersion → stem ≠ pubrelStem MQTTVersion →
    ∀ msgid : MsgId, store (stem.key msgid.toNat) = none
  printed : ∀ msgid : MsgId, 10000 ≤ msgid.toNat → store (Stem.v5Pubrel.key msgid.toNat) = none

/-- The client has a store that mirrors its list. -/
def Mirrored (client : Clients) : Prop :=
  ∃ store, client.net.persistence = some store ∧
    Mirror client.MQTTVersion client.outboundMsgs store

theorem mirror_of_empty
    {MQTTVersion : Nat} {store : Store}
    (hnone : ∀ stem ∈ sentStems, ∀ msgid : MsgId, store (stem.key msgid.toNat) = none) :
    Mirror MQTTVersion [] store := by
  refine ⟨?_, ?_, ?_, ?_⟩
  · intro msgid
    simp [hnone _ (sentStem_mem _), findMsg]
  · intro msgid
    simp [hnone _ (pubrelStem_mem _), findMsg]
  · intro stem hstem _ _
    exact hnone stem hstem
  · intro msgid _
    exact hnone _ (by decide) msgid

/-- An id that is not in the list has no record under any stem of the sending side. -/
theorem Mirror.gone
    {MQTTVersion : Nat} {msgs : List Messages} {store : Store} {msgid : MsgId}
    (h : Mirror MQTTVersion msgs store)
    (hnone : findMsg msgs msgid = none) :
    ∀ stem ∈ sentStems, store (stem.key msgid.toNat) = none := by
  intro stem hstem
  by_cases hsent : stem = sentStem MQTTVersion
  · have hkey := (h.publish msgid).not.mpr (by simp [hnone])
    simpa [hsent] using hkey
  · by_cases hrel : stem = pubrelStem MQTTVersion
    · have hkey := (h.pubrel msgid).not.mpr (by simp [hnone])
      rw [hrel]
      simpa using hkey
    · exact h.foreign stem hstem hsent hrel msgid

/-- Messages at the same points of their exchanges, and records under the same keys. -/
theorem Mirror.of_same
    {MQTTVersion : Nat} {msgs msgs' : List Messages} {store store' : Store}
    (h : Mirror MQTTVersion msgs store)
    (hmsgs : SameExchanges msgs msgs')
    (hkeys : ∀ stem ∈ sentStems, ∀ msgid : MsgId,
      (store' (stem.key msgid.toNat)).isSome = (store (stem.key msgid.toNat)).isSome) :
    Mirror MQTTVersion msgs' store' := by
  have hnone : ∀ stem ∈ sentStems, ∀ msgid : MsgId, store (stem.key msgid.toNat) = none →
      store' (stem.key msgid.toNat) = none := by
    intro stem hstem msgid hgone
    have hsame := hkeys stem hstem msgid
    rw [hgone] at hsame
    simpa using hsame
  refine ⟨?_, ?_, ?_, ?_⟩
  · intro msgid
    rw [hkeys _ (sentStem_mem _), h.publish, findMsg_isSome, findMsg_isSome, hmsgs.msgIds_eq]
  · intro msgid
    rw [hkeys _ (pubrelStem_mem _), h.pubrel]
    have hrel := hmsgs.findMsg_rel msgid
    cases hm : findMsg msgs msgid with
    | none =>
        rw [hm] at hrel
        cases hm' : findMsg msgs' msgid with
        | none => simp
        | some m' =>
            rw [hm'] at hrel
            cases hrel
    | some m =>
        rw [hm] at hrel
        cases hm' : findMsg msgs' msgid with
        | none =>
            rw [hm'] at hrel
            cases hrel
        | some m' =>
            rw [hm'] at hrel
            cases hrel with
            | some hsame => simp [hsame.qos, hsame.nextMessageType]
  · intro stem hstem hsent hrel msgid
    exact hnone stem hstem msgid (h.foreign stem hstem hsent hrel msgid)
  · intro msgid hbig
    exact hnone _ (by decide) msgid (h.printed msgid hbig)

/-! ### What the steps do to the keys -/

/-- The same keys have records, with the same or other bytes. -/
def SameKeys (store store' : Store) : Prop :=
  ∀ key, (store' key).isSome = (store key).isSome

theorem putRecord_sameKeys
    {store : Store} {stem : Stem} {msgid : MsgId}
    (hkey : (store (stem.key msgid.toNat)).isSome)
    (record : Bytes) :
    SameKeys store (putRecord store stem msgid record) := by
  intro key
  unfold putRecord
  split
  · rw [Lib.ExactMap.put_apply]
    split
    next heq => rw [heq, hkey, Option.isSome_some]
    · rfl
  · rfl

/-- The records that retries write again. -/
def Recorded (msgs : List Messages) (store : Store) : Prop :=
  ∀ m ∈ msgs, (store ((sentStem m.MQTTVersion).key m.msgid.toNat)).isSome ∧
    (m.nextMessageType = some .pubcomp → m.qos = 2 →
      (store ((pubrelStem m.MQTTVersion).key m.msgid.toNat)).isSome)

/-- Where the records of the messages are there, the keys stay the same. -/
def KeepsKeys (msgs : List Messages) (net net' : Net) : Prop :=
  ∀ store, net.persistence = some store → Recorded msgs store →
    ∃ store', net'.persistence = some store' ∧ SameKeys store store'

theorem keepsKeys_of_eq
    {msgs : List Messages} {net net' : Net}
    (h : net'.persistence = net.persistence) :
    KeepsKeys msgs net net' :=
  fun store hstore _ => ⟨store, h.trans hstore, fun _ => rfl⟩

theorem keepsKeys_trans
    {msgs : List Messages} {net₁ net₂ net₃ : Net}
    (h₁ : KeepsKeys msgs net₁ net₂)
    (h₂ : KeepsKeys msgs net₂ net₃) :
    KeepsKeys msgs net₁ net₃ := by
  intro store hstore hrec
  obtain ⟨store₂, hstore₂, hsame₂⟩ := h₁ store hstore hrec
  have hrec₂ : Recorded msgs store₂ := by
    intro m hm
    rw [hsame₂, hsame₂]
    exact hrec m hm
  obtain ⟨store₃, hstore₃, hsame₃⟩ := h₂ store₂ hstore₂ hrec₂
  exact ⟨store₃, hstore₃, fun key => (hsame₃ key).trans (hsame₂ key)⟩

theorem retryMessage_keepsKeys
    {env : Env}
    (hworks : StoreWorks env)
    (retryInterval now : Int) (regardless : Bool) (net : Net)
    {msgs : List Messages} {m : Messages}
    (hm : m ∈ msgs)
    (hqos : m.qos = 1 ∨ m.qos = 2) :
    KeepsKeys msgs net (retryMessage env retryInterval now regardless net m).2.2 := by
  unfold retryMessage
  split
  · split
    next hpublish =>
      split
      · exact keepsKeys_of_eq rfl
      next p _ =>
        have hsend : KeepsKeys msgs net
            (send_publish env net (retryPublish m p) true m.qos m.retain).2.2 := by
          intro store hstore hrec
          refine ⟨_, send_publish_works hworks hstore (retryPublish m p) true m.retain hqos, ?_⟩
          rw [putStem_publish]
          exact putRecord_sameKeys (hrec m hm).1 _
        dsimp only
        split
        · exact keepsKeys_trans hsend (keepsKeys_of_eq rfl)
        · exact hsend
    next hpublish =>
      split
      next hnext =>
        have hqos₂ : m.qos = 2 := by
          rcases hqos with h | h
          · exact absurd (Or.inl h) hpublish
          · exact h
        have hsend : KeepsKeys msgs net (send_pubrel env net m.MQTTVersion m.msgid false).2 := by
          intro store hstore hrec
          obtain ⟨record, hput⟩ := send_pubrel_works hworks hstore m.MQTTVersion m.msgid false
          refine ⟨_, hput, ?_⟩
          rw [putStem_pubrel]
          exact putRecord_sameKeys ((hrec m hm).2 hnext.2 hqos₂) _
        dsimp only
        split
        · exact keepsKeys_trans hsend (keepsKeys_of_eq rfl)
        · exact hsend
      · exact keepsKeys_of_eq rfl
  · exact keepsKeys_of_eq rfl

theorem retry_keepsKeys
    {env : Env}
    (hworks : StoreWorks env)
    (now : Int) (doRetry regardless : Bool) {client : Clients}
    (hqos : ∀ m ∈ client.outboundMsgs, m.qos = 1 ∨ m.qos = 2) :
    KeepsKeys client.outboundMsgs client.net
      (retry env now doRetry regardless client).net :=
  retry_net env now doRetry regardless client (fun _ => keepsKeys_of_eq rfl)
    (fun _ _ _ => keepsKeys_trans) (fun _ => keepsKeys_of_eq rfl)
    (fun net m hm => retryMessage_keepsKeys hworks _ now regardless net hm (hqos m hm))

/-- The records of a mirrored list are there for its retries. -/
theorem Mirror.recorded
    {client : Clients} {store : Store}
    (h : Mirror client.MQTTVersion client.outboundMsgs store)
    (hinv : OutboundInv client) :
    Recorded client.outboundMsgs store := by
  intro m hm
  have hfound := findMsg_of_mem hinv.nodup hm
  rw [(hinv.entries m hm).2]
  refine ⟨(h.publish m.msgid).mpr (by simp [hfound]), ?_⟩
  intro hnext hqos
  exact (h.pubrel m.msgid).mpr ⟨m, hfound, hqos, hnext⟩

/-- A started publication of QoS 1 or 2 has its record stored. -/
theorem startPublish_works
    {env : Env} {client : Clients} {store : Store}
    (hworks : StoreWorks env)
    (hstore : client.net.persistence = some store)
    (publish : Publish) {qos : Nat} (retained : Bool)
    (hqos : qos = 1 ∨ qos = 2) :
    ∃ record, (startPublish env client publish qos retained).2.net.persistence =
      some (putRecord store (sentStem publish.MQTTVersion) publish.msgId record) := by
  have hpos : qos > 0 := by omega
  let m := createMessage (env.time_now client.net.calls) publish qos retained
  have hsend := send_publish_works hworks hstore
    { publish with properties := m.properties, MQTTVersion := m.MQTTVersion } false retained hqos
  rw [putStem_publish] at hsend
  unfold startPublish
  rw [if_pos hpos]
  exact ⟨_, hsend⟩

/-- An action that starts no publication keeps the keys of the store. -/
theorem act_keepsKeys
    {env : Env} {client : Clients}
    (hworks : StoreWorks env)
    (hinv : OutboundInv client)
    (a : Action)
    (ha : ∀ publish qos retained, a = .startPublish publish qos retained → qos = 0) :
    KeepsKeys client.outboundMsgs client.net (client.act env a).2.net := by
  have hqos : ∀ m ∈ client.outboundMsgs, m.qos = 1 ∨ m.qos = 2 :=
    fun m hm => (hinv.entries m hm).1.imp_right And.left
  cases a with
  | startPublish publish qos retained =>
      obtain rfl := ha publish qos retained rfl
      exact keepsKeys_of_eq (send_publish_qos0_persistence env client.net publish false retained)
  | retry now doRetry regardless =>
      exact retry_keepsKeys hworks now doRetry regardless hqos
  | continueWrites =>
      exact keepsKeys_of_eq rfl
  | closeOnly disconnect =>
      refine keepsKeys_of_eq ?_
      simp only [Clients.act, MQTTAsync.closeOnly]
      split
      · exact send_persistence_other env client.net _ disconnect _ (by simp)
      · rfl
  | completeConnection websocket =>
      simp only [Clients.act, MQTTAsync.completeConnection]
      split
      · intro store hstore hrec
        have htouched : ∀ m ∈ client.outboundMsgs.map (fun m => { m with lastTouch := 0 }),
            m.qos = 1 ∨ m.qos = 2 := by
          intro m hm
          obtain ⟨x, hx, rfl⟩ := List.mem_map.mp hm
          exact hqos x hx
        have hretry := @retry_keepsKeys env hworks 0 true true
          { client with
            net := { client.net with websocket }, connected := true, good := true
            outboundMsgs := client.outboundMsgs.map (fun m => { m with lastTouch := 0 }) }
          htouched
        refine hretry store hstore ?_
        intro m hm
        obtain ⟨x, hx, rfl⟩ := List.mem_map.mp hm
        exact hrec x hx
      · exact keepsKeys_of_eq rfl

/-- A packet of the receiving side keeps the records of the sending side. -/
theorem handlePublishes_persistence
    (env : Env) (client : Clients) (publish : Publish) :
    (handlePublishes env client publish).2.net.persistence = client.net.persistence := by
  have hsend : ∀ type ≠ PacketType.pubrel,
      (send_ack env client.net publish.MQTTVersion type publish.msgId false).2.persistence =
        client.net.persistence :=
    fun type htype => send_persistence_other env client.net (ackHeader type false) _ _ htype
  have hrec := hsend .pubrec (by decide)
  have hack := hsend .puback (by decide)
  simp only [handlePublishes]
  repeat' split
  all_goals first
    | rfl
    | exact hack
    | exact hrec

theorem handlePubrels_sentRecords
    {env : Env} {client : Clients} {store : Store}
    (hworks : StoreWorks env)
    (hstore : client.net.persistence = some store)
    (pubrel : Ack) :
    ∃ store', (handlePubrels env client pubrel).2.net.persistence = some store' ∧
      ∀ stem ∈ sentStems, ∀ msgid : MsgId,
        store' (stem.key msgid.toNat) = store (stem.key msgid.toNat) := by
  have hsend : (send_pubcomp env client.net pubrel.MQTTVersion pubrel.msgId).2.persistence =
      some store :=
    (send_persistence_other env client.net (ackHeader .pubcomp false) _ _ (by decide)).trans hstore
  have hsame : ∃ store', some store = some store' ∧
      ∀ stem ∈ sentStems, ∀ msgid : MsgId,
        store' (stem.key msgid.toNat) = store (stem.key msgid.toNat) :=
    ⟨store, rfl, fun _ _ _ => rfl⟩
  unfold handlePubrels
  split
  · split
    · rw [hstore]
      exact hsame
    · split
      · rw [hstore]
        exact hsame
      · dsimp only
        rw [hsend]
        exact hsame
  next m _ =>
    split
    · rw [hstore]
      exact hsame
    · split
      · rw [hstore]
        exact hsame
      · split
        · rw [hstore]
          exact hsame
        · have htype : ¬((if m.MQTTVersion ≥ 5 then Stem.v5PublishReceived
              else Stem.publishReceived) = .publishSent ∨
              (if m.MQTTVersion ≥ 5 then Stem.v5PublishReceived
                else Stem.publishReceived) = .v5PublishSent) := by
            split <;> decide
          have hsame' : ∀ net : Net, net.persistence = some store →
              (remove env net _ pubrel.msgId).2.persistence = _ :=
            fun net h => remove_received_works hworks h htype pubrel.msgId
          refine ⟨_, hsame' _ ?_, ?_⟩
          · split
            · exact hsend
            · exact hsend
          · intro stem hstem msgid
            rw [removeRecords_apply, if_neg]
            rintro ⟨_, htake⟩
            have hmem := (List.takeWhile_prefix _).subset htake
            revert hstem hmem
            cases stem <;> decide

/-! ### The steps that change the keys -/

/-- A started publication brings its record. -/
theorem Mirror.append
    {MQTTVersion : Nat} {msgs : List Messages} {store : Store} {m : Messages}
    (h : Mirror MQTTVersion msgs store)
    (hnew : findMsg msgs m.msgid = none)
    (hnext : m.nextMessageType ≠ some .pubcomp)
    (record : Bytes) :
    Mirror MQTTVersion (msgs ++ [m])
      (putRecord store (sentStem MQTTVersion) m.msgid record) := by
  have hother : ∀ stem, stem ≠ sentStem MQTTVersion → ∀ msgid : MsgId,
      putRecord store (sentStem MQTTVersion) m.msgid record (stem.key msgid.toNat) =
        store (stem.key msgid.toNat) := by
    intro stem hne msgid
    rw [putRecord_apply, if_neg (fun hc => hne hc.1)]
  refine ⟨?_, ?_, ?_, ?_⟩
  · intro msgid
    rw [putRecord_apply, findMsg_append]
    by_cases hid : msgid = m.msgid
    · simp [hid, hnew, sentStem_fits]
    · simp [hid, Ne.symm hid, h.publish]
  · intro msgid
    rw [hother _ (sentStem_ne_pubrelStem MQTTVersion).symm, h.pubrel, findMsg_append]
    by_cases hid : m.msgid = msgid
    · subst hid
      simp [hnew, hnext]
    · simp [hid]
  · intro stem hstem hsent hrel msgid
    rw [hother stem hsent]
    exact h.foreign stem hstem hsent hrel msgid
  · intro msgid hbig
    have hne : Stem.v5Pubrel ≠ sentStem MQTTVersion := by
      unfold sentStem
      split <;> decide
    rw [hother _ hne]
    exact h.printed msgid hbig

/-- An acknowledgement that takes a message off the list takes its records along. -/
theorem Mirror.completed
    {MQTTVersion : Nat} {msgs : List Messages} {store : Store} {msgid : MsgId}
    (h : Mirror MQTTVersion msgs store)
    (hfits : MQTTVersion < 5 → msgid.toNat < 10000) :
    Mirror MQTTVersion (removeMsg msgs msgid) (removeRecords msgid store sentStems) := by
  have hgone : ∀ stem ∈ sentStems,
      removeRecords msgid store sentStems (stem.key msgid.toNat) = none := by
    intro stem hstem
    rw [removeRecords_sentStems store stem msgid msgid hstem]
    by_cases hsmall : msgid.toNat < 10000
    · simp [hsmall]
    · have hfive : MQTTVersion ≥ 5 := by
        by_contra hlt
        exact hsmall (hfits (by omega))
      by_cases hsent : stem = .v5PublishSent
      · simp [hsent]
      · rw [if_neg (by simp [hsmall, hsent])]
        by_cases hrel : stem = .v5Pubrel
        · rw [hrel]
          exact h.printed msgid (by omega)
        · refine h.foreign stem hstem ?_ ?_ msgid
          · simpa [sentStem, hfive] using hsent
          · simpa [pubrelStem, hfive] using hrel
  have hkept : ∀ stem ∈ sentStems, ∀ j : MsgId, j ≠ msgid →
      removeRecords msgid store sentStems (stem.key j.toNat) = store (stem.key j.toNat) := by
    intro stem hstem j hj
    rw [removeRecords_sentStems store stem msgid j hstem, if_neg (fun hc => hj hc.1)]
  refine ⟨?_, ?_, ?_, ?_⟩
  · intro j
    rw [findMsg_removeMsg]
    by_cases hj : j = msgid
    · simp [hj, hgone _ (sentStem_mem _)]
    · rw [hkept _ (sentStem_mem _) j hj, if_neg hj]
      exact h.publish j
  · intro j
    rw [findMsg_removeMsg]
    by_cases hj : j = msgid
    · simp [hj, hgone _ (pubrelStem_mem _)]
    · rw [hkept _ (pubrelStem_mem _) j hj, if_neg hj]
      exact h.pubrel j
  · intro stem hstem hsent hrel j
    by_cases hj : j = msgid
    · rw [hj]
      exact hgone stem hstem
    · rw [hkept stem hstem j hj]
      exact h.foreign stem hstem hsent hrel j
  · intro j hbig
    by_cases hj : j = msgid
    · rw [hj]
      exact hgone _ (by decide)
    · rw [hkept _ (by decide) j hj]
      exact h.printed j hbig

/-- Before MQTT 5 an id of five digits leaves its PUBLISH record behind. -/
theorem not_mirror_completed
    {MQTTVersion : Nat} {msgs : List Messages} {store : Store} {msgid : MsgId} {m : Messages}
    (h : Mirror MQTTVersion msgs store)
    (hfound : findMsg msgs msgid = some m)
    (hlow : MQTTVersion < 5)
    (hbig : ¬msgid.toNat < 10000) :
    ¬Mirror MQTTVersion (removeMsg msgs msgid) (removeRecords msgid store sentStems) := by
  intro h'
  have hstem : sentStem MQTTVersion = .publishSent := by
    unfold sentStem
    rw [if_neg (by omega)]
  have hkey : (store ((sentStem MQTTVersion).key msgid.toNat)).isSome :=
    (h.publish msgid).mpr (by simp [hfound])
  have hsome := (h'.publish msgid).mp (by
    rw [removeRecords_sentStems store _ msgid msgid (sentStem_mem _), if_neg]
    · exact hkey
    · rw [hstem]
      rintro ⟨_, hc | hc⟩
      · exact hbig hc
      · cases hc)
  rw [findMsg_removeMsg, if_pos rfl] at hsome
  cases hsome

/-- An accepted PUBREC brings the record of the PUBREL, if its key fits. -/
theorem Mirror.movedOn
    {env : Env} {net : Net} {MQTTVersion : Nat} {msgs : List Messages} {store : Store}
    {msgid : MsgId} {m : Messages}
    (h : Mirror MQTTVersion msgs store)
    (hfound : findMsg msgs msgid = some m)
    (hqos : m.qos = 2)
    (hfits : KeyFits (pubrelStem MQTTVersion) msgid)
    (record : Bytes) :
    Mirror MQTTVersion (modifyMsg msgs msgid (PahoMqtt.movedOn env net))
      (putRecord store (pubrelStem MQTTVersion) msgid record) := by
  have hother : ∀ stem, stem ≠ pubrelStem MQTTVersion → ∀ j : MsgId,
      putRecord store (pubrelStem MQTTVersion) msgid record (stem.key j.toNat) =
        store (stem.key j.toNat) := by
    intro stem hne j
    rw [putRecord_apply, if_neg (fun hc => hne hc.1)]
  refine ⟨?_, ?_, ?_, ?_⟩
  · intro j
    rw [hother _ (sentStem_ne_pubrelStem MQTTVersion), h.publish, findMsg_isSome, findMsg_isSome,
      msgIds_movedOn]
  · intro j
    rw [putRecord_apply, findMsg_movedOn]
    by_cases hj : j = msgid
    · simp [hj, hfits, hfound, PahoMqtt.movedOn, hqos]
    · simp [hj, h.pubrel]
  · intro stem hstem hsent hrel j
    rw [hother stem hrel]
    exact h.foreign stem hstem hsent hrel j
  · intro j hbig
    rw [putRecord_apply, if_neg]
    · exact h.printed j hbig
    · rintro ⟨hstem, rfl, _⟩
      exact hfits ⟨hstem.symm, hbig⟩

theorem not_mirror_movedOn
    {env : Env} {net : Net} {MQTTVersion : Nat} {msgs : List Messages} {store : Store}
    {msgid : MsgId} {m : Messages}
    (h : Mirror MQTTVersion msgs store)
    (hfound : findMsg msgs msgid = some m)
    (hqos : m.qos = 2)
    (hfive : MQTTVersion ≥ 5)
    (hbig : ¬msgid.toNat < 10000)
    (record : Bytes) :
    ¬Mirror MQTTVersion (modifyMsg msgs msgid (PahoMqtt.movedOn env net))
      (putRecord store (pubrelStem MQTTVersion) msgid record) := by
  intro h'
  have hstem : pubrelStem MQTTVersion = .v5Pubrel := if_pos hfive
  have hfits : ¬KeyFits (pubrelStem MQTTVersion) msgid := by
    rw [hstem]
    exact fun hc => hc ⟨rfl, by omega⟩
  have hsome := (h'.pubrel msgid).mpr ⟨PahoMqtt.movedOn env net m, by
    rw [findMsg_movedOn, if_pos rfl, hfound]
    rfl, hqos, rfl⟩
  rw [putRecord, if_neg hfits, hstem, h.printed msgid (by omega)] at hsome
  cases hsome

/-! ### The steps of a run -/

/--
The step is not one of those that break the mirror: before MQTT 5, the
completion of a message with a five-digit id; from MQTT 5 on, an accepted PUBREC
of such a message.
-/
def KeysFit (client : Clients) : Event → Prop
  | .packet (.ack pack) =>
      ∀ m, findMsg client.outboundMsgs pack.msgId = some m →
        (client.MQTTVersion < 5 → Completes pack m → pack.msgId.toNat < 10000) ∧
        (client.MQTTVersion ≥ 5 → MovesOn pack m → pack.msgId.toNat < 10000)
  | _ => True

/-- The outcome of an acknowledgement mirrors the list exactly when the keys fit. -/
theorem ackEffect_mirrored_iff
    {env : Env} {client client' : Clients} {pack : Ack} {store : Store}
    (hworks : StoreWorks env)
    (hstore : client.net.persistence = some store)
    (hmirror : Mirror client.MQTTVersion client.outboundMsgs store)
    (hversion : pack.MQTTVersion = client.MQTTVersion)
    (heffect : AckEffect env client pack client') :
    Mirrored client' ↔ KeysFit client (.packet (.ack pack)) := by
  cases heffect with
  | ignored hcompletes hmoves hsame =>
      subst hsame
      refine iff_of_true ⟨store, hstore, hmirror⟩ ?_
      intro m hfound
      exact ⟨fun _ h => absurd h (hcompletes m hfound), fun _ h => absurd h (hmoves m hfound)⟩
  | completed m MQTTVersion hfound hcompletes hclient =>
      subst hclient
      have htype : sentStem MQTTVersion = .publishSent ∨ sentStem MQTTVersion = .v5PublishSent := by
        unfold sentStem
        split <;> decide
      have hremoved := remove_works hworks hstore htype pack.msgId
      have hmoves : ¬MovesOn pack m := by
        rintro ⟨htype, _, hnext, hok⟩
        rcases hcompletes with ⟨h, _⟩ | ⟨_, _, _, h⟩ | ⟨h, _⟩
        · rw [htype] at h
          cases h
        · exact hok h
        · rw [htype] at h
          cases h
      have hfit : KeysFit client (.packet (.ack pack)) ↔
          (client.MQTTVersion < 5 → pack.msgId.toNat < 10000) := by
        constructor
        · intro h hlow
          exact (h m hfound).1 hlow hcompletes
        · intro h m' hfound'
          obtain rfl : m = m' := Option.some.inj (hfound.symm.trans hfound')
          exact ⟨fun hlow _ => h hlow, fun _ hm => absurd hm hmoves⟩
      rw [hfit]
      constructor
      · rintro ⟨store', hstore', hmirror'⟩ hlow
        obtain rfl := Option.some.inj (hremoved.symm.trans hstore')
        by_contra hbig
        exact not_mirror_completed hmirror hfound hlow hbig hmirror'
      · intro h
        exact ⟨_, hremoved, hmirror.completed h⟩
  | movedOn m hfound hmoves hclient =>
      subst hclient
      obtain ⟨record, hput⟩ :=
        send_pubrel_works hworks hstore pack.MQTTVersion pack.msgId false
      rw [putStem_pubrel, hversion] at hput
      have hcompletes : ¬Completes pack m := by
        rintro (⟨h, _⟩ | ⟨_, _, _, h⟩ | ⟨h, _⟩)
        · rw [hmoves.1] at h
          cases h
        · exact hmoves.2.2.2 h
        · rw [hmoves.1] at h
          cases h
      have hfit : KeysFit client (.packet (.ack pack)) ↔
          (client.MQTTVersion ≥ 5 → pack.msgId.toNat < 10000) := by
        constructor
        · intro h hfive
          exact (h m hfound).2 hfive hmoves
        · intro h m' hfound'
          obtain rfl : m = m' := Option.some.inj (hfound.symm.trans hfound')
          exact ⟨fun _ hc => absurd hc hcompletes, fun hfive _ => h hfive⟩
      rw [hfit]
      constructor
      · rintro ⟨store', hstore', hmirror'⟩ hfive
        rw [← hversion] at hput
        obtain rfl := Option.some.inj (hput.symm.trans hstore')
        rw [hversion] at hmirror'
        by_contra hbig
        exact not_mirror_movedOn hmirror hfound hmoves.2.1 hfive hbig record hmirror'
      · intro h
        have hfits : KeyFits (pubrelStem client.MQTTVersion) pack.msgId := by
          rintro ⟨hstem, hbig⟩
          have hfive : client.MQTTVersion ≥ 5 := by
            by_contra hlow
            rw [pubrelStem, if_neg hlow] at hstem
            cases hstem
          have := h hfive
          omega
        rw [← hversion] at hput
        refine ⟨_, hput, ?_⟩
        rw [hversion]
        exact hmirror.movedOn hfound hmoves.2.1 hfits record

/-- A step keeps the mirror exactly when the keys fit. -/
theorem step_mirrored_iff
    {env : Env} {client client' : Clients} {e : Event}
    (hworks : StoreWorks env)
    (hinv : OutboundInv client)
    (hmirrored : Mirrored client)
    (hstep : client.Step env e client') :
    Mirrored client' ↔ KeysFit client e := by
  obtain ⟨store, hstore, hmirror⟩ := hmirrored
  have hstart : OutboundInv client.start := ⟨hinv.nodup, hinv.entries⟩
  have hstore₀ : client.start.net.persistence = some store := hstore
  have hversion := step_MQTTVersion hstep
  obtain ⟨hadm, rfl⟩ := hstep
  cases e with
  | act a =>
      refine iff_of_true ?_ trivial
      by_cases hpub : ∃ publish qos retained, a = .startPublish publish qos retained ∧ qos > 0
      · obtain ⟨publish, qos, retained, rfl, hpos⟩ := hpub
        obtain ⟨hpack, hle, hnew⟩ := hadm
        obtain ⟨_, hnone⟩ := hnew hpos
        have hqos : qos = 1 ∨ qos = 2 := by omega
        obtain ⟨m, hm, hlist⟩ :=
          Clients.startPublish_outbound env client.start publish retained hpos
        obtain ⟨record, hput⟩ := startPublish_works hworks hstore₀ publish retained hqos
        rw [hpack, ← hm.msgid_eq] at hput
        refine ⟨_, hput, ?_⟩
        show Mirror (client.outcome env (.act (.startPublish publish qos retained))).2.MQTTVersion
          (client.start.act env (.startPublish publish qos retained)).2.outboundMsgs _
        rw [hversion, hlist]
        refine hmirror.append (hm.msgid_eq ▸ hnone) ?_ record
        rw [hm.next_eq]
        split <;> simp
      · have hzero : ∀ publish qos retained, a = .startPublish publish qos retained → qos = 0 := by
          intro publish qos retained ha
          by_contra h
          exact hpub ⟨publish, qos, retained, ha, by omega⟩
        obtain ⟨store', hstore', hkeys⟩ := act_keepsKeys hworks hstart a hzero store hstore₀
          (hmirror.recorded hinv)
        refine ⟨store', hstore', ?_⟩
        rw [hversion]
        exact hmirror.of_same (Clients.act_outbound env client.start a hzero)
          (fun stem _ msgid => hkeys _)
  | packet pack =>
      have hkept : ∀ client' : Clients, client'.MQTTVersion = client.MQTTVersion →
          client'.outboundMsgs = client.outboundMsgs →
          (∃ store', client'.net.persistence = some store' ∧
            ∀ stem ∈ sentStems, ∀ msgid : MsgId,
              store' (stem.key msgid.toNat) = store (stem.key msgid.toNat)) →
          Mirrored client' := by
        rintro client' hv hmsgs ⟨store', hstore', hkeys⟩
        refine ⟨store', hstore', ?_⟩
        rw [hv, hmsgs]
        exact hmirror.of_same (SameExchanges.refl _)
          (fun stem hstem msgid => by rw [hkeys stem hstem])
      cases pack with
      | publish publish =>
          refine iff_of_true ?_ trivial
          exact hkept _ hversion (handlePublishes_outbound env client.start publish)
            ⟨store, (handlePublishes_persistence env client.start publish).trans hstore₀,
              fun _ _ _ => rfl⟩
      | ack pack =>
          have hfit : KeysFit client.start (.packet (.ack pack)) ↔
              KeysFit client (.packet (.ack pack)) := Iff.rfl
          have hother : pack.header.type ≠ .puback → pack.header.type ≠ .pubrec →
              pack.header.type ≠ .pubcomp → KeysFit client (.packet (.ack pack)) := by
            intro h₁ h₂ h₃ m _
            refine ⟨?_, ?_⟩
            · rintro _ (⟨h, _⟩ | ⟨h, _⟩ | ⟨h, _⟩)
              · exact absurd h h₁
              · exact absurd h h₂
              · exact absurd h h₃
            · rintro _ ⟨h, _⟩
              exact absurd h h₂
          have heffect : ∀ client' : Clients, AckEffect env client.start pack client' →
              (Mirrored client' ↔ KeysFit client (.packet (.ack pack))) :=
            fun client' h => @ackEffect_mirrored_iff _ client.start _ _ _ hworks hstore₀
              hmirror hadm h
          revert hversion
          simp only [Clients.outcome, Clients.handle]
          split
          next htype =>
            intro _
            exact heffect _ (handlePubacks_effect env client.start pack htype)
          next htype =>
            intro _
            exact heffect _ (handlePubrecs_effect env client.start pack htype)
          next htype =>
            intro hversion
            refine iff_of_true ?_ (hother (by simp [htype]) (by simp [htype]) (by simp [htype]))
            exact hkept _ hversion (handlePubrels_outbound env client.start pack)
              (handlePubrels_sentRecords hworks hstore₀ pack)
          next htype =>
            intro _
            exact heffect _ (handlePubcomps_effect env client.start pack htype)
          next h₁ h₂ _ h₄ =>
            intro _
            exact iff_of_true ⟨store, hstore₀, hmirror⟩ (hother h₁ h₂ h₄)

/-- What the store holds after a step: the mirror, and nothing of a message that is finished. -/
def MirroredAfter (x : Lib.Transition Clients Event) : Prop :=
  ∃ store, x.post.net.persistence = some store ∧
    Mirror x.post.MQTTVersion x.post.outboundMsgs store ∧
    ∀ pack m, x.event = .packet (.ack pack) →
      findMsg x.pre.outboundMsgs pack.msgId = some m → Completes pack m →
        ∀ stem ∈ sentStems, store (stem.key pack.msgId.toNat) = none

/-- A message that an acknowledgement completes is not in the list afterwards. -/
theorem step_completed_absent
    {env : Env} {client client' : Clients} {pack : Ack} {m : Messages}
    (hstep : client.Step env (.packet (.ack pack)) client')
    (hfound : findMsg client.outboundMsgs pack.msgId = some m)
    (hcompletes : Completes pack m) :
    findMsg client'.outboundMsgs pack.msgId = none := by
  obtain ⟨_, rfl⟩ := hstep
  have hclear : ∀ client', AckEffect env client.start pack client' →
      findMsg client'.outboundMsgs pack.msgId = none := by
    intro client' heffect
    cases heffect with
    | ignored h _ _ =>
        exact absurd hcompletes (h m hfound)
    | completed _ _ _ _ hclient =>
        subst hclient
        rw [findMsg_removeMsg, if_pos rfl]
    | movedOn m' hfound' hmoves _ =>
        obtain rfl : m = m' := Option.some.inj (hfound.symm.trans hfound')
        exfalso
        rcases hcompletes with ⟨h, _⟩ | ⟨_, _, _, h⟩ | ⟨h, _⟩
        · rw [hmoves.1] at h
          cases h
        · exact hmoves.2.2.2 h
        · rw [hmoves.1] at h
          cases h
  have hout : (client.outcome env (.packet (.ack pack))).2 =
      (client.start.handle env (.ack pack)).2 := rfl
  rw [hout]
  simp only [Clients.handle]
  rcases hcompletes with ⟨htype, _⟩ | ⟨htype, _⟩ | ⟨htype, _⟩
  · rw [htype]
    exact hclear _ (handlePubacks_effect env client.start pack htype)
  · rw [htype]
    exact hclear _ (handlePubrecs_effect env client.start pack htype)
  · rw [htype]
    exact hclear _ (handlePubcomps_effect env client.start pack htype)

theorem mirroredAfter_iff
    {env : Env} {x : Lib.Transition Clients Event}
    (hstep : x.pre.Step env x.event x.post) :
    MirroredAfter x ↔ Mirrored x.post := by
  constructor
  · rintro ⟨store, hstore, hmirror, _⟩
    exact ⟨store, hstore, hmirror⟩
  · rintro ⟨store, hstore, hmirror⟩
    refine ⟨store, hstore, hmirror, ?_⟩
    intro pack m hevent hfound hcompletes
    rw [hevent] at hstep
    exact hmirror.gone (step_completed_absent hstep hfound hcompletes)

/--
Over every run with a store that works, the store mirrors the outbound list
after all steps exactly when the keys fit in all of them.
-/
theorem store_mirrors_iff
    {env : Env}
    (hworks : StoreWorks env)
    {s t : Clients} {tr : List (Lib.Transition Clients Event)}
    (hrun : Lib.Runs (Clients.Step env) s tr t)
    (hinv : OutboundInv s)
    (hmirrored : Mirrored s) :
    (∀ x ∈ tr, MirroredAfter x) ↔ ∀ x ∈ tr, KeysFit x.pre x.event := by
  have hall := hrun.invariant_iff (I := fun c => OutboundInv c ∧ Mirrored c)
    (C := fun c e => KeysFit c e)
    (fun c e c' hI hfit hstep =>
      ⟨step_outboundInv hI.1 hstep, (step_mirrored_iff hworks hI.1 hI.2 hstep).mpr hfit⟩)
    (fun c e c' hI hfit hstep hI' =>
      hfit ((step_mirrored_iff hworks hI.1 hI.2 hstep).mp hI'.2))
    ⟨hinv, hmirrored⟩
  rw [← hall]
  have hinvs := (run_outboundInv hrun hinv).1
  constructor
  · intro h x hx
    exact ⟨(hinvs x hx).2, (mirroredAfter_iff (hrun.step_of_mem x hx)).mp (h x hx)⟩
  · intro h x hx
    exact (mirroredAfter_iff (hrun.step_of_mem x hx)).mpr (h x hx).2

/-- A publication with its acknowledgement. -/
def ackedPublish (MQTTVersion qos : Nat) (msgid : MsgId) (type : PacketType) : List Event :=
  [.act (.startPublish
      { header := { type := .publish, dup := false, qos := 0, retain := false }
        topic := [97], topiclen := 1, msgId := msgid, payload := [104, 105], MQTTVersion
        properties := MQTTProperties.initializer, mask := ⟨0, 0, 0, 0⟩ } qos false),
    .packet (.ack
      { header := { type, dup := false, qos := 0, retain := false }
        msgId := msgid, rc := 0, MQTTVersion, properties := MQTTProperties.initializer })]

/-- The run of a fresh client with an empty store over it. -/
def ackedRun (MQTTVersion qos : Nat) (msgid : MsgId) (type : PacketType) :
    List (Lib.Transition Clients Event) :=
  Lib.trace (fun c e => (c.outcome Env.reliable e).2)
    (Clients.fresh MQTTVersion 0 (some Lib.ExactMap.empty)) (ackedPublish MQTTVersion qos msgid type)

theorem runs_ackedRun
    {MQTTVersion qos : Nat} {msgid : MsgId}
    (type : PacketType)
    (hqos : qos ≤ 2)
    (hid : msgid ≠ 0) :
    Lib.Runs (Clients.Step Env.reliable)
      (Clients.fresh MQTTVersion 0 (some Lib.ExactMap.empty)) (ackedRun MQTTVersion qos msgid type)
      ((ackedPublish MQTTVersion qos msgid type).foldl
        (fun c e => (c.outcome Env.reliable e).2)
        (Clients.fresh MQTTVersion 0 (some Lib.ExactMap.empty))) := by
  refine Clients.runs_trace Env.reliable _ _ ?_
  intro x hx
  rcases List.mem_cons.mp hx with rfl | hx
  · exact ⟨rfl, hqos, fun _ => ⟨hid, rfl⟩⟩
  · obtain rfl := List.mem_singleton.mp hx
    show MQTTVersion = Clients.MQTTVersion _
    simp only [Clients.outcome]
    rw [Clients.act_MQTTVersion]
    rfl

/-- The PUBACK of a message with a four-digit id takes the record along. -/
theorem store_mirrors_iff_acked :
    (ackedRun 4 1 9999 .puback).length = 2 ∧
      ∀ x ∈ ackedRun 4 1 9999 .puback, MirroredAfter x := by
  refine ⟨rfl, (store_mirrors_iff storeWorks_reliable (runs_ackedRun .puback (by decide) (by decide))
    (outboundInv_of_nil rfl)
    ⟨Lib.ExactMap.empty, rfl, mirror_of_empty (fun _ _ _ => rfl)⟩).mpr ?_⟩
  intro x hx
  rcases List.mem_cons.mp hx with rfl | hx
  · trivial
  · obtain rfl := List.mem_singleton.mp hx
    exact fun _ _ => ⟨fun _ _ => by decide, fun h => absurd h (by decide)⟩

/--
With the id 10000 the store does not mirror the list: a 3.1.1 client keeps the
record of a PUBLISH after its PUBACK, and an MQTT 5 client that has sent the
PUBREL has no record of it.
-/
theorem five_digit_id_not_mirrored :
    (∃ t store, Lib.Runs (Clients.Step Env.reliable)
        (Clients.fresh 4 0 (some Lib.ExactMap.empty)) (ackedRun 4 1 10000 .puback) t ∧
      t.net.persistence = some store ∧ findMsg t.outboundMsgs 10000 = none ∧
      (store (Stem.publishSent.key 10000)).isSome) ∧
    (∃ t store, Lib.Runs (Clients.Step Env.reliable)
        (Clients.fresh 5 0 (some Lib.ExactMap.empty)) (ackedRun 5 2 10000 .pubrec) t ∧
      t.net.persistence = some store ∧
      (∃ m, findMsg t.outboundMsgs 10000 = some m ∧ m.qos = 2 ∧
        m.nextMessageType = some .pubcomp) ∧
      store (Stem.v5Pubrel.key 10000) = none) := by
  refine ⟨⟨_, _, runs_ackedRun .puback (by decide) (by decide), rfl, rfl, by decide⟩,
    ⟨_, _, runs_ackedRun .pubrec (by decide) (by decide), rfl, ⟨_, rfl, rfl, rfl⟩, by decide⟩⟩

end PahoMqtt
