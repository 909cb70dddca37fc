import PahoMqtt.SyncClient

/-!
# Window, message ids and tokens of the synchronous client

What holds in every run of any number of threads that publish through the
synchronous client: how many messages are in flight, that a message id is
found, which tokens are pending and what it means that the wait for one
succeeds.
-/

namespace PahoMqtt
namespace MQTTClient
namespace MQTTClients

section

variable {env : Env} {char : CharType} {m : MQTTClients}

/-! ### The window -/

theorem publishLoop_window
    (env : Env) (closing : Closing) (thread : Nat) (request : Request) (m : MQTTClients) :
    (publishLoop env closing thread request m).2.maxInflightMessages = m.maxInflightMessages := by
  unfold publishLoop assignAndSend sendPublication writeLoop
  dsimp only
  split_ifs <;> rfl

theorem connack_window
    (env : Env) (closing : Closing) (connack : Connack) (m : MQTTClients) :
    (m.connack env closing connack).maxInflightMessages ≤ m.maxInflightMessages := by
  have hresend : ∀ rc (m : MQTTClients),
      (m.resend env closing rc).2.maxInflightMessages = m.maxInflightMessages := by
    intro rc m
    unfold resend settle closeSession
    dsimp only
    split_ifs <;> rfl
  have hcleaned : ∀ m : MQTTClients,
      (m.cleaned closing).2.maxInflightMessages = m.maxInflightMessages := by
    intro m
    unfold cleaned
    split <;> rfl
  have hfinish : ∀ rc (m : MQTTClients),
      (m.finish env closing connack rc).maxInflightMessages ≤ m.maxInflightMessages := by
    intro rc m
    unfold finish closeSession
    dsimp only
    split_ifs
    · exact min_le_left _ _
    all_goals exact le_refl _
  unfold MQTTClients.connack
  split
  · dsimp only
    exact (hfinish _ _).trans (by rw [hresend, hcleaned])
  · exact hfinish _ m

/-- Only the options of a connection can widen the window. -/
theorem outcome_window
    (env : Env) (char : CharType) (m : MQTTClients) (e : SyncEvent) :
    (∃ options, e.call = .connectURI options ∧
      (m.outcome env char e).2.maxInflightMessages = options.window) ∨
    (m.outcome env char e).2.maxInflightMessages ≤ m.maxInflightMessages := by
  unfold outcome
  cases hcall : e.call with
  | publish5 thread request =>
    right
    dsimp only
    unfold publish5
    split
    · exact le_refl _
    · split
      · exact (publishLoop_window env e.closing thread request m.start).le
      · exact le_refl _
  | resume thread =>
    right
    dsimp only
    unfold resume
    split
    · exact le_refl _
    · split
      · exact le_refl _
      · exact (publishLoop_window env e.closing thread _ m.start).le
    · unfold writeLoop
      split <;> exact le_refl _
  | waitForCompletion mdt => exact .inr (le_refl _)
  | connectURI options => exact .inl ⟨options, rfl, rfl⟩
  | connack connack => exact .inr (connack_window env e.closing connack m.start)
  | packet pack => exact .inr (le_refl _)
  | retry now doRetry regardless =>
    right
    dsimp only [settle, closeSession]
    split <;> exact le_refl _
  | continueWrites => exact .inr (le_refl _)
  | writeInterrupted => exact .inr (le_refl _)
  | closeSession => exact .inr (le_refl _)

theorem Starts.of_start
    {t : MsgId} {m' : MQTTClients}
    (h : Starts t m.start m') :
    Starts t m m' :=
  ⟨⟨h.may.connected, h.may.room, h.may.free⟩, h.ne_zero, h.fresh, h.ids⟩

theorem length_ids
    (m : MQTTClients) :
    m.ids.length = m.c.outboundMsgs.length :=
  List.length_map _

/-- A message more is in flight only where there was room for it. -/
theorem step_length
    {e : SyncEvent} {m' : MQTTClients}
    (h : Step env char m e m') :
    m'.c.outboundMsgs.length ≤ m.c.outboundMsgs.length ∨
      m.MayPublish ∧ m'.c.outboundMsgs.length ≤ m.c.outboundMsgs.length + 1 := by
  obtain ⟨_, rfl⟩ := h
  rw [← length_ids, ← length_ids]
  rcases (outcome_spec env char m e).ids with h | ⟨t, h⟩ | ⟨pack, msg, _, _, _, h⟩
  · rcases h with h | ⟨_, h⟩
    · exact .inl (le_of_eq (congrArg List.length h))
    · rw [h]
      exact .inl (Nat.zero_le _)
  · have h := h.of_start
    refine .inr ⟨h.may, ?_⟩
    rcases h.ids with h | ⟨_, h⟩
    · rw [h, List.length_append]
      rfl
    · rw [h]
      exact Nat.zero_le _
  · rw [h]
    exact .inl (List.length_filter_le _ _)

end

/--
However threads publish, wait, connect and disconnect, no more messages are in
flight than the largest window allows, and one more only while the connection
is up, the socket is free and the window of this connection has room.
-/
theorem window_kept
    {env : Env} {char : CharType} {m m' : MQTTClients}
    {tr : List (Lib.Transition MQTTClients SyncEvent)} {limit : Int}
    (hrun : Lib.Runs (Step env char) m tr m')
    (hstart : m.c.outboundMsgs.length ≤ limit)
    (hwindow : m.maxInflightMessages ≤ limit)
    (hconnect : ∀ x ∈ tr, ∀ options, x.event.call = .connectURI options →
      options.window ≤ limit) :
    (∀ x ∈ tr, (x.post.c.outboundMsgs.length : Int) ≤ limit ∧
      (x.pre.c.outboundMsgs.length < x.post.c.outboundMsgs.length → x.pre.MayPublish)) ∧
      (m'.c.outboundMsgs.length : Int) ≤ limit := by
  have hinv := hrun.invariant_of
    (I := fun m => (m.c.outboundMsgs.length : Int) ≤ limit ∧ m.maxInflightMessages ≤ limit)
    (C := fun _ e => ∀ options, e.call = .connectURI options → options.window ≤ limit)
    (by
      rintro m e m' ⟨hlength, hmax⟩ hoptions hstep
      constructor
      · rcases step_length hstep with h | ⟨hmay, h⟩
        · omega
        · have := hmay.room
          omega
      · obtain ⟨_, rfl⟩ := hstep
        rcases outcome_window env char m e with ⟨options, hcall, h⟩ | h
        · exact h ▸ hoptions options hcall
        · exact h.trans hmax)
    ⟨hstart, hwindow⟩ hconnect
  refine ⟨fun x hx => ⟨(hinv.1 x hx).2.1, fun hmore => ?_⟩, hinv.2.1⟩
  rcases step_length (hrun.step_of_mem x hx) with h | ⟨hmay, _⟩
  · omega
  · exact hmay

theorem window_kept_one :
    (∀ x ∈ runOf twoPublish, (x.post.c.outboundMsgs.length : Int) ≤ 1 ∧
      (x.pre.c.outboundMsgs.length < x.post.c.outboundMsgs.length → x.pre.MayPublish)) ∧
      ((twoPublish.foldl (fun m e => (m.outcome Env.reliable .unsigned e).2)
        (fresh 5 none)).c.outboundMsgs.length : Int) ≤ 1 :=
  window_kept runs_twoPublish (by decide) (by decide) connectURI_twoPublish

/-! ### Message ids -/

/-- An id is free while less than all but two are in use. -/
theorem assignMsgId_ne_zero
    (c : Clients)
    (hlength : c.outboundMsgs.length ≤ 65533) :
    (MQTTProtocol.assignMsgId c).1 ≠ 0 := by
  have hlt := c.msgID.toNat_lt
  obtain ⟨free, hfree, hused⟩ : ∃ msgid ∈ (Finset.Icc 1 65535).erase c.msgID.toNat,
      msgid ∉ (c.outboundMsgs.map (·.msgid.toNat)).toFinset := by
    refine Finset.exists_mem_notMem_of_card_lt_card ?_
    have hids := List.toFinset_card_le (c.outboundMsgs.map (·.msgid.toNat))
    have hall := Finset.pred_card_le_card_erase (s := Finset.Icc 1 65535) (a := c.msgID.toNat)
    rw [List.length_map] at hids
    rw [Nat.card_Icc] at hall
    omega
  rw [Finset.mem_erase, Finset.mem_Icc] at hfree
  have hnot : MQTTProtocol.inUse c free = false := by
    rw [MQTTProtocol.inUse, List.any_eq_false]
    intro msg hmsg heq
    refine hused (List.mem_toFinset.mpr (List.mem_map.mpr ⟨msg, hmsg, ?_⟩))
    simpa using heq
  have hfinds : FindsFreeId (MQTTProtocol.inUse c) (Lib.cyclicSearch MQTTAsync.nextId
      (MQTTProtocol.inUse c) c.msgID.toNat 65536 (MQTTAsync.nextId c.msgID.toNat)) :=
    (MQTTAsync.search_findsFreeId_iff (by omega) (by omega) fun _ h => h).mpr
      (.inl ⟨free, hfree.2, hfree.1, hnot⟩)
  obtain ⟨msgid, hfound⟩ := hfinds.found ⟨free, hfree.2, hnot⟩
  have hid := (hfinds.free msgid hfound).1
  rw [← MQTTAsync.searchMsgId_toNat] at hfound
  rw [MQTTProtocol.assignMsgId_eq]
  cases hsearch : MQTTProtocol.searchMsgId c with
  | found t =>
    rw [hsearch] at hfound
    dsimp only
    rintro rfl
    rw [← Lib.SearchResult.found.inj hfound] at hid
    exact absurd hid.1 (by decide)
  | cameRound =>
    rw [hsearch] at hfound
    cases hfound
  | outOfFuel =>
    rw [hsearch] at hfound
    cases hfound

/-- A thread that has waited for space in the queue gets a message id. -/
theorem message_ids_suffice
    {env : Env} {char : CharType} {m m' : MQTTClients}
    {tr : List (Lib.Transition MQTTClients SyncEvent)}
    (hrun : Lib.Runs (Step env char) m tr m')
    (hwindow : m.maxInflightMessages ≤ 65534)
    (hconnect : ∀ x ∈ tr, ∀ options, x.event.call = .connectURI options →
      options.window ≤ 65534) :
    ∀ x ∈ tr, ∀ thread tok, (x.pre.outcome env char x.event).1 ≠
      some (.publish thread MQTTCLIENT_MAX_MESSAGES_INFLIGHT tok) := by
  intro x hx thread tok hfull
  have hmax := ((hrun.invariant_of (I := fun m => m.maxInflightMessages ≤ 65534)
    (C := fun _ e => ∀ options, e.call = .connectURI options → options.window ≤ 65534)
    (by
      rintro m e m' hmax hoptions ⟨_, rfl⟩
      rcases outcome_window env char m e with ⟨options, hcall, h⟩ | h
      · exact h ▸ hoptions options hcall
      · exact h.trans hmax)
    hwindow hconnect).1 x hx).1
  obtain ⟨hmay, hzero⟩ := (outcome_spec env char x.pre x.event).full thread tok hfull
  refine assignMsgId_ne_zero _ ?_ hzero
  have hroom := hmay.room
  have hsame : x.pre.start.maxInflightMessages = x.pre.maxInflightMessages := rfl
  omega

theorem message_ids_suffice_two :
    (((connects ++ [publishes 0, publishes 1, puback 1]).foldl
        (fun m e => (m.outcome Env.reliable .unsigned e).2) (fresh 5 none)).outcome
      Env.reliable .unsigned (does (.resume 1))).1 ≠
        some (.publish 1 MQTTCLIENT_MAX_MESSAGES_INFLIGHT none) :=
  message_ids_suffice runs_twoPublish (by decide)
    (fun x hx options hcall => (connectURI_twoPublish x hx options hcall).trans (by decide))
    _ (List.mem_of_getElem? (i := connects.length + 3) rfl) 1 none

/-! ### Tokens -/

/-- The message with the token `t` is acknowledged. -/
def Finishes (t : MsgId) (m : MQTTClients) (e : SyncEvent) : Prop :=
  ∃ pack msg, e.call = .packet (.ack pack) ∧ pack.msgId = t ∧
    findMsg m.c.outboundMsgs t = some msg ∧ Completes pack msg

/-- The session is cleaned. -/
def Cleans (env : Env) (char : CharType) (m : MQTTClients) (e : SyncEvent) : Prop :=
  m.Cleanable ∧ (m.outcome env char e).2.ids = []

/-- The message with the token `t` need not be in flight any more. -/
def Forgets (env : Env) (char : CharType) (t : MsgId) (m : MQTTClients) (e : SyncEvent) : Prop :=
  Finishes t m e ∨ Cleans env char m e

theorem handle_completes
    (env : Env) {c : Clients} {pack : Ack} {msg : Messages}
    (hfound : findMsg c.outboundMsgs pack.msgId = some msg)
    (hcompletes : Completes pack msg) :
    (c.handle env (.ack pack)).2.outboundMsgs = removeMsg c.outboundMsgs pack.msgId := by
  have heffect : AckEffect env c pack (c.handle env (.ack pack)).2 := by
    rcases hcompletes with ⟨htype, -⟩ | ⟨htype, -⟩ | ⟨htype, -⟩
    · simp only [Clients.handle, htype]
      exact handlePubacks_effect env c pack htype
    · simp only [Clients.handle, htype]
      exact handlePubrecs_effect env c pack htype
    · simp only [Clients.handle, htype]
      exact handlePubcomps_effect env c pack htype
  cases heffect with
  | ignored hnot _ _ => exact absurd hcompletes (hnot msg hfound)
  | completed _ _ _ _ h => rw [h]
  | movedOn other hother hmoves _ =>
    obtain rfl := Option.some.inj (hfound.symm.trans hother)
    obtain ⟨hpubrec, _, _, hnot⟩ := hmoves
    rcases hcompletes with ⟨htype, -⟩ | ⟨-, -, -, herror⟩ | ⟨htype, -⟩
    · cases hpubrec.symm.trans htype
    · exact absurd herror hnot
    · cases hpubrec.symm.trans htype

theorem not_mem_of_forgets
    {env : Env} {char : CharType} {t : MsgId} {m : MQTTClients} {e : SyncEvent}
    (h : Forgets env char t m e) :
    t ∉ (m.outcome env char e).2.ids := by
  rcases h with ⟨pack, msg, hcall, rfl, hfound, hcompletes⟩ | ⟨_, hnil⟩
  · have hids : (m.outcome env char e).2.ids =
        msgIds (m.start.c.handle env (.ack pack)).2.outboundMsgs := by
      rw [outcome, hcall]
      rfl
    rw [hids, handle_completes env (c := m.start.c) hfound hcompletes, msgIds_removeMsg_eq]
    intro hmem
    simpa using (List.mem_filter.mp hmem).2
  · rw [hnil]
    exact List.not_mem_nil

/-- A message stays in flight until it is acknowledged or the session is cleaned. -/
theorem mem_of_not_forgets
    {env : Env} {char : CharType} {t : MsgId} {m : MQTTClients} {e : SyncEvent}
    (hmem : t ∈ m.ids)
    (h : ¬Forgets env char t m e) :
    t ∈ (m.outcome env char e).2.ids := by
  rw [Forgets, not_or] at h
  obtain ⟨hfinishes, hcleans⟩ := h
  rcases (outcome_spec env char m e).ids with h | ⟨t', h⟩ | ⟨pack, msg, hcall, hfound, hcomp, h⟩
  · rcases h with h | h
    · exact h ▸ hmem
    · exact absurd h hcleans
  · rcases h.ids with h | h
    · rw [h]
      exact List.mem_append_left _ hmem
    · exact absurd h hcleans
  · rw [h]
    refine List.mem_filter.mpr ⟨hmem, ?_⟩
    simp only [ne_eq, decide_eq_true_eq]
    rintro rfl
    exact hfinishes ⟨pack, msg, hcall, rfl, hfound, hcomp⟩

/--
A message with the token `t` was in flight before the run or has been put in flight in
it, and since then was neither acknowledged nor cleaned away.
-/
def Pending (env : Env) (char : CharType) (t : MsgId) (m : MQTTClients)
    (tr : List (Lib.Transition MQTTClients SyncEvent)) : Prop :=
  (t ∈ m.ids ∧ ∀ z ∈ tr, ¬Forgets env char t z.pre z.event) ∨
    ∃ tr₁ w tr₂, tr = tr₁ ++ w :: tr₂ ∧ Starts t w.pre w.post ∧
      ∀ z ∈ w :: tr₂, ¬Forgets env char t z.pre z.event

theorem pending_append
    {env : Env} {char : CharType} {t : MsgId} {m : MQTTClients}
    {tr : List (Lib.Transition MQTTClients SyncEvent)}
    {x : Lib.Transition MQTTClients SyncEvent}
    (h : Pending env char t m tr)
    (hnot : ¬Forgets env char t x.pre x.event) :
    Pending env char t m (tr ++ [x]) := by
  rcases h with ⟨hmem, hsince⟩ | ⟨tr₁, w, tr₂, rfl, hstarts, hsince⟩
  · refine .inl ⟨hmem, fun z hz => ?_⟩
    rcases List.mem_append.mp hz with hz | hz
    · exact hsince z hz
    · rw [List.mem_singleton.mp hz]
      exact hnot
  · refine .inr ⟨tr₁, w, tr₂ ++ [x], by rw [List.append_assoc, List.cons_append], hstarts, ?_⟩
    intro z hz
    rcases List.mem_append.mp (List.cons_append ▸ hz) with hz | hz
    · exact hsince z hz
    · rw [List.mem_singleton.mp hz]
      exact hnot

theorem pending_step
    {env : Env} {char : CharType} {t : MsgId} {m₀ m m' : MQTTClients} {e : SyncEvent}
    {tr : List (Lib.Transition MQTTClients SyncEvent)}
    (hpending : t ∈ m.ids → Pending env char t m₀ tr)
    (hstep : Step env char m e m')
    (hmem : t ∈ m'.ids) :
    Pending env char t m₀ (tr ++ [⟨m, e, m'⟩]) := by
  obtain ⟨_, rfl⟩ := hstep
  have hnot : ¬Forgets env char t m e := fun h => not_mem_of_forgets h hmem
  rcases (outcome_spec env char m e).ids with h | ⟨t', h⟩ | ⟨pack, msg, _, _, _, h⟩
  · rcases h with h | ⟨_, h⟩
    · exact pending_append (hpending (h ▸ hmem)) hnot
    · rw [h] at hmem
      cases hmem
  · rcases h.ids with hids | ⟨_, hids⟩
    · rw [hids] at hmem
      rcases List.mem_append.mp hmem with hold | hnew
      · exact pending_append (hpending hold) hnot
      · obtain rfl := List.mem_singleton.mp hnew
        refine .inr ⟨tr, _, [], rfl, h.of_start, ?_⟩
        intro z hz
        rw [List.mem_singleton.mp hz]
        exact hnot
    · rw [hids] at hmem
      cases hmem
  · rw [h] at hmem
    exact pending_append (hpending (List.mem_filter.mp hmem).1) hnot

theorem mem_of_run
    {env : Env} {char : CharType} {t : MsgId} {m m' : MQTTClients}
    {tr : List (Lib.Transition MQTTClients SyncEvent)}
    (hrun : Lib.Runs (Step env char) m tr m')
    (hmem : t ∈ m.ids)
    (hsince : ∀ z ∈ tr, ¬Forgets env char t z.pre z.event) :
    t ∈ m'.ids :=
  (hrun.invariant_of (I := fun m => t ∈ m.ids) (C := fun m e => ¬Forgets env char t m e)
    (fun _ _ _ h hnot hstep => hstep.2 ▸ mem_of_not_forgets h hnot) hmem hsince).2

/-- From where it is put in flight a message stays there until it is forgotten. -/
theorem mem_of_pending
    {env : Env} {char : CharType} {t : MsgId} {m m' : MQTTClients}
    {tr₁ tr₂ : List (Lib.Transition MQTTClients SyncEvent)}
    {w : Lib.Transition MQTTClients SyncEvent}
    (hrun : Lib.Runs (Step env char) m (tr₁ ++ w :: tr₂) m')
    (hstarts : Starts t w.pre w.post)
    (hsince : ∀ z ∈ w :: tr₂, ¬Forgets env char t z.pre z.event) :
    t ∈ m'.ids := by
  obtain ⟨_, ⟨_, hpost⟩, hafter⟩ := hrun.split
  have hmem : t ∈ w.post.ids := by
    rcases hstarts.ids with h | ⟨hcleans, h⟩
    · rw [h]
      exact List.mem_append_right _ (List.mem_singleton_self t)
    · exact absurd (.inr ⟨hcleans, hpost ▸ h⟩) (hsince w List.mem_cons_self)
  exact mem_of_run hafter hmem fun z hz => hsince z (List.mem_cons_of_mem _ hz)

/-- `MQTTClient_getPendingDeliveryTokens` -/
def getPendingDeliveryTokens (m : MQTTClients) : Option (List Int) :=
  if m.c.outboundMsgs.length > 0 then
    some (m.c.outboundMsgs.map (fun msg => (msg.msgid.toNat : Int)) ++ [-1])
  else none

theorem mem_getPendingDeliveryTokens
    (m : MQTTClients) (t : MsgId) :
    (∃ tokens, m.getPendingDeliveryTokens = some tokens ∧ (t.toNat : Int) ∈ tokens) ↔
      t ∈ m.ids := by
  have hmap : (t.toNat : Int) ∈ m.c.outboundMsgs.map (fun msg => (msg.msgid.toNat : Int)) ↔
      t ∈ m.ids := by
    simp only [ids, msgIds, List.mem_map, Int.ofNat_inj, UInt16.toNat_inj]
  unfold getPendingDeliveryTokens
  constructor
  · rintro ⟨tokens, h, hmem⟩
    split at h
    · rw [← Option.some.inj h] at hmem
      rcases List.mem_append.mp hmem with hmem | hend
      · exact hmap.mp hmem
      · have := List.mem_singleton.mp hend
        omega
    · cases h
  · intro h
    have hpos : m.c.outboundMsgs.length > 0 := by
      rw [← length_ids]
      exact List.length_pos_of_mem h
    rw [if_pos hpos]
    exact ⟨_, rfl, List.mem_append_left _ (hmap.mpr h)⟩

/-- The ids of the messages in flight differ. -/
theorem nodup_step
    {env : Env} {char : CharType} {m m' : MQTTClients} {e : SyncEvent}
    (h : m.ids.Nodup)
    (hstep : Step env char m e m') :
    m'.ids.Nodup := by
  obtain ⟨_, rfl⟩ := hstep
  rcases (outcome_spec env char m e).ids with hids | ⟨t, hstarts⟩ | ⟨pack, msg, _, _, _, hids⟩
  · rcases hids with hids | ⟨_, hids⟩
    · exact hids ▸ h
    · rw [hids]
      exact List.nodup_nil
  · rcases hstarts.ids with hids | ⟨_, hids⟩
    · rw [hids]
      exact List.nodup_append.mpr ⟨h, List.nodup_singleton t, fun a ha b hb hab =>
        hstarts.fresh (List.mem_singleton.mp hb ▸ hab ▸ ha)⟩
    · rw [hids]
      exact List.nodup_nil
  · rw [hids]
    exact h.filter _

/-- A thread that waits for the write of its packet has put the message in flight. -/
def Recorded (tr : List (Lib.Transition MQTTClients SyncEvent)) (m : MQTTClients) : Prop :=
  ∀ thread qos t, qos > 0 → m.threads thread = some (.writing qos t) →
    ∃ tr₁ w tr₂, tr = tr₁ ++ w :: tr₂ ∧ Starts t w.pre w.post

theorem recorded_step
    {env : Env} {char : CharType} {m m' : MQTTClients} {e : SyncEvent}
    {tr : List (Lib.Transition MQTTClients SyncEvent)}
    (h : Recorded tr m)
    (hstep : Step env char m e m') :
    Recorded (tr ++ [⟨m, e, m'⟩]) m' := by
  obtain ⟨_, rfl⟩ := hstep
  intro thread qos t hpos hwaits
  rcases (outcome_spec env char m e).writing thread qos t hpos hwaits with hstarts | hbefore
  · exact ⟨tr, _, [], rfl, hstarts.of_start⟩
  · obtain ⟨tr₁, w, tr₂, rfl, hstarts⟩ := h thread qos t hpos hbefore
    exact ⟨tr₁, w, tr₂ ++ [_], by rw [List.append_assoc, List.cons_append], hstarts⟩

end MQTTClients
end MQTTClient
end PahoMqtt
