import PahoMqtt.SyncReceiving

/-!
# What closes and cleans the session

A call of the synchronous client that handles no packet leaves what has been
received as it is, or it closes the session, which is cleaned where it does not
go on.  It passes no publication on.
-/

namespace PahoMqtt
namespace MQTTClient

open MQTTProtocol

/-- Cleaning a session empties the lists and passes nothing on. -/
theorem cleanSession_spec
    (pclear : Int × Store) (c : Clients) :
    (cleanSession pclear c).2.inboundMsgs = [] ∧
      deliveries (cleanSession pclear c).2.net = deliveries c.net ∧
      (cleanSession pclear c).2.MQTTVersion = c.MQTTVersion ∧
      (cleanSession pclear c).2.connected = c.connected := by
  unfold cleanSession
  cases c.net.persistence <;> exact ⟨rfl, deliveries_of_log_eq rfl, rfl, rfl⟩

namespace MQTTClients

/-- What is received and passed on stays as it is. -/
structure Quiet (m m' : MQTTClients) : Prop where
  inboundMsgs : m'.c.inboundMsgs = m.c.inboundMsgs
  deliveries : deliveries m'.c.net = deliveries m.c.net
  MQTTVersion : m'.c.MQTTVersion = m.c.MQTTVersion
  connected : m'.c.connected = m.c.connected
  cleansession : m'.cleansession = m.cleansession

/-- The session is closed, and cleaned where it does not go on. -/
structure Closed (m m' : MQTTClients) : Prop where
  inboundMsgs : m'.c.inboundMsgs =
    if m.c.MQTTVersion < 5 ∧ m.cleansession = true then [] else m.c.inboundMsgs
  deliveries : deliveries m'.c.net = deliveries m.c.net
  MQTTVersion : m'.c.MQTTVersion = m.c.MQTTVersion
  connected : m'.c.connected = false
  cleansession : m'.cleansession = m.cleansession

section

variable {m₁ m₂ m₃ : MQTTClients}

theorem Quiet.refl
    (m : MQTTClients) :
    Quiet m m :=
  ⟨rfl, rfl, rfl, rfl, rfl⟩

theorem Quiet.trans
    (h₁ : Quiet m₁ m₂)
    (h₂ : Quiet m₂ m₃) :
    Quiet m₁ m₃ :=
  ⟨h₂.inboundMsgs.trans h₁.inboundMsgs, h₂.deliveries.trans h₁.deliveries,
    h₂.MQTTVersion.trans h₁.MQTTVersion, h₂.connected.trans h₁.connected,
    h₂.cleansession.trans h₁.cleansession⟩

theorem Quiet.closed
    (h₁ : Quiet m₁ m₂)
    (h₂ : Closed m₂ m₃) :
    Closed m₁ m₃ := by
  refine ⟨?_, h₂.deliveries.trans h₁.deliveries, h₂.MQTTVersion.trans h₁.MQTTVersion,
    h₂.connected, h₂.cleansession.trans h₁.cleansession⟩
  rw [h₂.inboundMsgs, h₁.MQTTVersion, h₁.cleansession, h₁.inboundMsgs]

end

variable (env : Env) (closing : Closing)

theorem closeSession_closed
    (m : MQTTClients) :
    Closed m (m.closeSession env closing) := by
  have hdisconnect : deliveries (if m.c.connected then
      (MQTTPacket.send env m.c.net { type := .disconnect, dup := false, qos := 0, retain := false }
        closing.disconnect m.c.MQTTVersion).2 else m.c.net) = deliveries m.c.net := by
    split
    · exact deliveries_of_logs (MQTTPacket.send_logs env m.c.net _ _ _ (fun _ _ => rfl)
        (fun _ _ => rfl))
    · rfl
  unfold closeSession
  dsimp only
  split
  next hcleans =>
    obtain ⟨hinbound, hdeliveries, hversion, hconnected⟩ := cleanSession_spec closing.pclear _
    refine ⟨hinbound.trans (if_pos hcleans).symm, hdeliveries.trans ?_, hversion, hconnected, rfl⟩
    exact (deliveries_of_log_eq rfl).trans hdisconnect
  next hkept =>
    exact ⟨(if_neg hkept).symm, (deliveries_of_log_eq rfl).trans hdisconnect, rfl, rfl, rfl⟩

/-- The session is closed where the library has asked for it. -/
theorem settle_spec
    (m : MQTTClients) :
    Quiet m (m.settle env closing) ∨ Closed m (m.settle env closing) := by
  unfold settle
  split
  · exact .inr (closeSession_closed env closing m)
  · exact .inl (Quiet.refl m)

theorem retry_quiet
    (now : Int) (doRetry regardless : Bool) (m : MQTTClients) :
    Quiet m { m with c := MQTTProtocol.retry env now doRetry regardless m.c } := by
  obtain ⟨-, hinbound, hversion⟩ := MQTTProtocol.retry_spec env now doRetry regardless m.c
  refine ⟨hinbound, deliveries_act env m.c (.retry now doRetry regardless), hversion, ?_, rfl⟩
  show (MQTTProtocol.retry env now doRetry regardless m.c).connected = m.c.connected
  unfold MQTTProtocol.retry MQTTProtocol.retries
  repeat' split
  all_goals rfl

theorem resend_spec
    (rc : Int) (m : MQTTClients) :
    Quiet m (m.resend env closing rc).2 ∨ Closed m (m.resend env closing rc).2 := by
  unfold resend
  split
  · have hretry := retry_quiet env 0 true true
      { m with c := { m.c with outboundMsgs := m.c.outboundMsgs.map (fun msg =>
        { msg with lastTouch := 0 }) } }
    have hquiet : Quiet m _ := ⟨hretry.inboundMsgs, hretry.deliveries, hretry.MQTTVersion,
      hretry.connected, hretry.cleansession⟩
    rcases settle_spec env closing _ with h | h
    · exact .inl (hquiet.trans h)
    · exact .inr (hquiet.closed h)
  · exact .inl (Quiet.refl m)

theorem finish_spec
    (connack : Connack) (rc : Int) (m : MQTTClients) :
    Quiet m (m.finish env closing connack rc) ∨ Closed m (m.finish env closing connack rc) := by
  unfold finish
  split
  · exact .inl ⟨rfl, rfl, rfl, rfl, rfl⟩
  · exact .inr (closeSession_closed env closing m)

/-- What a publication does to the session: nothing, or it closes it. -/
theorem sendPublication_spec
    (thread : Nat) (request : Request) (msgid : MsgId) (m : MQTTClients) :
    Quiet m (m.sendPublication env closing thread request msgid).2 ∨
      Closed m (m.sendPublication env closing thread request msgid).2 := by
  have hstart : Quiet m { m with c := (MQTTProtocol.startPublish env m.c
      (publishOf m.c request msgid) request.qos request.retained).2 } := by
    refine ⟨Clients.act_inboundMsgs env m.c (.startPublish _ _ _),
      deliveries_act env m.c (.startPublish _ _ _),
      Clients.act_MQTTVersion env m.c (.startPublish _ _ _), ?_, rfl⟩
    show (MQTTProtocol.startPublish env m.c _ _ _).2.connected = _
    unfold MQTTProtocol.startPublish
    split <;> rfl
  unfold sendPublication
  dsimp only
  split
  · unfold writeLoop
    split
    · exact .inl ⟨hstart.inboundMsgs, hstart.deliveries, hstart.MQTTVersion, hstart.connected, rfl⟩
    · exact .inl ⟨hstart.inboundMsgs, hstart.deliveries, hstart.MQTTVersion, hstart.connected, rfl⟩
  · split
    · have hclosed := hstart.closed (closeSession_closed env closing _)
      exact .inr ⟨hclosed.inboundMsgs, hclosed.deliveries, hclosed.MQTTVersion, hclosed.connected,
        hclosed.cleansession⟩
    · exact .inl ⟨hstart.inboundMsgs, hstart.deliveries, hstart.MQTTVersion, hstart.connected, rfl⟩

theorem publishLoop_spec
    (thread : Nat) (request : Request) (m : MQTTClients) :
    Quiet m (m.publishLoop env closing thread request).2 ∨
      Closed m (m.publishLoop env closing thread request).2 := by
  have hassign : Quiet m { m with c := (MQTTProtocol.assignMsgId m.c).2 } := by
    unfold MQTTProtocol.assignMsgId
    dsimp only
    split <;> exact ⟨rfl, rfl, rfl, rfl, rfl⟩
  unfold publishLoop
  split
  · exact .inl ⟨rfl, rfl, rfl, rfl, rfl⟩
  · unfold assignAndSend
    split
    · dsimp only
      split
      · exact .inl ⟨hassign.inboundMsgs, hassign.deliveries, hassign.MQTTVersion,
          hassign.connected, rfl⟩
      · rcases sendPublication_spec env closing thread request _ _ with h | h
        · exact .inl (hassign.trans h)
        · exact .inr (hassign.closed h)
    · exact sendPublication_spec env closing thread request 0 m

/-- What is received stays, unless the session is cleaned, and nothing is passed on. -/
structure Retains (m m' : MQTTClients) (cleans : Bool) : Prop where
  inboundMsgs : m'.c.inboundMsgs = if cleans = true then [] else m.c.inboundMsgs
  deliveries : deliveries m'.c.net = deliveries m.c.net
  MQTTVersion : m'.c.MQTTVersion = m.c.MQTTVersion

theorem Quiet.retains
    {m m' : MQTTClients}
    (h : Quiet m m') :
    Retains m m' false :=
  ⟨h.inboundMsgs, h.deliveries, h.MQTTVersion⟩

/-- A session that is closed in a call is no longer connected after it. -/
theorem retains_of_spec
    {m m' : MQTTClients}
    (h : Quiet m m' ∨ m.c.connected = true ∧ Closed m m') :
    Retains m m' (m.c.connected && !m'.c.connected &&
      (m.c.MQTTVersion < 5 && m.cleansession)) := by
  rcases h with h | ⟨hconnected, h⟩
  · have hnot : (m.c.connected && !m'.c.connected && (decide (m.c.MQTTVersion < 5) &&
        m.cleansession)) = false := by
      rw [h.connected, Bool.and_not_self, Bool.false_and]
    rw [hnot]
    exact h.retains
  · refine ⟨?_, h.deliveries, h.MQTTVersion⟩
    rw [h.inboundMsgs, hconnected, h.connected]
    simp

theorem cleaned_retains
    (m : MQTTClients) :
    Retains m (m.cleaned closing).2 (m.cleansession || m.cleanstart) ∧
      (m.cleaned closing).2.cleansession = m.cleansession := by
  unfold cleaned
  split
  next hcleans =>
    obtain ⟨hinbound, hdeliveries, hversion, -⟩ := cleanSession_spec closing.pclear m.c
    exact ⟨⟨hinbound.trans (if_pos hcleans).symm, hdeliveries, hversion⟩, rfl⟩
  next hkept => exact ⟨⟨(if_neg hkept).symm, rfl, rfl⟩, rfl⟩

/-- A session that has been cleaned is not there to be cleaned again. -/
theorem Retains.after
    {m m₁ m₂ : MQTTClients}
    (h₁ : Retains m m₁ (m.cleansession || m.cleanstart))
    (hsame : m₁.cleansession = m.cleansession)
    (h₂ : Quiet m₁ m₂ ∨ Closed m₁ m₂) :
    m₂.cleansession = m.cleansession ∧ Retains m m₂ (m.cleansession || m.cleanstart) := by
  rcases h₂ with h₂ | h₂
  · exact ⟨h₂.cleansession.trans hsame, h₂.inboundMsgs.trans h₁.inboundMsgs,
      h₂.deliveries.trans h₁.deliveries, h₂.MQTTVersion.trans h₁.MQTTVersion⟩
  · refine ⟨h₂.cleansession.trans hsame, ?_, h₂.deliveries.trans h₁.deliveries,
      h₂.MQTTVersion.trans h₁.MQTTVersion⟩
    rw [h₂.inboundMsgs, h₁.inboundMsgs, hsame]
    cases m.cleansession <;> simp

theorem connack_retains
    (connack : Connack) (m : MQTTClients) :
    Retains m (m.connack env closing connack)
      (if connack.rc = 0 then m.cleansession || m.cleanstart
        else m.c.MQTTVersion < 5 && m.cleansession) := by
  unfold MQTTClients.connack
  by_cases hrc : connack.rc = 0
  · rw [if_pos hrc, if_pos hrc]
    obtain ⟨hclean, hsession⟩ :=
      cleaned_retains closing { m with c := { m.c with connected := true, good := true } }
    have hretains : Retains m _ (m.cleansession || m.cleanstart) :=
      ⟨hclean.inboundMsgs, hclean.deliveries, hclean.MQTTVersion⟩
    obtain ⟨hresent, hretains⟩ := hretains.after hsession (resend_spec env closing _ _)
    exact (hretains.after hresent (finish_spec env closing connack _ _)).2
  · rw [if_neg hrc, if_neg hrc]
    have hfinish := closeSession_closed env closing m
    have hne : (connack.rc.toNat : Int) ≠ MQTTCLIENT_SUCCESS := by
      intro h
      have hzero : connack.rc.toNat = 0 := Int.ofNat_eq_zero.mp h
      exact hrc (UInt8.toNat_inj.mp hzero)
    unfold finish
    rw [if_neg hne]
    refine ⟨?_, hfinish.deliveries, hfinish.MQTTVersion⟩
    rw [hfinish.inboundMsgs]
    simp

/-- A call that handles no packet. -/
theorem outcome_retains
    (char : CharType) (m : MQTTClients) (e : SyncEvent)
    (hcall : ∀ pack, e.call ≠ .packet pack)
    (hversion : ∀ options, e.call = .connectURI options → options.MQTTVersion = m.c.MQTTVersion) :
    Retains m.start (m.outcome env char e).2 (m.cleansSession e.call (m.outcome env char e).2) := by
  have hloop : ∀ thread request, m.start.c.connected = true →
      Retains m.start (m.start.publishLoop env e.closing thread request).2
        (m.start.c.connected && !(m.start.publishLoop env e.closing thread request).2.c.connected &&
          (m.start.c.MQTTVersion < 5 && m.start.cleansession)) := by
    intro thread request hconnected
    refine retains_of_spec ?_
    exact (publishLoop_spec env e.closing thread request m.start).imp_right fun h => ⟨hconnected, h⟩
  have hquiet : ∀ {m' : MQTTClients}, Quiet m.start m' →
      Retains m.start m' (m.start.c.connected && !m'.c.connected &&
        (m.start.c.MQTTVersion < 5 && m.start.cleansession)) :=
    fun h => retains_of_spec (.inl h)
  unfold outcome
  cases hcalled : e.call with
  | publish5 thread request =>
      dsimp only
      unfold publish5
      by_cases hconnected : m.start.c.connected = false
      · rw [if_pos hconnected]
        exact hquiet (Quiet.refl _)
      · rw [if_neg hconnected]
        split
        · exact hloop thread request (by simpa using hconnected)
        · exact hquiet (Quiet.refl _)
  | resume thread =>
      dsimp only
      unfold resume
      split
      · exact hquiet (Quiet.refl _)
      · split
        · exact hquiet ⟨rfl, rfl, rfl, rfl, rfl⟩
        next request _ hconnected => exact hloop thread request (by simpa using hconnected)
      · unfold writeLoop
        split
        · exact hquiet ⟨rfl, rfl, rfl, rfl, rfl⟩
        · exact hquiet ⟨rfl, rfl, rfl, rfl, rfl⟩
  | waitForCompletion mdt => exact hquiet (Quiet.refl _)
  | connectURI options =>
      have hnot : m.cleansSession (.connectURI options) (m.start.connectURI options) = false := by
        show (m.c.connected && !m.c.connected && _) = false
        rw [Bool.and_not_self, Bool.false_and]
      refine ⟨?_, rfl, hversion options hcalled⟩
      rw [hnot]
      rfl
  | connack connack => exact connack_retains env e.closing connack m.start
  | packet pack => exact absurd hcalled (hcall pack)
  | retry now doRetry regardless =>
      have hretry := retry_quiet env now doRetry regardless m.start
      by_cases hconnected : m.start.c.connected = true
      · refine retains_of_spec ?_
        rcases settle_spec env e.closing { m.start with
          c := MQTTProtocol.retry env now doRetry regardless m.start.c } with h | h
        · exact .inl (hretry.trans h)
        · exact .inr ⟨hconnected, hretry.closed h⟩
      · have hsame : MQTTProtocol.retry env now doRetry regardless m.start.c = m.start.c := by
          unfold MQTTProtocol.retry
          rw [if_pos (by simpa using hconnected)]
        refine hquiet ?_
        dsimp only
        rw [show m.c.start = m.start.c from rfl, hsame]
        exact Quiet.refl _
  | continueWrites => exact hquiet ⟨rfl, rfl, rfl, rfl, rfl⟩
  | writeInterrupted => exact hquiet ⟨rfl, rfl, rfl, rfl, rfl⟩
  | closeSession =>
      have hclosed := closeSession_closed env e.closing m.start
      refine ⟨?_, hclosed.deliveries, hclosed.MQTTVersion⟩
      rw [hclosed.inboundMsgs]
      refine if_congr ?_ rfl rfl
      show _ ↔ (decide (m.c.MQTTVersion < 5) && m.cleansession) = true
      rw [Bool.and_eq_true, decide_eq_true_eq]
      exact Iff.rfl

end MQTTClients

end MQTTClient
end PahoMqtt
