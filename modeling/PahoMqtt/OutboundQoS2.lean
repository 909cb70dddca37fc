import PahoMqtt.Outbound
import PahoMqtt.InboundExactlyOnce

/-!
# A QoS 2 publication never goes back behind its PUBREC

Once a PUBREC has been processed, the message stands in the outbound list with
PUBCOMP as its next message type.  No event takes that back: a started
publication has another id, a retry chooses its packet by the type, a repeated
PUBREC is ignored, and only the PUBCOMP takes the message off the list.
-/

namespace PahoMqtt

open MQTTPacket MQTTProtocol

/-- The step starts the writing of a PUBLISH of QoS 1 or 2 or of a PUBREL with the id. -/
def Transmits (msgid : MsgId) (x : Lib.Transition Clients Event) (header : Header) : Prop :=
  ∃ rc store, .handed header msgid rc store ∈ x.post.net.log ∧
    (header.type = .publish ∧ header.qos ≠ 0 ∨ header.type = .pubrel)

/-- The step processes a PUBREC, which is no error, for an outbound QoS 2 message. -/
def ProcessesPubrec (msgid : MsgId) (x : Lib.Transition Clients Event) : Prop :=
  ∃ pubrec m, x.event = .packet (.ack pubrec) ∧ pubrec.header.type = .pubrec ∧
    pubrec.msgId = msgid ∧ ¬(pubrec.MQTTVersion ≥ 5 ∧ pubrec.rc ≥ UNSPECIFIED_ERROR) ∧
    findMsg x.pre.outboundMsgs msgid = some m ∧ m.qos = 2

/-- The step receives a PUBCOMP with the id. -/
def ReceivesPubcomp (msgid : MsgId) (x : Lib.Transition Clients Event) : Prop :=
  ∃ pubcomp, x.event = .packet (.ack pubcomp) ∧ pubcomp.header.type = .pubcomp ∧
    pubcomp.msgId = msgid

/-- The step starts another publication, of QoS 1 or 2, with the id. -/
def StartsPublish (msgid : MsgId) (x : Lib.Transition Clients Event) : Prop :=
  ∃ publish qos retained, x.event = .act (.startPublish publish qos retained) ∧
    qos > 0 ∧ publish.msgId = msgid

/-- The message waits for its PUBCOMP. -/
def PastPubrec (msgid : MsgId) (client : Clients) : Prop :=
  ∃ m, findMsg client.outboundMsgs msgid = some m ∧ m.qos = 2 ∧
    m.nextMessageType = some .pubcomp

section Steps

variable {env : Env} {x : Lib.Transition Clients Event} {msgid : MsgId}

/-- What a step transmits for an id: it starts a publication, or the message is in the list. -/
theorem transmits_cases
    (hinv : OutboundInv x.pre)
    (hstep : x.pre.Step env x.event x.post)
    {header : Header}
    (htrans : Transmits msgid x header) :
    header = ackHeader .pubrel false ∧ (findMsg x.pre.outboundMsgs msgid).isSome ∨
      StartsPublish msgid x ∧ findMsg x.pre.outboundMsgs msgid = none ∨
      ∃ m, findMsg x.pre.outboundMsgs msgid = some m ∧
        (m.qos = 1 ∨ (m.qos = 2 ∧ m.nextMessageType = some .pubrec)) := by
  obtain ⟨pre, e, post⟩ := x
  obtain ⟨rc, store, hhanded, htype⟩ := htrans
  have hout := step_outputs hstep _ hhanded
  cases e with
  | act a =>
      cases hout with
      | startPublish publish qos retained _ _ _ hid =>
          obtain ⟨_, hle, hnew⟩ := hstep.1
          have hqos : qos = 1 ∨ qos = 2 := by
            have hne : (publishHeader false qos retained).qos ≠ 0 := by
              rcases htype with h | h
              · exact h.2
              · cases h
            have hzero : qos ≠ 0 := by
              rintro rfl
              exact hne rfl
            omega
          have hpos : qos > 0 := by omega
          obtain rfl := hid hqos
          exact Or.inr (Or.inl ⟨⟨publish, qos, retained, rfl, hpos, rfl⟩, (hnew hpos).2⟩)
      | retryPublish _ m _ _ hm hqos =>
          obtain ⟨y, hy, hsame⟩ := hm
          have hfound := findMsg_of_mem hinv.nodup hy
          rw [← hsame.msgid] at hfound
          rw [hsame.qos, hsame.nextMessageType] at hqos
          exact Or.inr (Or.inr ⟨y, hfound, hqos⟩)
      | retryPubrel _ m _ _ hm _ =>
          obtain ⟨y, hy, hsame⟩ := hm
          have hfound := findMsg_of_mem hinv.nodup hy
          rw [← hsame.msgid] at hfound
          exact Or.inl ⟨rfl, by simp [hfound]⟩
      | disconnect _ _ _ _ _ hdis =>
          rw [hdis] at htype
          simp at htype
  | packet pack =>
      cases hout with
      | ack _ type _ _ _ hother =>
          rcases htype with h | h
          · exact absurd h.1 hother.1
          · exact absurd h hother.2
      | pubrel pubrec m _ _ _ hfound _ =>
          have hfound' : findMsg pre.outboundMsgs pubrec.msgId = some m := hfound
          exact Or.inl ⟨rfl, by simp [hfound']⟩

/-- A message that waits for its PUBCOMP transmits nothing but its PUBREL. -/
theorem transmits_pastPubrec
    (hinv : OutboundInv x.pre)
    (hstep : x.pre.Step env x.event x.post)
    (hpast : PastPubrec msgid x.pre)
    {header : Header}
    (htrans : Transmits msgid x header) :
    header = ackHeader .pubrel false := by
  obtain ⟨m, hfound, hqos, hnext⟩ := hpast
  rcases transmits_cases hinv hstep htrans with ⟨h, _⟩ | ⟨_, hnone⟩ | ⟨m', hfound', hm'⟩
  · exact h
  · rw [hfound] at hnone
    cases hnone
  · obtain rfl : m = m' := Option.some.inj (hfound.symm.trans hfound')
    rcases hm' with h | ⟨_, h⟩
    · omega
    · rw [hnext] at h
      cases h

/-- It goes on waiting unless its PUBCOMP comes. -/
theorem step_pastPubrec
    (hinv : OutboundInv x.pre)
    (hstep : x.pre.Step env x.event x.post)
    (hpast : PastPubrec msgid x.pre)
    (hcomp : ¬ReceivesPubcomp msgid x) :
    PastPubrec msgid x.post := by
  obtain ⟨pre, e, post⟩ := x
  obtain ⟨m, hfound, hqos, hnext⟩ := hpast
  obtain ⟨hadm, hpost⟩ := hstep
  dsimp only at hpost
  subst hpost
  have hkept : ∀ msgs', SameExchanges pre.outboundMsgs msgs' →
      ∃ m', findMsg msgs' msgid = some m' ∧ m'.qos = 2 ∧ m'.nextMessageType = some .pubcomp := by
    intro msgs' hsame
    have hrel := hsame.findMsg_rel msgid
    rw [hfound] at hrel
    cases hm' : findMsg msgs' msgid with
    | none =>
        rw [hm'] at hrel
        cases hrel
    | some m' =>
        rw [hm'] at hrel
        cases hrel with
        | some hrel => exact ⟨m', rfl, hrel.qos.trans hqos, hrel.nextMessageType.trans hnext⟩
  cases e with
  | act a =>
      by_cases hpub : ∃ publish qos retained, a = .startPublish publish qos retained ∧ qos > 0
      · obtain ⟨publish, qos, retained, rfl, hpos⟩ := hpub
        obtain ⟨m', _, hlist⟩ :=
          Clients.startPublish_outbound env pre.start publish retained hpos
        have hsame : findMsg (pre.outboundMsgs ++ [m']) msgid = some m := by
          rw [findMsg_append, hfound, Option.some_or]
        exact ⟨m, hlist ▸ hsame, hqos, hnext⟩
      · exact hkept _ (Clients.act_outbound env pre.start a (by
          intro publish qos retained ha
          by_contra h
          exact hpub ⟨publish, qos, retained, ha, by omega⟩))
  | packet pack =>
      rcases handle_outbound env pre.start pack with ⟨a, rfl, heffect⟩ | hsame
      · have hfound₀ : findMsg pre.start.outboundMsgs msgid = some m := hfound
        show PastPubrec msgid (pre.start.handle env (.ack a)).2
        generalize (pre.start.handle env (.ack a)).2 = client' at heffect ⊢
        cases heffect with
        | ignored _ _ hclient =>
            subst hclient
            exact ⟨m, hfound₀, hqos, hnext⟩
        | completed m' _ hfound' hcompletes hclient =>
            subst hclient
            by_cases hid : a.msgId = msgid
            · exfalso
              rw [hid] at hfound'
              obtain rfl : m = m' := Option.some.inj (hfound₀.symm.trans hfound')
              rcases hcompletes with ⟨_, h⟩ | ⟨_, _, h, _⟩ | ⟨htype, _, _⟩
              · omega
              · rw [hnext] at h
                cases h
              · exact hcomp ⟨a, rfl, htype, hid⟩
            · refine ⟨m, ?_, hqos, hnext⟩
              rw [findMsg_removeMsg, if_neg (Ne.symm hid)]
              exact hfound
        | movedOn m' hfound' hmoves hclient =>
            subst hclient
            by_cases hid : a.msgId = msgid
            · exfalso
              rw [hid] at hfound'
              obtain rfl : m = m' := Option.some.inj (hfound₀.symm.trans hfound')
              have h := hmoves.2.2.1
              rw [hnext] at h
              cases h
            · refine ⟨m, ?_, hqos, hnext⟩
              dsimp only
              rw [findMsg_movedOn, if_neg (Ne.symm hid)]
              exact hfound
      · refine hkept _ ?_
        show SameExchanges pre.start.outboundMsgs (pre.start.handle env pack).2.outboundMsgs
        rw [hsame]
        exact SameExchanges.refl _

/-- A processed PUBREC leaves the message waiting for its PUBCOMP, whatever it found. -/
theorem step_processesPubrec
    (hinv : OutboundInv x.pre)
    (hstep : x.pre.Step env x.event x.post)
    (hpubrec : ProcessesPubrec msgid x) :
    PastPubrec msgid x.post ∧
      ∀ header, Transmits msgid x header → header = ackHeader .pubrel false := by
  obtain ⟨pubrec, m, hevent, htype, hid, hok, hfound, hqos⟩ := hpubrec
  have hentry := (hinv.entries m (findMsg_eq_some hfound).1).1
  have hnext : m.nextMessageType = some .pubrec ∨ m.nextMessageType = some .pubcomp := by
    rcases hentry with h | ⟨_, h⟩
    · omega
    · exact h
  have honly : ∀ header, Transmits msgid x header → header = ackHeader .pubrel false := by
    intro header htrans
    obtain ⟨rc, store, hhanded, hheader⟩ := htrans
    have hout := step_outputs hstep _ hhanded
    rw [hevent] at hout
    cases hout with
    | ack _ _ _ _ _ hother =>
        rcases hheader with h | h
        · exact absurd h.1 hother.1
        · exact absurd h hother.2
    | pubrel => rfl
  refine ⟨?_, honly⟩
  rcases hnext with hnext | hnext
  · -- the message is moved on
    obtain ⟨pre, e, post⟩ := x
    dsimp only at hevent hfound
    subst hevent
    obtain ⟨_, hpost⟩ := hstep
    dsimp only at hpost
    subst hpost
    have heffect := handlePubrecs_effect env pre.start pubrec htype
    have hhandle : (pre.outcome env (.packet (.ack pubrec))).2 =
        (handlePubrecs env pre.start pubrec).2 := by
      simp only [Clients.outcome, Clients.handle, htype]
    show PastPubrec msgid (pre.outcome env (.packet (.ack pubrec))).2
    rw [hhandle]
    generalize (handlePubrecs env pre.start pubrec).2 = client' at heffect ⊢
    have hfound₀ : findMsg pre.start.outboundMsgs pubrec.msgId = some m := hid.symm ▸ hfound
    cases heffect with
    | ignored _ hmoves _ =>
        exact absurd ⟨htype, hqos, hnext, hok⟩ (hmoves m hfound₀)
    | completed m' _ hfound' hcompletes _ =>
        obtain rfl : m = m' := Option.some.inj (hfound₀.symm.trans hfound')
        exfalso
        rcases hcompletes with ⟨h, _⟩ | ⟨_, _, _, h⟩ | ⟨h, _⟩
        · rw [htype] at h
          cases h
        · exact hok h
        · rw [htype] at h
          cases h
    | movedOn m' _ _ hclient =>
        subst hclient
        have hfound₁ : findMsg pre.start.outboundMsgs msgid = some m := hfound
        have hmoved (net : Net) :
            findMsg (modifyMsg pre.start.outboundMsgs pubrec.msgId (movedOn env net)) msgid =
              some (movedOn env net m) := by
          rw [findMsg_movedOn, if_pos hid.symm, hfound₁]
          rfl
        exact ⟨_, hmoved _, hqos, rfl⟩
  · -- a repeated PUBREC
    refine step_pastPubrec hinv hstep ⟨m, hfound, hqos, hnext⟩ ?_
    rintro ⟨pubcomp, hevent', htype', _⟩
    rw [hevent] at hevent'
    injection hevent' with h
    injection h with h
    rw [← h, htype] at htype'
    cases htype'

/-- Of an id that is not in the list nothing is transmitted, and it stays away. -/
theorem step_outbound_absent
    (hinv : OutboundInv x.pre)
    (hstep : x.pre.Step env x.event x.post)
    (hnone : findMsg x.pre.outboundMsgs msgid = none)
    (hstart : ¬StartsPublish msgid x) :
    findMsg x.post.outboundMsgs msgid = none ∧ ∀ header, ¬Transmits msgid x header := by
  refine ⟨?_, ?_⟩
  · obtain ⟨pre, e, post⟩ := x
    obtain ⟨hadm, hpost⟩ := hstep
    dsimp only at hpost hnone
    subst hpost
    have hkept : ∀ msgs', SameExchanges pre.outboundMsgs msgs' → findMsg msgs' msgid = none := by
      intro msgs' hsame
      rw [findMsg_eq_none, hsame.msgIds_eq, ← findMsg_eq_none]
      exact hnone
    cases e with
    | act a =>
        by_cases hpub : ∃ publish qos retained, a = .startPublish publish qos retained ∧ qos > 0
        · obtain ⟨publish, qos, retained, rfl, hpos⟩ := hpub
          obtain ⟨m', hm', hlist⟩ :=
            Clients.startPublish_outbound env pre.start publish retained hpos
          have hne : m'.msgid ≠ msgid := by
            intro hid
            exact hstart ⟨publish, qos, retained, rfl, hpos, hm'.msgid_eq.symm.trans hid⟩
          have hsame : findMsg (pre.outboundMsgs ++ [m']) msgid = none := by
            rw [findMsg_append, hnone, if_neg hne]
            rfl
          exact hlist ▸ hsame
        · exact hkept _ (Clients.act_outbound env pre.start a (by
            intro publish qos retained ha
            by_contra h
            exact hpub ⟨publish, qos, retained, ha, by omega⟩))
    | packet pack =>
        rcases handle_outbound env pre.start pack with ⟨a, rfl, heffect⟩ | hsame
        · have hnone₀ : findMsg pre.start.outboundMsgs msgid = none := hnone
          show findMsg (pre.start.handle env (.ack a)).2.outboundMsgs msgid = none
          generalize (pre.start.handle env (.ack a)).2 = client' at heffect ⊢
          cases heffect with
          | ignored _ _ hclient =>
              subst hclient
              exact hnone₀
          | completed _ _ _ _ hclient =>
              subst hclient
              dsimp only
              rw [findMsg_removeMsg, hnone₀, ite_self]
          | movedOn _ _ _ hclient =>
              subst hclient
              dsimp only
              rw [findMsg_movedOn, hnone₀]
              exact ite_self _
        · refine hkept _ ?_
          show SameExchanges pre.start.outboundMsgs (pre.start.handle env pack).2.outboundMsgs
          rw [hsame]
          exact SameExchanges.refl _
  · intro header htrans
    rcases transmits_cases hinv hstep htrans with ⟨_, hsome⟩ | ⟨h, _⟩ | ⟨m, hfound, _⟩
    · rw [hnone] at hsome
      cases hsome
    · exact hstart h
    · rw [hnone] at hfound
      cases hfound

end Steps

section Runs

variable {env : Env} {s t : Clients} {msgid : MsgId} {tr : List (Lib.Transition Clients Event)}

/-- Along a run in which the message waits, or is gone, at most its PUBREL is transmitted. -/
theorem run_transmits
    (hrun : Lib.Runs (Clients.Step env) s tr t)
    (hinv : OutboundInv s)
    (hpast : PastPubrec msgid s ∨ findMsg s.outboundMsgs msgid = none)
    (hstart : ∀ y ∈ tr, ¬StartsPublish msgid y) :
    ∀ y ∈ tr, ∀ header, Transmits msgid y header → header = ackHeader .pubrel false := by
  induction hrun with
  | nil s =>
      intro y hy
      cases hy
  | @cons s u t e tr hstep _ ih =>
      have hx : (⟨s, e, u⟩ : Lib.Transition Clients Event).pre.Step env e u := hstep
      have hnext : PastPubrec msgid u ∨ findMsg u.outboundMsgs msgid = none := by
        rcases hpast with hpast | hnone
        · by_cases hcomp : ReceivesPubcomp msgid ⟨s, e, u⟩
          · right
            obtain ⟨pubcomp, hevent, htype, hid⟩ := hcomp
            dsimp only at hevent
            subst hevent
            obtain ⟨m, hfound, hqos, hnext⟩ := hpast
            obtain ⟨_, rfl⟩ := hstep
            have heffect := handlePubcomps_effect env s.start pubcomp htype
            have hhandle : (s.outcome env (.packet (.ack pubcomp))).2 =
                (handlePubcomps env s.start pubcomp).2 := by
              simp only [Clients.outcome, Clients.handle, htype]
            rw [hhandle]
            have hfound₀ : findMsg s.start.outboundMsgs pubcomp.msgId = some m :=
              hid.symm ▸ hfound
            generalize (handlePubcomps env s.start pubcomp).2 = client' at heffect ⊢
            cases heffect with
            | ignored hcompletes _ _ =>
                exact absurd (Or.inr (Or.inr ⟨htype, hqos, hnext⟩)) (hcompletes m hfound₀)
            | completed _ _ _ _ hclient =>
                subst hclient
                dsimp only
                rw [findMsg_removeMsg, if_pos hid.symm]
            | movedOn _ _ hmoves _ =>
                have h := hmoves.1
                rw [htype] at h
                cases h
          · exact Or.inl (step_pastPubrec (x := ⟨s, e, u⟩) hinv hx hpast hcomp)
        · exact Or.inr (step_outbound_absent (x := ⟨s, e, u⟩) hinv hx hnone
            (hstart _ List.mem_cons_self)).1
      intro y hy header htrans
      rcases List.mem_cons.mp hy with rfl | hy
      · rcases hpast with hpast | hnone
        · exact transmits_pastPubrec hinv hx hpast htrans
        · exact absurd htrans ((step_outbound_absent (x := ⟨s, e, u⟩) hinv hx hnone
            (hstart _ List.mem_cons_self)).2 header)
      · exact ih (step_outboundInv hinv hstep) hnext
          (fun z hz => hstart z (List.mem_cons_of_mem _ hz)) y hy header htrans

/-- While no PUBCOMP of the id comes, the message goes on waiting for it. -/
theorem run_pastPubrec
    (hrun : Lib.Runs (Clients.Step env) s tr t)
    (hinv : OutboundInv s)
    (hpast : PastPubrec msgid s)
    (hcomp : ∀ y ∈ tr, ¬ReceivesPubcomp msgid y) :
    PastPubrec msgid t := by
  induction hrun with
  | nil s =>
      exact hpast
  | @cons s u t e tr hstep _ ih =>
      have hnext := step_pastPubrec (x := ⟨s, e, u⟩) hinv hstep hpast (hcomp _ List.mem_cons_self)
      exact ih (step_outboundInv hinv hstep) hnext
        (fun y hy => hcomp y (List.mem_cons_of_mem _ hy))

/--
After an outbound QoS 2 message's PUBREC has been processed, all that is ever
transmitted for it is its PUBREL, and it leaves the list by its PUBCOMP only.
-/
theorem pubrec_never_falls_back
    (env : Env)
    {s t : Clients} {tr : List (Lib.Transition Clients Event)}
    (hrun : Lib.Runs (Clients.Step env) s tr t)
    (hinv : OutboundInv s)
    {pre rest : List (Lib.Transition Clients Event)} {x : Lib.Transition Clients Event}
    {msgid : MsgId}
    (htr : tr = pre ++ x :: rest)
    (hpubrec : ProcessesPubrec msgid x)
    (hsame : ∀ y ∈ rest, ¬StartsPublish msgid y) :
    (∀ y ∈ x :: rest, ∀ header, Transmits msgid y header → header = ackHeader .pubrel false) ∧
    ∀ mid y post, rest = mid ++ y :: post →
      (∀ z ∈ mid, ¬ReceivesPubcomp msgid z) →
        PastPubrec msgid y.pre ∧ (¬ReceivesPubcomp msgid y → PastPubrec msgid y.post) := by
  subst htr
  obtain ⟨hpre, hstep, hrest⟩ := hrun.split
  have hinv₁ := (run_outboundInv hpre hinv).2
  have hinv₂ := step_outboundInv hinv₁ hstep
  obtain ⟨hpast, honly⟩ := step_processesPubrec hinv₁ hstep hpubrec
  constructor
  · intro y hy
    rcases List.mem_cons.mp hy with rfl | hy
    · exact honly
    · exact run_transmits hrest hinv₂ (Or.inl hpast) hsame y hy
  · intro mid y post hsplit hmid
    subst hsplit
    obtain ⟨hrun₁, hstep₁, _⟩ := hrest.split
    have hpast₁ := run_pastPubrec hrun₁ hinv₂ hpast hmid
    refine ⟨hpast₁, ?_⟩
    intro hcomp
    exact step_pastPubrec (run_outboundInv hrun₁ hinv₂).2 hstep₁ hpast₁ hcomp

end Runs

/-- A QoS 2 publication, its PUBREC, a reconnection with its retry. -/
def retriedExchange : List Event :=
  [.act (.completeConnection false),
    .act (.startPublish
      { header := { type := .publish, dup := false, qos := 2, retain := false }
        topic := [97], topiclen := 1, msgId := 1, payload := [104, 105], MQTTVersion := 4
        properties := MQTTProperties.initializer, mask := ⟨0, 0, 0, 0⟩ } 2 false),
    .packet (.ack
      { header := { type := .pubrec, dup := false, qos := 0, retain := false }
        msgId := 1, rc := 0, MQTTVersion := 4, properties := MQTTProperties.initializer }),
    .act (.closeOnly []),
    .act (.completeConnection false)]

/-- The run of a fresh 3.1.1 client over it. -/
def retriedRun : List (Lib.Transition Clients Event) :=
  Lib.trace (fun c e => (c.outcome Env.reliable e).2) (Clients.fresh 4 0 none) retriedExchange

/-- In this run the reconnection sends the PUBREL again. -/
theorem pubrec_never_falls_back_retried :
    ∃ pre x y z, retriedRun = pre ++ x :: [y, z] ∧ PastPubrec 1 z.pre ∧
      ∃ rc store, .handed (ackHeader .pubrel false) 1 rc store ∈ z.post.net.log := by
  have hrun : Lib.Runs (Clients.Step Env.reliable) (Clients.fresh 4 0 none) retriedRun _ :=
    Clients.runs_trace Env.reliable (Clients.fresh 4 0 none) retriedExchange (by
      intro x hx
      fin_cases hx
      · trivial
      · exact ⟨rfl, by decide, fun _ => ⟨by decide, rfl⟩⟩
      · rfl
      · trivial
      · trivial)
  have hsplit : retriedRun = [_, _] ++ _ :: [_, _] := rfl
  have hsafe := (pubrec_never_falls_back Env.reliable hrun (outboundInv_of_nil rfl) hsplit
    (show ProcessesPubrec 1 _ from ⟨_, _, rfl, rfl, rfl, by decide, rfl, rfl⟩) (by
      intro y hy
      rintro ⟨publish, qos, retained, hevent, _⟩
      fin_cases hy <;> cases hevent)).2
  refine ⟨[_, _], _, _, _, hsplit, ?_, 0, none, List.mem_cons_self⟩
  refine (hsafe [_] _ [] rfl ?_).1
  intro z hz
  rintro ⟨pubcomp, hevent, _⟩
  fin_cases hz
  cases hevent

end PahoMqtt
