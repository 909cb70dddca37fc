import PahoMqtt.Lib.Tickets
import PahoMqtt.Completions
import PahoMqtt.ResendOrder

/-!
# Completion is reported for finished publications

The module follows the callbacks of the requests along with `outboundMsgs` and
says under which conditions a publication that is reported is really finished:
it is no longer in flight and is not sent again.  That no request is completed
twice holds without conditions.
-/

namespace PahoMqtt

open MQTTPacket MQTTProtocol

namespace MQTTAsync

/-! ### Reports of finished publications -/

/-- The id of the publication that `MQTTAsync_cycle` or `MQTTAsync_processCommand` reports. -/
def Report.publishId : Report → Option MsgId
  | .deliveryComplete msgid => some msgid
  | .completed reporter request _ =>
      if (reporter = .cycle ∨ reporter = .processCommand) ∧ request.isAcknowledged = true then
        some request.msgId
      else none

/-- The request of which a callback was called. -/
def Report.serial : Report → Option Nat
  | .deliveryComplete _ => none
  | .completed _ request _ => some request.serial

end MQTTAsync

/-- A PUBLISH of QoS 1 or 2 or a PUBREL with the id goes out. -/
def Output.Carries (msgid : MsgId) (o : Output) : Prop :=
  ∃ header rc store, o = .handed header msgid rc store ∧
    (header.type = .publish ∧ header.qos ≠ 0 ∨ header.type = .pubrel)

namespace MQTTAsync

/-- A run of a client with its requests. -/
abbrev CompletionRun := List (Lib.Transition CompletionState CompletionEvent)

section

variable (msgid : MsgId) (x : Lib.Transition CompletionState CompletionEvent)

/-- The step reports the publication with the id. -/
def Reports : Prop :=
  ∃ report ∈ x.post.reports, report.publishId = some msgid

/-- The step calls the deliveryComplete callback for the id. -/
def Delivers : Prop :=
  .deliveryComplete msgid ∈ x.post.reports

/-- The step starts a publication of QoS 1 or 2 with the id. -/
def Starts : Prop :=
  ∃ request rc, x.event = .processCommand request rc ∧ request.isAcknowledged = true ∧
    request.msgId = msgid

/-- The step sends the publication with the id, or its PUBREL. -/
def Transmits : Prop :=
  ∃ o ∈ x.post.flow.client.net.log, o.Carries msgid

end

/-- The ids of the messages in flight. -/
def CompletionState.ids (s : CompletionState) : List MsgId :=
  msgIds s.flow.client.outboundMsgs

/-- The requests of which a callback was called, in their order. -/
def settled (tr : CompletionRun) : List Nat :=
  tr.flatMap (fun x => x.post.reports.filterMap Report.serial)

/--
Completion is reported for finished publications only, and once.  A publication
that is reported is no longer in flight and is not sent until its id is used
again; no request is completed twice; the deliveryComplete callback is not
called twice for an id unless the id was used again.
-/
structure ReportsFinished (tr : CompletionRun) : Prop where
  removed : ∀ x ∈ tr, ∀ msgid, Reports msgid x → msgid ∉ x.post.ids
  silent : ∀ before x mid y after, tr = before ++ x :: (mid ++ y :: after) →
    ∀ msgid, Reports msgid x → (∀ z ∈ mid ++ [y], ¬Starts msgid z) → ¬Transmits msgid y
  once : (settled tr).Nodup
  deliveredOnce : ∀ before x mid y after, tr = before ++ x :: (mid ++ y :: after) →
    ∀ msgid, Delivers msgid x → Delivers msgid y → ∃ z ∈ mid, Starts msgid z

/-- The packet that `MQTTProtocol_startPublish` sends for a publication of QoS 1 or 2. -/
def qos12pub (publish : Publish) : Publish :=
  { publish with
    properties :=
      if publish.MQTTVersion ≥ 5 then MQTTProperties.copy publish.properties
      else MQTTProperties.initializer }

namespace CompletionState

/-- What `writev` makes of a publication that is started. -/
def startRc (env : Env) (s : CompletionState) (command : Command) (pub : Pub) : Int :=
  let pack := qos12pub (publishOf s.flow.client command pub)
  let net := s.flow.client.net
  writeRc env (net.calls + storeCalls net.persistence.isSome .publish pack.MQTTVersion pack.msgId)
    (publishSize net.websocket pack pub.qos.toNatClampNeg)

/--
The step completes no publication too early.  An acknowledgement that ends the
exchange of a message in flight is the one that the message waits for, and with
the deliveryComplete callback there is such a message; a publication is started
with an id that is not in use, and its write does not fail, where the
publication has a failure callback.
-/
def MeetsExchange (env : Env) (s : CompletionState) : CompletionEvent → Prop
  | .cycle (.ack pack) => pack.acknowledges = true →
      match findMsg s.flow.client.outboundMsgs pack.msgId with
      | some m => Completes pack m
      | none => s.deliveryComplete = false
  | .processCommand request _ => request.isAcknowledged = true →
      request.msgId ∉ s.ids ∧
        ∀ pub, request.command.details = .pub pub →
          (request.callbacks.onFailure || request.callbacks.onFailure5) = true →
            s.startRc env request.command pub ≠ SOCKET_ERROR
  | _ => True

end CompletionState

/-! ### The acknowledgement that a message waits for -/

end MQTTAsync

theorem Completes.not_movesOn
    {pack : Ack} {m : Messages}
    (h : Completes pack m) :
    ¬MovesOn pack m := by
  rintro ⟨htype, _, _, hok⟩
  rcases h with ⟨h, _⟩ | ⟨_, _, _, herror⟩ | ⟨h, _⟩
  · rw [htype] at h
    cases h
  · exact hok herror
  · rw [htype] at h
    cases h

/-- The acknowledgement that a message waits for takes it off the list. -/
theorem handle_completes
    (env : Env) (client : Clients) {pack : Ack} {m : Messages}
    (hfound : findMsg client.outboundMsgs pack.msgId = some m)
    (hcompletes : Completes pack m) :
    (client.handle env (.ack pack)).2.outboundMsgs =
      removeMsg client.outboundMsgs pack.msgId := by
  have hremoved : ∀ {client' : Clients}, AckEffect env client pack client' →
      client'.outboundMsgs = removeMsg client.outboundMsgs pack.msgId := by
    intro client' heffect
    cases heffect with
    | ignored hnot _ _ =>
        exact absurd hcompletes (hnot m hfound)
    | completed _ _ _ _ hclient =>
        rw [hclient]
    | movedOn m' hfound' hmoves _ =>
        obtain rfl : m = m' := Option.some.inj (hfound.symm.trans hfound')
        exact absurd hmoves hcompletes.not_movesOn
  rw [Clients.handle]
  rcases hcompletes with ⟨htype, _⟩ | ⟨htype, _⟩ | ⟨htype, _⟩
  · rw [htype]
    exact hremoved (handlePubacks_effect env client pack htype)
  · rw [htype]
    exact hremoved (handlePubrecs_effect env client pack htype)
  · rw [htype]
    exact hremoved (handlePubcomps_effect env client pack htype)

/-! ### What goes out in a step -/

theorem MQTTProtocol.ActionOutput.carried
    {msgs : List Messages} {a : Action} {o : Output} {msgid : MsgId}
    (h : ActionOutput msgs a o)
    (hcarries : o.Carries msgid) :
    msgid ∈ msgIds msgs ∨
      ∃ publish qos retained, a = .startPublish publish qos retained ∧ Fin.ofNat 4 qos ≠ 0 ∧
        (qos = 1 ∨ qos = 2 → msgid = publish.msgId) := by
  obtain ⟨header, rc, store, rfl, htype⟩ := hcarries
  cases h with
  | startPublish publish qos retained _ _ _ hid =>
      refine Or.inr ⟨publish, qos, retained, rfl, ?_, hid⟩
      rcases htype with h | h
      · exact h.2
      · cases h
  | retryPublish _ m _ _ hm =>
      obtain ⟨y, hy, hsame⟩ := hm
      rw [hsame.msgid]
      exact Or.inl (List.mem_map_of_mem hy)
  | retryPubrel _ m _ _ hm =>
      obtain ⟨y, hy, hsame⟩ := hm
      rw [hsame.msgid]
      exact Or.inl (List.mem_map_of_mem hy)
  | disconnect _ _ _ _ _ hdis =>
      rw [hdis] at htype
      simp at htype

theorem MQTTProtocol.HandlerOutput.carried
    {client : Clients} {pack : Packet} {o : Output} {msgid : MsgId}
    (h : HandlerOutput client pack o)
    (hcarries : o.Carries msgid) :
    msgid ∈ msgIds client.outboundMsgs := by
  obtain ⟨header, rc, store, rfl, htype⟩ := hcarries
  cases h with
  | ack _ type _ _ _ hother =>
      rcases htype with h | h
      · exact absurd h.1 hother.1
      · exact absurd h hother.2
  | pubrel pubrec m _ _ _ hfound =>
      obtain ⟨hm, hid⟩ := findMsg_eq_some hfound
      rw [← hid]
      exact List.mem_map_of_mem hm

namespace MQTTAsync
namespace FlowState

/-- The step puts no message in flight and sends only for messages that were. -/
structure Keeps (s t : FlowState) : Prop where
  ids : ∀ msgid ∈ msgIds t.client.outboundMsgs, msgid ∈ msgIds s.client.outboundMsgs
  carried : ∀ o ∈ t.client.net.log, ∀ msgid, o.Carries msgid →
    msgid ∈ msgIds s.client.outboundMsgs

/-- Nothing goes out, and the messages are what they were. -/
theorem Keeps.of_silent
    {s t : FlowState}
    (hlog : t.client.net.log = [])
    (hmsgs : t.client.outboundMsgs = s.client.outboundMsgs) :
    Keeps s t where
  ids msgid h := hmsgs ▸ h
  carried o h := by
    rw [hlog] at h
    cases h

/-- What an action sends, no message being started. -/
theorem carried_of_logs
    {msgs : List Messages} {a : Action} {net net' : Net}
    (h : Net.Logs (ActionOutput msgs a) net net')
    (hlog : net.log = [])
    (ha : ∀ publish qos retained, a ≠ .startPublish publish qos retained) :
    ∀ o ∈ net'.log, ∀ msgid, o.Carries msgid → msgid ∈ msgIds msgs := by
  intro o ho msgid hcarries
  rcases (h.forall_mem hlog o ho).carried hcarries with hin | ⟨publish, qos, retained, rfl, _⟩
  · exact hin
  · exact absurd rfl (ha publish qos retained)

theorem closeOnly_keeps
    (env : Env) (s : FlowState) (disconnect : Bytes) :
    Keeps s (s.closeOnly env disconnect) where
  ids _ h := h
  carried := carried_of_logs
    (closeOnly_logs env (.closeOnly disconnect) s.client.start disconnect)
    rfl (fun _ _ _ h => by cases h)

theorem closeSession_keeps
    (env : Env) (s : FlowState) (disconnect : Bytes) (pkeys : Int × List Key) :
    Keeps s (s.closeSession env disconnect pkeys) := by
  have hclosed := closeOnly_keeps env s disconnect
  unfold closeSession
  dsimp only
  split
  · refine ⟨fun _ h => absurd h List.not_mem_nil, ?_⟩
    have hlog :=
      (unpersistInflightMessages_same env pkeys (s.closeOnly env disconnect).client.net).1
    intro o ho
    exact hclosed.carried o (hlog ▸ ho)
  · exact hclosed

theorem nextOrClose_keeps
    (env : Env) (s : FlowState) (more : Bool) (disconnect : Bytes) (pkeys : Int × List Key) :
    Keeps s (s.nextOrClose env more disconnect pkeys) := by
  unfold nextOrClose
  split
  · exact closeOnly_keeps env s disconnect
  · exact closeSession_keeps env s disconnect pkeys

theorem Keeps.of_ids
    {s t u : FlowState}
    (h : Keeps t u)
    (hids : ∀ msgid ∈ msgIds t.client.outboundMsgs, msgid ∈ msgIds s.client.outboundMsgs) :
    Keeps s u where
  ids msgid hmsgid := hids msgid (h.ids msgid hmsgid)
  carried o ho msgid hcarries := hids msgid (h.carried o ho msgid hcarries)

theorem notCompleted_ids
    (env : Env) (s : FlowState) (pkeys : Int × List Key) (connack : Connack) (websocket : Bool) :
    ∀ msgid ∈ msgIds (s.notCompleted env pkeys connack websocket).client.outboundMsgs,
      msgid ∈ msgIds s.client.outboundMsgs := by
  intro msgid hmsgid
  rw [notCompleted] at hmsgid
  split at hmsgid
  · dsimp only at hmsgid
    rw [(cleaned_spec env s pkeys connack).1, kept] at hmsgid
    split at hmsgid
    · cases hmsgid
    · exact hmsgid
  · exact hmsgid

theorem connack_keeps
    (env : Env) (s : FlowState) (connack : Connack) (websocket : Bool) (pkeys : Int × List Key)
    (more : Bool) (disconnect : Bytes) :
    Keeps s (s.next env (.connack connack websocket pkeys more disconnect)) := by
  simp only [next]
  split
  · obtain ⟨hkept, _, hlog, _⟩ := cleaned_spec env s pkeys connack
    set client := (s.cleaned env pkeys connack).2
    have hids : ∀ msgid ∈ msgIds client.outboundMsgs, msgid ∈ msgIds s.client.outboundMsgs := by
      intro msgid h
      rw [hkept, kept] at h
      split at h
      · cases h
      · exact h
    refine ⟨fun msgid h => hids msgid ?_, fun o ho msgid hcarries => hids msgid ?_⟩
    · rw [← (completeConnection_spec env client websocket).1.msgIds_eq]
      exact h
    · exact carried_of_logs
        (completeConnection_logs env (.completeConnection websocket) client websocket) hlog
        (fun _ _ _ h => by cases h) o ho msgid hcarries
  · exact (nextOrClose_keeps env _ more disconnect pkeys).of_ids
      (notCompleted_ids env s pkeys connack websocket)

theorem retry_keeps
    (env : Env) (s : FlowState) (now : Int) (doRetry regardless : Bool) :
    Keeps s (s.next env (.retry now doRetry regardless)) where
  ids msgid h := by
    change msgid ∈ msgIds s.client.start.outboundMsgs
    rw [← (retry_spec env now doRetry regardless s.client.start).1.msgIds_eq]
    exact h
  carried := carried_of_logs
    (Clients.act_logs env s.client.start (.retry now doRetry regardless))
    rfl (fun _ _ _ h => by cases h)

theorem packet_keeps
    (env : Env) (s : FlowState) (pack : Packet) :
    Keeps s (s.next env (.packet pack)) := by
  refine ⟨?_, fun o ho msgid hcarries => ?_⟩
  · intro msgid h
    change msgid ∈ msgIds (s.client.start.handle env pack).2.outboundMsgs at h
    rcases handle_outbound env s.client.start pack with ⟨ack, _, heffect⟩ | hsame
    · cases heffect with
      | ignored _ _ hclient =>
          rw [hclient] at h
          exact h
      | completed _ _ _ _ hclient =>
          rw [hclient] at h
          exact (msgIds_removeMsg _ _).subset h
      | movedOn _ _ _ hclient =>
          rw [hclient] at h
          dsimp only at h
          rw [msgIds_movedOn] at h
          exact h
    · rw [hsame] at h
      exact h
  · exact ((handle_logs env s.client.start pack).forall_mem rfl o ho).carried hcarries

/-- No event of the connection starts a publication. -/
theorem connection_keeps
    (env : Env) (s : FlowState) {e : FlowEvent}
    (he : e.ofConnection = true) :
    Keeps s (s.next env e) := by
  cases e with
  | connect options => exact .of_silent rfl rfl
  | connecting state => exact .of_silent rfl rfl
  | connack connack websocket pkeys more disconnect =>
      exact connack_keeps env s connack websocket pkeys more disconnect
  | retry now doRetry regardless => exact retry_keeps env s now doRetry regardless
  | writeInterrupted => exact .of_silent rfl rfl
  | disconnect => exact .of_silent rfl rfl
  | closeOnly disconnect => exact closeOnly_keeps env s disconnect
  | closeSession disconnect pkeys => exact closeSession_keeps env s disconnect pkeys
  | processCommand | continueWrites | packet => cases he

end FlowState

/-! ### The callbacks that are called -/

namespace CompletionState

/-- The requests that are queued or wait for their response. -/
def outstanding (s : CompletionState) : List Nat :=
  (s.commands ++ s.responses).map (·.serial)

/--
The callbacks called on the way from `s` to `t` satisfy `P`, and belong to
requests of `opened` that are then no longer outstanding.
-/
structure Settles (P : Report → Prop) (opened : List Nat) (s t : CompletionState) : Prop where
  flow : t.flow = s.flow
  accepted : t.accepted = s.accepted
  settles : ∃ new, t.reports = s.reports ++ new ∧ (∀ report ∈ new, P report) ∧
    List.Subperm (new.filterMap Report.serial ++ t.outstanding) opened

section

variable {P : Report → Prop} {opened : List Nat} {s t u : CompletionState}

theorem Settles.refl
    (s : CompletionState) :
    Settles P s.outstanding s s :=
  ⟨rfl, rfl, [], (List.append_nil _).symm, fun _ h => absurd h List.not_mem_nil,
    List.Subperm.refl _⟩

theorem Settles.trans
    (h₁ : Settles P opened s t)
    (h₂ : Settles P t.outstanding t u) :
    Settles P opened s u := by
  obtain ⟨hflow₁, haccepted₁, new₁, hreports₁, hP₁, hsub₁⟩ := h₁
  obtain ⟨hflow₂, haccepted₂, new₂, hreports₂, hP₂, hsub₂⟩ := h₂
  refine ⟨hflow₂.trans hflow₁, haccepted₂.trans haccepted₁, new₁ ++ new₂, ?_, ?_, ?_⟩
  · rw [hreports₂, hreports₁, List.append_assoc]
  · intro report hreport
    rcases List.mem_append.mp hreport with h | h
    · exact hP₁ report h
    · exact hP₂ report h
  · rw [List.filterMap_append, List.append_assoc]
    exact ((List.subperm_append_left _).mpr hsub₂).trans hsub₁

/-- A response is taken off the list, and its request is completed or not. -/
theorem Settles.detach
    {request : PendingRequest} {new : List Report}
    (hin : request ∈ s.responses)
    (hflow : t.flow = s.flow)
    (haccepted : t.accepted = s.accepted)
    (hcommands : t.commands = s.commands)
    (hresponses : t.responses = s.responses.erase request)
    (hreports : t.reports = s.reports ++ new)
    (hP : ∀ report ∈ new, P report)
    (hnew : (new.filterMap Report.serial).Sublist [request.serial]) :
    Settles P s.outstanding s t := by
  refine ⟨hflow, haccepted, new, hreports, hP, ?_⟩
  have hresponse : (s.responses.map (·.serial)).Perm
      (request.serial :: (s.responses.erase request).map (·.serial)) :=
    (List.perm_cons_erase hin).map _
  have hall : List.Perm s.outstanding
      ([request.serial] ++ (s.commands ++ s.responses.erase request).map (·.serial)) := by
    rw [outstanding, List.map_append, List.map_append]
    exact (hresponse.append_left _).trans List.perm_middle
  rw [outstanding, hcommands, hresponses, hall.subperm_left]
  exact (List.subperm_append_right _).mpr hnew.subperm

/-- The reports of a single request. -/
theorem succeed_serials
    (reporter : Reporter) (request : PendingRequest) :
    ((request.succeed reporter).filterMap Report.serial).Sublist [request.serial] := by
  unfold PendingRequest.succeed
  split
  · exact List.Sublist.refl _
  · exact List.nil_sublist _

theorem fail_serials
    (reporter : Reporter) (request : PendingRequest) :
    ((request.fail reporter).filterMap Report.serial).Sublist [request.serial] := by
  unfold PendingRequest.fail
  split
  · exact List.Sublist.refl _
  · exact List.nil_sublist _

end

/-! ### What each function may report -/

/-- A report of `MQTTAsync_cycle` for an acknowledgement with the id. -/
def CycleReport (deliveryComplete : Bool) (msgid : MsgId) : Report → Prop
  | .deliveryComplete msgid' => deliveryComplete = true ∧ msgid' = msgid
  | .completed reporter request _ =>
      reporter = .cycle ∧ (request.isAcknowledged = true → request.msgId = msgid)

/-- A report of `MQTTAsync_processCommand` for a request whose start had the result `rc`. -/
def CommandReport (request : PendingRequest) (rc : Int) : Report → Prop
  | .deliveryComplete _ => False
  | .completed reporter request' _ =>
      reporter = .processCommand ∧ request' = request ∧
        (request.isAcknowledged = true →
          (request.callbacks.onFailure || request.callbacks.onFailure5) = true ∧
            (rc = SOCKET_ERROR ∨ rc = MQTTPersistence.PERSISTENCE_ERROR))

/-- A report of one of the other functions. -/
def OtherReport : Report → Prop
  | .deliveryComplete _ => False
  | .completed reporter _ _ => reporter ≠ .cycle ∧ reporter ≠ .processCommand

theorem OtherReport.publishId_eq
    {report : Report}
    (h : OtherReport report) :
    report.publishId = none := by
  cases report with
  | deliveryComplete msgid => cases h
  | completed reporter request success =>
      exact if_neg fun hid => hid.1.elim h.1 h.2

theorem fail_other
    {reporter : Reporter}
    (hreporter : reporter ≠ .cycle ∧ reporter ≠ .processCommand)
    (request : PendingRequest) :
    ∀ report ∈ request.fail reporter, OtherReport report := by
  intro report h
  unfold PendingRequest.fail at h
  split at h
  · obtain rfl := List.mem_singleton.mp h
    exact hreporter
  · cases h

theorem succeed_other
    {reporter : Reporter}
    (hreporter : reporter ≠ .cycle ∧ reporter ≠ .processCommand)
    (request : PendingRequest) :
    ∀ report ∈ request.succeed reporter, OtherReport report := by
  intro report h
  unfold PendingRequest.succeed at h
  split at h
  · obtain rfl := List.mem_singleton.mp h
    exact hreporter
  · cases h

/-- All requests of a list are failed. -/
theorem flatMap_fail
    {reporter : Reporter}
    (hreporter : reporter ≠ .cycle ∧ reporter ≠ .processCommand)
    (requests : List PendingRequest) :
    (∀ report ∈ requests.flatMap (PendingRequest.fail reporter), OtherReport report) ∧
      ((requests.flatMap (PendingRequest.fail reporter)).filterMap Report.serial).Sublist
        (requests.map (·.serial)) := by
  constructor
  · intro report h
    obtain ⟨request, _, hin⟩ := List.mem_flatMap.mp h
    exact fail_other hreporter request report hin
  · induction requests with
    | nil =>
        exact List.Sublist.slnil
    | cons request requests ih =>
        rw [List.flatMap_cons, List.filterMap_append, List.map_cons]
        exact (fail_serials reporter request).append ih

theorem freeResponses_settles
    (s : CompletionState) :
    Settles OtherReport s.outstanding s s.freeResponses := by
  have hreporter : Reporter.freeResponses ≠ .cycle ∧ Reporter.freeResponses ≠ .processCommand :=
    ⟨by decide, by decide⟩
  obtain ⟨hother, hserials⟩ := flatMap_fail hreporter s.responses
  refine ⟨rfl, rfl, _, rfl, hother, ?_⟩
  have hperm : List.Perm s.outstanding
      (s.responses.map (·.serial) ++ s.commands.map (·.serial)) := by
    rw [outstanding, List.map_append]
    exact List.perm_append_comm
  have hrest : s.freeResponses.outstanding = s.commands.map (·.serial) := by
    simp [outstanding, freeResponses]
  rw [hrest, hperm.subperm_left]
  exact (List.subperm_append_right _).mpr hserials.subperm

theorem freeCommands_settles
    (s : CompletionState) :
    Settles OtherReport s.outstanding s s.freeCommands := by
  have hreporter : Reporter.freeCommands ≠ .cycle ∧ Reporter.freeCommands ≠ .processCommand :=
    ⟨by decide, by decide⟩
  obtain ⟨hother, hserials⟩ := flatMap_fail hreporter s.commands
  refine ⟨rfl, rfl, _, rfl, hother, ?_⟩
  have hrest : s.freeCommands.outstanding = s.responses.map (·.serial) := by
    simp [outstanding, freeCommands]
  rw [hrest, outstanding, List.map_append]
  exact (List.subperm_append_right _).mpr hserials.subperm

/-- The response that is found for an id is that of the publication with the id. -/
theorem findResponse_eq_some
    {s : CompletionState} {msgid : MsgId} {request : PendingRequest}
    (h : s.findResponse msgid = some request) :
    request ∈ s.responses ∧ request.msgId = msgid := by
  refine ⟨List.mem_of_find?_eq_some h, ?_⟩
  have htoken : request.command.token = Int32.ofNat msgid.toNat := by
    simpa using List.find?_some h
  have hlt := msgid.toNat_lt
  rw [PendingRequest.msgId, htoken]
  have hclamp : (Int32.ofNat msgid.toNat).toNatClampNeg = msgid.toNat := by
    rw [Int32.toNatClampNeg, Int32.toInt_ofNat_of_lt (by omega)]
    rfl
  rw [hclamp, UInt16.ofNat_toNat]

theorem acknowledged_settles
    (s : CompletionState) (msgid : MsgId) (ackrc : UInt8) :
    Settles (CycleReport s.deliveryComplete msgid) s.outstanding s
      (s.acknowledged msgid ackrc) := by
  unfold acknowledged
  set s₁ : CompletionState := if s.deliveryComplete then
    { s with reports := s.reports ++ [.deliveryComplete msgid] } else s with hs₁
  have hdelivered : Settles (CycleReport s.deliveryComplete msgid) s.outstanding s s₁ := by
    rw [hs₁]
    split
    next hdc =>
      refine ⟨rfl, rfl, [.deliveryComplete msgid], rfl, ?_, List.Subperm.refl _⟩
      intro report h
      obtain rfl := List.mem_singleton.mp h
      exact ⟨hdc, rfl⟩
    · exact .refl s
  refine hdelivered.trans ?_
  dsimp only
  cases hfound : s₁.findResponse msgid with
  | none =>
      exact .refl s₁
  | some request =>
      obtain ⟨hin, hid⟩ := findResponse_eq_some hfound
      refine .detach hin rfl rfl rfl rfl rfl ?_ ?_
      · intro report h
        repeat' split at h
        all_goals first
          | (obtain rfl := List.mem_singleton.mp h; exact ⟨rfl, fun _ => hid⟩)
          | cases h
      · repeat' split
        all_goals first
          | exact List.Sublist.refl _
          | exact List.nil_sublist _

/-- A response is found for a SUBACK or an UNSUBACK. -/
theorem suback_settles
    (s : CompletionState) (msgid : MsgId) (qoss : List Nat) :
    Settles OtherReport s.outstanding s (s.suback msgid qoss) := by
  unfold suback
  cases hfound : s.findResponse msgid with
  | none =>
      exact .refl s
  | some request =>
      refine .detach (findResponse_eq_some hfound).1 rfl rfl rfl rfl rfl ?_ ?_
      · intro report h
        repeat' split at h
        all_goals first
          | (obtain rfl := List.mem_singleton.mp h; exact ⟨by decide, by decide⟩)
          | cases h
      · repeat' split
        all_goals first
          | exact List.Sublist.refl _
          | exact List.nil_sublist _

theorem unsuback_settles
    (s : CompletionState) (msgid : MsgId) :
    Settles OtherReport s.outstanding s (s.unsuback msgid) := by
  unfold unsuback
  cases hfound : s.findResponse msgid with
  | none =>
      exact .refl s
  | some request =>
      exact .detach (findResponse_eq_some hfound).1 rfl rfl rfl rfl rfl
        (succeed_other ⟨by decide, by decide⟩ request) (succeed_serials _ request)

theorem pendingResponse_mem
    {s : CompletionState} {request : PendingRequest}
    (h : s.pendingResponse = some request) :
    request ∈ s.responses := by
  unfold pendingResponse at h
  split at h
  · cases h
  · exact List.mem_of_find?_eq_some h

theorem writeComplete_settles
    (env : Env) (s : CompletionState) (rc : Int) :
    Settles OtherReport s.outstanding { s with flow := s.flow.next env .continueWrites }
      (s.writeComplete env rc) := by
  unfold writeComplete
  set s₁ : CompletionState := { s with flow := s.flow.next env .continueWrites }
  have hkept : ∀ pending, Settles OtherReport s.outstanding s₁
      { s₁ with pending_write := pending } := fun pending =>
    ⟨rfl, rfl, [], (List.append_nil _).symm, fun _ h => absurd h List.not_mem_nil,
      List.Subperm.refl _⟩
  dsimp only
  cases hfound : s₁.pendingResponse with
  | none =>
      exact hkept none
  | some request =>
      have hin := pendingResponse_mem hfound
      dsimp only
      split
      · split
        · exact .detach hin rfl rfl rfl rfl rfl
            (succeed_other ⟨by decide, by decide⟩ request) (succeed_serials _ request)
        · split
          · exact .detach hin rfl rfl rfl rfl rfl
              (fail_other ⟨by decide, by decide⟩ request) (fail_serials _ request)
          · exact hkept none
      · exact .detach hin rfl rfl rfl rfl (List.append_nil _).symm
          (fun _ h => absurd h List.not_mem_nil) (List.nil_sublist _)

theorem connection_settles
    (env : Env) (s : CompletionState) (e : FlowEvent) :
    Settles OtherReport s.outstanding { s with flow := s.flow.next env e }
      (s.connection env e) := by
  unfold connection
  dsimp only
  split
  · exact freeResponses_settles { s with flow := s.flow.next env e }
  · exact .refl { s with flow := s.flow.next env e }

/-- A request that was started is completed, awaits its response or is forgotten. -/
theorem requestStarted_settles
    (s : CompletionState) (request : PendingRequest) (rc : Int) :
    Settles (CommandReport request rc) (request.serial :: s.outstanding) s
      (s.requestStarted request rc) := by
  have hcalled : ∀ (pending : Option Nat) (new : List Report),
      (∀ report ∈ new, CommandReport request rc report) →
        (new.filterMap Report.serial).Sublist [request.serial] →
          Settles (CommandReport request rc) (request.serial :: s.outstanding) s
            { s with pending_write := pending, reports := s.reports ++ new } := by
    intro pending new hnew hserials
    refine ⟨rfl, rfl, new, rfl, hnew, ?_⟩
    exact (List.subperm_append_right s.outstanding).mpr hserials.subperm
  have hawaits : ∀ pending : Option Nat,
      Settles (CommandReport request rc) (request.serial :: s.outstanding) s
        { s with pending_write := pending, responses := s.responses ++ [request] } := by
    intro pending
    refine ⟨rfl, rfl, [], (List.append_nil _).symm, fun _ h => absurd h List.not_mem_nil, ?_⟩
    have hperm : List.Perm ((s.commands ++ (s.responses ++ [request])).map (·.serial))
        (request.serial :: s.outstanding) := by
      rw [← List.append_assoc, List.map_append, List.map_singleton]
      exact List.perm_append_singleton _ _
    exact hperm.subperm
  have hforgotten : ∀ pending : Option Nat,
      Settles (CommandReport request rc) (request.serial :: s.outstanding) s
        { s with pending_write := pending } := fun pending =>
    ⟨rfl, rfl, [], (List.append_nil _).symm, fun _ h => absurd h List.not_mem_nil,
      List.Subperm.cons_self⟩
  have hfail : rc = SOCKET_ERROR ∨ rc = MQTTPersistence.PERSISTENCE_ERROR →
      ∀ report ∈ request.fail .processCommand, CommandReport request rc report := by
    intro hrc report h
    unfold PendingRequest.fail at h
    split at h
    next hset =>
      obtain rfl := List.mem_singleton.mp h
      exact ⟨rfl, rfl, fun _ => ⟨hset, hrc⟩⟩
    · cases h
  unfold requestStarted
  dsimp only
  by_cases hzero : request.command.type = .publish ∧ request.command.qos = 0
  · have hsucceed :
        ∀ report ∈ request.succeed .processCommand, CommandReport request rc report := by
      intro report h
      unfold PendingRequest.succeed at h
      split at h
      · obtain rfl := List.mem_singleton.mp h
        refine ⟨rfl, rfl, fun hack => ?_⟩
        rw [PendingRequest.isAcknowledged, hzero.2] at hack
        simp at hack
      · cases h
    by_cases hcomplete : rc = TCPSOCKET_COMPLETE
    · subst hcomplete
      simp only [hzero, and_self, if_true]
      exact hcalled s.pending_write _ hsucceed (succeed_serials _ request)
    · by_cases herror : rc = SOCKET_ERROR ∨ rc = MQTTPersistence.PERSISTENCE_ERROR
      · have hnot : ¬((request.command.type = .publish ∧ request.command.qos = 0) ∧
            rc ≠ SOCKET_ERROR ∧ rc ≠ MQTTPersistence.PERSISTENCE_ERROR) := by
          rintro ⟨_, hsocket, hpersistence⟩
          exact herror.elim hsocket hpersistence
        rw [if_pos hzero, if_neg hcomplete, if_neg hnot, if_pos herror]
        exact hcalled _ _ (hfail herror) (fail_serials _ request)
      · rw [if_pos hzero, if_neg hcomplete, if_pos ⟨hzero, not_or.mp herror⟩]
        split
        · exact hawaits _
        · exact hforgotten _
  · rw [if_neg hzero, if_neg fun h => hzero h.1]
    split
    next herror => exact hcalled _ _ (hfail herror) (fail_serials _ request)
    · exact hawaits _

/-- A request is taken from the queue and started. -/
theorem processCommand_settles
    (env : Env) (s : CompletionState) {request : PendingRequest} (rc : Int)
    (hin : request ∈ s.commands) :
    Settles (CommandReport request (s.startRequest env request.command rc).1) s.outstanding
      { s with
        flow := (s.startRequest env request.command rc).2
        commands := s.commands.erase request }
      (s.processCommand env request rc) := by
  obtain ⟨hflow, haccepted, new, hreports, hnew, hsub⟩ := requestStarted_settles
    { s with
      flow := (s.startRequest env request.command rc).2
      commands := s.commands.erase request } request (s.startRequest env request.command rc).1
  refine ⟨hflow, haccepted, new, hreports, hnew, ?_⟩
  have hperm : List.Perm (s.commands ++ s.responses)
      (request :: (s.commands.erase request ++ s.responses)) :=
    (List.perm_cons_erase hin).append_right s.responses
  exact (hperm.map (·.serial)).subperm_left.mpr hsub

/-! ### The steps -/

/-- The reports that a step may make. -/
def ReportOf (env : Env) (s : CompletionState) : CompletionEvent → Report → Prop
  | .processCommand request rc, report =>
      CommandReport request (s.start.startRequest env request.command rc).1 report
  | .cycle (.ack pack), report =>
      pack.acknowledges = true ∧ CycleReport s.deliveryComplete pack.msgId report
  | .cycle (.publish _), _ => False
  | _, report => OtherReport report

/-- What a step reports, and the tickets that are then still out. -/
structure StepSettles (env : Env) (s : CompletionState) (e : CompletionEvent)
    (t : CompletionState) : Prop where
  accepted : t.accepted = s.accepted
  reports : ∀ report ∈ t.reports, s.ReportOf env e report
  settles : List.Subperm (t.reports.filterMap Report.serial ++ t.outstanding) s.outstanding

theorem StepSettles.of_start
    {env : Env} {s₀ t : CompletionState} {P : Report → Prop}
    (s : CompletionState) (e : CompletionEvent)
    (h : Settles P s.outstanding s₀ t)
    (hreports : s₀.reports = [])
    (haccepted : s₀.accepted = s.accepted)
    (hP : ∀ report, P report → s.ReportOf env e report) :
    StepSettles env s e t := by
  obtain ⟨_, haccepted', new, hnew, hin, hsub⟩ := h
  rw [hreports, List.nil_append] at hnew
  subst hnew
  exact ⟨haccepted'.trans haccepted, fun report h => hP report (hin report h), hsub⟩

/-- A step that adds no request settles some of those that are outstanding. -/
theorem next_settles
    (env : Env) {s : CompletionState} {e : CompletionEvent}
    (hadm : s.Admissible e)
    (hnew : ∀ command callbacks full, e ≠ .addCommand command callbacks full) :
    StepSettles env s e (s.next env e) := by
  cases e with
  | addCommand command callbacks full =>
      exact absurd rfl (hnew command callbacks full)
  | processCommand request rc =>
      exact .of_start s _ (processCommand_settles env s.start rc hadm.1) rfl rfl fun _ h => h
  | cycle pack =>
      cases pack with
      | publish publish =>
          exact ⟨rfl, fun _ h => absurd h List.not_mem_nil, List.Subperm.refl _⟩
      | ack pack =>
          have hack := acknowledged_settles
            { s.start with flow := s.start.flow.next env (.packet (.ack pack)) } pack.msgId
            (if pack.MQTTVersion ≥ 5 then pack.rc else 0)
          simp only [next, cycle]
          split
          next hacknowledges =>
            exact .of_start s (.cycle (.ack pack)) hack rfl rfl fun _ h => ⟨hacknowledges, h⟩
          · exact ⟨rfl, fun _ h => absurd h List.not_mem_nil, List.Subperm.refl _⟩
  | suback msgid qoss =>
      exact .of_start s (.suback msgid qoss) (suback_settles s.start msgid qoss) rfl rfl
        fun _ h => h
  | unsuback msgid =>
      exact .of_start s (.unsuback msgid) (unsuback_settles s.start msgid) rfl rfl fun _ h => h
  | writeComplete rc =>
      exact .of_start s (.writeComplete rc) (writeComplete_settles env s.start rc) rfl rfl
        fun _ h => h
  | connection e =>
      exact .of_start s (.connection e) (connection_settles env s.start e) rfl rfl fun _ h => h
  | destroy disconnect pkeys =>
      have hclosed := connection_settles env s.start (.closeSession disconnect pkeys)
      have hresponses := freeResponses_settles
        (s.start.connection env (.closeSession disconnect pkeys))
      have hcommands := freeCommands_settles
        (s.start.connection env (.closeSession disconnect pkeys)).freeResponses
      exact .of_start s (.destroy disconnect pkeys) ((hclosed.trans hresponses).trans hcommands)
        rfl rfl fun _ h => h

/-- A new request is outstanding, unless the oldest publication makes room for it. -/
theorem addCommand_outstanding
    (s : CompletionState) (command : Command) (callbacks : Callbacks) (full : Bool) :
    List.Subperm (s.addCommand command callbacks full).outstanding
      (s.outstanding ++ [s.accepted]) := by
  have hsub : (s.addCommand command callbacks full).commands.Sublist
      (s.commands ++ [⟨s.accepted, command, callbacks⟩]) := by
    unfold addCommand
    dsimp only
    split
    · exact List.eraseP_sublist
    · exact List.Sublist.refl _
  have hperm : List.Perm
      ((s.commands ++ ([⟨s.accepted, command, callbacks⟩] : List PendingRequest) ++
        s.responses).map (·.serial)) (s.outstanding ++ [s.accepted]) := by
    rw [outstanding, List.map_append, List.map_append, List.map_append, List.map_singleton,
      List.append_assoc, List.append_assoc]
    exact List.perm_append_comm.append_left _
  exact ((hsub.append_right s.responses).map _).subperm.trans hperm.subperm

/-- The tickets after a run. -/
def tickets (tr : CompletionRun) (s : CompletionState) : Lib.Tickets :=
  ⟨s.accepted, s.outstanding, settled tr⟩

theorem step_tickets
    {env : Env} {tr : CompletionRun} {s t : CompletionState} {e : CompletionEvent}
    (h : (tickets tr s).Sound)
    (hstep : Step env s e t) :
    (tickets (tr ++ [⟨s, e, t⟩]) t).Sound := by
  obtain ⟨hadm, rfl⟩ := hstep
  have hsettled : settled (tr ++ [⟨s, e, s.next env e⟩]) =
      settled tr ++ (s.next env e).reports.filterMap Report.serial := by
    rw [settled, List.flatMap_append, List.flatMap_singleton]
    rfl
  by_cases hnew : ∃ command callbacks full, e = .addCommand command callbacks full
  · obtain ⟨command, callbacks, full, rfl⟩ := hnew
    have hissued := h.issue.withdraw (addCommand_outstanding s.start command callbacks full)
    rw [tickets, hsettled]
    exact (List.append_nil (settled tr)).symm ▸ hissued
  · obtain ⟨haccepted, _, hsub⟩ := next_settles env hadm
      (fun command callbacks full he => hnew ⟨command, callbacks, full, he⟩)
    rw [tickets, hsettled, haccepted]
    exact h.settle hsub

/-! ### Messages that are not in flight -/

theorem isAcknowledged_iff
    {request : PendingRequest} {pub : Pub}
    (hpub : request.command.details = .pub pub) :
    request.isAcknowledged = true ↔ pub.qos > 0 := by
  have htype : request.command.type = .publish := by rw [Command.type, hpub]; rfl
  have hqos : request.command.qos = pub.qos := by rw [Command.qos, hpub]
  simp [PendingRequest.isAcknowledged, htype, hqos]

/-- A request that is started puts no id in flight but that of its own publication. -/
theorem startRequest_absent
    (env : Env) (s : CompletionState) {request : PendingRequest} (rc : Int) {msgid : MsgId}
    (hlow : 0 ≤ request.command.qos)
    (hhigh : request.command.qos ≤ 2)
    (habsent : msgid ∉ s.ids)
    (hother : request.isAcknowledged = true → request.msgId ≠ msgid) :
    msgid ∉ msgIds (s.startRequest env request.command rc).2.client.outboundMsgs ∧
      ∀ o ∈ (s.startRequest env request.command rc).2.client.net.log, ¬o.Carries msgid := by
  cases hdetails : request.command.details with
  | pub pub =>
      have hack := isAcknowledged_iff hdetails
      have hqos : request.command.qos = pub.qos := by rw [Command.qos, hdetails]
      rw [hqos] at hlow hhigh
      obtain ⟨hle, hpos⟩ := qos_toNat hlow hhigh
      have hrequest : s.startRequest env request.command rc =
          ((s.flow.client.start.act env (.startPublish
              (publishOf s.flow.client request.command pub) pub.qos.toNatClampNeg
              (pub.retained ≠ 0))).1,
            s.flow.next env (.processCommand request.command pub)) := by
        unfold startRequest
        rw [hdetails]
      rw [hrequest]
      constructor
      · by_cases hqos : pub.qos.toNatClampNeg > 0
        · obtain ⟨m, hm, hlist⟩ := Clients.startPublish_outbound env s.flow.client.start
            (publishOf s.flow.client request.command pub) (pub.retained ≠ 0) hqos
          have houtbound :
              (s.flow.next env (.processCommand request.command pub)).client.outboundMsgs =
                s.flow.client.outboundMsgs ++ [m] := hlist
          have hnot := hother (hack.mpr (hpos.mp hqos))
          dsimp only
          rw [houtbound, msgIds_append, List.mem_append, not_or]
          refine ⟨habsent, fun hin => hnot ?_⟩
          obtain rfl := List.mem_singleton.mp hin
          exact hm.msgid_eq.symm
        · have hsame := Clients.act_outbound env s.flow.client.start
            (.startPublish (publishOf s.flow.client request.command pub)
              pub.qos.toNatClampNeg (pub.retained ≠ 0)) (fun _ _ _ heq => by cases heq; omega)
          have hids :
              msgIds (s.flow.next env (.processCommand request.command pub)).client.outboundMsgs =
                s.ids := hsame.msgIds_eq
          dsimp only
          rw [hids]
          exact habsent
      · intro o ho hcarries
        have hout := (Clients.act_logs env s.flow.client.start
          (.startPublish (publishOf s.flow.client request.command pub)
            pub.qos.toNatClampNeg (pub.retained ≠ 0))).forall_mem rfl o ho
        rcases hout.carried hcarries with hin | ⟨publish, qos, retained, heq, hne, hid⟩
        · exact habsent hin
        · cases heq
          have hzero : pub.qos.toNatClampNeg ≠ 0 := fun h => hne (by rw [h]; rfl)
          refine hother (hack.mpr (hpos.mp (Nat.pos_of_ne_zero hzero))) ?_
          exact (hid (by omega)).symm
  | sub | unsub | other =>
      have hrequest : s.startRequest env request.command rc = (rc, s.flow.requestSent rc) := by
        unfold startRequest
        rw [hdetails]
      rw [hrequest]
      exact ⟨habsent, fun _ h => absurd h List.not_mem_nil⟩

end CompletionState

open CompletionState

section

variable {env : Env} {x : Lib.Transition CompletionState CompletionEvent} {msgid : MsgId}

theorem absent_of_keeps
    {s t : FlowState}
    (h : FlowState.Keeps s t)
    (habsent : msgid ∉ msgIds s.client.outboundMsgs) :
    msgid ∉ msgIds t.client.outboundMsgs ∧ ∀ o ∈ t.client.net.log, ¬o.Carries msgid :=
  ⟨fun hin => habsent (h.ids msgid hin),
    fun o ho hcarries => habsent (h.carried o ho msgid hcarries)⟩

/-- Of an id that is not in flight nothing is sent, and it stays away until it is started. -/
theorem step_absent
    (hstep : Step env x.pre x.event x.post)
    (habsent : msgid ∉ x.pre.ids)
    (hstart : ¬Starts msgid x) :
    msgid ∉ x.post.ids ∧ ¬Transmits msgid x := by
  obtain ⟨s, e, t⟩ := x
  obtain ⟨hadm, ht⟩ := hstep
  dsimp only at ht hadm habsent
  subst ht
  have hflow : ∀ {flow : FlowState}, (s.next env e).flow = flow →
      (msgid ∉ msgIds flow.client.outboundMsgs ∧
        ∀ o ∈ flow.client.net.log, ¬o.Carries msgid) →
      msgid ∉ (s.next env e).ids ∧ ¬Transmits msgid ⟨s, e, s.next env e⟩ := by
    rintro flow rfl ⟨hids, hlog⟩
    exact ⟨hids, fun ⟨o, ho, hcarries⟩ => hlog o ho hcarries⟩
  have hkept : ∀ {t : FlowState}, FlowState.Keeps s.start.flow t →
      (msgid ∉ msgIds t.client.outboundMsgs ∧ ∀ o ∈ t.client.net.log, ¬o.Carries msgid) :=
    fun h => absent_of_keeps h habsent
  cases e with
  | addCommand command callbacks full =>
      exact hflow rfl (hkept (.of_silent rfl rfl))
  | processCommand request rc =>
      refine hflow (processCommand_settles env s.start rc hadm.1).flow ?_
      refine startRequest_absent env s.start rc hadm.2.1 hadm.2.2.1 habsent ?_
      exact fun hack hid => hstart ⟨request, rc, rfl, hack, hid⟩
  | cycle pack =>
      have hpacket := hkept (FlowState.packet_keeps env s.start.flow pack)
      cases pack with
      | publish publish =>
          exact hflow rfl hpacket
      | ack pack =>
          refine hflow ?_ hpacket
          simp only [next, CompletionState.cycle]
          split
          · exact (acknowledged_settles _ pack.msgId _).flow
          · rfl
  | suback msgid' qoss =>
      exact hflow (suback_settles s.start msgid' qoss).flow (hkept (.of_silent rfl rfl))
  | unsuback msgid' =>
      exact hflow (unsuback_settles s.start msgid').flow (hkept (.of_silent rfl rfl))
  | writeComplete rc =>
      exact hflow (writeComplete_settles env s.start rc).flow (hkept (.of_silent rfl rfl))
  | connection e =>
      exact hflow (connection_settles env s.start e).flow
        (hkept (FlowState.connection_keeps env s.start.flow hadm.1))
  | destroy disconnect pkeys =>
      exact hflow (connection_settles env s.start (.closeSession disconnect pkeys)).flow
        (hkept (FlowState.closeSession_keeps env s.start.flow disconnect pkeys))

/-- An id that is not in flight stays away while it is not started. -/
theorem run_absent
    {s t : CompletionState} {tr : CompletionRun}
    (hrun : Lib.Runs (Step env) s tr t)
    (habsent : msgid ∉ s.ids)
    (hstart : ∀ z ∈ tr, ¬Starts msgid z) :
    msgid ∉ t.ids := by
  induction hrun with
  | nil s =>
      exact habsent
  | @cons s u t e tr hstep _ ih =>
      have hnext := step_absent (x := ⟨s, e, u⟩) hstep habsent (hstart _ List.mem_cons_self)
      exact ih hnext.1 (fun z hz => hstart z (List.mem_cons_of_mem _ hz))

end

/-! ### What the conditions rule out -/

namespace CompletionState

/-- The result of starting a publication of QoS 1 or 2 is that of its write. -/
theorem startRequest_rc
    (env : Env) {s : CompletionState} {command : Command} {pub : Pub} (rc : Int)
    (hpub : command.details = .pub pub)
    (hready : s.flow.mayPublish command = true)
    (hqos : pub.qos > 0)
    (hhigh : pub.qos ≤ 2) :
    (s.start.startRequest env command rc).1 = s.startRc env command pub := by
  have hidle : Socket.noPendingWrites s.start.flow.client.start.net = true :=
    (FlowState.publishReady hpub hready).noPendingWrites
  obtain ⟨hle, hpos⟩ := qos_toNat (Int32.le_of_lt hqos) hhigh
  have hnat := hpos.mpr hqos
  have hwhole := (send_publish_written env hidle
    (qos12pub (publishOf s.flow.client command pub)) false (pub.retained ≠ 0)
    (by omega : pub.qos.toNatClampNeg = 1 ∨ pub.qos.toNatClampNeg = 2)).rc_eq
  have hstart : (s.start.flow.client.start.act env (.startPublish
      (publishOf s.start.flow.client command pub) pub.qos.toNatClampNeg (pub.retained ≠ 0))).1 =
      (send_publish env s.start.flow.client.start.net
        (qos12pub (publishOf s.flow.client command pub)) false pub.qos.toNatClampNeg
        (pub.retained ≠ 0)).1 := by
    simp only [Clients.act, startPublish, if_pos hnat]
    rfl
  have hrequest : (s.start.startRequest env command rc).1 =
      (s.start.flow.client.start.act env (.startPublish
        (publishOf s.start.flow.client command pub) pub.qos.toNatClampNeg
        (pub.retained ≠ 0))).1 := by
    unfold startRequest
    rw [hpub]
  rw [hrequest, hstart, hwhole]
  rfl

end CompletionState

theorem writeRc_ne_persistence
    (env : Env) (call total : Nat) :
    writeRc env call total ≠ MQTTPersistence.PERSISTENCE_ERROR := by
  unfold writeRc
  split
  · decide
  · split <;> decide

section

variable {env : Env} {x : Lib.Transition CompletionState CompletionEvent} {msgid : MsgId}

/-- The reports of a step. -/
theorem reportOf_of_mem
    (hstep : Step env x.pre x.event x.post)
    {report : Report}
    (hreport : report ∈ x.post.reports) :
    x.pre.ReportOf env x.event report := by
  obtain ⟨s, e, t⟩ := x
  obtain ⟨hadm, ht⟩ := hstep
  dsimp only at ht hadm
  subst ht
  cases e with
  | addCommand command callbacks full => cases hreport
  | _ => exact (next_settles env hadm (fun _ _ _ h => by cases h)).reports report hreport

/-- What reports a publication in a step that meets the exchange is an acknowledgement. -/
theorem reports_acknowledged
    (hstep : Step env x.pre x.event x.post)
    (hmeets : x.pre.MeetsExchange env x.event)
    (hreports : Reports msgid x) :
    ∃ pack, x.event = .cycle (.ack pack) ∧ pack.acknowledges = true ∧ pack.msgId = msgid := by
  obtain ⟨report, hin, hid⟩ := hreports
  have hof := reportOf_of_mem hstep hin
  obtain ⟨s, e, t⟩ := x
  have hother : ¬OtherReport report := fun h => by
    rw [h.publishId_eq] at hid
    cases hid
  cases e with
  | cycle pack =>
      cases pack with
      | publish publish => cases hof
      | ack pack =>
          obtain ⟨hack, hcycle⟩ := hof
          refine ⟨pack, rfl, hack, ?_⟩
          cases report with
          | deliveryComplete msgid' =>
              obtain rfl := Option.some.inj hid
              exact hcycle.2.symm
          | completed reporter request success =>
              rw [Report.publishId] at hid
              split at hid
              next hrequest =>
                rw [← hcycle.2 hrequest.2]
                exact Option.some.inj hid
              · cases hid
  | processCommand request rc =>
      cases report with
      | deliveryComplete msgid' => cases hof
      | completed reporter request' success =>
          obtain ⟨_, rfl, hfailed⟩ := hof
          rw [Report.publishId] at hid
          split at hid
          next hrequest =>
            exfalso
            obtain ⟨hcallback, hrc⟩ := hfailed hrequest.2
            obtain ⟨_, _, hhigh, hready⟩ := hstep.1
            obtain ⟨_, hwrites⟩ := hmeets hrequest.2
            cases hdetails : request'.command.details with
            | pub pub =>
                have hqos := (isAcknowledged_iff hdetails).mp hrequest.2
                rw [Command.qos, hdetails] at hhigh
                rw [startRequest_rc env rc hdetails hready hqos hhigh] at hrc
                rcases hrc with hrc | hrc
                · exact hwrites pub hdetails hcallback hrc
                · exact writeRc_ne_persistence _ _ _ hrc
            | sub | unsub | other =>
                have hack := hrequest.2
                simp [PendingRequest.isAcknowledged, Command.qos, hdetails] at hack
          · cases hid
  | addCommand | suback | unsuback | writeComplete | connection | destroy =>
      exact absurd hof hother

/-- The publication that is reported is no longer in flight. -/
theorem reports_removed
    (hstep : Step env x.pre x.event x.post)
    (hmeets : x.pre.MeetsExchange env x.event)
    (hreports : Reports msgid x) :
    msgid ∉ x.post.ids := by
  obtain ⟨pack, hevent, hack, rfl⟩ := reports_acknowledged hstep hmeets hreports
  have hnot : ¬Starts pack.msgId x := by
    rintro ⟨_, _, h, _⟩
    rw [hevent] at h
    cases h
  obtain ⟨s, e, t⟩ := x
  dsimp only at hevent
  subst hevent
  have hexchange := hmeets hack
  cases hfound : findMsg s.flow.client.outboundMsgs pack.msgId with
  | none =>
      exact (step_absent hstep (findMsg_eq_none.mp hfound) hnot).1
  | some m =>
      rw [hfound] at hexchange
      obtain ⟨_, ht⟩ := hstep
      dsimp only at ht
      subst ht
      have hflow : (s.next env (.cycle (.ack pack))).flow.client.outboundMsgs =
          (s.flow.client.start.handle env (.ack pack)).2.outboundMsgs := by
        simp only [next, CompletionState.cycle, if_pos hack]
        rw [(acknowledged_settles _ pack.msgId _).flow]
        rfl
      rw [ids, hflow]
      rw [handle_completes env s.flow.client.start hfound hexchange]
      exact findMsg_eq_none.mp (by rw [findMsg_removeMsg, if_pos rfl])

/-- With the conditions met, the deliveryComplete callback is called for a message in flight. -/
theorem delivers_inFlight
    (hstep : Step env x.pre x.event x.post)
    (hmeets : x.pre.MeetsExchange env x.event)
    (hdelivers : Delivers msgid x) :
    msgid ∈ x.pre.ids := by
  obtain ⟨pack, hevent, hack, rfl⟩ :=
    reports_acknowledged hstep hmeets ⟨_, hdelivers, rfl⟩
  have hof := reportOf_of_mem hstep hdelivers
  rw [hevent] at hof hmeets
  have hset : x.pre.deliveryComplete = true := hof.2.1
  have hexchange := hmeets hack
  by_contra habsent
  rw [findMsg_eq_none.mpr habsent, hset] at hexchange
  cases hexchange

end

section

variable {env : Env} {s t : CompletionState} {tr : CompletionRun}

/-- No request is completed twice, whatever the packets that are received. -/
theorem completed_once
    (hrun : Lib.Runs (Step env) s tr t)
    (hcommands : s.commands = [])
    (hresponses : s.responses = []) :
    (settled tr).Nodup := by
  have hstart : (tickets [] s).Sound := by
    rw [tickets, outstanding, hcommands, hresponses]
    exact .start s.accepted
  have hend := (hrun.history_of (I := fun tr s => (tickets tr s).Sound) (C := fun _ _ => True)
    (fun _ _ _ _ h _ hstep => step_tickets h hstep) hstart (fun _ _ => trivial)).2
  exact hend.nodup_settled

end

/-- A publication with a success callback, the first request of its client. -/
def publication (qos : Int32) : PendingRequest where
  serial := 0
  command := ⟨1, MQTTProperties.initializer, .pub ⟨some [97], 1, some [120], qos, 0⟩⟩
  callbacks := ⟨true, true, false, false⟩

/-- The client connects, the publication is started, and its PUBACK comes. -/
def exchangeOf (qos : Int32) : List CompletionEvent :=
  [.connection (.connect FlowState.keepSession), .connection (.connecting .waitForConnack),
    .connection (FlowState.accepted false 10),
    .addCommand (publication qos).command (publication qos).callbacks false,
    .processCommand (publication qos) 0,
    .cycle (.ack ⟨{ type := .puback, dup := false, qos := 0, retain := false }, 1, 0, 5,
      MQTTProperties.initializer⟩)]

def exchangeRun (qos : Int32) : CompletionRun :=
  Lib.trace (next Env.reliable) (fresh 5 none true) (exchangeOf qos)

/-- The client takes all six steps. -/
theorem exchangeRun_runs
    {qos : Int32}
    (hqos : qos = 1 ∨ qos = 2) :
    Lib.Runs (Step Env.reliable) (fresh 5 none true) (exchangeRun qos)
      ((exchangeOf qos).foldl (next Env.reliable) (fresh 5 none true)) := by
  have hadm : ∀ x ∈ exchangeRun qos, x.pre.Admissible x.event := by
    refine List.forall_mem_cons.mpr ⟨⟨rfl, trivial⟩, List.forall_mem_cons.mpr ⟨?_, ?_⟩⟩
    · exact ⟨rfl, rfl, by decide, by decide⟩
    refine List.forall_mem_cons.mpr ⟨⟨rfl, trivial⟩, List.forall_mem_cons.mpr ⟨rfl, ?_⟩⟩
    refine List.forall_mem_cons.mpr ⟨⟨List.mem_singleton_self _, ?_⟩, ?_⟩
    · rcases hqos with rfl | rfl <;> decide
    · refine List.forall_mem_cons.mpr ⟨?_, fun _ h => absurd h List.not_mem_nil⟩
      rcases hqos with rfl | rfl <;> rfl
  exact Lib.Runs.of_trace _ _ fun x hx => ⟨hadm x hx, Lib.post_of_mem_trace hx⟩

end MQTTAsync
end PahoMqtt
