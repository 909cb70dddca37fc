import PahoMqtt.CompletionReports
import PahoMqtt.ReceiveMaximum

/-!
# The queries for the tokens of requests

`MQTTAsync_isComplete` and `MQTTAsync_getPendingTokens` look for a token on the
command queue and in `outboundMsgs`; the responses they leave out.  The module follows
the tokens of the requests through the three lists.
-/

namespace PahoMqtt

open MQTTPacket MQTTProtocol

namespace MQTTAsync

/-- The token that the id of a message is compared with. -/
def messageToken (m : Messages) : Int32 :=
  Int32.ofNat m.msgid.toNat

/-- `MQTTAsync_isComplete`: 1 for a token that is not found. -/
def isComplete (m : Handle) (commands : List CommandElement) (outboundMsgs : List Messages)
    (dt : Int32) : Int :=
  if commands.any (fun cmd => cmd.client = m && cmd.command.token = dt) then 0
  else if outboundMsgs.any (fun m => messageToken m = dt) then 0
  else 1

/-- `MQTTAsync_getPendingTokens`: NULL, or the tokens with -1 behind the last. -/
def getPendingTokens (m : Handle) (commands : List CommandElement)
    (outboundMsgs : List Messages) : Option (List Int32) :=
  let queued := commands.filter (fun cmd => cmd.client = m)
  if queued.length + outboundMsgs.length = 0 then none
  else
    some (queued.map (fun cmd => cmd.command.token) ++ outboundMsgs.map messageToken ++ [-1])

namespace PendingRequest

/-- A publication of QoS 1 or 2, a SUBSCRIBE or an UNSUBSCRIBE. -/
def hasToken (request : PendingRequest) : Bool :=
  request.command.type ≠ .publish || request.command.qos > 0

/-- Two requests, and two tokens where both have one. -/
def Distinct (request request' : PendingRequest) : Prop :=
  request.serial ≠ request'.serial ∧
    (request.hasToken = true → request'.hasToken = true →
      request.command.token ≠ request'.command.token)

end PendingRequest

namespace CompletionState

/-- The requests on `MQTTAsync_commands`, with the commands that connect and disconnect. -/
structure Queue (s : CompletionState) (m : Handle) (commands : List CommandElement) : Prop where
  requests : ((commands.filter (fun cmd => cmd.client = m)).map (·.command)).filter
    (·.isRequest) = s.commands.map (·.command)
  others : ∀ cmd ∈ commands, cmd.client = m → cmd.command.isRequest = false →
    cmd.command.token = 0

/-- The queries say that the request is not complete, and the token is listed once. -/
def IsPending (s : CompletionState) (m : Handle) (commands : List CommandElement) (dt : Int32) :
    Prop :=
  isComplete m commands s.flow.client.outboundMsgs dt = 0 ∧
    ∃ tokens, getPendingTokens m commands s.flow.client.outboundMsgs = some tokens ∧
      tokens.count dt = 1

/-- The queries say that the request is complete, and the token is not listed. -/
def IsDone (s : CompletionState) (m : Handle) (commands : List CommandElement) (dt : Int32) :
    Prop :=
  isComplete m commands s.flow.client.outboundMsgs dt = 1 ∧
    ∀ tokens, getPendingTokens m commands s.flow.client.outboundMsgs = some tokens →
      dt ∉ tokens

/-- A SUBSCRIBE or an UNSUBSCRIBE that was sent waits for its acknowledgement. -/
def AwaitsSuback (s : CompletionState) (request : PendingRequest) : Prop :=
  request ∈ s.responses ∧ request.command.type ≠ .publish

/--
`MQTTAsync_assignMsgId` has found a token that no request of the client has; a
publication of QoS 0 has the token 0.
-/
def FreshToken (s : CompletionState) : CompletionEvent → Prop
  | .addCommand command callbacks _ =>
      let request : PendingRequest := ⟨s.accepted, command, callbacks⟩
      if request.hasToken then
        1 ≤ command.token ∧ command.token ≤ 65535 ∧
          (∀ r ∈ s.commands ++ s.responses, r.command.token ≠ command.token) ∧
          request.msgId ∉ s.ids
      else command.token = 0
  | _ => True

/--
A packet that completes a request by its id ends the exchange of the message with this
id, where one is in flight.
-/
def EndsExchange (s : CompletionState) : CompletionEvent → Prop
  | .cycle (.ack pack) =>
      ∀ m, findMsg s.flow.client.outboundMsgs pack.msgId = some m → Completes pack m
  | .suback msgid _ => msgid ∉ s.ids
  | .unsuback msgid => msgid ∉ s.ids
  | _ => True

end CompletionState

/-- The events that take a response off the list because its packet has come. -/
def CompletionEvent.isAnswer : CompletionEvent → Bool
  | .cycle _ => true
  | .suback .. => true
  | .unsuback _ => true
  | _ => false

/-- The request is completed in the step. -/
structure Completed (request : PendingRequest)
    (x : Lib.Transition CompletionState CompletionEvent) : Prop where
  answer : x.event.isAnswer = true
  before : request ∈ x.pre.responses
  after : request ∉ x.post.responses

/-- A new request gets the token. -/
def Reuses (dt : Int32) (x : Lib.Transition CompletionState CompletionEvent) : Prop :=
  ∃ command callbacks full, x.event = .addCommand command callbacks full ∧ command.token = dt

/-! ### The ids in flight after a step of the connection -/

namespace FlowState

theorem kept_ids
    (s : FlowState) (connack : Connack) :
    msgIds (s.kept connack) =
      if s.cleansOn connack then [] else msgIds s.client.outboundMsgs := by
  rw [kept]
  split
  · rfl
  · rfl

theorem closeSession_ids
    (env : Env) (s : FlowState) (disconnect : Bytes) (pkeys : Int × List Key) :
    msgIds (s.closeSession env disconnect pkeys).client.outboundMsgs =
      if s.cleansOnClose then [] else msgIds s.client.outboundMsgs := by
  have hcond : (s.closeOnly env disconnect).cleansession = true ∨
      (s.closeOnly env disconnect).client.MQTTVersion ≥ 5 ∧
        (s.closeOnly env disconnect).sessionExpiry = 0 ↔ s.cleansOnClose = true := by
    simp [cleansOnClose, closeOnly, MQTTAsync.closeOnly, Clients.start]
  rw [closeSession]
  by_cases hcleans : s.cleansOnClose = true
  · rw [if_pos (hcond.mpr hcleans), if_pos hcleans]
    rfl
  · rw [if_neg (mt hcond.mp hcleans), if_neg hcleans]
    rfl

theorem nextOrClose_ids
    (env : Env) (s : FlowState) (more : Bool) (disconnect : Bytes) (pkeys : Int × List Key) :
    msgIds (s.nextOrClose env more disconnect pkeys).client.outboundMsgs =
      if !more && s.cleansOnClose then [] else msgIds s.client.outboundMsgs := by
  rw [nextOrClose]
  cases more with
  | true =>
      rfl
  | false =>
      simpa using closeSession_ids env s disconnect pkeys

theorem connack_ids
    (env : Env) (s : FlowState) (connack : Connack) (websocket : Bool) (pkeys : Int × List Key)
    (more : Bool) (disconnect : Bytes) :
    msgIds (s.next env (.connack connack websocket pkeys more disconnect)).client.outboundMsgs =
      if s.cleansSession env (.connack connack websocket pkeys more disconnect) then []
      else msgIds s.client.outboundMsgs := by
  have hkept := (cleaned_spec env s pkeys connack).1
  by_cases hwait : s.connect_state = .waitForConnack ∧ connack.rc = 0
  · by_cases hrc : (s.cleaned env pkeys connack).1 = 0
    · -- the connection is completed with what the cleaning has kept
      have hcleans : s.cleansSession env (.connack connack websocket pkeys more disconnect) =
          s.cleansOn connack := by
        simp [cleansSession, hwait, hrc]
      have hsame := (completeConnection_spec env (s.cleaned env pkeys connack).2 websocket).1
      have hids : msgIds (s.complete env (s.cleaned env pkeys connack).2 connack
          websocket).client.outboundMsgs = msgIds (s.cleaned env pkeys connack).2.outboundMsgs :=
        hsame.msgIds_eq
      rw [next, if_pos ⟨hwait.1, hwait.2, hrc⟩, hids, hkept, kept_ids]
      simp only [hcleans]
    · have hon : s.cleansOn connack = true := by
        by_contra hno
        rw [cleaned, if_neg hno] at hrc
        exact hrc rfl
      have hcleans : s.cleansSession env (.connack connack websocket pkeys more disconnect) =
          true := by
        simp [cleansSession, hwait, hon]
      have hnone :
          msgIds (s.notCompleted env pkeys connack websocket).client.outboundMsgs = [] := by
        rw [notCompleted, if_pos hwait]
        dsimp only
        rw [hkept, kept_ids, if_pos hon]
      rw [next, if_neg (fun h => hrc h.2.2), nextOrClose_ids, hnone, ite_self, if_pos hcleans]
  · have hcleans : s.cleansSession env (.connack connack websocket pkeys more disconnect) =
        (!more && s.cleansOnClose) := by
      simp only [cleansSession, if_neg hwait]
    have hsame : s.notCompleted env pkeys connack websocket = s := by
      rw [notCompleted, if_neg hwait]
    rw [next, if_neg (fun h => hwait ⟨h.1, h.2.1⟩), hsame, nextOrClose_ids]
    simp only [hcleans]

/-- The messages in flight stay on the list, or the session is cleaned. -/
theorem connection_ids
    (env : Env) (s : FlowState) {e : FlowEvent}
    (he : e.ofConnection = true) :
    msgIds (s.next env e).client.outboundMsgs =
      if s.cleansSession env e then [] else msgIds s.client.outboundMsgs := by
  cases e with
  | connect options => rfl
  | connecting state => rfl
  | connack connack websocket pkeys more disconnect =>
      exact connack_ids env s connack websocket pkeys more disconnect
  | retry now doRetry regardless =>
      exact (retry_spec env now doRetry regardless s.client.start).1.msgIds_eq
  | writeInterrupted => rfl
  | disconnect => rfl
  | closeOnly disconnect => rfl
  | closeSession disconnect pkeys => exact closeSession_ids env s disconnect pkeys
  | processCommand | continueWrites | packet => cases he

end FlowState

namespace CompletionState

/-! ### What a step does to the lists -/

/-- A publication of QoS 1 or 2 that is started is in flight. -/
theorem startRequest_ids
    (env : Env) (s : CompletionState) {request : PendingRequest} (rc : Int)
    (hlow : 0 ≤ request.command.qos)
    (hhigh : request.command.qos ≤ 2) :
    msgIds (s.startRequest env request.command rc).2.client.outboundMsgs =
      if request.isAcknowledged then s.ids ++ [request.msgId] else s.ids := by
  cases hdetails : request.command.details with
  | pub pub =>
      have hack := isAcknowledged_iff hdetails
      have hqos : request.command.qos = pub.qos := by rw [Command.qos, hdetails]
      rw [hqos] at hlow hhigh
      obtain ⟨hle, hpos⟩ := qos_toNat hlow hhigh
      simp only [startRequest, hdetails]
      by_cases hqos : pub.qos.toNatClampNeg > 0
      · obtain ⟨m, hm, hlist⟩ := Clients.startPublish_outbound env s.flow.client.start
          (publishOf s.flow.client request.command pub) (pub.retained ≠ 0) hqos
        have houtbound :
            (s.flow.next env (.processCommand request.command pub)).client.outboundMsgs =
              s.flow.client.outboundMsgs ++ [m] := hlist
        rw [houtbound, msgIds_append, if_pos (hack.mpr (hpos.mp hqos)), hm.msgid_eq]
        rfl
      · have hsame := Clients.act_outbound env s.flow.client.start
          (.startPublish (publishOf s.flow.client request.command pub)
            pub.qos.toNatClampNeg (pub.retained ≠ 0)) (fun _ _ _ heq => by cases heq; omega)
        rw [if_neg (fun h => hqos (hpos.mpr (hack.mp h)))]
        exact hsame.msgIds_eq
  | sub | unsub | other =>
      have hnot : request.isAcknowledged = false := by
        simp [PendingRequest.isAcknowledged, Command.qos, hdetails]
      simp only [startRequest, hdetails, hnot]
      rfl

/-- A request that is started waits for its response, unless it fails or needs none. -/
structure Starting (request : PendingRequest) (s t : CompletionState) : Prop where
  flow : t.flow = s.flow
  commands : t.commands = s.commands
  accepted : t.accepted = s.accepted
  responses : t.responses = s.responses ∨ t.responses = s.responses ++ [request]
  pending : t.pending_write = s.pending_write ∨
    (request.hasToken = false ∧ t.pending_write = some request.serial)

theorem requestStarted_starting
    (s : CompletionState) (request : PendingRequest) (rc : Int) :
    Starting request s (s.requestStarted request rc) := by
  rw [requestStarted]
  -- the state after the callback or the note of the write that is not finished
  set t : CompletionState :=
    if request.command.type = .publish ∧ request.command.qos = 0 then
      if rc = TCPSOCKET_COMPLETE then
        { s with reports := s.reports ++ request.succeed .processCommand }
      else { s with pending_write := some request.serial }
    else s with ht
  have hnoted : t.flow = s.flow ∧ t.commands = s.commands ∧ t.accepted = s.accepted ∧
      t.responses = s.responses ∧ (t.pending_write = s.pending_write ∨
        (request.hasToken = false ∧ t.pending_write = some request.serial)) := by
    rw [ht]
    by_cases hunacknowledged : request.command.type = .publish ∧ request.command.qos = 0
    · have htoken : request.hasToken = false := by
        simp [PendingRequest.hasToken, hunacknowledged.1, hunacknowledged.2]
      rw [if_pos hunacknowledged]
      split_ifs
      · exact ⟨rfl, rfl, rfl, rfl, .inl rfl⟩
      · exact ⟨rfl, rfl, rfl, rfl, .inr ⟨htoken, rfl⟩⟩
    · rw [if_neg hunacknowledged]
      exact ⟨rfl, rfl, rfl, rfl, .inl rfl⟩
  obtain ⟨hflow, hcommands, haccepted, hresponses, hpending⟩ := hnoted
  split_ifs
  · exact ⟨hflow, hcommands, haccepted, .inr (by rw [hresponses]), hpending⟩
  · exact ⟨hflow, hcommands, haccepted, .inl hresponses, hpending⟩
  · exact ⟨hflow, hcommands, haccepted, .inl hresponses, hpending⟩
  · exact ⟨hflow, hcommands, haccepted, .inr (by rw [hresponses]), hpending⟩

/-- The responses that are left when the first with the id is taken off. -/
def answered (s : CompletionState) (msgid : MsgId) : List PendingRequest :=
  match s.findResponse msgid with
  | none => s.responses
  | some request => s.responses.erase request

/-- Only the responses and the callbacks have changed. -/
structure Answering (responses : List PendingRequest) (s t : CompletionState) : Prop where
  flow : t.flow = s.flow
  commands : t.commands = s.commands
  accepted : t.accepted = s.accepted
  responses : t.responses = responses
  pending : t.pending_write = s.pending_write

theorem acknowledged_answering
    (s : CompletionState) (msgid : MsgId) (ackrc : UInt8) :
    Answering (s.answered msgid) s (s.acknowledged msgid ackrc) := by
  rw [acknowledged, answered]
  set t : CompletionState :=
    if s.deliveryComplete then { s with reports := s.reports ++ [.deliveryComplete msgid] }
    else s with ht
  have hanswer : Answering s.responses s t := by
    rw [ht]
    split
    · exact ⟨rfl, rfl, rfl, rfl, rfl⟩
    · exact ⟨rfl, rfl, rfl, rfl, rfl⟩
  have hfind : t.findResponse msgid = s.findResponse msgid := by
    rw [findResponse, hanswer.responses]
    rfl
  rw [hfind]
  cases s.findResponse msgid with
  | none =>
      exact hanswer
  | some request =>
      exact ⟨hanswer.flow, hanswer.commands, hanswer.accepted,
        congrArg (·.erase request) hanswer.responses, hanswer.pending⟩

theorem suback_answering
    (s : CompletionState) (msgid : MsgId) (qoss : List Nat) :
    Answering (s.answered msgid) s (s.suback msgid qoss) := by
  rw [suback, answered]
  cases s.findResponse msgid with
  | none =>
      exact ⟨rfl, rfl, rfl, rfl, rfl⟩
  | some request =>
      exact ⟨rfl, rfl, rfl, rfl, rfl⟩

theorem unsuback_answering
    (s : CompletionState) (msgid : MsgId) :
    Answering (s.answered msgid) s (s.unsuback msgid) := by
  rw [unsuback, answered]
  cases s.findResponse msgid with
  | none =>
      exact ⟨rfl, rfl, rfl, rfl, rfl⟩
  | some request =>
      exact ⟨rfl, rfl, rfl, rfl, rfl⟩

theorem answered_sublist
    (s : CompletionState) (msgid : MsgId) :
    (s.answered msgid).Sublist s.responses := by
  rw [answered]
  split
  · exact List.Sublist.refl _
  · exact List.erase_sublist

theorem addCommand_sublist
    (s : CompletionState) (command : Command) (callbacks : Callbacks) (full : Bool) :
    (s.addCommand command callbacks full).commands.Sublist
      (s.commands ++ [⟨s.accepted, command, callbacks⟩]) := by
  rw [addCommand]
  dsimp only
  split_ifs
  · exact List.eraseP_sublist
  · exact List.Sublist.refl _

/-- The end of a write takes off at most the response that it belongs to. -/
theorem writeComplete_lists
    (env : Env) (s : CompletionState) (rc : Int) :
    (s.writeComplete env rc).flow = s.flow.next env .continueWrites ∧
      (s.writeComplete env rc).commands = s.commands ∧
      (s.writeComplete env rc).accepted = s.accepted ∧
      (s.writeComplete env rc).pending_write = none ∧
      ((s.writeComplete env rc).responses = s.responses ∨
        ∃ request ∈ s.responses, s.pending_write = some request.serial ∧
          (s.writeComplete env rc).responses = s.responses.erase request) := by
  rw [writeComplete]
  dsimp only
  cases hfound : pendingResponse { s with flow := s.flow.next env .continueWrites } with
  | none =>
      exact ⟨rfl, rfl, rfl, rfl, .inl rfl⟩
  | some request =>
      have hin := pendingResponse_mem hfound
      have hserial : s.pending_write = some request.serial := by
        rw [pendingResponse] at hfound
        dsimp only at hfound
        split at hfound
        · cases hfound
        · next addr haddr =>
            have hmatch := List.find?_some hfound
            rw [haddr, of_decide_eq_true hmatch]
      dsimp only
      split_ifs
      · exact ⟨rfl, rfl, rfl, rfl, .inr ⟨request, hin, hserial, rfl⟩⟩
      · exact ⟨rfl, rfl, rfl, rfl, .inr ⟨request, hin, hserial, rfl⟩⟩
      · exact ⟨rfl, rfl, rfl, rfl, .inl rfl⟩
      · exact ⟨rfl, rfl, rfl, rfl, .inr ⟨request, hin, hserial, rfl⟩⟩

theorem connection_same
    (env : Env) (s : CompletionState) (e : FlowEvent) :
    (s.connection env e).accepted = s.accepted ∧
      (s.connection env e).pending_write = s.pending_write := by
  rw [connection]
  split
  · exact ⟨rfl, rfl⟩
  · exact ⟨rfl, rfl⟩

/-! ### The tokens of the requests -/

/-- An id for a request that has one, and 0 for the others. -/
def InRange (request : PendingRequest) : Prop :=
  if request.hasToken then 1 ≤ request.command.token ∧ request.command.token ≤ 65535
  else request.command.token = 0

/--
The requests have different tokens; the id of a publication is in flight once it is
started, and then once, and no other request has it.
-/
structure TokensKept (s : CompletionState) : Prop where
  distinct : (s.commands ++ s.responses).Pairwise PendingRequest.Distinct
  old : ∀ r ∈ s.commands ++ s.responses, r.serial < s.accepted
  range : ∀ r ∈ s.commands ++ s.responses, InRange r
  queued : ∀ r ∈ s.commands, r.hasToken = true → r.msgId ∉ s.ids
  waiting : ∀ r ∈ s.responses, r.hasToken = true →
    s.ids.count r.msgId = if r.isAcknowledged then 1 else 0
  writing : ∀ r ∈ s.commands ++ s.responses, s.pending_write = some r.serial → r.hasToken = false
  written : ∀ n, s.pending_write = some n → n < s.accepted

theorem distinct_symm
    {r r' : PendingRequest}
    (h : r.Distinct r') :
    r'.Distinct r :=
  ⟨h.1.symm, fun htoken htoken' => (h.2 htoken' htoken).symm⟩

instance : Std.Symm PendingRequest.Distinct :=
  ⟨fun _ _ => distinct_symm⟩

theorem hasToken_of_isAcknowledged
    {r : PendingRequest}
    (h : r.isAcknowledged = true) :
    r.hasToken = true := by
  rw [PendingRequest.isAcknowledged, Bool.and_eq_true] at h
  rw [PendingRequest.hasToken, h.2, Bool.or_true]

theorem ofNat_injective :
    Function.Injective (fun msgid : MsgId => Int32.ofNat msgid.toNat) := by
  intro i j h
  have hint := congrArg Int32.toInt h
  have hi := i.toNat_lt
  have hj := j.toNat_lt
  dsimp only at hint
  rw [Int32.toInt_ofNat_of_lt (by omega), Int32.toInt_ofNat_of_lt (by omega)] at hint
  exact UInt16.toNat_inj.mp (by omega)

/-- A token in range is the id that a message is sent with. -/
theorem token_of_msgId
    {r : PendingRequest}
    (hrange : InRange r)
    (htoken : r.hasToken = true) :
    Int32.ofNat r.msgId.toNat = r.command.token ∧ r.command.token ≠ 0 := by
  rw [InRange, if_pos htoken, Int32.le_iff_toInt_le, Int32.le_iff_toInt_le] at hrange
  have hone : (1 : Int32).toInt = 1 := rfl
  have hmax : (65535 : Int32).toInt = 65535 := rfl
  rw [hone, hmax] at hrange
  constructor
  · apply Int32.toInt_inj.mp
    rw [PendingRequest.msgId, Int32.toNatClampNeg, UInt16.toNat_ofNat']
    have hlt : r.command.token.toInt.toNat % 2 ^ 16 = r.command.token.toInt.toNat := by omega
    rw [hlt, Int32.toInt_ofNat_of_lt (by omega)]
    omega
  · intro hzero
    rw [hzero] at hrange
    exact absurd hrange.1 (by decide)

/-- No token is the one behind the last. -/
theorem token_ne_end
    {r : PendingRequest}
    (hrange : InRange r)
    (htoken : r.hasToken = true) :
    r.command.token ≠ -1 := by
  intro hend
  rw [InRange, if_pos htoken, hend] at hrange
  exact absurd hrange.1 (by decide)

theorem msgId_ne
    {r r' : PendingRequest}
    (hrange : InRange r)
    (hrange' : InRange r')
    (htoken : r.hasToken = true)
    (htoken' : r'.hasToken = true)
    (h : r.Distinct r') :
    r.msgId ≠ r'.msgId := by
  intro hid
  have hsame := (token_of_msgId hrange htoken).1
  rw [hid, (token_of_msgId hrange' htoken').1] at hsame
  exact h.2 htoken htoken' hsame.symm

namespace TokensKept

variable {s t : CompletionState}

/-- Two requests with one token are the same. -/
theorem eq_of_token
    (h : s.TokensKept)
    {r r' : PendingRequest}
    (hr : r ∈ s.commands ++ s.responses)
    (hr' : r' ∈ s.commands ++ s.responses)
    (htoken : r.hasToken = true)
    (hsame : r'.command.token = r.command.token) :
    r' = r := by
  have htoken' : r'.hasToken = true := by
    by_contra hno
    have hzero := h.range r' hr'
    rw [InRange, if_neg hno, hsame] at hzero
    exact (token_of_msgId (h.range r hr) htoken).2 hzero
  by_contra hne
  exact (h.distinct.forall hr' hr hne).2 htoken' htoken hsame

theorem nodup
    (h : s.TokensKept) :
    (s.commands ++ s.responses).Nodup :=
  h.distinct.imp fun hdistinct heq => hdistinct.1 (congrArg PendingRequest.serial heq)

/-- The response that is taken off is that of the request with the id. -/
theorem msgId_ne_of_answered
    (h : s.TokensKept)
    {msgid : MsgId} {r : PendingRequest}
    (hr : r ∈ s.answered msgid)
    (htoken : r.hasToken = true) :
    r.msgId ≠ msgid := by
  intro hid
  have hmem := (s.answered_sublist msgid).subset hr
  have hrange := h.range r (List.mem_append_right _ hmem)
  have hmatch : r.command.token = Int32.ofNat msgid.toNat := by
    rw [← hid]
    exact (token_of_msgId hrange htoken).1.symm
  rw [answered] at hr
  cases hfound : s.findResponse msgid with
  | none =>
      have hnone := List.find?_eq_none.mp hfound r hmem
      exact hnone (by simpa using hmatch)
  | some r' =>
      rw [hfound] at hr
      have hfirst : r'.command.token = Int32.ofNat msgid.toNat := by
        simpa using List.find?_some hfound
      have heq : r' = r := h.eq_of_token (List.mem_append_right _ hmem)
        (List.mem_append_right _ (List.mem_of_find?_eq_some hfound)) htoken
        (hfirst.trans hmatch.symm)
      subst heq
      have hnodup := h.nodup.of_append_right
      exact hnodup.not_mem_erase hr

/-- Requests are taken off the lists, and ids that no response waits for leave the messages. -/
theorem of_sublist
    (h : s.TokensKept)
    (hcommands : t.commands.Sublist s.commands)
    (hresponses : t.responses.Sublist s.responses)
    (haccepted : t.accepted = s.accepted)
    (hpending : t.pending_write = s.pending_write ∨ t.pending_write = none)
    (hids : ∀ msgid ∈ t.ids, msgid ∈ s.ids)
    (hcount : ∀ r ∈ t.responses, r.isAcknowledged = true →
      t.ids.count r.msgId = s.ids.count r.msgId) :
    t.TokensKept := by
  have hsub := hcommands.append hresponses
  constructor
  · exact h.distinct.sublist hsub
  · intro r hr
    rw [haccepted]
    exact h.old r (hsub.subset hr)
  · intro r hr
    exact h.range r (hsub.subset hr)
  · intro r hr htoken hin
    exact h.queued r (hcommands.subset hr) htoken (hids _ hin)
  · intro r hr htoken
    have hwaiting := h.waiting r (hresponses.subset hr) htoken
    by_cases hack : r.isAcknowledged = true
    · rw [hcount r hr hack]
      exact hwaiting
    · rw [if_neg hack] at hwaiting ⊢
      exact List.count_eq_zero.mpr fun hin => List.count_eq_zero.mp hwaiting (hids _ hin)
  · intro r hr hserial
    rcases hpending with hsame | hnone
    · exact h.writing r (hsub.subset hr) (hsame ▸ hserial)
    · rw [hnone] at hserial
      cases hserial
  · intro n hn
    rcases hpending with hsame | hnone
    · rw [haccepted]
      exact h.written n (hsame ▸ hn)
    · rw [hnone] at hn
      cases hn

/-- The requests there are, in another order, or fewer. -/
theorem of_subperm
    (h : s.TokensKept)
    {requests : List PendingRequest}
    (hperm : requests.Perm (s.commands ++ s.responses))
    (hsub : (t.commands ++ t.responses).Sublist requests)
    (haccepted : t.accepted = s.accepted) :
    (t.commands ++ t.responses).Pairwise PendingRequest.Distinct ∧
      (∀ r ∈ t.commands ++ t.responses, r.serial < t.accepted) ∧
      ∀ r ∈ t.commands ++ t.responses, InRange r := by
  refine ⟨(hperm.symm.pairwise h.distinct distinct_symm).sublist hsub, ?_, ?_⟩
  · intro r hr
    rw [haccepted]
    exact h.old r (hperm.subset (hsub.subset hr))
  · intro r hr
    exact h.range r (hperm.subset (hsub.subset hr))

/-- A request goes from the queue to the responses. -/
theorem processCommand
    {u : CompletionState} {request : PendingRequest}
    (h : s.TokensKept)
    (hmem : request ∈ s.commands)
    (hstarting : Starting request u t)
    (hcommands : u.commands = s.commands.erase request)
    (hresponses : u.responses = s.responses)
    (haccepted : u.accepted = s.accepted)
    (hpending : u.pending_write = s.pending_write)
    (hids : u.ids = if request.isAcknowledged then s.ids ++ [request.msgId] else s.ids) :
    t.TokensKept := by
  have hperm : (s.commands.erase request ++ (s.responses ++ [request])).Perm
      (s.commands ++ s.responses) := by
    refine List.Perm.trans ?_ ((List.perm_cons_erase hmem).symm.append_right s.responses)
    rw [← List.append_assoc, List.cons_append]
    exact List.perm_append_singleton request _
  have hlists : (t.commands ++ t.responses).Sublist
      (s.commands.erase request ++ (s.responses ++ [request])) := by
    rw [hstarting.commands, hcommands]
    refine List.Sublist.append (List.Sublist.refl _) ?_
    rcases hstarting.responses with hsame | hmore
    · rw [hsame, hresponses]
      exact List.sublist_append_left _ _
    · rw [hmore, hresponses]
  have hidst : t.ids = if request.isAcknowledged then s.ids ++ [request.msgId] else s.ids := by
    rw [← hids, CompletionState.ids, CompletionState.ids, hstarting.flow]
  obtain ⟨hdistinct, hold, hrange⟩ :=
    h.of_subperm hperm hlists (hstarting.accepted.trans haccepted)
  have hrequest : request ∈ s.commands ++ s.responses := List.mem_append_left _ hmem
  -- the others are different from the request that is started
  have hothers : ∀ r ∈ s.commands.erase request ++ s.responses, r.Distinct request := by
    have hall := hperm.symm.pairwise h.distinct distinct_symm
    rw [← List.append_assoc] at hall
    intro r hr
    exact (List.pairwise_append.mp hall).2.2 r hr request (List.mem_singleton_self _)
  have hother : ∀ r ∈ s.commands.erase request ++ s.responses, r.hasToken = true →
      request.isAcknowledged = true → r.msgId ≠ request.msgId := by
    intro r hr htoken hack
    exact msgId_ne (h.range r (hperm.subset (by
      rw [← List.append_assoc]
      exact List.mem_append_left _ hr))) (h.range request hrequest) htoken
      (hasToken_of_isAcknowledged hack) (hothers r hr)
  refine ⟨hdistinct, hold, hrange, ?_, ?_, ?_, ?_⟩
  · intro r hr htoken
    rw [hstarting.commands, hcommands] at hr
    have hnot := h.queued r (List.mem_of_mem_erase hr) htoken
    rw [hidst]
    split_ifs with hack
    · rw [List.mem_append, List.mem_singleton, not_or]
      exact ⟨hnot, hother r (List.mem_append_left _ hr) htoken hack⟩
    · exact hnot
  · intro r hr htoken
    have hcases : r ∈ s.responses ∨ r = request := by
      rcases hstarting.responses with hsame | hmore
      · rw [hsame, hresponses] at hr
        exact .inl hr
      · rw [hmore, hresponses, List.mem_append, List.mem_singleton] at hr
        exact hr
    rw [hidst]
    rcases hcases with hwaits | rfl
    · rw [← h.waiting r hwaits htoken]
      split_ifs with hack
      · have hnone : ([request.msgId] : List MsgId).count r.msgId = 0 :=
          List.count_eq_zero.mpr fun hin =>
            hother r (List.mem_append_right _ hwaits) htoken hack (List.mem_singleton.mp hin)
        rw [List.count_append, hnone, Nat.add_zero]
      · rfl
    · have hnone := List.count_eq_zero.mpr (h.queued r hmem htoken)
      split_ifs with hack
      · rw [List.count_append, hnone, List.count_singleton_self]
      · exact hnone
  · intro r hr hserial
    rcases hstarting.pending with hsame | ⟨hunacknowledged, hnew⟩
    · exact h.writing r (hperm.subset (hlists.subset hr)) (by rw [← hpending, ← hsame, hserial])
    · rw [hnew, Option.some.injEq] at hserial
      by_cases heq : r = request
      · rw [heq]
        exact hunacknowledged
      · exact absurd hserial.symm
          (h.distinct.forall (hperm.subset (hlists.subset hr)) hrequest heq).1
  · intro n hn
    rw [hstarting.accepted, haccepted]
    rcases hstarting.pending with hsame | ⟨_, hnew⟩
    · exact h.written n (by rw [← hpending, ← hsame, hn])
    · rw [hnew, Option.some.injEq] at hn
      rw [← hn]
      exact h.old request hrequest

/-- A new request has a token of its own. -/
theorem addCommand
    (h : s.TokensKept)
    (command : Command) (callbacks : Callbacks) (full : Bool)
    (hfresh : s.FreshToken (.addCommand command callbacks full)) :
    (s.addCommand command callbacks full).TokensKept := by
  set request : PendingRequest := ⟨s.accepted, command, callbacks⟩ with hrequest
  have hcommands := s.addCommand_sublist command callbacks full
  rw [← hrequest] at hcommands
  have hlists : ((s.addCommand command callbacks full).commands ++ s.responses).Sublist
      (s.commands ++ [request] ++ s.responses) :=
    hcommands.append_right s.responses
  have hperm : (s.commands ++ [request] ++ s.responses).Perm
      (request :: (s.commands ++ s.responses)) :=
    (List.perm_append_singleton request s.commands).append_right s.responses
  have hmem : ∀ r ∈ (s.addCommand command callbacks full).commands ++ s.responses,
      r = request ∨ r ∈ s.commands ++ s.responses :=
    fun r hr => List.mem_cons.mp (hperm.subset (hlists.subset hr))
  rw [FreshToken, ← hrequest] at hfresh
  have hrange : InRange request := by
    rw [InRange]
    split_ifs at hfresh with htoken
    · rw [if_pos htoken]
      exact ⟨hfresh.1, hfresh.2.1⟩
    · rw [if_neg htoken]
      exact hfresh
  constructor
  · refine (hperm.symm.pairwise ?_ distinct_symm).sublist hlists
    refine List.pairwise_cons.mpr ⟨?_, h.distinct⟩
    intro r hr
    refine ⟨(h.old r hr).ne', ?_⟩
    intro htoken _ hsame
    rw [if_pos htoken] at hfresh
    exact hfresh.2.2.1 r hr hsame.symm
  · intro r hr
    change r.serial < s.accepted + 1
    rcases hmem r hr with rfl | hold
    · exact Nat.lt_succ_self _
    · exact Nat.lt_succ_of_lt (h.old r hold)
  · intro r hr
    rcases hmem r hr with rfl | hold
    · exact hrange
    · exact h.range r hold
  · intro r hr htoken
    change r.msgId ∉ s.ids
    rcases List.mem_append.mp (hcommands.subset hr) with hold | hnew
    · exact h.queued r hold htoken
    · obtain rfl := List.mem_singleton.mp hnew
      rw [if_pos htoken] at hfresh
      exact hfresh.2.2.2
  · exact h.waiting
  · intro r hr hserial
    rcases hmem r hr with rfl | hold
    · exact absurd (h.written _ hserial) (lt_irrefl _)
    · exact h.writing r hold hserial
  · intro n hn
    exact Nat.lt_succ_of_lt (h.written n hn)

/-- A response is answered while the messages keep their ids, or lose the one that is answered. -/
theorem answer
    {u : CompletionState} {msgid : MsgId}
    (h : s.TokensKept)
    (hanswering : Answering (s.answered msgid) u t)
    (hcommands : u.commands = s.commands)
    (haccepted : u.accepted = s.accepted)
    (hpending : u.pending_write = s.pending_write)
    (hids : u.ids = s.ids ∨ u.ids = s.ids.filter (· ≠ msgid)) :
    t.TokensKept := by
  have hidst : t.ids = u.ids := by
    rw [ids, ids, hanswering.flow]
  refine h.of_sublist ?_ ?_ (hanswering.accepted.trans haccepted)
    (.inl (hanswering.pending.trans hpending)) ?_ ?_
  · rw [hanswering.commands, hcommands]
  · rw [hanswering.responses]
    exact s.answered_sublist msgid
  · intro i hi
    rw [hidst] at hi
    rcases hids with hsame | hless
    · exact hsame ▸ hi
    · rw [hless] at hi
      exact List.mem_of_mem_filter hi
  · intro r hr hack
    rw [hanswering.responses] at hr
    have hne := h.msgId_ne_of_answered hr (hasToken_of_isAcknowledged hack)
    rw [hidst]
    rcases hids with hsame | hless
    · rw [hsame]
    · rw [hless]
      exact List.count_filter (by simpa using hne)

end TokensKept

/-- What a packet does to the ids in flight. -/
theorem packet_ids
    (env : Env) (s : FlowState) (pack : Packet) :
    msgIds (s.next env (.packet pack)).client.outboundMsgs = msgIds s.client.outboundMsgs ∨
      ∃ ack m, pack = .ack ack ∧ findMsg s.client.outboundMsgs ack.msgId = some m ∧
        Completes ack m ∧
        msgIds (s.next env (.packet pack)).client.outboundMsgs =
          (msgIds s.client.outboundMsgs).filter (· ≠ ack.msgId) := by
  have hnext : (s.next env (.packet pack)).client.outboundMsgs =
      (s.client.start.handle env pack).2.outboundMsgs := rfl
  rw [hnext]
  rcases handle_outbound env s.client.start pack with ⟨ack, rfl, heffect⟩ | hsame
  · cases heffect with
    | ignored _ _ hclient =>
        left
        rw [hclient]
        rfl
    | completed m _ hfound hcompletes hclient =>
        refine .inr ⟨ack, m, rfl, hfound, hcompletes, ?_⟩
        rw [hclient]
        exact msgIds_removeMsg_eq _ _
    | movedOn m _ _ hclient =>
        left
        rw [hclient]
        exact msgIds_movedOn _ _ _ _
  · left
    rw [hsame]
    rfl

/-- A packet that acknowledges takes a response off, when it has been handled. -/
theorem cycle_answering
    (env : Env) (s : CompletionState) {pack : Ack}
    (hack : pack.acknowledges = true) :
    Answering (s.start.answered pack.msgId)
      { s.start with flow := s.start.flow.next env (.packet (.ack pack)) }
      (s.next env (.cycle (.ack pack))) := by
  set u : CompletionState := { s.start with flow := s.start.flow.next env (.packet (.ack pack)) }
  have hnext : s.next env (.cycle (.ack pack)) =
      u.acknowledged pack.msgId (if pack.MQTTVersion ≥ 5 then pack.rc else 0) := by
    rw [CompletionState.next, CompletionState.cycle]
    exact if_pos hack
  rw [hnext]
  exact acknowledged_answering u pack.msgId _

namespace TokensKept

variable {s : CompletionState}

theorem start
    (h : s.TokensKept) :
    s.start.TokensKept :=
  ⟨h.distinct, h.old, h.range, h.queued, h.waiting, h.writing, h.written⟩

/-- What a packet completes is answered, and other packets change no id. -/
theorem cycle
    (h : s.TokensKept)
    (env : Env) (pack : Packet) :
    (s.next env (.cycle pack)).TokensKept := by
  have hstart := h.start
  have hpacket := packet_ids env s.start.flow pack
  have hunanswered : (∀ ack m, pack = .ack ack → ¬ Completes ack m) →
      ({ s.start with flow := s.start.flow.next env (.packet pack) } :
        CompletionState).TokensKept := by
    intro hnot
    have hsame : msgIds (s.start.flow.next env (.packet pack)).client.outboundMsgs =
        s.start.ids := by
      rcases hpacket with hsame | ⟨ack, m, heq, _, hcompletes, _⟩
      · exact hsame
      · exact absurd hcompletes (hnot ack m heq)
    exact hstart.of_sublist (List.Sublist.refl _) (List.Sublist.refl _) rfl (.inl rfl)
      (fun i hi => hsame ▸ hi) (fun r _ _ => congrArg _ hsame)
  cases pack with
  | publish publish =>
      exact hunanswered (fun ack m heq => by cases heq)
  | ack pack =>
      by_cases hack : pack.acknowledges = true
      · refine hstart.answer (cycle_answering env s hack) rfl rfl rfl ?_
        rcases hpacket with hsame | ⟨ack, m, heq, _, _, hless⟩
        · exact .inl hsame
        · cases heq
          exact .inr hless
      · rw [CompletionState.next, CompletionState.cycle, if_neg hack]
        refine hunanswered fun ack m heq hcompletes => ?_
        cases heq
        exact hack (FlowState.acknowledges_of_completes hcompletes)

/-- A write that is complete takes its request off the responses. -/
theorem writeComplete
    (h : s.TokensKept)
    (env : Env) (rc : Int) :
    (s.writeComplete env rc).TokensKept := by
  obtain ⟨hflow, hcommands, haccepted, hpending, hresponses⟩ := writeComplete_lists env s rc
  have hids : (s.writeComplete env rc).ids = s.ids := by
    rw [ids, hflow]
    rfl
  refine h.of_sublist (t := s.writeComplete env rc) (by rw [hcommands]) ?_ haccepted
    (.inr hpending) (fun i hi => hids ▸ hi) (fun r _ _ => by rw [hids])
  rcases hresponses with hsame | ⟨request, _, _, hless⟩
  · rw [hsame]
  · rw [hless]
    exact List.erase_sublist

/-- The connection keeps the ids, or the responses go with them. -/
theorem connection
    {env : Env} {e : FlowEvent}
    (h : s.TokensKept)
    (hconnection : e.ofConnection = true) :
    (s.connection env e).TokensKept := by
  have hids := FlowState.connection_ids env s.flow hconnection
  set u : CompletionState := { s with flow := s.flow.next env e }
  rw [CompletionState.connection]
  by_cases hcleans : s.flow.cleansSession env e = true
  · rw [if_pos hcleans] at hids ⊢
    have hnone : u.freeResponses.ids = [] := hids
    refine h.of_sublist (t := u.freeResponses) (List.Sublist.refl _) (List.nil_sublist _)
      rfl (.inl rfl) ?_ ?_
    · intro i hi
      rw [hnone] at hi
      cases hi
    · intro r hr
      cases hr
  · rw [if_neg hcleans] at hids ⊢
    have hsame : u.ids = s.ids := hids
    exact h.of_sublist (t := u) (List.Sublist.refl _) (List.Sublist.refl _) rfl (.inl rfl)
      (fun i hi => hsame ▸ hi) (fun r _ _ => by rw [hsame])

/-- With the handle the requests go. -/
theorem destroy
    (h : s.TokensKept)
    (env : Env) (disconnect : Bytes) (pkeys : Int × List Key) :
    (s.next env (.destroy disconnect pkeys)).TokensKept := by
  have hstart := h.start
  have hkeeps := FlowState.closeSession_keeps env s.start.flow disconnect pkeys
  have hflow : (s.start.connection env (.closeSession disconnect pkeys)).flow =
      s.start.flow.closeSession env disconnect pkeys :=
    (connection_settles env s.start (.closeSession disconnect pkeys)).flow
  refine hstart.of_sublist (t := s.next env (.destroy disconnect pkeys)) (List.nil_sublist _)
    (List.nil_sublist _) ?_ (.inl ?_) ?_ ?_
  · exact (connection_same env s.start _).1
  · exact (connection_same env s.start _).2
  · intro i hi
    refine hkeeps.ids i ?_
    rw [← hflow]
    exact hi
  · intro r hr
    cases hr

end TokensKept

/-- Every step keeps the tokens, where a new request gets one of its own. -/
theorem TokensKept.next
    {env : Env} {s t : CompletionState} {e : CompletionEvent}
    (h : s.TokensKept)
    (hfresh : s.FreshToken e)
    (hstep : Step env s e t) :
    t.TokensKept := by
  obtain ⟨hadm, rfl⟩ := hstep
  have hstart := h.start
  cases e with
  | addCommand command callbacks full =>
      exact hstart.addCommand command callbacks full hfresh
  | processCommand request rc =>
      obtain ⟨hmem, hlow, hhigh, _⟩ := hadm
      have hids := startRequest_ids env s.start rc hlow hhigh
      exact hstart.processCommand hmem
        (requestStarted_starting { s.start with
          flow := (s.start.startRequest env request.command rc).2
          commands := s.start.commands.erase request } request _) rfl rfl rfl rfl hids
  | cycle pack =>
      exact h.cycle env pack
  | suback msgid qoss =>
      exact hstart.answer (suback_answering s.start msgid qoss) rfl rfl rfl (.inl rfl)
  | unsuback msgid =>
      exact hstart.answer (unsuback_answering s.start msgid) rfl rfl rfl (.inl rfl)
  | writeComplete rc =>
      exact hstart.writeComplete env rc
  | connection e =>
      exact hstart.connection hadm.1
  | destroy disconnect pkeys =>
      exact h.destroy env disconnect pkeys

/-! ### What the queries say -/

section Queries

variable {s : CompletionState} {m : Handle} {commands : List CommandElement} {dt : Int32}

/-- The tokens that `MQTTAsync_getPendingTokens` lists. -/
def pendingTokens (m : Handle) (commands : List CommandElement) (outboundMsgs : List Messages) :
    List Int32 :=
  (commands.filter (fun cmd => cmd.client = m)).map (fun cmd => cmd.command.token) ++
    outboundMsgs.map messageToken

/-- A token is complete where it is not listed. -/
theorem isComplete_eq
    (m : Handle) (commands : List CommandElement) (outboundMsgs : List Messages) (dt : Int32) :
    isComplete m commands outboundMsgs dt =
      if dt ∈ pendingTokens m commands outboundMsgs then 0 else 1 := by
  have hqueued : commands.any (fun cmd => cmd.client = m && cmd.command.token = dt) = true ↔
      dt ∈ (commands.filter (fun cmd => cmd.client = m)).map (fun cmd => cmd.command.token) := by
    simp [List.any_eq_true, and_assoc]
  have hsent : outboundMsgs.any (fun m => messageToken m = dt) = true ↔
      dt ∈ outboundMsgs.map messageToken := by
    simp [List.any_eq_true]
  have hlisted : dt ∈ pendingTokens m commands outboundMsgs ↔
      commands.any (fun cmd => cmd.client = m && cmd.command.token = dt) = true ∨
        outboundMsgs.any (fun m => messageToken m = dt) = true := by
    rw [pendingTokens, List.mem_append, hqueued, hsent]
  simp only [hlisted, isComplete]
  by_cases hfound : commands.any (fun cmd => cmd.client = m && cmd.command.token = dt) = true
  · rw [if_pos hfound, if_pos (.inl hfound)]
  · rw [if_neg hfound]
    by_cases hflight : outboundMsgs.any (fun m => messageToken m = dt) = true
    · rw [if_pos hflight, if_pos (.inr hflight)]
    · rw [if_neg hflight, if_neg (not_or.mpr ⟨hfound, hflight⟩)]

theorem getPendingTokens_eq
    (m : Handle) (commands : List CommandElement) (outboundMsgs : List Messages) :
    getPendingTokens m commands outboundMsgs =
      if pendingTokens m commands outboundMsgs = [] then none
      else some (pendingTokens m commands outboundMsgs ++ [-1]) := by
  have hnone : (commands.filter (fun cmd => cmd.client = m)).length + outboundMsgs.length = 0 ↔
      pendingTokens m commands outboundMsgs = [] := by
    rw [← List.length_eq_zero_iff, pendingTokens, List.length_append, List.length_map,
      List.length_map]
  simp only [getPendingTokens, hnone]
  rfl

/-- A request is pending where its token is listed once. -/
theorem isPending_iff
    (hdt : dt ≠ -1) :
    s.IsPending m commands dt ↔
      (pendingTokens m commands s.flow.client.outboundMsgs).count dt = 1 := by
  rw [IsPending, isComplete_eq, getPendingTokens_eq]
  generalize pendingTokens m commands s.flow.client.outboundMsgs = tokens
  have hlast : ([-1] : List Int32).count dt = 0 :=
    List.count_eq_zero.mpr fun hin => hdt (List.mem_singleton.mp hin)
  have hend : (tokens ++ [-1]).count dt = tokens.count dt := by
    rw [List.count_append, hlast, Nat.add_zero]
  constructor
  · rintro ⟨_, tokens', hlisted, hcount⟩
    split_ifs at hlisted
    obtain rfl := Option.some.inj hlisted
    rwa [hend] at hcount
  · intro hcount
    have hmem : dt ∈ tokens := List.count_pos_iff.mp (by omega)
    refine ⟨if_pos hmem, tokens ++ [-1], if_neg (List.ne_nil_of_mem hmem), ?_⟩
    rw [hend, hcount]

theorem isDone_iff
    (hdt : dt ≠ -1) :
    s.IsDone m commands dt ↔ dt ∉ pendingTokens m commands s.flow.client.outboundMsgs := by
  rw [IsDone, isComplete_eq, getPendingTokens_eq]
  generalize pendingTokens m commands s.flow.client.outboundMsgs = tokens
  constructor
  · rintro ⟨hcomplete, _⟩ hmem
    rw [if_pos hmem] at hcomplete
    exact absurd hcomplete (by decide)
  · intro hnot
    refine ⟨if_neg hnot, ?_⟩
    intro tokens' hlisted
    split_ifs at hlisted
    obtain rfl := Option.some.inj hlisted
    rw [List.mem_append, List.mem_singleton, not_or]
    exact ⟨hnot, hdt⟩

/-- The commands that connect and disconnect have the token 0. -/
theorem count_queue
    (hqueue : s.Queue m commands)
    (hdt : dt ≠ 0) :
    ((commands.filter (fun cmd => cmd.client = m)).map (fun cmd => cmd.command.token)).count dt =
      (s.commands.map (fun r => r.command.token)).count dt := by
  have hrequests : s.commands.map (fun r => r.command.token) =
      (((commands.filter (fun cmd => cmd.client = m)).map (·.command)).filter
        (·.isRequest)).map (·.token) := by
    rw [hqueue.requests, List.map_map]
    rfl
  have hothers : ∀ cmd ∈ commands.filter (fun cmd => cmd.client = m),
      cmd.command.isRequest = false → cmd.command.token = 0 := by
    intro cmd hcmd
    obtain ⟨hmem, hclient⟩ := List.mem_filter.mp hcmd
    exact hqueue.others cmd hmem (of_decide_eq_true hclient)
  rw [hrequests]
  generalize commands.filter (fun cmd => cmd.client = m) = queued at hothers
  induction queued with
  | nil =>
      rfl
  | cons cmd queued ih =>
      have ih := ih fun cmd' hmem => hothers cmd' (List.mem_cons_of_mem _ hmem)
      rw [List.map_cons, List.map_cons, List.count_cons, ih]
      cases hrequest : cmd.command.isRequest with
      | true =>
          rw [List.filter_cons_of_pos hrequest, List.map_cons, List.count_cons]
      | false =>
          have hzero := hothers cmd List.mem_cons_self hrequest
          rw [List.filter_cons_of_neg (by simp [hrequest]), hzero,
            if_neg (by simpa using Ne.symm hdt), Nat.add_zero]

/-- The tokens that are listed are those of the requests in the queue and those in flight. -/
theorem count_pendingTokens
    (hqueue : s.Queue m commands)
    (hdt : dt ≠ 0) :
    (pendingTokens m commands s.flow.client.outboundMsgs).count dt =
      (s.commands.map (fun r => r.command.token)).count dt +
        (s.ids.map (fun msgid => Int32.ofNat msgid.toNat)).count dt := by
  have hsent : s.flow.client.outboundMsgs.map messageToken =
      s.ids.map (fun msgid => Int32.ofNat msgid.toNat) := by
    rw [ids, msgIds, List.map_map]
    rfl
  rw [pendingTokens, List.count_append, count_queue hqueue hdt, hsent]

/-- The tokens of the messages are counted by their ids. -/
theorem count_ids
    {r : PendingRequest}
    (hrange : InRange r)
    (htoken : r.hasToken = true) (ids : List MsgId) :
    (ids.map (fun msgid => Int32.ofNat msgid.toNat)).count r.command.token =
      ids.count r.msgId := by
  rw [← (token_of_msgId hrange htoken).1]
  exact List.count_map_of_injective _ _ ofNat_injective _

/-- The tokens of requests that have different ones are counted by the requests. -/
theorem count_tokens
    {r : PendingRequest} {requests : List PendingRequest}
    (hsame : ∀ r' ∈ requests, r'.command.token = r.command.token → r' = r) :
    (requests.map (fun r => r.command.token)).count r.command.token = requests.count r := by
  induction requests with
  | nil =>
      rfl
  | cons r' requests ih =>
      have ih := ih fun r'' hmem => hsame r'' (List.mem_cons_of_mem _ hmem)
      rw [List.map_cons, List.count_cons, List.count_cons, ih]
      have hiff : r'.command.token = r.command.token ↔ r' = r :=
        ⟨hsame r' List.mem_cons_self, fun heq => congrArg (·.command.token) heq⟩
      simp only [beq_iff_eq, hiff]

/-- How often the token of a request is listed. -/
theorem TokensKept.count_eq
    (h : s.TokensKept)
    (hqueue : s.Queue m commands)
    {r : PendingRequest}
    (hr : r ∈ s.commands ++ s.responses)
    (htoken : r.hasToken = true) :
    (pendingTokens m commands s.flow.client.outboundMsgs).count r.command.token =
      if r ∈ s.responses ∧ r.isAcknowledged = false then 0 else 1 := by
  have hrange := h.range r hr
  have hcommands : (s.commands.map (fun r => r.command.token)).count r.command.token =
      s.commands.count r :=
    count_tokens fun r' hr' hsame => h.eq_of_token hr (List.mem_append_left _ hr') htoken hsame
  rw [count_pendingTokens hqueue (token_of_msgId hrange htoken).2, count_ids hrange htoken,
    hcommands]
  obtain ⟨hnodup, _, hdisjoint⟩ := List.nodup_append.mp h.nodup
  rcases List.mem_append.mp hr with hqueued | hwaits
  · have hnot : r ∉ s.responses := fun hwaits => hdisjoint r hqueued r hwaits rfl
    have hid : s.ids.count r.msgId = 0 :=
      List.count_eq_zero.mpr (h.queued r hqueued htoken)
    rw [hid, List.count_eq_one_of_mem hnodup hqueued, if_neg fun h => hnot h.1]
  · have hnot : r ∉ s.commands := fun hqueued => hdisjoint r hqueued r hwaits rfl
    rw [List.count_eq_zero.mpr hnot, h.waiting r hwaits htoken, Nat.zero_add]
    cases hack : r.isAcknowledged with
    | true =>
        rw [if_pos rfl, if_neg fun h => Bool.noConfusion h.2]
    | false =>
        rw [if_neg Bool.false_ne_true, if_pos ⟨hwaits, rfl⟩]

/-- A request is pending, unless it is a SUBSCRIBE or UNSUBSCRIBE that was sent. -/
theorem TokensKept.isPending_iff
    (h : s.TokensKept)
    (hqueue : s.Queue m commands)
    {r : PendingRequest}
    (hr : r ∈ s.commands ++ s.responses)
    (htoken : r.hasToken = true) :
    s.IsPending m commands r.command.token ↔ ¬ s.AwaitsSuback r := by
  have hunacknowledged : r.isAcknowledged = false ↔ r.command.type ≠ .publish := by
    rw [PendingRequest.hasToken, Bool.or_eq_true, decide_eq_true_eq] at htoken
    rw [PendingRequest.isAcknowledged, Bool.and_eq_false_iff]
    constructor
    · rintro (htype | hqos)
      · exact of_decide_eq_false htype
      · rcases htoken with htype | hpos
        · exact htype
        · rw [hpos] at hqos
          cases hqos
    · intro htype
      exact .inl (decide_eq_false htype)
  rw [CompletionState.isPending_iff (token_ne_end (h.range r hr) htoken),
    h.count_eq hqueue hr htoken, AwaitsSuback, ← hunacknowledged]
  split_ifs with hawaits
  · exact iff_of_false (by decide) (not_not_intro hawaits)
  · exact iff_of_true rfl hawaits

end Queries

/-! ### Requests that were completed -/

/-- No request on the queue and no message in flight has the token of the request. -/
structure Absent (s : CompletionState) (request : PendingRequest) : Prop where
  commands : ∀ r ∈ s.commands, r.command.token ≠ request.command.token
  ids : request.msgId ∉ s.ids

theorem Absent.isDone
    {s : CompletionState} {m : Handle} {commands : List CommandElement} {request : PendingRequest}
    (h : s.Absent request)
    (hqueue : s.Queue m commands)
    (hrange : InRange request)
    (htoken : request.hasToken = true) :
    s.IsDone m commands request.command.token := by
  rw [isDone_iff (token_ne_end hrange htoken), ← List.count_eq_zero,
    count_pendingTokens hqueue (token_of_msgId hrange htoken).2, count_ids hrange htoken,
    List.count_eq_zero.mpr h.ids, Nat.add_zero, List.count_eq_zero]
  intro hin
  obtain ⟨r, hr, hsame⟩ := List.mem_map.mp hin
  exact h.commands r hr hsame

/-- Only a new request comes onto the queue. -/
theorem next_commands
    {env : Env} {s t : CompletionState} {e : CompletionEvent}
    (hstep : Step env s e t) :
    ∀ r ∈ t.commands, r ∈ s.commands ∨
      ∃ callbacks full, e = .addCommand r.command callbacks full := by
  obtain ⟨_, rfl⟩ := hstep
  intro r hr
  cases e with
  | addCommand command callbacks full =>
      rcases List.mem_append.mp ((s.start.addCommand_sublist command callbacks full).subset hr)
        with hold | hnew
      · exact .inl hold
      · obtain rfl := List.mem_singleton.mp hnew
        exact .inr ⟨callbacks, full, rfl⟩
  | processCommand request rc =>
      have hcommands : (s.next env (.processCommand request rc)).commands =
          s.commands.erase request :=
        (requestStarted_starting _ request _).commands
      rw [hcommands] at hr
      exact .inl (List.mem_of_mem_erase hr)
  | cycle pack =>
      have hcommands : (s.next env (.cycle pack)).commands = s.commands := by
        cases pack with
        | publish publish =>
            rfl
        | ack pack =>
            by_cases hack : pack.acknowledges = true
            · exact (cycle_answering env s hack).commands
            · rw [CompletionState.next, CompletionState.cycle, if_neg hack]
              rfl
      exact .inl (hcommands ▸ hr)
  | suback msgid qoss =>
      exact .inl ((suback_answering s.start msgid qoss).commands ▸ hr)
  | unsuback msgid =>
      exact .inl ((unsuback_answering s.start msgid).commands ▸ hr)
  | writeComplete rc =>
      exact .inl ((writeComplete_lists env s.start rc).2.1 ▸ hr)
  | connection e =>
      have hcommands : (s.start.connection env e).commands = s.commands := by
        rw [connection]
        split
        · rfl
        · rfl
      exact .inl (hcommands ▸ hr)
  | destroy disconnect pkeys =>
      cases hr

/-- The token stays away until it is given to a new request. -/
theorem Absent.next
    {env : Env} {s t : CompletionState} {e : CompletionEvent} {request : PendingRequest}
    (h : s.Absent request)
    (hkept : s.TokensKept)
    (hrange : InRange request)
    (htoken : request.hasToken = true)
    (hreuse : ¬ Reuses request.command.token ⟨s, e, t⟩)
    (hstep : Step env s e t) :
    t.Absent request := by
  constructor
  · intro r hr hsame
    rcases next_commands hstep r hr with hold | ⟨callbacks, full, he⟩
    · exact h.commands r hold hsame
    · exact hreuse ⟨r.command, callbacks, full, he, hsame⟩
  · refine (step_absent (x := ⟨s, e, t⟩) hstep h.ids ?_).1
    rintro ⟨r, rc, he, hack, hid⟩
    dsimp only at he
    subst he
    have hr : r ∈ s.commands := hstep.1.1
    have htoken' := hasToken_of_isAcknowledged hack
    have hsame := (token_of_msgId (hkept.range r (List.mem_append_left _ hr)) htoken').1
    rw [hid, (token_of_msgId hrange htoken).1] at hsame
    exact h.commands r hr hsame.symm

/-- The request of the response that is taken off has the id. -/
theorem msgId_of_answered
    {s : CompletionState} {request : PendingRequest} {msgid : MsgId}
    (hkept : s.TokensKept)
    (hbefore : request ∈ s.responses)
    (htoken : request.hasToken = true)
    (hafter : request ∉ s.answered msgid) :
    request.msgId = msgid := by
  have hrange := hkept.range request (List.mem_append_right _ hbefore)
  rw [answered] at hafter
  cases hfound : s.findResponse msgid with
  | none =>
      rw [hfound] at hafter
      exact absurd hbefore hafter
  | some r =>
      rw [hfound] at hafter
      have heq : request = r := by
        by_contra hne
        exact hafter ((List.mem_erase_of_ne hne).mpr hbefore)
      have hmatch : r.command.token = Int32.ofNat msgid.toNat := by
        simpa using List.find?_some hfound
      rw [← heq, ← (token_of_msgId hrange htoken).1] at hmatch
      exact ofNat_injective hmatch

/-- What completes a request has its id, and is answered. -/
theorem msgId_of_completed
    {s t u : CompletionState} {e : CompletionEvent} {request : PendingRequest} {msgid : MsgId}
    (h : Completed request ⟨s, e, t⟩)
    (hkept : s.TokensKept)
    (htoken : request.hasToken = true)
    (hanswering : Answering (s.start.answered msgid) u t) :
    request.msgId = msgid := by
  obtain ⟨_, hbefore, hafter⟩ := h
  refine msgId_of_answered hkept hbefore htoken fun hin => hafter ?_
  rw [hanswering.responses]
  exact hin

/-- A packet that ends the exchange with its id takes the id off. -/
theorem packet_absent
    {env : Env} {s : FlowState} {pack : Ack}
    (hends : ∀ m, findMsg s.client.outboundMsgs pack.msgId = some m → Completes pack m) :
    pack.msgId ∉ msgIds (s.next env (.packet (.ack pack))).client.outboundMsgs := by
  cases hfound : findMsg s.client.outboundMsgs pack.msgId with
  | none =>
      have hnone := findMsg_eq_none.mp hfound
      exact fun hin => hnone ((FlowState.packet_keeps env s (.ack pack)).ids _ hin)
  | some m =>
      have hremoved : (s.next env (.packet (.ack pack))).client.outboundMsgs =
          removeMsg s.client.outboundMsgs pack.msgId :=
        handle_completes env s.client.start hfound (hends m hfound)
      rw [hremoved]
      exact findMsg_eq_none.mp (by rw [findMsg_removeMsg, if_pos rfl])

/-- The id of a request that is completed is not in flight, where its exchange is ended. -/
theorem ids_of_completed
    {env : Env} {s : CompletionState} {e : CompletionEvent} {request : PendingRequest}
    (h : Completed request ⟨s, e, s.next env e⟩)
    (hkept : s.TokensKept)
    (htoken : request.hasToken = true)
    (hends : s.EndsExchange e) :
    request.msgId ∉ (s.next env e).ids := by
  obtain ⟨hanswer, hbefore, hafter⟩ := id h
  dsimp only at hanswer hbefore hafter
  cases e with
  | cycle pack =>
      cases pack with
      | publish publish =>
          exact absurd hbefore hafter
      | ack pack =>
          by_cases hack : pack.acknowledges = true
          · have hanswering := cycle_answering env s hack
            rw [msgId_of_completed h hkept htoken hanswering, CompletionState.ids, hanswering.flow]
            exact packet_absent (s := s.start.flow) hends
          · rw [CompletionState.next, CompletionState.cycle, if_neg hack] at hafter
            exact absurd hbefore hafter
  | suback msgid qoss =>
      have hanswering := suback_answering s.start msgid qoss
      rw [msgId_of_completed h hkept htoken hanswering, CompletionState.ids, CompletionState.next,
        hanswering.flow]
      exact hends
  | unsuback msgid =>
      have hanswering := unsuback_answering s.start msgid
      rw [msgId_of_completed h hkept htoken hanswering, CompletionState.ids, CompletionState.next,
        hanswering.flow]
      exact hends
  | addCommand | processCommand | writeComplete | connection | destroy => cases hanswer

/-- What completes a request takes its token off the lists, where it ends the exchange. -/
theorem absent_of_completed
    {env : Env} {x : Lib.Transition CompletionState CompletionEvent} {request : PendingRequest}
    (h : Completed request x)
    (hkept : x.pre.TokensKept)
    (htoken : request.hasToken = true)
    (hends : x.pre.EndsExchange x.event)
    (hstep : Step env x.pre x.event x.post) :
    x.post.Absent request := by
  obtain ⟨s, e, t⟩ := x
  dsimp only at hkept hends hstep ⊢
  constructor
  · intro r hr hsame
    rcases next_commands hstep r hr with hold | ⟨callbacks, full, rfl⟩
    · have heq := hkept.eq_of_token (List.mem_append_right _ h.before)
        (List.mem_append_left _ hold) htoken hsame
      subst heq
      exact (List.nodup_append.mp hkept.nodup).2.2 r hold r h.before rfl
    · cases h.answer
  · obtain ⟨_, rfl⟩ := hstep
    exact ids_of_completed h hkept htoken hends

/-! ### Runs -/

section

variable {env : Env} {s t : CompletionState} {tr : CompletionRun}

theorem TokensKept.of_empty
    (hcommands : s.commands = [])
    (hresponses : s.responses = [])
    (hpending : s.pending_write = none) :
    s.TokensKept := by
  have hnone : s.commands ++ s.responses = [] := by rw [hcommands, hresponses]; rfl
  constructor
  · rw [hnone]
    exact List.Pairwise.nil
  · intro r hr
    rw [hnone] at hr
    cases hr
  · intro r hr
    rw [hnone] at hr
    cases hr
  · intro r hr
    rw [hcommands] at hr
    cases hr
  · intro r hr
    rw [hresponses] at hr
    cases hr
  · intro r hr
    rw [hnone] at hr
    cases hr
  · intro n hn
    rw [hpending] at hn
    cases hn

/-- Once it has left the lists, the token stays away while it is not used again. -/
theorem run_gone
    {request : PendingRequest}
    (hrun : Lib.Runs (Step env) s tr t)
    (habsent : s.Absent request)
    (hkept : s.TokensKept)
    (hrange : InRange request)
    (htoken : request.hasToken = true)
    (hfresh : ∀ x ∈ tr, x.pre.FreshToken x.event)
    (hreuse : ∀ x ∈ tr, ¬ Reuses request.command.token x) :
    t.Absent request := by
  refine (hrun.invariant_of (I := fun s => s.Absent request ∧ s.TokensKept)
    (C := fun s e => s.FreshToken e ∧ ¬ Reuses request.command.token ⟨s, e, s⟩)
    ?_ ⟨habsent, hkept⟩ (fun x hx => ⟨hfresh x hx, hreuse x hx⟩)).2.1
  rintro s e t ⟨habsent, hkept⟩ ⟨hfresh, hreuse⟩ hstep
  exact ⟨habsent.next hkept hrange htoken hreuse hstep, hkept.next hfresh hstep⟩

/--
In every state of a run whose requests get tokens of their own, a request that is
queued or waits for its response is pending for both queries, unless it is a SUBSCRIBE
or UNSUBSCRIBE that was sent.  A request is done from the packet on that completes it
and ends its exchange, until its token is used again.
-/
theorem queries_accurate_iff
    (hrun : Lib.Runs (Step env) s tr t)
    (hcommands : s.commands = [])
    (hresponses : s.responses = [])
    (hpending : s.pending_write = none)
    (hfresh : ∀ x ∈ tr, x.pre.FreshToken x.event)
    {m : Handle} {commands : List CommandElement}
    (hqueue : t.Queue m commands) :
    (∀ request ∈ t.commands ++ t.responses, request.hasToken = true →
      (t.IsPending m commands request.command.token ↔ ¬ t.AwaitsSuback request)) ∧
    ∀ before x after, tr = before ++ x :: after →
      ∀ request, request.hasToken = true → Completed request x → x.pre.EndsExchange x.event →
        (∀ z ∈ after, ¬ Reuses request.command.token z) →
        t.IsDone m commands request.command.token := by
  have hstart := TokensKept.of_empty hcommands hresponses hpending
  obtain ⟨hall, hend⟩ := hrun.invariant_of (C := FreshToken)
    (fun _ _ _ hkept hfresh hstep => hkept.next hfresh hstep) hstart hfresh
  refine ⟨fun request hrequest htoken => hend.isPending_iff hqueue hrequest htoken, ?_⟩
  intro before x after htr request htoken hcompleted hends hreuse
  subst htr
  obtain ⟨_, hstep, hrest⟩ := hrun.split
  obtain ⟨hpre, hpost⟩ := hall x (by simp)
  have hrange := hpre.range request (List.mem_append_right _ hcompleted.before)
  have habsent := absent_of_completed hcompleted hpre htoken hends hstep
  have hgone := run_gone hrest habsent hpost hrange htoken
    (fun z hz => hfresh z (by simp [hz])) hreuse
  exact hgone.isDone hqueue hrange htoken

end

/-- The message of QoS 1 is no longer pending when its PUBACK has come. -/
theorem published_done :
    ((exchangeOf 1).foldl (next Env.reliable) (fresh 5 none true)).IsDone 0 [] 1 := by
  have hqueue : ((exchangeOf 1).foldl (next Env.reliable) (fresh 5 none true)).Queue 0 [] :=
    ⟨rfl, fun _ h => absurd h List.not_mem_nil⟩
  refine (queries_accurate_iff (exchangeRun_runs (.inl rfl)) rfl rfl rfl ?_ hqueue).2
    ((exchangeRun 1).take 5) ((exchangeRun 1).getLast (by decide)) [] rfl (publication 1) rfl
    ?_ ?_ ?_
  · refine List.forall_mem_cons.mpr ⟨trivial, List.forall_mem_cons.mpr ⟨trivial, ?_⟩⟩
    refine List.forall_mem_cons.mpr ⟨trivial, List.forall_mem_cons.mpr ⟨?_, ?_⟩⟩
    · exact ⟨by decide, by decide, fun _ h => absurd h List.not_mem_nil, List.not_mem_nil⟩
    · refine List.forall_mem_cons.mpr ⟨trivial, List.forall_mem_cons.mpr ⟨trivial, ?_⟩⟩
      exact fun _ h => absurd h List.not_mem_nil
  · exact ⟨rfl, List.mem_singleton_self _, List.not_mem_nil⟩
  · intro m hm
    obtain rfl := Option.some.inj hm
    exact .inl ⟨rfl, rfl⟩
  · exact fun _ h => absurd h List.not_mem_nil

/-- A SUBSCRIBE with the token 1, the first request of its client. -/
def subscription : PendingRequest where
  serial := 0
  command := ⟨1, MQTTProperties.initializer,
    .sub ⟨1, [[97]], some [1], MQTTSubscribeOptions.zero, none⟩⟩
  callbacks := ⟨true, true, false, false⟩

/-- The client connects, and the SUBSCRIBE is sent. -/
def subscriptionOf : List CompletionEvent :=
  [.connection (.connect FlowState.keepSession), .connection (.connecting .waitForConnack),
    .connection (FlowState.accepted false 10),
    .addCommand subscription.command subscription.callbacks false,
    .processCommand subscription 0]

/-- A SUBSCRIBE that was sent waits for its SUBACK, and is complete for the queries. -/
theorem subscription_complete :
    ∃ tr t, Lib.Runs (Step Env.reliable) (fresh 5 none true) tr t ∧
      (∀ x ∈ tr, x.pre.FreshToken x.event) ∧
      subscription ∈ t.responses ∧ t.Queue 0 [] ∧ t.IsDone 0 [] 1 ∧ ¬ t.IsPending 0 [] 1 := by
  have hadm : ∀ x ∈ Lib.trace (next Env.reliable) (fresh 5 none true) subscriptionOf,
      x.pre.Admissible x.event := by
    refine List.forall_mem_cons.mpr ⟨⟨rfl, trivial⟩, List.forall_mem_cons.mpr ⟨?_, ?_⟩⟩
    · exact ⟨rfl, rfl, by decide, by decide⟩
    refine List.forall_mem_cons.mpr ⟨⟨rfl, trivial⟩, List.forall_mem_cons.mpr ⟨rfl, ?_⟩⟩
    refine List.forall_mem_cons.mpr ⟨⟨List.mem_singleton_self _, ?_⟩, ?_⟩
    · decide
    · exact fun _ h => absurd h List.not_mem_nil
  refine ⟨_, _, Lib.Runs.of_trace _ _ fun x hx => ⟨hadm x hx, Lib.post_of_mem_trace hx⟩, ?_,
    List.mem_singleton_self _, ⟨rfl, fun _ h => absurd h List.not_mem_nil⟩, ?_, ?_⟩
  · refine List.forall_mem_cons.mpr ⟨trivial, List.forall_mem_cons.mpr ⟨trivial, ?_⟩⟩
    refine List.forall_mem_cons.mpr ⟨trivial, List.forall_mem_cons.mpr ⟨?_, ?_⟩⟩
    · exact ⟨by decide, by decide, fun _ h => absurd h List.not_mem_nil, List.not_mem_nil⟩
    · refine List.forall_mem_cons.mpr ⟨trivial, ?_⟩
      exact fun _ h => absurd h List.not_mem_nil
  · exact ⟨rfl, fun _ h => by cases h⟩
  · exact fun h => absurd h.1 (by decide)

end CompletionState
end MQTTAsync
end PahoMqtt
