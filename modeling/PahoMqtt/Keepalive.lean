import PahoMqtt.Net
import PahoMqtt.Lib.Runs

/-!
# Keeping connections alive

`MQTTProtocol_keepalive` and the loop that calls it, with the times that it
reads.  Times are in microseconds, as they are in a `struct timeval`, and the
clock does not go back.

Closing a session is an event of its own, after the one that asks for it.
-/

namespace PahoMqtt
namespace Keepalive

/-- The fields of `Clients` and of its `networkHandles` that are read here. -/
structure Client where
  connected : Bool
  keepAliveInterval : Int
  ping_outstanding : Bool
  lastSent : Int
  lastReceived : Int
  lastPing : Int

/-- `MQTTTime_difftime`, in milliseconds -/
def MQTTTime_difftime (new old : Int) : Int :=
  (new - old) / 1000

/-- What the socket of a client answers: that there is no unfinished write, and to a PINGREQ. -/
structure Answer where
  noPendingWrites : Bool
  rc : Int
  /-- The time that is read when the PINGREQ is written. -/
  sent : Int

inductive Output where
  | pingreq (rc : Int)
  | closeSession
deriving DecidableEq

/-- `MQTTPacket_send_pingreq` -/
def send_pingreq (answer : Answer) (client : Client) : Int × Client :=
  (answer.rc,
    if answer.rc = TCPSOCKET_COMPLETE then { client with lastSent := answer.sent } else client)

/-- The body of the loop of `MQTTProtocol_keepalive`. -/
def keepaliveClient (now : Int) (answer : Answer) (client : Client) : List Output × Client :=
  if client.connected = false ∨ client.keepAliveInterval = 0 then ([], client)
  else if client.ping_outstanding then
    if MQTTTime_difftime now client.lastPing ≥ client.keepAliveInterval * 1000 then
      ([.closeSession], client)
    else ([], client)
  else if MQTTTime_difftime now client.lastSent ≥ client.keepAliveInterval * 1000 ∨
      MQTTTime_difftime now client.lastReceived ≥ client.keepAliveInterval * 1000 then
    if answer.noPendingWrites then
      let (rc, client) := send_pingreq answer client
      if rc ≠ TCPSOCKET_COMPLETE then ([.pingreq rc, .closeSession], client)
      else ([.pingreq rc], { client with lastPing := now, ping_outstanding := true })
    else ([], client)
  else ([], client)

/-- `MQTTProtocol_keepalive` -/
def MQTTProtocol_keepalive (now : Int) (answers : Nat → Answer) (clients : List Client) :
    List Client :=
  clients.mapIdx fun i client => (keepaliveClient now (answers i) client).2

/-! ### The loop -/

/-- `setRetryLoopInterval` -/
def setRetryLoopInterval (keepalive : Int) : Int :=
  let retryLoopIntervalms := (keepalive * 1000).tdiv 10
  if retryLoopIntervalms < 100 then 100
  else if retryLoopIntervalms > 5000 then 5000
  else retryLoopIntervalms

/-- The library, with what the clock has shown last and when it has been called last. -/
structure Loop where
  clock : Int
  called : Int
  /-- `last` of `MQTTAsync_retry` -/
  last : Int
  retryLoopIntervalms : Int
  clients : List Client

/-- What happens to one client. -/
inductive ClientEvent where
  /-- `MQTTAsync_connect`, or `MQTTClient_connectURI` -/
  | connect (keepAliveInterval : Int)
  /-- The CONNACK is handled. -/
  | connected
  /-- The write of a packet is finished. -/
  | sent (time : Int)
  /-- A packet has been read. -/
  | received (time : Int) (pingresp : Bool)
  /-- `MQTTAsync_closeOnly`, or `MQTTClient_closeSession` -/
  | closed

namespace Client

def next (client : Client) : ClientEvent → Client
  | .connect keepAliveInterval => { client with keepAliveInterval }
  | .connected => { client with connected := true }
  | .sent time => { client with lastSent := time }
  | .received time pingresp =>
      { client with
        lastReceived := time
        ping_outstanding := client.ping_outstanding && !pingresp }
  | .closed => { client with connected := false, ping_outstanding := false }

/-- `MQTTAsync_create` -/
def create : Client := ⟨false, 0, false, 0, 0, 0⟩

end Client

/-- The time that an event reads. -/
def ClientEvent.time : ClientEvent → Option Int
  | .sent time => some time
  | .received time _ => some time
  | _ => none

inductive Event where
  /-- `MQTTAsync_retry` and `MQTTClient_retry`; the clock is read twice. -/
  | retry (now later : Int) (answers : Nat → Answer)
  | create
  | client (i : Nat) (event : ClientEvent)

namespace Loop

/-- The interval is over. -/
def due (s : Loop) (now : Int) : Prop :=
  MQTTTime_difftime now s.last ≥ s.retryLoopIntervalms

instance (s : Loop) (now : Int) : Decidable (s.due now) := inferInstanceAs (Decidable (_ ≤ _))

/-- `MQTTAsync_retry`, without the retries of messages. -/
def MQTTAsync_retry (s : Loop) (now later : Int) (answers : Nat → Answer) : Loop :=
  if s.due now then
    { s with
      clock := later
      called := now
      last := later
      clients := MQTTProtocol_keepalive now answers s.clients }
  else { s with clock := now, called := now }

def next (s : Loop) : Event → Loop
  | .retry now later answers => s.MQTTAsync_retry now later answers
  | .create => { s with clients := s.clients ++ [.create] }
  | .client i event =>
      { s with
        clock := event.time.getD s.clock
        retryLoopIntervalms :=
          match event with
          | .connect keepAliveInterval => setRetryLoopInterval keepAliveInterval
          | _ => s.retryLoopIntervalms
        clients := s.clients.modify i (·.next event) }

/-- The clock does not go back, and a keep alive interval in milliseconds is an `int`. -/
def Admissible (s : Loop) : Event → Prop
  | .retry now later _ => s.clock ≤ now ∧ now ≤ later
  | .create => True
  | .client _ (.connect keepAliveInterval) =>
      -2147483648 ≤ keepAliveInterval * 1000 ∧ keepAliveInterval * 1000 ≤ 2147483647
  | .client _ event => ∀ time, event.time = some time → s.clock ≤ time

def Step (s : Loop) (e : Event) (s' : Loop) : Prop :=
  s.Admissible e ∧ s' = s.next e

/-- What an event writes to a client's socket or asks for. -/
def outputs (s : Loop) (i : Nat) : Event → List Output
  | .retry now _ answers =>
      if s.due now then
        match s.clients[i]? with
        | none => []
        | some client => (keepaliveClient now (answers i) client).1
      else []
  | _ => []

/-- The library when its loop starts; `last` is `START_TIME_ZERO`. -/
def start (clock : Int) : Loop := ⟨clock, clock, 0, 5000, []⟩

end Loop

/-- A run of the library. -/
abbrev Run := List (Lib.Transition Loop Event)

theorem runs_of_trace
    (s : Loop) (events : List Event)
    (h : ∀ x ∈ Lib.trace Loop.next s events, x.pre.Admissible x.event) :
    Lib.Runs Loop.Step s (Lib.trace Loop.next s events) (events.foldl Loop.next s) :=
  Lib.Runs.of_trace s events fun x hx => ⟨h x hx, Lib.post_of_mem_trace hx⟩

/-! ### One call -/

section

variable {now : Int} {answer : Answer} {client : Client}

/-- While a PINGREQ is outstanding there is no other, and nothing changes. -/
theorem keepaliveClient_outstanding
    (houtstanding : client.ping_outstanding = true) :
    (keepaliveClient now answer client).2 = client ∧
      ∀ rc, .pingreq rc ∉ (keepaliveClient now answer client).1 := by
  unfold keepaliveClient
  by_cases hidle : client.connected = false ∨ client.keepAliveInterval = 0
  · rw [if_pos hidle]
    exact ⟨rfl, fun _ => List.not_mem_nil⟩
  · rw [if_neg hidle, if_pos houtstanding]
    split
    · refine ⟨rfl, fun rc hrc => ?_⟩
      cases List.mem_singleton.mp hrc
    · exact ⟨rfl, fun _ => List.not_mem_nil⟩

/-- A PINGREQ becomes outstanding when it is written, and not otherwise. -/
theorem keepaliveClient_pinged
    (hnot : client.ping_outstanding = false) :
    ((keepaliveClient now answer client).2.ping_outstanding = true ↔
      .pingreq TCPSOCKET_COMPLETE ∈ (keepaliveClient now answer client).1) ∧
    ((keepaliveClient now answer client).2.ping_outstanding = true →
      (keepaliveClient now answer client).2.lastPing = now) := by
  unfold keepaliveClient send_pingreq
  by_cases hidle : client.connected = false ∨ client.keepAliveInterval = 0
  · rw [if_pos hidle]
    simp [hnot]
  · rw [if_neg hidle, if_neg (by rw [hnot]; decide)]
    split
    next hdue =>
      by_cases hpending : answer.noPendingWrites = true
      · rw [if_pos hpending]
        dsimp only
        by_cases hrc : answer.rc = TCPSOCKET_COMPLETE
        · rw [if_pos hrc, if_neg (not_not_intro hrc)]
          simp [hrc]
        · rw [if_neg hrc, if_pos hrc]
          simp [hnot, Ne.symm hrc]
      · rw [if_neg hpending]
        simp [hnot]
    next hdue => simp [hnot]

/-- Why a session is to be closed. -/
theorem keepaliveClient_closes
    (h : .closeSession ∈ (keepaliveClient now answer client).1) :
    (client.ping_outstanding = true ∧
      MQTTTime_difftime now client.lastPing ≥ client.keepAliveInterval * 1000) ∨
      ∃ rc, rc ≠ TCPSOCKET_COMPLETE ∧ .pingreq rc ∈ (keepaliveClient now answer client).1 := by
  unfold keepaliveClient send_pingreq at h ⊢
  by_cases hidle : client.connected = false ∨ client.keepAliveInterval = 0
  · rw [if_pos hidle] at h
    cases h
  · rw [if_neg hidle] at h ⊢
    by_cases houtstanding : client.ping_outstanding = true
    · rw [if_pos houtstanding] at h ⊢
      split at h
      next hlate => exact .inl ⟨houtstanding, hlate⟩
      next => cases h
    · rw [if_neg houtstanding] at h ⊢
      right
      split at h
      next hdue =>
        by_cases hpending : answer.noPendingWrites = true
        · rw [if_pos hpending] at h ⊢
          dsimp only at h ⊢
          by_cases hrc : answer.rc ≠ TCPSOCKET_COMPLETE
          · rw [if_pos hdue, if_pos hrc]
            exact ⟨answer.rc, hrc, List.mem_cons_self⟩
          · rw [if_neg hrc] at h
            cases List.mem_singleton.mp h
        · rw [if_neg hpending] at h
          cases h
      next => cases h

/-- The other fields of a client stay as they are. -/
theorem keepaliveClient_fixed
    (now : Int) (answer : Answer) (client : Client) :
    (keepaliveClient now answer client).2.connected = client.connected ∧
      (keepaliveClient now answer client).2.keepAliveInterval = client.keepAliveInterval ∧
      (keepaliveClient now answer client).2.lastReceived = client.lastReceived := by
  unfold keepaliveClient send_pingreq
  dsimp only
  split_ifs <;> exact ⟨rfl, rfl, rfl⟩

end

/-! ### One step -/

section

variable {s s' : Loop} {e : Event} {i : Nat} {client : Client}

/-- What an event does to one client. -/
theorem next_client
    (e : Event)
    (h : s.clients[i]? = some client) :
    (s.next e).clients[i]? = some (
      match e with
      | .retry now _ answers =>
          if s.due now then (keepaliveClient now (answers i) client).2 else client
      | .create => client
      | .client j event => if j = i then client.next event else client) := by
  cases e with
  | retry now later answers =>
    dsimp only [Loop.next, Loop.MQTTAsync_retry]
    split
    next hdue =>
      rw [MQTTProtocol_keepalive, List.getElem?_mapIdx, h]
      rfl
    next => exact h
  | create =>
    have hlt : i < s.clients.length := (List.getElem?_eq_some_iff.mp h).1
    exact (List.getElem?_append_left hlt).trans h
  | client j event =>
    dsimp only [Loop.next]
    rw [List.getElem?_modify, h]
    rfl

/-- A client that is there after an event was there before, or is a new one. -/
theorem next_client_inv
    {client' : Client}
    (h : (s.next e).clients[i]? = some client') :
    (∃ client, s.clients[i]? = some client) ∨ client' = .create := by
  cases hclient : s.clients[i]? with
  | some client => exact .inl ⟨client, rfl⟩
  | none =>
    right
    have hle := List.getElem?_eq_none_iff.mp hclient
    cases e with
    | retry now later answers =>
      dsimp only [Loop.next, Loop.MQTTAsync_retry] at h
      split at h
      next =>
        rw [MQTTProtocol_keepalive, List.getElem?_mapIdx, hclient] at h
        cases h
      next =>
        rw [hclient] at h
        cases h
    | create =>
      dsimp only [Loop.next] at h
      rw [List.getElem?_append_right hle] at h
      exact (List.mem_singleton.mp (List.mem_of_getElem? h))
    | client j event =>
      dsimp only [Loop.next] at h
      rw [List.getElem?_modify, hclient] at h
      cases h

/-- The event answers the PINGREQ of a client, or ends its connection. -/
def Resets (i : Nat) (e : Event) : Prop :=
  e = .client i .closed ∨ ∃ time, e = .client i (.received time true)

/-- Otherwise the PINGREQ stays outstanding. -/
theorem outstanding_step
    (hresets : ¬Resets i e)
    (h : s.clients[i]? = some client)
    (houtstanding : client.ping_outstanding = true) :
    ∃ client', (s.next e).clients[i]? = some client' ∧ client'.ping_outstanding = true ∧
      client'.lastPing = client.lastPing := by
  refine ⟨_, next_client e h, ?_⟩
  cases e with
  | retry now later answers =>
    dsimp only
    split
    · rw [(keepaliveClient_outstanding houtstanding).1]
      exact ⟨houtstanding, rfl⟩
    · exact ⟨houtstanding, rfl⟩
  | create => exact ⟨houtstanding, rfl⟩
  | client j event =>
    dsimp only
    split
    next heq =>
      subst heq
      cases event with
      | connect keepAliveInterval => exact ⟨houtstanding, rfl⟩
      | connected => exact ⟨houtstanding, rfl⟩
      | sent time => exact ⟨houtstanding, rfl⟩
      | received time pingresp =>
        cases pingresp with
        | false =>
          refine ⟨?_, rfl⟩
          rw [Client.next, houtstanding]
          rfl
        | true => exact absurd (.inr ⟨time, rfl⟩) hresets
      | closed => exact absurd (.inl rfl) hresets
    next => exact ⟨houtstanding, rfl⟩

/-- A PINGREQ has been written to the client's socket, at this time. -/
def Pinged (i : Nat) (now : Int) (x : Lib.Transition Loop Event) : Prop :=
  ∃ later answers, x.event = .retry now later answers ∧
    .pingreq TCPSOCKET_COMPLETE ∈ x.pre.outputs i x.event

/-- It becomes outstanding by being written only. -/
theorem pinged_of_outstanding
    {client' : Client}
    (h : s.clients[i]? = some client)
    (hnot : client.ping_outstanding = false)
    (h' : (s.next e).clients[i]? = some client')
    (houtstanding : client'.ping_outstanding = true) :
    Pinged i client'.lastPing ⟨s, e, s.next e⟩ := by
  rw [next_client e h] at h'
  obtain rfl := Option.some.inj h'
  cases e with
  | retry now later answers =>
    dsimp only at houtstanding ⊢
    split at houtstanding
    next hdue =>
      obtain ⟨hiff, hlast⟩ := @keepaliveClient_pinged now (answers i) client hnot
      rw [if_pos hdue, hlast houtstanding]
      refine ⟨later, answers, rfl, ?_⟩
      simp only [Loop.outputs, if_pos hdue, h]
      exact hiff.mp houtstanding
    next =>
      rw [hnot] at houtstanding
      cases houtstanding
  | create =>
    dsimp only at houtstanding
    rw [hnot] at houtstanding
    cases houtstanding
  | client j event =>
    exfalso
    dsimp only at houtstanding
    split at houtstanding
    next =>
      cases event with
      | received time pingresp =>
        rw [Client.next, hnot] at houtstanding
        cases houtstanding
      | closed => cases houtstanding
      | connect keepAliveInterval =>
        rw [Client.next, hnot] at houtstanding
        cases houtstanding
      | connected =>
        rw [Client.next, hnot] at houtstanding
        cases houtstanding
      | sent time =>
        rw [Client.next, hnot] at houtstanding
        cases houtstanding
    next =>
      rw [hnot] at houtstanding
      cases houtstanding

/-- What is written and asked for is written and asked for by a retry, once the interval is over. -/
theorem of_mem_outputs
    {o : Output}
    (h : o ∈ s.outputs i e) :
    ∃ now later answers client, e = .retry now later answers ∧ s.due now ∧
      s.clients[i]? = some client ∧ o ∈ (keepaliveClient now (answers i) client).1 := by
  cases e with
  | retry now later answers =>
    simp only [Loop.outputs] at h
    split at h
    next hdue =>
      cases hclient : s.clients[i]? with
      | none =>
        rw [hclient] at h
        cases h
      | some client =>
        rw [hclient] at h
        exact ⟨now, later, answers, client, rfl, hdue, rfl, h⟩
    next => cases h
  | create => cases h
  | client j event => cases h

/-- An answer, and the end of a connection, leave none outstanding. -/
theorem not_outstanding_of_resets
    {client' : Client}
    (hresets : Resets i e)
    (h' : (s.next e).clients[i]? = some client') :
    client'.ping_outstanding = false := by
  rcases next_client_inv h' with ⟨client, h⟩ | rfl
  · rw [next_client e h] at h'
    obtain rfl := Option.some.inj h'
    rcases hresets with rfl | ⟨time, rfl⟩
    · dsimp only
      rw [if_pos rfl]
      rfl
    · dsimp only
      rw [if_pos rfl]
      exact Bool.and_false _
  · rfl

/-- A client whose PINGREQ has just been written. -/
theorem outstanding_of_pinged
    {x : Lib.Transition Loop Event} {now : Int}
    (hstep : Loop.Step x.pre x.event x.post)
    (h : Pinged i now x) :
    ∃ client, x.post.clients[i]? = some client ∧ client.ping_outstanding = true := by
  obtain ⟨later, answers, hevent, hping⟩ := h
  obtain ⟨now', later', answers', client, hevent', hdue, hclient, hmem⟩ := of_mem_outputs hping
  rw [hevent] at hevent'
  injection hevent' with hnow _ hanswers
  subst hnow hanswers
  refine ⟨_, by rw [hstep.2, next_client x.event hclient], ?_⟩
  rw [hevent]
  dsimp only
  rw [if_pos hdue]
  have hnot : client.ping_outstanding = false := by
    by_contra houtstanding
    exact (keepaliveClient_outstanding (by simpa using houtstanding)).2 _ hmem
  exact (keepaliveClient_pinged hnot).1.mpr hmem

end

/-! ### A PINGREQ at a time -/

/-- Between two PINGREQs of a client there is an answer, or the end of the connection. -/
theorem pingreqs_alternate
    {s t : Loop} {tr₁ tr₂ tr₃ : Run} {x y : Lib.Transition Loop Event} {i : Nat} {now rc : Int}
    (hrun : Lib.Runs Loop.Step s (tr₁ ++ x :: (tr₂ ++ y :: tr₃)) t)
    (hfirst : Pinged i now x)
    (hsecond : .pingreq rc ∈ y.pre.outputs i y.event) :
    ∃ z ∈ tr₂, Resets i z.event := by
  by_contra hnone
  have hunanswered : ∀ z ∈ tr₂, ¬Resets i z.event := fun z hz h => hnone ⟨z, hz, h⟩
  obtain ⟨_, hstep, hafter⟩ := hrun.split
  obtain ⟨hbetween, _, _⟩ := hafter.split
  -- Until the second one the first one stays outstanding.
  have houtstanding := (hbetween.invariant_of
    (I := fun s => ∃ client, s.clients[i]? = some client ∧ client.ping_outstanding = true)
    (C := fun _ e => ¬Resets i e)
    (by
      rintro s e s' ⟨client, hclient, houtstanding⟩ hresets ⟨_, rfl⟩
      obtain ⟨client', hclient', houtstanding', _⟩ :=
        outstanding_step hresets hclient houtstanding
      exact ⟨client', hclient', houtstanding'⟩)
    (outstanding_of_pinged hstep hfirst) hunanswered).2
  obtain ⟨client, hclient, houtstanding⟩ := houtstanding
  obtain ⟨_, _, answers, client', _, _, hclient', hmem⟩ := of_mem_outputs hsecond
  obtain rfl := Option.some.inj (hclient.symm.trans hclient')
  exact (keepaliveClient_outstanding houtstanding).2 rc hmem

/-- A client connects with a keep alive interval of a second, and a packet is read. -/
def connecting : List Event :=
  [.create, .client 0 (.connect 1), .client 0 .connected, .client 0 (.received 1000000 false)]

/-- A retry that finds every socket free, and writes its PINGREQs at once. -/
def retryAt (now : Int) : Event := .retry now now fun _ => ⟨true, TCPSOCKET_COMPLETE, now⟩

theorem pingreqs_alternate_answered :
    ∃ z ∈ Lib.trace Loop.next ((connecting.foldl Loop.next (.start 0)).next (retryAt 2000000))
      [.client 0 (.received 2100000 true)], Resets 0 z.event := by
  have hrun := runs_of_trace (connecting.foldl Loop.next (.start 0))
    [retryAt 2000000, .client 0 (.received 2100000 true), retryAt 4000000]
    (by simp [Lib.trace, retryAt, connecting, Loop.Admissible, Loop.next, ClientEvent.time,
      Loop.start, Loop.MQTTAsync_retry, Loop.due, MQTTTime_difftime, setRetryLoopInterval])
  have hsecond : .pingreq TCPSOCKET_COMPLETE ∈
      (((connecting.foldl Loop.next (.start 0)).next (retryAt 2000000)).next
        (.client 0 (.received 2100000 true))).outputs 0 (retryAt 4000000) := by decide
  have hfirst : .pingreq TCPSOCKET_COMPLETE ∈
      (connecting.foldl Loop.next (.start 0)).outputs 0 (retryAt 2000000) := by decide
  simp only [Lib.trace] at hrun ⊢
  exact @pingreqs_alternate _ _ [] [_] [] _ _ _ _ _ hrun ⟨_, _, rfl, hfirst⟩ hsecond

/-! ### Closing a session -/

/-- A PINGREQ was written at this time, and there was no answer since. -/
def Unanswered (i : Nat) (sent : Int) (tr : Run) : Prop :=
  ∃ tr₁ x tr₂, tr = tr₁ ++ x :: tr₂ ∧ Pinged i sent x ∧ ∀ z ∈ tr₂, ¬Resets i z.event

/-- `ping_outstanding` and `lastPing` tell the truth. -/
def Recorded (tr : Run) (s : Loop) : Prop :=
  ∀ i client, s.clients[i]? = some client → client.ping_outstanding = true →
    Unanswered i client.lastPing tr

theorem recorded_step
    {tr : Run} {s s' : Loop} {e : Event}
    (h : Recorded tr s)
    (hstep : Loop.Step s e s') :
    Recorded (tr ++ [⟨s, e, s'⟩]) s' := by
  obtain ⟨_, rfl⟩ := hstep
  intro i client' hclient' houtstanding'
  have hresets : ¬Resets i e := by
    intro hresets
    rw [not_outstanding_of_resets hresets hclient'] at houtstanding'
    cases houtstanding'
  rcases next_client_inv hclient' with ⟨client, hclient⟩ | rfl
  · cases houtstanding : client.ping_outstanding with
    | false =>
      exact ⟨tr, _, [], rfl,
        pinged_of_outstanding hclient houtstanding hclient' houtstanding',
        fun _ hz => absurd hz List.not_mem_nil⟩
    | true =>
      obtain ⟨client'', hclient'', _, hlast⟩ := outstanding_step hresets hclient houtstanding
      obtain rfl := Option.some.inj (hclient'.symm.trans hclient'')
      obtain ⟨tr₁, x, tr₂, rfl, hpinged, hsince⟩ := h i client hclient houtstanding
      refine ⟨tr₁, x, tr₂ ++ [_], by rw [List.append_assoc, List.cons_append], ?_, ?_⟩
      · rw [hlast]
        exact hpinged
      · intro z hz
        rcases List.mem_append.mp hz with hz | hz
        · exact hsince z hz
        · rw [List.mem_singleton.mp hz]
          exact hresets
  · cases houtstanding'

/--
A session is closed only when a PINGREQ cannot be written, or when one has been
unanswered for the keep alive interval.
-/
theorem closes_only_unanswered
    {t₀ : Int} {t : Loop} {tr₁ tr₂ : Run} {y : Lib.Transition Loop Event} {i : Nat}
    (hrun : Lib.Runs Loop.Step (Loop.start t₀) (tr₁ ++ y :: tr₂) t)
    (hcloses : .closeSession ∈ y.pre.outputs i y.event) :
    (∃ rc, rc ≠ TCPSOCKET_COMPLETE ∧ .pingreq rc ∈ y.pre.outputs i y.event) ∨
      ∃ now later answers client sent, y.event = .retry now later answers ∧
        y.pre.clients[i]? = some client ∧ Unanswered i sent tr₁ ∧
        MQTTTime_difftime now sent ≥ client.keepAliveInterval * 1000 := by
  have hbegin : Recorded [] (Loop.start t₀) := fun _ _ h => nomatch h
  have hrecorded : Recorded tr₁ y.pre :=
    (hrun.history_of (I := Recorded) (C := fun _ _ => True)
      (fun _ _ _ _ h _ hstep => recorded_step h hstep) hbegin (fun _ _ => trivial)).1 tr₁ y tr₂ rfl
  obtain ⟨now, later, answers, client, hevent, hdue, hclient, hmem⟩ := of_mem_outputs hcloses
  rcases keepaliveClient_closes hmem with ⟨houtstanding, hlate⟩ | ⟨rc, hrc, hping⟩
  · exact .inr ⟨now, later, answers, client, client.lastPing, hevent, hclient,
      hrecorded i client hclient houtstanding, hlate⟩
  · refine .inl ⟨rc, hrc, ?_⟩
    rw [hevent]
    simp only [Loop.outputs, if_pos hdue, hclient]
    exact hping

theorem closes_only_unanswered_once :
    let s := (connecting ++ [retryAt 2000000]).foldl Loop.next (.start 0)
    (∃ rc, rc ≠ TCPSOCKET_COMPLETE ∧ .pingreq rc ∈ s.outputs 0 (retryAt 4000000)) ∨
      ∃ now later answers client sent, retryAt 4000000 = .retry now later answers ∧
        s.clients[0]? = some client ∧
        Unanswered 0 sent
          (Lib.trace Loop.next (.start 0) (connecting ++ [retryAt 2000000])) ∧
        MQTTTime_difftime now sent ≥ client.keepAliveInterval * 1000 := by
  have hrun := runs_of_trace (.start 0) ((connecting ++ [retryAt 2000000]) ++ [retryAt 4000000])
    (by simp [Lib.trace, retryAt, connecting, Loop.Admissible, Loop.next, ClientEvent.time,
      Loop.start, Loop.MQTTAsync_retry, Loop.due, MQTTTime_difftime, setRetryLoopInterval])
  have hcloses : .closeSession ∈ ((connecting ++ [retryAt 2000000]).foldl Loop.next
      (.start 0)).outputs 0 (retryAt 4000000) := by decide
  rw [Lib.trace_append] at hrun
  exact closes_only_unanswered hrun hcloses

/-! ### Noticing silence -/

/-- The times of a loop are in order. -/
structure Ordered (s : Loop) : Prop where
  last : s.last ≤ s.clock
  called : s.called ≤ s.clock
  interval : s.retryLoopIntervalms ≤ 5000
  pings : ∀ (i : Nat) (client : Client), s.clients[i]? = some client →
    client.ping_outstanding = true → client.lastPing ≤ s.clock

theorem setRetryLoopInterval_le
    (keepalive : Int) :
    setRetryLoopInterval keepalive ≤ 5000 := by
  unfold setRetryLoopInterval
  dsimp only
  split_ifs <;> omega

theorem Loop.Step.clock_le
    {s s' : Loop} {e : Event}
    (h : Loop.Step s e s') :
    s.clock ≤ s'.clock := by
  obtain ⟨hadmissible, rfl⟩ := h
  cases e with
  | retry now later answers =>
    obtain ⟨hnow, hlater⟩ := hadmissible
    dsimp only [Loop.next, Loop.MQTTAsync_retry]
    split
    · exact hnow.trans hlater
    · exact hnow
  | create => exact le_rfl
  | client j event =>
    dsimp only [Loop.next]
    cases event with
    | connect keepAliveInterval => exact le_rfl
    | connected => exact le_rfl
    | sent time => exact hadmissible time rfl
    | received time pingresp => exact hadmissible time rfl
    | closed => exact le_rfl

theorem ordered_step
    {s s' : Loop} {e : Event}
    (h : Ordered s)
    (hstep : Loop.Step s e s') :
    Ordered s' := by
  have hclock := hstep.clock_le
  obtain ⟨hadmissible, rfl⟩ := hstep
  have hpings : ∀ (i : Nat) (client' : Client), (s.next e).clients[i]? = some client' →
      client'.ping_outstanding = true → client'.lastPing ≤ (s.next e).clock := by
    intro i client' hclient' houtstanding'
    rcases next_client_inv hclient' with ⟨client, hclient⟩ | rfl
    · cases houtstanding : client.ping_outstanding with
      | false =>
        obtain ⟨later, answers, hevent, hping⟩ :=
          pinged_of_outstanding hclient houtstanding hclient' houtstanding'
        obtain ⟨now, _, _, _, hevent', hdue, _⟩ := of_mem_outputs hping
        dsimp only at hevent hevent' hdue
        subst hevent
        injection hevent' with hnow
        rw [Loop.next, Loop.MQTTAsync_retry, if_pos (hnow ▸ hdue)]
        exact hadmissible.2
      | true =>
        by_cases hresets : Resets i e
        · rw [not_outstanding_of_resets hresets hclient'] at houtstanding'
          cases houtstanding'
        · obtain ⟨client'', hclient'', _, hlast⟩ := outstanding_step hresets hclient houtstanding
          obtain rfl := Option.some.inj (hclient'.symm.trans hclient'')
          rw [hlast]
          exact (h.pings i client hclient houtstanding).trans hclock
    · cases houtstanding'
  cases e with
  | retry now later answers =>
    obtain ⟨hnow, hlater⟩ := hadmissible
    dsimp only [Loop.next, Loop.MQTTAsync_retry] at hpings hclock ⊢
    split at hpings
    next hdue =>
      rw [if_pos hdue]
      exact ⟨le_rfl, hlater, h.interval, hpings⟩
    next hdue =>
      rw [if_neg hdue]
      exact ⟨h.last.trans hnow, le_rfl, h.interval, hpings⟩
  | create => exact ⟨h.last, h.called, h.interval, hpings⟩
  | client j event =>
    refine ⟨h.last.trans hclock, h.called.trans hclock, ?_, hpings⟩
    dsimp only [Loop.next]
    cases event with
    | connect keepAliveInterval => exact setRetryLoopInterval_le keepAliveInterval
    | connected => exact h.interval
    | sent time => exact h.interval
    | received time pingresp => exact h.interval
    | closed => exact h.interval

/-- No retry that was due has been at or after the deadline `D`. -/
def Near (c D : Int) (s : Loop) : Prop :=
  s.called < D ∨ s.last < D + c ∧ s.called < s.last + 5000000

/-- Retries that are not `c` apart keep it, but for one that is due at the deadline. -/
theorem near_retry
    {c D now later : Int} {answers : Nat → Answer} {s : Loop}
    (hordered : Ordered s)
    (hclock : s.clock ≤ now)
    (hpace : now ≤ s.called + c)
    (hnear : Near c D s)
    (hnext : s.due now → now < D) :
    Near c D (s.MQTTAsync_retry now later answers) := by
  unfold Loop.MQTTAsync_retry Near
  by_cases hdue : s.due now
  · rw [if_pos hdue]
    exact .inl (hnext hdue)
  · rw [if_neg hdue]
    dsimp only
    have hsoon : now < s.last + 5000000 := by
      have hinterval := hordered.interval
      rw [Loop.due, MQTTTime_difftime] at hdue
      omega
    by_cases hbefore : now < D
    · exact .inl hbefore
    · right
      have hlast := hordered.last
      rcases hnear with hcalled | ⟨hlate, hcalled⟩
      · exact ⟨by omega, hsoon⟩
      · exact ⟨hlate, hsoon⟩

/-- A client waits for a packet since `R`: when it will have a PINGREQ written, or be closed. -/
def Waiting (c K R : Int) (s : Loop) (client : Client) : Prop :=
  client.connected = true ∧ client.keepAliveInterval = K ∧ client.lastReceived = R ∧
    (client.ping_outstanding = false → Near c (R + K * 1000000) s) ∧
    (client.ping_outstanding = true →
      client.lastPing ≤ R + K * 1000000 + 5000000 + 2 * c ∧
        Near c (R + 2 * (K * 1000000) + 5000000 + 2 * c) s)

/--
The server is silent, the write buffer is free when a PINGREQ is to be written,
and the retries are at most `c` apart.
-/
def Silent (c : Int) (i : Nat) (s : Loop) : Event → Prop
  | .retry now _ answers => now ≤ s.called + c ∧ (answers i).noPendingWrites = true
  | .create => True
  | .client j event => j = i → event = .connected ∨ ∃ time, event = .sent time

/-- One client of one loop, without `closeSession`. -/
theorem keepaliveClient_waiting
    {c K R now later : Int} {answers : Nat → Answer} {answer : Answer} {s : Loop} {client : Client}
    (hK : 0 < K)
    (hordered : Ordered s)
    (hclock : s.clock ≤ now)
    (hpace : now ≤ s.called + c)
    (hpending : answer.noPendingWrites = true)
    (hwaiting : Waiting c K R s client)
    (hdue : s.due now)
    (hopen : .closeSession ∉ (keepaliveClient now answer client).1) :
    Waiting c K R (s.MQTTAsync_retry now later answers) (keepaliveClient now answer client).2 := by
  obtain ⟨hconnected, hkeep, hreceived, hfree, houtstanding⟩ := hwaiting
  have hactive : ¬(client.connected = false ∨ client.keepAliveInterval = 0) := by
    rintro (h | h)
    · rw [hconnected] at h
      cases h
    · omega
  unfold keepaliveClient at hopen ⊢
  rw [if_neg hactive] at hopen ⊢
  cases hping : client.ping_outstanding with
  | true =>
    obtain ⟨hlast, hnear⟩ := houtstanding hping
    rw [hping] at hopen
    rw [if_pos rfl] at hopen ⊢
    by_cases hlate : MQTTTime_difftime now client.lastPing ≥ client.keepAliveInterval * 1000
    · rw [if_pos hlate] at hopen
      exact absurd List.mem_cons_self hopen
    · rw [if_neg hlate]
      refine ⟨hconnected, hkeep, hreceived, ?_, ?_⟩
      · intro h
        rw [hping] at h
        cases h
      · intro _
        refine ⟨hlast, near_retry hordered hclock hpace hnear fun _ => ?_⟩
        rw [MQTTTime_difftime, hkeep] at hlate
        omega
  | false =>
    have hnear := hfree hping
    -- The PINGREQ is late by a loop interval and two calls at most.
    have hsoon : now < R + K * 1000000 + 5000000 + 2 * c := by
      rcases hnear with hcalled | ⟨hlast, hcalled⟩
      · have := hordered.called
        omega
      · omega
    rw [hping] at hopen
    rw [if_neg Bool.false_ne_true] at hopen ⊢
    by_cases hidle : MQTTTime_difftime now client.lastSent ≥ client.keepAliveInterval * 1000 ∨
        MQTTTime_difftime now client.lastReceived ≥ client.keepAliveInterval * 1000
    · rw [if_pos hidle, if_pos hpending] at hopen ⊢
      dsimp only [send_pingreq] at hopen ⊢
      by_cases hrc : answer.rc = TCPSOCKET_COMPLETE
      · rw [if_neg (not_not_intro hrc), if_pos hrc]
        refine ⟨hconnected, hkeep, hreceived, nofun, fun _ => ⟨hsoon.le, .inl ?_⟩⟩
        rw [Loop.MQTTAsync_retry, if_pos hdue]
        dsimp only
        omega
      · rw [if_pos hrc] at hopen
        exact absurd (List.mem_cons_of_mem _ List.mem_cons_self) hopen
    · rw [if_neg hidle]
      refine ⟨hconnected, hkeep, hreceived, fun _ => ?_, ?_⟩
      · refine near_retry hordered hclock hpace hnear fun _ => ?_
        rw [not_or, MQTTTime_difftime, MQTTTime_difftime, hkeep, hreceived] at hidle
        omega
      · intro h
        rw [hping] at h
        cases h

/-- What is waited for is the same until the loop is called. -/
theorem waiting_congr
    {c K R : Int} {s s' : Loop} {client client' : Client}
    (hcalled : s'.called = s.called)
    (hlast : s'.last = s.last)
    (hclient : client' = { client with
      connected := client'.connected
      lastSent := client'.lastSent })
    (hconnected : client'.connected = true)
    (h : Waiting c K R s client) :
    Waiting c K R s' client' := by
  obtain ⟨_, hkeep, hreceived, hfree, houtstanding⟩ := h
  unfold Waiting Near at *
  rw [hcalled, hlast, hclient]
  exact ⟨hconnected, hkeep, hreceived, hfree, houtstanding⟩

theorem waiting_step
    {c K R : Int} {i : Nat} {s s' : Loop} {e : Event} {client : Client}
    (hK : 0 < K)
    (hordered : Ordered s)
    (hclient : s.clients[i]? = some client)
    (hwaiting : Waiting c K R s client)
    (hsilent : Silent c i s e)
    (hopen : .closeSession ∉ s.outputs i e)
    (hstep : Loop.Step s e s') :
    ∃ client', s'.clients[i]? = some client' ∧ Waiting c K R s' client' := by
  obtain ⟨hadmissible, rfl⟩ := hstep
  refine ⟨_, next_client e hclient, ?_⟩
  cases e with
  | retry now later answers =>
    obtain ⟨hpace, hpending⟩ := hsilent
    obtain ⟨hclock, _⟩ := hadmissible
    simp only [Loop.outputs, hclient] at hopen
    dsimp only [Loop.next]
    by_cases hdue : s.due now
    · rw [if_pos hdue] at hopen ⊢
      exact keepaliveClient_waiting hK hordered hclock hpace hpending hwaiting hdue hopen
    · rw [if_neg hdue]
      obtain ⟨hconnected, hkeep, hreceived, hfree, houtstanding⟩ := hwaiting
      have hkeeps : ∀ D, Near c D s → Near c D (s.MQTTAsync_retry now later answers) :=
        fun D hnear => near_retry hordered hclock hpace hnear fun h => absurd h hdue
      exact ⟨hconnected, hkeep, hreceived, fun h => hkeeps _ (hfree h),
        fun h => ⟨(houtstanding h).1, hkeeps _ (houtstanding h).2⟩⟩
  | create => exact waiting_congr rfl rfl rfl hwaiting.1 hwaiting
  | client j event =>
    dsimp only
    split
    next heq =>
      rcases hsilent heq with rfl | ⟨time, rfl⟩
      · exact waiting_congr rfl rfl rfl rfl hwaiting
      · exact waiting_congr rfl rfl rfl hwaiting.1 hwaiting
    next => exact waiting_congr rfl rfl rfl hwaiting.1 hwaiting

end Keepalive
end PahoMqtt
