import PahoMqtt.Lib.Runs
import PahoMqtt.Socks5Proxy

/-!
# What an attempt to connect through a proxy has seen

Each state of the handshake says what the proxy has answered so far.  The bytes
that were read are these answers with what was read of the current one, or the
memory for the current one was freed and the attempt cannot go on.  The length
of the last reply depends on its own bytes, so it is only known from the fifth
of them on.
-/

set_option linter.style.nameCheck false

namespace PahoMqtt
namespace Socks5

open Lib

/-- The answers that lead to the request. -/
def Authentication (auth : Bytes) : Prop :=
  auth = [5, 0] ∨ auth = [5, 2, 1, 0]

/-- The answers of a proxy that has established the tunnel. -/
def Established (bytes : Bytes) : Prop :=
  ∃ auth reply, Authentication auth ∧ [5, 0] <+: reply ∧ bytes = auth ++ reply

/-- No more bytes can make these the answers of a proxy that has established the tunnel. -/
def Deviates (bytes : Bytes) : Prop :=
  ∀ more, ¬ Established (bytes ++ more)

/-- The method was selected, and where the proxy wanted it, the password was accepted. -/
def Authenticated (bytes : Bytes) : Prop :=
  ∃ auth, Authentication auth ∧ auth <+: bytes

/-- A packet from before the request. -/
def Negotiates (packet : Bytes) : Prop :=
  packet.length ≤ 4 ∨ packet.head? = some 0x01

/-- A complete reply to the request, by the length that the client expects. -/
def CompleteReply (reply : Bytes) : Prop :=
  ∃ more, moreBytes reply = some more ∧ reply.length = 5 + more

/-- A reply of two bytes. -/
def TwoBytes (_payload : Bytes) (packet_length : Nat) : Prop := packet_length = 2

/-- The reply to the request; its length after its fifth byte has been evaluated. -/
def RequestReply (payload : Bytes) (packet_length : Nat) : Prop :=
  packet_length = 5 ∨
    ∃ more, moreBytes payload = some more ∧ 5 ≤ payload.length ∧ packet_length = 5 + more

/-- The client reads a reply that follows `done`, or it has freed the memory for it. -/
inductive Awaits (done : Bytes) (Expects : Bytes → Nat → Prop) (aClient : Socks5Client) : Prop
  | reading (payload : Bytes)
      (hpayload : aClient.in_packet.payload = some payload)
      (hconsumed : aClient.consumed = done ++ payload)
      (hlength : payload.length + aClient.in_packet.to_process = aClient.in_packet.packet_length)
      (hexpects : Expects payload aClient.in_packet.packet_length)
  | freed
      (hpayload : aClient.in_packet.payload = none)
      (hprocess : aClient.in_packet.to_process = 0)

/-- What each state says of the bytes that were read. -/
inductive Handshake (aClient : Socks5Client) : Prop
  | start
      (hstate : aClient.state = .socks5_start)
      (hawaits : Awaits [] TwoBytes aClient)
  | userpass_reply
      (hstate : aClient.state = .socks5_userpass_reply)
      (hawaits : Awaits [5, 2] TwoBytes aClient)
  | request {auth : Bytes}
      (hauth : Authentication auth)
      (hstate : aClient.state = .socks5_request)
      (hawaits : Awaits auth RequestReply aClient)
  | new {auth reply : Bytes}
      (hauth : Authentication auth)
      (hstate : aClient.state = .new)
      (hsuccess : [5, 0] <+: reply)
      (hcomplete : CompleteReply reply)
      (hconsumed : aClient.consumed = auth ++ reply)
  | stopped
      (hstate : aClient.state = .socks5_new ∨ aClient.state = .socks5_auth_ok ∨
        aClient.state = .error)

/-- What holds all along an attempt that reads from `stream`. -/
structure Attempt (stream : Bytes) (aClient : Socks5Client) : Prop where
  read : aClient.consumed ++ aClient.unread = stream
  handshake : Handshake aClient
  queued : (∀ packet ∈ aClient.queued, Negotiates packet) ∨ Authenticated aClient.consumed

/-! ### Reading a reply -/

theorem TwoBytes.append
    {payload : Bytes} {n : Nat}
    (h : TwoBytes payload n) (data : Bytes) :
    TwoBytes (payload ++ data) n :=
  h

theorem RequestReply.append
    {payload : Bytes} {n : Nat}
    (h : RequestReply payload n) (data : Bytes) :
    RequestReply (payload ++ data) n := by
  rcases h with h | ⟨more, hmore, hlength, hn⟩
  · exact Or.inl h
  · refine Or.inr ⟨more, ?_, ?_, hn⟩
    · rw [moreBytes_append hlength, hmore]
    · rw [List.length_append]
      omega

theorem Awaits.begin
    {done : Bytes} {Expects : Bytes → Nat → Prop} {aClient : Socks5Client} {n : Nat}
    (hpacket : aClient.in_packet = awaitReply n)
    (hconsumed : aClient.consumed = done)
    (hexpects : Expects [] n) :
    Awaits done Expects aClient := by
  refine Awaits.reading [] ?_ ?_ ?_ ?_
  · rw [hpacket, awaitReply]
  · rw [hconsumed, List.append_nil]
  · rw [hpacket, awaitReply, List.length_nil, Nat.zero_add]
  · rw [hpacket]
    exact hexpects

section Reading

variable {done : Bytes} {Expects : Bytes → Nat → Prop} {aClient : Socks5Client}

theorem Awaits.received
    (hstable : ∀ payload n data, Expects payload n → Expects (payload ++ data) n)
    (h : Awaits done Expects aClient) {data : Bytes}
    (hlength : data.length ≤ aClient.in_packet.to_process) :
    Awaits done Expects (Socks5.received aClient data) := by
  cases h with
  | reading payload hpayload hconsumed hpacket hexpects =>
      refine Awaits.reading (payload ++ data) ?_ ?_ ?_ ?_
      · simp only [Socks5.received, hpayload, Option.map_some]
      · simp only [Socks5.received, hconsumed, List.append_assoc]
      · simp only [Socks5.received, List.length_append]
        omega
      · exact hstable _ _ _ hexpects
  | freed hpayload hprocess =>
      refine Awaits.freed ?_ ?_
      · simp only [Socks5.received, hpayload, Option.map_none]
      · simp only [Socks5.received, hprocess, Nat.zero_sub]

theorem Awaits.cleanup
    (done : Bytes) (Expects : Bytes → Nat → Prop) (aClient : Socks5Client) :
    Awaits done Expects (Socks5.cleanup aClient) :=
  Awaits.freed rfl rfl

/-- What a reply is that was read to its expected length. -/
theorem Awaits.complete
    (hstable : ∀ payload n data, Expects payload n → Expects (payload ++ data) n)
    (h : Awaits done Expects aClient) {payload data : Bytes}
    (hpayload : aClient.in_packet.payload = some payload)
    (hlength : data.length = aClient.in_packet.to_process) :
    aClient.consumed ++ data = done ++ (payload ++ data) ∧
      (payload ++ data).length = aClient.in_packet.packet_length ∧
      Expects (payload ++ data) aClient.in_packet.packet_length := by
  cases h with
  | reading payload' hpayload' hconsumed hpacket hexpects =>
      obtain rfl : payload' = payload := Option.some.inj (hpayload'.symm.trans hpayload)
      refine ⟨?_, ?_, hstable _ _ _ hexpects⟩
      · rw [hconsumed, List.append_assoc]
      · rw [List.length_append]
        omega
  | freed hpayload' hprocess =>
      rw [hpayload'] at hpayload
      cases hpayload

end Reading

/-- Two bytes, by their values. -/
theorem eq_pair_of_length
    {payload : Bytes}
    (hlength : payload.length = 2) :
    payload = [payload.getD 0 0, payload.getD 1 0] := by
  obtain ⟨a, b, rfl⟩ := List.length_eq_two.mp hlength
  rfl

theorem methodsPacket_negotiates
    (aClient : Socks5Client) :
    Negotiates (methodsPacket aClient) := by
  rw [methodsPacket]
  split_ifs
  · exact Or.inl (by decide)
  · exact Or.inl (by decide)

theorem userpassPacket_negotiates
    (username password : Bytes) :
    Negotiates (userpassPacket username password) :=
  Or.inr rfl

/-- The request is not one of the packets from before it. -/
theorem connectPacket_not_negotiates
    {inet_pton : InetPton} {serverURI packet : Bytes}
    (hpacket : connectPacket inet_pton serverURI = some packet) :
    ¬ Negotiates packet := by
  have hlong : ∀ atyp addr, ¬ Negotiates ([0x05, 0x01, 0x00, atyp] ++ addr ++ port) := by
    rintro atyp addr (hshort | hone)
    · rw [List.length_append, List.length_append] at hshort
      have : port.length = 2 := rfl
      simp only [List.length_cons, List.length_nil] at hshort
      omega
    · simp at hone
  rw [connectPacket] at hpacket
  split at hpacket
  · obtain rfl := Option.some.inj hpacket
    exact hlong _ _
  · obtain rfl := Option.some.inj hpacket
    exact hlong _ _
  · split_ifs at hpacket
    obtain rfl := Option.some.inj hpacket
    exact hlong _ (_ :: serverURI)

/-! ### The steps -/

theorem Authenticated.append
    {bytes : Bytes}
    (h : Authenticated bytes) (data : Bytes) :
    Authenticated (bytes ++ data) := by
  obtain ⟨auth, hauth, hbegins⟩ := h
  exact ⟨auth, hauth, hbegins.trans (List.prefix_append bytes data)⟩

/-- What was read stays what the stream begins with. -/
theorem Attempt.received
    {stream : Bytes} {aClient : Socks5Client}
    (h : Attempt stream aClient) {data : Bytes}
    (hread : data <+: aClient.unread)
    (hhandshake : Handshake (Socks5.received aClient data)) :
    Attempt stream (Socks5.received aClient data) := by
  refine ⟨?_, hhandshake, ?_⟩
  · rw [List.prefix_iff_eq_append] at hread
    rw [← h.read]
    simp only [Socks5.received, List.append_assoc, hread]
  · rcases h.queued with hqueued | hauth
    · exact Or.inl hqueued
    · exact Or.inr (hauth.append data)

/-- Freeing the memory, and what else changes neither the bytes nor the queue. -/
theorem Attempt.keep
    {stream : Bytes} {aClient aClient' : Socks5Client}
    (h : Attempt stream aClient)
    (hconsumed : aClient'.consumed = aClient.consumed)
    (hunread : aClient'.unread = aClient.unread)
    (hqueued : aClient'.queued = aClient.queued)
    (hhandshake : Handshake aClient') :
    Attempt stream aClient' := by
  refine ⟨?_, hhandshake, ?_⟩
  · rw [hconsumed, hunread, h.read]
  · rw [hconsumed, hqueued]
    exact h.queued

/-- A client that has read a reply to its expected length. -/
structure Answered (stream done : Bytes) (Expects : Bytes → Nat → Prop) (state : Socks5State)
    (aClient : Socks5Client) (payload : Bytes) : Prop where
  attempt : Attempt stream aClient
  state_eq : aClient.state = state
  consumed : aClient.consumed = done ++ payload
  memory : aClient.in_packet.payload = some payload
  process : aClient.in_packet.to_process = 0
  length : payload.length = aClient.in_packet.packet_length
  expects : Expects payload aClient.in_packet.packet_length

/-- A call of `socks5__read` that waits for a reply, by what follows from the complete reply. -/
theorem readReply_attempt
    {stream done : Bytes} {Expects : Bytes → Nat → Prop} {aClient aClient' : Socks5Client}
    {recvs : List RecvAnswer} {rc : Int}
    {evaluate : Socks5Client → Bytes → Option (Int × Socks5Client)}
    (h : Attempt stream aClient)
    (hawaits : Awaits done Expects aClient)
    (hstable : ∀ payload n data, Expects payload n → Expects (payload ++ data) n)
    (hwaiting : ∀ u : Socks5Client, u.state = aClient.state → Awaits done Expects u → Handshake u)
    (hevaluate : ∀ u payload, Answered stream done Expects aClient.state u payload →
      evaluate u payload = some (rc, aClient') → Attempt stream aClient')
    (hstep : readReply recvs aClient evaluate = some (rc, aClient')) :
    Attempt stream aClient' := by
  obtain ⟨data, hread, hlength, hresult⟩ := readReply_cases hstep
  have hmore : Attempt stream (received aClient data) :=
    h.received hread (hwaiting _ rfl (hawaits.received hstable hlength))
  rcases hresult with rfl | rfl | ⟨payload, hpayload, hall, hresult⟩
  · exact hmore
  · exact hmore.keep rfl rfl rfl (hwaiting _ rfl (Awaits.cleanup done Expects _))
  · obtain ⟨hconsumed, hcomplete, hexpects⟩ := hawaits.complete hstable hpayload hall
    refine hevaluate _ (payload ++ data) ⟨hmore, rfl, hconsumed, ?_, ?_, hcomplete, hexpects⟩
      hresult
    · simp only [received, hpayload, Option.map_some]
    · simp only [received, hall, Nat.sub_self]

/-- The request is only sent after the answers that lead to it. -/
theorem Attempt.request
    {stream auth : Bytes} {aClient aClient' : Socks5Client} {inet_pton : InetPton}
    {sends : List SendAnswer} {rc : Int}
    (hauth : Authentication auth)
    (h : Attempt stream aClient)
    (hconsumed : aClient.consumed = auth)
    (hsend : socks5__send inet_pton sends { aClient with state := .socks5_auth_ok } =
      some (rc, aClient')) :
    Attempt stream aClient' := by
  rcases socks5__send_request hsend with rfl | ⟨packet, out_packet, _, rfl⟩
  · exact h.keep rfl rfl rfl (Handshake.stopped (Or.inr (Or.inl rfl)))
  · refine ⟨h.read, ?_, ?_⟩
    · exact Handshake.request hauth rfl (Awaits.begin rfl hconsumed (Or.inl rfl))
    · refine Or.inr ⟨auth, hauth, ?_⟩
      rw [← hconsumed]

theorem evaluateMethod_attempt
    {stream payload : Bytes} {aClient aClient' : Socks5Client} {inet_pton : InetPton}
    {sends : List SendAnswer} {rc : Int}
    (h : Answered stream [] TwoBytes .socks5_start aClient payload)
    (hstep : evaluateMethod inet_pton sends aClient payload = some (rc, aClient')) :
    Attempt stream aClient' := by
  have hpair := eq_pair_of_length (h.length.trans h.expects)
  have hfreed : Attempt stream (cleanup aClient) :=
    h.attempt.keep rfl rfl rfl (Handshake.start h.state_eq (Awaits.cleanup _ _ _))
  simp only [evaluateMethod] at hstep
  split_ifs at hstep with hversion hnone huserpass
  · obtain ⟨_, rfl⟩ := Prod.mk.inj (Option.some.inj hstep)
    exact hfreed
  · rw [not_not] at hversion
    rw [hversion, hnone] at hpair
    refine Attempt.request (Or.inl rfl) hfreed ?_ hstep
    exact h.consumed.trans hpair
  · rw [not_not] at hversion
    rw [hversion, huserpass] at hpair
    obtain ⟨username, password, out_packet, rfl⟩ := socks5__send_userpass hstep
    refine ⟨hfreed.read, ?_, ?_⟩
    · exact Handshake.userpass_reply rfl
        (Awaits.begin rfl (h.consumed.trans hpair) rfl)
    · rcases hfreed.queued with hqueued | hauth
      · refine Or.inl ?_
        intro packet hpacket
        rcases List.mem_append.mp hpacket with hpacket | hpacket
        · exact hqueued packet hpacket
        · rw [List.mem_singleton.mp hpacket]
          exact userpassPacket_negotiates username password
      · exact Or.inr hauth
  · obtain ⟨_, rfl⟩ := Prod.mk.inj (Option.some.inj hstep)
    exact hfreed

theorem evaluateUserpass_attempt
    {stream payload : Bytes} {aClient aClient' : Socks5Client} {inet_pton : InetPton}
    {sends : List SendAnswer} {rc : Int}
    (h : Answered stream [5, 2] TwoBytes .socks5_userpass_reply aClient payload)
    (hstep : evaluateUserpass inet_pton sends aClient payload = some (rc, aClient')) :
    Attempt stream aClient' := by
  have hpair := eq_pair_of_length (h.length.trans h.expects)
  have hfreed : Attempt stream (cleanup aClient) :=
    h.attempt.keep rfl rfl rfl (Handshake.userpass_reply h.state_eq (Awaits.cleanup _ _ _))
  simp only [evaluateUserpass] at hstep
  split_ifs at hstep with hversion haccepted
  · obtain ⟨_, rfl⟩ := Prod.mk.inj (Option.some.inj hstep)
    exact hfreed
  · rw [not_not] at hversion
    rw [hversion, haccepted] at hpair
    refine Attempt.request (Or.inr rfl) hfreed ?_ hstep
    rw [hpair] at h
    exact h.consumed
  · obtain ⟨_, rfl⟩ := Prod.mk.inj (Option.some.inj hstep)
    exact hfreed

theorem evaluateRequest_attempt
    {stream auth payload : Bytes} {aClient aClient' : Socks5Client} {rc : Int}
    (hauth : Authentication auth)
    (h : Answered stream auth RequestReply .socks5_request aClient payload)
    (hstep : evaluateRequest aClient payload = some (rc, aClient')) :
    Attempt stream aClient' := by
  have hfreed : Attempt stream (cleanup aClient) :=
    h.attempt.keep rfl rfl rfl (Handshake.request hauth h.state_eq (Awaits.cleanup _ _ _))
  simp only [evaluateRequest] at hstep
  split_ifs at hstep with hfive hversion hsuccess
  · -- only the first five bytes
    cases hmore : moreBytes payload with
    | none =>
        rw [hmore] at hstep
        obtain ⟨_, rfl⟩ := Prod.mk.inj (Option.some.inj hstep)
        exact hfreed
    | some more =>
        rw [hmore] at hstep
        obtain ⟨_, rfl⟩ := Prod.mk.inj (Option.some.inj hstep)
        have hpayload : payload.length = 5 := h.length.trans hfive
        refine h.attempt.keep rfl rfl rfl (Handshake.request hauth h.state_eq ?_)
        refine Awaits.reading payload h.memory h.consumed ?_ ?_
        · rw [h.process, hfive, hpayload, Nat.zero_add]
        · refine Or.inr ⟨more, hmore, hpayload.ge, ?_⟩
          rw [hfive]
  · obtain ⟨_, rfl⟩ := Prod.mk.inj (Option.some.inj hstep)
    exact hfreed
  · obtain ⟨_, rfl⟩ := Prod.mk.inj (Option.some.inj hstep)
    rw [not_not] at hversion
    obtain hlength | ⟨more, hmore, hlong, hlength⟩ := h.expects
    · exact absurd hlength hfive
    · refine h.attempt.keep rfl rfl rfl (Handshake.new hauth rfl ?_ ?_ h.consumed)
      · obtain ⟨a, b, rest, rfl⟩ : ∃ a b rest, payload = a :: b :: rest := by
          match payload, hlong with
          | a :: b :: rest, _ => exact ⟨a, b, rest, rfl⟩
        obtain rfl : a = 5 := hversion
        obtain rfl : b = 0 := hsuccess
        exact ⟨rest, rfl⟩
      · exact ⟨more, hmore, h.length.trans hlength⟩
  · obtain ⟨_, rfl⟩ := Prod.mk.inj (Option.some.inj hstep)
    exact h.attempt.keep rfl rfl rfl (Handshake.stopped (Or.inl rfl))

/-- Every step keeps what holds of an attempt. -/
theorem Socks5Step.attempt
    {stream : Bytes} {aClient aClient' : Socks5Client} {inet_pton : InetPton} {e : Socks5Event}
    (h : Attempt stream aClient)
    (hstep : Socks5Step inet_pton aClient e aClient') :
    Attempt stream aClient' := by
  cases e with
  | timeout =>
      obtain rfl : aClient' = _ := hstep
      exact h.keep rfl rfl rfl (Handshake.stopped (Or.inr (Or.inr rfl)))
  | read recvs sends =>
      obtain ⟨rc, hread⟩ := hstep
      cases h.handshake with
      | start hstate hawaits =>
          rw [socks5__read, hstate] at hread
          refine readReply_attempt h hawaits (fun _ _ data hn => TwoBytes.append hn data) ?_ ?_ hread
          · intro u hu hawaits'
            exact Handshake.start (hu.trans hstate) hawaits'
          · intro u payload hanswered
            rw [hstate] at hanswered
            exact evaluateMethod_attempt hanswered
      | userpass_reply hstate hawaits =>
          rw [socks5__read, hstate] at hread
          refine readReply_attempt h hawaits (fun _ _ data hn => TwoBytes.append hn data) ?_ ?_ hread
          · intro u hu hawaits'
            exact Handshake.userpass_reply (hu.trans hstate) hawaits'
          · intro u payload hanswered
            rw [hstate] at hanswered
            exact evaluateUserpass_attempt hanswered
      | request hauth hstate hawaits =>
          rw [socks5__read, hstate] at hread
          refine readReply_attempt h hawaits (fun _ _ data hn => RequestReply.append hn data) ?_ ?_
            hread
          · intro u hu hawaits'
            exact Handshake.request hauth (hu.trans hstate) hawaits'
          · intro u payload hanswered
            rw [hstate] at hanswered
            exact evaluateRequest_attempt hauth hanswered
      | new hauth hstate hsuccess hcomplete hconsumed =>
          rw [socks5__read, hstate] at hread
          obtain ⟨_, rfl⟩ := Prod.mk.inj (Option.some.inj hread)
          exact h
      | stopped hstate =>
          rcases hstate with hstate | hstate | hstate
          all_goals
            rw [socks5__read, hstate] at hread
            obtain ⟨_, rfl⟩ := Prod.mk.inj (Option.some.inj hread)
            exact h

/-- An attempt begins with the methods that the client offers. -/
theorem proxyConnect_attempt
    {stream : Bytes} {aClient aClient' : Socks5Client} {inet_pton : InetPton}
    {sends : List SendAnswer} {rc : Int}
    (hidle : Idle aClient stream)
    (hconnect : proxyConnect inet_pton sends aClient = some (rc, aClient')) :
    Attempt stream aClient' := by
  obtain ⟨out_packet, rfl⟩ := proxyConnect_eq hconnect
  refine ⟨?_, ?_, ?_⟩
  · rw [hidle.consumed, hidle.unread, List.nil_append]
  · exact Handshake.start rfl (Awaits.begin rfl hidle.consumed rfl)
  · refine Or.inl ?_
    intro packet hpacket
    rw [hidle.queued] at hpacket
    rw [List.mem_singleton.mp hpacket]
    exact methodsPacket_negotiates aClient

/-! ### Attempts that are evaluated -/

/-- A client without a user name, before its first attempt. -/
def idleClient (serverURI stream : Bytes) : Socks5Client :=
  ⟨.socks5_new, none, none, serverURI, ⟨none, 0, 0⟩, [], [], [], stream⟩

/-- Calls of `socks5__read` that get an answer in parts. -/
def chunkedReads : List Socks5Event :=
  [.read [.bytes 1, .error EWOULDBLOCK] [], .read [.bytes 9] [.bytes 99],
    .read [.bytes 2, .bytes 9] [], .read [.bytes 3, .bytes 9] []]

/-- The client after some events. -/
def afterEvents (inet_pton : InetPton) (aClient : Socks5Client) (events : List Socks5Event) :
    Option Socks5Client :=
  events.foldlM (fun aClient e =>
    match e with
    | .read recvs sends => (socks5__read inet_pton recvs sends aClient).map Prod.snd
    | .timeout => some { aClient with state := .error }) aClient

theorem runs_of_afterEvents
    {inet_pton : InetPton} {events : List Socks5Event} {aClient aClient' : Socks5Client}
    (h : afterEvents inet_pton aClient events = some aClient') :
    ∃ tr, Runs (Socks5Step inet_pton) aClient tr aClient' := by
  induction events generalizing aClient with
  | nil =>
      obtain rfl := Option.some.inj h
      exact ⟨[], Runs.nil aClient⟩
  | cons e events ih =>
      rw [afterEvents, List.foldlM_cons, Option.bind_eq_bind, Option.bind_eq_some_iff] at h
      obtain ⟨u, hstep, hrest⟩ := h
      obtain ⟨tr, hrun⟩ := ih hrest
      refine ⟨⟨aClient, e, u⟩ :: tr, Runs.cons ?_ hrun⟩
      cases e with
      | timeout =>
          exact (Option.some.inj hstep).symm
      | read recvs sends =>
          obtain ⟨⟨rc, v⟩, hread, rfl⟩ := Option.map_eq_some_iff.mp hstep
          exact ⟨rc, hread⟩

/-- An attempt, from its evaluation. -/
theorem exists_attempt
    {inet_pton : InetPton} {sends : List SendAnswer} {aClient : Socks5Client}
    (events : List Socks5Event) {state : Socks5State} {consumed unread : Bytes}
    (h : ((proxyConnect inet_pton sends aClient).bind
        (fun result => afterEvents inet_pton result.2 events)).map
          (fun aClient' => (aClient'.state, aClient'.consumed, aClient'.unread)) =
      some (state, consumed, unread)) :
    ∃ rc aClient₀ tr aClient',
      proxyConnect inet_pton sends aClient = some (rc, aClient₀) ∧
        Runs (Socks5Step inet_pton) aClient₀ tr aClient' ∧
        aClient'.state = state ∧ aClient'.consumed = consumed ∧ aClient'.unread = unread := by
  obtain ⟨aClient', hattempt, hresult⟩ := Option.map_eq_some_iff.mp h
  obtain ⟨⟨rc, aClient₀⟩, hconnect, hevents⟩ := Option.bind_eq_some_iff.mp hattempt
  obtain ⟨tr, hrun⟩ := runs_of_afterEvents hevents
  simp only [Prod.mk.injEq] at hresult
  exact ⟨rc, aClient₀, tr, aClient', hconnect, hrun, hresult⟩

/-! ### The answers before the tunnel -/

theorem Established.append
    {bytes : Bytes}
    (h : Established bytes) (data : Bytes) :
    Established (bytes ++ data) := by
  obtain ⟨auth, reply, hauth, hsuccess, rfl⟩ := h
  refine ⟨auth, reply ++ data, hauth, ?_, List.append_assoc auth reply data⟩
  exact hsuccess.trans (List.prefix_append reply data)

/-- In the last state, the proxy has established the tunnel. -/
theorem Attempt.established
    {stream : Bytes} {aClient : Socks5Client}
    (h : Attempt stream aClient)
    (hnew : aClient.state = .new) :
    ∃ auth reply, Authentication auth ∧ [5, 0] <+: reply ∧ CompleteReply reply ∧
      aClient.consumed = auth ++ reply := by
  cases h.handshake with
  | new hauth hstate hsuccess hcomplete hconsumed =>
      exact ⟨_, _, hauth, hsuccess, hcomplete, hconsumed⟩
  | start hstate hawaits =>
      simp [hstate] at hnew
  | userpass_reply hstate hawaits =>
      simp [hstate] at hnew
  | request hauth hstate hawaits =>
      simp [hstate] at hnew
  | stopped hstate =>
      simp [hnew] at hstate

section Attempts

variable {inet_pton : InetPton} {sends : List SendAnswer} {aClient aClient₀ aClient' : Socks5Client}
variable {stream : Bytes} {rc : Int} {tr : List (Transition Socks5Client Socks5Event)}

theorem attempts
    (hidle : Idle aClient stream)
    (hconnect : proxyConnect inet_pton sends aClient = some (rc, aClient₀))
    (hrun : Runs (Socks5Step inet_pton) aClient₀ tr aClient') :
    (∀ x ∈ tr, Attempt stream x.pre ∧ Attempt stream x.post) ∧ Attempt stream aClient' :=
  hrun.invariant (fun _ _ _ h hstep => hstep.attempt h) (proxyConnect_attempt hidle hconnect)

/--
In every state that an attempt reaches: the tunnel is established only after the
answers that establish it, and after no others; the request was put in the queue
only after the answers that lead to it.
-/
theorem tunnel_through_protocol
    (hidle : Idle aClient stream)
    (hconnect : proxyConnect inet_pton sends aClient = some (rc, aClient₀))
    (hrun : Runs (Socks5Step inet_pton) aClient₀ tr aClient') :
    aClient'.consumed ++ aClient'.unread = stream ∧
      (aClient'.state = .new → Established aClient'.consumed) ∧
      (∀ x ∈ tr, Deviates x.pre.consumed → aClient'.state ≠ .new) ∧
      ∀ packet ∈ aClient'.queued, connectPacket inet_pton aClient'.serverURI = some packet →
        Authenticated aClient'.consumed := by
  obtain ⟨hsteps, hend⟩ := attempts hidle hconnect hrun
  have hnew (h : aClient'.state = .new) : Established aClient'.consumed := by
    obtain ⟨auth, reply, hauth, hsuccess, _, hconsumed⟩ := hend.established h
    exact ⟨auth, reply, hauth, hsuccess, hconsumed⟩
  refine ⟨hend.read, hnew, ?_, ?_⟩
  · -- both states have read from one stream
    intro x hx hdeviates h
    refine hdeviates x.pre.unread ?_
    rw [(hsteps x hx).1.read, ← hend.read]
    exact (hnew h).append aClient'.unread
  · intro packet hqueued hpacket
    rcases hend.queued with hnegotiates | hauth
    · exact absurd (hnegotiates packet hqueued) (connectPacket_not_negotiates hpacket)
    · exact hauth

end Attempts

theorem tunnel_through_protocol_address :
    ∃ tr aClient₀ aClient', Runs (Socks5Step hostNames) aClient₀ tr aClient' ∧
      aClient'.state = .new ∧ Established aClient'.consumed ∧
      (∀ packet ∈ aClient'.queued,
        connectPacket hostNames aClient'.serverURI = some packet →
          Authenticated aClient'.consumed) := by
  obtain ⟨rc, aClient₀, tr, aClient', hconnect, hrun, hnew, _, _⟩ :
      ∃ rc aClient₀ tr aClient',
        proxyConnect hostNames [.bytes 2]
            (idleClient [98, 58, 49] [5, 0, 5, 0, 0, 1, 10, 0, 0, 1, 4, 56, 32, 2, 0, 0]) =
          some (rc, aClient₀) ∧
        Runs (Socks5Step hostNames) aClient₀ tr aClient' ∧ aClient'.state = .new ∧
          aClient'.consumed = [5, 0, 5, 0, 0, 1, 10, 0, 0, 1, 4, 56] ∧
          aClient'.unread = [32, 2, 0, 0] :=
    exists_attempt chunkedReads (by decide)
  have hsound := tunnel_through_protocol ⟨rfl, rfl, rfl⟩ hconnect hrun
  exact ⟨tr, aClient₀, aClient', hrun, hnew, hsound.2.1 hnew, hsound.2.2.2⟩

/-! ### Conforming replies -/

/-- The address that a proxy has bound. -/
inductive BoundAddress where
  | ipv4 (address : Vector UInt8 4)
  | domain (name : Bytes) (hname : 1 ≤ name.length ∧ name.length ≤ 255)
  | ipv6 (address : Vector UInt8 16)

def BoundAddress.bytes : BoundAddress → Bytes
  | .ipv4 address => SOCKS_ATYPE_IP_V4 :: address.toList
  | .domain name _ => SOCKS_ATYPE_DOMAINNAME :: UInt8.ofNat name.length :: name
  | .ipv6 address => SOCKS_ATYPE_IP_V6 :: address.toList

def BoundAddress.isDomain : BoundAddress → Bool
  | .domain _ _ => true
  | _ => false

/-- The replies of a proxy that accepts everything. -/
structure ProxyReplies where
  userpass : Bool
  bound : BoundAddress
  port : Vector UInt8 2

namespace ProxyReplies

variable (replies : ProxyReplies)

def authentication : Bytes := if replies.userpass then [5, 2, 1, 0] else [5, 0]

def reply : Bytes := [5, 0, 0] ++ replies.bound.bytes ++ replies.port.toList

def bytes : Bytes := replies.authentication ++ replies.reply

/-- The length that the client expects is that of the reply, unless there is a domain name. -/
theorem moreBytes_reply (broker : Bytes) :
    ∃ more, moreBytes (replies.reply ++ broker) = some more ∧
      (5 + more = replies.reply.length ↔ replies.bound.isDomain = false) := by
  cases hbound : replies.bound with
  | ipv4 address =>
      refine ⟨5, ?_, ?_⟩
      · simp [reply, hbound, BoundAddress.bytes, moreBytes]
      · simp [reply, hbound, BoundAddress.bytes, BoundAddress.isDomain]
  | domain name hname =>
      refine ⟨name.length, ?_, ?_⟩
      · have hlength : (UInt8.ofNat name.length).toNat = name.length := by
          rw [UInt8.toNat_ofNat']
          omega
        simp [reply, hbound, BoundAddress.bytes, moreBytes, SOCKS_ATYPE_DOMAINNAME,
          SOCKS_ATYPE_IP_V4, SOCKS_ATYPE_IP_V6, hlength]
      · simp [reply, hbound, BoundAddress.bytes, BoundAddress.isDomain]
        omega
  | ipv6 address =>
      refine ⟨17, ?_, ?_⟩
      · simp [reply, hbound, BoundAddress.bytes, moreBytes, SOCKS_ATYPE_IP_V4, SOCKS_ATYPE_IP_V6]
      · simp [reply, hbound, BoundAddress.bytes, BoundAddress.isDomain]

/-- The answers up to the request are determined by the stream. -/
theorem authentication_unique
    {auth rest rest' : Bytes}
    (hauth : Authentication auth)
    (hstream : auth ++ rest = replies.authentication ++ rest') :
    auth = replies.authentication ∧ rest = rest' := by
  rw [authentication] at hstream ⊢
  rcases hauth with rfl | rfl <;> split_ifs at hstream ⊢ with huserpass <;>
    simp_all

end ProxyReplies

/-- The replies of a proxy that has bound an address with four bytes. -/
def addressReplies : ProxyReplies := ⟨false, .ipv4 #v[10, 0, 0, 1], #v[4, 56]⟩

/-- The replies of a proxy that has bound a host by its name. -/
def nameReplies : ProxyReplies := ⟨false, .domain [97] (by decide), #v[4, 56]⟩

section Attempts

variable {inet_pton : InetPton} {sends : List SendAnswer} {aClient aClient₀ aClient' : Socks5Client}
variable {rc : Int} {tr : List (Transition Socks5Client Socks5Event)}

/--
An attempt that gets conforming replies and establishes the tunnel has read these
replies and nothing of what follows, exactly if the proxy has not answered with a
domain name.
-/
theorem replies_consumed_iff
    (replies : ProxyReplies) (broker : Bytes)
    (hidle : Idle aClient (replies.bytes ++ broker))
    (hconnect : proxyConnect inet_pton sends aClient = some (rc, aClient₀))
    (hrun : Runs (Socks5Step inet_pton) aClient₀ tr aClient')
    (hnew : aClient'.state = .new) :
    (aClient'.consumed = replies.bytes ∧ aClient'.unread = broker) ↔
      replies.bound.isDomain = false := by
  have hend := (attempts hidle hconnect hrun).2
  obtain ⟨auth, reply, hauth, _, ⟨more, hmore, hlength⟩, hconsumed⟩ := hend.established hnew
  have hread := hend.read
  rw [hconsumed, ProxyReplies.bytes, List.append_assoc, List.append_assoc] at hread
  obtain ⟨rfl, hreply⟩ := replies.authentication_unique hauth hread
  obtain ⟨more', hmore', hexact⟩ := replies.moreBytes_reply broker
  obtain rfl : more = more' := by
    rw [← hreply, moreBytes_append (by omega), hmore] at hmore'
    exact Option.some.inj hmore'
  rw [← hexact, hconsumed, ProxyReplies.bytes]
  constructor
  · rintro ⟨hbytes, _⟩
    rw [← List.append_cancel_left hbytes, hlength]
  · intro hlong
    obtain ⟨rfl, hunread⟩ := List.append_inj hreply (hlength.trans hlong)
    exact ⟨rfl, hunread⟩

end Attempts

theorem replies_consumed_iff_address :
    ∃ tr aClient₀ aClient', Runs (Socks5Step hostNames) aClient₀ tr aClient' ∧
      aClient'.state = .new ∧ aClient'.consumed = addressReplies.bytes ∧
      aClient'.unread = [32, 2, 0, 0] := by
  obtain ⟨rc, aClient₀, tr, aClient', hconnect, hrun, hnew, _, _⟩ :
      ∃ rc aClient₀ tr aClient',
        proxyConnect hostNames [.bytes 2]
            (idleClient [98, 58, 49] (addressReplies.bytes ++ [32, 2, 0, 0])) =
          some (rc, aClient₀) ∧
        Runs (Socks5Step hostNames) aClient₀ tr aClient' ∧ aClient'.state = .new ∧
          aClient'.consumed = addressReplies.bytes ∧ aClient'.unread = [32, 2, 0, 0] :=
    exists_attempt chunkedReads (by decide)
  have hexact := (replies_consumed_iff addressReplies [32, 2, 0, 0] ⟨rfl, rfl, rfl⟩ hconnect hrun
    hnew).mpr rfl
  exact ⟨tr, aClient₀, aClient', hrun, hnew, hexact⟩

/-- After a domain name, the port is left to be read as if the broker had sent it. -/
theorem port_left_after_name :
    ∃ tr aClient₀ aClient' rc,
      proxyConnect hostNames [] (idleClient [98] (nameReplies.bytes ++ [32, 2, 0, 0])) =
          some (rc, aClient₀) ∧
        Runs (Socks5Step hostNames) aClient₀ tr aClient' ∧ aClient'.state = .new ∧
        aClient'.consumed ≠ nameReplies.bytes ∧ aClient'.unread = [4, 56, 32, 2, 0, 0] := by
  obtain ⟨rc, aClient₀, tr, aClient', hconnect, hrun, hnew, hconsumed, hunread⟩ :
      ∃ rc aClient₀ tr aClient',
        proxyConnect hostNames [] (idleClient [98] (nameReplies.bytes ++ [32, 2, 0, 0])) =
          some (rc, aClient₀) ∧
        Runs (Socks5Step hostNames) aClient₀ tr aClient' ∧ aClient'.state = .new ∧
          aClient'.consumed = [5, 0, 5, 0, 0, 3, 1, 97] ∧
          aClient'.unread = [4, 56, 32, 2, 0, 0] :=
    exists_attempt chunkedReads (by decide)
  refine ⟨tr, aClient₀, aClient', rc, hconnect, hrun, hnew, ?_, hunread⟩
  rw [hconsumed]
  decide

end Socks5
end PahoMqtt
