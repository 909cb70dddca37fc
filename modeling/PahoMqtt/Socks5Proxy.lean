import PahoMqtt.WebSocketReceive

/-!
# The handshake with a SOCKS5 proxy

`socks5__send` and `socks5__read` go through the states of a connection attempt: a
choice of methods, a user name with a password where the proxy wants it, and the
request for a connection.  A reply is read into `in_packet`, over any number of
calls; its memory is freed when the reply was evaluated or the socket failed.
Where that memory is used again although there is none, the run ends.
-/

set_option linter.style.nameCheck false

namespace PahoMqtt

/-- `pahomqtt_client_socks5_state`, without the states that the handshake does not use. -/
inductive Socks5State where
  /-- The tunnel is established. -/
  | new
  | socks5_new
  | socks5_start
  | socks5_request
  | socks5_auth_ok
  | socks5_userpass_reply
  | socks5_send_userpass
  | error
deriving DecidableEq

/-- `in_packet`; `payload` has the bytes that were read, and `pos` is their number. -/
structure InPacket where
  payload : Option Bytes
  to_process : Nat
  packet_length : Nat
deriving DecidableEq

/-- What the handshake works on of a client; the bytes of the proxy are read from `unread`. -/
structure Socks5Client where
  state : Socks5State
  socks5_username : Option Bytes
  socks5_password : Option Bytes
  serverURI : Bytes
  in_packet : InPacket
  /-- What is still to be sent of the packets in the queue. -/
  out_packet : List Bytes
  /-- All packets that were put in the queue. -/
  queued : List Bytes
  /-- All bytes that were read. -/
  consumed : Bytes
  unread : Bytes
deriving DecidableEq

/-- An answer of `recv`; at most `n` bytes, or the `errno` for a result that is not positive. -/
inductive RecvAnswer where
  | bytes (n : Nat)
  | error (errno : Int)
deriving DecidableEq

/-- An answer of `send`; one byte more than `n`, or all there are. -/
inductive SendAnswer where
  | bytes (n : Nat)
  | error (errno : Int)
deriving DecidableEq

/-- `inet_pton` for both kinds of addresses. -/
structure InetPton where
  inet : Bytes → Option (Vector UInt8 4)
  inet6 : Bytes → Option (Vector UInt8 16)

namespace Socks5

def ERR_SUCCESS : Int := 0

def ERR_NOMEM : Int := 1

def ERR_PROTOCOL : Int := 2

def ERR_INVAL : Int := 3

def ERR_NO_CONN : Int := 4

def ERR_CONN_LOST : Int := 7

def ERR_AUTH : Int := 11

def ERR_ERRNO : Int := 14

def ERR_PROXY : Int := 16

def ERR_NOT_FINISHED : Int := 32

def EINTR : Int := 4

def ECONNRESET : Int := 104

def ENOTCONN : Int := 107

def SOCKS_AUTH_NONE : UInt8 := 0x00

def SOCKS_AUTH_USERPASS : UInt8 := 0x02

def SOCKS_ATYPE_IP_V4 : UInt8 := 1

def SOCKS_ATYPE_DOMAINNAME : UInt8 := 3

def SOCKS_ATYPE_IP_V6 : UInt8 := 4

/-- `inet_pton` for texts that are not addresses. -/
def hostNames : InetPton := ⟨fun _ => none, fun _ => none⟩

/-! ### Sending -/

/-- What `packet__write` returns for an error of the socket. -/
def writeError (errno : Int) : Int :=
  if errno = EWOULDBLOCK ∨ errno = ENOTCONN then ERR_SUCCESS
  else if errno = ECONNRESET then ERR_CONN_LOST
  else if errno = EINTR then ERR_SUCCESS
  else ERR_ERRNO

/-- `packet__write`; no packet is empty, and without an answer the socket would block. -/
def packet__write : List SendAnswer → List Bytes → Int × List Bytes
  | _, [] => (ERR_SUCCESS, [])
  | [], packets => (ERR_SUCCESS, packets)
  | .error errno :: _, packets => (writeError errno, packets)
  | .bytes n :: answers, packet :: packets =>
      if packet.length ≤ n + 1 then packet__write answers packets
      else packet__write answers (packet.drop (n + 1) :: packets)

/-- `packet__queue` -/
def packet__queue (sends : List SendAnswer) (aClient : Socks5Client) (packet : Bytes) :
    Int × Socks5Client :=
  let (rc, out_packet) := packet__write sends (aClient.out_packet ++ [packet])
  (rc, { aClient with out_packet, queued := aClient.queued ++ [packet] })

/-- The methods that the client offers. -/
def methodsPacket (aClient : Socks5Client) : Bytes :=
  if aClient.socks5_username.isSome then [0x05, 2, SOCKS_AUTH_NONE, SOCKS_AUTH_USERPASS]
  else [0x05, 1, SOCKS_AUTH_NONE]

/-- The user name and the password; their lengths are cut off to a byte. -/
def userpassPacket (username password : Bytes) : Bytes :=
  let ulen := username.length % 256
  let plen := password.length % 256
  [0x01, UInt8.ofNat ulen] ++ username.take ulen ++ [UInt8.ofNat plen] ++ password.take plen

/-- The port of all requests. -/
def port : Bytes := MQTTPacket.writeInt 1883

/-- The request for a connection, if the name of the server is not too long. -/
def connectPacket (inet_pton : InetPton) (serverURI : Bytes) : Option Bytes :=
  match inet_pton.inet serverURI, inet_pton.inet6 serverURI with
  | some addr_ipv4, _ =>
      some ([0x05, 0x01, 0x00, SOCKS_ATYPE_IP_V4] ++ addr_ipv4.toList ++ port)
  | none, some addr_ipv6 =>
      some ([0x05, 0x01, 0x00, SOCKS_ATYPE_IP_V6] ++ addr_ipv6.toList ++ port)
  | none, none =>
      if serverURI.length > 255 then none
      else
        some ([0x05, 0x01, 0x00, SOCKS_ATYPE_DOMAINNAME, UInt8.ofNat serverURI.length] ++
          serverURI ++ port)

/-- Memory for a reply. -/
def awaitReply (packet_length : Nat) : InPacket := ⟨some [], packet_length, packet_length⟩

/-- `socks5__send`; none where there is no user name or password to send. -/
def socks5__send (inet_pton : InetPton) (sends : List SendAnswer) (aClient : Socks5Client) :
    Option (Int × Socks5Client) :=
  match aClient.state with
  | .socks5_new =>
      let packet := methodsPacket aClient
      some (packet__queue sends
        { aClient with state := .socks5_start, in_packet := awaitReply 2 } packet)
  | .socks5_auth_ok =>
      match connectPacket inet_pton aClient.serverURI with
      | none => some (ERR_NOMEM, aClient)
      | some packet =>
          some (packet__queue sends
            { aClient with state := .socks5_request, in_packet := awaitReply 5 } packet)
  | .socks5_send_userpass =>
      match aClient.socks5_username, aClient.socks5_password with
      | some username, some password =>
          some (packet__queue sends
            { aClient with state := .socks5_userpass_reply, in_packet := awaitReply 2 }
            (userpassPacket username password))
      | _, _ => none
  | _ => some (ERR_SUCCESS, aClient)

/-! ### Receiving -/

/-- `packet__cleanup` of `in_packet`; the length of the packet stays. -/
def cleanup (aClient : Socks5Client) : Socks5Client :=
  { aClient with in_packet := { aClient.in_packet with payload := none, to_process := 0 } }

/-- What `socks5__read` returns when the socket failed. -/
def readError (errno : Int) : Int :=
  if errno = 0 then ERR_PROXY else if errno = ECONNRESET then ERR_CONN_LOST else ERR_ERRNO

/-- How the loop that reads `in_packet` ends. -/
inductive Filling where
  | filled (aClient : Socks5Client)
  | returned (rc : Int) (aClient : Socks5Client)
  /-- There is no memory to read to. -/
  | missing
deriving DecidableEq

/-- The loop that reads `in_packet`; without an answer the socket would block. -/
def fill : List RecvAnswer → Socks5Client → Filling
  | [], aClient =>
      if aClient.in_packet.to_process = 0 then .filled aClient else .returned ERR_SUCCESS aClient
  | answer :: answers, aClient =>
      if aClient.in_packet.to_process = 0 then .filled aClient
      else
        match answer with
        | .error errno =>
            if errno = EWOULDBLOCK then .returned ERR_SUCCESS aClient
            else .returned (readError errno) (cleanup aClient)
        | .bytes n =>
            let data := aClient.unread.take (min n aClient.in_packet.to_process)
            if data = [] then .returned ERR_SUCCESS aClient
            else
              match aClient.in_packet.payload with
              | none => .missing
              | some payload =>
                  fill answers
                    { aClient with
                      in_packet :=
                        { aClient.in_packet with
                          payload := some (payload ++ data)
                          to_process := aClient.in_packet.to_process - data.length }
                      consumed := aClient.consumed ++ data
                      unread := aClient.unread.drop data.length }

/-- The part of `socks5__read` that all three replies have in common. -/
def readReply (recvs : List RecvAnswer) (aClient : Socks5Client)
    (evaluate : Socks5Client → Bytes → Option (Int × Socks5Client)) :
    Option (Int × Socks5Client) :=
  match fill recvs aClient with
  | .missing => none
  | .returned rc aClient => some (rc, aClient)
  | .filled aClient =>
      match aClient.in_packet.payload with
      | none => none
      | some payload => evaluate aClient payload

/-- The selection of a method. -/
def evaluateMethod (inet_pton : InetPton) (sends : List SendAnswer) (aClient : Socks5Client)
    (payload : Bytes) : Option (Int × Socks5Client) :=
  let aClient := cleanup aClient
  if payload.getD 0 0 ≠ 5 then some (ERR_PROXY, aClient)
  else if payload.getD 1 0 = SOCKS_AUTH_NONE then
    socks5__send inet_pton sends { aClient with state := .socks5_auth_ok }
  else if payload.getD 1 0 = SOCKS_AUTH_USERPASS then
    socks5__send inet_pton sends { aClient with state := .socks5_send_userpass }
  else some (ERR_AUTH, aClient)

/-- The return code for a reply that is not 0. -/
def replyError (i : UInt8) : Int :=
  if i = 2 then ERR_AUTH
  else if i = 3 ∨ i = 4 ∨ i = 5 then ERR_NO_CONN
  else if i = 1 ∨ i = 6 ∨ i = 7 ∨ i = 8 then ERR_PROXY
  else ERR_INVAL

/-- The reply to the user name and the password. -/
def evaluateUserpass (inet_pton : InetPton) (sends : List SendAnswer) (aClient : Socks5Client)
    (payload : Bytes) : Option (Int × Socks5Client) :=
  let aClient := cleanup aClient
  if payload.getD 0 0 ≠ 1 then some (ERR_PROXY, aClient)
  else if payload.getD 1 0 = 0 then
    socks5__send inet_pton sends { aClient with state := .socks5_auth_ok }
  else some (replyError (payload.getD 1 0), aClient)

/-- How many bytes are added to the five of the reply to a request, by the type of the address. -/
def moreBytes (payload : Bytes) : Option Nat :=
  if payload.getD 3 0 = SOCKS_ATYPE_IP_V4 then some (4 + 2 - 1)
  else if payload.getD 3 0 = SOCKS_ATYPE_IP_V6 then some (16 + 2 - 1)
  else if payload.getD 3 0 = SOCKS_ATYPE_DOMAINNAME then some (payload.getD 4 0).toNat
  else none

/-- The reply to the request, or its first five bytes. -/
def evaluateRequest (aClient : Socks5Client) (payload : Bytes) : Option (Int × Socks5Client) :=
  if aClient.in_packet.packet_length = 5 then
    match moreBytes payload with
    | none => some (ERR_PROTOCOL, cleanup aClient)
    | some n =>
        some (ERR_NOT_FINISHED,
          { aClient with
            in_packet :=
              { aClient.in_packet with
                to_process := aClient.in_packet.to_process + n
                packet_length := aClient.in_packet.packet_length + n } })
  else
    let aClient := cleanup aClient
    if payload.getD 0 0 ≠ 5 then some (ERR_PROXY, aClient)
    else if payload.getD 1 0 = 0 then some (0, { aClient with state := .new })
    else some (replyError (payload.getD 1 0), { aClient with state := .socks5_new })

/-- `socks5__read`; none where it uses memory that is missing. -/
def socks5__read (inet_pton : InetPton) (recvs : List RecvAnswer) (sends : List SendAnswer)
    (aClient : Socks5Client) : Option (Int × Socks5Client) :=
  match aClient.state with
  | .socks5_start => readReply recvs aClient (evaluateMethod inet_pton sends)
  | .socks5_userpass_reply => readReply recvs aClient (evaluateUserpass inet_pton sends)
  | .socks5_request => readReply recvs aClient evaluateRequest
  | .new => some (0, aClient)
  | _ => some (-1, aClient)

/-! ### An attempt -/

/-- What happens in an attempt: `Socks5_ReadThread` reads, or one of the threads gives up. -/
inductive Socks5Event where
  | read (recvs : List RecvAnswer) (sends : List SendAnswer)
  | timeout
deriving DecidableEq

def Socks5Step (inet_pton : InetPton) (aClient : Socks5Client) (e : Socks5Event)
    (aClient' : Socks5Client) : Prop :=
  match e with
  | .read recvs sends => ∃ rc, socks5__read inet_pton recvs sends aClient = some (rc, aClient')
  | .timeout => aClient' = { aClient with state := .error }

/-- `WebSocket_socks5_proxy_connect`, up to the loop that waits. -/
def proxyConnect (inet_pton : InetPton) (sends : List SendAnswer) (aClient : Socks5Client) :
    Option (Int × Socks5Client) :=
  socks5__send inet_pton sends { aClient with state := .socks5_new }

/-- A client of which nothing was sent to the proxy or read from it yet. -/
structure Idle (aClient : Socks5Client) (stream : Bytes) : Prop where
  queued : aClient.queued = []
  consumed : aClient.consumed = []
  unread : aClient.unread = stream

/-! ### What the operations do -/

/-- A client that has read some bytes. -/
def received (aClient : Socks5Client) (data : Bytes) : Socks5Client :=
  { aClient with
    in_packet :=
      { aClient.in_packet with
        payload := aClient.in_packet.payload.map (fun payload => payload ++ data)
        to_process := aClient.in_packet.to_process - data.length }
    consumed := aClient.consumed ++ data
    unread := aClient.unread.drop data.length }

@[simp] theorem received_nil
    (aClient : Socks5Client) :
    received aClient [] = aClient := by
  simp [received]

theorem received_append
    (aClient : Socks5Client) (data more : Bytes) :
    received (received aClient data) more = received aClient (data ++ more) := by
  simp only [received, Option.map_map, List.append_assoc, List.length_append, List.drop_drop,
    Nat.sub_sub]
  congr 3
  funext payload
  exact List.append_assoc payload data more

/-- The ends of the loop that reads `in_packet`. -/
inductive Fills (aClient : Socks5Client) : Filling → Prop
  | filled {data : Bytes}
      (hread : data <+: aClient.unread)
      (hlength : data.length = aClient.in_packet.to_process) :
      Fills aClient (.filled (received aClient data))
  | blocked {data : Bytes} (rc : Int)
      (hread : data <+: aClient.unread)
      (hlength : data.length ≤ aClient.in_packet.to_process) :
      Fills aClient (.returned rc (received aClient data))
  | failed {data : Bytes} (rc : Int)
      (hread : data <+: aClient.unread)
      (hlength : data.length ≤ aClient.in_packet.to_process) :
      Fills aClient (.returned rc (cleanup (received aClient data)))
  | missing :
      Fills aClient .missing

/-- The loop goes on after some bytes as if it had started there. -/
theorem Fills.after
    {aClient : Socks5Client} {data : Bytes} {result : Filling}
    (h : Fills (received aClient data) result)
    (hread : data <+: aClient.unread)
    (hlength : data.length ≤ aClient.in_packet.to_process) :
    Fills aClient result := by
  have hmore : ∀ {more : Bytes}, more <+: (received aClient data).unread →
      data ++ more <+: aClient.unread := by
    intro more hbegins
    rw [List.prefix_iff_eq_append] at hread
    rw [← hread, List.prefix_append_right_inj]
    exact hbegins
  have hprocess : (received aClient data).in_packet.to_process =
      aClient.in_packet.to_process - data.length := rfl
  cases h with
  | filled hread' hlength' =>
      rw [received_append]
      refine Fills.filled (hmore hread') ?_
      rw [List.length_append]
      omega
  | blocked rc hread' hlength' =>
      rw [received_append]
      refine Fills.blocked rc (hmore hread') ?_
      rw [List.length_append]
      omega
  | failed rc hread' hlength' =>
      rw [received_append]
      refine Fills.failed rc (hmore hread') ?_
      rw [List.length_append]
      omega
  | missing =>
      exact Fills.missing

theorem Fills.done
    {aClient : Socks5Client}
    (hzero : aClient.in_packet.to_process = 0) :
    Fills aClient (.filled aClient) := by
  have h : Fills aClient (.filled (received aClient [])) :=
    Fills.filled List.nil_prefix hzero.symm
  rwa [received_nil] at h

theorem Fills.nothing
    (aClient : Socks5Client) (rc : Int) :
    Fills aClient (.returned rc aClient) := by
  have h : Fills aClient (.returned rc (received aClient [])) :=
    Fills.blocked rc List.nil_prefix (Nat.zero_le _)
  rwa [received_nil] at h

theorem Fills.lost
    (aClient : Socks5Client) (rc : Int) :
    Fills aClient (.returned rc (cleanup aClient)) := by
  have h : Fills aClient (.returned rc (cleanup (received aClient []))) :=
    Fills.failed rc List.nil_prefix (Nat.zero_le _)
  rwa [received_nil] at h

theorem fill_spec
    (recvs : List RecvAnswer) (aClient : Socks5Client) :
    Fills aClient (fill recvs aClient) := by
  induction recvs generalizing aClient with
  | nil =>
      rw [fill.eq_def]
      dsimp only
      split_ifs with hzero
      · exact Fills.done hzero
      · exact Fills.nothing aClient ERR_SUCCESS
  | cons answer answers ih =>
      rw [fill.eq_def]
      dsimp only
      split_ifs with hzero
      · exact Fills.done hzero
      · cases answer with
        | error errno =>
            dsimp only
            split_ifs with hblock
            · exact Fills.nothing aClient ERR_SUCCESS
            · exact Fills.lost aClient (readError errno)
        | bytes n =>
            dsimp only
            split_ifs with hempty
            · exact Fills.nothing aClient ERR_SUCCESS
            · cases hpayload : aClient.in_packet.payload with
              | none =>
                  exact Fills.missing
              | some payload =>
                  have hlength : (aClient.unread.take
                      (min n aClient.in_packet.to_process)).length ≤
                        aClient.in_packet.to_process := by
                    rw [List.length_take]
                    omega
                  refine Fills.after ?_ (List.take_prefix _ _) hlength
                  rw [received, hpayload]
                  exact ih _

/-- What a call of `socks5__read` that waits for a reply can do. -/
theorem readReply_cases
    {recvs : List RecvAnswer} {aClient aClient' : Socks5Client} {rc : Int}
    {evaluate : Socks5Client → Bytes → Option (Int × Socks5Client)}
    (h : readReply recvs aClient evaluate = some (rc, aClient')) :
    ∃ data, data <+: aClient.unread ∧ data.length ≤ aClient.in_packet.to_process ∧
      (aClient' = received aClient data ∨ aClient' = cleanup (received aClient data) ∨
        ∃ payload, aClient.in_packet.payload = some payload ∧
          data.length = aClient.in_packet.to_process ∧
          evaluate (received aClient data) (payload ++ data) = some (rc, aClient')) := by
  have hfills := fill_spec recvs aClient
  rw [readReply] at h
  generalize fill recvs aClient = result at h hfills
  cases hfills with
  | @filled data hread hlength =>
      refine ⟨data, hread, hlength.le, Or.inr (Or.inr ?_)⟩
      cases hpayload : aClient.in_packet.payload with
      | none =>
          simp [received, hpayload] at h
      | some payload =>
          refine ⟨payload, rfl, hlength, ?_⟩
          simpa [received, hpayload] using h
  | @blocked data rc' hread hlength =>
      simp only [Option.some.injEq, Prod.mk.injEq] at h
      exact ⟨data, hread, hlength, Or.inl h.2.symm⟩
  | @failed data rc' hread hlength =>
      simp only [Option.some.injEq, Prod.mk.injEq] at h
      exact ⟨data, hread, hlength, Or.inr (Or.inl h.2.symm)⟩
  | missing =>
      simp at h

theorem packet__queue_eq
    (sends : List SendAnswer) (aClient : Socks5Client) (packet : Bytes) :
    ∃ rc out_packet, packet__queue sends aClient packet =
      (rc, { aClient with out_packet, queued := aClient.queued ++ [packet] }) :=
  ⟨_, _, rfl⟩

/-- The request is sent, unless the name of the server is too long. -/
theorem socks5__send_request
    {inet_pton : InetPton} {sends : List SendAnswer} {aClient aClient' : Socks5Client} {rc : Int}
    (h : socks5__send inet_pton sends { aClient with state := .socks5_auth_ok } =
      some (rc, aClient')) :
    aClient' = { aClient with state := .socks5_auth_ok } ∨
      ∃ packet out_packet, connectPacket inet_pton aClient.serverURI = some packet ∧
        aClient' =
          { aClient with
            state := .socks5_request, in_packet := awaitReply 5, out_packet,
            queued := aClient.queued ++ [packet] } := by
  simp only [socks5__send] at h
  cases hpacket : connectPacket inet_pton aClient.serverURI with
  | none =>
      rw [hpacket] at h
      simp only [Option.some.injEq, Prod.mk.injEq] at h
      exact Or.inl h.2.symm
  | some packet =>
      rw [hpacket] at h
      obtain ⟨rc', out_packet, hqueue⟩ := packet__queue_eq sends
        { aClient with state := .socks5_request, in_packet := awaitReply 5 } packet
      simp only [hqueue, Option.some.injEq, Prod.mk.injEq] at h
      exact Or.inr ⟨packet, out_packet, rfl, h.2.symm⟩

/-- The user name is sent with the password. -/
theorem socks5__send_userpass
    {inet_pton : InetPton} {sends : List SendAnswer} {aClient aClient' : Socks5Client} {rc : Int}
    (h : socks5__send inet_pton sends { aClient with state := .socks5_send_userpass } =
      some (rc, aClient')) :
    ∃ username password out_packet,
      aClient' =
        { aClient with
          state := .socks5_userpass_reply, in_packet := awaitReply 2, out_packet,
          queued := aClient.queued ++ [userpassPacket username password] } := by
  simp only [socks5__send] at h
  cases husername : aClient.socks5_username with
  | none =>
      rw [husername] at h
      simp at h
  | some username =>
      cases hpassword : aClient.socks5_password with
      | none =>
          rw [husername, hpassword] at h
          simp at h
      | some password =>
          rw [husername, hpassword] at h
          simp only [packet__queue, Option.some.injEq, Prod.mk.injEq] at h
          refine ⟨username, password, aClient'.out_packet, ?_⟩
          rw [← h.2]

/-- The methods are sent. -/
theorem proxyConnect_eq
    {inet_pton : InetPton} {sends : List SendAnswer} {aClient aClient' : Socks5Client} {rc : Int}
    (h : proxyConnect inet_pton sends aClient = some (rc, aClient')) :
    ∃ out_packet,
      aClient' =
        { aClient with
          state := .socks5_start, in_packet := awaitReply 2, out_packet,
          queued := aClient.queued ++ [methodsPacket aClient] } := by
  simp only [proxyConnect, socks5__send] at h
  obtain ⟨rc', out_packet, hqueue⟩ := packet__queue_eq sends
    { aClient with state := .socks5_start, in_packet := awaitReply 2 } (methodsPacket aClient)
  refine ⟨out_packet, ?_⟩
  have h' := (Option.some.inj h).symm
  have hmethods : methodsPacket { aClient with state := .socks5_new } = methodsPacket aClient := rfl
  rw [hmethods] at h'
  exact (Prod.mk.inj (h'.trans hqueue)).2

/-- Beginning with its fifth byte, the length of a reply is known. -/
theorem moreBytes_append
    {payload : Bytes}
    (hlength : 5 ≤ payload.length) (data : Bytes) :
    moreBytes (payload ++ data) = moreBytes payload := by
  have hget (i : Nat) (hi : i < 5) : (payload ++ data).getD i 0 = payload.getD i 0 := by
    rw [List.getD_eq_getElem?_getD, List.getD_eq_getElem?_getD,
      List.getElem?_append_left (by omega)]
  rw [moreBytes, moreBytes, hget 3 (by omega), hget 4 (by omega)]

end Socks5
end PahoMqtt
