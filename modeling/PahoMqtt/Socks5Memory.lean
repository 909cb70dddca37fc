import PahoMqtt.Lib.Buffers
import PahoMqtt.Socks5Proxy

/-!
# The memory of the reply that is read

`in_packet` with the memory that `payload` points to, and the functions that work
on it with each of their accesses: one that is made without memory, behind the
length of the packet or by a user name or password that is not set is a fault.
Where the fields are consistent, these functions do what those on the bytes that
were read do, so that all that is left to ask of a call is whether it faults.
-/

set_option linter.style.nameCheck false

namespace PahoMqtt
namespace Socks5

/-- `in_packet`, with the memory that `payload` points to. -/
structure PacketMemory where
  payload : Option Bytes
  pos : Nat
  to_process : Nat
  packet_length : Nat
deriving DecidableEq

/-- A client with the memory of its `in_packet`; the other fields are those of `aClient`. -/
structure MemoryClient where
  aClient : Socks5Client
  in_packet : PacketMemory
deriving DecidableEq

namespace PacketMemory

/-- A byte of `payload`; none if the access is a fault. -/
def get (p : PacketMemory) (i : Nat) : Option UInt8 :=
  if i < p.packet_length then p.payload.bind (·[i]?) else none

/-- `recv` writes some bytes to `payload`; none if that is a fault. -/
def receive (p : PacketMemory) (data : Bytes) : Option PacketMemory := do
  let payload ← p.payload
  let payload ← Lib.store payload p.pos data
  if p.pos + data.length ≤ p.packet_length then
    some { p with
      payload := some payload
      pos := p.pos + data.length
      to_process := p.to_process - data.length }
  else none

/-- `packet__cleanup` -/
def cleanup (p : PacketMemory) : PacketMemory :=
  { p with payload := none, pos := 0, to_process := 0 }

/-- Memory for a reply of `n` bytes; what it holds is never read. -/
def await (n : Nat) : PacketMemory := ⟨some (List.replicate n 0), 0, n, n⟩

/-- `realloc` for `n` bytes that are still to come. -/
def extend (p : PacketMemory) (n : Nat) : PacketMemory where
  payload := p.payload.map (· ++ List.replicate n 0)
  pos := p.pos
  to_process := p.to_process + n
  packet_length := p.packet_length + n

/-- The bytes that were read. -/
def abstract (p : PacketMemory) : InPacket where
  payload := p.payload.map (List.take p.pos)
  to_process := p.to_process
  packet_length := p.packet_length

end PacketMemory

namespace MemoryClient

/-- The client as the functions on the bytes that were read see it. -/
def abstract (m : MemoryClient) : Socks5Client :=
  { m.aClient with in_packet := m.in_packet.abstract }

/-- A client that was just created. -/
def fresh (aClient : Socks5Client) : MemoryClient := ⟨aClient, ⟨none, 0, 0, 0⟩⟩

def withState (m : MemoryClient) (state : Socks5State) : MemoryClient :=
  { m with aClient := { m.aClient with state } }

/-- `packet__cleanup` of `in_packet` -/
def cleanup (m : MemoryClient) : MemoryClient :=
  { m with in_packet := m.in_packet.cleanup }

/-- A packet is queued, and a reply of `n` bytes is awaited. -/
def request (sends : List SendAnswer) (m : MemoryClient) (state : Socks5State) (n : Nat)
    (packet : Bytes) : Int × MemoryClient :=
  let (rc, aClient) := packet__queue sends { m.aClient with state } packet
  (rc, { aClient, in_packet := .await n })

/-- `socks5__send`; none if the user name or the password is not set and used. -/
def socks5__send (inet_pton : InetPton) (sends : List SendAnswer) (m : MemoryClient) :
    Option (Int × MemoryClient) :=
  match m.aClient.state with
  | .socks5_new => some (m.request sends .socks5_start 2 (methodsPacket m.aClient))
  | .socks5_auth_ok =>
      match connectPacket inet_pton m.aClient.serverURI with
      | none => some (ERR_NOMEM, m)
      | some packet => some (m.request sends .socks5_request 5 packet)
  | .socks5_send_userpass => do
      let username ← m.aClient.socks5_username
      let password ← m.aClient.socks5_password
      some (m.request sends .socks5_userpass_reply 2 (userpassPacket username password))
  | _ => some (ERR_SUCCESS, m)

/-- How the loop that reads `in_packet` ends. -/
inductive Reading where
  | filled (m : MemoryClient)
  | returned (rc : Int) (m : MemoryClient)
  | fault

/-- The client after `recv` wrote `data`. -/
def consume (m : MemoryClient) (data : Bytes) (in_packet : PacketMemory) : MemoryClient where
  aClient :=
    { m.aClient with
      consumed := m.aClient.consumed ++ data
      unread := m.aClient.unread.drop data.length }
  in_packet

/-- The loop that reads `in_packet`; without an answer the socket would block. -/
def fill : List RecvAnswer → MemoryClient → Reading
  | [], m => if m.in_packet.to_process = 0 then .filled m else .returned ERR_SUCCESS m
  | answer :: answers, m =>
      if m.in_packet.to_process = 0 then .filled m
      else
        match answer with
        | .error errno =>
            if errno = EWOULDBLOCK then .returned ERR_SUCCESS m
            else .returned (readError errno) m.cleanup
        | .bytes n =>
            let data := m.aClient.unread.take (min n m.in_packet.to_process)
            if data = [] then .returned ERR_SUCCESS m
            else
              match m.in_packet.receive data with
              | none => .fault
              | some in_packet => fill answers (m.consume data in_packet)

def readReply (recvs : List RecvAnswer) (m : MemoryClient)
    (evaluate : MemoryClient → Option (Int × MemoryClient)) : Option (Int × MemoryClient) :=
  match m.fill recvs with
  | .fault => none
  | .returned rc m => some (rc, m)
  | .filled m => evaluate m

/-- The selection of a method. -/
def evaluateMethod (inet_pton : InetPton) (sends : List SendAnswer) (m : MemoryClient) :
    Option (Int × MemoryClient) := do
  let version ← m.in_packet.get 0
  if version ≠ 5 then some (ERR_PROXY, m.cleanup)
  else
    let method ← m.in_packet.get 1
    if method = SOCKS_AUTH_NONE then
      socks5__send inet_pton sends (m.cleanup.withState .socks5_auth_ok)
    else if method = SOCKS_AUTH_USERPASS then
      socks5__send inet_pton sends (m.cleanup.withState .socks5_send_userpass)
    else some (ERR_AUTH, m.cleanup)

/-- The reply to the user name and the password. -/
def evaluateUserpass (inet_pton : InetPton) (sends : List SendAnswer) (m : MemoryClient) :
    Option (Int × MemoryClient) := do
  let version ← m.in_packet.get 0
  if version ≠ 1 then some (ERR_PROXY, m.cleanup)
  else
    let status ← m.in_packet.get 1
    if status = 0 then socks5__send inet_pton sends (m.cleanup.withState .socks5_auth_ok)
    else some (replyError status, m.cleanup)

/-- The rest of a reply is still to come. -/
def notFinished (m : MemoryClient) (n : Nat) : Int × MemoryClient :=
  (ERR_NOT_FINISHED, { m with in_packet := m.in_packet.extend n })

/-- The reply to the request, or its first five bytes. -/
def evaluateRequest (m : MemoryClient) : Option (Int × MemoryClient) :=
  if m.in_packet.packet_length = 5 then do
    let atyp ← m.in_packet.get 3
    if atyp = SOCKS_ATYPE_IP_V4 then some (m.notFinished (4 + 2 - 1))
    else if atyp = SOCKS_ATYPE_IP_V6 then some (m.notFinished (16 + 2 - 1))
    else if atyp = SOCKS_ATYPE_DOMAINNAME then
      let len ← m.in_packet.get 4
      some (m.notFinished len.toNat)
    else some (ERR_PROTOCOL, m.cleanup)
  else do
    let version ← m.in_packet.get 0
    if version ≠ 5 then some (ERR_PROXY, m.cleanup)
    else
      let reply ← m.in_packet.get 1
      if reply = 0 then some (0, m.cleanup.withState .new)
      else some (replyError reply, m.cleanup.withState .socks5_new)

/-- `socks5__read`; none if an access is a fault. -/
def socks5__read (inet_pton : InetPton) (recvs : List RecvAnswer) (sends : List SendAnswer)
    (m : MemoryClient) : Option (Int × MemoryClient) :=
  match m.aClient.state with
  | .socks5_start => m.readReply recvs (evaluateMethod inet_pton sends)
  | .socks5_userpass_reply => m.readReply recvs (evaluateUserpass inet_pton sends)
  | .socks5_request => m.readReply recvs evaluateRequest
  | .new => some (0, m)
  | _ => some (-1, m)

end MemoryClient

/-! ### The bytes that were read -/

/-- The memory is as long as the fields say. -/
structure PacketMemory.Consistent (p : PacketMemory) : Prop where
  allocated : ∀ payload, p.payload = some payload →
    payload.length = p.packet_length ∧ p.pos + p.to_process = p.packet_length
  freed : p.payload = none → p.to_process = 0

/-- How many bytes of a reply are read in any case. -/
def replyLength : Socks5State → Nat
  | .socks5_start | .socks5_userpass_reply => 2
  | .socks5_request => 5
  | _ => 0

/-- The memory is that of the reply that is awaited. -/
structure MemoryClient.Consistent (m : MemoryClient) : Prop where
  memory : m.in_packet.Consistent
  expected : m.in_packet.payload ≠ none → replyLength m.aClient.state ≤ m.in_packet.packet_length

namespace PacketMemory

theorem Consistent.cleanup
    (p : PacketMemory) :
    p.cleanup.Consistent where
  allocated _ h := by cases h
  freed _ := rfl

theorem Consistent.await
    (n : Nat) :
    (PacketMemory.await n).Consistent where
  allocated payload h := by
    obtain rfl := Option.some.inj h
    exact ⟨List.length_replicate, Nat.zero_add n⟩
  freed h := by cases h

theorem Consistent.extend
    {p : PacketMemory}
    (h : p.Consistent)
    (hpayload : p.payload ≠ none) (n : Nat) :
    (p.extend n).Consistent := by
  obtain ⟨payload, hsome⟩ := Option.ne_none_iff_exists'.mp hpayload
  obtain ⟨hlength, hcount⟩ := h.allocated payload hsome
  constructor
  · intro payload' h'
    simp only [PacketMemory.extend, hsome, Option.map_some, Option.some.injEq] at h'
    subst h'
    simp only [PacketMemory.extend, List.length_append, List.length_replicate]
    omega
  · intro h'
    simp [PacketMemory.extend, hsome] at h'

/-- Bytes that fit are written behind those that were read. -/
theorem Consistent.receive
    {p : PacketMemory} {payload data : Bytes}
    (h : p.Consistent)
    (hpayload : p.payload = some payload)
    (hlength : data.length ≤ p.to_process) :
    ∃ p', p.receive data = some p' ∧ p'.Consistent ∧
      p'.packet_length = p.packet_length ∧
      p'.abstract =
        { p.abstract with
          payload := some (payload.take p.pos ++ data)
          to_process := p.to_process - data.length } := by
  obtain ⟨hblock, hcount⟩ := h.allocated payload hpayload
  have hfits : p.pos + data.length ≤ payload.length := by omega
  have htaken : (payload.take p.pos ++ data).length = p.pos + data.length := by
    rw [List.length_append, List.length_take]
    omega
  refine ⟨{ p with
    payload := some (payload.take p.pos ++ data ++ payload.drop (p.pos + data.length))
    pos := p.pos + data.length
    to_process := p.to_process - data.length }, ?_, ⟨?_, ?_⟩, rfl, ?_⟩
  · simp only [PacketMemory.receive, hpayload, Option.bind_eq_bind, Option.bind_some,
      Lib.store_of_le hfits, if_pos (hblock ▸ hfits)]
  · intro payload' h'
    obtain rfl := Option.some.inj h'
    rw [List.length_append, htaken, List.length_drop]
    dsimp only
    omega
  · intro h'
    cases h'
  · simp only [abstract, Option.map_some, List.take_left' htaken]

/-- Where all bytes were read, each of them can be read from the memory. -/
theorem Consistent.get
    {p : PacketMemory} {payload : Bytes} {i : Nat}
    (h : p.Consistent)
    (hpayload : p.payload = some payload)
    (hi : i < p.packet_length) :
    p.get i = some (payload.getD i 0) := by
  have hlength := (h.allocated payload hpayload).1
  rw [PacketMemory.get, if_pos hi, hpayload, Option.bind_some, List.getD_eq_getElem?_getD,
    List.getElem?_eq_getElem (by omega), Option.getD_some]

theorem get_freed
    {p : PacketMemory}
    (hpayload : p.payload = none) (i : Nat) :
    p.get i = none := by
  rw [PacketMemory.get, hpayload]
  split <;> rfl

end PacketMemory

namespace MemoryClient

/-- A result on the memory is that on the bytes, and it is consistent. -/
structure Refines (result : Option (Int × MemoryClient)) (result' : Option (Int × Socks5Client)) :
    Prop where
  image : result.map (Prod.map id abstract) = result'
  consistent : ∀ rc m, result = some (rc, m) → m.Consistent

theorem Refines.some
    {rc : Int} {m : MemoryClient} {aClient : Socks5Client}
    (habstract : m.abstract = aClient)
    (h : m.Consistent) :
    Refines (some (rc, m)) (some (rc, aClient)) where
  image := by
    rw [← habstract]
    rfl
  consistent rc' m' heq := by
    obtain rfl := (Prod.mk.inj (Option.some.inj heq)).2
    exact h

theorem Refines.none :
    Refines none none where
  image := rfl
  consistent _ _ h := by cases h

theorem Consistent.fresh
    (aClient : Socks5Client) :
    (MemoryClient.fresh aClient).Consistent where
  memory := ⟨fun _ h => (by cases h), fun _ => rfl⟩
  expected h := absurd rfl h

theorem Consistent.cleanup
    (m : MemoryClient) :
    m.cleanup.Consistent where
  memory := PacketMemory.Consistent.cleanup m.in_packet
  expected h := absurd rfl h

theorem Consistent.cleanup_withState
    (m : MemoryClient) (state : Socks5State) :
    (m.cleanup.withState state).Consistent where
  memory := PacketMemory.Consistent.cleanup m.in_packet
  expected h := absurd rfl h

/-- A reply of at least the least length is awaited. -/
theorem refines_request
    {sends : List SendAnswer} {m : MemoryClient} {state : Socks5State} {n : Nat} {packet : Bytes}
    (hlength : replyLength state ≤ n) :
    Refines (some (m.request sends state n packet))
      (some (packet__queue sends { m.abstract with state, in_packet := awaitReply n } packet)) :=
  Refines.some rfl ⟨PacketMemory.Consistent.await n, fun _ => hlength⟩

theorem refines_send
    {m : MemoryClient}
    (h : m.Consistent) (inet_pton : InetPton) (sends : List SendAnswer) :
    Refines (m.socks5__send inet_pton sends) (Socks5.socks5__send inet_pton sends m.abstract) := by
  obtain ⟨⟨state, username, password, serverURI, _, _, _, _, _⟩, in_packet⟩ := m
  cases state with
  | socks5_new =>
      exact refines_request (le_refl 2)
  | socks5_auth_ok =>
      simp only [MemoryClient.socks5__send, Socks5.socks5__send, abstract]
      cases connectPacket inet_pton serverURI with
      | none => exact Refines.some rfl h
      | some packet => exact refines_request (le_refl 5)
  | socks5_send_userpass =>
      cases username with
      | none => exact Refines.none
      | some username =>
          cases password with
          | none => exact Refines.none
          | some password => exact refines_request (le_refl 2)
  | new | socks5_start | socks5_request | socks5_userpass_reply | error =>
      exact Refines.some rfl h

/-- The loop ends as that on the bytes does, and without a fault. -/
inductive RefinesReading (state : Socks5State) : Reading → Filling → Prop
  | filled {m : MemoryClient}
      (hstate : m.aClient.state = state)
      (h : m.Consistent)
      (hzero : m.in_packet.to_process = 0) :
      RefinesReading state (.filled m) (.filled m.abstract)
  | returned {m : MemoryClient} (rc : Int)
      (h : m.Consistent) :
      RefinesReading state (.returned rc m) (.returned rc m.abstract)

theorem refines_fill
    {m : MemoryClient}
    (h : m.Consistent) (recvs : List RecvAnswer) :
    RefinesReading m.aClient.state (m.fill recvs) (Socks5.fill recvs m.abstract) := by
  have hprocess (m : MemoryClient) : m.abstract.in_packet.to_process = m.in_packet.to_process := rfl
  induction recvs generalizing m with
  | nil =>
      rw [MemoryClient.fill, Socks5.fill, hprocess]
      by_cases hzero : m.in_packet.to_process = 0
      · rw [if_pos hzero, if_pos hzero]
        exact RefinesReading.filled rfl h hzero
      · rw [if_neg hzero, if_neg hzero]
        exact RefinesReading.returned ERR_SUCCESS h
  | cons answer answers ih =>
      rw [MemoryClient.fill.eq_def, Socks5.fill.eq_def]
      dsimp only
      rw [hprocess]
      by_cases hzero : m.in_packet.to_process = 0
      · rw [if_pos hzero, if_pos hzero]
        exact RefinesReading.filled rfl h hzero
      · rw [if_neg hzero, if_neg hzero]
        cases answer with
        | error errno =>
            dsimp only
            by_cases hblock : errno = EWOULDBLOCK
            · rw [if_pos hblock, if_pos hblock]
              exact RefinesReading.returned ERR_SUCCESS h
            · rw [if_neg hblock, if_neg hblock]
              exact RefinesReading.returned (readError errno) (Consistent.cleanup m)
        | bytes n =>
            have hunread : m.abstract.unread = m.aClient.unread := rfl
            dsimp only
            rw [hunread]
            generalize hdata : m.aClient.unread.take (min n m.in_packet.to_process) = data
            by_cases hempty : data = []
            · rw [if_pos hempty, if_pos hempty]
              exact RefinesReading.returned ERR_SUCCESS h
            · rw [if_neg hempty, if_neg hempty]
              have hlength : data.length ≤ m.in_packet.to_process := by
                rw [← hdata, List.length_take]
                omega
              -- there is memory, since there is something to read
              cases hpayload : m.in_packet.payload with
              | none =>
                  exact absurd (h.memory.freed hpayload) hzero
              | some payload =>
                  obtain ⟨in_packet, hreceive, hmemory, hsame, habstract⟩ :=
                    h.memory.receive hpayload hlength
                  have hbytes : m.abstract.in_packet.payload =
                      some (payload.take m.in_packet.pos) := by
                    simp only [abstract, PacketMemory.abstract, hpayload, Option.map_some]
                  have hconsistent : (m.consume data in_packet).Consistent := by
                    refine ⟨hmemory, fun _ => ?_⟩
                    have hexpected := h.expected (by simp [hpayload])
                    simp only [consume, hsame]
                    exact hexpected
                  have hrest := ih hconsistent
                  rw [hreceive, hbytes]
                  simp only [consume, abstract, habstract] at hrest ⊢
                  exact hrest

/-- A reply is evaluated as the bytes that were read are; where it was freed, that is a fault. -/
structure Evaluates (state : Socks5State) (evaluate : MemoryClient → Option (Int × MemoryClient))
    (evaluate' : Socks5Client → Bytes → Option (Int × Socks5Client)) : Prop where
  freed : ∀ m : MemoryClient, m.in_packet.payload = none → evaluate m = none
  refines : ∀ (m : MemoryClient) (payload : Bytes), m.Consistent → m.aClient.state = state →
    m.in_packet.payload = some payload → Refines (evaluate m) (evaluate' m.abstract payload)

theorem refines_readReply
    {m : MemoryClient} {evaluate : MemoryClient → Option (Int × MemoryClient)}
    {evaluate' : Socks5Client → Bytes → Option (Int × Socks5Client)}
    (hevaluates : Evaluates m.aClient.state evaluate evaluate')
    (h : m.Consistent) (recvs : List RecvAnswer) :
    Refines (m.readReply recvs evaluate) (Socks5.readReply recvs m.abstract evaluate') := by
  have hfill := refines_fill h recvs
  rw [readReply, Socks5.readReply]
  generalize m.fill recvs = reading, Socks5.fill recvs m.abstract = filling at hfill
  cases hfill with
  | returned rc hreturned =>
      exact Refines.some rfl hreturned
  | @filled m' hstate hfilled hzero =>
      dsimp only
      cases hpayload : m'.in_packet.payload with
      | none =>
          have hbytes : m'.abstract.in_packet.payload = none := by
            simp only [abstract, PacketMemory.abstract, hpayload, Option.map_none]
          rw [hevaluates.freed m' hpayload, hbytes]
          exact Refines.none
      | some payload =>
          obtain ⟨hlength, hcount⟩ := hfilled.memory.allocated payload hpayload
          have hbytes : m'.abstract.in_packet.payload = some payload := by
            simp only [abstract, PacketMemory.abstract, hpayload, Option.map_some]
            rw [List.take_of_length_le (by omega)]
          rw [hbytes]
          exact hevaluates.refines m' payload hfilled hstate hpayload

theorem evaluates_method
    (inet_pton : InetPton) (sends : List SendAnswer) :
    Evaluates .socks5_start (evaluateMethod inet_pton sends)
      (Socks5.evaluateMethod inet_pton sends) where
  freed m hpayload := by
    rw [evaluateMethod, PacketMemory.get_freed hpayload]
    rfl
  refines m payload h hstate hpayload := by
    have hexpected := h.expected (by simp [hpayload])
    rw [hstate] at hexpected
    have htwo : 2 ≤ m.in_packet.packet_length := hexpected
    rw [evaluateMethod, Socks5.evaluateMethod, h.memory.get hpayload (by omega : 0 < _),
      h.memory.get hpayload (by omega : 1 < _)]
    simp only [Option.bind_eq_bind, Option.bind_some]
    split_ifs with hversion hnone huserpass
    · exact Refines.some rfl (Consistent.cleanup m)
    · exact refines_send (Consistent.cleanup_withState m .socks5_auth_ok) inet_pton sends
    · exact refines_send (Consistent.cleanup_withState m .socks5_send_userpass) inet_pton sends
    · exact Refines.some rfl (Consistent.cleanup m)

theorem evaluates_userpass
    (inet_pton : InetPton) (sends : List SendAnswer) :
    Evaluates .socks5_userpass_reply (evaluateUserpass inet_pton sends)
      (Socks5.evaluateUserpass inet_pton sends) where
  freed m hpayload := by
    rw [evaluateUserpass, PacketMemory.get_freed hpayload]
    rfl
  refines m payload h hstate hpayload := by
    have hexpected := h.expected (by simp [hpayload])
    rw [hstate] at hexpected
    have htwo : 2 ≤ m.in_packet.packet_length := hexpected
    rw [evaluateUserpass, Socks5.evaluateUserpass, h.memory.get hpayload (by omega : 0 < _),
      h.memory.get hpayload (by omega : 1 < _)]
    simp only [Option.bind_eq_bind, Option.bind_some]
    split_ifs with hversion hstatus
    · exact Refines.some rfl (Consistent.cleanup m)
    · exact refines_send (Consistent.cleanup_withState m .socks5_auth_ok) inet_pton sends
    · exact Refines.some rfl (Consistent.cleanup m)

theorem Consistent.notFinished
    {m : MemoryClient}
    (h : m.Consistent)
    (hpayload : m.in_packet.payload ≠ none) (n : Nat) :
    (m.notFinished n).2.Consistent where
  memory := h.memory.extend hpayload n
  expected _ := Nat.le_trans (h.expected hpayload) (Nat.le_add_right _ n)

/-- What is extended is all that was read. -/
theorem abstract_notFinished
    {m : MemoryClient} {payload : Bytes}
    (h : m.Consistent)
    (hpayload : m.in_packet.payload = some payload) (n : Nat) :
    (m.notFinished n).2.abstract =
      { m.abstract with
        in_packet :=
          { m.abstract.in_packet with
            to_process := m.abstract.in_packet.to_process + n
            packet_length := m.abstract.in_packet.packet_length + n } } := by
  obtain ⟨hlength, hcount⟩ := h.memory.allocated payload hpayload
  have htake : (payload ++ List.replicate n 0).take m.in_packet.pos =
      payload.take m.in_packet.pos := by
    rw [List.take_append_of_le_length (by omega)]
  simp only [notFinished, abstract, PacketMemory.abstract, PacketMemory.extend, hpayload,
    Option.map_some, htake]

theorem evaluates_request :
    Evaluates .socks5_request evaluateRequest Socks5.evaluateRequest where
  freed m hpayload := by
    simp only [evaluateRequest, PacketMemory.get_freed hpayload]
    split <;> rfl
  refines m payload h hstate hpayload := by
    have hexpected := h.expected (by simp [hpayload])
    rw [hstate] at hexpected
    have hfive : 5 ≤ m.in_packet.packet_length := hexpected
    have hsome : m.in_packet.payload ≠ none := by simp [hpayload]
    have hlength : m.abstract.in_packet.packet_length = m.in_packet.packet_length := rfl
    have hmore (n : Nat) := @Refines.some ERR_NOT_FINISHED _ _
      (abstract_notFinished h hpayload n) (h.notFinished hsome n)
    rw [evaluateRequest, Socks5.evaluateRequest, hlength]
    rw [h.memory.get hpayload (by omega : 0 < _), h.memory.get hpayload (by omega : 1 < _),
      h.memory.get hpayload (by omega : 3 < _), h.memory.get hpayload (by omega : 4 < _)]
    simp only [Option.bind_eq_bind, Option.bind_some, moreBytes]
    split_ifs with hlen hv4 hv6 hdomain hversion hreply
    · exact hmore _
    · exact hmore _
    · exact hmore _
    · exact Refines.some rfl (Consistent.cleanup m)
    · exact Refines.some rfl (Consistent.cleanup m)
    · exact Refines.some rfl (Consistent.cleanup_withState m .new)
    · exact Refines.some rfl (Consistent.cleanup_withState m .socks5_new)

/-- A call on the memory is that on the bytes, or both end with a fault. -/
theorem refines_read
    {m : MemoryClient}
    (h : m.Consistent) (inet_pton : InetPton) (recvs : List RecvAnswer)
    (sends : List SendAnswer) :
    Refines (m.socks5__read inet_pton recvs sends)
      (Socks5.socks5__read inet_pton recvs sends m.abstract) := by
  have hstate : m.abstract.state = m.aClient.state := rfl
  rw [MemoryClient.socks5__read, Socks5.socks5__read, hstate]
  cases hreading : m.aClient.state with
  | socks5_start =>
      exact refines_readReply (hreading ▸ evaluates_method inet_pton sends) h recvs
  | socks5_userpass_reply =>
      exact refines_readReply (hreading ▸ evaluates_userpass inet_pton sends) h recvs
  | socks5_request =>
      exact refines_readReply (hreading ▸ evaluates_request) h recvs
  | new | socks5_new | socks5_auth_ok | socks5_send_userpass | error =>
      exact Refines.some rfl h

end MemoryClient

end Socks5
end PahoMqtt
