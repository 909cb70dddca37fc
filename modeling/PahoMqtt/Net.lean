import PahoMqtt.PersistenceKeys

/-!
# Sockets

What the packet functions of a client work on: its socket, with the WebSocket
layer above it, and its store.  The answers of the code outside the library are
given by an environment, call by call: how much `writev` accepts, the masks
drawn, the return codes of the persistence functions, the clock.

The log holds what was done during one step of the client: each attempt to
store a record, each packet of which the writing was started, each publication
passed on.  No function reads it.
-/

namespace PahoMqtt

def TCPSOCKET_COMPLETE : Int := 0

def SOCKET_ERROR : Int := -1

def TCPSOCKET_INTERRUPTED : Int := -22

/-- Memory of a packet's buffers, and the key that their data is masked with. -/
structure PacketBuffers where
  buffers : List Bytes
  mask : Mask

/-- The answers of the code outside the library, by the number of the call. -/
structure Env where
  /-- How many of the offered bytes `writev` accepts; `none` is an error of the socket. -/
  writev : Nat → (total : Nat) → Option Nat
  rand : Nat → Mask
  /-- The hook's return code and the buffers it leaves. -/
  beforeWrite : Option (Nat → List Bytes → Int × List Bytes)
  pput : Nat → Int
  premove : Nat → Int
  time_now : Nat → Int

/-- An environment in which every call succeeds. -/
def Env.reliable : Env where
  writev := fun _ total => some total
  rand := fun _ => ⟨1, 2, 3, 4⟩
  beforeWrite := none
  pput := fun _ => 0
  premove := fun _ => 0
  time_now := fun n => n

/-- What a step of the client does to the outside. -/
inductive Output where
  /-- `MQTTPersistence_putPacket` returned `rc`. -/
  | putPacket (htype : PacketType) (msgId : MsgId) (scr : Bool) (rc : Int)
  /-- The writing of a packet was started, with `store` in the store. -/
  | handed (header : Header) (msgId : MsgId) (rc : Int) (store : Option Store)
  /-- `Protocol_processPublication` was called. -/
  | processPublication (publish : Publish)
  /-- `MQTTProtocol_closeSession` was called. -/
  | closeSession

/-- The socket and the store of a client. -/
structure Net where
  websocket : Bool
  /-- The socket is in the list of sockets with an unfinished write. -/
  writePending : Bool
  persistence : Option Store
  calls : Nat
  log : List Output

namespace Net

def emit (net : Net) (out : Output) : Net :=
  { net with log := net.log ++ [out] }

def tick (net : Net) : Net :=
  { net with calls := net.calls + 1 }

end Net

namespace Socket

/-- `Socket_noPendingWrites` -/
def noPendingWrites (net : Net) : Bool :=
  !net.writePending

/-- `Socket_putdatas` of `total` bytes. -/
def putdatas (env : Env) (net : Net) (total : Nat) : Int × Net :=
  if !noPendingWrites net then
    (SOCKET_ERROR, net)
  else
    match env.writev net.calls total with
    | none => (SOCKET_ERROR, net.tick)
    | some bytes =>
        if bytes = total then
          (TCPSOCKET_COMPLETE, net.tick)
        else
          (TCPSOCKET_INTERRUPTED, { net.tick with writePending := true })

end Socket

namespace WebSocket

/-- The key byte for a position of the frame's data. -/
def maskByte (mask : Mask) (idx : Nat) : UInt8 :=
  match idx % 4 with
  | 0 => mask.b₀
  | 1 => mask.b₁
  | 2 => mask.b₂
  | _ => mask.b₃

def maskBuffer (mask : Mask) : (idx : Nat) → Bytes → Bytes
  | _, [] => []
  | idx, b :: buf => (b ^^^ maskByte mask idx) :: maskBuffer mask (idx + 1) buf

/-- The buffers one after the other, the position running on. -/
def maskBuffers (mask : Mask) : (idx : Nat) → List Bytes → List Bytes
  | _, [] => []
  | idx, buf :: bufs => maskBuffer mask idx buf :: maskBuffers mask (idx + buf.length) bufs

/-- `WebSocket_calculateFrameHeaderSize` of a masked frame. -/
def calculateFrameHeaderSize (data_len : Nat) : Nat :=
  (if data_len < 126 then 2 else if data_len < 65536 then 4 else 10) + 4

/--
`WebSocket_buildFrame`: the buffers as it leaves them.  With a mask kept from
an earlier attempt the loop over the buffers stops at the third or the last.
-/
def buildFrame (fresh : Mask) (buf0len : Nat) (bufs : PacketBuffers) : PacketBuffers :=
  if bufs.mask.b₀ = 0 then
    { buffers := maskBuffers fresh buf0len bufs.buffers, mask := fresh }
  else
    let masked := min 2 (bufs.buffers.length - 1)
    { buffers := maskBuffers bufs.mask buf0len (bufs.buffers.take masked) ++
        bufs.buffers.drop masked
      mask := bufs.mask }

/-- `WebSocket_unmaskData` -/
def unmaskData (idx : Nat) (bufs : PacketBuffers) : PacketBuffers where
  buffers := maskBuffers bufs.mask idx bufs.buffers
  mask := ⟨0, 0, 0, 0⟩

/-- `WebSocket_putdatas`: the return code and the buffers as they are left. -/
def putdatas (env : Env) (net : Net) (buf0len : Nat) (bufs : PacketBuffers) :
    Int × PacketBuffers × Net :=
  let total := buf0len + (bufs.buffers.map List.length).sum
  if net.websocket then
    let bufs := buildFrame (env.rand net.calls) buf0len bufs
    let (rc, net) := Socket.putdatas env net (calculateFrameHeaderSize total + total)
    if rc ≠ TCPSOCKET_INTERRUPTED then
      (rc, unmaskData buf0len bufs, net)
    else
      (rc, bufs, net)
  else
    let (rc, net) := Socket.putdatas env net total
    (rc, bufs, net)

/-! ### Masking twice gives the data back -/

@[simp] theorem maskBuffer_length
    (mask : Mask) (idx : Nat) (buf : Bytes) :
    (maskBuffer mask idx buf).length = buf.length := by
  induction buf generalizing idx with
  | nil =>
      rfl
  | cons b buf ih =>
      simp [maskBuffer, ih]

@[simp] theorem maskBuffer_maskBuffer
    (mask : Mask) (idx : Nat) (buf : Bytes) :
    maskBuffer mask idx (maskBuffer mask idx buf) = buf := by
  induction buf generalizing idx with
  | nil =>
      rfl
  | cons b buf ih =>
      rw [maskBuffer, maskBuffer, ih, UInt8.xor_assoc, UInt8.xor_self, UInt8.xor_zero]

@[simp] theorem maskBuffers_maskBuffers
    (mask : Mask) (idx : Nat) (bufs : List Bytes) :
    maskBuffers mask idx (maskBuffers mask idx bufs) = bufs := by
  induction bufs generalizing idx with
  | nil =>
      rfl
  | cons buf bufs ih =>
      simp [maskBuffers, ih]

/-- Data that was not masked before an attempt is not masked after it, unless it was interrupted. -/
theorem unmaskData_buildFrame
    (fresh : Mask) (buf0len : Nat) (bufs : PacketBuffers)
    (hmask : bufs.mask.b₀ = 0) :
    unmaskData buf0len (buildFrame fresh buf0len bufs) =
      { buffers := bufs.buffers, mask := ⟨0, 0, 0, 0⟩ } := by
  simp [unmaskData, buildFrame, hmask]

end WebSocket

/-! ### What is added to the log -/

namespace Net

/-- From `net` to `net'` only outputs that satisfy `P` are logged. -/
def Logs (P : Output → Prop) (net net' : Net) : Prop :=
  ∃ outs, net'.log = net.log ++ outs ∧ ∀ o ∈ outs, P o

theorem Logs.of_eq
    {P : Output → Prop} {net net' : Net}
    (h : net'.log = net.log) :
    Logs P net net' :=
  ⟨[], by simp [h], by simp⟩

theorem Logs.refl
    {P : Output → Prop} (net : Net) :
    Logs P net net :=
  Logs.of_eq rfl

theorem Logs.trans
    {P : Output → Prop} {net₁ net₂ net₃ : Net}
    (h₁ : Logs P net₁ net₂)
    (h₂ : Logs P net₂ net₃) :
    Logs P net₁ net₃ := by
  obtain ⟨outs₁, hlog₁, hP₁⟩ := h₁
  obtain ⟨outs₂, hlog₂, hP₂⟩ := h₂
  refine ⟨outs₁ ++ outs₂, ?_, ?_⟩
  · rw [hlog₂, hlog₁, List.append_assoc]
  · intro o ho
    rcases List.mem_append.mp ho with ho | ho
    · exact hP₁ o ho
    · exact hP₂ o ho

theorem Logs.mono
    {P Q : Output → Prop} {net net' : Net}
    (h : Logs P net net')
    (hPQ : ∀ o, P o → Q o) :
    Logs Q net net' := by
  obtain ⟨outs, hlog, hP⟩ := h
  exact ⟨outs, hlog, fun o ho => hPQ o (hP o ho)⟩

theorem Logs.emit
    {P : Output → Prop} (net : Net) {out : Output}
    (h : P out) :
    Logs P net (net.emit out) :=
  ⟨[out], rfl, by simpa using h⟩

/-- From an empty log on, all that is logged satisfies `P`. -/
theorem Logs.forall_mem
    {P : Output → Prop} {net net' : Net}
    (h : Logs P net net')
    (hempty : net.log = []) :
    ∀ o ∈ net'.log, P o := by
  obtain ⟨outs, hlog, hP⟩ := h
  simpa [hlog, hempty] using hP

end Net

/-! ### What a write leaves alone -/

/-- The parts of `Net` that no write changes. -/
structure Net.SameStore (net net' : Net) : Prop where
  persistence : net'.persistence = net.persistence
  log : net'.log = net.log
  websocket : net'.websocket = net.websocket

namespace Socket

theorem putdatas_same
    (env : Env) (net : Net) (total : Nat) :
    Net.SameStore net (putdatas env net total).2 := by
  unfold putdatas
  split
  · exact ⟨rfl, rfl, rfl⟩
  · split
    · exact ⟨rfl, rfl, rfl⟩
    · split <;> exact ⟨rfl, rfl, rfl⟩

end Socket

namespace WebSocket

theorem putdatas_same
    (env : Env) (net : Net) (buf0len : Nat) (bufs : PacketBuffers) :
    Net.SameStore net (putdatas env net buf0len bufs).2.2 := by
  unfold putdatas
  split
  · dsimp only
    split <;> exact Socket.putdatas_same env net _
  · exact Socket.putdatas_same env net _

end WebSocket

end PahoMqtt
