import PahoMqtt.Lib.FrameFormat
import PahoMqtt.PacketOut
import PahoMqtt.VariableByteIntegers

/-!
# Frames that are sent

`WebSocket_putdatas` puts a frame header before the first buffer of a packet, in
new memory, and masks all buffers; the further buffers are masked where they
are, and unmasked when the frame was written.
-/

namespace PahoMqtt

def Mask.key (mask : Mask) : Lib.FrameKey :=
  #v[mask.b₀, mask.b₁, mask.b₂, mask.b₃]

namespace WebSocket

def OP_CONTINUE : Nat := 0x0

def OP_TEXT : Nat := 0x1

def OP_BINARY : Nat := 0x2

def OP_CLOSE : Nat := 0x8

def OP_PING : Nat := 0x9

def OP_PONG : Nat := 0xA

/-- `(int)` of a length. -/
def toInt (n : Nat) : Int :=
  (n : Int).bmod (2 ^ 32)

/-- `WebSocket_calculateFrameHeaderSize`; no length reaches the largest 64-bit number. -/
def frameHeaderSize (websocket mask_data : Bool) (data_len : Nat) : Nat :=
  if websocket then
    (if data_len < 126 then 2 else if data_len < 65536 then 4 else 10) +
      (if mask_data then 4 else 0)
  else 0

/-- The header that `WebSocket_buildFrame` writes. -/
def frameHeader (opcode : Nat) (mask_data : Bool) (data_len : Nat) (mask : Mask) : Bytes :=
  let first : UInt8 := 0x80 ||| (UInt8.ofNat opcode &&& 0x0F)
  let second : UInt8 := if mask_data then 0x80 else 0
  let length : Bytes :=
    if data_len < 126 then [second ||| (UInt8.ofNat data_len &&& 0x7F)]
    else if data_len < 65536 then (second ||| (126 &&& 0x7F)) :: Lib.bigEndian 2 data_len
    else (second ||| (127 &&& 0x7F)) :: Lib.bigEndian 8 data_len
  first :: (length ++ if mask_data then mask.key.toList else [])

def totalLength (bufs : List Bytes) : Nat := (bufs.map List.length).sum

/-- How many bytes of the first buffer are masked: the loop runs over an `int`. -/
def maskedCount (ws_header_size buf0len : Nat) : Nat :=
  (toInt (buf0len + ws_header_size) - toInt ws_header_size).toNat

/-- `WebSocket_buildFrame` on a WebSocket: the new first buffer, and the others as it leaves them. -/
def buildFrameData (opcode : Nat) (mask_data : Bool) (fresh : Mask) (buf0 : Bytes)
    (bufs : PacketBuffers) : Bytes × PacketBuffers :=
  let data_len := buf0.length + totalLength bufs.buffers
  let ws_header_size := frameHeaderSize true mask_data data_len
  if mask_data then
    let mask := if bufs.mask.b₀ = 0 then fresh else bufs.mask
    let idx := maskedCount ws_header_size buf0.length
    (frameHeader opcode mask_data data_len mask ++
        (maskBuffer mask 0 (buf0.take idx) ++ buf0.drop idx),
      buildFrame fresh idx bufs)
  else (frameHeader opcode mask_data data_len bufs.mask ++ buf0, bufs)

/-- `WebSocket_putdatas`, with the buffers that are given to the socket. -/
def putFrame (env : Env) (net : Net) (buf0 : Bytes) (bufs : PacketBuffers) :
    (Int × PacketBuffers × Net) × List Bytes :=
  if net.websocket then
    let (wsbuf0, bufs) := buildFrameData OP_BINARY true (env.rand net.calls) buf0 bufs
    let offered := wsbuf0 :: bufs.buffers
    let (rc, net) := Socket.putdatas env net (totalLength offered)
    if rc ≠ TCPSOCKET_INTERRUPTED then ((rc, unmaskData buf0.length bufs, net), offered)
    else ((rc, bufs, net), offered)
  else
    let offered := buf0 :: bufs.buffers
    let (rc, net) := Socket.putdatas env net (totalLength offered)
    ((rc, bufs, net), offered)

/-! ### Masking -/

theorem maskByte_eq
    (mask : Mask) (idx : Nat) :
    maskByte mask idx = mask.key.at idx := by
  have hat : ∀ i (hi : i < 4), idx % 4 = i → mask.key.at idx = mask.key[i] := by
    rintro i hi rfl
    rfl
  have hcases : idx % 4 = 0 ∨ idx % 4 = 1 ∨ idx % 4 = 2 ∨ idx % 4 = 3 := by omega
  rcases hcases with h | h | h | h
  · rw [hat 0 (by decide) h, maskByte, h]
    rfl
  · rw [hat 1 (by decide) h, maskByte, h]
    rfl
  · rw [hat 2 (by decide) h, maskByte, h]
    rfl
  · rw [hat 3 (by decide) h, maskByte, h]
    rfl

theorem maskBuffer_eq
    (mask : Mask) (idx : Nat) (buf : Bytes) :
    maskBuffer mask idx buf = Lib.applyKey mask.key idx buf := by
  induction buf generalizing idx with
  | nil =>
      rfl
  | cons b buf ih =>
      rw [maskBuffer, Lib.applyKey_cons, ih, maskByte_eq]

/-- A key of zeros masks nothing. -/
theorem maskBuffer_zero
    (idx : Nat) (buf : Bytes) :
    maskBuffer ⟨0, 0, 0, 0⟩ idx buf = buf := by
  induction buf generalizing idx with
  | nil =>
      rfl
  | cons b buf ih =>
      have hbyte : maskByte ⟨0, 0, 0, 0⟩ idx = 0 := by
        unfold maskByte
        split <;> rfl
      rw [maskBuffer, ih, hbyte, UInt8.xor_zero]

theorem maskBuffers_zero
    (idx : Nat) (bufs : List Bytes) :
    maskBuffers ⟨0, 0, 0, 0⟩ idx bufs = bufs := by
  induction bufs generalizing idx with
  | nil =>
      rfl
  | cons buf bufs ih =>
      rw [maskBuffers, maskBuffer_zero, ih]

theorem maskBuffers_flatten
    (mask : Mask) (idx : Nat) (bufs : List Bytes) :
    (maskBuffers mask idx bufs).flatten = Lib.applyKey mask.key idx bufs.flatten := by
  induction bufs generalizing idx with
  | nil =>
      rfl
  | cons buf bufs ih =>
      rw [maskBuffers, List.flatten_cons, List.flatten_cons, ih, maskBuffer_eq,
        Lib.applyKey_append]

theorem totalLength_eq
    (bufs : List Bytes) :
    totalLength bufs = bufs.flatten.length := by
  rw [totalLength, List.length_flatten]

/-! ### The header -/

/-- What the header says. -/
def sentHeader (opcode : Nat) (mask_data : Bool) (data_len : Nat) (mask : Mask)
    (hopcode : opcode < 16) (hlen : data_len < 2 ^ 63) : Lib.FrameHeader where
  fin := true
  opcode := opcode
  key := if mask_data then some mask.key else none
  form := Lib.LengthForm.shortest data_len
  len := data_len
  opcode_lt := hopcode
  len_lt := Lib.LengthForm.shortest_limit hlen

theorem first_byte :
    ∀ opcode < 16, (0x80 : UInt8) ||| (UInt8.ofNat opcode &&& 0x0F) =
      UInt8.ofNat (128 + opcode) := by
  decide

theorem short_length :
    ∀ data_len < 126, ∀ mask_data : Bool,
      (if mask_data then 0x80 else 0 : UInt8) ||| (UInt8.ofNat data_len &&& 0x7F) =
        UInt8.ofNat (128 * mask_data.toNat + data_len) := by
  decide

theorem frameHeader_bytes
    {opcode : Nat} (mask_data : Bool) {data_len : Nat} (mask : Mask)
    (hopcode : opcode < 16)
    (hlen : data_len < 2 ^ 63) :
    frameHeader opcode mask_data data_len mask =
      (sentHeader opcode mask_data data_len mask hopcode hlen).bytes := by
  have hsome : (if mask_data then some mask.key else none).isSome = mask_data := by
    cases mask_data <;> rfl
  have hkey : (sentHeader opcode mask_data data_len mask hopcode hlen).keyBytes =
      if mask_data then mask.key.toList else [] := by
    cases mask_data <;> rfl
  rw [frameHeader, Lib.FrameHeader.bytes, hkey, Lib.FrameHeader.byte₀, Lib.FrameHeader.byte₁]
  simp only [sentHeader, hsome, Bool.toNat_true, Nat.mul_one]
  rw [first_byte opcode hopcode, Lib.LengthForm.shortest]
  by_cases hshort : data_len < 126
  · simp only [if_pos hshort, short_length data_len hshort mask_data, Lib.LengthForm.code,
      Lib.LengthForm.width, Lib.bigEndian, List.nil_append, List.cons_append]
  · by_cases hmiddle : data_len < 65536
    · simp only [if_neg hshort, if_pos hmiddle, Lib.LengthForm.code, Lib.LengthForm.width,
        List.cons_append]
      cases mask_data <;> rfl
    · simp only [if_neg hshort, if_neg hmiddle, Lib.LengthForm.code, Lib.LengthForm.width,
        List.cons_append]
      cases mask_data <;> rfl

/-- The size computed for the header is the one that is written. -/
theorem frameHeader_length
    {opcode : Nat} (mask_data : Bool) {data_len : Nat} (mask : Mask)
    (hopcode : opcode < 16)
    (hlen : data_len < 2 ^ 63) :
    (frameHeader opcode mask_data data_len mask).length =
      frameHeaderSize true mask_data data_len := by
  rw [frameHeader_bytes mask_data mask hopcode hlen, Lib.FrameHeader.bytes_length]
  simp only [frameHeaderSize, if_true, sentHeader, Lib.FrameHeader.keyBytes,
    Lib.LengthForm.shortest]
  cases mask_data <;> split <;> try split
  all_goals rfl

theorem frameHeaderSize_masked
    (data_len : Nat) :
    frameHeaderSize true true data_len = calculateFrameHeaderSize data_len :=
  rfl

/-! ### The first buffer of a packet -/

theorem calculateFrameHeaderSize_le
    (data_len : Nat) :
    calculateFrameHeaderSize data_len ≤ 14 := by
  unfold calculateFrameHeaderSize
  split
  · decide
  · split <;> decide

/-- The header of a packet leaves room for a frame header in an `int`. -/
theorem fixedHeader_fits
    (header : Header) {total : Nat} (data_len : Nat)
    (h : total < 2 ^ 63) :
    (MQTTPacket.fixedHeader header total).length + calculateFrameHeaderSize data_len < 2 ^ 31 := by
  have hencode := (MQTTPacket.encode_length_le_iff 8 _).mpr
    (lt_of_lt_of_eq h (by decide : 2 ^ 63 = 128 ^ (8 + 1)))
  have hsize := calculateFrameHeaderSize_le data_len
  rw [MQTTPacket.fixedHeader, List.length_cons]
  omega

/-! ### A packet that is masked for the first time -/

theorem toInt_eq
    {n : Nat}
    (h : n < 2 ^ 31) :
    toInt n = n := by
  have hwide : n * 2 < 2 ^ 32 := by omega
  refine Int.bmod_eq_of_le_mul_two ?_ ?_
  · exact le_trans (neg_nonpos.mpr (Int.natCast_nonneg _)) (by positivity)
  · exact_mod_cast hwide

theorem maskedCount_eq
    {ws_header_size buf0len : Nat}
    (h : buf0len + ws_header_size < 2 ^ 31) :
    maskedCount ws_header_size buf0len = buf0len := by
  rw [maskedCount, toInt_eq h, toInt_eq (by omega)]
  omega

/-- The loop masks bytes of the buffer, and no others. -/
theorem buildFrameData_fresh
    (opcode : Nat) (fresh : Mask) (buf0 : Bytes) {bufs : PacketBuffers}
    (hmask : bufs.mask.b₀ = 0)
    (hheader : buf0.length +
      calculateFrameHeaderSize (buf0.length + totalLength bufs.buffers) < 2 ^ 31) :
    buildFrameData opcode true fresh buf0 bufs =
      (frameHeader opcode true (buf0.length + totalLength bufs.buffers) fresh ++
          Lib.applyKey fresh.key 0 buf0,
        { buffers := maskBuffers fresh buf0.length bufs.buffers, mask := fresh }) := by
  rw [buildFrameData, if_pos rfl, frameHeaderSize_masked, maskedCount_eq hheader, if_pos hmask]
  dsimp only
  rw [List.take_length, List.drop_length, List.append_nil, maskBuffer_eq, buildFrame, if_pos hmask]

theorem totalLength_maskBuffers
    (mask : Mask) (idx : Nat) (bufs : List Bytes) :
    totalLength (maskBuffers mask idx bufs) = totalLength bufs := by
  rw [totalLength_eq, maskBuffers_flatten, Lib.applyKey_length, totalLength_eq]

/-- The frame is as long as `WebSocket_putdatas` computes it for the socket. -/
theorem buildFrameData_length
    (opcode : Nat) (fresh : Mask) (buf0 : Bytes) {bufs : PacketBuffers}
    (hopcode : opcode < 16)
    (hmask : bufs.mask.b₀ = 0)
    (htotal : buf0.length + totalLength bufs.buffers < 2 ^ 63)
    (hheader : buf0.length +
      calculateFrameHeaderSize (buf0.length + totalLength bufs.buffers) < 2 ^ 31) :
    let frame := buildFrameData opcode true fresh buf0 bufs
    totalLength (frame.1 :: frame.2.buffers) =
      calculateFrameHeaderSize (buf0.length + totalLength bufs.buffers) +
        (buf0.length + totalLength bufs.buffers) := by
  intro frame
  have hframe : frame = _ := buildFrameData_fresh opcode fresh buf0 hmask hheader
  rw [hframe, totalLength, List.map_cons, List.sum_cons, ← totalLength, totalLength_maskBuffers,
    List.length_append, Lib.applyKey_length,
    frameHeader_length true fresh hopcode htotal, frameHeaderSize_masked,
    Nat.add_assoc]

/-- The writes of the packet functions are those of frames. -/
theorem putFrame_putdatas
    (env : Env) (net : Net) (buf0 : Bytes) {bufs : PacketBuffers}
    (hmask : bufs.mask.b₀ = 0)
    (htotal : buf0.length + totalLength bufs.buffers < 2 ^ 63)
    (hheader : buf0.length +
      calculateFrameHeaderSize (buf0.length + totalLength bufs.buffers) < 2 ^ 31) :
    (putFrame env net buf0 bufs).1 = putdatas env net buf0.length bufs := by
  have hlength := buildFrameData_length OP_BINARY (env.rand net.calls) buf0
    (by decide) hmask htotal hheader
  have hbuffers : (buildFrameData OP_BINARY true (env.rand net.calls) buf0 bufs).2 =
      buildFrame (env.rand net.calls) buf0.length bufs := by
    rw [buildFrameData_fresh _ _ _ hmask hheader, buildFrame, if_pos hmask]
  rw [putFrame, putdatas]
  by_cases hws : net.websocket = true
  · rw [if_pos hws, if_pos hws]
    dsimp only at hlength ⊢
    rw [hlength, hbuffers, totalLength]
    by_cases hrc : (Socket.putdatas env net (calculateFrameHeaderSize (buf0.length +
        (bufs.buffers.map List.length).sum) + (buf0.length +
        (bufs.buffers.map List.length).sum))).1 ≠ TCPSOCKET_INTERRUPTED
    · rw [if_pos hrc, if_pos hrc]
    · rw [if_neg hrc, if_neg hrc]
  · rw [if_neg hws, if_neg hws]
    simp only [totalLength, List.map_cons, List.sum_cons]

/--
What is written of a packet is one frame: a header that says its length, of the
size that was computed, and the buffers, masked one after the other.  The
buffers are left as they were.
-/
theorem putFrame_sends_frame
    (env : Env) (net : Net) (buf0 : Bytes) (bufs : PacketBuffers)
    (hws : net.websocket = true)
    (hmask : bufs.mask.b₀ = 0)
    (htotal : buf0.length + totalLength bufs.buffers < 2 ^ 31)
    (hheader : buf0.length +
      calculateFrameHeaderSize (buf0.length + totalLength bufs.buffers) < 2 ^ 31)
    (hcomplete : (putFrame env net buf0 bufs).1.1 = TCPSOCKET_COMPLETE) :
    ∃ (key : Lib.FrameKey) (header : Lib.FrameHeader),
      header.fin = true ∧ header.opcode = OP_BINARY ∧ header.key = some key ∧
      header.len = buf0.length + totalLength bufs.buffers ∧
      header.form = Lib.LengthForm.shortest header.len ∧
      header.bytes.length = calculateFrameHeaderSize header.len ∧
      (putFrame env net buf0 bufs).2.flatten =
        header.bytes ++ Lib.applyKey key 0 (buf0 ++ bufs.buffers.flatten) ∧
      (putFrame env net buf0 bufs).1.2.1.buffers = bufs.buffers := by
  have hlen : buf0.length + totalLength bufs.buffers < 2 ^ 63 := lt_trans htotal (by decide)
  refine ⟨(env.rand net.calls).key, sentHeader OP_BINARY true _ (env.rand net.calls)
    (by decide) hlen, rfl, rfl, rfl, rfl, rfl, ?_, ?_, ?_⟩
  · rw [← frameHeader_bytes, frameHeader_length true _ (by decide) hlen, frameHeaderSize_masked]
    rfl
  · have hframe := buildFrameData_fresh OP_BINARY (env.rand net.calls) buf0 hmask
      hheader
    have hoffered : (putFrame env net buf0 bufs).2 =
        (buildFrameData OP_BINARY true (env.rand net.calls) buf0 bufs).1 ::
          (buildFrameData OP_BINARY true (env.rand net.calls) buf0 bufs).2.buffers := by
      rw [putFrame, if_pos hws]
      dsimp only
      split <;> rfl
    rw [hoffered, hframe, List.flatten_cons, maskBuffers_flatten, Lib.applyKey_append,
      Nat.zero_add, frameHeader_bytes true _ (by decide) hlen, List.append_assoc]
  · rw [putFrame_putdatas env net buf0 hmask hlen hheader, putdatas, if_pos hws] at hcomplete ⊢
    dsimp only at hcomplete ⊢
    split
    · rw [unmaskData_buildFrame _ _ _ hmask]
    · rename_i hrc
      rw [if_neg hrc] at hcomplete
      rw [not_not.mp hrc] at hcomplete
      exact absurd hcomplete (by decide)

def publishPacket : PacketBuffers :=
  ⟨[[0, 1], [97], [1, 2, 3]], ⟨0, 0, 0, 0⟩⟩

theorem putFrame_sends_frame_publish :
    (putFrame Env.reliable ⟨true, false, none, 0, []⟩ [0x30, 6] publishPacket).2.flatten =
        [0x82, 0x88, 1, 2, 3, 4, 0x31, 4, 3, 5, 0x60, 3, 1, 7] ∧
      ∃ (key : Lib.FrameKey) (header : Lib.FrameHeader),
        header.key = some key ∧
        (putFrame Env.reliable ⟨true, false, none, 0, []⟩ [0x30, 6] publishPacket).2.flatten =
          header.bytes ++ Lib.applyKey key 0 ([0x30, 6] ++ publishPacket.buffers.flatten) := by
  obtain ⟨key, header, _, _, hkey, _, _, _, hwritten, _⟩ :=
    putFrame_sends_frame Env.reliable ⟨true, false, none, 0, []⟩ [0x30, 6] publishPacket rfl rfl
      (by decide) (by decide) (by decide)
  exact ⟨by decide, key, header, hkey, hwritten⟩

end WebSocket
end PahoMqtt
