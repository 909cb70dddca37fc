import PahoMqtt.FrameParsing

/-!
# A frame that is read back

The frame that `WebSocket_buildFrame` makes of a packet is given to
`WebSocket_receiveFrame`.  The payload comes out as it is in the frame: the key
is read past, and the data stays masked.
-/

namespace PahoMqtt
namespace WebSocket

/-- Nothing was read yet, and these bytes are on their way. -/
def startReading (unread : Bytes) (pieces : List Nat) : FrameReading where
  reading := ⟨SocketBuffer.initialize_buffers, ⟨unread, pieces⟩⟩
  websocket := true
  in_frames := .empty
  frame_buffer := none
  frame_buffer_len := 0
  frame_buffer_index := 0
  pongs := []

theorem steady_startReading
    (socket : Nat) (unread : Bytes) (pieces : List Nat) :
    Steady socket (startReading unread pieces) := by
  refine ⟨⟨List.nodup_nil, SocketBuffer.newDefQ, ?_, rfl, Nat.zero_le _⟩, Nat.le_refl 0⟩
  exact SocketBuffer.Current.default rfl rfl (Or.inr ⟨rfl, rfl⟩) rfl rfl

/-- The bytes of a frame behind its header, as they are sent. -/
def sentPayload (mask_data : Bool) (key : Mask) (buf0 : Bytes) (bufs : List Bytes) : Bytes :=
  if mask_data then
    let idx := maskedCount (frameHeaderSize true true (buf0.length + totalLength bufs)) buf0.length
    Lib.applyKey key.key 0 (buf0.take idx) ++ buf0.drop idx ++
      Lib.applyKey key.key idx bufs.flatten
  else buf0 ++ bufs.flatten

/-- The bytes of a frame: the header with the first buffer, and the others. -/
def frameBytes (opcode : Nat) (mask_data : Bool) (fresh : Mask) (buf0 : Bytes)
    (bufs : PacketBuffers) : Bytes :=
  let (wsbuf0, bufs) := buildFrameData opcode mask_data fresh buf0 bufs
  wsbuf0 ++ bufs.buffers.flatten

theorem bmod_le_self
    (n m : Nat) :
    (n : Int).bmod m ≤ n := by
  have hmod : (n : Int) % m ≤ n := by
    rw [← Int.natCast_mod]
    exact_mod_cast Nat.mod_le n m
  rw [Int.bmod]
  split
  · exact hmod
  · omega

theorem maskedCount_le
    {ws_header_size buf0len : Nat}
    (h : ws_header_size ≤ 14) :
    maskedCount ws_header_size buf0len ≤ buf0len := by
  have hsmall : toInt ws_header_size = ws_header_size := toInt_eq (by omega)
  have hle : toInt (buf0len + ws_header_size) ≤ (buf0len + ws_header_size : Nat) :=
    bmod_le_self _ _
  rw [maskedCount, hsmall]
  omega

theorem sentPayload_length
    (mask_data : Bool) (key : Mask) (buf0 : Bytes) (bufs : List Bytes) :
    (sentPayload mask_data key buf0 bufs).length = buf0.length + totalLength bufs := by
  unfold sentPayload
  split
  · dsimp only
    rw [List.length_append, List.length_append, Lib.applyKey_length, Lib.applyKey_length,
      List.length_take, List.length_drop, totalLength_eq]
    omega
  · rw [List.length_append, totalLength_eq]

/-- The frame is the header and the payload. -/
theorem frameBytes_eq
    {opcode : Nat} (mask_data : Bool) (fresh : Mask) (buf0 : Bytes) {bufs : PacketBuffers}
    (hopcode : opcode < 16)
    (hmask : bufs.mask.b₀ = 0)
    (hlen : buf0.length + totalLength bufs.buffers < 2 ^ 63) :
    ∃ mask, frameBytes opcode mask_data fresh buf0 bufs =
      (sentHeader opcode mask_data _ mask hopcode hlen).bytes ++
        sentPayload mask_data fresh buf0 bufs.buffers := by
  cases mask_data with
  | true =>
      refine ⟨fresh, ?_⟩
      rw [frameBytes, buildFrameData, if_pos rfl, if_pos hmask]
      dsimp only
      rw [buildFrame, if_pos hmask, maskBuffers_flatten, maskBuffer_eq, sentPayload, if_pos rfl,
        frameHeader_bytes true fresh hopcode hlen]
      simp only [List.append_assoc]
  | false =>
      refine ⟨bufs.mask, ?_⟩
      rw [frameBytes, buildFrameData, if_neg Bool.false_ne_true]
      dsimp only
      rw [sentPayload, if_neg Bool.false_ne_true, frameHeader_bytes false bufs.mask hopcode hlen,
        List.append_assoc]

/-- The payload is the packet where the key is zero at every position that is masked. -/
theorem sentPayload_eq_iff
    (mask_data : Bool) (key : Mask) (buf0 : Bytes) (bufs : List Bytes) :
    sentPayload mask_data key buf0 bufs = buf0 ++ bufs.flatten ↔
      (mask_data = true → ∀ i < maskedCount
        (frameHeaderSize true true (buf0.length + totalLength bufs)) buf0.length +
          totalLength bufs, key.key.at i = 0) := by
  cases mask_data with
  | false =>
      simp [sentPayload]
  | true =>
      have hle : maskedCount (frameHeaderSize true true (buf0.length + totalLength bufs))
          buf0.length ≤ buf0.length :=
        maskedCount_le (calculateFrameHeaderSize_le _)
      rw [sentPayload, if_pos rfl]
      dsimp only
      generalize maskedCount (frameHeaderSize true true (buf0.length + totalLength bufs))
        buf0.length = idx at hle ⊢
      have hparts : Lib.applyKey key.key 0 (buf0.take idx) ++ buf0.drop idx ++
            Lib.applyKey key.key idx bufs.flatten = buf0 ++ bufs.flatten ↔
          Lib.applyKey key.key 0 (buf0.take idx) = buf0.take idx ∧
            Lib.applyKey key.key idx bufs.flatten = bufs.flatten := by
        constructor
        · intro h
          have hlength : (Lib.applyKey key.key 0 (buf0.take idx) ++ buf0.drop idx).length =
              buf0.length := by
            rw [List.length_append, Lib.applyKey_length, ← List.length_append,
              List.take_append_drop]
          obtain ⟨hfirst, hrest⟩ := List.append_inj h hlength
          refine ⟨?_, hrest⟩
          conv_rhs at hfirst => rw [← List.take_append_drop idx buf0]
          exact (List.append_inj hfirst (Lib.applyKey_length _ _ _)).1
        · rintro ⟨hfirst, hrest⟩
          rw [hfirst, hrest, List.take_append_drop]
      rw [hparts, Lib.applyKey_eq_self_iff, Lib.applyKey_eq_self_iff, List.length_take,
        Nat.min_eq_left hle, ← totalLength_eq]
      constructor
      · rintro ⟨hfirst, hrest⟩ _ i hi
        by_cases hlow : i < idx
        · have := hfirst i hlow
          rwa [Nat.zero_add] at this
        · have := hrest (i - idx) (by omega)
          rwa [Nat.add_sub_cancel' (not_lt.mp hlow)] at this
      · intro hall
        refine ⟨fun i hi => ?_, fun i hi => hall rfl (idx + i) (by omega)⟩
        rw [Nat.zero_add]
        exact hall rfl i (by omega)

/-- The call gives one frame with the packet, and no byte is left. -/
def DecodesTo (data : Bytes) (out : Option ((Int × Option Nat) × FrameReading)) : Prop :=
  ∃ w, out = some ((TCPSOCKET_COMPLETE, some data.length), w) ∧
    w.in_frames = .frame ⟨data, 0⟩ ∧ content w = []

/-- A single frame with data is read as it is. -/
theorem receiveFrame_single
    (socket : Nat) (rcs : Int) {h : Lib.FrameHeader} {body : Bytes} {pieces : List Nat}
    (hbody : body.length = h.len)
    (hfin : h.fin = true)
    (hopcode : h.opcode ≤ OP_BINARY)
    (hcount : 4 ≤ pieces.length)
    (hpieces : ∀ piece ∈ pieces, (h.bytes ++ body).length ≤ piece) :
    DecodesTo body (receiveFrame (startReading (h.bytes ++ body) pieces) socket rcs) := by
  have hnext : Next (startReading (h.bytes ++ body) pieces) h body [] := by
    refine ⟨?_, hbody⟩
    rw [List.append_nil]
    rfl
  have hsize : frameLength h = (h.bytes ++ body).length := by
    rw [frameLength, List.length_append, hbody]
  have hlt : (received (startReading (h.bytes ++ body) pieces)).length < frameLength h := by
    rw [frameLength_eq]
    change 0 < _
    omega
  have hopcode' : nextOpcode OP_BINARY h ≤ OP_BINARY := by
    rw [nextOpcode]
    split
    · exact hopcode
    · exact Nat.le_refl _
  have hknown : Known (nextOpcode OP_BINARY h) :=
    ⟨le_trans hopcode' (by decide), Or.inl hopcode'⟩
  rcases readFrame_spec rcs (steady_startReading socket (h.bytes ++ body) pieces) rfl
    hnext hlt hknown (fun hne => absurd rfl hne) with
    ⟨rcs', w', hread, hsame, hsteady, hunread, hpos⟩ | ⟨w', _, _, _, _, _, hstarved⟩
  case inr =>
    refine absurd ⟨hcount, ?_⟩ (hstarved hnext.le_content)
    rw [hsize]
    exact hpieces
  obtain ⟨b, w'', hraw, hsame', _, hreceived, _, hincoming⟩ :=
    getRawSocketData_zero (w := { w' with in_frames := store w'.in_frames ⟨body, 0⟩ })
      ⟨hsteady.vacant, hsteady.index_le⟩ hpos.ne'
  have hcontrol : ¬(nextOpcode OP_BINARY h = OP_PING ∨ nextOpcode OP_BINARY h = OP_PONG) := by
    unfold OP_PING OP_PONG OP_BINARY at *
    omega
  have hclose : nextOpcode OP_BINARY h ≠ OP_CLOSE := by
    unfold OP_CLOSE OP_BINARY at *
    omega
  have hne : rcs' ≠ SOCKET_ERROR := by
    rw [SOCKET_ERROR]
    omega
  refine ⟨{ w'' with in_frames := .frame ⟨body, 0⟩ }, ?_, rfl, ?_⟩
  · change receiveLoop _ _ _ _ none _ = _
    rw [receiveLoop, hread]
    dsimp only [appendPayload]
    rw [hraw]
    dsimp only
    rw [if_neg hne, if_neg (by rw [hfin]; decide), if_neg hcontrol, if_neg hclose]
    rfl
  · change received w'' ++ w''.reading.incoming.unread = []
    rw [hreceived, hincoming, hunread]
    rfl

/--
The frame made of a packet is read back as the packet exactly where it was not
masked, or the key is zero at every position that was.
-/
theorem built_frame_decodes_iff
    (socket : Nat) (rcs : Int) (opcode : Nat) (mask_data : Bool) (fresh : Mask) (buf0 : Bytes)
    (bufs : PacketBuffers) (pieces : List Nat)
    (hopcode : opcode ≤ OP_BINARY)
    (hmask : bufs.mask.b₀ = 0)
    (htotal : buf0.length + totalLength bufs.buffers < 2 ^ 31)
    (hcount : 4 ≤ pieces.length)
    (hpieces : ∀ piece ∈ pieces, (frameBytes opcode mask_data fresh buf0 bufs).length ≤ piece) :
    DecodesTo (buf0 ++ bufs.buffers.flatten)
        (receiveFrame (startReading (frameBytes opcode mask_data fresh buf0 bufs) pieces)
          socket rcs) ↔
      (mask_data = true → ∀ i < maskedCount
        (frameHeaderSize true true (buf0.length + totalLength bufs.buffers)) buf0.length +
          totalLength bufs.buffers, fresh.key.at i = 0) := by
  have hlen : buf0.length + totalLength bufs.buffers < 2 ^ 63 := lt_trans htotal (by decide)
  have hsmall : opcode < 16 := lt_of_le_of_lt hopcode (by decide)
  obtain ⟨mask, hframe⟩ := frameBytes_eq mask_data fresh buf0 hsmall hmask hlen
  rw [hframe] at hpieces ⊢
  have hdecodes := receiveFrame_single socket rcs
    (sentPayload_length mask_data fresh buf0 bufs.buffers) rfl hopcode hcount hpieces
  rw [← sentPayload_eq_iff]
  constructor
  · rintro ⟨w, hout, hframes, _⟩
    obtain ⟨w', hout', hframes', _⟩ := hdecodes
    obtain rfl : w = w' := by
      rw [hout] at hout'
      exact congrArg Prod.snd (Option.some.inj hout')
    rw [hframes] at hframes'
    injection hframes' with hdata
    injection hdata with hdata
    exact hdata.symm
  · intro heq
    rw [heq] at hdecodes
    rw [heq]
    exact hdecodes

def pingreq : PacketBuffers := ⟨[[0]], ⟨0, 0, 0, 0⟩⟩

theorem built_frame_decodes_iff_pingreq :
    DecodesTo [0xC0, 0] (receiveFrame (startReading
      (frameBytes OP_BINARY false ⟨1, 2, 3, 4⟩ [0xC0] pingreq) [9, 9, 9, 9]) 3 0) :=
  (built_frame_decodes_iff 3 0 OP_BINARY false ⟨1, 2, 3, 4⟩ [0xC0] pingreq [9, 9, 9, 9]
    (by decide) rfl (by decide) (by decide) (by decide)).mpr (by decide)

/-- A frame as the client itself sends it. -/
theorem masked_frame_stays_masked :
    ¬DecodesTo [0xC0, 0] (receiveFrame (startReading
      (frameBytes OP_BINARY true ⟨1, 2, 3, 4⟩ [0xC0] pingreq) [9, 9, 9, 9]) 3 0) := by
  have hframes : (receiveFrame (startReading
      (frameBytes OP_BINARY true ⟨1, 2, 3, 4⟩ [0xC0] pingreq) [9, 9, 9, 9]) 3 0).map
        (fun out => out.2.in_frames) = some (.frame ⟨[0xC1, 2], 0⟩) := by
    decide
  rintro ⟨w, hout, hin_frames, _⟩
  rw [hout, Option.map_some, hin_frames] at hframes
  exact absurd hframes (by decide)

end WebSocket
end PahoMqtt
