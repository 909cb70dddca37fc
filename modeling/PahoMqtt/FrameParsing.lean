import PahoMqtt.Reassembly
import PahoMqtt.WebSocketReceive

/-!
# Parsing received frames

The bytes of a frame pass through the queue of its socket to `frame_buffer`; no
data stays in the queue.  What is in `frame_buffer` and what is still on its way
are together the bytes that no frame was made of, and a read of a part of a frame
either gets the part from its position there or is interrupted.
-/

namespace PahoMqtt

/-! ### The queue of the socket -/

namespace SocketBuffer

/-- There is no data in the queue of the socket. -/
structure Vacant (buffers : SocketBuffer) (socket : Nat) : Prop where
  distinct : buffers.Distinct
  current : ∃ queue, buffers.Current socket queue ∧ queue.datalen = 0 ∧
    queue.buflen ≤ queue.buf.length

variable {buffers : SocketBuffer} {socket : Nat} {queue : SocketQueue}

/-- A queue without data is kept for the next read. -/
theorem Current.vacant_interrupted
    (h : buffers.Current socket queue)
    (hdistinct : buffers.Distinct)
    (hfits : queue.buflen ≤ queue.buf.length) :
    (buffers.interrupted socket 0).Vacant socket := by
  obtain ⟨hfind, hidle, hothers⟩ := h.interrupted 0
  exact ⟨hothers.distinct hdistinct, _, Current.listed hfind hidle, rfl, hfits⟩

/-- The data of a queue is given up. -/
theorem Current.vacant_complete
    (h : buffers.Current socket queue)
    (hdistinct : buffers.Distinct)
    (hfits : queue.buflen ≤ queue.buf.length) :
    (buffers.complete socket).Vacant socket := by
  obtain ⟨hfind, hidle, _, hothers⟩ := h.complete hdistinct hfits
  refine ⟨hothers.distinct hdistinct, _, Current.default hfind rfl ?_ ?_ hidle.datalen, hidle.datalen,
    hidle.fits⟩
  · exact Or.inr ⟨hidle.socket, hidle.index⟩
  · exact hidle.index.trans hidle.headerlen.symm

theorem Vacant.complete
    (h : buffers.Vacant socket) :
    (buffers.complete socket).Vacant socket := by
  obtain ⟨queue, hcurrent, _, hfits⟩ := h.current
  exact hcurrent.vacant_complete h.distinct hfits

theorem grow_fits
    {queue : SocketQueue} (n : Nat)
    (hempty : queue.datalen = 0)
    (hfits : queue.buflen ≤ queue.buf.length) :
    (grow queue n).buflen ≤ (grow queue n).buf.length ∧ (grow queue n).datalen = 0 := by
  rw [grow]
  split
  · refine ⟨?_, hempty⟩
    dsimp only
    rw [if_neg (by omega), length_realloc]
  · exact ⟨hfits, hempty⟩

/-- What was read of a part is given up too, when it was copied. -/
theorem Current.vacant_keep
    (h : buffers.Current socket queue)
    (hdistinct : buffers.Distinct)
    (hfits : queue.buflen ≤ queue.buf.length)
    (bytes actual_len : Nat) :
    ((Socket.keep buffers socket bytes actual_len).complete socket).Vacant socket := by
  rw [Socket.keep]
  split
  · exact (h.vacant_complete hdistinct hfits).complete
  · obtain ⟨hfind, hidle, hothers⟩ := h.interrupted actual_len
    exact (Current.listed hfind hidle).vacant_complete (hothers.distinct hdistinct) hfits

end SocketBuffer

namespace Socket

variable {r : Reading} {socket n : Nat}

theorem getQueuedData_vacant
    (h : r.buffers.Vacant socket)
    (n : Nat) :
    ∃ buf queue, r.buffers.getQueuedData socket n = ((buf, 0),
        (r.buffers.getQueuedData socket n).2) ∧
      (r.buffers.getQueuedData socket n).2.Current socket queue ∧
      (r.buffers.getQueuedData socket n).2.Distinct ∧
      queue.buf = buf ∧ queue.datalen = 0 ∧ n ≤ queue.buflen ∧
      queue.buflen ≤ queue.buf.length := by
  obtain ⟨queue, hcurrent, hempty, hfits⟩ := h.current
  obtain ⟨hdata, hgrown, hothers⟩ := hcurrent.getQueuedData n
  obtain ⟨hgrownfits, hgrownempty⟩ := SocketBuffer.grow_fits n hempty hfits
  refine ⟨_, SocketBuffer.grow queue n, Prod.ext ?_ rfl, hgrown, hothers.distinct h.distinct, rfl,
    hgrownempty, SocketBuffer.grow_buflen queue n, hgrownfits⟩
  rw [hdata, hempty]

/-- `recv` has nothing. -/
theorem getdata_nothing
    (h : r.buffers.Vacant socket)
    (hn : 0 < n)
    (hrecv : (recv r.incoming n).1 = none) :
    (∃ buf, (getdata r socket n).1 = (some buf, 0)) ∧
      (getdata r socket n).2.incoming = (recv r.incoming n).2 ∧
      (getdata r socket n).2.buffers.Vacant socket ∧
      ∀ rc, getdataRc r socket n rc = EWOULDBLOCK := by
  obtain ⟨buf, queue, hqueued, hcurrent, hdistinct, hbuf, hempty, _, hfits⟩ :=
    getQueuedData_vacant h n
  have hpos : n ≠ 0 := Nat.pos_iff_ne_zero.mp hn
  have hres : recv r.incoming n = (none, (recv r.incoming n).2) := Prod.ext hrecv rfl
  rw [getdata, if_neg hpos, hqueued]
  dsimp only
  rw [Nat.sub_zero, hres]
  refine ⟨⟨buf, rfl⟩, rfl, ?_, ?_⟩
  · rw [keep, if_neg hn.ne]
    exact hcurrent.vacant_interrupted hdistinct hfits
  · intro rc
    rw [getdataRc, if_neg hpos, hqueued]
    dsimp only
    rw [Nat.sub_zero, hres]

/-- `recv` has some of the bytes. -/
theorem getdata_some
    (h : r.buffers.Vacant socket)
    (hn : 0 < n)
    {data : Bytes}
    (hrecv : (recv r.incoming n).1 = some data)
    (hne : data ≠ [])
    (hle : data.length ≤ n) :
    (∃ buf, (getdata r socket n).1 = (some buf, data.length) ∧ buf.take data.length = data) ∧
      (getdata r socket n).2.incoming = (recv r.incoming n).2 ∧
      ((getdata r socket n).2.buffers.complete socket).Vacant socket ∧
      ∀ rc, getdataRc r socket n rc = data.length := by
  obtain ⟨buf, queue, hqueued, hcurrent, hdistinct, hbuf, hempty, hroom, hfits⟩ :=
    getQueuedData_vacant h n
  have hpos : n ≠ 0 := Nat.pos_iff_ne_zero.mp hn
  have hres : recv r.incoming n = (some data, (recv r.incoming n).2) := Prod.ext hrecv rfl
  obtain ⟨c, rest, rfl⟩ := List.exists_cons_of_ne_nil hne
  have hlen : (SocketBuffer.overwrite buf 0 (c :: rest)).length = buf.length := by
    rw [← hbuf]
    exact SocketBuffer.length_overwrite (by omega)
  rw [getdata, if_neg hpos, hqueued]
  dsimp only
  rw [Nat.sub_zero, hres]
  dsimp only
  rw [Nat.zero_add]
  refine ⟨⟨_, rfl, ?_⟩, rfl, ?_, ?_⟩
  · have htake : (SocketBuffer.overwrite buf 0 (c :: rest)).take (0 + (c :: rest).length) =
        buf.take 0 ++ c :: rest :=
      SocketBuffer.take_overwrite (Nat.zero_le buf.length)
    rwa [Nat.zero_add] at htake
  · obtain ⟨hfilled, hothers⟩ := hcurrent.fill (SocketBuffer.overwrite buf 0 (c :: rest))
    refine hfilled.vacant_keep (hothers.distinct hdistinct) ?_ _ _
    dsimp only
    rw [hlen, ← hbuf]
    exact hfits
  · intro rc
    rw [getdataRc, if_neg hpos, hqueued]
    dsimp only
    rw [Nat.sub_zero, hres]

end Socket
namespace WebSocket

/-! ### Raw data -/

/-- Reading changes neither the frames nor what was sent back. -/
structure SameFrames (w w' : FrameReading) : Prop where
  websocket : w'.websocket = w.websocket
  in_frames : w'.in_frames = w.in_frames
  pongs : w'.pongs = w.pongs

theorem SameFrames.refl
    (w : FrameReading) :
    SameFrames w w :=
  ⟨rfl, rfl, rfl⟩

theorem SameFrames.trans
    {a b c : FrameReading}
    (hab : SameFrames a b)
    (hbc : SameFrames b c) :
    SameFrames a c :=
  ⟨hbc.websocket.trans hab.websocket, hbc.in_frames.trans hab.in_frames,
    hbc.pongs.trans hab.pongs⟩

/-- Between two reads of parts. -/
structure Steady (socket : Nat) (w : FrameReading) : Prop where
  vacant : w.reading.buffers.Vacant socket
  index_le : w.frame_buffer_index ≤ (received w).length

/-- The bytes from the current position on. -/
def ahead (w : FrameReading) : Bytes := (content w).drop w.frame_buffer_index

/-- What a read of up to `n` bytes does to the bytes, whether it gets them all or not. -/
structure Reads (socket n : Nat) (rc rc' : Int) (w w' : FrameReading) : Prop where
  same : SameFrames w w'
  steady : Steady socket w'
  content : content w' = content w
  length_le : (received w').length ≤ max (received w).length (w.frame_buffer_index + n)
  rc : (rc' = rc ∧ received w' = received w) ∨ 0 < rc'

/-- A read that got all bytes. -/
structure Got (n : Nat) (w w' : FrameReading) : Prop where
  index : w'.frame_buffer_index = w.frame_buffer_index + n
  pieces : w'.reading.incoming.pieces = w.reading.incoming.pieces ∨
    ∃ piece, w.reading.incoming.pieces = piece :: w'.reading.incoming.pieces

/-- A read that ended before. -/
structure Missed (n : Nat) (rc' : Int) (w w' : FrameReading) : Prop where
  length_lt : (received w').length < w.frame_buffer_index + n
  rc_pos : 0 < rc'
  starved : ∀ piece pieces, w.reading.incoming.pieces = piece :: pieces → n ≤ piece →
    (ahead w).length < n

/-- A part in the buffer. -/
theorem fromBuffer_got
    {w : FrameReading} {n : Nat} {rc : Int}
    (h : n ≤ (received w).length - w.frame_buffer_index) :
    fromBuffer w n rc = ((some ((received w).drop w.frame_buffer_index), n, rc),
      { w with frame_buffer_index := w.frame_buffer_index + n }) := by
  rw [fromBuffer, Nat.min_eq_left h]

theorem fromBuffer_missed
    {w : FrameReading} {n : Nat} {rc : Int}
    (h : (received w).length - w.frame_buffer_index ≤ n) :
    fromBuffer w n rc = ((some ((received w).drop w.frame_buffer_index),
      (received w).length - w.frame_buffer_index, rc),
      { w with frame_buffer_index := w.frame_buffer_index +
          ((received w).length - w.frame_buffer_index) }) := by
  rw [fromBuffer, Nat.min_eq_right h]

/-- What of the buffer is part of the bytes ahead. -/
theorem take_ahead
    {w : FrameReading} {n : Nat}
    (hindex : w.frame_buffer_index ≤ (received w).length)
    (h : n ≤ (received w).length - w.frame_buffer_index) :
    ((received w).drop w.frame_buffer_index).take n = (ahead w).take n := by
  rw [ahead, content, List.drop_append_of_le_length hindex, List.take_append_of_le_length]
  rw [List.length_drop]
  exact h

@[simp] theorem received_appendData
    (w : FrameReading) (data : Bytes) :
    received (appendData w data) = received w ++ data := by
  unfold appendData received
  cases w.frame_buffer with
  | none => rfl
  | some buffer =>
      dsimp only
      split <;> rfl

theorem appendData_same
    (w : FrameReading) (data : Bytes) :
    SameFrames w (appendData w data) ∧ (appendData w data).reading = w.reading := by
  unfold appendData
  cases w.frame_buffer with
  | none => exact ⟨⟨rfl, rfl, rfl⟩, rfl⟩
  | some buffer =>
      dsimp only
      split <;> exact ⟨⟨rfl, rfl, rfl⟩, rfl⟩

/-- The index is left where it is, unless there was no buffer. -/
theorem appendData_index
    {w : FrameReading}
    (hindex : w.frame_buffer_index ≤ (received w).length)
    (data : Bytes) :
    (appendData w data).frame_buffer_index = w.frame_buffer_index := by
  unfold appendData received at *
  cases hbuffer : w.frame_buffer with
  | none =>
      rw [hbuffer] at hindex
      exact (Nat.le_zero.mp hindex).symm
  | some buffer =>
      dsimp only
      split <;> rfl

/-! ### What `recv` gives -/

theorem recv_pieces
    (incoming : Incoming) (size : Nat) :
    (recv incoming size).2.pieces = incoming.pieces ∨
      ∃ piece, incoming.pieces = piece :: (recv incoming size).2.pieces := by
  rw [recv]
  split
  · exact Or.inl rfl
  · cases hpieces : incoming.pieces with
    | nil => exact Or.inl hpieces
    | cons piece pieces =>
        dsimp only
        split <;> exact Or.inr ⟨piece, rfl⟩

/-- A large piece fills the request, where there are as many bytes. -/
theorem recv_filled
    {incoming : Incoming} {size piece : Nat} {pieces : List Nat}
    (hsize : 0 < size)
    (hpieces : incoming.pieces = piece :: pieces)
    (hpiece : size ≤ piece)
    (hunread : size ≤ incoming.unread.length) :
    (recv incoming size).1 = some (incoming.unread.take size) := by
  have hsome : ¬(piece = 0 ∨ incoming.unread = []) := by
    rintro (rfl | hnil)
    · omega
    · rw [hnil, List.length_nil] at hunread
      omega
  rw [recv, if_neg (Nat.pos_iff_ne_zero.mp hsize), hpieces]
  dsimp only
  rw [if_neg hsome, Nat.min_eq_right hpiece]

/-- A read that `recv` does not fill is one that it has not enough bytes for, or gets a small piece. -/
theorem starved_of_recv
    {w : FrameReading} {n : Nat} {data : Bytes}
    (hindex : w.frame_buffer_index ≤ (received w).length)
    (hbuffered : (received w).length - w.frame_buffer_index < n)
    (hrecv : (recv w.reading.incoming
        (n - ((received w).length - w.frame_buffer_index))).1.getD [] = data)
    (hshort : data.length < n - ((received w).length - w.frame_buffer_index)) :
    ∀ piece pieces, w.reading.incoming.pieces = piece :: pieces → n ≤ piece →
      (ahead w).length < n := by
  intro piece pieces hpieces hpiece
  by_contra henough
  have hahead : (ahead w).length = (received w).length - w.frame_buffer_index +
      w.reading.incoming.unread.length := by
    rw [ahead, List.length_drop, content, List.length_append]
    omega
  rw [recv_filled (by omega) hpieces (by omega) (by omega), Option.getD_some] at hrecv
  rw [← hrecv, List.length_take] at hshort
  omega

/-- Data from the socket goes to the end of the buffer, and the part is taken from there. -/
theorem fromBuffer_reads
    {w w₁ : FrameReading} {socket n : Nat} {data : Bytes} {rc : Int}
    (hindex : w.frame_buffer_index ≤ (received w).length)
    (hbuffered : (received w).length - w.frame_buffer_index < n)
    (hdata : data.length ≤ n - ((received w).length - w.frame_buffer_index))
    (hrc : 0 < rc)
    (hsame : SameFrames w w₁)
    (hvacant : w₁.reading.buffers.Vacant socket)
    (hreceived : received w₁ = received w ++ data)
    (hindex₁ : w₁.frame_buffer_index = w.frame_buffer_index)
    (hunread : w.reading.incoming.unread = data ++ w₁.reading.incoming.unread)
    (hpieces : w₁.reading.incoming.pieces = w.reading.incoming.pieces ∨
      ∃ piece, w.reading.incoming.pieces = piece :: w₁.reading.incoming.pieces)
    (hstarved : data.length < n - ((received w).length - w.frame_buffer_index) →
      ∀ piece pieces, w.reading.incoming.pieces = piece :: pieces → n ≤ piece →
        (ahead w).length < n)
    (rc₀ : Int) :
    ∃ b len rc' w', fromBuffer w₁ n rc = ((some b, len, rc'), w') ∧
      Reads socket n rc₀ rc' w w' ∧
      ((len = n ∧ b.take n = (ahead w).take n ∧ Got n w w') ∨
        (len < n ∧ Missed n rc' w w')) := by
  have hlen : (received w₁).length = (received w).length + data.length := by
    rw [hreceived, List.length_append]
  have hcontent : content w₁ = content w := by
    rw [content, content, hreceived, hunread, List.append_assoc]
  have hahead : ahead w₁ = ahead w := by
    rw [ahead, ahead, hcontent, hindex₁]
  by_cases hall : data.length = n - ((received w).length - w.frame_buffer_index)
  · have hfits : n ≤ (received w₁).length - w₁.frame_buffer_index := by omega
    refine ⟨_, _, _, _, fromBuffer_got hfits, ⟨⟨hsame.1, hsame.2, hsame.3⟩, ⟨hvacant, ?_⟩, hcontent,
      ?_, Or.inr hrc⟩, Or.inl ⟨rfl, ?_, ⟨?_, hpieces⟩⟩⟩
    · change w₁.frame_buffer_index + n ≤ (received w₁).length
      omega
    · change (received w₁).length ≤ _
      omega
    · rw [take_ahead (by omega) hfits, hahead]
    · exact congrArg (· + n) hindex₁
  · have hfits : (received w₁).length - w₁.frame_buffer_index ≤ n := by omega
    refine ⟨_, _, _, _, fromBuffer_missed hfits, ⟨⟨hsame.1, hsame.2, hsame.3⟩, ⟨hvacant, ?_⟩,
      hcontent, ?_, Or.inr hrc⟩, Or.inr ⟨by omega, ⟨?_, hrc, hstarved (by omega)⟩⟩⟩
    · change w₁.frame_buffer_index + _ ≤ (received w₁).length
      omega
    · change (received w₁).length ≤ _
      omega
    · change (received w₁).length < _
      omega

theorem getRawSocketData_reads
    {w : FrameReading} {socket n : Nat}
    (h : Steady socket w)
    (hn : 0 < n)
    (rc : Int) :
    ∃ b len rc' w', getRawSocketData w socket n rc = ((some b, len, rc'), w') ∧
      Reads socket n rc rc' w w' ∧
      ((len = n ∧ b.take n = (ahead w).take n ∧ Got n w w') ∨
        (len < n ∧ Missed n rc' w w')) := by
  have hindex := h.index_le
  by_cases hbuffered : (received w).length - w.frame_buffer_index ≥ n
  · rw [getRawSocketData, if_pos ⟨hn, hbuffered⟩, fromBuffer_got hbuffered]
    refine ⟨_, _, _, _, rfl, ⟨⟨rfl, rfl, rfl⟩, ⟨h.vacant, ?_⟩, rfl, le_max_left _ _,
      Or.inl ⟨rfl, rfl⟩⟩, Or.inl ⟨rfl, take_ahead hindex hbuffered, ⟨rfl, Or.inl rfl⟩⟩⟩
    change _ + n ≤ (received w).length
    omega
  have hmissing : 0 < n - ((received w).length - w.frame_buffer_index) := by omega
  have hstarved : ∀ data : Bytes, (recv w.reading.incoming
        (n - ((received w).length - w.frame_buffer_index))).1.getD [] = data →
      data.length < n - ((received w).length - w.frame_buffer_index) →
      ∀ piece pieces, w.reading.incoming.pieces = piece :: pieces → n ≤ piece →
        (ahead w).length < n :=
    fun _ hrecv => starved_of_recv hindex (not_le.mp hbuffered) hrecv
  rw [getRawSocketData, if_neg fun hall => hbuffered hall.2]
  cases hget : Socket.getdata w.reading socket
      (n - ((received w).length - w.frame_buffer_index)) with
  | mk res reading =>
  dsimp only
  rcases recv_cases w.reading.incoming hmissing with ⟨hrecv, hunread⟩ |
    ⟨data, hne, hle, hrecv, hunread⟩
  · obtain ⟨⟨buf, hdata⟩, hincoming, hvacant, hrc⟩ :=
      Socket.getdata_nothing h.vacant hmissing hrecv
    rw [hget] at hdata hincoming hvacant
    obtain rfl : res = (some buf, 0) := hdata
    rw [hget, hrc, if_neg (by decide), if_neg hmissing.ne']
    refine ⟨_, _, _, _, rfl, ⟨⟨rfl, rfl, rfl⟩, ⟨hvacant, hindex⟩, ?_, le_max_left _ _,
      Or.inr (by decide)⟩, Or.inr ⟨hn, ⟨?_, by decide, ?_⟩⟩⟩
    · change received w ++ reading.incoming.unread = _
      rw [hincoming, hunread]
      rfl
    · change (received w).length < _
      omega
    · exact hstarved [] (by rw [hrecv]; rfl) hmissing
  · obtain ⟨⟨buf, hdata, htake⟩, hincoming, hvacant, hrc⟩ :=
      Socket.getdata_some h.vacant hmissing hrecv hne hle
    have hpos : 0 < data.length := List.length_pos_iff.mpr hne
    rw [hget] at hdata hincoming hvacant
    obtain rfl : res = (some buf, data.length) := hdata
    obtain ⟨hsame, hreading⟩ := appendData_same { w with reading } data
    rw [hget, hrc, if_neg (by omega), if_neg hmissing.ne']
    dsimp only
    rw [if_pos (by omega), htake]
    refine fromBuffer_reads hindex (not_le.mp hbuffered) hle (by omega) ?_ ?_ ?_ ?_ ?_ ?_
      (fun hshort => hstarved data (by rw [hrecv]; rfl) hshort) rc
    · exact ⟨hsame.1, hsame.2, hsame.3⟩
    · dsimp only
      rw [hreading]
      exact hvacant
    · exact received_appendData _ _
    · exact appendData_index (w := { w with reading }) hindex data
    · dsimp only
      rw [hreading, hincoming]
      exact hunread
    · dsimp only
      rw [hreading, hincoming]
      exact recv_pieces _ _

/-- The frame is complete; the buffer is given up. -/
theorem getRawSocketData_zero
    {w : FrameReading} {socket : Nat}
    (h : Steady socket w)
    {rc : Int}
    (hrc : rc ≠ 0) :
    ∃ b w', getRawSocketData w socket 0 rc = ((some b, 0, rc), w') ∧ SameFrames w w' ∧
      Steady socket w' ∧ received w' = [] ∧ w'.frame_buffer_index = 0 ∧
      w'.reading.incoming = w.reading.incoming := by
  rw [getRawSocketData, if_neg fun hall => absurd hall.1 (Nat.lt_irrefl 0)]
  simp only [Nat.zero_sub, Socket.getdataRc, if_true, Socket.getdata, if_neg hrc]
  exact ⟨_, _, rfl, ⟨rfl, rfl, rfl⟩, ⟨h.vacant.complete, Nat.le_refl 0⟩, rfl, rfl, rfl⟩

/-! ### Parts of a frame -/

/-- `recv` fills four requests of up to `size` bytes. -/
def Plenty (size : Nat) (w : FrameReading) : Prop :=
  4 ≤ w.reading.incoming.pieces.length ∧ ∀ piece ∈ w.reading.incoming.pieces, size ≤ piece

/-- From `w₀` on `i` bytes of a frame were read, in at most `k` reads. -/
structure Walked (socket : Nat) (w₀ : FrameReading) (rcs₀ : Int) (i k : Nat) (w : FrameReading)
    (rcs : Int) : Prop where
  same : SameFrames w₀ w
  steady : Steady socket w
  content : content w = content w₀
  index : w.frame_buffer_index = i
  length_le : (received w).length ≤ max (received w₀).length i
  rc : (rcs = rcs₀ ∧ received w = received w₀) ∨ 0 < rcs
  pieces : ∃ used, used.length ≤ k ∧
    w₀.reading.incoming.pieces = used ++ w.reading.incoming.pieces

/-- The frame of `size` bytes was not complete. -/
def Stopped {α : Type} (socket size : Nat) (w₀ : FrameReading)
    (out : Except Int α × FrameReading) : Prop :=
  ∃ w', out = (.error TCPSOCKET_INTERRUPTED, w') ∧ SameFrames w₀ w' ∧ Steady socket w' ∧
    content w' = content w₀ ∧ (received w').length < size ∧
    (size ≤ (content w₀).length → ¬Plenty size w₀)

theorem Walked.start
    {socket : Nat} {w : FrameReading}
    (h : Steady socket w)
    (hindex : w.frame_buffer_index = 0)
    (rcs : Int) :
    Walked socket w rcs 0 0 w rcs :=
  ⟨SameFrames.refl w, h, rfl, hindex, le_max_left _ _, Or.inl ⟨rfl, rfl⟩, [], Nat.le_refl 0, rfl⟩

namespace Walked

variable {socket i k : Nat} {w₀ w : FrameReading} {rcs₀ rcs : Int}

theorem ahead_eq
    (h : Walked socket w₀ rcs₀ i k w rcs) :
    ahead w = (WebSocket.content w₀).drop i := by
  rw [ahead, h.content, h.index]

/-- What was received at the start was not the whole frame, so the end of it came from the socket. -/
theorem rcs_pos
    (h : Walked socket w₀ rcs₀ i k w rcs)
    (hlt : (received w₀).length < i) :
    0 < rcs := by
  rcases h.rc with ⟨_, hsame⟩ | hpos
  · have hle := h.steady.index_le
    rw [h.index, hsame] at hle
    omega
  · exact hpos

theorem readPart
    (h : Walked socket w₀ rcs₀ i k w rcs)
    {n : Nat}
    (hn : 0 < n)
    (size : Nat)
    (hsize : i + n ≤ size)
    (hk : k < 4)
    (hrcs₀ : received w₀ ≠ [] → rcs₀ ≠ SOCKET_ERROR)
    (missing : Int) :
    (∃ rcs' w', WebSocket.readPart w socket n missing rcs =
        (.ok (((WebSocket.content w₀).drop i).take n, rcs'), w') ∧
      Walked socket w₀ rcs₀ (i + n) (k + 1) w' rcs') ∨
    Stopped socket size w₀ (WebSocket.readPart w socket n missing rcs) := by
  obtain ⟨b, len, rc', w', hraw, hreads, hgot⟩ := getRawSocketData_reads h.steady hn rcs
  have hrc : (rc' = rcs₀ ∧ received w' = received w₀) ∨ 0 < rc' := by
    rcases hreads.rc with ⟨rfl, hsame⟩ | hpos
    · rcases h.rc with ⟨rfl, hsame₀⟩ | hpos
      · exact Or.inl ⟨rfl, hsame.trans hsame₀⟩
      · exact Or.inr hpos
    · exact Or.inr hpos
  have hne : rc' ≠ SOCKET_ERROR := by
    rcases hgot with ⟨_, _, hgot⟩ | ⟨_, hmissed⟩
    · rcases hrc with ⟨rfl, hsame⟩ | hpos
      · refine hrcs₀ fun hnil => ?_
        have hle := hreads.steady.index_le
        rw [hgot.index, hsame, hnil, List.length_nil] at hle
        omega
      · rw [SOCKET_ERROR]
        omega
    · have hpos := hmissed.rc_pos
      rw [SOCKET_ERROR]
      omega
  have hlength := hreads.length_le
  have hlength₀ := h.length_le
  have hindex := h.index
  obtain ⟨used, hused, hpieces⟩ := h.pieces
  rw [WebSocket.readPart, hraw]
  dsimp only
  rw [if_neg hne]
  rcases hgot with ⟨rfl, htake, hgot⟩ | ⟨hshort, hmissed⟩
  · refine Or.inl ⟨rc', w', ?_, h.same.trans hreads.same, hreads.steady,
      hreads.content.trans h.content, ?_, ?_, hrc, ?_⟩
    · rw [if_neg (Nat.lt_irrefl _), htake, h.ahead_eq]
    · rw [hgot.index, hindex]
    · omega
    · rcases hgot.pieces with heq | ⟨piece, heq⟩
      · exact ⟨used, Nat.le_succ_of_le hused, by rw [hpieces, heq]⟩
      · refine ⟨used ++ [piece], ?_, ?_⟩
        · rw [List.length_append, List.length_singleton]
          omega
        · rw [hpieces, heq, List.append_assoc]
          rfl
  · refine Or.inr ⟨w', by rw [if_pos hshort], h.same.trans hreads.same, hreads.steady,
      hreads.content.trans h.content, ?_, ?_⟩
    · have hlt' := hmissed.length_lt
      omega
    · rintro hcontent ⟨hcount, hlarge⟩
      rw [hpieces, List.length_append] at hcount
      have hnonempty : w.reading.incoming.pieces ≠ [] := by
        intro hnil
        rw [hnil, List.length_nil] at hcount
        omega
      obtain ⟨piece, rest, hcons⟩ := List.exists_cons_of_ne_nil hnonempty
      have hpiece : size ≤ piece := by
        refine hlarge piece ?_
        rw [hpieces, hcons]
        exact List.mem_append_right _ List.mem_cons_self
      have hstarved := hmissed.starved piece rest hcons (by omega)
      rw [h.ahead_eq, List.length_drop] at hstarved
      omega

end Walked

/-! ### A frame -/

/-- The bytes that are left begin with this frame. -/
structure Next (w : FrameReading) (h : Lib.FrameHeader) (body rest : Bytes) : Prop where
  content : content w = h.bytes ++ (body ++ rest)
  length : body.length = h.len

/-- The length of a frame. -/
def frameLength (h : Lib.FrameHeader) : Nat := h.bytes.length + h.len

theorem frameLength_eq
    (h : Lib.FrameHeader) :
    frameLength h = 2 + h.form.width + h.keyBytes.length + h.len := by
  rw [frameLength, h.bytes_length]

theorem drop_take_append
    {pre mid post : Bytes} {i n : Nat}
    (hi : pre.length = i)
    (hn : mid.length = n) :
    ((pre ++ (mid ++ post)).drop i).take n = mid := by
  subst hi hn
  rw [List.drop_left, List.take_left]

namespace Next

variable {w : FrameReading} {h : Lib.FrameHeader} {body rest : Bytes}

theorem le_content
    (hnext : Next w h body rest) :
    frameLength h ≤ (WebSocket.content w).length := by
  rw [hnext.content, List.length_append, List.length_append, frameLength, hnext.length]
  omega

theorem first
    (hnext : Next w h body rest) :
    ((WebSocket.content w).drop 0).take 2 = [h.byte₀, h.byte₁] := by
  rw [hnext.content]
  rfl

theorem length_bytes
    (hnext : Next w h body rest) :
    ((WebSocket.content w).drop 2).take h.form.width = Lib.bigEndian h.form.width h.len := by
  have hcontent : WebSocket.content w = [h.byte₀, h.byte₁] ++
      (Lib.bigEndian h.form.width h.len ++ (h.keyBytes ++ (body ++ rest))) := by
    rw [hnext.content, Lib.FrameHeader.bytes]
    simp only [List.cons_append, List.nil_append, List.append_assoc]
  rw [hcontent]
  exact drop_take_append rfl (Lib.bigEndian_length _ _)

theorem payload
    (hnext : Next w h body rest) :
    ((WebSocket.content w).drop (2 + h.form.width + h.keyBytes.length)).take h.len = body := by
  rw [hnext.content]
  exact drop_take_append h.bytes_length hnext.length

end Next

namespace Walked

variable {socket k : Nat} {w₀ w : FrameReading} {rcs₀ rcs : Int} {h : Lib.FrameHeader}
  {body rest : Bytes}

/-- The length is read as it was written. -/
theorem readLength
    (hwalked : Walked socket w₀ rcs₀ 2 1 w rcs)
    (hnext : Next w₀ h body rest)
    (hrcs₀ : received w₀ ≠ [] → rcs₀ ≠ SOCKET_ERROR) :
    (∃ rcs' w', WebSocket.readLength w socket (h.form.code h.len) rcs =
        (.ok (h.len, rcs'), w') ∧
      Walked socket w₀ rcs₀ (2 + h.form.width) 2 w' rcs') ∨
    Stopped socket (frameLength h) w₀
      (WebSocket.readLength w socket (h.form.code h.len) rcs) := by
  have hwidth := h.len_lt
  have hsize := frameLength_eq h
  have hbytes := hnext.length_bytes
  cases hform : h.form with
  | seven =>
      rw [hform] at hwidth
      have hlen : h.len < 126 := hwidth
      left
      refine ⟨rcs, w, ?_, ⟨hwalked.1, hwalked.2, hwalked.3, hwalked.4, hwalked.5, hwalked.6, ?_⟩⟩
      · rw [Lib.LengthForm.code, WebSocket.readLength, if_neg (by omega), if_neg (by omega)]
      · obtain ⟨used, hused, hpieces⟩ := hwalked.pieces
        exact ⟨used, Nat.le_succ_of_le hused, hpieces⟩
  | sixteen =>
      rw [hform] at hwidth hsize hbytes
      simp only [Lib.LengthForm.width] at hbytes hsize
      have hfits : h.len < 256 ^ 2 := hwidth
      rw [Lib.LengthForm.code, WebSocket.readLength, if_pos rfl]
      rcases hwalked.readPart (n := 2) (by decide) (frameLength h) (by omega) (by decide) hrcs₀
          SOCKET_ERROR with ⟨rcs', w', hpart, hwalked'⟩ | ⟨w', hpart, hstopped⟩
      · rw [hpart, hbytes]
        dsimp only
        rw [Lib.ofBigEndian_bigEndian hfits]
        exact Or.inl ⟨rcs', w', rfl, hwalked'⟩
      · rw [hpart]
        exact Or.inr ⟨w', rfl, hstopped⟩
  | sixtyFour =>
      rw [hform] at hwidth hsize hbytes
      simp only [Lib.LengthForm.width] at hbytes hsize
      have hfits : h.len < 256 ^ 8 := lt_trans hwidth (by decide)
      rw [Lib.LengthForm.code, WebSocket.readLength, if_neg (by decide), if_pos rfl]
      rcases hwalked.readPart (n := 8) (by decide) (frameLength h) (by omega) (by decide) hrcs₀
          SOCKET_ERROR with ⟨rcs', w', hpart, hwalked'⟩ | ⟨w', hpart, hstopped⟩
      · rw [hpart, hbytes]
        dsimp only
        rw [Lib.ofBigEndian_bigEndian hfits]
        exact Or.inl ⟨rcs', w', rfl, hwalked'⟩
      · rw [hpart]
        exact Or.inr ⟨w', rfl, hstopped⟩

/-- The key is passed over. -/
theorem readMask
    (hwalked : Walked socket w₀ rcs₀ (2 + h.form.width) 2 w rcs)
    (hrcs₀ : received w₀ ≠ [] → rcs₀ ≠ SOCKET_ERROR) :
    (∃ rcs' w', WebSocket.readMask w socket h.key.isSome rcs = (.ok rcs', w') ∧
      Walked socket w₀ rcs₀ (2 + h.form.width + h.keyBytes.length) 3 w' rcs') ∨
    Stopped socket (frameLength h) w₀ (WebSocket.readMask w socket h.key.isSome rcs) := by
  have hsize := frameLength_eq h
  cases hkey : h.key with
  | none =>
      have hbytes : h.keyBytes = [] := by rw [Lib.FrameHeader.keyBytes, hkey]; rfl
      rw [hbytes]
      left
      refine ⟨rcs, w, rfl, ⟨hwalked.1, hwalked.2, hwalked.3, hwalked.4, hwalked.5, hwalked.6, ?_⟩⟩
      obtain ⟨used, hused, hpieces⟩ := hwalked.pieces
      exact ⟨used, Nat.le_succ_of_le hused, hpieces⟩
  | some key =>
      have hbytes : h.keyBytes.length = 4 := by
        rw [Lib.FrameHeader.keyBytes, hkey, Option.elim_some, Vector.length_toList]
      rw [hbytes] at hsize ⊢
      rw [Option.isSome_some, WebSocket.readMask, if_pos rfl]
      rcases hwalked.readPart (n := 4) (by decide) (frameLength h) (by omega) (by decide) hrcs₀
          SOCKET_ERROR with ⟨rcs', w', hpart, hwalked'⟩ | ⟨w', hpart, hstopped⟩
      · rw [hpart]
        exact Or.inl ⟨rcs', w', rfl, hwalked'⟩
      · rw [hpart]
        exact Or.inr ⟨w', rfl, hstopped⟩

/-- All of a frame was read: what is still on its way is behind it. -/
theorem unread_eq
    (hwalked : Walked socket w₀ rcs₀ (frameLength h) k w rcs)
    (hnext : Next w₀ h body rest)
    (hlt : (received w₀).length < frameLength h) :
    w.reading.incoming.unread = rest := by
  have hle := hwalked.length_le
  have hindex := hwalked.steady.index_le
  rw [hwalked.index] at hindex
  have hlen : (received w).length = (h.bytes ++ body).length := by
    rw [List.length_append, hnext.length]
    change _ = frameLength h
    omega
  have hcontent := hwalked.content
  rw [hnext.content, ← List.append_assoc, WebSocket.content] at hcontent
  exact (List.append_inj hcontent hlen).2

/-- The payload is read as it was sent. -/
theorem readPayload
    (hwalked : Walked socket w₀ rcs₀ (2 + h.form.width + h.keyBytes.length) 3 w rcs)
    (hnext : Next w₀ h body rest)
    (hlt : (received w₀).length < frameLength h)
    (hrcs₀ : received w₀ ≠ [] → rcs₀ ≠ SOCKET_ERROR) :
    (∃ rcs' w', WebSocket.readPart w socket h.len SOCKET_ERROR rcs = (.ok (body, rcs'), w') ∧
      SameFrames w₀ w' ∧ Steady socket w' ∧ w'.reading.incoming.unread = rest ∧ 0 < rcs') ∨
    Stopped socket (frameLength h) w₀
      (WebSocket.readPart w socket h.len SOCKET_ERROR rcs) := by
  have hsize := frameLength_eq h
  rcases Nat.eq_zero_or_pos h.len with hzero | hpos
  · rw [hzero, Nat.add_zero] at hsize
    rw [← hsize] at hwalked
    have hrcs := hwalked.rcs_pos hlt
    obtain ⟨b, w', hraw, hsame, hsteady, _, _, hincoming⟩ :=
      getRawSocketData_zero hwalked.steady hrcs.ne'
    have hbody : body = [] := List.length_eq_zero_iff.mp (hnext.length.trans hzero)
    left
    refine ⟨rcs, w', ?_, hwalked.same.trans hsame, hsteady, ?_, hrcs⟩
    · rw [hzero, WebSocket.readPart, hraw]
      dsimp only
      rw [if_neg (by rw [SOCKET_ERROR]; omega), if_neg (Nat.lt_irrefl 0), List.take_zero, hbody]
    · rw [hincoming]
      exact hwalked.unread_eq hnext hlt
  · rcases hwalked.readPart hpos (frameLength h) hsize.ge (by decide) hrcs₀ SOCKET_ERROR with
      ⟨rcs', w', hpart, hwalked'⟩ | hstopped
    · rw [← hsize] at hwalked'
      rw [hnext.payload] at hpart
      exact Or.inl ⟨rcs', w', hpart, hwalked'.same, hwalked'.steady, hwalked'.unread_eq hnext hlt,
        hwalked'.rcs_pos hlt⟩
    · exact Or.inr hstopped

end Walked

/-- The operation code of a frame; a continuation has the one of the frame before. -/
def nextOpcode (opcode : Nat) (h : Lib.FrameHeader) : Nat :=
  if h.opcode ≠ 0 then h.opcode else opcode

/-- The operation codes that `WebSocket_receiveFrame` knows. -/
def Known (opcode : Nat) : Prop :=
  opcode ≤ OP_PONG ∧ (opcode ≤ OP_BINARY ∨ OP_CLOSE ≤ opcode)

/-- A frame is read, with the payload as it was sent, or the read is interrupted. -/
theorem readFrame_spec
    {socket opcode : Nat} {w : FrameReading} (rcs : Int) {h : Lib.FrameHeader}
    {body rest : Bytes}
    (hsteady : Steady socket w)
    (hindex : w.frame_buffer_index = 0)
    (hnext : Next w h body rest)
    (hlt : (received w).length < frameLength h)
    (hopcode : Known (nextOpcode opcode h))
    (hrcs : received w ≠ [] → rcs ≠ SOCKET_ERROR) :
    (∃ rcs' w', readFrame w socket opcode rcs =
        (.ok ⟨h.fin, nextOpcode opcode h, body, rcs'⟩, w') ∧
      SameFrames w w' ∧ Steady socket w' ∧ w'.reading.incoming.unread = rest ∧ 0 < rcs') ∨
    Stopped socket (frameLength h) w (readFrame w socket opcode rcs) := by
  have hsize := frameLength_eq h
  have hstart := Walked.start hsteady hindex rcs
  have hfin : decide (h.byte₀.toNat / 128 = 1) = h.fin := by
    rw [h.fin_eq]
    cases h.fin <;> rfl
  have hmask : decide (h.byte₁.toNat / 128 = 1) = h.key.isSome := by
    rw [h.mask_eq]
    cases h.key.isSome <;> rfl
  rw [readFrame]
  rcases hstart.readPart (n := 2) (by decide) (frameLength h) (by omega) (by decide) hrcs
      TCPSOCKET_INTERRUPTED with ⟨rcs₁, w₁, hpart, hwalked₁⟩ | ⟨w₁, hpart, hstopped⟩
  case inr =>
    rw [hpart]
    exact Or.inr ⟨w₁, rfl, hstopped⟩
  have hknown : ¬(nextOpcode opcode h > OP_PONG ∨
      (nextOpcode opcode h > OP_BINARY ∧ nextOpcode opcode h < OP_CLOSE)) := by
    obtain ⟨hpong, hdata⟩ := hopcode
    omega
  rw [hpart, hnext.first]
  simp only [List.getD_cons_zero, List.getD_cons_succ, h.opcode_eq, h.code_eq, hmask, hfin]
  rw [← nextOpcode, if_neg hknown]
  rcases hwalked₁.readLength hnext hrcs with ⟨rcs₂, w₂, hlength, hwalked₂⟩ | ⟨w₂, hlength, hstopped⟩
  case inr =>
    rw [hlength]
    exact Or.inr ⟨w₂, rfl, hstopped⟩
  rw [hlength]
  dsimp only
  rcases hwalked₂.readMask hrcs with ⟨rcs₃, w₃, hkey, hwalked₃⟩ | ⟨w₃, hkey, hstopped⟩
  case inr =>
    rw [hkey]
    exact Or.inr ⟨w₃, rfl, hstopped⟩
  rw [hkey]
  dsimp only
  rcases hwalked₃.readPayload hnext hlt hrcs with ⟨rcs₄, w₄, hpayload, hdone⟩ |
    ⟨w₄, hpayload, hstopped⟩
  · rw [hpayload]
    refine Or.inl ⟨rcs₄, w₄, ?_, hdone⟩
    simp only [maskBuffer_zero, ite_self]
  · rw [hpayload]
    exact Or.inr ⟨w₄, rfl, hstopped⟩

end WebSocket

end PahoMqtt
