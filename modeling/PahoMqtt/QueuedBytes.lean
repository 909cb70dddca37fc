import PahoMqtt.PacketReading

/-!
# The queue of a packet

Between two calls of the factory the queue of a socket holds the bytes that were
received of a packet that has not ended; what it holds is stated here from those
bytes alone.  A packet is read into the queue in the list, if there is one, and
into the default queue otherwise; each operation is shown to do the same to
either, and to leave the queues of other sockets as they are.
-/

namespace PahoMqtt

/-! ### What a queue holds -/

namespace SocketQueue

/-- Nothing is read into the queue. -/
structure Idle (queue : SocketQueue) : Prop where
  socket : queue.socket = 0
  index : queue.index = 0
  headerlen : queue.headerlen = 0
  datalen : queue.datalen = 0
  fits : queue.buflen ≤ queue.buf.length

/--
The queue holds the first `n` bytes of a packet: of the header with the bytes of
its remaining length, and of the body.
-/
structure Holds (queue : SocketQueue) (header body : Bytes) (n : Nat) : Prop where
  headerlen : queue.headerlen = min n header.length
  header_eq : ∀ k, k < queue.headerlen → queue.fixed_header[k]? = header[k]?
  datalen : queue.datalen = n - header.length
  data_eq : queue.buf.take queue.datalen = body.take queue.datalen
  fits : queue.buflen ≤ queue.buf.length
  room : 0 < queue.datalen → body.length ≤ queue.buflen

theorem idle_newDefQ :
    SocketBuffer.newDefQ.Idle :=
  ⟨rfl, rfl, rfl, rfl, Nat.zero_le _⟩

theorem Idle.holds
    {queue : SocketQueue}
    (h : queue.Idle)
    (header body : Bytes) :
    queue.Holds header body 0 := by
  constructor
  · rw [h.headerlen, Nat.zero_min]
  · intro k hk
    rw [h.headerlen] at hk
    exact absurd hk (Nat.not_lt_zero k)
  · rw [h.datalen, Nat.zero_sub]
  · rw [h.datalen, List.take_zero, List.take_zero]
  · exact h.fits
  · intro hpos
    rw [h.datalen] at hpos
    exact absurd hpos (Nat.lt_irrefl 0)

/-- Neither the socket of a queue nor its index is part of what it holds. -/
theorem Holds.moved
    {queue : SocketQueue} {header body : Bytes} {n : Nat}
    (h : queue.Holds header body n)
    (socket index : Nat) :
    { queue with socket, index }.Holds header body n :=
  ⟨h.headerlen, h.header_eq, h.datalen, h.data_eq, h.fits, h.room⟩

/-- One more byte of the header. -/
theorem Holds.push
    {queue : SocketQueue} {header body : Bytes} {n : Nat} {c : UInt8}
    (h : queue.Holds header body n)
    (hindex : queue.index = n)
    (hlt : n < header.length)
    (hroom : header.length ≤ 5)
    (hc : header[n]? = some c) :
    (SocketBuffer.push queue c).Holds header body (n + 1) := by
  have hslot : queue.index < 5 := by omega
  have hlen : queue.headerlen = n := by
    rw [h.headerlen]
    exact Nat.min_eq_left (Nat.le_of_lt hlt)
  have hempty : queue.datalen = 0 := by
    rw [h.datalen]
    exact Nat.sub_eq_zero_of_le (Nat.le_of_lt hlt)
  rw [SocketBuffer.push, dif_pos hslot]
  constructor
  · change queue.index + 1 = _
    omega
  · intro k hk
    change k < queue.index + 1 at hk
    change (queue.fixed_header.set queue.index c hslot)[k]? = header[k]?
    rw [Vector.getElem?_set]
    split
    · rename_i hk'
      rw [← hk', hindex, hc]
    · rename_i hk'
      exact h.header_eq k (by omega)
  · change queue.datalen = _
    omega
  · exact h.data_eq
  · exact h.fits
  · intro hpos
    exact absurd hempty (Nat.pos_iff_ne_zero.mp hpos)

end SocketQueue

/-! ### The operations -/

namespace SocketBuffer

variable {buffers : SocketBuffer} {socket : Nat} {queue : SocketQueue}

/-- The queue that a packet of the socket is read into: the one in the list, or the default one. -/
inductive Current (buffers : SocketBuffer) (socket : Nat) (queue : SocketQueue) : Prop
  | listed
      (found : buffers.find socket = some queue)
      (idle : buffers.def_queue.Idle) : Current buffers socket queue
  | default
      (absent : buffers.find socket = none)
      (default : buffers.def_queue = queue)
      (owner : queue.socket = socket ∨ (queue.socket = 0 ∧ queue.index = 0))
      (front : queue.index = queue.headerlen)
      (empty : queue.datalen = 0) : Current buffers socket queue

/-- Between two calls of the factory. -/
structure Parked (buffers : SocketBuffer) (socket : Nat) (header body : Bytes) (n : Nat) :
    Prop where
  idle : buffers.def_queue.Idle
  queue : (buffers.find socket = none ∧ n = 0) ∨
    ∃ queue, buffers.find socket = some queue ∧ queue.index = 0 ∧ queue.Holds header body n

/-- The packet is at its beginning, whether there is a queue for it or not. -/
theorem Parked.current
    {header body : Bytes} {n : Nat}
    (h : buffers.Parked socket header body n) :
    ∃ queue, buffers.Current socket queue ∧ queue.index = 0 ∧ queue.Holds header body n := by
  rcases h.queue with ⟨hnone, rfl⟩ | ⟨queue, hfound, hindex, hholds⟩
  · refine ⟨buffers.def_queue, ?_, h.idle.index, h.idle.holds header body⟩
    exact Current.default hnone rfl (Or.inr ⟨h.idle.socket, h.idle.index⟩)
      (h.idle.index.trans h.idle.headerlen.symm) h.idle.datalen
  · exact ⟨queue, Current.listed hfound h.idle, hindex, hholds⟩

/-- A byte of the header that the queue holds already. -/
theorem Current.getQueuedChar_held
    (h : buffers.Current socket queue)
    (hlt : queue.index < queue.headerlen) :
    (buffers.getQueuedChar socket).1 =
        (TCPSOCKET_COMPLETE, queue.fixed_header[queue.index]?.getD 0) ∧
      (buffers.getQueuedChar socket).2.Current socket { queue with index := queue.index + 1 } ∧
      Others socket buffers (buffers.getQueuedChar socket).2 := by
  cases h with
  | listed found idle =>
      rw [getQueuedChar, found]
      dsimp only
      rw [if_pos hlt]
      refine ⟨rfl, ?_, others_write _ _ _⟩
      have hsocket := find_socket found
      refine Current.listed ?_ idle
      rw [find_write found]
      subst hsocket
      rfl
  | default _ _ _ front _ => omega

/-- The queue holds no further byte of the header. -/
theorem Current.getQueuedChar_end
    (h : buffers.Current socket queue)
    (hend : queue.index = queue.headerlen)
    (hroom : queue.index ≤ 4) :
    buffers.getQueuedChar socket = ((TCPSOCKET_INTERRUPTED, 0), buffers) := by
  cases h with
  | listed found _ =>
      rw [getQueuedChar, found]
      dsimp only
      rw [if_neg (by omega), if_neg (by omega)]
  | default absent _ _ _ _ =>
      rw [getQueuedChar, absent]

theorem push_own
    (queue : SocketQueue) (c : UInt8) :
    { push queue c with socket := queue.socket } = push queue c := by
  rw [push]
  split <;> rfl

theorem push_socket
    (queue : SocketQueue) (c : UInt8) :
    (push queue c).socket = queue.socket := by
  rw [push]
  split <;> rfl

theorem push_index
    (queue : SocketQueue) (c : UInt8)
    (hroom : queue.index < 5) :
    (push queue c).index = queue.index + 1 ∧ (push queue c).headerlen = queue.index + 1 ∧
      (push queue c).datalen = queue.datalen := by
  rw [push, dif_pos hroom]
  exact ⟨rfl, rfl, rfl⟩

/-- A byte of the header that was received; 0 is not a socket. -/
theorem Current.queueChar
    (h : buffers.Current socket queue)
    (hsocket : socket ≠ 0)
    (hroom : queue.index < 5)
    (c : UInt8) :
    (buffers.queueChar socket c).Current socket (push { queue with socket } c) ∧
      Others socket buffers (buffers.queueChar socket c) := by
  have hpush := push_index { queue with socket } c hroom
  cases h with
  | listed found idle =>
      rw [SocketBuffer.queueChar, found]
      refine ⟨Current.listed ?_ idle, others_write _ _ _⟩
      rw [find_write found]
      have hown := find_socket found
      subst hown
      rw [push_own]
  | default absent default owner _ empty =>
      rw [SocketBuffer.queueChar, absent]
      dsimp only
      subst default
      by_cases hzero : buffers.def_queue.socket = 0
      · have hindex : buffers.def_queue.index = 0 := by
          rcases owner with hown | ⟨_, hindex⟩
          · exact absurd (hown.symm.trans hzero) hsocket
          · exact hindex
        rw [if_pos hzero]
        refine ⟨Current.default absent ?_ (Or.inl (push_socket _ _)) ?_ ?_, others_default _ _ _⟩
        · have hclear : ({ buffers.def_queue with socket, index := 0, datalen := 0 } : SocketQueue) =
              { buffers.def_queue with socket } := by
            simp [hindex, empty]
          dsimp only
          rw [hclear]
        · rw [hpush.1, hpush.2.1]
        · rw [hpush.2.2]
          exact empty
      · have hown : buffers.def_queue.socket = socket := by
          rcases owner with hown | ⟨hnull, _⟩
          · exact hown
          · exact absurd hnull hzero
        rw [if_neg hzero, if_pos hown]
        refine ⟨Current.default absent ?_ (Or.inl (push_socket _ _)) ?_ ?_, others_default _ _ _⟩
        · dsimp only
          subst hown
          rfl
        · rw [hpush.1, hpush.2.1]
        · rw [hpush.2.2]
          exact empty

/-- The read is interrupted, and the queue kept for the next one. -/
theorem Current.interrupted
    (h : buffers.Current socket queue)
    (actual_len : Nat) :
    (buffers.interrupted socket actual_len).find socket =
        some { queue with socket, index := 0, datalen := actual_len } ∧
      (buffers.interrupted socket actual_len).def_queue.Idle ∧
      Others socket buffers (buffers.interrupted socket actual_len) := by
  cases h with
  | listed found idle =>
      rw [SocketBuffer.interrupted, found]
      exact ⟨find_write found, idle, others_write _ _ _⟩
  | default absent default _ _ _ =>
      rw [SocketBuffer.interrupted, absent]
      subst default
      dsimp only
      refine ⟨find_append absent, SocketQueue.idle_newDefQ, ?_⟩
      exact others_append absent rfl _

/-- The packet is complete; its buffer is the one of the default queue now. -/
theorem Current.complete
    (h : buffers.Current socket queue)
    (hdistinct : buffers.Distinct)
    (hfits : queue.buflen ≤ queue.buf.length) :
    (buffers.complete socket).find socket = none ∧
      (buffers.complete socket).def_queue.Idle ∧
      (buffers.complete socket).def_queue.buf = queue.buf ∧
      Others socket buffers (buffers.complete socket) := by
  cases h with
  | listed found _ =>
      rw [SocketBuffer.complete, found]
      refine ⟨find_detach hdistinct, ⟨rfl, rfl, rfl, rfl, hfits⟩, rfl, ?_⟩
      exact (others_detach buffers socket).trans (others_default _ _ _)
  | default absent default _ _ _ =>
      rw [SocketBuffer.complete, absent]
      subst default
      exact ⟨absent, ⟨rfl, rfl, rfl, rfl, hfits⟩, rfl, others_default _ _ _⟩

end SocketBuffer

/-! ### The data of a packet -/

namespace SocketBuffer

variable {buffers : SocketBuffer} {socket : Nat} {queue : SocketQueue}

theorem length_overwrite
    {buf data : Bytes} {offset : Nat}
    (h : offset + data.length ≤ buf.length) :
    (overwrite buf offset data).length = buf.length := by
  simp only [overwrite, List.length_append, List.length_take, List.length_drop]
  omega

theorem take_overwrite
    {buf data : Bytes} {offset : Nat}
    (h : offset ≤ buf.length) :
    (overwrite buf offset data).take (offset + data.length) = buf.take offset ++ data := by
  have hlen : (buf.take offset ++ data).length = offset + data.length := by
    rw [List.length_append, List.length_take, Nat.min_eq_left h]
  rw [overwrite, ← hlen, List.take_left]

theorem length_realloc
    (buf : Bytes) (size : Nat) :
    (realloc buf size).length = size := by
  simp only [realloc, malloc, List.length_append, List.length_take, List.length_replicate]
  omega

theorem grow_buflen
    (queue : SocketQueue) (bytes : Nat) :
    bytes ≤ (grow queue bytes).buflen := by
  rw [grow]
  split
  · exact Nat.le_refl bytes
  · omega

/-- The memory that data is received into. -/
theorem Current.getQueuedData
    (h : buffers.Current socket queue)
    (bytes : Nat) :
    (buffers.getQueuedData socket bytes).1 = ((grow queue bytes).buf, queue.datalen) ∧
      (buffers.getQueuedData socket bytes).2.Current socket (grow queue bytes) ∧
      Others socket buffers (buffers.getQueuedData socket bytes).2 := by
  have hgrown : (grow queue bytes).socket = queue.socket ∧
      (grow queue bytes).index = queue.index ∧ (grow queue bytes).headerlen = queue.headerlen ∧
        (grow queue bytes).datalen = queue.datalen := by
    rw [grow]
    split <;> exact ⟨rfl, rfl, rfl, rfl⟩
  obtain ⟨hsocket, hindex, hheaderlen, hdatalen⟩ := hgrown
  cases h with
  | listed found idle =>
      rw [SocketBuffer.getQueuedData, found]
      refine ⟨rfl, Current.listed ?_ idle, others_write _ _ _⟩
      rw [find_write found, ← find_socket found, ← hsocket]
  | default absent default owner front empty =>
      rw [SocketBuffer.getQueuedData, absent]
      subst default
      refine ⟨by rw [empty], Current.default absent rfl ?_ ?_ ?_, others_default _ _ _⟩
      · rw [hsocket, hindex]
        exact owner
      · rw [hindex, hheaderlen]
        exact front
      · rw [hdatalen]
        exact empty

theorem Current.fill
    (h : buffers.Current socket queue)
    (buf : Bytes) :
    (Socket.fill buffers socket buf).Current socket { queue with buf } ∧
      Others socket buffers (Socket.fill buffers socket buf) := by
  cases h with
  | listed found idle =>
      rw [Socket.fill, found]
      refine ⟨Current.listed ?_ idle, others_write _ _ _⟩
      rw [find_write found, ← find_socket found]
  | default absent default owner front empty =>
      rw [Socket.fill, absent]
      subst default
      exact ⟨Current.default absent rfl owner front empty, others_default _ _ _⟩

end SocketBuffer

namespace SocketQueue

/-- The queue is grown before there is data in it. -/
theorem Holds.grow
    {queue : SocketQueue} {header body : Bytes} {n : Nat}
    (h : queue.Holds header body n) :
    (SocketBuffer.grow queue body.length).Holds header body n := by
  rw [SocketBuffer.grow]
  split
  · rename_i hsmall
    have hempty : queue.datalen = 0 := by
      by_contra hpos
      have := h.room (Nat.pos_of_ne_zero hpos)
      omega
    rw [if_neg (by omega)]
    refine ⟨h.headerlen, h.header_eq, h.datalen, ?_, ?_, fun _ => Nat.le_refl _⟩
    · change (SocketBuffer.realloc queue.buf body.length).take queue.datalen = body.take queue.datalen
      rw [hempty, List.take_zero, List.take_zero]
    · change body.length ≤ (SocketBuffer.realloc queue.buf body.length).length
      rw [SocketBuffer.length_realloc]
  · exact h

/-- Data was received behind what the queue holds. -/
theorem Holds.filled
    {queue : SocketQueue} {header body data : Bytes} {n : Nat}
    (h : queue.Holds header body n)
    (hheader : header.length ≤ n)
    (hroom : body.length ≤ queue.buflen)
    (hdata : data = (body.drop queue.datalen).take data.length)
    (hfit : queue.datalen + data.length ≤ body.length) :
    { queue with
      buf := SocketBuffer.overwrite queue.buf queue.datalen data
      datalen := queue.datalen + data.length }.Holds header body (n + data.length) := by
  have hfits := h.fits
  have hdatalen := h.datalen
  refine ⟨?_, h.header_eq, ?_, ?_, ?_, fun _ => hroom⟩
  · change queue.headerlen = _
    rw [h.headerlen]
    omega
  · change queue.datalen + data.length = _
    omega
  · change (SocketBuffer.overwrite queue.buf queue.datalen data).take (queue.datalen + data.length) =
      body.take (queue.datalen + data.length)
    rw [SocketBuffer.take_overwrite (by omega), h.data_eq, List.take_add, ← hdata]
  · change queue.buflen ≤ (SocketBuffer.overwrite queue.buf queue.datalen data).length
    rw [SocketBuffer.length_overwrite (by omega)]
    exact hfits

end SocketQueue

end PahoMqtt
