import PahoMqtt.QueuedBytes

/-!
# Packets from pieces

Each function that reads is shown to take the queue of a packet to the queue of
the packet with the bytes that it has received, or to give the packet, whatever
the calls of `recv` have taken.
-/

namespace PahoMqtt

/-! ### Reading -/

/-- `recv` gives nothing, or some of the bytes that are on their way. -/
theorem recv_cases
    (incoming : Incoming) {size : Nat}
    (hsize : 0 < size) :
    ((recv incoming size).1 = none ∧ (recv incoming size).2.unread = incoming.unread) ∨
      ∃ data, data ≠ [] ∧ data.length ≤ size ∧ (recv incoming size).1 = some data ∧
        incoming.unread = data ++ (recv incoming size).2.unread := by
  rw [recv, if_neg (Nat.pos_iff_ne_zero.mp hsize)]
  cases hpieces : incoming.pieces with
  | nil =>
      exact Or.inl ⟨rfl, rfl⟩
  | cons piece pieces =>
      dsimp only
      split
      · exact Or.inl ⟨rfl, rfl⟩
      · rename_i hsome
        obtain ⟨hpiece, hunread⟩ := not_or.mp hsome
        refine Or.inr ⟨_, ?_, ?_, rfl, (List.take_append_drop _ _).symm⟩
        · intro hnil
          rcases List.take_eq_nil_iff.mp hnil with hmin | hnil
          · omega
          · exact hunread hnil
        · rw [List.length_take]
          omega

/-- The next call of `recv` gives something. -/
def Incoming.Ready (incoming : Incoming) : Prop :=
  incoming.unread ≠ [] ∧ ∃ piece pieces, incoming.pieces = piece :: pieces ∧ piece ≠ 0

theorem recv_ready
    {incoming : Incoming} {size : Nat}
    (hsize : 0 < size)
    (h : incoming.Ready) :
    (recv incoming size).1 ≠ none := by
  obtain ⟨hunread, piece, pieces, hpieces, hpiece⟩ := h
  rw [recv, if_neg (Nat.pos_iff_ne_zero.mp hsize), hpieces]
  dsimp only
  rw [if_neg (not_or.mpr ⟨hpiece, hunread⟩)]
  exact Option.some_ne_none _

namespace Reading

variable {r : Reading} {socket : Nat} {header body rest : Bytes} {n i : Nat}
  {queue : SocketQueue}

/--
The packet of `header` and `body` is read at byte `i` of its header, `n` bytes
of it were received, and `rest` follows it on the socket.
-/
structure Cursor (r : Reading) (socket : Nat) (header body rest : Bytes) (n i : Nat)
    (queue : SocketQueue) : Prop where
  current : r.buffers.Current socket queue
  index : queue.index = i
  le : i ≤ queue.headerlen
  holds : queue.Holds header body n
  short : n ≤ header.length ∨ n < header.length + body.length
  unread : r.incoming.unread = (header ++ (body ++ rest)).drop n

/-- The read of a packet was interrupted after `n` bytes. -/
structure Waits (r : Reading) (socket : Nat) (header body rest : Bytes) (n : Nat) : Prop where
  parked : r.buffers.Parked socket header body n
  unread : r.incoming.unread = (header ++ (body ++ rest)).drop n

theorem Waits.cursor
    (h : r.Waits socket header body rest n)
    (hshort : n ≤ header.length ∨ n < header.length + body.length) :
    ∃ queue, r.Cursor socket header body rest n 0 queue := by
  obtain ⟨queue, hcurrent, hindex, hholds⟩ := h.parked.current
  exact ⟨queue, hcurrent, hindex, Nat.zero_le _, hholds, hshort, h.unread⟩

/-- A byte of the header is read again from the queue. -/
theorem Cursor.getch_held
    (h : r.Cursor socket header body rest n i queue)
    (hlt : i < queue.headerlen) :
    ∃ c, header[i]? = some c ∧ (Socket.getch r socket).1 = (TCPSOCKET_COMPLETE, c) ∧
      (Socket.getch r socket).2.Cursor socket header body rest n (i + 1)
        { queue with index := i + 1 } ∧
      (Socket.getch r socket).2.incoming = r.incoming ∧
      SocketBuffer.Others socket r.buffers (Socket.getch r socket).2.buffers := by
  have hindex := h.index
  subst hindex
  have hin : queue.index < header.length := by
    have := h.holds.headerlen
    omega
  obtain ⟨hres, hcurrent, hothers⟩ := h.current.getQueuedChar_held hlt
  have hc := h.holds.header_eq queue.index hlt
  rw [List.getElem?_eq_getElem hin] at hc
  have hgetch : Socket.getch r socket = ((TCPSOCKET_COMPLETE, header[queue.index]),
      { r with buffers := (r.buffers.getQueuedChar socket).2 }) := by
    rw [Socket.getch, ← Prod.mk.eta (p := r.buffers.getQueuedChar socket), hres, hc]
    rfl
  rw [hgetch]
  refine ⟨_, List.getElem?_eq_getElem hin, rfl, ⟨hcurrent, rfl, hlt, ?_, h.short, h.unread⟩, rfl,
    hothers⟩
  exact h.holds.moved queue.socket (queue.index + 1)

/-- Nothing arrives where a byte of the header is needed. -/
theorem Cursor.getch_blocked
    (h : r.Cursor socket header body rest n i queue)
    (hend : i = queue.headerlen)
    (hroom : i ≤ 4)
    (hle : n ≤ header.length)
    (hnone : (recv r.incoming 1).1 = none)
    (hunread : (recv r.incoming 1).2.unread = r.incoming.unread) :
    (Socket.getch r socket).1.1 = TCPSOCKET_INTERRUPTED ∧
      (Socket.getch r socket).2.Waits socket header body rest n ∧
      (Socket.getch r socket).2.incoming = (recv r.incoming 1).2 ∧
      SocketBuffer.Others socket r.buffers (Socket.getch r socket).2.buffers := by
  have hindex := h.index
  subst hindex
  have hget := h.current.getQueuedChar_end hend hroom
  obtain ⟨hfound, hidle, hothers⟩ := h.current.interrupted 0
  have hempty : queue.datalen = 0 := by
    rw [h.holds.datalen]
    exact Nat.sub_eq_zero_of_le hle
  have hgetch : Socket.getch r socket =
      ((TCPSOCKET_INTERRUPTED, 0), ⟨r.buffers.interrupted socket 0, (recv r.incoming 1).2⟩) := by
    rw [Socket.getch, hget, ← Prod.mk.eta (p := recv r.incoming 1), hnone]
    rfl
  rw [hgetch]
  refine ⟨rfl, ⟨⟨hidle, Or.inr ⟨_, hfound, rfl, ?_⟩⟩, hunread.trans h.unread⟩, rfl, hothers⟩
  have hsame : ({ queue with socket, index := 0, datalen := 0 } : SocketQueue) =
      { queue with socket, index := 0 } := by
    simp [hempty]
  rw [hsame]
  exact h.holds.moved socket 0

/-- A byte of the header is received. -/
theorem Cursor.getch_received
    (h : r.Cursor socket header body rest n i queue)
    (hsocket : socket ≠ 0)
    (hend : i = queue.headerlen)
    (hlt : i < header.length)
    (hlength : header.length ≤ 5)
    {data : Bytes}
    (hdata : data ≠ [])
    (hone : data.length ≤ 1)
    (hsome : (recv r.incoming 1).1 = some data)
    (hunread : r.incoming.unread = data ++ (recv r.incoming 1).2.unread) :
    ∃ c, header[i]? = some c ∧ (Socket.getch r socket).1 = (TCPSOCKET_COMPLETE, c) ∧
      (Socket.getch r socket).2.Cursor socket header body rest (i + 1) (i + 1)
        (SocketBuffer.push { queue with socket } c) ∧
      (Socket.getch r socket).2.incoming = (recv r.incoming 1).2 ∧
      SocketBuffer.Others socket r.buffers (Socket.getch r socket).2.buffers := by
  have hindex := h.index
  subst hindex
  have hn : n = queue.index := by
    have := h.holds.headerlen
    omega
  subst hn
  obtain ⟨c, rfl⟩ : ∃ c, data = [c] := by
    match data, hdata, hone with
    | [c], _, _ => exact ⟨c, rfl⟩
  have hstream := hunread
  rw [h.unread, List.drop_append_of_le_length (Nat.le_of_lt hlt),
    List.drop_eq_getElem_cons hlt, List.cons_append, List.cons_append] at hstream
  obtain ⟨hc, hrest⟩ := List.cons.inj hstream
  have hget : header[queue.index]? = some c := by
    rw [List.getElem?_eq_getElem hlt, hc]
  have hget' := h.current.getQueuedChar_end hend (by omega)
  obtain ⟨hcurrent, hothers⟩ := h.current.queueChar hsocket (by omega) c
  have hgetch : Socket.getch r socket = ((TCPSOCKET_COMPLETE, c),
      ⟨r.buffers.queueChar socket c, (recv r.incoming 1).2⟩) := by
    rw [Socket.getch, hget', ← Prod.mk.eta (p := recv r.incoming 1), hsome]
    rfl
  have hpush := SocketBuffer.push_index { queue with socket } c
    (show queue.index < 5 by omega)
  rw [hgetch]
  refine ⟨c, hget, rfl, ⟨hcurrent, hpush.1, ?_, ?_, Or.inl hlt, ?_⟩, rfl, hothers⟩
  · rw [hpush.2.1]
  · exact (h.holds.moved socket queue.index).push rfl hlt hlength hget
  · rw [List.drop_append_of_le_length hlt]
    exact hrest.symm

end Reading

namespace Reading

variable {socket : Nat} {header body rest : Bytes}

/--
A read has ended before the packet has, and nothing but its own queue has
changed.  Where `recv` had something to give, the read has taken some of it.
-/
structure Interrupted (r r' : Reading) (socket : Nat) (header body rest : Bytes) : Prop where
  waits : ∃ n, n < header.length + body.length ∧ r'.Waits socket header body rest n
  le : r'.incoming.unread.length ≤ r.incoming.unread.length
  takes : r.incoming.Ready → r'.incoming.unread.length < r.incoming.unread.length
  others : SocketBuffer.Others socket r.buffers r'.buffers

/-- A read has come to byte `i` of the header, and nothing but its own queue has changed. -/
structure Reaches (r r' : Reading) (socket : Nat) (header body rest : Bytes) (i : Nat) :
    Prop where
  cursor : ∃ n queue, r'.Cursor socket header body rest n i queue
  moved : r'.incoming = r.incoming ∨ r'.incoming.unread.length < r.incoming.unread.length
  others : SocketBuffer.Others socket r.buffers r'.buffers

theorem Reaches.then_interrupted
    {r r' r'' : Reading} {i : Nat}
    (hfirst : Reaches r r' socket header body rest i)
    (h : Interrupted r' r'' socket header body rest) :
    Interrupted r r'' socket header body rest := by
  have hle := h.le
  refine ⟨h.waits, ?_, ?_, hfirst.others.trans h.others⟩
  · rcases hfirst.moved with hsame | hless
    · rw [← hsame]
      exact hle
    · omega
  · intro hready
    rcases hfirst.moved with hsame | hless
    · rw [← hsame]
      exact h.takes (hsame ▸ hready)
    · omega

theorem Reaches.then_reaches
    {r r' r'' : Reading} {i j : Nat}
    (hfirst : Reaches r r' socket header body rest i)
    (h : Reaches r' r'' socket header body rest j) :
    Reaches r r'' socket header body rest j := by
  refine ⟨h.cursor, ?_, hfirst.others.trans h.others⟩
  rcases hfirst.moved with hsame | hless
  · rw [← hsame]
    exact h.moved
  · right
    rcases h.moved with hsame' | hless'
    · rw [hsame']
      exact hless
    · exact hless'.trans hless

theorem length_lt_of_received
    {unread data unread' : Bytes}
    (hdata : data ≠ [])
    (h : unread = data ++ unread') :
    unread'.length < unread.length := by
  have hpos := List.length_pos_iff.mpr hdata
  rw [h, List.length_append]
  omega

/-- A byte of the header is there, or the read is interrupted. -/
theorem Cursor.getch
    {r : Reading} {n i : Nat} {queue : SocketQueue}
    (h : r.Cursor socket header body rest n i queue)
    (hsocket : socket ≠ 0)
    (hlt : i < header.length)
    (hlength : header.length ≤ 5) :
    (∃ c, header[i]? = some c ∧ (Socket.getch r socket).1 = (TCPSOCKET_COMPLETE, c) ∧
      Reaches r (Socket.getch r socket).2 socket header body rest (i + 1)) ∨
    ((Socket.getch r socket).1.1 = TCPSOCKET_INTERRUPTED ∧
      Interrupted r (Socket.getch r socket).2 socket header body rest) := by
  by_cases hheld : i < queue.headerlen
  · obtain ⟨c, hc, hres, hcursor, hincoming, hothers⟩ := h.getch_held hheld
    exact Or.inl ⟨c, hc, hres, ⟨_, _, hcursor⟩, Or.inl hincoming, hothers⟩
  · have hend : i = queue.headerlen := Nat.le_antisymm h.le (Nat.not_lt.mp hheld)
    have hn : n = i := by
      have := h.holds.headerlen
      omega
    rcases recv_cases r.incoming Nat.one_pos with ⟨hnone, hunread⟩ | ⟨data, hdata, hone, hsome, hunread⟩
    · obtain ⟨hres, hwaits, hincoming, hothers⟩ :=
        h.getch_blocked hend (by omega) (by omega) hnone hunread
      refine Or.inr ⟨hres, ⟨n, by omega, hwaits⟩, ?_, ?_, hothers⟩
      · rw [hincoming, hunread]
      · intro hready
        exact absurd hnone (recv_ready Nat.one_pos hready)
    · obtain ⟨c, hc, hres, hcursor, hincoming, hothers⟩ :=
        h.getch_received hsocket hend hlt hlength hdata hone hsome hunread
      refine Or.inl ⟨c, hc, hres, ⟨_, _, hcursor⟩, Or.inr ?_, hothers⟩
      rw [hincoming]
      exact length_lt_of_received hdata hunread

end Reading

/-! ### The remaining length -/

namespace MQTTPacket

/-- The bytes of a remaining length, and its value. -/
inductive LengthField : Bytes → Nat → Prop
  | last (c : UInt8)
      (hlast : c.toNat / 128 ≠ 1) :
      LengthField [c] (c.toNat % 128)
  | more (c : UInt8) {cs : Bytes} {value : Nat}
      (hmore : c.toNat / 128 = 1)
      (hrest : LengthField cs value) :
      LengthField (c :: cs) (c.toNat % 128 + 128 * value)

variable {socket : Nat} {header body rest : Bytes}

theorem decodeLoop_interrupted
    {tries multiplier sum : Nat} {r : Reading}
    (h : (Socket.getch r socket).1.1 = TCPSOCKET_INTERRUPTED) :
    decodeLoop socket (tries + 1) multiplier sum r =
      ((TCPSOCKET_INTERRUPTED, sum), (Socket.getch r socket).2) := by
  rw [decodeLoop, ← Prod.mk.eta (p := Socket.getch r socket),
    ← Prod.mk.eta (p := (Socket.getch r socket).1), h]
  dsimp only
  rw [if_pos (by decide)]

theorem decodeLoop_complete
    {tries multiplier sum : Nat} {r : Reading} {c : UInt8}
    (h : (Socket.getch r socket).1 = (TCPSOCKET_COMPLETE, c)) :
    decodeLoop socket (tries + 1) multiplier sum r =
      if c.toNat / 128 = 1 then
        decodeLoop socket tries (multiplier * 128) (sum + c.toNat % 128 * multiplier)
          (Socket.getch r socket).2
      else
        ((TCPSOCKET_COMPLETE, sum + c.toNat % 128 * multiplier), (Socket.getch r socket).2) := by
  rw [decodeLoop, ← Prod.mk.eta (p := Socket.getch r socket), h]
  dsimp only
  rw [if_neg (not_not_intro rfl)]

/-- The remaining length is decoded to its end, or the read is interrupted. -/
theorem decodeLoop_spec
    {cs : Bytes} {value : Nat}
    (hfield : LengthField cs value)
    (hsocket : socket ≠ 0)
    (hlength : header.length ≤ 5) :
    ∀ {front : Bytes} {tries multiplier sum n : Nat} {r : Reading} {queue : SocketQueue},
      header = front ++ cs → cs.length ≤ tries →
      r.Cursor socket header body rest n front.length queue →
      ((decodeLoop socket tries multiplier sum r).1 =
          (TCPSOCKET_COMPLETE, sum + value * multiplier) ∧
        Reading.Reaches r (decodeLoop socket tries multiplier sum r).2 socket header body rest
          header.length) ∨
      ((decodeLoop socket tries multiplier sum r).1.1 = TCPSOCKET_INTERRUPTED ∧
        Reading.Interrupted r (decodeLoop socket tries multiplier sum r).2 socket header body
          rest) := by
  induction hfield with
  | last c hlast =>
      intro front tries multiplier sum n r queue hsplit htries hcursor
      obtain ⟨tries, rfl⟩ : ∃ k, tries = k + 1 := Nat.exists_eq_add_of_le' htries
      have hlen : header.length = front.length + 1 := by
        rw [hsplit, List.length_append, List.length_singleton]
      rcases hcursor.getch hsocket (by omega) hlength with ⟨c', hc', hres, hreaches⟩ | ⟨hres, hint⟩
      · have hc : c' = c := by
          rw [hsplit, List.getElem?_append_right (Nat.le_refl _), Nat.sub_self] at hc'
          exact (Option.some.inj hc').symm
        subst hc
        left
        rw [decodeLoop_complete hres, if_neg hlast, hlen]
        exact ⟨rfl, hreaches⟩
      · right
        rw [decodeLoop_interrupted hres]
        exact ⟨rfl, hint⟩
  | @more c cs value hmore _ ih =>
      intro front tries multiplier sum n r queue hsplit htries hcursor
      obtain ⟨tries, rfl⟩ : ∃ k, tries = k + 1 :=
        Nat.exists_eq_add_of_le' (Nat.le_trans (Nat.succ_le_succ (Nat.zero_le _)) htries)
      have hlt : front.length < header.length := by
        rw [hsplit, List.length_append, List.length_cons]
        omega
      rcases hcursor.getch hsocket hlt hlength with ⟨c', hc', hres, hreaches⟩ | ⟨hres, hint⟩
      · have hc : c' = c := by
          rw [hsplit, List.getElem?_append_right (Nat.le_refl _), Nat.sub_self] at hc'
          exact (Option.some.inj hc').symm
        subst hc
        obtain ⟨n', queue', hcursor'⟩ := hreaches.cursor
        have hsplit' : header = (front ++ [c']) ++ cs := by
          rw [hsplit, List.append_assoc]
          rfl
        have hfront : (front ++ [c']).length = front.length + 1 := by
          rw [List.length_append, List.length_singleton]
        have hnext := @ih (front ++ [c']) tries (multiplier * 128)
          (sum + c'.toNat % 128 * multiplier) n' _ queue' hsplit'
          (Nat.le_of_succ_le_succ htries) (hfront ▸ hcursor')
        rw [decodeLoop_complete hres, if_pos hmore]
        rcases hnext with ⟨hvalue, hend⟩ | ⟨hrc, hint⟩
        · left
          refine ⟨?_, hreaches.then_reaches hend⟩
          rw [hvalue]
          congr 1
          ring
        · exact Or.inr ⟨hrc, hreaches.then_interrupted hint⟩
      · right
        rw [decodeLoop_interrupted hres]
        exact ⟨rfl, hint⟩

end MQTTPacket

/-! ### A whole packet -/

namespace Reading

variable {socket : Nat} {header body rest : Bytes}

/-- A packet was read to its end, and no queue is left for its socket. -/
structure Finished (r r' : Reading) (socket : Nat) (rest : Bytes) : Prop where
  absent : r'.buffers.find socket = none
  idle : r'.buffers.def_queue.Idle
  unread : r'.incoming.unread = rest
  others : SocketBuffer.Others socket r.buffers r'.buffers

/-- A packet without a body ends with its header. -/
theorem Cursor.getdata_empty
    {r : Reading} {n : Nat} {queue : SocketQueue}
    (h : r.Cursor socket header [] rest n header.length queue)
    (hdistinct : r.buffers.Distinct) :
    (∃ buf, (Socket.getdata r socket 0).1 = (some buf, 0)) ∧
      Finished r (Socket.getdata r socket 0).2 socket rest := by
  obtain ⟨habsent, hidle, _, hothers⟩ := h.current.complete hdistinct h.holds.fits
  have hn : n = header.length := by
    have := h.holds.headerlen
    have := h.le
    have := h.short
    simp only [List.length_nil] at this
    omega
  refine ⟨⟨_, rfl⟩, habsent, hidle, ?_, hothers⟩
  have hunread := h.unread
  rw [hn, List.drop_left] at hunread
  exact hunread

/-- Nothing of the body arrives. -/
theorem Cursor.getdata_blocked
    {r : Reading} {n : Nat} {queue : SocketQueue}
    (h : r.Cursor socket header body rest n header.length queue)
    (hmissing : queue.datalen < body.length)
    (hnone : (recv r.incoming (body.length - queue.datalen)).1 = none)
    (hunread : (recv r.incoming (body.length - queue.datalen)).2.unread = r.incoming.unread) :
    (∃ buf, (Socket.getdata r socket body.length).1 = (some buf, queue.datalen)) ∧
      (Socket.getdata r socket body.length).2.Waits socket header body rest n ∧
      (Socket.getdata r socket body.length).2.incoming =
        (recv r.incoming (body.length - queue.datalen)).2 ∧
      SocketBuffer.Others socket r.buffers (Socket.getdata r socket body.length).2.buffers := by
  obtain ⟨hres, hcurrent, hothers⟩ := h.current.getQueuedData body.length
  obtain ⟨hfound, hidle, hothers'⟩ := hcurrent.interrupted queue.datalen
  have hgetdata : Socket.getdata r socket body.length =
      ((some (SocketBuffer.grow queue body.length).buf, queue.datalen),
        ⟨(r.buffers.getQueuedData socket body.length).2.interrupted socket queue.datalen,
          (recv r.incoming (body.length - queue.datalen)).2⟩) := by
    rw [Socket.getdata, if_neg (by omega),
      ← Prod.mk.eta (p := r.buffers.getQueuedData socket body.length), hres]
    dsimp only
    rw [← Prod.mk.eta (p := recv r.incoming (body.length - queue.datalen)), hnone]
    dsimp only
    rw [Socket.keep, if_neg (by omega)]
  rw [hgetdata]
  have hgrown := h.holds.grow
  have hdatalen : (SocketBuffer.grow queue body.length).datalen = queue.datalen := by
    rw [hgrown.datalen, h.holds.datalen]
  refine ⟨⟨_, rfl⟩, ⟨⟨hidle, Or.inr ⟨_, hfound, rfl, ?_⟩⟩, hunread.trans h.unread⟩, rfl,
    hothers.trans hothers'⟩
  rw [← hdatalen]
  exact hgrown.moved socket 0

/-- Bytes of the body arrive, and end the packet or leave it waiting. -/
theorem Cursor.getdata_received
    {r : Reading} {n : Nat} {queue : SocketQueue} {data : Bytes}
    (h : r.Cursor socket header body rest n header.length queue)
    (hdistinct : r.buffers.Distinct)
    (hdata : data ≠ [])
    (hlength : data.length ≤ body.length - queue.datalen)
    (hsome : (recv r.incoming (body.length - queue.datalen)).1 = some data)
    (hunread : r.incoming.unread =
      data ++ (recv r.incoming (body.length - queue.datalen)).2.unread) :
    ∃ buf, (Socket.getdata r socket body.length).1 = (some buf, queue.datalen + data.length) ∧
      ((queue.datalen + data.length = body.length ∧ buf.take body.length = body ∧
          Finished r (Socket.getdata r socket body.length).2 socket rest) ∨
        (queue.datalen + data.length < body.length ∧
          Interrupted r (Socket.getdata r socket body.length).2 socket header body rest)) := by
  have hpos : 0 < data.length := List.length_pos_iff.mpr hdata
  have hheader : header.length ≤ n := by
    have := h.holds.headerlen
    have := h.le
    omega
  have hdatalen := h.holds.datalen
  obtain ⟨hres, hcurrent, hothers⟩ := h.current.getQueuedData body.length
  have hgrown := h.holds.grow
  have hsame : (SocketBuffer.grow queue body.length).datalen = queue.datalen := by
    rw [hgrown.datalen, hdatalen]
  -- what is received is the next part of the body
  have hdrop : (header ++ (body ++ rest)).drop n = body.drop queue.datalen ++ rest := by
    rw [List.drop_append, List.drop_eq_nil_of_le hheader, List.nil_append, ← hdatalen,
      List.drop_append_of_le_length (by omega)]
  have hstream := hunread
  rw [h.unread, hdrop] at hstream
  have hpart : data = (body.drop queue.datalen).take data.length := by
    have hfront : data <+: body.drop queue.datalen ++ rest := ⟨_, hstream.symm⟩
    have hshort : data.length ≤ (body.drop queue.datalen).length := by
      rw [List.length_drop]
      exact hlength
    rw [← List.take_append_of_le_length hshort]
    exact List.prefix_iff_eq_take.mp hfront
  have hfilled := hgrown.filled hheader (SocketBuffer.grow_buflen _ _) (hsame ▸ hpart)
    (by omega)
  rw [hsame] at hfilled
  obtain ⟨hfill, hothers'⟩ := hcurrent.fill
    (SocketBuffer.overwrite (SocketBuffer.grow queue body.length).buf queue.datalen data)
  have hgetdata : Socket.getdata r socket body.length =
      ((some (SocketBuffer.overwrite (SocketBuffer.grow queue body.length).buf queue.datalen data),
          queue.datalen + data.length),
        ⟨Socket.keep (Socket.fill (r.buffers.getQueuedData socket body.length).2 socket
            (SocketBuffer.overwrite (SocketBuffer.grow queue body.length).buf queue.datalen data))
            socket body.length (queue.datalen + data.length),
          (recv r.incoming (body.length - queue.datalen)).2⟩) := by
    rw [Socket.getdata, if_neg (by omega),
      ← Prod.mk.eta (p := r.buffers.getQueuedData socket body.length), hres]
    dsimp only
    rw [← Prod.mk.eta (p := recv r.incoming (body.length - queue.datalen)), hsome]
    cases data with
    | nil => exact absurd rfl hdata
    | cons c cs => rfl
  rw [hgetdata]
  refine ⟨_, rfl, ?_⟩
  by_cases hwhole : queue.datalen + data.length = body.length
  · obtain ⟨habsent, hidle, _, hothers''⟩ :=
      hfill.complete (hothers'.distinct (hothers.distinct hdistinct)) hfilled.fits
    refine Or.inl ⟨hwhole, ?_, ?_⟩
    · have htake := hfilled.data_eq
      rw [hwhole, List.take_length] at htake
      exact htake
    · rw [Socket.keep, if_pos hwhole]
      refine ⟨habsent, hidle, ?_, (hothers.trans hothers').trans hothers''⟩
      have hall : data = body.drop queue.datalen := by
        rw [hpart]
        exact List.take_of_length_le (by rw [List.length_drop]; omega)
      rw [← hall] at hstream
      exact (List.append_cancel_left hstream).symm
  · obtain ⟨hfound, hidle, hothers''⟩ := hfill.interrupted (queue.datalen + data.length)
    have hless := length_lt_of_received hdata hunread
    refine Or.inr ⟨by omega, ⟨n + data.length, by omega, ?_⟩, Nat.le_of_lt hless,
      fun _ => hless, ?_⟩
    · rw [Socket.keep, if_neg hwhole]
      refine ⟨⟨hidle, Or.inr ⟨_, hfound, rfl, hfilled.moved socket 0⟩⟩, ?_⟩
      rw [← List.drop_drop, ← h.unread, hunread, List.drop_left]
    · rw [Socket.keep, if_neg hwhole]
      exact (hothers.trans hothers').trans hothers''

/-- The data of a packet whose header was read. -/
theorem Cursor.getdata
    {r : Reading} {n : Nat} {queue : SocketQueue}
    (h : r.Cursor socket header body rest n header.length queue)
    (hdistinct : r.buffers.Distinct) :
    ∃ buf actual_len, (Socket.getdata r socket body.length).1 = (some buf, actual_len) ∧
      ((actual_len = body.length ∧ buf.take body.length = body ∧
          Finished r (Socket.getdata r socket body.length).2 socket rest) ∨
        (actual_len < body.length ∧
          Interrupted r (Socket.getdata r socket body.length).2 socket header body rest)) := by
  by_cases hempty : body = []
  · subst hempty
    obtain ⟨⟨buf, hres⟩, hfinished⟩ := h.getdata_empty hdistinct
    exact ⟨buf, 0, hres, Or.inl ⟨rfl, List.take_zero, hfinished⟩⟩
  · have hpos : 0 < body.length := List.length_pos_iff.mpr hempty
    have hdatalen := h.holds.datalen
    have hshort := h.short
    have hmissing : queue.datalen < body.length := by omega
    rcases recv_cases r.incoming (Nat.sub_pos_of_lt hmissing) with
      ⟨hnone, hunread⟩ | ⟨data, hdata, hlength, hsome, hunread⟩
    · obtain ⟨⟨buf, hres⟩, hwaits, hincoming, hothers⟩ :=
        h.getdata_blocked hmissing hnone hunread
      have hle := h.le
      have hlen := h.holds.headerlen
      refine ⟨buf, queue.datalen, hres,
        Or.inr ⟨hmissing, ⟨n, by omega, hwaits⟩, ?_, ?_, hothers⟩⟩
      · rw [hincoming, hunread]
      · intro hready
        exact absurd hnone (recv_ready (Nat.sub_pos_of_lt hmissing) hready)
    · obtain ⟨buf, hres, hcases⟩ :=
        h.getdata_received hdistinct hdata hlength hsome hunread
      exact ⟨buf, _, hres, hcases⟩

end Reading

namespace MQTTPacket

/-- A packet on the wire: the header byte, the bytes of its remaining length, and the body. -/
structure Frame where
  byte : UInt8
  length : Bytes
  body : Bytes
  length_field : LengthField length body.length
  length_le : length.length ≤ MAX_NO_OF_REMAINING_LENGTH_BYTES

/-- The part of a packet that is read byte by byte. -/
def Frame.header (f : Frame) : Bytes := f.byte :: f.length

def Frame.bytes (f : Frame) : Bytes := f.header ++ f.body

theorem Frame.bytes_ne_nil
    (f : Frame) :
    f.bytes ≠ [] := by
  rw [bytes, header]
  exact List.cons_ne_nil _ _

theorem Frame.length_bytes
    (f : Frame) :
    f.bytes.length = f.header.length + f.body.length :=
  List.length_append

theorem readPacket_interrupted
    (MQTTVersion : Nat) {socket : Nat} {r : Reading}
    (h : (Socket.getch r socket).1.1 = TCPSOCKET_INTERRUPTED) :
    readPacket MQTTVersion r socket =
      ((TCPSOCKET_INTERRUPTED, none), (Socket.getch r socket).2) := by
  rw [readPacket, ← Prod.mk.eta (p := Socket.getch r socket),
    ← Prod.mk.eta (p := (Socket.getch r socket).1), h]
  dsimp only
  rw [if_pos (by decide)]

/-- What a call of the factory comes to. -/
inductive CallOutcome (f : Frame) (rest : Bytes) (MQTTVersion : Nat) (r : Reading)
    (socket : Nat) : Prop
  | completed
      (result : (readPacket MQTTVersion r socket).1 =
        (TCPSOCKET_COMPLETE, some ⟨constructorOf MQTTVersion f.byte, MQTTVersion, f.byte, f.body⟩))
      (finished : Reading.Finished r (readPacket MQTTVersion r socket).2 socket rest) :
      CallOutcome f rest MQTTVersion r socket
  | interrupted
      (result : (readPacket MQTTVersion r socket).1 = (TCPSOCKET_INTERRUPTED, none))
      (interrupted : Reading.Interrupted r (readPacket MQTTVersion r socket).2 socket f.header
        f.body rest) :
      CallOutcome f rest MQTTVersion r socket

/-- A call of the factory gives the packet that is next on the socket, or goes on with it later. -/
theorem readPacket_spec
    {f : Frame} {rest : Bytes} {socket n : Nat} {r : Reading}
    (MQTTVersion : Nat)
    (hsocket : socket ≠ 0)
    (hdistinct : r.buffers.Distinct)
    (hwaits : r.Waits socket f.header f.body rest n)
    (hshort : n < f.bytes.length) :
    CallOutcome f rest MQTTVersion r socket := by
  rw [f.length_bytes] at hshort
  have hlength : f.header.length ≤ 5 := Nat.succ_le_succ f.length_le
  obtain ⟨queue, hcursor⟩ := hwaits.cursor (Or.inr hshort)
  rcases hcursor.getch hsocket (Nat.succ_pos _) hlength with ⟨c, hc, hres, hfirst⟩ | ⟨hres, hint⟩
  · obtain rfl : f.byte = c := Option.some.inj hc
    obtain ⟨n₁, queue₁, hcursor₁⟩ := hfirst.cursor
    have hdecode := @decodeLoop_spec socket f.header f.body rest _ _ f.length_field hsocket hlength
      [f.byte] MAX_NO_OF_REMAINING_LENGTH_BYTES 1 0 n₁ _ queue₁ rfl f.length_le hcursor₁
    rcases hdecode with ⟨hvalue, hend⟩ | ⟨hrc, hint⟩
    · obtain ⟨n₂, queue₂, hcursor₂⟩ := hend.cursor
      have hbefore := hfirst.then_reaches hend
      rw [Nat.mul_one, Nat.zero_add] at hvalue
      obtain ⟨buf, actual_len, hdata, hcases⟩ := hcursor₂.getdata (hbefore.others.distinct hdistinct)
      have hread : readPacket MQTTVersion r socket =
          if actual_len < f.body.length then
            ((TCPSOCKET_INTERRUPTED, none),
              (Socket.getdata (decode (Socket.getch r socket).2 socket).2 socket
                f.body.length).2)
          else
            ((TCPSOCKET_COMPLETE, some ⟨constructorOf MQTTVersion f.byte, MQTTVersion, f.byte,
                buf.take f.body.length⟩),
              (Socket.getdata (decode (Socket.getch r socket).2 socket).2 socket
                f.body.length).2) := by
        rw [readPacket, ← Prod.mk.eta (p := Socket.getch r socket), hres]
        dsimp only
        rw [if_neg (not_not_intro rfl), ← Prod.mk.eta (p := decode (Socket.getch r socket).2 socket),
          show (decode (Socket.getch r socket).2 socket).1 = _ from hvalue]
        dsimp only
        rw [if_neg (not_not_intro rfl), ← Prod.mk.eta (p := Socket.getdata
            (decode (Socket.getch r socket).2 socket).2 socket f.body.length),
          show (Socket.getdata (decode (Socket.getch r socket).2 socket).2 socket
            f.body.length).1 = _ from hdata]
        dsimp only
        rw [if_neg (fun h => absurd h.2 (Option.some_ne_none _))]
        rfl
      rcases hcases with ⟨hall, hbuf, hfinished⟩ | ⟨hpart, hint⟩
      · rw [if_neg (by omega), hbuf] at hread
        refine CallOutcome.completed (by rw [hread]) ?_
        rw [hread]
        exact ⟨hfinished.absent, hfinished.idle, hfinished.unread,
          hbefore.others.trans hfinished.others⟩
      · rw [if_pos hpart] at hread
        refine CallOutcome.interrupted (by rw [hread]) ?_
        rw [hread]
        exact hbefore.then_interrupted hint
    · have hread : readPacket MQTTVersion r socket =
          ((TCPSOCKET_INTERRUPTED, none), (decode (Socket.getch r socket).2 socket).2) := by
        rw [readPacket, ← Prod.mk.eta (p := Socket.getch r socket), hres]
        dsimp only
        rw [if_neg (not_not_intro rfl), ← Prod.mk.eta (p := decode (Socket.getch r socket).2 socket),
          ← Prod.mk.eta (p := (decode (Socket.getch r socket).2 socket).1),
          show (decode (Socket.getch r socket).2 socket).1.1 = _ from hrc]
        dsimp only
        rw [if_pos (by decide)]
      refine CallOutcome.interrupted (by rw [hread]) ?_
      rw [hread]
      exact hfirst.then_interrupted hint
  · have hread := readPacket_interrupted MQTTVersion hres
    refine CallOutcome.interrupted (by rw [hread]) ?_
    rw [hread]
    exact hint

/-- Where no packet is to come, a call of the factory changes no more than the queue. -/
theorem readPacket_nothing
    {socket : Nat} {r : Reading}
    (MQTTVersion : Nat)
    (hwaits : r.Waits socket [] [] [] 0) :
    (readPacket MQTTVersion r socket).1 = (TCPSOCKET_INTERRUPTED, none) ∧
      (readPacket MQTTVersion r socket).2.Waits socket [] [] [] 0 ∧
      SocketBuffer.Others socket r.buffers (readPacket MQTTVersion r socket).2.buffers := by
  obtain ⟨queue, hcursor⟩ := hwaits.cursor (Or.inl (Nat.le_refl 0))
  have hend : 0 = queue.headerlen := by
    rw [hcursor.holds.headerlen]
    rfl
  have hempty : r.incoming.unread = [] := hcursor.unread
  rcases recv_cases r.incoming Nat.one_pos with ⟨hnone, hunread⟩ | ⟨data, hdata, _, _, hunread⟩
  · obtain ⟨hres, hwaits', _, hothers⟩ :=
      hcursor.getch_blocked hend (Nat.zero_le _) (Nat.le_refl 0) hnone hunread
    rw [readPacket_interrupted MQTTVersion hres]
    exact ⟨rfl, hwaits', hothers⟩
  · rw [hempty] at hunread
    exact absurd (List.append_eq_nil_iff.mp hunread.symm).1 hdata

end MQTTPacket

end PahoMqtt
