import PahoMqtt.Lib.GatherWrites
import PahoMqtt.Lib.Runs
import PahoMqtt.Net

/-!
# Partial writes

`Socket_putdatas` gives all buffers of a packet to one `writev`.  What it does
not take stays behind as a `pending_writes`, which points to the packet's
buffers, and `Socket_continueWrites` goes on with it when the socket can be
written to.

The buffers are blocks of memory.  A block that is written from must not change
until then; the ones marked in `frees` belong to the write, which frees them
when it is complete.  `iovecs` has five places, as many as the packets need.
-/

namespace PahoMqtt

/-- The blocks of memory by their addresses; a freed one is gone. -/
abbrev Memory := Nat → Option Bytes

def Memory.free (memory : Memory) (blocks : List Nat) : Memory :=
  fun block => if block ∈ blocks then none else memory block

/-- An `iobuf`, with its entry of `frees`. -/
structure IoBuf where
  /-- `iov_base`: a block, and how far into it the pointer is. -/
  iov_base : Nat
  offset : Nat
  iov_len : Nat
  frees : Bool
deriving DecidableEq

namespace IoBuf

/-- The bytes that are read through an `iobuf`. -/
def data (memory : Memory) (iov : IoBuf) : Bytes :=
  (((memory iov.iov_base).getD []).drop iov.offset).take iov.iov_len

def skip (iov : IoBuf) (n : Nat) : IoBuf :=
  { iov with offset := iov.offset + n, iov_len := iov.iov_len - n }

/-- The block is there, and long enough. -/
def Readable (memory : Memory) (iov : IoBuf) : Prop :=
  ∃ block, memory iov.iov_base = some block ∧ iov.offset + iov.iov_len ≤ block.length

end IoBuf

/-- The data of several buffers. -/
def gather (memory : Memory) (iovecs : List IoBuf) : Bytes :=
  iovecs.flatMap (IoBuf.data memory)

/-- `pending_writes`; `count` is the length of `iovecs`. -/
structure PendingWrite where
  socket : Nat
  total : Nat
  bytes : Nat
  iovecs : List IoBuf
deriving DecidableEq

/-- What `writev` does with what it is given. -/
inductive WritevAnswer where
  /-- It takes this many bytes, if there are as many. -/
  | accepts (n : Nat)
  /-- EWOULDBLOCK or EAGAIN -/
  | wouldBlock
  | fails
deriving DecidableEq

/-- The part of the data that goes to the kernel. -/
def WritevAnswer.taken (data : Bytes) : WritevAnswer → Bytes
  | .accepts n => data.take n
  | .wouldBlock => []
  | .fails => []

/-- What writing depends on: the memory, the two lists, and what the kernel was given. -/
structure Writing where
  memory : Memory
  writes : List PendingWrite
  write_pending : List Nat
  sent : Nat → Bytes

namespace Writing

def initial (memory : Memory) : Writing where
  memory := memory
  writes := []
  write_pending := []
  sent := fun _ => []

/-- `Socket_noPendingWrites` -/
def noPendingWrites (s : Writing) (socket : Nat) : Bool :=
  socket ∉ s.write_pending

/-- `Socket_writev`: the return code, and `bytes`. -/
def writev (s : Writing) (socket : Nat) (iovecs : List IoBuf) (answer : WritevAnswer) :
    (Int × Nat) × Writing :=
  match answer with
  | .accepts n =>
      let data := (WritevAnswer.accepts n).taken (gather s.memory iovecs)
      ((data.length, data.length),
        { s with sent := Function.update s.sent socket (s.sent socket ++ data) })
  | .wouldBlock => ((TCPSOCKET_INTERRUPTED, 0), s)
  | .fails => ((SOCKET_ERROR, 0), s)

/-- `SocketBuffer_pendingWrite` -/
def pendingWrite (s : Writing) (socket : Nat) (iovecs : List IoBuf) (total bytes : Nat) : Writing :=
  { s with writes := s.writes ++ [{ socket, total, bytes, iovecs }] }

/-- `SocketBuffer_getWrite` -/
def getWrite (s : Writing) (socket : Nat) : Option PendingWrite :=
  s.writes.find? fun pw => pw.socket = socket

/-- The fields of the pending write of a socket are written. -/
def setWrite (s : Writing) (socket : Nat) (pw : PendingWrite) : Writing :=
  { s with writes := s.writes.map fun w => if w.socket = socket then pw else w }

/-- `SocketBuffer_writeComplete` -/
def writeComplete (s : Writing) (socket : Nat) : Writing :=
  { s with writes := s.writes.eraseP fun pw => pw.socket = socket }

/-- `SocketBuffer_updateWrite` -/
def updateWrite (s : Writing) (socket topic payload : Nat) : Writing :=
  match s.getWrite socket with
  | none => s
  | some pw =>
      match pw.iovecs with
      | [header, topiclen, iov₂, iov₃] =>
          s.setWrite socket
            { pw with
              iovecs := [header, topiclen, { iov₂ with iov_base := topic, offset := 0 },
                { iov₃ with iov_base := payload, offset := 0 }] }
      | _ => s

/-- `Socket_putdatas` -/
def putdatas (s : Writing) (socket : Nat) (buf0 : IoBuf) (bufs : List IoBuf)
    (answer : WritevAnswer) : Int × Writing :=
  if !s.noPendingWrites socket then (SOCKET_ERROR, s)
  else
    let total := buf0.iov_len + (bufs.map IoBuf.iov_len).sum
    -- the first buffer is freed if the write is interrupted
    let iovecs := { buf0 with frees := true } :: bufs
    match s.writev socket iovecs answer with
    | ((rc, bytes), s) =>
        if rc = SOCKET_ERROR then (rc, s)
        else if bytes = total then (TCPSOCKET_COMPLETE, s)
        else
          let s := s.pendingWrite socket iovecs total bytes
          (TCPSOCKET_INTERRUPTED, { s with write_pending := s.write_pending ++ [socket] })

/-- The buffers of a write that are freed with it. -/
def freed (iovecs : List IoBuf) : List Nat :=
  (iovecs.filter IoBuf.frees).map IoBuf.iov_base

/-- `Socket_continueWrite`; none where there is no pending write to point to. -/
def continueWrite (s : Writing) (socket : Nat) (answer : WritevAnswer) : Option (Int × Writing) :=
  match s.getWrite socket with
  | none => none
  | some pw =>
      let iovecs1 := Lib.resume IoBuf.iov_len IoBuf.skip pw.bytes 0 pw.iovecs
      match s.writev socket iovecs1 answer with
      | ((rc, bytes), s) =>
          if rc ≠ SOCKET_ERROR then
            let s := s.setWrite socket { pw with bytes := pw.bytes + bytes }
            if pw.bytes + bytes = pw.total then
              some (1, { s with memory := s.memory.free (freed pw.iovecs) })
            else some (0, s)
          else some (rc, { s with memory := s.memory.free (freed pw.iovecs) })

/-- The part of `Socket_continueWrites` for one socket. -/
def continuePending (s : Writing) (socket : Nat) (answer : WritevAnswer) :
    Option (Int × Writing) :=
  match s.continueWrite socket answer with
  | none => none
  | some (rc, s) =>
      if rc ≠ 0 then
        let s := s.writeComplete socket
        some (rc, { s with write_pending := s.write_pending.erase socket })
      else some (rc, s)

/-- The loop of `Socket_continueWrites` over the rest of the list. -/
def continueLoop (pwset : Nat → Bool) (answers : Nat → WritevAnswer) :
    List Nat → Int × Option Nat → Writing → Option ((Int × Option Nat) × Writing)
  | [], res, s => some (res, s)
  | socket :: rest, res, s =>
      if pwset socket then
        match s.continuePending socket (answers socket) with
        | none => none
        | some (rc, s) =>
            continueLoop pwset answers rest
              (if rc = SOCKET_ERROR then (SOCKET_ERROR, some socket) else res) s
      else continueLoop pwset answers rest res s

/-- `Socket_continueWrites`: the return code, and the socket with an error. -/
def continueWrites (s : Writing) (pwset : Nat → Bool) (answers : Nat → WritevAnswer) :
    Option ((Int × Option Nat) × Writing) :=
  continueLoop pwset answers s.write_pending (0, none) s

end Writing

/-! ### Memory that is read -/

namespace IoBuf

theorem data_length
    {memory : Memory} {iov : IoBuf}
    (h : iov.Readable memory) :
    (iov.data memory).length = iov.iov_len := by
  obtain ⟨block, hblock, hlen⟩ := h
  rw [data, hblock, Option.getD_some, List.length_take, List.length_drop]
  omega

theorem data_skip
    (memory : Memory) (iov : IoBuf) (n : Nat) :
    (iov.skip n).data memory = (iov.data memory).drop n := by
  simp only [data, skip, List.drop_take, List.drop_drop]

theorem data_congr
    {memory memory' : Memory} {iov : IoBuf}
    (h : memory' iov.iov_base = memory iov.iov_base) :
    iov.data memory' = iov.data memory := by
  rw [data, data, h]

theorem Readable.congr
    {memory memory' : Memory} {iov : IoBuf}
    (h : iov.Readable memory)
    (hsame : memory' iov.iov_base = memory iov.iov_base) :
    iov.Readable memory' := by
  obtain ⟨block, hblock, hlen⟩ := h
  exact ⟨block, hsame.trans hblock, hlen⟩

end IoBuf

theorem gather_length
    {memory : Memory} {iovecs : List IoBuf}
    (h : ∀ iov ∈ iovecs, iov.Readable memory) :
    (gather memory iovecs).length = (iovecs.map IoBuf.iov_len).sum := by
  induction iovecs with
  | nil =>
      rfl
  | cons iov iovecs ih =>
      obtain ⟨hiov, hiovecs⟩ := List.forall_mem_cons.mp h
      rw [gather, List.flatMap_cons, List.length_append, iov.data_length hiov, List.map_cons,
        List.sum_cons, ← ih hiovecs, gather]

theorem gather_congr
    {memory memory' : Memory} {iovecs : List IoBuf}
    (h : ∀ iov ∈ iovecs, memory' iov.iov_base = memory iov.iov_base) :
    gather memory' iovecs = gather memory iovecs := by
  rw [gather, gather, List.flatMap_def, List.flatMap_def,
    List.map_congr_left fun iov hiov => IoBuf.data_congr (h iov hiov)]

/-- What `Socket_continueWrite` offers is the rest of the packet. -/
theorem gather_resume
    {memory : Memory} {iovecs : List IoBuf}
    (h : ∀ iov ∈ iovecs, iov.Readable memory)
    (bytes : Nat) :
    gather memory (Lib.resume IoBuf.iov_len IoBuf.skip bytes 0 iovecs) =
      (gather memory iovecs).drop bytes :=
  Lib.flatMap_resume (fun iov hiov => iov.data_length (h iov hiov))
    (fun iov n => iov.data_skip memory n) bytes 0

theorem Memory.free_of_not_mem
    {memory : Memory} {blocks : List Nat} {block : Nat}
    (h : block ∉ blocks) :
    memory.free blocks block = memory block := by
  rw [Memory.free, if_neg h]

namespace Writing

/-! ### What is pending -/

/-- `handed` has been given to the socket of `w`; what was not sent of it is in the buffers of `w`. -/
structure Holds (memory : Memory) (sent handed : Bytes) (w : PendingWrite) : Prop where
  readable : ∀ iov ∈ w.iovecs, iov.Readable memory
  total : w.total = (gather memory w.iovecs).length
  unfinished : w.bytes < w.total
  rest : handed = sent ++ (gather memory w.iovecs).drop w.bytes

/-- The buffers that one write frees are of no use to another. -/
def Apart (w w' : PendingWrite) : Prop :=
  ∀ iov ∈ w'.iovecs, iov.iov_base ∉ freed w.iovecs

/-- What is true of the pending writes when `handed` has been given to the sockets. -/
structure Sound (handed : Nat → Bytes) (s : Writing) : Prop where
  distinct : (s.writes.map PendingWrite.socket).Nodup
  listed : s.write_pending = s.writes.map PendingWrite.socket
  holds : ∀ w ∈ s.writes, Holds s.memory (s.sent w.socket) (handed w.socket) w
  complete : ∀ socket ∉ s.write_pending, handed socket = s.sent socket
  apart : ∀ w ∈ s.writes, ∀ w' ∈ s.writes, w.socket ≠ w'.socket → Apart w w'

theorem Holds.congr
    {memory memory' : Memory} {sent handed : Bytes} {w : PendingWrite}
    (h : Holds memory sent handed w)
    (hsame : ∀ iov ∈ w.iovecs, memory' iov.iov_base = memory iov.iov_base) :
    Holds memory' sent handed w := by
  have hgather := gather_congr hsame
  constructor
  · exact fun iov hiov => (h.readable iov hiov).congr (hsame iov hiov)
  · rw [hgather]
    exact h.total
  · exact h.unfinished
  · rw [hgather]
    exact h.rest

/-- Something is missing on the socket as long as the write is pending. -/
theorem Holds.sent_ne
    {memory : Memory} {sent handed : Bytes} {w : PendingWrite}
    (h : Holds memory sent handed w) :
    sent ≠ handed := by
  intro heq
  have hlen := congrArg List.length h.rest
  rw [← heq, List.length_append, List.length_drop] at hlen
  have htotal := h.total
  have hunfinished := h.unfinished
  omega

theorem mem_of_getWrite
    {s : Writing} {socket : Nat} {w : PendingWrite}
    (h : s.getWrite socket = some w) :
    w ∈ s.writes ∧ w.socket = socket :=
  ⟨List.mem_of_find?_eq_some h,
    of_decide_eq_true
      (List.find?_some (p := fun pw : PendingWrite => decide (pw.socket = socket)) h)⟩

theorem getWrite_isSome
    {s : Writing} {socket : Nat} :
    (s.getWrite socket).isSome ↔ socket ∈ s.writes.map PendingWrite.socket := by
  rw [getWrite, List.find?_isSome, List.mem_map]
  constructor
  · rintro ⟨w, hw, hsocket⟩
    exact ⟨w, hw, of_decide_eq_true hsocket⟩
  · rintro ⟨w, hw, hsocket⟩
    exact ⟨w, hw, decide_eq_true hsocket⟩

namespace Sound

variable {handed : Nat → Bytes} {s : Writing}

theorem getWrite_of_pending
    (h : Sound handed s)
    {socket : Nat}
    (hpending : socket ∈ s.write_pending) :
    ∃ w, s.getWrite socket = some w ∧ w ∈ s.writes ∧ w.socket = socket := by
  rw [h.listed] at hpending
  obtain ⟨w, hw⟩ := Option.isSome_iff_exists.mp (getWrite_isSome.mpr hpending)
  exact ⟨w, hw, mem_of_getWrite hw⟩

/-- A write is pending exactly while some of what was handed over was not sent. -/
theorem pending_iff
    (h : Sound handed s)
    (socket : Nat) :
    socket ∈ s.write_pending ↔ s.sent socket ≠ handed socket := by
  constructor
  · intro hpending
    obtain ⟨w, _, hw, rfl⟩ := h.getWrite_of_pending hpending
    exact (h.holds w hw).sent_ne
  · intro hne
    by_contra hnot
    exact hne (h.complete socket hnot).symm

theorem sent_prefix
    (h : Sound handed s)
    (socket : Nat) :
    s.sent socket <+: handed socket := by
  by_cases hpending : socket ∈ s.write_pending
  · obtain ⟨w, _, hw, rfl⟩ := h.getWrite_of_pending hpending
    exact ⟨_, (h.holds w hw).rest.symm⟩
  · rw [h.complete socket hpending]

end Sound
/-! ### One call of `writev` -/

theorem taken_prefix
    (data : Bytes) (answer : WritevAnswer) :
    answer.taken data <+: data := by
  cases answer with
  | accepts n => exact List.take_prefix n data
  | wouldBlock => exact List.nil_prefix
  | fails => exact List.nil_prefix

/-- Without an error a part of the data goes to the socket, and its length is returned. -/
theorem writev_spec
    (s : Writing) (socket : Nat) (iovecs : List IoBuf) {answer : WritevAnswer}
    (hanswer : answer ≠ .fails) :
    ∃ rc, rc ≠ SOCKET_ERROR ∧
      s.writev socket iovecs answer =
        ((rc, (answer.taken (gather s.memory iovecs)).length), { s with
          sent := Function.update s.sent socket
            (s.sent socket ++ answer.taken (gather s.memory iovecs)) }) := by
  cases answer with
  | accepts n =>
      refine ⟨_, ?_, rfl⟩
      rw [SOCKET_ERROR]
      omega
  | wouldBlock =>
      refine ⟨TCPSOCKET_INTERRUPTED, ?_, ?_⟩
      · decide
      · rw [WritevAnswer.taken, List.append_nil, Function.update_eq_self]
        rfl
  | fails =>
      exact absurd rfl hanswer

/-! ### The lists -/

theorem setWrite_sockets
    (s : Writing) {socket : Nat} {pw : PendingWrite}
    (hsocket : pw.socket = socket) :
    (s.setWrite socket pw).writes.map PendingWrite.socket = s.writes.map PendingWrite.socket := by
  rw [setWrite, List.map_map]
  apply List.map_congr_left
  intro w _
  rw [Function.comp_apply]
  split
  · rename_i hw
    exact hsocket.trans hw.symm
  · rfl

theorem mem_setWrite
    {s : Writing} {socket : Nat} {pw w : PendingWrite}
    (h : w ∈ (s.setWrite socket pw).writes) :
    w = pw ∨ w ∈ s.writes ∧ w.socket ≠ socket := by
  obtain ⟨w', hw', rfl⟩ := List.mem_map.mp h
  by_cases hsocket : w'.socket = socket
  · rw [if_pos hsocket]
    exact Or.inl rfl
  · rw [if_neg hsocket]
    exact Or.inr ⟨hw', hsocket⟩

theorem writeComplete_sockets
    (s : Writing) (socket : Nat) :
    (s.writeComplete socket).writes.map PendingWrite.socket =
      (s.writes.map PendingWrite.socket).erase socket := by
  obtain ⟨memory, writes, write_pending, sent⟩ := s
  simp only [writeComplete]
  induction writes with
  | nil =>
      rfl
  | cons w writes ih =>
      by_cases hw : w.socket = socket
      · rw [List.eraseP_cons_of_pos (by simpa using hw), List.map_cons, hw, List.erase_cons_head]
      · rw [List.eraseP_cons_of_neg (by simpa using hw), List.map_cons, List.map_cons, ih,
          List.erase_cons_tail (by simpa using hw)]

theorem mem_writeComplete
    {s : Writing} {socket : Nat}
    (hdistinct : (s.writes.map PendingWrite.socket).Nodup)
    {w : PendingWrite}
    (h : w ∈ (s.writeComplete socket).writes) :
    w ∈ s.writes ∧ w.socket ≠ socket := by
  refine ⟨List.mem_of_mem_eraseP h, ?_⟩
  rintro rfl
  have hmem := List.mem_map_of_mem (f := PendingWrite.socket) h
  rw [writeComplete_sockets] at hmem
  exact hdistinct.not_mem_erase hmem

/-! ### A packet is handed over -/

/-- What is given to one more socket. -/
abbrev give (handed : Nat → Bytes) (socket : Nat) (data : Bytes) : Nat → Bytes :=
  Function.update handed socket (handed socket ++ data)

/-- What the callers of `Socket_putdatas` see to. -/
structure Handed (s : Writing) (iovecs : List IoBuf) : Prop where
  readable : ∀ iov ∈ iovecs, iov.Readable s.memory
  apart : ∀ w ∈ s.writes, ∀ iov ∈ iovecs, iov.iov_base ∉ freed w.iovecs
  unshared : ∀ w ∈ s.writes, ∀ iov ∈ w.iovecs, iov.iov_base ∉ freed iovecs

namespace Sound

variable {handed : Nat → Bytes} {s : Writing}

/-- The socket has taken all of the packet. -/
theorem sent_whole
    (h : Sound handed s)
    {socket : Nat}
    (hsocket : socket ∉ s.write_pending)
    (data : Bytes) :
    Sound (give handed socket data) { s with sent := give s.sent socket data } := by
  have hother : ∀ w ∈ s.writes, w.socket ≠ socket := by
    intro w hw heq
    rw [h.listed] at hsocket
    exact hsocket (List.mem_map.mpr ⟨w, hw, heq⟩)
  constructor
  · exact h.distinct
  · exact h.listed
  · intro w hw
    simp only [give, Function.update_of_ne (hother w hw)]
    exact h.holds w hw
  · intro sock hsock
    by_cases heq : sock = socket
    · subst heq
      simp only [give, Function.update_self, h.complete sock hsocket]
    · simp only [give, Function.update_of_ne heq]
      exact h.complete sock hsock
  · exact h.apart

/-- The socket has taken a part of the packet; the rest is pending. -/
theorem sent_part
    (h : Sound handed s)
    {socket : Nat}
    (hsocket : socket ∉ s.write_pending)
    {iovecs : List IoBuf}
    (hpacket : s.Handed iovecs)
    {data : Bytes}
    (hbegins : data <+: gather s.memory iovecs)
    (hpart : data.length < (gather s.memory iovecs).length) :
    Sound (give handed socket (gather s.memory iovecs))
      { s with
        sent := give s.sent socket data
        writes := s.writes ++
          [⟨socket, (gather s.memory iovecs).length, data.length, iovecs⟩]
        write_pending := s.write_pending ++ [socket] } := by
  have hnot := hsocket
  rw [h.listed] at hnot
  have hother : ∀ w ∈ s.writes, w.socket ≠ socket := by
    intro w hw heq
    exact hnot (List.mem_map.mpr ⟨w, hw, heq⟩)
  constructor
  · rw [List.map_append]
    refine List.nodup_append.mpr ⟨h.distinct, List.nodup_singleton _, ?_⟩
    intro sock hsock sock' hsock' heq
    rw [List.map_singleton, List.mem_singleton] at hsock'
    subst heq hsock'
    exact hnot hsock
  · rw [List.map_append, h.listed]
    rfl
  · intro w hw
    rcases List.mem_append.mp hw with hw | hw
    · simp only [give, Function.update_of_ne (hother w hw)]
      exact h.holds w hw
    · cases List.mem_singleton.mp hw
      refine ⟨hpacket.readable, rfl, hpart, ?_⟩
      obtain ⟨rest, hrest⟩ := hbegins
      simp only [give, Function.update_self, h.complete socket hsocket]
      rw [← hrest, List.drop_left, List.append_assoc]
  · intro sock hsock
    rw [List.mem_append, not_or, List.mem_singleton] at hsock
    simp only [give, Function.update_of_ne hsock.2]
    exact h.complete sock hsock.1
  · intro w hw w' hw' hne
    rcases List.mem_append.mp hw with hw | hw <;> rcases List.mem_append.mp hw' with hw' | hw'
    · exact h.apart w hw w' hw' hne
    · cases List.mem_singleton.mp hw'
      exact hpacket.apart w hw
    · cases List.mem_singleton.mp hw
      exact hpacket.unshared w' hw'
    · cases List.mem_singleton.mp hw
      cases List.mem_singleton.mp hw'
      exact absurd rfl hne

end Sound

/-- The buffers of a packet as `Socket_putdatas` lays them out. -/
def packetBuffers (buf0 : IoBuf) (bufs : List IoBuf) : List IoBuf :=
  { buf0 with frees := true } :: bufs

theorem putdatas_sound
    {handed : Nat → Bytes} {s : Writing}
    (h : Sound handed s)
    {socket : Nat} {buf0 : IoBuf} {bufs : List IoBuf} {answer : WritevAnswer}
    (hno : s.noPendingWrites socket = true)
    (hpacket : s.Handed (packetBuffers buf0 bufs))
    (hanswer : answer ≠ .fails) :
    Sound (give handed socket (gather s.memory (packetBuffers buf0 bufs)))
      (s.putdatas socket buf0 bufs answer).2 := by
  have hsocket : socket ∉ s.write_pending := by simpa [noPendingWrites] using hno
  have htotal : buf0.iov_len + (bufs.map IoBuf.iov_len).sum =
      (gather s.memory (packetBuffers buf0 bufs)).length := by
    rw [gather_length hpacket.readable, packetBuffers, List.map_cons, List.sum_cons]
  obtain ⟨rc, hrc, hwritev⟩ := s.writev_spec socket (packetBuffers buf0 bufs) hanswer
  have hbegins := taken_prefix (gather s.memory (packetBuffers buf0 bufs)) answer
  rw [packetBuffers] at hwritev
  rw [putdatas, hno, htotal]
  simp only [hwritev, Bool.not_true, Bool.false_eq_true, if_false, if_neg hrc]
  rw [← packetBuffers]
  split
  · rename_i hall
    rw [hbegins.eq_of_length hall]
    exact h.sent_whole hsocket _
  · rename_i hpart
    exact h.sent_part hsocket hpacket hbegins (lt_of_le_of_ne hbegins.length_le hpart)

/-! ### A pending write is continued -/

/-- What there is to see of writing from outside: the bytes sent, and where some are missing. -/
structure Outgoing where
  sent : Nat → Bytes
  pending : List Nat

def outgoing (s : Writing) : Outgoing := ⟨s.sent, s.write_pending⟩

namespace Outgoing

/-- What was handed over and not sent. -/
def unsent (handed : Nat → Bytes) (o : Outgoing) (socket : Nat) : Bytes :=
  (handed socket).drop (o.sent socket).length

/-- The kernel takes a part of what is unsent. -/
def proceed (handed : Nat → Bytes) (o : Outgoing) (socket : Nat) (answer : WritevAnswer) :
    Outgoing where
  sent := give o.sent socket (answer.taken (o.unsent handed socket))
  pending :=
    if answer.taken (o.unsent handed socket) = o.unsent handed socket then
      o.pending.erase socket
    else o.pending

end Outgoing

theorem Holds.unsent
    {memory : Memory} {sent handed : Bytes} {w : PendingWrite}
    (h : Holds memory sent handed w) :
    handed.drop sent.length = (gather memory w.iovecs).drop w.bytes := by
  conv_lhs => rw [h.rest]
  exact List.drop_left

theorem Holds.unsent_length
    {memory : Memory} {sent handed : Bytes} {w : PendingWrite}
    (h : Holds memory sent handed w) :
    w.bytes + ((gather memory w.iovecs).drop w.bytes).length = w.total := by
  have hunfinished := h.unfinished
  rw [List.length_drop, ← h.total]
  omega

namespace Sound

variable {handed : Nat → Bytes} {s : Writing}

/-- The rest of a packet is sent, its buffers are freed, and the write is forgotten. -/
theorem finish
    (h : Sound handed s)
    {w : PendingWrite}
    (hw : w ∈ s.writes)
    {t : Writing}
    (hmemory : t.memory = s.memory.free (freed w.iovecs))
    (hsent : t.sent = give s.sent w.socket ((gather s.memory w.iovecs).drop w.bytes))
    (hwrites : ∀ x ∈ t.writes, x ∈ s.writes ∧ x.socket ≠ w.socket)
    (hsockets : t.writes.map PendingWrite.socket =
      (s.writes.map PendingWrite.socket).erase w.socket)
    (hpending : t.write_pending = s.write_pending.erase w.socket) :
    Sound handed t := by
  constructor
  · rw [hsockets]
    exact h.distinct.erase _
  · rw [hpending, hsockets, h.listed]
  · intro x hx
    obtain ⟨hxs, hne⟩ := hwrites x hx
    rw [hsent, hmemory, give, Function.update_of_ne hne]
    refine (h.holds x hxs).congr ?_
    intro iov hiov
    exact Memory.free_of_not_mem (h.apart w hw x hxs hne.symm iov hiov)
  · intro socket hsocket
    rw [hpending] at hsocket
    by_cases heq : socket = w.socket
    · subst heq
      rw [hsent, give, Function.update_self]
      exact (h.holds w hw).rest
    · rw [hsent, give, Function.update_of_ne heq]
      exact h.complete socket fun hmem => hsocket ((List.mem_erase_of_ne heq).mpr hmem)
  · intro x hx x' hx' hne
    exact h.apart x (hwrites x hx).1 x' (hwrites x' hx').1 hne

/-- A part of the rest is sent. -/
theorem advance
    (h : Sound handed s)
    {w : PendingWrite}
    (hw : w ∈ s.writes)
    {data : Bytes}
    (hbegins : data <+: (gather s.memory w.iovecs).drop w.bytes)
    (hpart : w.bytes + data.length < w.total)
    {t : Writing}
    (hmemory : t.memory = s.memory)
    (hsent : t.sent = give s.sent w.socket data)
    (hwrites : ∀ x ∈ t.writes, x = { w with bytes := w.bytes + data.length } ∨
      x ∈ s.writes ∧ x.socket ≠ w.socket)
    (hsockets : t.writes.map PendingWrite.socket = s.writes.map PendingWrite.socket)
    (hpending : t.write_pending = s.write_pending) :
    Sound handed t := by
  have hbuffers : ∀ x ∈ t.writes, ∃ y ∈ s.writes, y.socket = x.socket ∧ y.iovecs = x.iovecs := by
    intro x hx
    rcases hwrites x hx with rfl | ⟨hxs, _⟩
    · exact ⟨w, hw, rfl, rfl⟩
    · exact ⟨x, hxs, rfl, rfl⟩
  constructor
  · rw [hsockets]
    exact h.distinct
  · rw [hpending, hsockets, h.listed]
  · intro x hx
    rcases hwrites x hx with rfl | ⟨hxs, hne⟩
    · obtain ⟨hreadable, htotal, _, hrest⟩ := h.holds w hw
      obtain ⟨rest, hdata⟩ := hbegins
      rw [hmemory, hsent]
      refine ⟨hreadable, htotal, hpart, ?_⟩
      simp only [give, Function.update_self]
      rw [← List.drop_drop, ← hdata, List.drop_left, List.append_assoc, hdata]
      exact hrest
    · rw [hmemory, hsent, give, Function.update_of_ne hne]
      exact h.holds x hxs
  · intro socket hsocket
    rw [hpending] at hsocket
    have hne : socket ≠ w.socket := by
      rintro rfl
      rw [h.listed] at hsocket
      exact hsocket (List.mem_map_of_mem hw)
    rw [hsent, give, Function.update_of_ne hne]
    exact h.complete socket hsocket
  · intro x hx x' hx' hne
    obtain ⟨y, hy, hysocket, hyiovecs⟩ := hbuffers x hx
    obtain ⟨y', hy', hysocket', hyiovecs'⟩ := hbuffers x' hx'
    rw [Apart, ← hyiovecs, ← hyiovecs']
    exact h.apart y hy y' hy' (by rwa [hysocket, hysocket'])

/-- `Socket_continueWrite` and what follows it do to the socket what is said of `Outgoing`. -/
theorem continuePending
    (h : Sound handed s)
    {socket : Nat}
    (hpending : socket ∈ s.write_pending)
    {answer : WritevAnswer}
    (hanswer : answer ≠ .fails) :
    ∃ rc t, s.continuePending socket answer = some (rc, t) ∧ rc ≠ SOCKET_ERROR ∧
      Sound handed t ∧ t.outgoing = s.outgoing.proceed handed socket answer := by
  obtain ⟨w, hget, hw, rfl⟩ := h.getWrite_of_pending hpending
  have hholds := h.holds w hw
  have hunsent : s.outgoing.unsent handed w.socket = (gather s.memory w.iovecs).drop w.bytes :=
    hholds.unsent
  have hlength := hholds.unsent_length
  obtain ⟨rc, hrc, hwritev⟩ := s.writev_spec w.socket
    (Lib.resume IoBuf.iov_len IoBuf.skip w.bytes 0 w.iovecs) hanswer
  rw [gather_resume hholds.readable] at hwritev
  have hbegins := taken_prefix ((gather s.memory w.iovecs).drop w.bytes) answer
  have hle := hbegins.length_le
  simp only [Writing.continuePending, continueWrite, hget, hwritev, if_pos hrc]
  by_cases hall : w.bytes + (answer.taken ((gather s.memory w.iovecs).drop w.bytes)).length =
      w.total
  · have htaken := hbegins.eq_of_length (by omega)
    rw [if_pos hall]
    refine ⟨_, _, rfl, by decide, h.finish hw rfl ?_ ?_ ?_ rfl, ?_⟩
    · rw [htaken]
      rfl
    · intro x hx
      obtain ⟨hset, hne⟩ := mem_writeComplete
        (by rw [setWrite_sockets _ (by rfl)]; exact h.distinct) hx
      rcases mem_setWrite hset with rfl | hxs
      · exact absurd rfl hne
      · exact hxs
    · exact (writeComplete_sockets _ _).trans (by rw [setWrite_sockets _ (by rfl)])
    · rw [Outgoing.proceed, hunsent, if_pos htaken]
      rfl
  · have htaken : answer.taken ((gather s.memory w.iovecs).drop w.bytes) ≠
        (gather s.memory w.iovecs).drop w.bytes := by
      intro heq
      rw [heq] at hall
      exact hall hlength
    rw [if_neg hall]
    refine ⟨_, _, rfl, by decide, h.advance hw hbegins (by omega) rfl rfl ?_ ?_ rfl, ?_⟩
    · intro x hx
      exact mem_setWrite hx
    · exact setWrite_sockets _ rfl
    · rw [Outgoing.proceed, hunsent, if_neg htaken]
      rfl

end Sound

/-! ### All pending writes are continued -/

/-- The sockets are continued one after the other, those in `pwset`. -/
def Outgoing.continueAll (handed : Nat → Bytes) (pwset : Nat → Bool)
    (answers : Nat → WritevAnswer) : List Nat → Outgoing → Outgoing
  | [], o => o
  | socket :: rest, o =>
      continueAll handed pwset answers rest
        (if pwset socket then o.proceed handed socket (answers socket) else o)

theorem Outgoing.proceed_pending
    (handed : Nat → Bytes) (o : Outgoing) {socket other : Nat} (answer : WritevAnswer)
    (hne : other ≠ socket)
    (h : other ∈ o.pending) :
    other ∈ (o.proceed handed socket answer).pending := by
  rw [Outgoing.proceed]
  dsimp only
  split
  · exact (List.mem_erase_of_ne hne).mpr h
  · exact h

theorem Sound.continueLoop
    {handed : Nat → Bytes} {pwset : Nat → Bool} {answers : Nat → WritevAnswer}
    (hanswers : ∀ socket, answers socket ≠ .fails)
    {sockets : List Nat}
    (hnodup : sockets.Nodup)
    {s : Writing}
    (h : Sound handed s)
    (hpending : ∀ socket ∈ sockets, socket ∈ s.write_pending)
    (res : Int × Option Nat) :
    ∃ t, Writing.continueLoop pwset answers sockets res s = some (res, t) ∧ Sound handed t ∧
      t.outgoing = Outgoing.continueAll handed pwset answers sockets s.outgoing := by
  induction sockets generalizing s with
  | nil =>
      exact ⟨s, rfl, h, rfl⟩
  | cons socket rest ih =>
      obtain ⟨hfresh, hrest⟩ := List.nodup_cons.mp hnodup
      obtain ⟨hsocket, hothers⟩ := List.forall_mem_cons.mp hpending
      by_cases hset : pwset socket = true
      · obtain ⟨rc, u, hu, hrc, hsound, hout⟩ := h.continuePending hsocket (hanswers socket)
        have hstill : ∀ other ∈ rest, other ∈ u.write_pending := by
          intro other hother
          have hne : other ≠ socket := by
            rintro rfl
            exact hfresh hother
          have hkept := Outgoing.proceed_pending handed s.outgoing (answers socket) hne
            (hothers other hother)
          rwa [← hout] at hkept
        obtain ⟨t, ht, hend, houtgoing⟩ := ih hrest hsound hstill
        refine ⟨t, ?_, hend, ?_⟩
        · simp only [Writing.continueLoop, if_pos hset, hu, if_neg hrc]
          exact ht
        · rw [houtgoing, hout, Outgoing.continueAll, if_pos hset]
      · obtain ⟨t, ht, hend, houtgoing⟩ := ih hrest h hothers
        refine ⟨t, ?_, hend, ?_⟩
        · rw [Writing.continueLoop, if_neg hset]
          exact ht
        · rw [houtgoing, Outgoing.continueAll, if_neg hset]

theorem Sound.continueWrites
    {handed : Nat → Bytes} {s : Writing}
    (h : Sound handed s)
    (pwset : Nat → Bool)
    {answers : Nat → WritevAnswer}
    (hanswers : ∀ socket, answers socket ≠ .fails) :
    ∃ t, s.continueWrites pwset answers = some ((0, none), t) ∧ Sound handed t ∧
      t.outgoing =
        Outgoing.continueAll handed pwset answers s.outgoing.pending s.outgoing := by
  refine h.continueLoop hanswers ?_ (fun _ hsocket => hsocket) (0, none)
  rw [h.listed]
  exact h.distinct

/-! ### Buffers are replaced -/

/-- The block holds what is read through the `iobuf`, and no write frees it. -/
structure Copy (s : Writing) (iov : IoBuf) (block : Nat) : Prop where
  readable : ({ iov with iov_base := block, offset := 0 } : IoBuf).Readable s.memory
  same : ({ iov with iov_base := block, offset := 0 } : IoBuf).data s.memory = iov.data s.memory
  unfreed : iov.frees = false
  kept : ∀ w ∈ s.writes, block ∉ freed w.iovecs

/-- What the caller of `SocketBuffer_updateWrite` gives for the buffers that are replaced. -/
def Repoints (s : Writing) (socket topic payload : Nat) : Prop :=
  ∀ pw header topiclen iov₂ iov₃, s.getWrite socket = some pw →
    pw.iovecs = [header, topiclen, iov₂, iov₃] → s.Copy iov₂ topic ∧ s.Copy iov₃ payload

theorem updateWrite_outgoing
    (s : Writing) (socket topic payload : Nat) :
    (s.updateWrite socket topic payload).outgoing = s.outgoing := by
  unfold updateWrite
  split
  · rfl
  · split <;> rfl

theorem Sound.updateWrite
    {handed : Nat → Bytes} {s : Writing}
    (h : Sound handed s)
    {socket topic payload : Nat}
    (hcopies : s.Repoints socket topic payload) :
    Sound handed (s.updateWrite socket topic payload) := by
  unfold Writing.updateWrite
  cases hget : s.getWrite socket with
  | none => exact h
  | some pw =>
      obtain ⟨hpw, rfl⟩ := mem_of_getWrite hget
      dsimp only
      split
      · rename_i header topiclen iov₂ iov₃ hiovecs
        obtain ⟨htopic, hpayload⟩ := hcopies pw header topiclen iov₂ iov₃ hget hiovecs
        obtain ⟨hreadable, htotal, hunfinished, hrest⟩ := h.holds pw hpw
        have hgather : gather s.memory
            [header, topiclen, { iov₂ with iov_base := topic, offset := 0 },
              { iov₃ with iov_base := payload, offset := 0 }] = gather s.memory pw.iovecs := by
          simp only [gather, List.flatMap_cons, List.flatMap_nil, hiovecs, htopic.same,
            hpayload.same]
        have hfreed : freed [header, topiclen, { iov₂ with iov_base := topic, offset := 0 },
            { iov₃ with iov_base := payload, offset := 0 }] = freed pw.iovecs := by
          simp only [freed, hiovecs, List.filter_cons, htopic.unfreed, hpayload.unfreed,
            List.filter_nil, Bool.false_eq_true, if_false]
        have hsockets : ((s.setWrite pw.socket
              { pw with iovecs := [header, topiclen,
                { iov₂ with iov_base := topic, offset := 0 },
                { iov₃ with iov_base := payload, offset := 0 }] }).writes.map
                  PendingWrite.socket) = s.writes.map PendingWrite.socket :=
          setWrite_sockets s rfl
        rw [hiovecs] at hreadable
        simp only [List.forall_mem_cons] at hreadable
        constructor
        · rw [hsockets]
          exact h.distinct
        · rw [hsockets]
          exact h.listed
        · intro w hw
          rcases mem_setWrite hw with rfl | ⟨hws, _⟩
          · refine ⟨?_, ?_, hunfinished, ?_⟩
            · simp only [List.forall_mem_cons]
              exact ⟨hreadable.1, hreadable.2.1, htopic.readable, hpayload.readable,
                hreadable.2.2.2.2⟩
            · exact htotal.trans (congrArg List.length hgather.symm)
            · exact hrest.trans (by rw [← hgather]; rfl)
          · exact h.holds w hws
        · exact h.complete
        · intro w hw w' hw' hne
          rcases mem_setWrite hw with rfl | ⟨hws, hsocket⟩ <;>
            rcases mem_setWrite hw' with rfl | ⟨hws', hsocket'⟩
          · exact absurd rfl hne
          · intro iov hiov
            rw [hfreed]
            exact h.apart pw hpw w' hws' (fun heq => hsocket' heq.symm) iov hiov
          · have hold := h.apart w hws pw hpw hsocket
            rw [Apart, hiovecs] at hold
            simp only [List.forall_mem_cons] at hold
            simp only [Apart, List.forall_mem_cons]
            exact ⟨hold.1, hold.2.1, htopic.kept w hws, hpayload.kept w hws, hold.2.2.2.2⟩
          · exact h.apart w hws w' hws' hne
      · exact h

/-! ### Runs -/

inductive WriteEvent where
  | putdatas (socket : Nat) (buf0 : IoBuf) (bufs : List IoBuf) (answer : WritevAnswer)
  | continueWrites (pwset : Nat → Bool) (answers : Nat → WritevAnswer)
  | updateWrite (socket topic payload : Nat)
  /-- Memory is allocated, freed or written by the rest of the program. -/
  | memory (memory : Memory)

/-- The steps, as their callers make them; no call of `writev` fails. -/
inductive Step : Writing → WriteEvent → Writing → Prop
  | putdatas {s : Writing} {socket : Nat} {buf0 : IoBuf} {bufs : List IoBuf}
      {answer : WritevAnswer}
      (hno : s.noPendingWrites socket = true)
      (hpacket : s.Handed (packetBuffers buf0 bufs))
      (hanswer : answer ≠ .fails) :
      Step s (.putdatas socket buf0 bufs answer) (s.putdatas socket buf0 bufs answer).2
  | continueWrites {s t : Writing} {pwset : Nat → Bool} {answers : Nat → WritevAnswer}
      {res : Int × Option Nat}
      (hanswers : ∀ socket, answers socket ≠ .fails)
      (hres : s.continueWrites pwset answers = some (res, t)) :
      Step s (.continueWrites pwset answers) t
  | updateWrite {s : Writing} {socket topic payload : Nat}
      (hcopies : s.Repoints socket topic payload) :
      Step s (.updateWrite socket topic payload) (s.updateWrite socket topic payload)
  | memory {s : Writing} {memory : Memory}
      (hkept : ∀ w ∈ s.writes, ∀ iov ∈ w.iovecs, memory iov.iov_base = s.memory iov.iov_base) :
      Step s (.memory memory) { s with memory := memory }

/-- The packet that a transition hands over for a socket. -/
def handedBy (socket : Nat) (x : Lib.Transition Writing WriteEvent) : Bytes :=
  match x.event with
  | .putdatas sock buf0 bufs _ =>
      if sock = socket then gather x.pre.memory (packetBuffers buf0 bufs) else []
  | _ => []

/-- The buffers of all packets handed over for a socket, one after the other. -/
def handed (tr : List (Lib.Transition Writing WriteEvent)) (socket : Nat) : Bytes :=
  tr.flatMap (handedBy socket)

theorem handed_concat
    (tr : List (Lib.Transition Writing WriteEvent)) (x : Lib.Transition Writing WriteEvent) :
    handed (tr ++ [x]) = fun socket => handed tr socket ++ handedBy socket x := by
  funext socket
  rw [handed, List.flatMap_append, List.flatMap_singleton, handed]

theorem sound_initial
    (memory : Memory) :
    Sound (handed []) (initial memory) :=
  ⟨List.nodup_nil, rfl, fun _ hw => absurd hw List.not_mem_nil, fun _ _ => rfl,
    fun _ hw => absurd hw List.not_mem_nil⟩

theorem Sound.memory
    {handed : Nat → Bytes} {s : Writing}
    (h : Sound handed s)
    {memory : Memory}
    (hkept : ∀ w ∈ s.writes, ∀ iov ∈ w.iovecs, memory iov.iov_base = s.memory iov.iov_base) :
    Sound handed { s with memory := memory } :=
  ⟨h.distinct, h.listed, fun w hw => (h.holds w hw).congr (hkept w hw), h.complete, h.apart⟩

theorem Sound.step
    {tr : List (Lib.Transition Writing WriteEvent)} {s t : Writing} {e : WriteEvent}
    (h : Sound (handed tr) s)
    (hstep : Step s e t) :
    Sound (handed (tr ++ [⟨s, e, t⟩])) t := by
  have hnothing : (∀ socket, handedBy socket ⟨s, e, t⟩ = []) →
      handed (tr ++ [⟨s, e, t⟩]) = handed tr := by
    intro hnone
    rw [handed_concat]
    funext socket
    rw [hnone, List.append_nil]
  cases hstep with
  | @putdatas socket buf0 bufs answer hno hpacket hanswer =>
      have hgive : handed (tr ++ [⟨s, .putdatas socket buf0 bufs answer,
            (s.putdatas socket buf0 bufs answer).2⟩]) =
          give (handed tr) socket (gather s.memory (packetBuffers buf0 bufs)) := by
        rw [handed_concat]
        funext sock
        by_cases heq : sock = socket
        · subst heq
          simp only [give, Function.update_self, handedBy, if_true]
        · simp only [give, Function.update_of_ne heq, handedBy, if_neg (Ne.symm heq),
            List.append_nil]
      rw [hgive]
      exact putdatas_sound h hno hpacket hanswer
  | continueWrites hanswers hres =>
      rw [hnothing fun _ => rfl]
      obtain ⟨u, hu, hsound, _⟩ := h.continueWrites _ hanswers
      cases hu.symm.trans hres
      exact hsound
  | updateWrite hcopies =>
      rw [hnothing fun _ => rfl]
      exact h.updateWrite hcopies
  | memory hkept =>
      rw [hnothing fun _ => rfl]
      exact h.memory hkept

/-- Replacing buffers by copies changes nothing in what the next writes do. -/
theorem Sound.same_after_updateWrite
    {handed : Nat → Bytes} {s : Writing}
    (h : Sound handed s)
    {socket topic payload : Nat}
    (hcopies : s.Repoints socket topic payload)
    (pwset : Nat → Bool)
    {answers : Nat → WritevAnswer}
    (hanswers : ∀ socket, answers socket ≠ .fails) :
    ((s.updateWrite socket topic payload).continueWrites pwset answers).map
        (fun res => (res.1, res.2.outgoing)) =
      (s.continueWrites pwset answers).map (fun res => (res.1, res.2.outgoing)) := by
  obtain ⟨t, ht, _, hout⟩ := h.continueWrites pwset hanswers
  obtain ⟨t', ht', _, hout'⟩ := (h.updateWrite hcopies).continueWrites pwset hanswers
  rw [updateWrite_outgoing] at hout'
  rw [ht, ht', Option.map_some, Option.map_some, hout, hout']

instance (memory : Memory) (iov : IoBuf) : Decidable (iov.Readable memory) :=
  decidable_of_iff (∃ block ∈ memory iov.iov_base, iov.offset + iov.iov_len ≤ block.length)
    Iff.rfl

instance (s : Writing) (iovecs : List IoBuf) : Decidable (s.Handed iovecs) :=
  decidable_of_iff
    ((∀ iov ∈ iovecs, iov.Readable s.memory) ∧
      (∀ w ∈ s.writes, ∀ iov ∈ iovecs, iov.iov_base ∉ freed w.iovecs) ∧
      ∀ w ∈ s.writes, ∀ iov ∈ w.iovecs, iov.iov_base ∉ freed iovecs)
    ⟨fun h => ⟨h.1, h.2.1, h.2.2⟩, fun h => ⟨h.1, h.2, h.3⟩⟩

/-- A PUBLISH with QoS 0, and copies of its topic and payload in the blocks 5 and 6. -/
def publishMemory : Memory
  | 1 => some [0x30, 5]
  | 2 => some [0, 1]
  | 3 => some [97]
  | 4 => some [1, 2]
  | 5 => some [97]
  | 6 => some [1, 2, 0]
  | _ => none

def publishBuffers : List IoBuf := [⟨2, 0, 2, true⟩, ⟨3, 0, 1, false⟩, ⟨4, 0, 2, false⟩]

/-- The write stops inside the length of the topic, and its buffers are replaced. -/
def repointed : Writing :=
  ((initial publishMemory).putdatas 7 ⟨1, 0, 2, false⟩ publishBuffers (.accepts 3)).2.updateWrite
    7 5 6

end Writing
end PahoMqtt
