import PahoMqtt.Net

/-!
# Socket buffers

What is read of a packet before its end is kept in a `socket_queue`: the header
with the bytes of the remaining length, and the data behind it.  A packet is
read into the default queue, which is moved to the list of queues when the read
is interrupted, and a new default queue takes its place.

`ListFindItem` looks for the queue of a socket; no two queues in the list are of
one socket.  The contents of memory that was not written are taken as 0.
-/

namespace PahoMqtt

/-- `socket_queue`; 0 stands for no socket. -/
structure SocketQueue where
  socket : Nat
  index : Nat
  headerlen : Nat
  /-- header plus up to 4 length bytes -/
  fixed_header : Vector UInt8 5
  /-- total length of the buffer -/
  buflen : Nat
  /-- current length of data in buf -/
  datalen : Nat
  buf : Bytes

/-- The static variables of the module, those for writes apart. -/
structure SocketBuffer where
  def_queue : SocketQueue
  queues : List SocketQueue

namespace SocketBuffer

def malloc (size : Nat) : Bytes := List.replicate size 0

def realloc (buf : Bytes) (size : Nat) : Bytes :=
  buf.take size ++ malloc (size - buf.length)

/-- Bytes are written to a buffer at an offset. -/
def overwrite (buf : Bytes) (offset : Nat) (data : Bytes) : Bytes :=
  buf.take offset ++ data ++ buf.drop (offset + data.length)

/-- `SocketBuffer_newDefQ`; `buflen` is 0 at first, whatever was allocated. -/
def newDefQ : SocketQueue where
  socket := 0
  index := 0
  headerlen := 0
  fixed_header := Vector.replicate 5 0
  buflen := 0
  datalen := 0
  buf := malloc 1000

/-- `SocketBuffer_initialize` -/
def initialize_buffers : SocketBuffer := ⟨newDefQ, []⟩

/-- `ListFindItem` with `socketcompare` -/
def find (buffers : SocketBuffer) (socket : Nat) : Option SocketQueue :=
  buffers.queues.find? fun queue => queue.socket = socket

/-- The fields of the queue of a socket are written. -/
def write (buffers : SocketBuffer) (socket : Nat) (queue : SocketQueue) : SocketBuffer :=
  { buffers with
    queues := buffers.queues.map fun q => if q.socket = socket then { queue with socket } else q }

/-- The queue of a socket is taken off the list. -/
def detach (buffers : SocketBuffer) (socket : Nat) : SocketBuffer :=
  { buffers with queues := buffers.queues.eraseP fun queue => queue.socket = socket }

/-- A queue that nothing is read into. -/
def reset (queue : SocketQueue) : SocketQueue :=
  { queue with socket := 0, index := 0, headerlen := 0, datalen := 0 }

/-- `SocketBuffer_cleanup` -/
def cleanup (buffers : SocketBuffer) (socket : Nat) : SocketBuffer :=
  let buffers := buffers.detach socket
  if buffers.def_queue.socket = socket then { buffers with def_queue := reset buffers.def_queue }
  else buffers

/-- The queue is grown for `bytes` bytes; the data is copied from the new memory, not from the old. -/
def grow (queue : SocketQueue) (bytes : Nat) : SocketQueue :=
  if bytes > queue.buflen then
    { queue with
      buf := if queue.datalen > 0 then malloc bytes else realloc queue.buf bytes
      buflen := bytes }
  else queue

/-- `SocketBuffer_getQueuedData`: the buffer, and its `actual_len`. -/
def getQueuedData (buffers : SocketBuffer) (socket bytes : Nat) :
    (Bytes × Nat) × SocketBuffer :=
  match buffers.find socket with
  | some queue =>
      let grown := grow queue bytes
      ((grown.buf, queue.datalen), buffers.write socket grown)
  | none =>
      let grown := grow buffers.def_queue bytes
      ((grown.buf, 0), { buffers with def_queue := grown })

/-- `SocketBuffer_getQueuedChar` -/
def getQueuedChar (buffers : SocketBuffer) (socket : Nat) : (Int × UInt8) × SocketBuffer :=
  match buffers.find socket with
  | some queue =>
      if queue.index < queue.headerlen then
        ((TCPSOCKET_COMPLETE, queue.fixed_header[queue.index]?.getD 0),
          buffers.write socket { queue with index := queue.index + 1 })
      else if queue.index > 4 then ((SOCKET_ERROR, 0), buffers)
      else ((TCPSOCKET_INTERRUPTED, 0), buffers)
  | none => ((TCPSOCKET_INTERRUPTED, 0), buffers)

/-- `SocketBuffer_interrupted` -/
def interrupted (buffers : SocketBuffer) (socket actual_len : Nat) : SocketBuffer :=
  match buffers.find socket with
  | some queue => buffers.write socket { queue with index := 0, datalen := actual_len }
  | none =>
      { def_queue := newDefQ
        queues := buffers.queues ++
          [{ buffers.def_queue with socket, index := 0, datalen := actual_len }] }

/-- `SocketBuffer_complete` -/
def complete (buffers : SocketBuffer) (socket : Nat) : SocketBuffer :=
  match buffers.find socket with
  | some queue => { buffers.detach socket with def_queue := reset queue }
  | none => { buffers with def_queue := reset buffers.def_queue }

/-- A byte goes into the fixed header of a queue, unless the field is full. -/
def push (queue : SocketQueue) (c : UInt8) : SocketQueue :=
  if h : queue.index < 5 then
    { queue with
      fixed_header := queue.fixed_header.set queue.index c
      index := queue.index + 1
      headerlen := queue.index + 1 }
  else queue

/-- `SocketBuffer_queueChar` -/
def queueChar (buffers : SocketBuffer) (socket : Nat) (c : UInt8) : SocketBuffer :=
  match buffers.find socket with
  | some queue => buffers.write socket (push queue c)
  | none =>
      if buffers.def_queue.socket = 0 then
        { buffers with
          def_queue := push { buffers.def_queue with socket, index := 0, datalen := 0 } c }
      else if buffers.def_queue.socket = socket then
        { buffers with def_queue := push buffers.def_queue c }
      else buffers

/-! ### Finding a queue -/

/-- No two queues of the list are of one socket. -/
def Distinct (buffers : SocketBuffer) : Prop :=
  (buffers.queues.map SocketQueue.socket).Nodup

theorem find_socket
    {buffers : SocketBuffer} {socket : Nat} {queue : SocketQueue}
    (h : buffers.find socket = some queue) :
    queue.socket = socket :=
  of_decide_eq_true (List.find?_some (p := fun q : SocketQueue => decide (q.socket = socket)) h)

theorem find_write
    {buffers : SocketBuffer} {socket : Nat} {old queue : SocketQueue}
    (h : buffers.find socket = some old) :
    (buffers.write socket queue).find socket = some { queue with socket } := by
  obtain ⟨def_queue, queues⟩ := buffers
  simp only [find, write] at *
  induction queues with
  | nil =>
      cases h
  | cons q qs ih =>
      by_cases hq : q.socket = socket
      · rw [List.map_cons, if_pos hq]
        exact List.find?_cons_of_pos (decide_eq_true rfl)
      · rw [List.find?_cons_of_neg (by simpa using hq)] at h
        rw [List.map_cons, if_neg hq, List.find?_cons_of_neg (by simpa using hq)]
        exact ih h

theorem find_write_ne
    {buffers : SocketBuffer} {socket other : Nat} {queue : SocketQueue}
    (hne : other ≠ socket) :
    (buffers.write socket queue).find other = buffers.find other := by
  obtain ⟨def_queue, queues⟩ := buffers
  simp only [find, write]
  induction queues with
  | nil =>
      rfl
  | cons q qs ih =>
      rw [List.map_cons]
      by_cases hq : q.socket = socket
      · have hother : ¬q.socket = other := fun h => hne (h.symm.trans hq)
        rw [if_pos hq, List.find?_cons_of_neg (by simpa using hne.symm),
          List.find?_cons_of_neg (by simpa using hother)]
        exact ih
      · rw [if_neg hq, List.find?_cons, List.find?_cons, ih]

theorem distinct_write
    {buffers : SocketBuffer} {socket : Nat} {queue : SocketQueue}
    (h : buffers.Distinct) :
    (buffers.write socket queue).Distinct := by
  have hsockets : ((buffers.write socket queue).queues.map SocketQueue.socket) =
      buffers.queues.map SocketQueue.socket := by
    rw [write, List.map_map]
    apply List.map_congr_left
    intro q _
    rw [Function.comp_apply]
    split
    · rename_i hq
      exact hq.symm
    · rfl
  rw [Distinct, hsockets]
  exact h

theorem find_detach
    {buffers : SocketBuffer} {socket : Nat}
    (h : buffers.Distinct) :
    (buffers.detach socket).find socket = none := by
  obtain ⟨def_queue, queues⟩ := buffers
  simp only [find, detach, Distinct] at *
  induction queues with
  | nil =>
      rfl
  | cons q qs ih =>
      obtain ⟨hfresh, hqs⟩ := List.nodup_cons.mp h
      by_cases hq : q.socket = socket
      · rw [List.eraseP_cons_of_pos (by simpa using hq), List.find?_eq_none]
        intro p hp hsocket
        rw [decide_eq_true_eq] at hsocket
        exact hfresh (List.mem_map.mpr ⟨p, hp, hsocket.trans hq.symm⟩)
      · rw [List.eraseP_cons_of_neg (by simpa using hq),
          List.find?_cons_of_neg (by simpa using hq)]
        exact ih hqs

theorem find_detach_ne
    {buffers : SocketBuffer} {socket other : Nat}
    (hne : other ≠ socket) :
    (buffers.detach socket).find other = buffers.find other := by
  obtain ⟨def_queue, queues⟩ := buffers
  simp only [find, detach]
  induction queues with
  | nil =>
      rfl
  | cons q qs ih =>
      by_cases hq : q.socket = socket
      · have hother : ¬q.socket = other := fun h => hne (h.symm.trans hq)
        rw [List.eraseP_cons_of_pos (by simpa using hq),
          List.find?_cons_of_neg (by simpa using hother)]
      · rw [List.eraseP_cons_of_neg (by simpa using hq), List.find?_cons, List.find?_cons, ih]

theorem distinct_detach
    {buffers : SocketBuffer} {socket : Nat}
    (h : buffers.Distinct) :
    (buffers.detach socket).Distinct :=
  h.sublist (List.eraseP_sublist.map SocketQueue.socket)

/-- A queue is put at the end of the list. -/
theorem find_append
    {buffers : SocketBuffer} {queue def_queue : SocketQueue}
    (h : buffers.find queue.socket = none) :
    (⟨def_queue, buffers.queues ++ [queue]⟩ : SocketBuffer).find queue.socket = some queue := by
  unfold find at *
  rw [List.find?_append, h]
  simp

theorem find_append_ne
    {buffers : SocketBuffer} {queue def_queue : SocketQueue} {other : Nat}
    (hne : other ≠ queue.socket) :
    (⟨def_queue, buffers.queues ++ [queue]⟩ : SocketBuffer).find other = buffers.find other := by
  unfold find
  rw [List.find?_append]
  simp [hne.symm]

theorem distinct_append
    {buffers : SocketBuffer} {queue def_queue : SocketQueue}
    (h : buffers.Distinct)
    (hnone : buffers.find queue.socket = none) :
    (⟨def_queue, buffers.queues ++ [queue]⟩ : SocketBuffer).Distinct := by
  unfold Distinct at *
  rw [List.map_append, List.map_singleton]
  refine List.nodup_append.mpr ⟨h, List.nodup_singleton _, ?_⟩
  intro socket hsocket other hother heq
  obtain ⟨q, hq, rfl⟩ := List.mem_map.mp hsocket
  rw [List.mem_singleton] at hother
  have hmissing := List.find?_eq_none.mp hnone q hq
  exact hmissing (decide_eq_true (heq.trans hother))

/-! ### What is left of the other sockets -/

/-- The queues of all other sockets are as they were. -/
structure Others (socket : Nat) (buffers buffers' : SocketBuffer) : Prop where
  distinct : buffers.Distinct → buffers'.Distinct
  find : ∀ other, other ≠ socket → buffers'.find other = buffers.find other

theorem Others.refl
    (socket : Nat) (buffers : SocketBuffer) :
    Others socket buffers buffers :=
  ⟨id, fun _ _ => rfl⟩

theorem Others.trans
    {socket : Nat} {a b c : SocketBuffer}
    (hab : Others socket a b)
    (hbc : Others socket b c) :
    Others socket a c :=
  ⟨fun h => hbc.distinct (hab.distinct h),
    fun other hne => (hbc.find other hne).trans (hab.find other hne)⟩

theorem others_write
    (buffers : SocketBuffer) (socket : Nat) (queue : SocketQueue) :
    Others socket buffers (buffers.write socket queue) :=
  ⟨distinct_write, fun _ hne => find_write_ne hne⟩

theorem others_detach
    (buffers : SocketBuffer) (socket : Nat) :
    Others socket buffers (buffers.detach socket) :=
  ⟨distinct_detach, fun _ hne => find_detach_ne hne⟩

/-- The default queue is not in the list. -/
theorem others_default
    (buffers : SocketBuffer) (socket : Nat) (def_queue : SocketQueue) :
    Others socket buffers { buffers with def_queue } :=
  ⟨id, fun _ _ => rfl⟩

theorem others_append
    {buffers : SocketBuffer} {socket : Nat}
    (hnone : buffers.find socket = none)
    {queue : SocketQueue}
    (hsocket : queue.socket = socket)
    (def_queue : SocketQueue) :
    Others socket buffers ⟨def_queue, buffers.queues ++ [queue]⟩ := by
  subst hsocket
  exact ⟨fun h => distinct_append h hnone, fun _ hne => find_append_ne hne⟩

end SocketBuffer
end PahoMqtt
