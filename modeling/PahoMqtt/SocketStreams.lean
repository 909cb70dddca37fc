import PahoMqtt.Reassembly
import PahoMqtt.Lib.Framing
import PahoMqtt.Lib.Runs

/-!
# The streams of all sockets

A server sends packets on each socket, and `MQTTAsync_cycle` calls the factory
for one socket after the other, as they get ready.  Whatever the calls of `recv`
take, and in whatever order the sockets are read, the factory completes on each
of them the packets that were sent, and every byte it has received belongs to
one of these or to the beginning of the next.
-/

namespace PahoMqtt

open Lib MQTTPacket

/-- A socket that is open: what the server sends on it, and the packets completed. -/
structure Stream where
  frames : List Frame
  unread : Bytes
  completed : List Completed

/-- The buffers, and the sockets that are open. -/
structure ReceiveState where
  buffers : SocketBuffer
  streams : Nat → Option Stream

inductive ReceiveEvent where
  /-- A connection is made, and `frames` is what the server sends on it. -/
  | connect (socket : Nat) (frames : List Frame)
  /-- A socket is ready; each call of `recv` takes one of the pieces. -/
  | cycle (sock : Nat) (MQTTVersion : Nat) (pieces : List Nat)
  /-- `Socket_close` -/
  | close (socket : Nat)

namespace ReceiveState

/-- What there is of a socket is replaced. -/
def setStream (streams : Nat → Option Stream) (socket : Nat) (stream : Option Stream) :
    Nat → Option Stream :=
  fun other => if other = socket then stream else streams other

/-- The call of the factory for a socket that is open. -/
def callFactory (s : ReceiveState) (sock MQTTVersion : Nat) (pieces : List Nat) (stream : Stream) :
    ReceiveState :=
  let ((_, completed), r) :=
    readPacket MQTTVersion ⟨s.buffers, ⟨stream.unread, pieces⟩⟩ sock
  { buffers := r.buffers
    streams := setStream s.streams sock (some { stream with
      unread := r.incoming.unread, completed := stream.completed ++ completed.toList }) }

/-- `MQTTAsync_cycle`, up to the packet; 0 says that no socket is ready. -/
def cycle (s : ReceiveState) (sock MQTTVersion : Nat) (pieces : List Nat) : ReceiveState :=
  if sock > 0 then
    match s.streams sock with
    | some stream => s.callFactory sock MQTTVersion pieces stream
    | none => s
  else s

def next (s : ReceiveState) : ReceiveEvent → ReceiveState
  | .connect socket frames =>
      { s with streams := setStream s.streams socket (some ⟨frames, frames.flatMap Frame.bytes, []⟩) }
  | .cycle sock MQTTVersion pieces => s.cycle sock MQTTVersion pieces
  | .close socket =>
      { buffers := s.buffers.cleanup socket, streams := setStream s.streams socket none }

/-- The number of a socket that is open is not given to another one. -/
def Admissible (s : ReceiveState) : ReceiveEvent → Prop
  | .connect socket _ => (s.streams socket).isNone = true
  | _ => True

def Step (s : ReceiveState) (e : ReceiveEvent) (t : ReceiveState) : Prop :=
  s.Admissible e ∧ t = s.next e

/-- The socket modules are initialized, and no connection is made. -/
def fresh : ReceiveState where
  buffers := SocketBuffer.initialize_buffers
  streams := fun _ => none

/-! ### What the factory has to do -/

/-- The factory has completed the packet of a frame. -/
structure Completes (f : Frame) (c : Completed) : Prop where
  byte : c.byte = f.byte
  data : c.data = f.body
  passed_to : c.passed_to = constructorOf c.MQTTVersion f.byte

/--
The packets completed are those of the first frames, in their order.  The bytes
received are these frames and the beginning of the next one, in which no packet
is complete; once all bytes are received, all packets are completed.
-/
structure Reassembled (stream : Stream) : Prop where
  in_order : ∃ done left received, stream.frames = done ++ left ∧
    List.Forall₂ Completes done stream.completed ∧
    stream.frames.flatMap Frame.bytes =
      done.flatMap Frame.bytes ++ received ++ stream.unread ∧
    ∀ f rest, left = f :: rest → received.length < f.bytes.length
  finished : stream.unread = [] → List.Forall₂ Completes stream.frames stream.completed

/-- A call of the factory whose `recv` has something to give takes some of it. -/
def TakesInput (x : Transition ReceiveState ReceiveEvent) : Prop :=
  ∀ sock MQTTVersion piece pieces stream,
    x.event = .cycle sock MQTTVersion (piece :: pieces) → sock > 0 → piece ≠ 0 →
    x.pre.streams sock = some stream → stream.unread ≠ [] →
    ∃ stream', x.post.streams sock = some stream' ∧
      stream'.unread.length < stream.unread.length

/-! ### The invariant -/

/-- The header of the packet that is next. -/
def headerOf : List Frame → Bytes
  | [] => []
  | f :: _ => f.header

/-- The body of the packet that is next. -/
def bodyOf : List Frame → Bytes
  | [] => []
  | f :: _ => f.body

/-- The queue of a socket holds what was received of the next packet. -/
inductive Receives (buffers : SocketBuffer) (socket : Nat) (stream : Stream) : Prop
  | intro
      (done left : List Frame)
      (n : Nat)
      (frames : stream.frames = done ++ left)
      (completed : List.Forall₂ Completes done stream.completed)
      (progress : Progress Frame.bytes left n stream.unread)
      (parked : buffers.Parked socket (headerOf left) (bodyOf left) n) :
      Receives buffers socket stream

structure Sound (s : ReceiveState) : Prop where
  idle : s.buffers.def_queue.Idle
  distinct : s.buffers.Distinct
  absent : ∀ socket, s.streams socket = none → s.buffers.find socket = none
  receives : ∀ socket stream, s.streams socket = some stream → Receives s.buffers socket stream

theorem Receives.reassembled
    {buffers : SocketBuffer} {socket : Nat} {stream : Stream}
    (h : Receives buffers socket stream) :
    Reassembled stream := by
  obtain ⟨done, left, n, frames, completed, progress, _⟩ := h
  refine ⟨⟨done, left, (left.flatMap Frame.bytes).take n, frames, completed, ?_, ?_⟩, ?_⟩
  · rw [frames]
    exact progress.received done
  · intro f rest hleft
    have hshort := progress.short f rest hleft
    rw [List.length_take]
    omega
  · intro hall
    rw [hall] at progress
    have hnone := progress.finished
    rw [frames, hnone, List.append_nil]
    exact completed

/-- A step for another socket leaves the queue alone. -/
theorem Receives.other
    {buffers buffers' : SocketBuffer} {socket : Nat} {stream : Stream}
    (h : Receives buffers socket stream)
    (hidle : buffers'.def_queue.Idle)
    (hfind : buffers'.find socket = buffers.find socket) :
    Receives buffers' socket stream := by
  obtain ⟨done, left, n, frames, completed, progress, parked⟩ := h
  refine Receives.intro done left n frames completed progress ⟨hidle, ?_⟩
  rw [hfind]
  exact parked.queue

/-- Nothing was received on a socket that was just opened. -/
theorem receives_start
    {buffers : SocketBuffer} {socket : Nat}
    (hidle : buffers.def_queue.Idle)
    (habsent : buffers.find socket = none)
    (frames : List Frame) :
    Receives buffers socket ⟨frames, frames.flatMap Frame.bytes, []⟩ :=
  Receives.intro [] frames 0 rfl List.Forall₂.nil
    (Progress.start Frame.bytes_ne_nil frames) ⟨hidle, Or.inl ⟨habsent, rfl⟩⟩

theorem sound_fresh :
    Sound fresh := by
  refine ⟨SocketQueue.idle_newDefQ, List.nodup_nil, fun _ _ => rfl, ?_⟩
  intro socket stream h
  cases h

/-! ### One call of the factory -/

variable {s : ReceiveState} {sock MQTTVersion : Nat} {pieces : List Nat} {stream : Stream}

/-- What a call of the factory does to the socket it is called for. -/
structure CallReceives (s : ReceiveState) (sock MQTTVersion : Nat) (pieces : List Nat)
    (stream : Stream) : Prop where
  others : SocketBuffer.Others sock s.buffers
    (readPacket MQTTVersion ⟨s.buffers, ⟨stream.unread, pieces⟩⟩ sock).2.buffers
  idle : (readPacket MQTTVersion ⟨s.buffers, ⟨stream.unread, pieces⟩⟩ sock).2.buffers.def_queue.Idle
  receives : Receives
    (readPacket MQTTVersion ⟨s.buffers, ⟨stream.unread, pieces⟩⟩ sock).2.buffers sock
    { stream with
      unread :=
        (readPacket MQTTVersion ⟨s.buffers, ⟨stream.unread, pieces⟩⟩ sock).2.incoming.unread
      completed := stream.completed ++
        (readPacket MQTTVersion ⟨s.buffers, ⟨stream.unread, pieces⟩⟩ sock).1.2.toList }
  takes : (⟨stream.unread, pieces⟩ : Incoming).Ready →
    (readPacket MQTTVersion ⟨s.buffers, ⟨stream.unread, pieces⟩⟩ sock).2.incoming.unread.length <
      stream.unread.length

/-- All packets were received. -/
theorem callReceives_nothing
    {done : List Frame} {n : Nat}
    (frames : stream.frames = done ++ [])
    (completed : List.Forall₂ Completes done stream.completed)
    (progress : Progress Frame.bytes [] n stream.unread)
    (parked : s.buffers.Parked sock [] [] n) :
    CallReceives s sock MQTTVersion pieces stream := by
  obtain rfl := progress.nothing rfl
  have hunread : stream.unread = [] := progress.unread_eq
  obtain ⟨hres, hwaits, hothers⟩ := readPacket_nothing
    (r := ⟨s.buffers, ⟨stream.unread, pieces⟩⟩) MQTTVersion ⟨parked, hunread⟩
  refine ⟨hothers, hwaits.parked.idle, ?_, fun hready => absurd hunread hready.1⟩
  refine Receives.intro done [] 0 frames ?_ ?_ hwaits.parked
  · rw [hres, Option.toList_none, List.append_nil]
    exact completed
  · exact ⟨hwaits.unread, progress.short, progress.nothing⟩

/-- A packet is next. -/
theorem callReceives_frame
    {done rest : List Frame} {f : Frame} {n : Nat}
    (hsocket : sock ≠ 0)
    (hdistinct : s.buffers.Distinct)
    (frames : stream.frames = done ++ f :: rest)
    (completed : List.Forall₂ Completes done stream.completed)
    (progress : Progress Frame.bytes (f :: rest) n stream.unread)
    (parked : s.buffers.Parked sock f.header f.body n) :
    CallReceives s sock MQTTVersion pieces stream := by
  have hshort := progress.short f rest rfl
  have hunread : stream.unread =
      (f.header ++ (f.body ++ rest.flatMap Frame.bytes)).drop n := by
    rw [progress.unread_eq, List.flatMap_cons, Frame.bytes, List.append_assoc]
  have hcall := readPacket_spec (r := ⟨s.buffers, ⟨stream.unread, pieces⟩⟩) MQTTVersion hsocket
    hdistinct ⟨parked, hunread⟩ hshort
  cases hcall with
  | completed result finished =>
      refine ⟨finished.others, finished.idle, ?_, ?_⟩
      · refine Receives.intro (done ++ [f]) rest 0 ?_ ?_ ?_
          ⟨finished.idle, Or.inl ⟨finished.absent, rfl⟩⟩
        · rw [List.append_assoc]
          exact frames
        · rw [result]
          exact List.rel_append completed
            (List.Forall₂.cons ⟨rfl, rfl, rfl⟩ List.Forall₂.nil)
        · dsimp only
          rw [finished.unread]
          exact Progress.start Frame.bytes_ne_nil rest
      · intro _
        rw [finished.unread, progress.unread_eq, List.length_drop, List.flatMap_cons,
          List.length_append]
        omega
  | interrupted result interrupted =>
      obtain ⟨m, hm, hwaits⟩ := interrupted.waits
      refine ⟨interrupted.others, hwaits.parked.idle, ?_, interrupted.takes⟩
      refine Receives.intro done (f :: rest) m frames ?_ ?_ hwaits.parked
      · rw [result, Option.toList_none, List.append_nil]
        exact completed
      · refine Progress.of_lt ?_ (by rw [f.length_bytes]; exact hm)
        rw [Frame.bytes, List.append_assoc]
        exact hwaits.unread

theorem Receives.call
    (h : Receives s.buffers sock stream)
    (hsocket : sock ≠ 0)
    (hdistinct : s.buffers.Distinct) :
    CallReceives s sock MQTTVersion pieces stream := by
  obtain ⟨done, left, n, frames, completed, progress, parked⟩ := h
  cases left with
  | nil => exact callReceives_nothing frames completed progress parked
  | cons f rest => exact callReceives_frame hsocket hdistinct frames completed progress parked

/-! ### Every run -/

theorem setStream_self
    (streams : Nat → Option Stream) (socket : Nat) (stream : Option Stream) :
    setStream streams socket stream socket = stream :=
  if_pos rfl

theorem setStream_ne
    (streams : Nat → Option Stream) {socket other : Nat} (stream : Option Stream)
    (hne : other ≠ socket) :
    setStream streams socket stream other = streams other :=
  if_neg hne

/-- One socket is changed, and the others keep their queues. -/
theorem Sound.set
    (h : Sound s)
    {buffers : SocketBuffer} {socket : Nat} {changed : Option Stream}
    (hothers : SocketBuffer.Others socket s.buffers buffers)
    (hidle : buffers.def_queue.Idle)
    (habsent : changed = none → buffers.find socket = none)
    (hreceives : ∀ stream, changed = some stream → Receives buffers socket stream) :
    Sound ⟨buffers, setStream s.streams socket changed⟩ := by
  refine ⟨hidle, hothers.distinct h.distinct, ?_, ?_⟩
  · intro other hnone
    dsimp only at hnone
    by_cases hother : other = socket
    · subst hother
      rw [setStream_self] at hnone
      exact habsent hnone
    · rw [setStream_ne _ _ hother] at hnone
      exact (hothers.find other hother).trans (h.absent other hnone)
  · intro other stream hsome
    dsimp only at hsome
    by_cases hother : other = socket
    · subst hother
      rw [setStream_self] at hsome
      exact hreceives stream hsome
    · rw [setStream_ne _ _ hother] at hsome
      exact (h.receives other stream hsome).other hidle (hothers.find other hother)

theorem Sound.callFactory
    (h : Sound s)
    (hsocket : sock ≠ 0)
    (hstream : s.streams sock = some stream) :
    Sound (s.callFactory sock MQTTVersion pieces stream) := by
  have hcall : CallReceives s sock MQTTVersion pieces stream :=
    (h.receives sock stream hstream).call hsocket h.distinct
  refine h.set hcall.others hcall.idle (fun hnone => absurd hnone (Option.some_ne_none _)) ?_
  intro stream' heq
  cases heq
  exact hcall.receives

theorem Sound.close
    (h : Sound s)
    (socket : Nat) :
    Sound (s.next (.close socket)) := by
  have hothers : SocketBuffer.Others socket s.buffers (s.buffers.cleanup socket) := by
    rw [SocketBuffer.cleanup]
    split
    · exact (SocketBuffer.others_detach _ _).trans (SocketBuffer.others_default _ _ _)
    · exact SocketBuffer.others_detach _ _
  have hidle : (s.buffers.cleanup socket).def_queue.Idle := by
    rw [SocketBuffer.cleanup]
    split
    · exact ⟨rfl, rfl, rfl, rfl, h.idle.fits⟩
    · exact h.idle
  have habsent : (s.buffers.cleanup socket).find socket = none := by
    rw [SocketBuffer.cleanup]
    split <;> exact SocketBuffer.find_detach h.distinct
  exact h.set hothers hidle (fun _ => habsent) (fun _ heq => absurd heq.symm (Option.some_ne_none _))

theorem Sound.step
    (h : Sound s)
    {e : ReceiveEvent} {t : ReceiveState}
    (hstep : Step s e t) :
    Sound t := by
  obtain ⟨hadmissible, rfl⟩ := hstep
  cases e with
  | connect socket frames =>
      have hnone := h.absent socket (Option.isNone_iff_eq_none.mp hadmissible)
      refine h.set (SocketBuffer.Others.refl _ _) h.idle
        (fun heq => absurd heq (Option.some_ne_none _)) ?_
      intro stream heq
      cases heq
      exact receives_start h.idle hnone frames
  | cycle sock MQTTVersion pieces =>
      rw [next, cycle]
      split
      · rename_i hsocket
        cases hstream : s.streams sock with
        | none => exact h
        | some stream => exact h.callFactory (Nat.pos_iff_ne_zero.mp hsocket) hstream
      · exact h
  | close socket => exact h.close socket

theorem Sound.takesInput
    (h : Sound s)
    {e : ReceiveEvent} {t : ReceiveState}
    (hstep : Step s e t) :
    TakesInput ⟨s, e, t⟩ := by
  rintro sock MQTTVersion piece pieces stream rfl hsocket hpiece hstream hunread
  change s.streams sock = some stream at hstream
  obtain ⟨_, rfl⟩ := hstep
  have hcall : CallReceives s sock MQTTVersion (piece :: pieces) stream :=
    (h.receives sock stream hstream).call (Nat.pos_iff_ne_zero.mp hsocket) h.distinct
  have hpost : s.next (.cycle sock MQTTVersion (piece :: pieces)) =
      s.callFactory sock MQTTVersion (piece :: pieces) stream := by
    simp only [next, cycle, if_pos hsocket, hstream]
  dsimp only
  rw [hpost]
  exact ⟨_, setStream_self _ _ _, hcall.takes ⟨hunread, piece, pieces, rfl, hpiece⟩⟩

theorem runs_trace
    {s : ReceiveState} {events : List ReceiveEvent}
    (hadm : ∀ x ∈ trace next s events, x.pre.Admissible x.event) :
    Runs Step s (trace next s events) (events.foldl next s) :=
  Runs.of_trace s events fun x hx => ⟨hadm x hx, post_of_mem_trace hx⟩

instance (s : ReceiveState) : (e : ReceiveEvent) → Decidable (s.Admissible e)
  | .connect _ _ => inferInstanceAs (Decidable (_ = _))
  | .cycle _ _ _ => isTrue trivial
  | .close _ => isTrue trivial

/-- A PUBLISH; its remaining length takes one byte more than it needs. -/
def publishFrame : Frame :=
  ⟨0x30, [0x83, 0], [0, 1, 97],
    LengthField.more 0x83 (by decide) (LengthField.last 0 (by decide)), by decide⟩

def pubackFrame : Frame :=
  ⟨0x40, [2], [0, 7], LengthField.last 2 (by decide), by decide⟩

def pingrespFrame : Frame :=
  ⟨0xD0, [0], [], LengthField.last 0 (by decide), by decide⟩

/-- Two sockets take turns, and are interrupted in a header, in a length and in a body. -/
def twoSockets : List ReceiveEvent :=
  [.connect 3 [publishFrame, pingrespFrame], .connect 4 [pubackFrame], .cycle 3 5 [1],
    .cycle 4 4 [1, 1, 1], .cycle 3 5 [1], .cycle 3 5 [1, 2], .cycle 4 4 [9], .cycle 3 5 [9],
    .cycle 3 5 [1, 1]]

/--
In every run, however the sockets take turns and whatever each `recv` takes, the
factory completes on every socket the packets that were sent on it, in their
order and once, and goes on as long as there is something to receive.
-/
theorem packets_reassembled
    {t : ReceiveState} {tr : List (Transition ReceiveState ReceiveEvent)}
    (hrun : Runs Step fresh tr t) :
    (∀ socket stream, t.streams socket = some stream → Reassembled stream) ∧
      ∀ x ∈ tr, TakesInput x := by
  obtain ⟨hall, hend⟩ := hrun.invariant (fun _ _ _ h hstep => h.step hstep) sound_fresh
  refine ⟨fun socket stream hstream => (hend.receives socket stream hstream).reassembled, ?_⟩
  intro x hx
  exact (hall x hx).1.takesInput (hrun.step_of_mem x hx)

theorem packets_reassembled_twoSockets :
    (((twoSockets.foldl next fresh).streams 3).map Stream.completed =
        some [⟨some .publish, 5, 0x30, [0, 1, 97]⟩, ⟨some .header_only, 5, 0xD0, []⟩] ∧
      ((twoSockets.foldl next fresh).streams 4).map Stream.completed =
        some [⟨some .ack, 4, 0x40, [0, 7]⟩]) ∧
      ∀ socket stream, (twoSockets.foldl next fresh).streams socket = some stream →
        Reassembled stream :=
  ⟨by decide, (packets_reassembled (runs_trace (by decide))).1⟩

end ReceiveState
end PahoMqtt
