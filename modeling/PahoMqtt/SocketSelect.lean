import Mathlib.Data.Finset.Card
import PahoMqtt.Lib.Cursors
import PahoMqtt.Lib.Runs
import PahoMqtt.Net

/-!
# Waiting for ready sockets

The lists and descriptor sets of Socket.c and `Socket_getReadySocket`, which
goes through the sockets that the last `select` has found ready before it calls
`select` again.  It gives `socket_mutex` up for the first `select`, so that a
call that comes to it is two steps; every other function is one.

`select` leaves the descriptors from `nfds` on in a set as they are.
-/

namespace PahoMqtt

def FD_SETSIZE : Nat := 1024

def EINPROGRESS : Int := 115

/-- `EWOULDBLOCK` -/
def EAGAIN : Int := 11

/-- `mod_s`, with the static `wset`. -/
structure Sockets where
  rset : Finset Int
  rset_saved : Finset Int
  maxfdp1 : Int
  clientsds : List Int
  /-- The socket at the cursor. -/
  cur_clientsds : Option Int
  connect_pending : List Int
  write_pending : List Int
  /-- `write_pending->current` -/
  write_current : Option Int
  pending_wset : Finset Int
  wset : Finset Int

/-- What `select` leaves of a set. -/
def select (nfds : Int) (ready : Int → Bool) (set : Finset Int) : Finset Int :=
  set.filter fun sd => sd < nfds → ready sd

/-- How many descriptors of a set `select` has found ready. -/
def selected (nfds : Int) (ready : Int → Bool) (set : Finset Int) : Nat :=
  (set.filter fun sd => sd < nfds ∧ ready sd).card

/-- What the sockets answer while `Socket_getReadySocket` looks for work. -/
structure Polled where
  /-- The first `select` fails. -/
  fails : Bool
  readable : Int → Bool
  /-- A pending write can be continued. -/
  unblocked : Int → Bool
  /-- `Socket_continueWrite`, while so many writes are pending. -/
  continueWrite : Nat → Int → Int
  /-- The second `select` fails. -/
  failsAgain : Bool
  writable : Int → Bool

namespace Sockets

/-- `Socket_outInitialize` -/
def outInitialize : Sockets := ⟨∅, ∅, 0, [], none, [], [], none, ∅, ∅⟩

/-- `Socket_addSocket`, with what `Socket_setnonblocking` returns. -/
def addSocket (s : Sockets) (newSd rc : Int) : Int × Sockets :=
  if newSd ∉ s.clientsds then
    if s.clientsds.length ≥ FD_SETSIZE then (SOCKET_ERROR, s)
    else
      (rc, { s with
        clientsds := s.clientsds ++ [newSd]
        rset_saved := insert newSd s.rset_saved
        maxfdp1 := max s.maxfdp1 (newSd + 1) })
  else (0, s)

/-- `Socket_noPendingWrites`; the search leaves `current` at what it finds. -/
def noPendingWrites (s : Sockets) (socket : Int) : Bool × Sockets :=
  if socket ∈ s.write_pending then (false, { s with write_current := some socket })
  else (true, s)

/-- `Socket_addPendingWrite` -/
def addPendingWrite (s : Sockets) (socket : Int) : Sockets :=
  { s with pending_wset := insert socket s.pending_wset }

/-- `Socket_clearPendingWrite` -/
def clearPendingWrite (s : Sockets) (socket : Int) : Sockets :=
  { s with pending_wset := s.pending_wset.erase socket }

/-- `Socket_putdatas`, where the packet is written in part. -/
def putdatas (s : Sockets) (socket : Int) : Sockets :=
  let (free, s) := s.noPendingWrites socket
  if free then
    { s with
      write_pending := s.write_pending ++ [socket]
      pending_wset := insert socket s.pending_wset }
  else s

/-- `ListRemoveItem` on `write_pending`. -/
def removeWrite (s : Sockets) (socket : Int) : Sockets :=
  { s with
    write_pending := s.write_pending.erase socket
    write_current := Lib.past s.write_pending s.write_current socket }

/-- The highest socket of the list, and 1 more. -/
def highest (clientsds : List Int) : Int :=
  clientsds.foldl (fun maxfdp1 socket => max socket maxfdp1) 0 + 1

/-- `Socket_close` -/
def close (s : Sockets) (socket : Int) : Sockets :=
  let clientsds := s.clientsds.erase socket
  { s.removeWrite socket with
    rset_saved := s.rset_saved.erase socket
    pending_wset := s.pending_wset.erase socket
    cur_clientsds := Lib.past s.clientsds s.cur_clientsds socket
    connect_pending := s.connect_pending.erase socket
    clientsds
    maxfdp1 := if socket + 1 ≥ s.maxfdp1 then highest clientsds else s.maxfdp1 }

/--
`Socket_new` from where it has its socket.  `rc` is the error number of
`Socket_addSocket`, where that fails, or else that of `connect`, or 0.
-/
def new (s : Sockets) (sock nonblocking rc : Int) : Int × Sockets :=
  let (added, s) := s.addSocket sock nonblocking
  let s :=
    if added ≠ SOCKET_ERROR ∧ (rc = EINPROGRESS ∨ rc = EAGAIN) then
      { s with connect_pending := s.connect_pending ++ [sock] }
    else s
  if rc ≠ 0 ∧ rc ≠ EINPROGRESS ∧ rc ≠ EAGAIN then (rc, s.close sock) else (rc, s)

/-- `isReady` -/
def isReady (s : Sockets) (socket : Int) : Bool × Sockets :=
  if socket ∈ s.connect_pending ∧ socket ∈ s.wset then
    (true, { s with connect_pending := s.connect_pending.erase socket })
  else if socket ∈ s.rset ∧ socket ∈ s.wset then s.noPendingWrites socket
  else (false, s)

/-- The loop that moves the cursor on to a socket that is ready; the list is what is left. -/
def sweep : List Int → Sockets → Sockets
  | [], s => { s with cur_clientsds := none }
  | socket :: left, s =>
      let (ready, s) := s.isReady socket
      if ready then { s with cur_clientsds := some socket } else sweep left s

/-- The sockets that the cursor has not passed. -/
def left (s : Sockets) : List Int :=
  Lib.rest s.clientsds s.cur_clientsds

/-- The socket at the cursor, which is moved on. -/
def take (s : Sockets) : Int × Sockets :=
  match s.cur_clientsds with
  | none => (0, s)
  | some socket => (socket, { s with cur_clientsds := Lib.following s.clientsds socket })

/--
The loop of `Socket_continueWrites`, from one write that ends to the next.  It goes on at
`current`, which the removal has left where it was.  The number is that of the writes that
are pending.
-/
def continueLoop (pwset : Finset Int) (continueWrite : Nat → Int → Int) :
    Nat → Option Int → Int × Int → Sockets → (Int × Int) × Sockets
  | 0, _, result, s => (result, s)
  | n + 1, curpending, result, s =>
      match (Lib.rest s.write_pending curpending).find? fun socket =>
          socket ∈ pwset ∧ continueWrite (n + 1) socket ≠ 0 with
      | none => (result, s)
      | some socket =>
          let s := { s.removeWrite socket with pending_wset := s.pending_wset.erase socket }
          continueLoop pwset continueWrite n s.write_current
            (if continueWrite (n + 1) socket = SOCKET_ERROR then (SOCKET_ERROR, socket)
              else result)
            s

/-- `Socket_continueWrites`: the return code, and the socket that is affected by an error. -/
def continueWrites (pwset : Finset Int) (continueWrite : Nat → Int → Int) (s : Sockets) :
    (Int × Int) × Sockets :=
  continueLoop pwset continueWrite s.write_pending.length s.write_pending.head? (0, 0) s

end Sockets

/-- What the first `select` of `Socket_getReadySocket` is called with. -/
structure Select where
  nfds : Int
  pwset : Finset Int

/-- The module, and the `select` that a thread is waiting in. -/
structure Polling where
  sockets : Sockets
  selecting : Option Select

namespace Polling

/-- `Socket_getReadySocket` as far as the first `select`: the socket and `rc` where it returns. -/
def getReadySocket (p : Polling) : Option (Int × Int) × Polling :=
  if p.sockets.clientsds = [] then (some (0, 0), p)
  else
    let s := p.sockets.sweep p.sockets.left
    match s.cur_clientsds with
    | some _ =>
        let (sock, s) := s.take
        (some (sock, 0), { p with sockets := s })
    | none =>
        (none,
          { sockets := { s with rset := s.rset_saved }
            selecting := some ⟨s.maxfdp1, s.pending_wset⟩ })

/-- `Socket_getReadySocket` from the first `select` on. -/
def finish (sel : Select) (polled : Polled) (s : Sockets) : (Int × Int) × Sockets :=
  if polled.fails then ((0, SOCKET_ERROR), s)
  else
    let rc := selected sel.nfds polled.readable s.rset +
      selected sel.nfds polled.unblocked sel.pwset
    let s := { s with rset := select sel.nfds polled.readable s.rset }
    let ((failed, sock), s) := s.continueWrites
      (select sel.nfds polled.unblocked sel.pwset) polled.continueWrite
    if failed = SOCKET_ERROR then ((sock, SOCKET_ERROR), s)
    else if polled.failsAgain then
      ((0, SOCKET_ERROR), { s with wset := s.rset_saved })
    else
      let rc1 := selected s.maxfdp1 polled.writable s.rset_saved
      let s := { s with wset := select s.maxfdp1 polled.writable s.rset_saved }
      if rc = 0 ∧ rc1 = 0 then ((0, 0), s)
      else
        let (sock, s) := (s.sweep s.clientsds).take
        ((sock, 0), s)

end Polling

/-- What the threads do. -/
inductive SocketEvent where
  | new (sock nonblocking rc : Int)
  | putdatas (socket : Int)
  | addPendingWrite (socket : Int)
  | clearPendingWrite (socket : Int)
  | noPendingWrites (socket : Int)
  | close (socket : Int)
  | getReadySocket
  | finish (polled : Polled)

namespace Polling

/-- What `Socket_getReadySocket` returns, if it does, and the module after a step. -/
def outcome (p : Polling) : SocketEvent → Option (Int × Int) × Polling
  | .new sock nonblocking rc => (none, { p with sockets := (p.sockets.new sock nonblocking rc).2 })
  | .putdatas socket => (none, { p with sockets := p.sockets.putdatas socket })
  | .addPendingWrite socket => (none, { p with sockets := p.sockets.addPendingWrite socket })
  | .clearPendingWrite socket => (none, { p with sockets := p.sockets.clearPendingWrite socket })
  | .noPendingWrites socket =>
      (none, { p with sockets := (p.sockets.noPendingWrites socket).2 })
  | .close socket => (none, { p with sockets := p.sockets.close socket })
  | .getReadySocket => p.getReadySocket
  | .finish polled =>
      match p.selecting with
      | none => (none, p)
      | some sel =>
          let (returned, s) := finish sel polled p.sockets
          (some returned, ⟨s, none⟩)

/--
A new socket is not open yet, a packet is written to a socket that is, and one
thread waits in `select`.
-/
def Admissible (p : Polling) : SocketEvent → Prop
  | .new sock _ _ => 0 < sock ∧ sock ∉ p.sockets.clientsds
  | .putdatas socket => socket ∈ p.sockets.clientsds
  | .getReadySocket => p.selecting = none
  | .finish _ => p.selecting.isSome = true
  | _ => True

def Step (p : Polling) (e : SocketEvent) (p' : Polling) : Prop :=
  p.Admissible e ∧ p' = (p.outcome e).2

end Polling
end PahoMqtt
