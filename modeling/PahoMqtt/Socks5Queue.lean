import PahoMqtt.Lib.Chains
import PahoMqtt.Lib.Runs
import PahoMqtt.Socks5Proxy

/-!
# The queue of outgoing packets

`packet__queue` and `packet__write` on the memory of the packets.  A call of
`packet__write` holds `out_packet_mutex` while it sends, so that packets are
queued between two of its calls only, but every `send` of it and every packet it
frees is a step of its own: what holds in each state of a run holds at every moment.
-/

set_option linter.style.nameCheck false

namespace PahoMqtt
namespace Socks5

abbrev Pointer := Nat

/-- `pahomqtt_socks5_packet`, for sending -/
structure OutPacket where
  payload : Bytes
  pos : Nat
  to_process : Nat
  packet_length : Nat
  next : Option Pointer
deriving DecidableEq

/-- The memory of the packets and the queue of a client. -/
structure OutQueue where
  packet : Pointer → Option OutPacket
  out_packet : Option Pointer
  out_packet_last : Option Pointer
  /-- A call of `packet__write` holds the mutex. -/
  writing : Bool
  /-- The bytes that were put on the wire. -/
  sent : Bytes
  /-- The payloads that were queued. -/
  queued : List Bytes

/-- What the calls of `packet__queue` and `packet__write` do, one after the other. -/
inductive QueueEvent where
  /-- `packet__queue`, up to its call of `packet__write` -/
  | queue (packet : Pointer) (payload : Bytes)
  /-- `packet__write` takes the mutex. -/
  | write
  | send (answer : SendAnswer)
  /-- The first packet was sent. -/
  | free
  /-- No packet is left. -/
  | done
deriving DecidableEq

/-- `n` bytes of the packet were sent. -/
def OutPacket.advance (packet : OutPacket) (n : Nat) : OutPacket :=
  { packet with to_process := packet.to_process - n, pos := packet.pos + n }

namespace OutQueue

/-- No packet was queued yet. -/
def empty : OutQueue where
  packet _ := none
  out_packet := none
  out_packet_last := none
  writing := false
  sent := []
  queued := []

def setPacket (q : OutQueue) (p : Pointer) (packet : OutPacket) : OutQueue :=
  { q with packet := Function.update q.packet p (some packet) }

/-- A packet of which nothing was sent. -/
def newPacket (payload : Bytes) : OutPacket where
  payload
  pos := 0
  to_process := payload.length
  packet_length := payload.length
  next := none

/-- `packet__queue`; none if `out_packet_last` is not a packet where it is used. -/
def packet__queue (q : OutQueue) (p : Pointer) (payload : Bytes) : Option OutQueue :=
  let q := { q.setPacket p (newPacket payload) with queued := q.queued ++ [payload] }
  match q.out_packet with
  | some _ => do
      let last ← q.out_packet_last
      let packet ← q.packet last
      some { q.setPacket last { packet with next := some p } with out_packet_last := some p }
  | none => some { q with out_packet := some p, out_packet_last := some p }

/-- An answer of `send` in the loop of `packet__write`; none if there is no packet. -/
def sendPacket (q : OutQueue) (answer : SendAnswer) : Option OutQueue := do
  let p ← q.out_packet
  let packet ← q.packet p
  match answer with
  -- the call returns, whatever the error is
  | .error _ => some { q with writing := false }
  | .bytes n =>
      let write_length := min (n + 1) packet.to_process
      some { q.setPacket p (packet.advance write_length) with
        sent := q.sent ++ (packet.payload.drop packet.pos).take write_length }

/-- The first packet is taken from the queue and freed; none if there is no packet. -/
def freePacket (q : OutQueue) : Option OutQueue := do
  let p ← q.out_packet
  let packet ← q.packet p
  some { q with
    packet := Function.update q.packet p none
    out_packet := packet.next
    out_packet_last := if packet.next = none then none else q.out_packet_last }

/-- `to_process` of the first packet -/
def firstToProcess (q : OutQueue) : Option Nat :=
  (q.out_packet.bind q.packet).map (·.to_process)

def next (q : OutQueue) : QueueEvent → Option OutQueue
  | .queue p payload => q.packet__queue p payload
  | .write => some { q with writing := true }
  | .send answer => q.sendPacket answer
  | .free => q.freePacket
  | .done => some { q with writing := false }

/-- The mutex and the conditions of the loops let the event happen. -/
def Enabled (q : OutQueue) : QueueEvent → Prop
  -- the memory is new, and no payload is empty
  | .queue p payload => q.writing = false ∧ q.packet p = none ∧ payload ≠ []
  -- the call returns before that in the state `new`
  | .write => q.writing = false
  | .send _ => q.writing = true ∧ q.out_packet ≠ none ∧ q.firstToProcess ≠ some 0
  | .free => q.writing = true ∧ q.out_packet ≠ none ∧ q.firstToProcess = some 0
  | .done => q.writing = true ∧ q.out_packet = none

def Step (q : OutQueue) (e : QueueEvent) (q' : OutQueue) : Prop :=
  q.Enabled e ∧ q.next e = some q'

/-! ### What the queue holds -/

/-- The bytes that are still to be sent: of the first packet from `pos` on, then of the others. -/
def held : List (Pointer × OutPacket) → Bytes
  | [] => []
  | (_, first) :: packets => first.payload.drop first.pos ++ (packets.map (·.2.payload)).flatten

/-- The queue and its cursor. -/
structure Holds (q : OutQueue) (packets : List (Pointer × OutPacket)) : Prop where
  /-- What is reachable from `out_packet`. -/
  chain : Lib.Chain q.packet OutPacket.next q.out_packet packets
  last : q.out_packet_last = (packets.map Prod.fst).getLast?
  counted : ∀ p ∈ packets, p.2.pos + p.2.to_process = p.2.packet_length ∧
    p.2.packet_length = p.2.payload.length
  untouched : ∀ p ∈ packets.tail, p.2.pos = 0
  bytes : q.sent ++ held packets = q.queued.flatten

/-- Everything that was queued is sent once and in order, or still held. -/
def SendsOnce (q : OutQueue) : Prop :=
  (∃ packets, q.Holds packets) ∧ (q.out_packet = none ↔ q.out_packet_last = none)

theorem Holds.empty :
    OutQueue.empty.Holds [] where
  chain := Lib.Chain.nil
  last := rfl
  counted _ h := by cases h
  untouched _ h := by cases h
  bytes := rfl

section Steps

variable {q q' : OutQueue} {packets : List (Pointer × OutPacket)}

theorem Holds.null_iff
    (h : q.Holds packets) :
    q.out_packet = none ↔ q.out_packet_last = none := by
  rw [h.last, List.getLast?_eq_none_iff, List.map_eq_nil_iff]
  constructor
  · intro hnull
    exact Lib.Chain.nil_iff.mp (hnull ▸ h.chain)
  · intro hnil
    have hchain := h.chain
    rw [hnil] at hchain
    generalize q.out_packet = start at hchain
    cases hchain
    rfl

/-- The first packet is in the memory. -/
theorem Holds.first
    {p : Pointer} {packet : OutPacket} {rest : List (Pointer × OutPacket)}
    (h : q.Holds ((p, packet) :: rest)) :
    q.out_packet = some p ∧ q.packet p = some packet ∧
      Lib.Chain q.packet OutPacket.next packet.next rest := by
  have hchain := h.chain
  generalize q.out_packet = start at hchain
  cases hchain with
  | cons hcell hrest => exact ⟨rfl, hcell, hrest⟩

theorem held_append
    (packets : List (Pointer × OutPacket)) (p : Pointer) (packet : OutPacket)
    (hpos : packet.pos = 0) :
    held (packets ++ [(p, packet)]) = held packets ++ packet.payload := by
  cases packets with
  | nil => simp [held, hpos]
  | cons first packets => simp [held, List.append_assoc]

/-- Only payloads and positions matter. -/
theorem held_set_next
    (packets : List (Pointer × OutPacket)) (p : Pointer) (packet : OutPacket)
    (next : Option Pointer) :
    held (packets ++ [(p, { packet with next })]) = held (packets ++ [(p, packet)]) := by
  cases packets with
  | nil => rfl
  | cons first packets => simp [held]

/-- The first packet of a queue. -/
theorem Holds.queue_first
    (h : q.Holds [])
    (p : Pointer) (payload : Bytes) :
    ∃ q', q.packet__queue p payload = some q' ∧ q'.Holds [(p, newPacket payload)] := by
  have hnull : q.out_packet = none := h.null_iff.mpr h.last
  refine ⟨{ q.setPacket p (newPacket payload) with
    queued := q.queued ++ [payload], out_packet := some p, out_packet_last := some p }, ?_, ?_⟩
  · simp only [packet__queue, setPacket, hnull]
  · refine ⟨?_, rfl, ?_, fun _ hmem => (by cases hmem), ?_⟩
    · exact Lib.Chain.cons (Function.update_self p _ _) Lib.Chain.nil
    · intro x hx
      obtain rfl := List.mem_singleton.mp hx
      exact ⟨Nat.zero_add _, rfl⟩
    · have hbytes := h.bytes
      simp only [held, List.append_nil] at hbytes
      simp [held, newPacket, setPacket, hbytes]

/-- A packet is put behind the last one. -/
theorem Holds.queue_behind
    {front : List (Pointer × OutPacket)} {last p : Pointer} {packet : OutPacket}
    (h : q.Holds (front ++ [(last, packet)]))
    (hfresh : q.packet p = none)
    (payload : Bytes) :
    ∃ q', q.packet__queue p payload = some q' ∧
      q'.Holds (front ++ [(last, { packet with next := some p }), (p, newPacket payload)]) := by
  have hlast : q.out_packet_last = some last := by
    rw [h.last]
    simp
  have hsome : q.out_packet ≠ none := by
    rw [ne_eq, h.null_iff, hlast]
    exact Option.some_ne_none last
  obtain ⟨first, hfirst⟩ := Option.ne_none_iff_exists'.mp hsome
  have hcell : q.packet last = some packet := h.chain.cell_of_mem (by simp)
  have hne : last ≠ p := by
    rintro rfl
    rw [hcell] at hfresh
    cases hfresh
  have hread : Function.update q.packet p (some (newPacket payload)) last = some packet := by
    rw [Function.update_of_ne hne, hcell]
  refine ⟨{ (q.setPacket p (newPacket payload)).setPacket last { packet with next := some p } with
    queued := q.queued ++ [payload], out_packet_last := some p }, ?_, ?_⟩
  · simp only [packet__queue, setPacket, hfirst, hlast, hread, Option.bind_eq_bind,
      Option.bind_some]
  · have hcounted := h.counted
    have huntouched := h.untouched
    refine ⟨h.chain.append_cell hfresh rfl rfl, by simp, ?_, ?_, ?_⟩
    · intro x hx
      simp only [List.mem_append, List.mem_cons, List.not_mem_nil, or_false] at hx hcounted
      rcases hx with hx | rfl | rfl
      · exact hcounted x (.inl hx)
      · exact hcounted (last, packet) (.inr rfl)
      · exact ⟨Nat.zero_add _, rfl⟩
    · cases front with
      | nil =>
          intro x hx
          obtain rfl := List.mem_singleton.mp hx
          rfl
      | cons first front =>
          intro x hx
          simp only [List.cons_append, List.tail_cons, List.mem_append, List.mem_cons,
            List.not_mem_nil, or_false] at hx huntouched
          rcases hx with hx | rfl | rfl
          · exact huntouched x (.inl hx)
          · exact huntouched (last, packet) (.inr rfl)
          · rfl
    · have hheld : held (front ++ [(last, { packet with next := some p }),
          (p, newPacket payload)]) = held (front ++ [(last, packet)]) ++ payload := by
        rw [← held_set_next front last packet (some p)]
        have happend := held_append (front ++ [(last, { packet with next := some p })]) p
          (newPacket payload) rfl
        rwa [List.append_assoc] at happend
      have hqueued : (q.queued ++ [payload]).flatten = q.queued.flatten ++ payload := by simp
      rw [hheld, ← List.append_assoc]
      exact (congrArg (· ++ payload) h.bytes).trans hqueued.symm

/-- Some bytes of the first packet are sent. -/
theorem Holds.sendBytes
    {p : Pointer} {packet : OutPacket} {rest : List (Pointer × OutPacket)}
    (h : q.Holds ((p, packet) :: rest)) (n : Nat) :
    ∃ q', q.sendPacket (.bytes n) = some q' ∧
      q'.Holds ((p, packet.advance (min (n + 1) packet.to_process)) :: rest) := by
  obtain ⟨hfirst, hcell, _⟩ := h.first
  obtain ⟨hcount, hlength⟩ := h.counted (p, packet) List.mem_cons_self
  refine ⟨_, by simp only [sendPacket, hfirst, hcell, Option.bind_eq_bind, Option.bind_some]; rfl,
    ?_⟩
  refine ⟨?_, h.last, ?_, h.untouched, ?_⟩
  · have hchain := h.chain
    rw [hfirst] at hchain
    exact hfirst ▸ hchain.update_head (packet.advance (min (n + 1) packet.to_process)) rfl
  · intro x hx
    rcases List.mem_cons.mp hx with rfl | hx
    · simp only [OutPacket.advance] at hcount hlength ⊢
      omega
    · exact h.counted x (List.mem_cons_of_mem _ hx)
  · have hbytes := h.bytes
    simp only [held] at hbytes ⊢
    simp only [OutPacket.advance, setPacket]
    rw [← hbytes, ← List.drop_drop, List.append_assoc, ← List.append_assoc (List.take _ _),
      List.take_append_drop]

/-- The first packet was sent and is freed. -/
theorem Holds.free
    {p : Pointer} {packet : OutPacket} {rest : List (Pointer × OutPacket)}
    (h : q.Holds ((p, packet) :: rest))
    (hzero : packet.to_process = 0) :
    ∃ q', q.freePacket = some q' ∧ q'.Holds rest := by
  have hnodup := h.chain.nodup
  obtain ⟨hfirst, hcell, hrest⟩ := h.first
  obtain ⟨hcount, hlength⟩ := h.counted (p, packet) List.mem_cons_self
  refine ⟨_, by simp only [freePacket, hfirst, hcell, Option.bind_eq_bind, Option.bind_some]; rfl,
    ?_⟩
  refine ⟨hrest.update_of_notMem (List.nodup_cons.mp hnodup).1 none, ?_, ?_, ?_, ?_⟩
  · have hlast := h.last
    dsimp only
    cases rest with
    | nil =>
        have hnull : packet.next = none := by
          generalize packet.next = start at hrest
          cases hrest
          rfl
        rw [if_pos hnull]
        rfl
    | cons second rest =>
        have hsome : packet.next ≠ none := by
          intro hnull
          rw [hnull, Lib.Chain.nil_iff] at hrest
          cases hrest
        rw [if_neg hsome, hlast]
        exact List.getLast?_cons_cons
  · exact fun x hx => h.counted x (List.mem_cons_of_mem _ hx)
  · exact fun x hx => h.untouched x (List.mem_of_mem_tail hx)
  · have hsent : packet.payload.drop packet.pos = [] := by
      dsimp only at hcount hlength
      exact List.drop_eq_nil_of_le (by omega)
    have hbytes := h.bytes
    simp only [held, hsent, List.nil_append] at hbytes
    rw [← hbytes]
    congr 1
    cases rest with
    | nil => rfl
    | cons second rest =>
        have hpos := h.untouched second List.mem_cons_self
        simp only [held, hpos, List.drop_zero, List.map_cons, List.flatten_cons]

/-- A client that holds the mutex for a queue with a first packet. -/
theorem Holds.exists_first
    (h : q.Holds packets)
    (hsome : q.out_packet ≠ none) :
    ∃ p packet rest, packets = (p, packet) :: rest ∧
      q.firstToProcess = some packet.to_process := by
  cases packets with
  | nil =>
      exact absurd (h.null_iff.mpr h.last) hsome
  | cons first rest =>
      obtain ⟨p, packet⟩ := first
      obtain ⟨hfirst, hcell, _⟩ := h.first
      refine ⟨p, packet, rest, rfl, ?_⟩
      rw [firstToProcess, hfirst, Option.bind_some, hcell, Option.map_some]

theorem Holds.of_same
    {writing : Bool}
    (h : q.Holds packets) :
    Holds { q with writing } packets :=
  ⟨h.chain, h.last, h.counted, h.untouched, h.bytes⟩

/-- Whatever can happen finds the packets where it uses them, and keeps the queue. -/
theorem Holds.next
    {e : QueueEvent}
    (h : q.Holds packets)
    (henabled : q.Enabled e) :
    ∃ q' packets', q.next e = some q' ∧ q'.Holds packets' := by
  cases e with
  | queue p payload =>
      obtain ⟨_, hfresh, _⟩ := henabled
      rcases List.eq_nil_or_concat packets with rfl | ⟨front, ⟨last, packet⟩, rfl⟩
      · obtain ⟨q', hnext, h'⟩ := h.queue_first p payload
        exact ⟨q', _, hnext, h'⟩
      · rw [List.concat_eq_append] at h
        obtain ⟨q', hnext, h'⟩ := h.queue_behind hfresh payload
        exact ⟨q', _, hnext, h'⟩
  | write =>
      exact ⟨_, packets, rfl, h.of_same⟩
  | send answer =>
      obtain ⟨p, packet, rest, rfl, _⟩ := h.exists_first henabled.2.1
      cases answer with
      | error errno =>
          obtain ⟨hfirst, hcell, _⟩ := h.first
          refine ⟨{ q with writing := false }, _, ?_, h.of_same⟩
          simp only [OutQueue.next, sendPacket, hfirst, hcell, Option.bind_eq_bind,
            Option.bind_some]
      | bytes n =>
          obtain ⟨q', hnext, h'⟩ := h.sendBytes n
          exact ⟨q', _, hnext, h'⟩
  | free =>
      obtain ⟨p, packet, rest, rfl, hprocess⟩ := h.exists_first henabled.2.1
      have hzero : packet.to_process = 0 := Option.some.inj (hprocess.symm.trans henabled.2.2)
      obtain ⟨q', hnext, h'⟩ := h.free hzero
      exact ⟨q', rest, hnext, h'⟩
  | done =>
      exact ⟨_, packets, rfl, h.of_same⟩

theorem Holds.step
    {e : QueueEvent}
    (h : q.Holds packets)
    (hstep : q.Step e q') :
    ∃ packets', q'.Holds packets' := by
  obtain ⟨q'', packets', hnext, h'⟩ := h.next hstep.1
  obtain rfl := Option.some.inj (hnext.symm.trans hstep.2)
  exact ⟨packets', h'⟩

end Steps

/-- In any interleaving, all is sent once and in order, and no call uses a packet that is not there. -/
theorem sendsOnce_of_runs
    {q : OutQueue} {tr : List (Lib.Transition OutQueue QueueEvent)}
    (hrun : Lib.Runs Step OutQueue.empty tr q) :
    q.SendsOnce ∧ ∀ e, q.Enabled e → q.next e ≠ none := by
  obtain ⟨packets, h⟩ := (hrun.invariant (I := fun q => ∃ packets, q.Holds packets)
    (fun _ _ _ ⟨_, h⟩ hstep => h.step hstep) ⟨[], Holds.empty⟩).2
  refine ⟨⟨⟨packets, h⟩, h.null_iff⟩, fun e henabled => ?_⟩
  obtain ⟨q', _, hnext, _⟩ := h.next henabled
  rw [hnext]
  exact Option.some_ne_none q'

/-- The queue after some events. -/
def after (events : List QueueEvent) : OutQueue :=
  events.foldl (fun q e => (q.next e).getD q) OutQueue.empty

/-- A packet is queued behind one that was sent in part, up to an error. -/
def interrupted : List QueueEvent :=
  [.queue 0 [5, 1, 0], .write, .send (.bytes 1), .send (.error 11), .queue 1 [5, 2]]

theorem sendsOnce_interrupted :
    ((after interrupted).SendsOnce ∧
      ∀ e, (after interrupted).Enabled e → (after interrupted).next e ≠ none) ∧
      (after interrupted).sent = [5, 1] := by
  refine ⟨sendsOnce_of_runs (Lib.Runs.of_trace _ _ ?_), rfl⟩
  intro x hx
  simp only [interrupted, Lib.trace, List.mem_cons, List.not_mem_nil, or_false] at hx
  rcases hx with rfl | rfl | rfl | rfl | rfl
  · exact ⟨⟨rfl, rfl, List.cons_ne_nil _ _⟩, rfl⟩
  · exact ⟨rfl, rfl⟩
  · exact ⟨⟨rfl, Option.some_ne_none 0, fun h => (by cases h)⟩, rfl⟩
  · exact ⟨⟨rfl, Option.some_ne_none 0, fun h => (by cases h)⟩, rfl⟩
  · exact ⟨⟨rfl, rfl, List.cons_ne_nil _ _⟩, rfl⟩

/-! ### A call of `packet__write` -/

/-- What is still to be sent of each packet; a packet that was sent is about to be freed. -/
def unsent (packets : List (Pointer × OutPacket)) : List Bytes :=
  (packets.map fun p => p.2.payload.drop p.2.pos).filter (· ≠ [])

def answerOf : QueueEvent → Option SendAnswer
  | .send answer => some answer
  | _ => none

theorem unsent_cons_of_pos
    {p : Pointer} {packet : OutPacket} (rest : List (Pointer × OutPacket))
    (hpos : packet.pos < packet.payload.length) :
    unsent ((p, packet) :: rest) = packet.payload.drop packet.pos :: unsent rest := by
  have hne : packet.payload.drop packet.pos ≠ [] := by
    rw [ne_eq, List.drop_eq_nil_iff]
    omega
  simp [unsent, hne]

theorem unsent_cons_of_le
    {p : Pointer} {packet : OutPacket} (rest : List (Pointer × OutPacket))
    (hpos : packet.payload.length ≤ packet.pos) :
    unsent ((p, packet) :: rest) = unsent rest := by
  simp [unsent, List.drop_eq_nil_of_le hpos]

/-- A call leaves of the packets what the function on lists of bytes leaves. -/
theorem Holds.unsent_eq
    {q q' : OutQueue} {packets : List (Pointer × OutPacket)}
    {tr : List (Lib.Transition OutQueue QueueEvent)}
    (h : q.Holds packets)
    (hrun : Lib.Runs Step q tr q')
    (hwriting : ∀ x ∈ tr, x.pre.writing = true) :
    ∃ packets', q'.Holds packets' ∧
      (Socks5.packet__write (tr.filterMap fun x => answerOf x.event) (unsent packets)).2 =
        unsent packets' := by
  have hnothing (packets : List Bytes) : (Socks5.packet__write [] packets).2 = packets := by
    cases packets <;> rfl
  induction hrun generalizing packets with
  | nil q =>
      exact ⟨packets, h, hnothing _⟩
  | @cons q q₁ q' e tr hstep hrun ih =>
      have hnow : q.writing = true := hwriting _ List.mem_cons_self
      have hlater : ∀ x ∈ tr, x.pre.writing = true :=
        fun x hx => hwriting x (List.mem_cons_of_mem _ hx)
      -- when the mutex was released, the call is over
      have hend : q₁.writing = false → tr = [] ∧ q₁ = q' := by
        intro hreleased
        cases hrun with
        | nil => exact ⟨rfl, rfl⟩
        | cons =>
            rw [hlater _ List.mem_cons_self] at hreleased
            cases hreleased
      obtain ⟨henabled, hnext⟩ := hstep
      cases e with
      | queue p payload =>
          rw [henabled.1] at hnow
          cases hnow
      | write =>
          rw [show q.writing = false from henabled] at hnow
          cases hnow
      | done =>
          obtain rfl := Option.some.inj hnext
          obtain ⟨rfl, rfl⟩ := hend rfl
          exact ⟨packets, h.of_same, hnothing _⟩
      | free =>
          obtain ⟨p, packet, rest, rfl, hprocess⟩ := h.exists_first henabled.2.1
          have hzero : packet.to_process = 0 := Option.some.inj (hprocess.symm.trans henabled.2.2)
          obtain ⟨q₂, hnext', h'⟩ := h.free hzero
          obtain rfl := Option.some.inj (hnext'.symm.trans hnext)
          obtain ⟨hcount, hlength⟩ := h.counted (p, packet) List.mem_cons_self
          dsimp only at hcount hlength
          rw [unsent_cons_of_le rest (by omega)]
          exact ih h' hlater
      | send answer =>
          obtain ⟨p, packet, rest, rfl, hprocess⟩ := h.exists_first henabled.2.1
          obtain ⟨hcount, hlength⟩ := h.counted (p, packet) List.mem_cons_self
          dsimp only at hcount hlength
          have hpos : packet.to_process ≠ 0 := fun hzero =>
            henabled.2.2 (hzero ▸ hprocess)
          rw [unsent_cons_of_pos rest (by omega)]
          cases answer with
          | error errno =>
              obtain ⟨hfirst, hcell, _⟩ := h.first
              have hreturn : q.sendPacket (.error errno) = some { q with writing := false } := by
                simp only [sendPacket, hfirst, hcell, Option.bind_eq_bind, Option.bind_some]
              obtain rfl := Option.some.inj (hreturn.symm.trans hnext)
              obtain ⟨rfl, rfl⟩ := hend rfl
              refine ⟨_, h.of_same, ?_⟩
              rw [unsent_cons_of_pos rest (by omega)]
              rfl
          | bytes n =>
              obtain ⟨q₂, hnext', h'⟩ := h.sendBytes n
              obtain rfl := Option.some.inj (hnext'.symm.trans hnext)
              obtain ⟨packets', hholds, heq⟩ := ih h' hlater
              refine ⟨packets', hholds, ?_⟩
              rw [← heq, List.filterMap_cons]
              dsimp only [answerOf]
              rw [Socks5.packet__write, List.length_drop]
              by_cases hall : packet.payload.length - packet.pos ≤ n + 1
              · rw [if_pos hall, unsent_cons_of_le rest]
                simp only [OutPacket.advance]
                omega
              · have hmin : min (n + 1) packet.to_process = n + 1 := by omega
                rw [if_neg hall, unsent_cons_of_pos rest, hmin]
                · rw [OutPacket.advance, List.drop_drop]
                · simp only [OutPacket.advance]
                  omega

end OutQueue
end Socks5
end PahoMqtt
