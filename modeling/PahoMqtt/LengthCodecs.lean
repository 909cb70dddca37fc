import PahoMqtt.PublishRoundTrip
import PahoMqtt.PropertyLengths
import PahoMqtt.Reassembly

/-!
# The codecs of the remaining length

One loop writes a remaining length and three read it: from a socket, from a
buffer, and from what was persisted.  The three agree on every spelling of at
most four bytes, and so on whatever the first one writes.
-/

namespace PahoMqtt

open Lib

/-! ### From the network -/

/-- Each of the next `k` calls of `recv` takes something. -/
def Incoming.Prompt (incoming : Incoming) (k : Nat) : Prop :=
  ∃ now later, incoming.pieces = now ++ later ∧ now.length = k ∧ ∀ piece ∈ now, piece ≠ 0

theorem Incoming.Prompt.recv
    {incoming : Incoming} {k size : Nat}
    (h : incoming.Prompt (k + 1))
    (hsize : size ≠ 0)
    (hunread : incoming.unread ≠ []) :
    incoming.Ready ∧ (PahoMqtt.recv incoming size).2.Prompt k := by
  obtain ⟨now, later, hpieces, hlength, hnow⟩ := h
  cases now with
  | nil =>
      cases hlength
  | cons piece now =>
      obtain ⟨hpiece, hnow⟩ := List.forall_mem_cons.mp hnow
      refine ⟨⟨hunread, piece, now ++ later, hpieces, hpiece⟩, now, later, ?_, ?_, hnow⟩
      · rw [PahoMqtt.recv, if_neg hsize, hpieces, List.cons_append]
        dsimp only
        rw [if_neg (not_or.mpr ⟨hpiece, hunread⟩)]
      · exact Nat.succ.inj hlength

namespace Reading

variable {r : Reading} {socket : Nat} {header rest : Bytes}

/-- A byte that has arrived is received. -/
theorem Cursor.getch_prompt
    {i k : Nat} {queue : SocketQueue}
    (h : r.Cursor socket header [] rest i i queue)
    (hsocket : socket ≠ 0)
    (hlt : i < header.length)
    (hlength : header.length ≤ 5)
    (hprompt : r.incoming.Prompt (k + 1)) :
    ∃ c queue', header[i]? = some c ∧ (Socket.getch r socket).1 = (TCPSOCKET_COMPLETE, c) ∧
      (Socket.getch r socket).2.Cursor socket header [] rest (i + 1) (i + 1) queue' ∧
      (Socket.getch r socket).2.incoming.Prompt k := by
  have hend : i = queue.headerlen := by
    rw [h.holds.headerlen]
    omega
  have hunread : r.incoming.unread ≠ [] := by
    rw [h.unread, Ne, List.drop_eq_nil_iff, List.length_append]
    omega
  obtain ⟨hready, hnext⟩ := hprompt.recv Nat.one_ne_zero hunread
  rcases recv_cases r.incoming Nat.one_pos with ⟨hnone, _⟩ | ⟨data, hdata, hone, hsome, hdrop⟩
  · exact absurd hnone (recv_ready Nat.one_pos hready)
  · obtain ⟨c, hc, hres, hcursor, hincoming, _⟩ :=
      h.getch_received hsocket hend hlt hlength hdata hone hsome hdrop
    refine ⟨c, _, hc, hres, hcursor, ?_⟩
    rw [hincoming]
    exact hnext

/-- At the end of the header nothing but what follows it is left on the socket. -/
theorem Cursor.unread_eq
    {n : Nat} {queue : SocketQueue}
    (h : r.Cursor socket header [] rest n header.length queue) :
    r.incoming.unread = rest := by
  have hn : n = header.length := by
    have := h.holds.headerlen
    have := h.le
    have := h.short
    simp only [List.length_nil] at this
    omega
  have hunread := h.unread
  rw [hn, List.drop_left] at hunread
  exact hunread

end Reading

namespace MQTTPacket

variable {socket : Nat} {header rest : Bytes}

/-- Once its bytes have arrived, a remaining length is decoded to its end. -/
theorem decodeLoop_prompt
    {cs : Bytes} {value : Nat}
    (hfield : LengthField cs value)
    (hsocket : socket ≠ 0)
    (hlength : header.length ≤ 5) :
    ∀ {front : Bytes} {tries multiplier sum : Nat} {r : Reading} {queue : SocketQueue},
      header = front ++ cs → cs.length ≤ tries →
      r.Cursor socket header [] rest front.length front.length queue →
      r.incoming.Prompt cs.length →
      (decodeLoop socket tries multiplier sum r).1 =
          (TCPSOCKET_COMPLETE, sum + value * multiplier) ∧
        ∃ queue', (decodeLoop socket tries multiplier sum r).2.Cursor socket header [] rest
          header.length header.length queue' := by
  induction hfield with
  | last c hlast =>
      intro front tries multiplier sum r queue hsplit htries hcursor hprompt
      obtain ⟨tries, rfl⟩ : ∃ k, tries = k + 1 := Nat.exists_eq_add_of_le' htries
      have hlen : header.length = front.length + 1 := by
        rw [hsplit, List.length_append, List.length_singleton]
      obtain ⟨c', queue', hc', hres, hnext, _⟩ :=
        hcursor.getch_prompt hsocket (by omega) hlength hprompt
      have hc : c' = c := by
        rw [hsplit, List.getElem?_append_right (Nat.le_refl _), Nat.sub_self] at hc'
        exact (Option.some.inj hc').symm
      subst hc
      rw [decodeLoop_complete hres, if_neg hlast, hlen]
      exact ⟨rfl, queue', hnext⟩
  | @more c cs value hmore _ ih =>
      intro front tries multiplier sum r queue hsplit htries hcursor hprompt
      obtain ⟨tries, rfl⟩ : ∃ k, tries = k + 1 :=
        Nat.exists_eq_add_of_le' (Nat.le_trans (Nat.succ_le_succ (Nat.zero_le _)) htries)
      have hlt : front.length < header.length := by
        rw [hsplit, List.length_append, List.length_cons]
        omega
      obtain ⟨c', queue', hc', hres, hnext, hprompt'⟩ :=
        hcursor.getch_prompt hsocket hlt hlength hprompt
      have hc : c' = c := by
        rw [hsplit, List.getElem?_append_right (Nat.le_refl _), Nat.sub_self] at hc'
        exact (Option.some.inj hc').symm
      subst hc
      have hsplit' : header = (front ++ [c']) ++ cs := by
        rw [hsplit, List.append_assoc]
        rfl
      have hfront : (front ++ [c']).length = front.length + 1 := by
        rw [List.length_append, List.length_singleton]
      obtain ⟨hvalue, hend⟩ := @ih (front ++ [c']) tries (multiplier * 128)
        (sum + c'.toNat % 128 * multiplier) _ queue' hsplit'
        (Nat.le_of_succ_le_succ htries) (hfront ▸ hnext) hprompt'
      rw [decodeLoop_complete hres, if_pos hmore]
      refine ⟨?_, hend⟩
      rw [hvalue]
      congr 1
      ring

/-! ### The three decoders -/

/--
A spelling is decoded to `m` wherever it is read, and exactly its bytes are
consumed.  A read from a socket, which comes to the length after `front`, may
find that not all of them have arrived.
-/
structure DecodedTo (lead : Bytes) (m : Nat) : Prop where
  arrived : ∀ {front rest : Bytes} {socket : Nat} {r : Reading} {queue : SocketQueue},
    socket ≠ 0 → (front ++ lead).length ≤ 5 →
    r.Cursor socket (front ++ lead) [] rest front.length front.length queue →
    r.incoming.Prompt lead.length →
    (decode r socket).1 = (TCPSOCKET_COMPLETE, m) ∧ (decode r socket).2.incoming.unread = rest
  arriving : ∀ {front body rest : Bytes} {socket n : Nat} {r : Reading} {queue : SocketQueue},
    socket ≠ 0 → (front ++ lead).length ≤ 5 →
    r.Cursor socket (front ++ lead) body rest n front.length queue →
    ((decode r socket).1 = (TCPSOCKET_COMPLETE, m) ∧
      ∃ n' queue', (decode r socket).2.Cursor socket (front ++ lead) body rest n'
        (front ++ lead).length queue') ∨
    ((decode r socket).1.1 = TCPSOCKET_INTERRUPTED ∧
      ∃ n', (decode r socket).2.Waits socket (front ++ lead) body rest n')
  buffered : ∀ {buf rest : Bytes} {pos : Nat}, buf.drop pos = lead ++ rest →
    decodeBuf buf pos = .ok (lead.length, m)
  persisted : ∀ {buffer rest : Bytes}, buffer.drop 1 = lead ++ rest →
    MQTTPersistence.restoreLength buffer buffer.length 1 0 1 = .ok ((m : Int), 1 + lead.length)

theorem IsVarInt.decodedTo
    {lead : Bytes} {m : Nat}
    (h : IsVarInt lead m)
    (hlen : lead.length ≤ 4) :
    DecodedTo lead m := by
  have hfield := lengthField_of_isVarInt h
  constructor
  · intro front rest socket r queue hsocket hlength hcursor hprompt
    obtain ⟨hres, queue', hend⟩ : (decodeLoop socket 4 1 0 r).1 = (_, 0 + m * 1) ∧ _ :=
      decodeLoop_prompt hfield hsocket hlength rfl hlen hcursor hprompt
    rw [Nat.zero_add, Nat.mul_one] at hres
    exact ⟨hres, hend.unread_eq⟩
  · intro front body rest socket n r queue hsocket hlength hcursor
    have hloop := @decodeLoop_spec _ _ body rest _ _ hfield hsocket hlength front 4 1 0 n r queue
      rfl hlen hcursor
    rcases hloop with ⟨hres, hreaches⟩ | ⟨hres, hint⟩
    · rw [Nat.zero_add, Nat.mul_one] at hres
      exact Or.inl ⟨hres, hreaches.cursor⟩
    · obtain ⟨n', _, hwaits⟩ := hint.waits
      exact Or.inr ⟨hres, n', hwaits⟩
  · intro buf rest pos hdrop
    exact decodeBuf_taken (.wellFormed h hlen) hdrop
  · intro buffer rest hdrop
    have hlt : m < 268435456 := (TakenInt.wellFormed h hlen).lt
    have hfuel : lead.length ≤ buffer.length := by
      have := congrArg List.length hdrop
      rw [List.length_drop, List.length_append] at this
      omega
    have hloop := @MQTTPersistence.restoreLength_isVarInt _ _ h _ _ _ 1 1 0 hdrop hfuel
    have hvalue := MQTTProperties.toInt_of_lt (n := m) (by omega) (by omega)
    rw [zero_add, mul_one, hvalue] at hloop
    exact hloop

/-- Continuation bytes and one byte without the top bit are a spelling. -/
theorem isVarInt_of_continues
    {front : Bytes} {last : UInt8}
    (hfront : ∀ b ∈ front, 128 ≤ b.toNat)
    (hlast : last.toNat < 128) :
    ∃ m, IsVarInt (front ++ [last]) m := by
  induction front with
  | nil =>
      exact ⟨_, .last hlast⟩
  | cons b front ih =>
      obtain ⟨hmore, hfront⟩ := List.forall_mem_cons.mp hfront
      obtain ⟨m, hm⟩ := ih hfront
      exact ⟨_, .more hmore hm⟩

/--
What is written for a number below 2^28 has the length that was computed for
it, is minimal, and is read back by every decoder.  The decoders agree on
everything else that is a remaining length, too.
-/
theorem lengthCodecs_agree :
    (∀ n < 268435456, ((encode n).length : Int) = VBIlen n ∧ MinimalVarInt (encode n) n ∧
      DecodedTo (encode n) n) ∧
    ∀ (front : Bytes) (last : UInt8), (∀ b ∈ front, 128 ≤ b.toNat) → last.toNat < 128 →
      (front ++ [last]).length ≤ 4 → ∃ m, DecodedTo (front ++ [last]) m := by
  refine ⟨?_, ?_⟩
  · intro n hn
    refine ⟨?_, encode_minimal n, ?_⟩
    · rw [MQTTProperties.encode_length, MQTTProperties.VBIlen_eq_log hn]
    · exact IsVarInt.decodedTo (encode_isVarInt n) ((encode_length_le_iff 3 n).mpr hn)
  · intro front last hfront hlast hlen
    obtain ⟨m, hm⟩ := isVarInt_of_continues hfront hlast
    exact ⟨m, IsVarInt.decodedTo hm hlen⟩

theorem lengthCodecs_agree_sample :
    DecodedTo (encode 16384) 16384 ∧ ∃ m, DecodedTo [255, 128, 0] m :=
  ⟨(lengthCodecs_agree.1 16384 (by decide)).2.2,
    lengthCodecs_agree.2 [255, 128] 0 (by simp) (by decide) (by decide)⟩

end MQTTPacket
end PahoMqtt
