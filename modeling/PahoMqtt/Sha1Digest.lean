import PahoMqtt.Sha1

/-!
# The digest of a message in pieces

The rounds over the circular words of a context are those over the schedule of
80 words, on platforms of either byte order.  A context stands for the message that
it was given so far, whatever the pieces were.
-/

namespace PahoMqtt
namespace SHA1

open Lib

/-! ### Words in memory -/

theorem wordBytes_ofNat
    {bytes : Bytes}
    (h : bytes.length = 4) :
    wordBytes (UInt32.ofNat (ofBigEndian bytes)) = bytes := by
  have hlt := ofBigEndian_lt bytes
  rw [h] at hlt
  rw [wordBytes, UInt32.toNat_ofNat_of_lt' hlt, ← h, bigEndian_ofBigEndian]

theorem length_wordBytes
    (x : UInt32) :
    (wordBytes x).length = 4 :=
  bigEndian_length 4 _

/-- A word is taken from memory as the number that its bytes spell, the highest first. -/
theorem be32toh_load32
    {bytes : Bytes}
    (e : Endian)
    (h : bytes.length = 4) :
    be32toh e (load32 e bytes) = UInt32.ofNat (ofBigEndian bytes) := by
  cases e with
  | big => rfl
  | little =>
      rw [be32toh, load32, swap32, wordBytes_ofNat (by rw [List.length_reverse, h]),
        List.reverse_reverse]

/-- A word is put into memory with its highest byte first. -/
theorem store32_htobe32
    (e : Endian) (x : UInt32) :
    store32 e (htobe32 e x) = wordBytes x := by
  cases e with
  | big => rfl
  | little =>
      rw [store32, htobe32, be32toh, swap32,
        wordBytes_ofNat (by rw [List.length_reverse, length_wordBytes]), List.reverse_reverse]

theorem getElem_blockWords
    {buffer : Bytes} {t : Nat}
    (e : Endian)
    (hbuffer : buffer.length = 64)
    (ht : t < 16) :
    (blockWords e buffer)[t] = Sha1.blockWord buffer t := by
  rw [blockWords, Vector.getElem_ofFn, be32toh_load32 e (by
    rw [List.length_take, List.length_drop, hbuffer]
    dsimp only
    omega)]
  rfl

/-! ### The rounds -/

/-- The registers of the loop. -/
def registers (s : Sha1.Words) : Vector UInt32 5 := #v[s.a, s.b, s.c, s.d, s.e]

theorem rotate_eq
    (n x : UInt32) :
    ROTATE_LEFT32 x n = Sha1.rotl n x := rfl

/-- The choice, with the exclusive or of the standard. -/
theorem ch_eq
    (x y z : UInt32) :
    (x &&& y) ||| (~~~x &&& z) = Sha1.ch x y z := by
  rw [Sha1.ch, ← UInt32.toBitVec_inj]
  ext i hi
  simp only [UInt32.toBitVec_or, UInt32.toBitVec_and, UInt32.toBitVec_not, UInt32.toBitVec_xor,
    BitVec.getElem_or, BitVec.getElem_and, BitVec.getElem_not, BitVec.getElem_xor]
  cases x.toBitVec[i] <;> simp

/-- The majority, with the exclusive or of the standard. -/
theorem maj_eq
    (x y z : UInt32) :
    (x &&& y) ||| (x &&& z) ||| (y &&& z) = Sha1.maj x y z := by
  rw [Sha1.maj, ← UInt32.toBitVec_inj]
  ext i hi
  simp only [UInt32.toBitVec_or, UInt32.toBitVec_and, UInt32.toBitVec_xor,
    BitVec.getElem_or, BitVec.getElem_and, BitVec.getElem_xor]
  cases x.toBitVec[i] <;> cases y.toBitVec[i] <;> simp

theorem roundWord_eq
    (i : Nat) (s : Sha1.Words) (w : UInt32) :
    roundWord i (registers s) w =
      Sha1.rotl 5 s.a + Sha1.f i s.b s.c s.d + s.e + Sha1.k i + w := by
  have hswap : ∀ x f e k : UInt32, x + f + e + w + k = x + f + e + k + w := by
    intro x f e k
    rw [UInt32.add_assoc, UInt32.add_comm w, ← UInt32.add_assoc]
  rw [roundWord, Sha1.f, Sha1.k]
  split_ifs
  · rw [hswap]
    exact congrArg (fun c => Sha1.rotl 5 s.a + c + s.e + 0x5A827999 + w) (ch_eq s.b s.c s.d)
  · rw [hswap]
    rfl
  · rw [hswap]
    exact congrArg (fun c => Sha1.rotl 5 s.a + c + s.e + 0x8F1BBCDC + w) (maj_eq s.b s.c s.d)
  · rw [hswap]
    rfl

theorem roundTurn_eq
    (i : Nat) (s : Sha1.Words) (w : UInt32) :
    roundTurn i (registers s) w = registers (Sha1.round w i s) := by
  rw [roundTurn, roundWord_eq]
  rfl

/-! ### The circular schedule -/

theorem slot_val
    (i : Nat) :
    (slot i).val = i % 16 :=
  Nat.and_two_pow_sub_one_eq_mod i 4

/-- The words hold the last sixteen words of the schedule that are needed so far. -/
def Scheduled (block : Bytes) (i : Nat) (w : Vector UInt32 16) : Prop :=
  ∀ t, t < max i 16 → max i 16 ≤ t + 16 → w.get (slot t) = Sha1.schedule block t

theorem scheduled_start
    {buffer : Bytes}
    (e : Endian)
    (hbuffer : buffer.length = 64) :
    Scheduled buffer 0 (blockWords e buffer) := by
  intro t ht _
  have ht : t < 16 := by omega
  have hslot : (slot t).val = t := by rw [slot_val, Nat.mod_eq_of_lt ht]
  have hget : (blockWords e buffer).get (slot t) = (blockWords e buffer)[(slot t).val] := rfl
  rw [hget, Sha1.schedule, if_pos ht, ← getElem_blockWords e hbuffer ht]
  simp only [hslot]

/-- A turn replaces the word that is needed no more by the next one. -/
theorem scheduled_turn
    {block : Bytes} {i : Nat} {w : Vector UInt32 16}
    (h : Scheduled block i w) :
    Scheduled block (i + 1) (scheduleTurn i w) ∧
      (scheduleTurn i w).get (slot i) = Sha1.schedule block i := by
  have h : ∀ t, t < max i 16 → max i 16 ≤ t + 16 → w[slot t] = Sha1.schedule block t := h
  by_cases hi : 16 ≤ i
  · have hslot : ∀ back forth, back + forth = 16 → w[slot (i + forth)] = w[slot (i - back)] := by
      intro back forth hsum
      congr 1
      apply Fin.ext
      rw [slot_val, slot_val]
      omega
    have hword : ROTATE_LEFT32 (w[slot (i + 13)] ^^^ w[slot (i + 8)] ^^^ w[slot (i + 2)] ^^^
        w[slot i]) 1 = Sha1.schedule block i := by
      rw [hslot 3 13 rfl, hslot 8 8 rfl, hslot 14 2 rfl,
        (by exact hslot 16 0 rfl : w[slot i] = w[slot (i - 16)]), h (i - 3) (by omega) (by omega),
        h (i - 8) (by omega) (by omega), h (i - 14) (by omega) (by omega),
        h (i - 16) (by omega) (by omega), rotate_eq, Sha1.schedule.eq_1 block i,
        if_neg (by omega)]
    have hnew : (scheduleTurn i w)[slot i] = Sha1.schedule block i := by
      rw [scheduleTurn, if_pos hi, hword]
      exact Vector.getElem_set_self _
    refine ⟨?_, hnew⟩
    intro t ht hrecent
    rcases Nat.lt_or_ge t i with hlt | hge
    · have hne : (slot i).val ≠ (slot t).val := by
        rw [slot_val, slot_val]
        omega
      rw [← h t (by omega) (by omega), scheduleTurn, if_pos hi]
      exact Vector.getElem_set_ne _ _ hne
    · obtain rfl : t = i := by omega
      exact hnew
  · rw [scheduleTurn, if_neg hi]
    refine ⟨?_, h i (by omega) (by omega)⟩
    intro t ht hrecent
    exact h t (by omega) (by omega)

/-- The loop is the rounds of the standard. -/
theorem turns_spec
    {buffer : Bytes}
    (e : Endian)
    (hbuffer : buffer.length = 64)
    (s : Sha1.Words) (n : Nat) :
    (turns n (registers s) (blockWords e buffer)).1 =
        registers (Sha1.rounds (Sha1.schedule buffer) n s) ∧
      Scheduled buffer n (turns n (registers s) (blockWords e buffer)).2 := by
  induction n with
  | zero =>
      exact ⟨rfl, scheduled_start e hbuffer⟩
  | succ n ih =>
      obtain ⟨hblks, hwords⟩ := ih
      obtain ⟨hnext, hword⟩ := scheduled_turn hwords
      have hword : (scheduleTurn n (turns n (registers s) (blockWords e buffer)).2)[slot n] =
          Sha1.schedule buffer n := hword
      refine ⟨?_, hnext⟩
      rw [turns]
      dsimp only
      rw [hword, hblks, roundTurn_eq]
      rfl

/-- Whatever the words of the block were left as, the hash is that of the standard. -/
theorem SHA1_ProcessBlock_spec
    {buffer : Bytes}
    (e : Endian)
    (hbuffer : buffer.length = 64)
    (s : Sha1.Words) :
    (SHA1_ProcessBlock e (registers s) buffer).1 = registers (Sha1.compress s buffer) := by
  rw [SHA1_ProcessBlock]
  dsimp only
  rw [(turns_spec e hbuffer s 80).1]
  rw [Sha1.compress]
  generalize Sha1.rounds (Sha1.schedule buffer) 80 s = s'
  have hadd : (Sha1.Words.add s' s) = Sha1.Words.add s s' := by
    simp only [Sha1.Words.add, UInt32.add_comm]
  rw [hadd]
  ext i hi
  rw [Vector.getElem_zipWith]
  interval_cases i
  · rfl
  · rfl
  · rfl
  · rfl
  · rfl

/-! ### The message so far -/

/-- The context stands for a message: its whole blocks are in the hash, the rest in the block. -/
def Absorbed (ctx : SHA_CTX) (message : Bytes) : Prop :=
  ∃ whole, message = whole ++ ctx.buffer.take ctx.size ∧ 64 ∣ whole.length ∧
    ctx.h = registers (Sha1.hashBlocks Sha1.initial whole) ∧
    ctx.total = UInt32.ofNat message.length

theorem absorbed_init
    (buffer : Bytes) (h : buffer.length = 64) :
    Absorbed (SHA1_Init buffer h) [] := by
  refine ⟨[], rfl, by decide, ?_, rfl⟩
  rw [Sha1.hashBlocks]
  rfl

/-- A turn that fills the block. -/
theorem fill_full
    {e : Endian} {ctx : SHA_CTX} {data : Bytes}
    (h : ctx.size + ctx.room data = 64) :
    (ctx.fill e data).h = (SHA1_ProcessBlock e ctx.h (ctx.copied data)).1 ∧
      (ctx.fill e data).size = 0 ∧
      (ctx.fill e data).total = ctx.total + UInt32.ofNat (ctx.room data) := by
  rw [SHA_CTX.fill, dif_pos h]
  exact ⟨rfl, rfl, rfl⟩

/-- A turn that leaves room in the block. -/
theorem fill_part
    {e : Endian} {ctx : SHA_CTX} {data : Bytes}
    (h : ctx.size + ctx.room data ≠ 64) :
    (ctx.fill e data).h = ctx.h ∧ (ctx.fill e data).buffer = ctx.copied data ∧
      (ctx.fill e data).size = ctx.size + ctx.room data ∧
      (ctx.fill e data).total = ctx.total + UInt32.ofNat (ctx.room data) := by
  rw [SHA_CTX.fill, dif_neg h]
  exact ⟨rfl, rfl, rfl, rfl⟩

theorem absorbed_fill
    {ctx : SHA_CTX} {message : Bytes}
    (e : Endian) (data : Bytes)
    (h : Absorbed ctx message) :
    Absorbed (ctx.fill e data) (message ++ data.take (ctx.room data)) := by
  obtain ⟨whole, hmessage, hwhole, hhash, htotal⟩ := h
  have hlength := ctx.buffer_length
  have hsize := ctx.size_lt
  have hroom : (data.take (ctx.room data)).length = ctx.room data := by
    rw [List.length_take, SHA_CTX.room]
    omega
  have hcount : ctx.total + UInt32.ofNat (ctx.room data) =
      UInt32.ofNat (message ++ data.take (ctx.room data)).length := by
    rw [htotal, List.length_append, hroom, UInt32.ofNat_add]
  have htaken : (ctx.copied data).take (ctx.size + ctx.room data) =
      ctx.buffer.take ctx.size ++ data.take (ctx.room data) := by
    refine List.take_left' ?_
    rw [List.length_append, List.length_take, hroom]
    omega
  by_cases hfull : ctx.size + ctx.room data = 64
  · -- the bytes fill the block, and the block goes into the hash
    obtain ⟨hh, hzero, htotal'⟩ := fill_full (e := e) hfull
    have hblock : ctx.copied data = ctx.buffer.take ctx.size ++ data.take (ctx.room data) := by
      rw [← htaken, hfull, List.take_of_length_le (le_of_eq (ctx.copied_length data))]
    refine ⟨whole ++ ctx.copied data, ?_, ?_, ?_, htotal'.trans hcount⟩
    · rw [hzero, List.take_zero, List.append_nil, hblock, hmessage, List.append_assoc]
    · rw [List.length_append, ctx.copied_length data]
      exact Nat.dvd_add hwhole (Nat.dvd_refl _)
    · rw [hh, hhash, SHA1_ProcessBlock_spec e (ctx.copied_length data),
        Sha1.hashBlocks_append hwhole, Sha1.hashBlocks_block (ctx.copied_length data)]
  · obtain ⟨hh, hbuffer, hsize', htotal'⟩ := fill_part (e := e) hfull
    refine ⟨whole, ?_, hwhole, hh.trans hhash, htotal'.trans hcount⟩
    rw [hbuffer, hsize', htaken, hmessage, List.append_assoc]

theorem absorbed_update
    {ctx : SHA_CTX} {message : Bytes}
    (e : Endian) (data : Bytes)
    (h : Absorbed ctx message) :
    Absorbed (SHA1_Update e ctx data) (message ++ data) := by
  induction hn : data.length using Nat.strongRecOn generalizing ctx message data with
  | ind n ih =>
      rw [SHA1_Update]
      by_cases hdata : data = []
      · rw [if_pos hdata, hdata, List.append_nil]
        exact h
      · have hpos := List.length_pos_of_ne_nil hdata
        have hsize := ctx.size_lt
        have hroom : 0 < ctx.room data := by
          rw [SHA_CTX.room]
          omega
        rw [if_neg hdata]
        have hnext := ih (data.drop (ctx.room data)).length
          (by rw [List.length_drop]; omega) (data.drop (ctx.room data)) (absorbed_fill e data h) rfl
        rw [List.append_assoc, List.take_append_drop] at hnext
        exact hnext

/-- Pieces one after the other are the message that they make up. -/
theorem absorbed_pieces
    {ctx : SHA_CTX} {message : Bytes}
    (e : Endian) (pieces : List Bytes)
    (h : Absorbed ctx message) :
    Absorbed (pieces.foldl (SHA1_Update e) ctx) (message ++ pieces.flatten) := by
  induction pieces generalizing ctx message with
  | nil =>
      rw [List.flatten_nil, List.append_nil]
      exact h
  | cons piece pieces ih =>
      rw [List.foldl_cons, List.flatten_cons, ← List.append_assoc]
      exact ih (absorbed_update e piece h)

/-! ### The padding -/

/-- What `SHA1_Final` fills the block up with. -/
theorem take_pad
    {n : Nat}
    (hpos : 0 < n)
    (h : n ≤ 64) :
    pad.take n = 0x80 :: List.replicate (n - 1) 0 := by
  obtain ⟨m, rfl⟩ : ∃ m, n = m + 1 := ⟨n - 1, by omega⟩
  rw [pad, List.take_succ_cons, List.take_replicate, Nat.add_sub_cancel,
    Nat.min_eq_left (by omega)]

/-- The length in bits, of which the context counts 32 bits. -/
theorem lengthBytes_eq
    {n : Nat}
    (h : 8 * n < 4294967296) :
    wordBytes ((UInt32.ofNat n * 8).toUInt64 >>> 32).toUInt32 ++
      wordBytes (UInt32.ofNat n * 8).toUInt64.toUInt32 = bigEndian 8 (8 * n) := by
  have hn : (UInt32.ofNat n).toNat = n := UInt32.toNat_ofNat_of_lt' (by
    have : UInt32.size = 4294967296 := rfl
    omega)
  have htotal : (UInt32.ofNat n * 8).toNat = 8 * n := by
    rw [UInt32.toNat_mul, hn]
    simp only [UInt32.reduceToNat]
    rw [Nat.mod_eq_of_lt (by omega), Nat.mul_comm]
  have hhigh : ((UInt32.ofNat n * 8).toUInt64 >>> 32).toUInt32.toNat = 8 * n / 256 ^ 4 := by
    rw [UInt64.toNat_toUInt32, UInt64.toNat_shiftRight, UInt32.toNat_toUInt64, htotal,
      Nat.shiftRight_eq_div_pow]
    simp only [UInt64.reduceToNat, Nat.reduceMod, Nat.reducePow]
    omega
  have hlow : (UInt32.ofNat n * 8).toUInt64.toUInt32.toNat = 8 * n := by
    rw [UInt64.toNat_toUInt32, UInt32.toNat_toUInt64, htotal, Nat.mod_eq_of_lt h]
  rw [wordBytes, wordBytes, hhigh, hlow]
  exact (bigEndian_append 4 4 (8 * n)).symm

theorem bytes_registers
    (e : Endian) (s : Sha1.Words) :
    ((registers s).toList.map (htobe32 e)).flatMap (store32 e) = s.bytes := by
  have hlist : (registers s).toList = [s.a, s.b, s.c, s.d, s.e] := rfl
  rw [hlist]
  simp only [List.map_cons, List.map_nil, List.flatMap_cons, List.flatMap_nil, store32_htobe32,
    List.append_nil, Sha1.Words.bytes, List.append_assoc]

/-- With the padding the block lacks nothing but the length. -/
theorem SHA1_Final_spec
    {ctx : SHA_CTX} {message : Bytes}
    (e : Endian)
    (h : Absorbed ctx message)
    (hsmall : message.length < 2 ^ 29) :
    SHA1_Final e ctx = Sha1.digest message := by
  obtain ⟨whole, hmessage, hwhole, -, htotal⟩ := id h
  have hbuffer := ctx.buffer_length
  have hsize := ctx.size_lt
  have hlength : message.length = whole.length + ctx.size := by
    rw [hmessage, List.length_append, List.length_take, hbuffer]
    omega
  set amount := if ctx.size < 56 then 56 - ctx.size else 64 + 56 - ctx.size with hamount
  have hbounds : 0 < amount ∧ amount ≤ 64 ∧ amount - 1 = (119 - message.length % 64) % 64 ∧
      (message.length + amount) % 64 = 56 := by
    rw [hamount]
    split_ifs <;> omega
  have hpadded := absorbed_update e (pad.take amount) h
  set ctx' := SHA1_Update e ctx (pad.take amount) with hctx'
  obtain ⟨whole', hmessage', hwhole', hhash', -⟩ := hpadded
  have hbuffer' := ctx'.buffer_length
  have hsize' : ctx'.size = 56 := by
    have hlength' := congrArg List.length hmessage'
    have hlt := ctx'.size_lt
    have hpad : pad.length = 64 := rfl
    rw [List.length_append, List.length_append, List.length_take, List.length_take, hpad,
      hbuffer'] at hlength'
    omega
  have hblock : (ctx'.buffer.take 56 ++ bigEndian 8 (8 * message.length)).length = 64 := by
    rw [List.length_append, List.length_take, hbuffer', bigEndian_length]
    rfl
  have hwholeblock : whole' ++ (ctx'.buffer.take 56 ++ bigEndian 8 (8 * message.length)) =
      message ++ Sha1.padding message.length := by
    rw [← List.append_assoc, ← hsize', ← hmessage', take_pad hbounds.1 hbounds.2.1,
      hbounds.2.2.1, Sha1.padding, List.append_assoc]
  rw [SHA1_Final]
  simp only [store32_htobe32]
  rw [← hamount, ← hctx', htotal, List.append_assoc, lengthBytes_eq (by omega), hhash',
    SHA1_ProcessBlock_spec e hblock, bytes_registers, Sha1.digest, ← hwholeblock,
    Sha1.hashBlocks_append hwhole', Sha1.hashBlocks_block hblock]

/--
The digest of a message that was given in pieces, of whatever lengths, is that of
the standard, on a context whose block held anything before.
-/
theorem SHA1_pieces
    (e : Endian) (buffer : Bytes) (pieces : List Bytes)
    (hbuffer : buffer.length = 64)
    (hsmall : pieces.flatten.length < 2 ^ 29) :
    SHA1_Final e (pieces.foldl (SHA1_Update e) (SHA1_Init buffer hbuffer)) =
      Sha1.digest pieces.flatten := by
  have h := absorbed_pieces e pieces (absorbed_init buffer hbuffer)
  rw [List.nil_append] at h
  exact SHA1_Final_spec e h hsmall

theorem SHA1_pieces_sample :
    SHA1_Final .little ([[97], [], [98, 99]].foldl (SHA1_Update .little)
      (SHA1_Init (List.replicate 64 0) (by decide))) = Sha1.digest [97, 98, 99] :=
  SHA1_pieces .little (List.replicate 64 0) [[97], [], [98, 99]] (by decide) (by decide)

end SHA1
end PahoMqtt
