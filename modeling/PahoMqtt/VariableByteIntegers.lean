import PahoMqtt.Lib.VarInts
import PahoMqtt.Bytes

/-!
# Variable byte integers

What `MQTTPacket_encode` writes is the minimal spelling of the number, and
`MQTTPacket_decodeBuf` reads a spelling of at most four bytes back.  Four
continuation bytes end its loop as well: it then gives their value and counts
a fifth byte that it never looked at.
-/

namespace PahoMqtt
namespace MQTTPacket

open Lib

theorem ofNat_toNat
    {n : Nat}
    (hn : n < 256) :
    (UInt8.ofNat n).toNat = n := by
  simp only [UInt8.toNat_ofNat']
  omega

/-! ### Writing -/

theorem encode_isVarInt
    (n : Nat) :
    IsVarInt (encode n) n := by
  induction n using Nat.strongRecOn with
  | ind n ih =>
      by_cases hn : n < 128
      · have hb : (UInt8.ofNat n).toNat = n := ofNat_toNat (by omega)
        have hlast := IsVarInt.last (b := UInt8.ofNat n) (by omega)
        rw [encode_of_lt hn]
        rwa [hb] at hlast
      · have hb : (UInt8.ofNat (n % 128 + 128)).toNat = n % 128 + 128 := ofNat_toNat (by omega)
        have hmore := IsVarInt.more (b := UInt8.ofNat (n % 128 + 128)) (by omega)
          (ih (n / 128) (by omega))
        rw [encode_of_ge (by omega)]
        convert hmore using 1
        omega

theorem encode_length_le_iff
    (k n : Nat) :
    (encode n).length ≤ k + 1 ↔ n < 128 ^ (k + 1) := by
  induction k generalizing n with
  | zero =>
      by_cases hn : n < 128
      · simp [encode_of_lt hn, hn]
      · have hpos := (encode_isVarInt (n / 128)).length_pos
        rw [encode_of_ge (by omega), List.length_cons]
        omega
  | succ k ih =>
      by_cases hn : n < 128
      · have hpow : 128 ≤ 128 ^ (k + 1 + 1) := Nat.le_self_pow (by omega) 128
        simp only [encode_of_lt hn, List.length_singleton]
        omega
      · have hrest := ih (n / 128)
        rw [encode_of_ge (by omega), List.length_cons, Nat.add_le_add_iff_right, hrest,
          pow_succ 128 (k + 1), Nat.div_lt_iff_lt_mul (by omega)]

theorem encode_minimal
    (n : Nat) :
    MinimalVarInt (encode n) n := by
  have hvar := encode_isVarInt n
  refine hvar.minimal ?_
  by_contra hnot
  obtain ⟨k, hk⟩ : ∃ k, (encode n).length = k + 2 :=
    ⟨(encode n).length - 2, by have := hvar.length_pos; omega⟩
  rw [hk, not_or, Nat.add_succ_sub_one, Nat.not_le] at hnot
  have hshort := (encode_length_le_iff k n).mpr hnot.2
  omega

/-! ### Reading -/

/-- The bytes that `MQTTPacket_decodeBuf` takes for a number. -/
inductive TakenInt : Bytes → Nat → Prop where
  | wellFormed {lead : Bytes} {n : Nat} (h : IsVarInt lead n) (hlen : lead.length ≤ 4) :
      TakenInt lead n
  | overlong {lead : Bytes} (fifth : UInt8) (hlen : lead.length = 4)
      (hmore : ∀ b ∈ lead, 128 ≤ b.toNat) : TakenInt (lead ++ [fifth]) (varIntDigits lead)

theorem TakenInt.lt
    {lead : Bytes} {n : Nat}
    (h : TakenInt lead n) :
    n < 268435456 := by
  cases h with
  | wellFormed h hlen =>
      calc n < 128 ^ lead.length := h.lt_pow
        _ ≤ 128 ^ 4 := Nat.pow_le_pow_right (by omega) hlen
        _ = 268435456 := by norm_num
  | @overlong lead _ hlen _ =>
      have hlt := varIntDigits_lt lead
      rw [hlen] at hlt
      omega

theorem TakenInt.length_pos
    {lead : Bytes} {n : Nat}
    (h : TakenInt lead n) :
    0 < lead.length := by
  cases h with
  | wellFormed h _ => exact h.length_pos
  | overlong => simp

/-- The next byte of a section is the byte at its offset. -/
theorem getElem?_of_drop
    {buf rest : Bytes} {pos : Nat} {b : UInt8}
    (h : buf.drop pos = b :: rest) :
    buf[pos]? = some b ∧ buf.drop (pos + 1) = rest := by
  refine ⟨?_, ?_⟩
  · have := congrArg (·[0]?) h
    simpa using this
  · rw [← List.drop_drop, h, List.drop_one, List.tail_cons]

theorem drop_of_getElem?
    {buf : Bytes} {pos : Nat} {b : UInt8}
    (h : buf[pos]? = some b) :
    buf.drop pos = b :: buf.drop (pos + 1) := by
  obtain ⟨hlt, rfl⟩ := List.getElem?_eq_some_iff.mp h
  exact List.drop_eq_getElem_cons hlt

theorem continues_iff
    (b : UInt8) :
    b.toNat / 128 = 1 ↔ 128 ≤ b.toNat := by
  have := b.toNat_lt
  omega

/-- A spelling is read as far as its last byte. -/
theorem VBIdecode_isVarInt
    {lead : Bytes} {n : Nat}
    (h : IsVarInt lead n)
    {buf rest : Bytes} {tries pos : Nat} (multiplier len value : Nat)
    (hdrop : buf.drop pos = lead ++ rest)
    (htries : lead.length ≤ tries) :
    VBIdecode buf tries pos multiplier len value =
      .ok (len + lead.length, value + n * multiplier) := by
  induction h generalizing tries pos multiplier len value with
  | @last b hlast =>
      obtain ⟨tries, rfl⟩ : ∃ k, tries = k + 1 := ⟨tries - 1, by simp at htries; omega⟩
      have hmod : b.toNat % 128 = b.toNat := by omega
      rw [VBIdecode, (getElem?_of_drop hdrop).1]
      simp only [continues_iff, Nat.not_le.mpr hlast, if_false, hmod, List.length_singleton]
  | @more b bytes n hmore htail ih =>
      obtain ⟨tries, rfl⟩ : ∃ k, tries = k + 1 := ⟨tries - 1, by simp at htries; omega⟩
      obtain ⟨hb, hrest⟩ := getElem?_of_drop hdrop
      rw [VBIdecode, hb]
      simp only [continues_iff, hmore, if_true]
      rw [ih (multiplier * 128) (len + 1) _ hrest (by simpa using htries)]
      congr 2
      · simp only [List.length_cons]
        omega
      · ring

theorem VBIdecode_continues
    {lead : Bytes}
    (hmore : ∀ b ∈ lead, 128 ≤ b.toNat)
    {buf rest : Bytes} {pos : Nat} (multiplier len value : Nat)
    (hdrop : buf.drop pos = lead ++ rest) :
    VBIdecode buf lead.length pos multiplier len value =
      .ok (len + lead.length + 1, value + varIntDigits lead * multiplier) := by
  induction lead generalizing pos multiplier len value with
  | nil =>
      simp [VBIdecode, varIntDigits]
  | cons b lead ih =>
      obtain ⟨hb, hrest⟩ := getElem?_of_drop hdrop
      rw [List.length_cons, VBIdecode, hb]
      simp only [continues_iff, hmore b List.mem_cons_self, if_true]
      rw [ih (fun c hc => hmore c (List.mem_cons_of_mem b hc)) (multiplier * 128) (len + 1) _ hrest]
      congr 2
      · omega
      · simp only [varIntDigits]
        ring

/-- What the loop takes is a spelling, or only continuation bytes and one more. -/
theorem VBIdecode_ok
    {buf : Bytes} {tries pos multiplier len value len' value' : Nat}
    (h : VBIdecode buf tries pos multiplier len value = .ok (len', value')) :
    (∃ lead rest n, buf.drop pos = lead ++ rest ∧ IsVarInt lead n ∧ lead.length ≤ tries ∧
      len' = len + lead.length) ∨
    ∃ lead rest, buf.drop pos = lead ++ rest ∧ lead.length = tries ∧
      (∀ b ∈ lead, 128 ≤ b.toNat) ∧ len' = len + tries + 1 := by
  induction tries generalizing pos multiplier len value with
  | zero =>
      simp only [VBIdecode, Except.ok.injEq, Prod.mk.injEq] at h
      exact .inr ⟨[], buf.drop pos, rfl, rfl, by simp, by omega⟩
  | succ tries ih =>
      rw [VBIdecode] at h
      cases hb : buf[pos]? with
      | none =>
          simp [hb] at h
      | some b =>
          have hdrop := drop_of_getElem? hb
          simp only [hb] at h
          split at h
          next hmore =>
            rw [continues_iff] at hmore
            rcases ih h with ⟨lead, rest, n, hrest, hvar, htries, hlen⟩ |
              ⟨lead, rest, hrest, htries, hall, hlen⟩
            · exact .inl ⟨b :: lead, rest, _, by rw [hdrop, hrest]; rfl, .more hmore hvar,
                by simp only [List.length_cons]; omega, by simp only [List.length_cons]; omega⟩
            · exact .inr ⟨b :: lead, rest, by rw [hdrop, hrest]; rfl, by simp [htries],
                List.forall_mem_cons.mpr ⟨hmore, hall⟩, by omega⟩
          next hlast =>
            rw [continues_iff, Nat.not_le] at hlast
            simp only [Except.ok.injEq, Prod.mk.injEq] at h
            exact .inl ⟨[b], buf.drop (pos + 1), _, hdrop, .last hlast, by simp, by simp; omega⟩

theorem decodeBuf_taken
    {buf lead rest : Bytes} {pos n : Nat}
    (h : TakenInt lead n)
    (hdrop : buf.drop pos = lead ++ rest) :
    decodeBuf buf pos = .ok (lead.length, n) := by
  cases h with
  | wellFormed hvar hlen =>
      rw [decodeBuf, VBIdecode_isVarInt hvar 1 0 0 hdrop hlen]
      simp
  | @overlong lead fifth hlen hmore =>
      rw [List.append_assoc] at hdrop
      rw [decodeBuf, ← hlen, VBIdecode_continues hmore 1 0 0 hdrop]
      simp

/-- What is decoded inside the buffer was taken from it. -/
theorem taken_of_decodeBuf
    {buf : Bytes} {pos len n : Nat}
    (h : decodeBuf buf pos = .ok (len, n))
    (hinside : pos + len ≤ buf.length) :
    ∃ lead rest, buf.drop pos = lead ++ rest ∧ TakenInt lead n ∧ lead.length = len := by
  have hsame : ∀ {lead rest m}, buf.drop pos = lead ++ rest → TakenInt lead m →
      lead.length = len → ∃ lead rest, buf.drop pos = lead ++ rest ∧ TakenInt lead n ∧
        lead.length = len := by
    intro lead rest m hdrop htaken hlen
    have hread := decodeBuf_taken htaken hdrop
    rw [h] at hread
    cases hread
    exact ⟨lead, rest, hdrop, htaken, rfl⟩
  rcases VBIdecode_ok h with ⟨lead, rest, m, hdrop, hvar, htries, hlen⟩ |
    ⟨lead, rest, hdrop, hfour, hmore, hlen⟩
  · exact hsame hdrop (.wellFormed hvar htries) (by omega)
  · cases rest with
    | nil =>
        have := congrArg List.length hdrop
        simp only [List.length_drop, List.append_nil, hfour] at this
        omega
    | cons fifth rest =>
        have hsplit : buf.drop pos = (lead ++ [fifth]) ++ rest := by
          simpa using hdrop
        exact hsame hsplit (.overlong fifth hfour hmore) (by simp [hfour, hlen])

theorem decodeBuf_ne_malformed
    (buf : Bytes) (pos : Nat) :
    decodeBuf buf pos ≠ .error .malformed := by
  have hloop : ∀ tries pos multiplier len value,
      VBIdecode buf tries pos multiplier len value ≠ .error .malformed := by
    intro tries
    induction tries with
    | zero =>
        intro pos multiplier len value h
        cases h
    | succ tries ih =>
        intro pos multiplier len value h
        rw [VBIdecode] at h
        split at h
        · cases h
        · split at h
          · exact ih _ _ _ _ h
          · cases h
  exact hloop 4 pos 1 0 0

end MQTTPacket
end PahoMqtt
