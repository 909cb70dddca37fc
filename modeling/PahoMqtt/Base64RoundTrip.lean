import PahoMqtt.Base64

/-!
# Encoding and decoding in Base64

Each loop is followed twice: once where the output fits into the buffer, which then
holds the whole of it, and once for a buffer of any length, which is never left.
-/

namespace PahoMqtt
namespace Base64

open Lib

/-! ### The encoder -/

theorem encode_table
    {c : UInt8}
    (h : c.toNat ≤ 64) :
    BASE64_ENCODE_TABLE[c.toNat]? = some (base64Digit c.toNat) := by
  have hall : ∀ n ≤ 64, BASE64_ENCODE_TABLE[n]? = some (base64Digit n) := by
    decide +kernel
  exact hall _ h

theorem encodeChars_wrote
    {cs : List UInt8} {o : Output}
    (hcs : ∀ c ∈ cs, c.toNat ≤ 64)
    (hroom : o.pos + cs.length ≤ o.buffer.length) :
    ∃ o', encodeChars cs o = .ok o' ∧ o'.out_count = o.out_count ∧
      o.Wrote (cs.map fun c => base64Digit c.toNat) o' := by
  induction cs generalizing o with
  | nil =>
      exact ⟨o, rfl, rfl, .refl o⟩
  | cons c cs ih =>
      rw [List.forall_mem_cons] at hcs
      rw [List.length_cons] at hroom
      have hpos : o.pos < o.buffer.length := by omega
      have hwrote := Output.Wrote.advance hpos (base64Digit c.toNat) o.out_count
      have hlength := hwrote.length
      obtain ⟨o', hrun, hcount, hrest⟩ := ih (o := ⟨_, _, o.out_count⟩) hcs.2 (by
        rw [hlength]
        dsimp only
        omega)
      refine ⟨o', ?_, hcount, hwrote.trans hrest⟩
      rw [encodeChars, encode_table hcs.1]
      dsimp only
      rw [Output.put_ok hpos]
      exact hrun

/-- The values of a turn are the digits of the text. -/
structure Quantum (c : List UInt8) (text : Bytes) : Prop where
  four : c.length = 4
  digits : ∀ v ∈ c, v.toNat ≤ 64
  text : (c.map fun v => base64Digit v.toNat) = text

theorem quantum_one
    (i : UInt8) :
    Quantum [(i &&& ~~~0x3) >>> 2, (i &&& 0x3) <<< 4, 64, 64] (base64Text [i]) where
  four := rfl
  digits := by
    have := i.toNat_lt
    simp only [List.forall_mem_cons, toNat_high_six, toNat_low_two, UInt8.reduceToNat,
      List.not_mem_nil, false_implies, implies_true, and_true]
    omega
  text := by
    have := i.toNat_lt
    simp only [List.map_cons, List.map_nil, toNat_high_six, toNat_low_two, UInt8.reduceToNat,
      base64Text, base64Digit_pad]
    rw [(by omega : i.toNat * 16 / 64 = i.toNat / 4),
      (by omega : i.toNat * 16 % 64 = i.toNat % 4 * 16)]

theorem quantum_two
    (i j : UInt8) :
    Quantum
      [(i &&& ~~~0x3) >>> 2, (i &&& 0x3) <<< 4 ||| (j &&& ~~~0xF) >>> 4, (j &&& 0xF) <<< 2, 64]
      (base64Text [i, j]) where
  four := rfl
  digits := by
    have := i.toNat_lt
    have := j.toNat_lt
    simp only [List.forall_mem_cons, toNat_high_six, toNat_second, toNat_low_four,
      UInt8.reduceToNat, List.not_mem_nil, false_implies, implies_true, and_true]
    omega
  text := by
    have := i.toNat_lt
    have := j.toNat_lt
    simp only [List.map_cons, List.map_nil, toNat_high_six, toNat_second, toNat_low_four,
      UInt8.reduceToNat, base64Text, base64Digit_pad]
    rw [(by omega : (i.toNat * 1024 + j.toNat * 4) / 4096 = i.toNat / 4),
      (by omega : (i.toNat * 1024 + j.toNat * 4) / 64 % 64 = i.toNat % 4 * 16 + j.toNat / 16),
      (by omega : (i.toNat * 1024 + j.toNat * 4) % 64 = j.toNat % 16 * 4)]

/-- The text of three bytes without what follows it. -/
theorem quantum_three
    (i j k : UInt8) :
    Quantum
      [(i &&& ~~~0x3) >>> 2, (i &&& 0x3) <<< 4 ||| (j &&& ~~~0xF) >>> 4,
        (j &&& 0xF) <<< 2 ||| (k &&& ~~~0x3F) >>> 6, k &&& 0x3F]
      (base64Text [i, j, k]) where
  four := rfl
  digits := by
    have := i.toNat_lt
    have := j.toNat_lt
    have := k.toNat_lt
    simp only [List.forall_mem_cons, toNat_high_six, toNat_second, toNat_third, toNat_low_six,
      List.not_mem_nil, false_implies, implies_true, and_true]
    omega
  text := by
    have := i.toNat_lt
    have := j.toNat_lt
    have := k.toNat_lt
    simp only [List.map_cons, List.map_nil, toNat_high_six, toNat_second, toNat_third,
      toNat_low_six, base64Text]
    rw [(by omega : (i.toNat * 65536 + j.toNat * 256 + k.toNat) / 262144 = i.toNat / 4),
      (by omega : (i.toNat * 65536 + j.toNat * 256 + k.toNat) / 4096 % 64 =
        i.toNat % 4 * 16 + j.toNat / 16),
      (by omega : (i.toNat * 65536 + j.toNat * 256 + k.toNat) / 64 % 64 =
        j.toNat % 16 * 4 + k.toNat / 64),
      (by omega : (i.toNat * 65536 + j.toNat * 256 + k.toNat) % 64 = k.toNat % 64)]

theorem base64Text_three
    (a b c : UInt8) (rest : Bytes) :
    base64Text (a :: b :: c :: rest) = base64Text [a, b, c] ++ base64Text rest := rfl

theorem toNat_add_four
    {n : UInt32}
    (h : n.toNat + 4 < 4294967296) :
    (n + 4).toNat = n.toNat + 4 := by
  rw [UInt32.toNat_add]
  exact Nat.mod_eq_of_lt h

/-- A turn whose characters fit. -/
theorem encodeQuantum_fits
    {out_len : UInt32} {c : List UInt8} {text : Bytes} {o : Output}
    (hready : o.Ready out_len)
    (hc : Quantum c text)
    (hfits : o.pos + 4 ≤ out_len.toNat) :
    ∃ o', encodeQuantum out_len c o = .ok o' ∧ o'.Ready out_len ∧ o.Wrote text o' := by
  have hlt := out_len.toNat_lt
  have hcount : (o.out_count + 4).toNat = o.out_count.toNat + 4 := toNat_add_four (by
    have := hready.pos
    omega)
  obtain ⟨o', hrun, hsame, hwrote⟩ := encodeChars_wrote
    (o := { o with out_count := o.out_count + 4 }) hc.digits (by
      rw [hc.four, hready.length]
      exact hfits)
  rw [hc.text] at hwrote
  refine ⟨o', ?_, ⟨hwrote.length.trans hready.length, ?_⟩, hwrote.length, hwrote.pos, hwrote.taken⟩
  · rw [encodeQuantum, if_pos]
    · exact hrun
    · rw [UInt32.le_iff_toNat_le, hcount, ← hready.pos]
      exact hfits
  · have hfour : text.length = 4 := by rw [← hc.text, List.length_map, hc.four]
    rw [hwrote.pos, hsame, hcount, hfour, hready.pos]

/-- A turn whose characters do not fit writes none of them. -/
theorem encodeQuantum_full
    {out_len : UInt32} {o : Output}
    (c : List UInt8)
    (hready : o.Ready out_len)
    (hsmall : o.out_count.toNat + 4 < 4294967296)
    (hfull : out_len.toNat < o.pos + 4) :
    ∃ o', encodeQuantum out_len c o = .ok o' ∧ o'.buffer = o.buffer ∧ out_len < o'.out_count := by
  have hlt : out_len < o.out_count + 4 := by
    rw [UInt32.lt_iff_toNat_lt, toNat_add_four hsmall, ← hready.pos]
    exact hfull
  refine ⟨{ o with out_count := o.out_count + 4 }, ?_, rfl, hlt⟩
  rw [encodeQuantum, if_neg (UInt32.not_le.mpr hlt)]

theorem encodeLoop_stop
    {out_len : UInt32} {o : Output}
    (h : ¬ o.out_count < out_len)
    (x : Bytes) :
    encodeLoop out_len x o = .ok o := by
  match x with
  | [] => rfl
  | [i] => rw [encodeLoop, if_neg h]
  | [i, j] => rw [encodeLoop, if_neg h]
  | i :: j :: k :: rest => rw [encodeLoop, if_neg h]

/-- A turn for what is left of the input, if that is not nothing. -/
theorem encodeLoop_fits
    {out_len : UInt32} {x : Bytes} {o : Output}
    (hready : o.Ready out_len)
    (hfits : o.pos + (base64Text x).length ≤ out_len.toNat) :
    ∃ o', encodeLoop out_len x o = .ok o' ∧ o'.Ready out_len ∧ o.Wrote (base64Text x) o' := by
  have hroom : 0 < (base64Text x).length → o.out_count < out_len := by
    intro hpos
    rw [UInt32.lt_iff_toNat_lt, ← hready.pos]
    omega
  induction x using base64Text.induct generalizing o with
  | case1 =>
      exact ⟨o, rfl, hready, .refl o⟩
  | case2 i =>
      rw [encodeLoop, if_pos (hroom (by simp [base64Text]))]
      exact encodeQuantum_fits hready (quantum_one i) (by simpa [base64Text] using hfits)
  | case3 i j =>
      rw [encodeLoop, if_pos (hroom (by simp [base64Text]))]
      exact encodeQuantum_fits hready (quantum_two i j) (by simpa [base64Text] using hfits)
  | case4 i j k rest ih =>
      rw [base64Text_three, List.length_append] at hfits hroom
      have hfour : (base64Text [i, j, k]).length = 4 := by simp [base64Text]
      obtain ⟨o', hturn, hready', hwrote⟩ :=
        encodeQuantum_fits hready (quantum_three i j k) (by omega)
      have hpos := hwrote.pos
      obtain ⟨o'', hrun, hready'', hwrote'⟩ := ih hready' (by omega) (by
        intro h
        rw [UInt32.lt_iff_toNat_lt, ← hready'.pos]
        omega)
      refine ⟨o'', ?_, hready'', ?_⟩
      · rw [encodeLoop, if_pos (hroom (by omega)), hturn]
        exact hrun
      · rw [base64Text_three]
        exact hwrote.trans hwrote'

/-- The output after a loop: no byte behind the buffer was written. -/
def Output.Bounded (out_len : UInt32) (o : Output) : Prop :=
  o.Ready out_len ∨ o.buffer.length = out_len.toNat ∧ out_len < o.out_count

theorem encodeQuantum_bounded
    {out_len : UInt32} {c : List UInt8} {text : Bytes} {o : Output}
    (hready : o.Ready out_len)
    (hc : Quantum c text)
    (hsmall : o.out_count.toNat + 4 < 4294967296) :
    ∃ o', encodeQuantum out_len c o = .ok o' ∧
      (o'.Ready out_len ∧ o'.pos = o.pos + 4 ∨
        o'.buffer.length = out_len.toNat ∧ out_len < o'.out_count) := by
  by_cases hfits : o.pos + 4 ≤ out_len.toNat
  · obtain ⟨o', hturn, hready', hwrote⟩ := encodeQuantum_fits hready hc hfits
    have hfour : text.length = 4 := by rw [← hc.text, List.length_map, hc.four]
    exact ⟨o', hturn, .inl ⟨hready', by rw [hwrote.pos, hfour]⟩⟩
  · obtain ⟨o', hturn, hbuffer, hlt⟩ := encodeQuantum_full c hready hsmall (by omega)
    exact ⟨o', hturn, .inr ⟨by rw [hbuffer, hready.length], hlt⟩⟩

/-- The text is short enough to be counted, or the buffer ends before the count does. -/
theorem encodeLoop_bounded
    {out_len : UInt32} {x : Bytes} {o : Output}
    (hready : o.Ready out_len)
    (hsmall : o.out_count.toNat + (base64Text x).length < 4294967296 ∨
      out_len.toNat + 4 ≤ 4294967296) :
    ∃ o', encodeLoop out_len x o = .ok o' ∧ o'.Bounded out_len := by
  by_cases hroom : o.out_count < out_len
  case neg => exact ⟨o, encodeLoop_stop hroom x, .inl hready⟩
  have hlt := UInt32.lt_iff_toNat_lt.mp hroom
  induction x using base64Text.induct generalizing o with
  | case1 =>
      exact ⟨o, rfl, .inl hready⟩
  | case2 i =>
      have hfour : (base64Text [i]).length = 4 := by simp [base64Text]
      obtain ⟨o', hturn, h⟩ := encodeQuantum_bounded hready (quantum_one i) (by omega)
      exact ⟨o', by rw [encodeLoop, if_pos hroom, hturn], h.imp_left And.left⟩
  | case3 i j =>
      have hfour : (base64Text [i, j]).length = 4 := by simp [base64Text]
      obtain ⟨o', hturn, h⟩ := encodeQuantum_bounded hready (quantum_two i j) (by omega)
      exact ⟨o', by rw [encodeLoop, if_pos hroom, hturn], h.imp_left And.left⟩
  | case4 i j k rest ih =>
      rw [base64Text_three, List.length_append] at hsmall
      have hfour : (base64Text [i, j, k]).length = 4 := by simp [base64Text]
      obtain ⟨o', hturn, h⟩ := encodeQuantum_bounded hready (quantum_three i j k) (by omega)
      rw [encodeLoop, if_pos hroom, hturn]
      by_cases hroom' : o'.out_count < out_len
      · rcases h with ⟨hready', hpos⟩ | ⟨_, hlt⟩
        · have := hready.pos
          have := hready'.pos
          exact ih hready' (by omega) hroom' (UInt32.lt_iff_toNat_lt.mp hroom')
        · exact absurd (UInt32.lt_trans hroom' hlt) (UInt32.lt_irrefl _)
      · exact ⟨o', encodeLoop_stop hroom' rest, h.imp_left And.left⟩

/-! ### The end of the output -/

theorem Output.Ready.finish
    {out_len : UInt32} {o : Output}
    (hready : o.Ready out_len)
    (hle : o.out_count ≤ out_len) :
    ∃ buffer, o.finish out_len = .ok (o.out_count, buffer) ∧
      buffer.length = out_len.toNat ∧ buffer.take o.pos = o.buffer.take o.pos := by
  rw [Output.finish, if_pos hle]
  by_cases hroom : o.out_count < out_len
  · refine ⟨o.buffer.set o.pos 0, ?_, ?_, List.take_set_of_le (Nat.le_refl _)⟩
    · rw [if_pos hroom, Output.put_ok (hready.room hroom)]
    · rw [List.length_set, hready.length]
  · exact ⟨o.buffer, by rw [if_neg hroom], hready.length, rfl⟩

theorem Output.Bounded.finish
    {out_len : UInt32} {o : Output}
    (h : o.Bounded out_len) :
    ∃ ret buffer, o.finish out_len = .ok (ret, buffer) ∧ buffer.length = out_len.toNat := by
  by_cases hle : o.out_count ≤ out_len
  · rcases h with hready | ⟨_, hlt⟩
    · obtain ⟨buffer, hfinish, hlength, _⟩ := hready.finish hle
      exact ⟨_, buffer, hfinish, hlength⟩
    · exact absurd hlt (UInt32.not_lt.mpr hle)
  · refine ⟨0, o.buffer, by rw [Output.finish, if_neg hle], ?_⟩
    rcases h with hready | ⟨hlength, _⟩
    · exact hready.length
    · exact hlength

/-! ### The decoder -/

theorem decode_digit
    (char : CharType)
    {n : Nat}
    (h : n ≤ 64) :
    decodeChar char (base64Digit n) = .ok (UInt8.ofNat n) := by
  have hall : ∀ n ≤ 64, decodeChar .signed (base64Digit n) = .ok (UInt8.ofNat n) ∧
      decodeChar .unsigned (base64Digit n) = .ok (UInt8.ofNat n) := by
    decide +kernel
  cases char with
  | signed => exact (hall n h).1
  | unsigned => exact (hall n h).2

theorem decode_pad
    (char : CharType) :
    decodeChar char base64Pad = .ok NV := by
  rw [← base64Digit_pad]
  exact decode_digit char (Nat.le_refl _)

/-- The byte that the values of its first and its second half were taken from. -/
theorem join_eq
    {high low b : UInt8} {m : Nat} (k : Nat)
    (hhigh : high.toNat = m * 2 ^ k)
    (hlow : low.toNat < 2 ^ k)
    (hb : b.toNat = high.toNat + low.toNat) :
    high ||| low = b := by
  rw [← UInt8.toNat_inj, toNat_or k hhigh hlow, hb]

theorem Output.Ready.advance
    {out_len : UInt32} {o : Output}
    (hready : o.Ready out_len)
    (hroom : o.out_count < out_len)
    (b : UInt8) :
    ({ o with buffer := o.buffer.set o.pos b } : Output).advance.Ready out_len ∧
      o.Wrote [b] ({ o with buffer := o.buffer.set o.pos b } : Output).advance := by
  refine ⟨⟨?_, ?_⟩, Output.Wrote.advance (hready.room hroom) b _⟩
  · rw [Output.advance, List.length_set, hready.length]
  · have hlt := UInt32.lt_iff_toNat_lt.mp hroom
    have hbound := out_len.toNat_lt
    have hcount : (o.out_count + 1).toNat = o.out_count.toNat + 1 := by
      rw [UInt32.toNat_add]
      exact Nat.mod_eq_of_lt (by
        rw [UInt32.toNat_one]
        omega)
    rw [Output.advance, hcount, hready.pos]

/-- A byte behind the pointer does not end what was written. -/
theorem Output.Ready.put
    {out_len : UInt32} {o : Output}
    (hready : o.Ready out_len)
    (b : UInt8) :
    ({ o with buffer := o.buffer.set o.pos b } : Output).Ready out_len :=
  ⟨by rw [List.length_set, hready.length], hready.pos⟩

/-- The first byte of a turn is written, and no other one that does not fit. -/
theorem decodeQuantum_bounded
    {out_len : UInt32} {o : Output}
    (c₀ c₁ c₂ c₃ : UInt8)
    (hready : o.Ready out_len)
    (hroom : o.out_count < out_len) :
    ∃ o' more, decodeQuantum out_len c₀ c₁ c₂ c₃ o = .ok (o', more) ∧ o'.Ready out_len := by
  rw [decodeQuantum, Output.put_ok (hready.room hroom)]
  have hfirst := (hready.advance hroom (c₀ <<< 2 ||| (c₁ &&& ~~~0xF) >>> 4)).1
  dsimp only
  generalize Output.advance _ = o₁ at hfirst ⊢
  by_cases hroom₁ : o₁.out_count < out_len
  · rw [if_pos hroom₁]
    by_cases hc₂ : c₂ < NV
    · rw [if_pos hc₂, Output.put_ok (hfirst.room hroom₁)]
      have hsecond := (hfirst.advance hroom₁ ((c₁ &&& 0xF) <<< 4 ||| (c₂ &&& ~~~0x3) >>> 2)).1
      dsimp only
      generalize Output.advance _ = o₂ at hsecond ⊢
      by_cases hroom₂ : o₂.out_count < out_len
      · rw [if_pos hroom₂]
        by_cases hc₃ : c₃ < NV
        · rw [if_pos hc₃, Output.put_ok (hsecond.room hroom₂)]
          exact ⟨_, true, rfl, (hsecond.advance hroom₂ _).1⟩
        · rw [if_neg hc₃, Output.put_ok (hsecond.room hroom₂)]
          exact ⟨_, false, rfl, hsecond.put _⟩
      · exact ⟨o₂, true, by rw [if_neg hroom₂], hsecond⟩
    · rw [if_neg hc₂, Output.put_ok (hfirst.room hroom₁)]
      exact ⟨_, false, rfl, hfirst.put _⟩
  · exact ⟨o₁, true, by rw [if_neg hroom₁], hfirst⟩

theorem decodeChar_error
    {char : CharType} {b : UInt8}
    (h : ∀ c, decodeChar char b ≠ .ok c) :
    decodeChar char b = .error .read := by
  rw [decodeChar] at h ⊢
  by_cases hneg : char.value b < 0
  · rw [if_pos hneg]
  · rw [if_neg hneg] at h ⊢
    cases hentry : BASE64_DECODE_TABLE[(char.value b).toNat]? with
    | none => rfl
    | some c =>
        rw [hentry] at h
        exact absurd rfl (h c)

/-- On any text, the only access outside is one of the table. -/
theorem decodeLoop_bounded
    {out_len : UInt32} {o : Output}
    (char : CharType) (text : Bytes)
    (hready : o.Ready out_len) :
    (∃ o', decodeLoop char out_len text o = .ok o' ∧ o'.Ready out_len) ∨
      decodeLoop char out_len text o = .error .read ∧
        ∃ b ∈ text, decodeChar char b = .error .read := by
  fun_induction decodeLoop char out_len text o with
  | case1 a b c d rest o hroom c₀ c₁ c₂ c₃ _ _ _ _ e hturn =>
      obtain ⟨_, _, hok, _⟩ := decodeQuantum_bounded c₀ c₁ c₂ c₃ hready hroom
      rw [hturn] at hok
      cases hok
  | case2 a b c d rest o hroom c₀ c₁ c₂ c₃ _ _ _ _ o₁ hturn ih =>
      obtain ⟨o₂, more, hok, hready'⟩ := decodeQuantum_bounded c₀ c₁ c₂ c₃ hready hroom
      rw [hturn] at hok
      cases hok
      exact (ih hready').imp_right (fun ⟨herror, byte, hmem, hbyte⟩ =>
        ⟨herror, byte, by simp [hmem], hbyte⟩)
  | case3 a b c d rest o hroom c₀ c₁ c₂ c₃ _ _ _ _ o₁ hturn =>
      obtain ⟨o₂, more, hok, hready'⟩ := decodeQuantum_bounded c₀ c₁ c₂ c₃ hready hroom
      rw [hturn] at hok
      cases hok
      exact .inl ⟨_, rfl, hready'⟩
  | case4 a b c d rest o hroom hnot =>
      -- one of the four characters has no entry
      right
      refine ⟨rfl, ?_⟩
      by_contra hall
      have hentry : ∀ byte ∈ [a, b, c, d], ∃ v, decodeChar char byte = .ok v := by
        intro byte hbyte
        by_contra hnone
        refine hall ⟨byte, ?_, decodeChar_error (not_exists.mp hnone)⟩
        have : byte ∈ [a, b, c, d] ++ rest := List.mem_append_left _ hbyte
        exact this
      obtain ⟨c₀, h₀⟩ := hentry a (by simp)
      obtain ⟨c₁, h₁⟩ := hentry b (by simp)
      obtain ⟨c₂, h₂⟩ := hentry c (by simp)
      obtain ⟨c₃, h₃⟩ := hentry d (by simp)
      exact hnot c₀ c₁ c₂ c₃ h₀ h₁ h₂ h₃
  | case5 a b c d rest o hroom =>
      exact .inl ⟨o, rfl, hready⟩
  | case6 text o hshort =>
      exact .inl ⟨o, rfl, hready⟩

section Quantum

variable {a b c c₀ c₁ c₂ c₃ : UInt8}

theorem join_first
    (h₀ : c₀.toNat = a.toNat / 4)
    (h₁ : c₁.toNat / 16 = a.toNat % 4) :
    c₀ <<< 2 ||| (c₁ &&& ~~~0xF) >>> 4 = a := by
  have ha := a.toNat_lt
  refine join_eq 2 (toNat_shift_two c₀) ?_ ?_
  · rw [toNat_high_four]
    omega
  · rw [toNat_shift_two, toNat_high_four]
    omega

theorem join_second
    (h₁ : c₁.toNat % 16 = b.toNat / 16)
    (h₂ : c₂.toNat / 4 = b.toNat % 16) :
    (c₁ &&& 0xF) <<< 4 ||| (c₂ &&& ~~~0x3) >>> 2 = b := by
  refine join_eq 4 (toNat_low_four_up c₁) ?_ ?_
  · rw [toNat_high_six]
    omega
  · rw [toNat_low_four_up, toNat_high_six]
    omega

theorem join_third
    (h₂ : c₂.toNat % 4 = c.toNat / 64)
    (h₃ : c₃.toNat = c.toNat % 64) :
    (c₂ &&& 0x3) <<< 6 ||| c₃ = c := by
  refine join_eq 6 (toNat_low_two_up c₂) ?_ ?_
  · omega
  · rw [toNat_low_two_up]
    omega

variable {out_len : UInt32} {o : Output}

theorem Output.Ready.room_of_pos
    (hready : o.Ready out_len)
    (h : o.pos < out_len.toNat) :
    o.out_count < out_len := by
  rw [UInt32.lt_iff_toNat_lt, ← hready.pos]
  exact h

/-- A turn for one byte: what is written behind it is not counted. -/
theorem decodeQuantum_one
    (hready : o.Ready out_len)
    (hfits : o.pos + 1 ≤ out_len.toNat)
    (h₀ : c₀.toNat = a.toNat / 4)
    (h₁ : c₁.toNat / 16 = a.toNat % 4) :
    ∃ o' more, decodeQuantum out_len c₀ c₁ NV NV o = .ok (o', more) ∧ o'.Ready out_len ∧
      o.Wrote [a] o' := by
  have hroom := hready.room_of_pos hfits
  obtain ⟨hfirst, hwrote⟩ := hready.advance hroom a
  rw [decodeQuantum, join_first h₀ h₁, Output.put_ok (hready.room hroom)]
  dsimp only
  generalize Output.advance _ = o₁ at hfirst hwrote ⊢
  by_cases hroom₁ : o₁.out_count < out_len
  · rw [if_pos hroom₁, if_neg (by decide), Output.put_ok (hfirst.room hroom₁)]
    exact ⟨_, false, rfl, hfirst.put _, by simpa using hwrote.trans (.put o₁ _)⟩
  · exact ⟨o₁, true, by rw [if_neg hroom₁], hfirst, hwrote⟩

/-- A turn for two bytes. -/
theorem decodeQuantum_two
    (hready : o.Ready out_len)
    (hfits : o.pos + 2 ≤ out_len.toNat)
    (hvalue : c₂ < NV)
    (h₀ : c₀.toNat = a.toNat / 4)
    (h₁ : c₁.toNat = a.toNat % 4 * 16 + b.toNat / 16)
    (h₂ : c₂.toNat / 4 = b.toNat % 16) :
    ∃ o' more, decodeQuantum out_len c₀ c₁ c₂ NV o = .ok (o', more) ∧ o'.Ready out_len ∧
      o.Wrote [a, b] o' := by
  have hb := b.toNat_lt
  have hroom := hready.room_of_pos (by omega)
  obtain ⟨hfirst, hwrote⟩ := hready.advance hroom a
  rw [decodeQuantum, join_first h₀ (by omega), join_second (by omega) h₂,
    Output.put_ok (hready.room hroom)]
  dsimp only
  generalize Output.advance _ = o₁ at hfirst hwrote ⊢
  have hpos : o₁.pos = o.pos + 1 := hwrote.pos
  have hroom₁ := hfirst.room_of_pos (by omega)
  obtain ⟨hsecond, hwrote'⟩ := hfirst.advance hroom₁ b
  have hboth := hwrote.trans hwrote'
  rw [if_pos hroom₁, if_pos hvalue, Output.put_ok (hfirst.room hroom₁)]
  dsimp only
  generalize Output.advance _ = o₂ at hsecond hboth ⊢
  by_cases hroom₂ : o₂.out_count < out_len
  · rw [if_pos hroom₂, if_neg (by decide), Output.put_ok (hsecond.room hroom₂)]
    exact ⟨_, false, rfl, hsecond.put _, by simpa using hboth.trans (.put o₂ _)⟩
  · exact ⟨o₂, true, by rw [if_neg hroom₂], hsecond, hboth⟩

/-- A turn for three bytes; the loop goes on. -/
theorem decodeQuantum_three
    (hready : o.Ready out_len)
    (hfits : o.pos + 3 ≤ out_len.toNat)
    (hvalue₂ : c₂ < NV)
    (hvalue₃ : c₃ < NV)
    (h₀ : c₀.toNat = a.toNat / 4)
    (h₁ : c₁.toNat = a.toNat % 4 * 16 + b.toNat / 16)
    (h₂ : c₂.toNat = b.toNat % 16 * 4 + c.toNat / 64)
    (h₃ : c₃.toNat = c.toNat % 64) :
    ∃ o', decodeQuantum out_len c₀ c₁ c₂ c₃ o = .ok (o', true) ∧ o'.Ready out_len ∧
      o.Wrote [a, b, c] o' := by
  have hb := b.toNat_lt
  have hc := c.toNat_lt
  have hroom := hready.room_of_pos (by omega)
  obtain ⟨hfirst, hwrote⟩ := hready.advance hroom a
  rw [decodeQuantum, join_first h₀ (by omega), join_second (b := b) (by omega) (by omega),
    join_third (by omega) h₃, Output.put_ok (hready.room hroom)]
  dsimp only
  generalize Output.advance _ = o₁ at hfirst hwrote ⊢
  have hpos : o₁.pos = o.pos + 1 := hwrote.pos
  have hroom₁ := hfirst.room_of_pos (by omega)
  obtain ⟨hsecond, hwrote'⟩ := hfirst.advance hroom₁ b
  rw [if_pos hroom₁, if_pos hvalue₂, Output.put_ok (hfirst.room hroom₁)]
  dsimp only
  generalize Output.advance _ = o₂ at hsecond hwrote' ⊢
  have hpos' : o₂.pos = o₁.pos + 1 := hwrote'.pos
  have hroom₂ := hsecond.room_of_pos (by omega)
  obtain ⟨hthird, hwrote''⟩ := hsecond.advance hroom₂ c
  rw [if_pos hroom₂, if_pos hvalue₃, Output.put_ok (hsecond.room hroom₂)]
  exact ⟨_, rfl, hthird, (hwrote.trans hwrote').trans hwrote''⟩

end Quantum

theorem toNat_ofNat_digit
    {n : Nat}
    (h : n < 64) :
    (UInt8.ofNat n).toNat = n :=
  UInt8.toNat_ofNat_of_lt' (by
    have : UInt8.size = 256 := rfl
    omega)

theorem ofNat_lt_NV
    {n : Nat}
    (h : n < 64) :
    UInt8.ofNat n < NV := by
  rw [UInt8.lt_iff_toNat_lt, toNat_ofNat_digit h]
  exact h

/-- The text of some bytes is decoded to them. -/
theorem decodeLoop_text
    {out_len : UInt32} {x : Bytes} {o : Output}
    (char : CharType)
    (hready : o.Ready out_len)
    (hfits : o.pos + x.length ≤ out_len.toNat) :
    ∃ o', decodeLoop char out_len (base64Text x) o = .ok o' ∧ o'.Ready out_len ∧ o.Wrote x o' := by
  induction x using base64Text.induct generalizing o with
  | case1 =>
      exact ⟨o, rfl, hready, .refl o⟩
  | case2 a =>
      have ha := a.toNat_lt
      have h₀ : (UInt8.ofNat (a.toNat * 16 / 64)).toNat = a.toNat / 4 := by
        rw [toNat_ofNat_digit (by omega)]
        omega
      have h₁ : (UInt8.ofNat (a.toNat * 16 % 64)).toNat / 16 = a.toNat % 4 := by
        rw [toNat_ofNat_digit (by omega)]
        omega
      obtain ⟨o', more, hturn, hready', hwrote⟩ := decodeQuantum_one hready hfits h₀ h₁
      refine ⟨o', ?_, hready', hwrote⟩
      rw [base64Text, decodeLoop, if_pos (hready.room_of_pos hfits),
        decode_digit char (by omega), decode_digit char (by omega), decode_pad]
      dsimp only
      rw [hturn]
      cases more <;> rfl
  | case3 a b =>
      have ha := a.toNat_lt
      have hb := b.toNat_lt
      simp only [List.length_cons, List.length_nil] at hfits
      have h₀ : (UInt8.ofNat ((a.toNat * 1024 + b.toNat * 4) / 4096)).toNat = a.toNat / 4 := by
        rw [toNat_ofNat_digit (by omega)]
        omega
      have h₁ : (UInt8.ofNat ((a.toNat * 1024 + b.toNat * 4) / 64 % 64)).toNat =
          a.toNat % 4 * 16 + b.toNat / 16 := by
        rw [toNat_ofNat_digit (by omega)]
        omega
      have h₂ : (UInt8.ofNat ((a.toNat * 1024 + b.toNat * 4) % 64)).toNat / 4 =
          b.toNat % 16 := by
        rw [toNat_ofNat_digit (by omega)]
        omega
      obtain ⟨o', more, hturn, hready', hwrote⟩ :=
        decodeQuantum_two hready hfits (ofNat_lt_NV (by omega)) h₀ h₁ h₂
      refine ⟨o', ?_, hready', hwrote⟩
      rw [base64Text, decodeLoop, if_pos (hready.room_of_pos (by omega)),
        decode_digit char (by omega), decode_digit char (by omega), decode_digit char (by omega),
        decode_pad]
      dsimp only
      rw [hturn]
      cases more <;> rfl
  | case4 a b c rest ih =>
      have ha := a.toNat_lt
      have hb := b.toNat_lt
      have hc := c.toNat_lt
      simp only [List.length_cons] at hfits
      have h₀ : (UInt8.ofNat ((a.toNat * 65536 + b.toNat * 256 + c.toNat) / 262144)).toNat =
          a.toNat / 4 := by
        rw [toNat_ofNat_digit (by omega)]
        omega
      have h₁ : (UInt8.ofNat ((a.toNat * 65536 + b.toNat * 256 + c.toNat) / 4096 % 64)).toNat =
          a.toNat % 4 * 16 + b.toNat / 16 := by
        rw [toNat_ofNat_digit (by omega)]
        omega
      have h₂ : (UInt8.ofNat ((a.toNat * 65536 + b.toNat * 256 + c.toNat) / 64 % 64)).toNat =
          b.toNat % 16 * 4 + c.toNat / 64 := by
        rw [toNat_ofNat_digit (by omega)]
        omega
      have h₃ : (UInt8.ofNat ((a.toNat * 65536 + b.toNat * 256 + c.toNat) % 64)).toNat =
          c.toNat % 64 := by
        rw [toNat_ofNat_digit (by omega)]
        omega
      obtain ⟨o', hturn, hready', hwrote⟩ := decodeQuantum_three hready (by omega)
        (ofNat_lt_NV (by omega)) (ofNat_lt_NV (by omega)) h₀ h₁ h₂ h₃
      have hpos : o'.pos = o.pos + 3 := hwrote.pos
      obtain ⟨o'', hrun, hready'', hwrote'⟩ := ih hready' (by omega)
      refine ⟨o'', ?_, hready'', hwrote.trans hwrote'⟩
      rw [base64Text, decodeLoop, if_pos (hready.room_of_pos (by omega)),
        decode_digit char (by omega), decode_digit char (by omega), decode_digit char (by omega),
        decode_digit char (by omega)]
      dsimp only
      rw [hturn]
      exact hrun

/-! ### Lengths -/

/-- Clearing the two low bits of a number of 32 bits. -/
theorem and_low_two
    {n : Nat}
    (h : n < 4294967296) :
    n &&& 4294967292 = n / 4 * 4 := by
  have hmask : (4294967292 : Nat) = 2 ^ 2 * (2 ^ 30 - 1) := by decide
  apply Nat.eq_of_testBit_eq
  intro i
  rw [hmask, Nat.testBit_and, Nat.testBit_two_pow_mul, Nat.testBit_two_pow_sub_one, Nat.mul_comm,
    (by decide : (4 : Nat) = 2 ^ 2), Nat.testBit_two_pow_mul, ← Nat.shiftRight_eq_div_pow,
    Nat.testBit_shiftRight]
  by_cases hi : 2 ≤ i
  · rw [(by omega : 2 + (i - 2) = i)]
    by_cases hlast : i - 2 < 30
    · simp [hi, hlast]
    · have hle : 32 ≤ i := by omega
      have hbit : n.testBit i = false :=
        Nat.testBit_lt_two_pow (lt_of_lt_of_le h (Nat.pow_le_pow_right Nat.two_pos hle))
      simp [hbit]
  · simp [hi]

/-- Whatever the length, its text is counted in fewer than 32 bits. -/
theorem encodeLength_lt
    (in_len : UInt32) :
    (Base64_encodeLength in_len).toNat < 2147483648 := by
  have hmask : (~~~(3 : UInt32)).toNat = 4294967292 := by decide
  have hlt := (4 * in_len).toNat_lt
  rw [Base64_encodeLength, UInt32.toNat_and, hmask, UInt32.toNat_add, UInt32.toNat_div]
  simp only [UInt32.reduceToNat]
  rw [and_low_two (Nat.mod_lt _ (by decide))]
  omega

theorem toNat_encodeLength
    {n : Nat}
    (h : n < 1073741824) :
    (Base64_encodeLength (UInt32.ofNat n)).toNat = 4 * ((n + 2) / 3) := by
  have hn : (UInt32.ofNat n).toNat = n := UInt32.toNat_ofNat_of_lt' (by
    have : UInt32.size = 4294967296 := rfl
    omega)
  have hmask : (~~~(3 : UInt32)).toNat = 4294967292 := by decide
  rw [Base64_encodeLength, UInt32.toNat_and, hmask, UInt32.toNat_add, UInt32.toNat_div,
    UInt32.toNat_mul, hn]
  simp only [UInt32.reduceToNat]
  rw [Nat.mod_eq_of_lt (a := 4 * n) (by omega), Nat.mod_eq_of_lt (by omega),
    and_low_two (by omega)]
  omega

theorem toNat_decodeLength
    {x : Bytes}
    (h : x.length < 1073741824) :
    (Base64_decodeLength (base64Text x)).toNat = x.length := by
  have hlength := length_base64Text x
  have hn : (UInt32.ofNat (base64Text x).length).toNat = (base64Text x).length :=
    UInt32.toNat_ofNat_of_lt' (by
      have : UInt32.size = 4294967296 := rfl
      omega)
  by_cases hx : x = []
  · subst hx
    decide
  · obtain ⟨htwo, hone⟩ := base64Text_ends hx
    have hpos := List.length_pos_of_ne_nil hx
    have hwhole : (UInt32.ofNat (base64Text x).length / 4 * 3).toNat = 3 * ((x.length + 2) / 3) := by
      rw [UInt32.toNat_mul, UInt32.toNat_div, hn]
      simp only [UInt32.reduceToNat]
      omega
    have hpad : ∀ pad : UInt32, pad.toNat + x.length = 3 * ((x.length + 2) / 3) →
        (UInt32.ofNat (base64Text x).length / 4 * 3 - pad).toNat = x.length := by
      intro pad hpad
      rw [UInt32.toNat_sub_of_le _ _ (UInt32.le_iff_toNat_le.mpr (by omega))]
      omega
    rw [Base64_decodeLength, if_pos (by omega), if_pos (by omega), padAt, padAt]
    apply hpad
    rcases (by omega : x.length % 3 = 0 ∨ x.length % 3 = 1 ∨ x.length % 3 = 2) with hr | hr | hr
    · rw [if_neg (by rw [htwo]; omega), if_neg (by rw [hone]; omega)]
      simp only [UInt32.reduceAdd, UInt32.reduceToNat]
      omega
    · rw [if_pos (htwo.mpr hr), if_pos (hone.mpr (by omega))]
      simp only [UInt32.reduceAdd, UInt32.reduceToNat]
      omega
    · rw [if_neg (by rw [htwo]; omega), if_pos (hone.mpr (by omega))]
      simp only [UInt32.reduceAdd, UInt32.reduceToNat]
      omega

/-! ### Whole calls -/

theorem ready_start
    {out_len : UInt32} {buffer : Bytes}
    (h : buffer.length = out_len.toNat) :
    Output.Ready out_len ⟨buffer, 0, 0⟩ :=
  ⟨h, rfl⟩

/-- A text that fits is in the buffer, and its length is returned. -/
theorem finish_wrote
    {out_len : UInt32} {buffer text : Bytes} {o : Output}
    (hready : o.Ready out_len)
    (hwrote : Output.Wrote ⟨buffer, 0, 0⟩ text o)
    (hfits : text.length ≤ out_len.toNat) :
    ∃ after, o.finish out_len = .ok (UInt32.ofNat text.length, after) ∧
      after.take text.length = text := by
  have hpos : o.pos = text.length := by rw [hwrote.pos, Nat.zero_add]
  have hcount : o.out_count = UInt32.ofNat text.length := by
    rw [← hpos, hready.pos, UInt32.ofNat_toNat]
  obtain ⟨after, hfinish, -, htaken⟩ := hready.finish (by
    rw [UInt32.le_iff_toNat_le, ← hready.pos, hpos]
    exact hfits)
  refine ⟨after, by rw [hfinish, hcount], ?_⟩
  rw [← hpos, htaken, hwrote.taken]
  rfl

theorem Base64_encode_text
    {out_len : UInt32} {buffer x : Bytes}
    (hbuffer : buffer.length = out_len.toNat)
    (hfits : (base64Text x).length ≤ out_len.toNat) :
    ∃ after, Base64_encode buffer out_len x = .ok (UInt32.ofNat (base64Text x).length, after) ∧
      after.take (base64Text x).length = base64Text x := by
  obtain ⟨o, hrun, hready, hwrote⟩ := encodeLoop_fits (ready_start hbuffer) (x := x) (by
    rw [Nat.zero_add]
    exact hfits)
  rw [Base64_encode, hrun]
  exact finish_wrote hready hwrote hfits

theorem Base64_encode_bounded
    {out_len : UInt32} {buffer x : Bytes}
    (hbuffer : buffer.length = out_len.toNat)
    (hx : x.length < 1073741824 ∨ out_len.toNat + 4 ≤ 4294967296) :
    ∃ ret after, Base64_encode buffer out_len x = .ok (ret, after) := by
  obtain ⟨o, hrun, hbounded⟩ := encodeLoop_bounded (ready_start hbuffer) (x := x) (by
    rw [length_base64Text]
    simp only [UInt32.reduceToNat]
    omega)
  obtain ⟨ret, after, hfinish, -⟩ := hbounded.finish
  exact ⟨ret, after, by rw [Base64_encode, hrun]; exact hfinish⟩

theorem Base64_decode_text
    {out_len : UInt32} {buffer x : Bytes}
    (char : CharType)
    (hbuffer : buffer.length = out_len.toNat)
    (hfits : x.length ≤ out_len.toNat) :
    ∃ after, Base64_decode char buffer out_len (base64Text x) =
      .ok (UInt32.ofNat x.length, after) ∧ after.take x.length = x := by
  obtain ⟨o, hrun, hready, hwrote⟩ := decodeLoop_text char (ready_start hbuffer) (x := x) (by
    rw [Nat.zero_add]
    exact hfits)
  rw [Base64_decode, hrun]
  exact finish_wrote hready hwrote hfits

/-- No byte behind the buffer is written, whatever the text is; with a text of the encoder, none
outside the table is read either. -/
theorem Base64_decode_bounded
    {out_len : UInt32} {buffer : Bytes}
    (char : CharType) (text : Bytes)
    (hbuffer : buffer.length = out_len.toNat) :
    (∃ ret after, Base64_decode char buffer out_len text = .ok (ret, after)) ∨
      Base64_decode char buffer out_len text = .error .read ∧
        ∃ b ∈ text, decodeChar char b = .error .read := by
  rw [Base64_decode]
  rcases decodeLoop_bounded char text (ready_start hbuffer) with
    ⟨o, hrun, hready⟩ | ⟨hrun, hread⟩
  · left
    rw [hrun]
    obtain ⟨ret, after, hfinish, -⟩ := Output.Bounded.finish (.inl hready)
    exact ⟨ret, after, hfinish⟩
  · exact .inr ⟨by rw [hrun], hread⟩

/--
The codec, for strings whose text has a length that the functions can count: the text
and its length, the bytes again and their number, and a buffer of any length that is
not left.
-/
theorem Base64_codec
    (char : CharType) {x : Bytes}
    (hx : x.length < 2 ^ 30) :
    (∀ (out_len : UInt32) (buffer : Bytes), buffer.length = out_len.toNat →
      Base64_encodeLength (UInt32.ofNat x.length) ≤ out_len →
      ∃ after, Base64_encode buffer out_len x =
          .ok (UInt32.ofNat (4 * ((x.length + 2) / 3)), after) ∧
        after.take (4 * ((x.length + 2) / 3)) = base64Text x) ∧
    (Base64_decodeLength (base64Text x)).toNat = x.length ∧
    (∀ (out_len : UInt32) (buffer : Bytes), buffer.length = out_len.toNat →
      Base64_decodeLength (base64Text x) ≤ out_len →
      ∃ after, Base64_decode char buffer out_len (base64Text x) =
          .ok (UInt32.ofNat x.length, after) ∧ after.take x.length = x) ∧
    (∀ (out_len : UInt32) (buffer : Bytes), buffer.length = out_len.toNat →
      (∃ ret after, Base64_encode buffer out_len x = .ok (ret, after)) ∧
      (∃ ret after, Base64_decode char buffer out_len (base64Text x) = .ok (ret, after)) ∧
      ∀ text, Base64_decode char buffer out_len text ≠ .error .write) := by
  refine ⟨?_, toNat_decodeLength hx, ?_, ?_⟩
  · intro out_len buffer hbuffer hfits
    rw [UInt32.le_iff_toNat_le, toNat_encodeLength hx, ← length_base64Text] at hfits
    rw [← length_base64Text]
    exact Base64_encode_text hbuffer hfits
  · intro out_len buffer hbuffer hfits
    rw [UInt32.le_iff_toNat_le, toNat_decodeLength hx] at hfits
    exact Base64_decode_text char hbuffer hfits
  · intro out_len buffer hbuffer
    refine ⟨Base64_encode_bounded hbuffer (.inl hx), ?_, ?_⟩
    · refine (Base64_decode_bounded char (base64Text x) hbuffer).resolve_right ?_
      rintro ⟨-, b, hb, hread⟩
      obtain ⟨n, hn, rfl⟩ := exists_digit_of_mem hb
      rw [decode_digit char hn] at hread
      cases hread
    · intro text herror
      rcases Base64_decode_bounded char text hbuffer with ⟨_, _, hok⟩ | ⟨hread, _⟩
      · rw [hok] at herror
        cases herror
      · rw [hread] at herror
        cases herror

theorem Base64_codec_sample :
    ∃ after, Base64_encode [0, 0, 0, 0, 0] 5 [104, 105] = .ok (4, after) ∧
      after.take 4 = ascii "aGk=" :=
  (Base64_codec .signed (x := [104, 105]) (by decide)).1 5 [0, 0, 0, 0, 0] rfl (by decide)

end Base64
end PahoMqtt
