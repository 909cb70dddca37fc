import Mathlib.Tactic
import PahoMqtt.Lib.Readers

/-!
# Reading and writing bytes

The byte-level helpers of MQTTPacket.c.  A writer that advances a pointer over
an output buffer is the list of the bytes it writes.  A reader works on the
memory between the start of a buffer and its `enddata`; its pointer is an
offset, which may come to lie past the end, and a read at or past the end is an
out-of-bounds read.
-/

namespace PahoMqtt

abbrev Bytes := List UInt8

/-- Why a reader gives up: it returns an error, or it reads past the end. -/
inductive ReadError where
  | malformed
  | outOfBounds
deriving DecidableEq, Repr

/-- `strlen` of a buffer that ends with a NUL behind its last byte. -/
def strlen : Bytes → Nat
  | [] => 0
  | b :: s => if b = 0 then 0 else strlen s + 1

theorem strlen_eq_length
    {s : Bytes}
    (hnul : (0 : UInt8) ∉ s) :
    strlen s = s.length := by
  induction s with
  | nil =>
      rfl
  | cons b s ih =>
      simp only [List.mem_cons, not_or] at hnul
      simp [strlen, Ne.symm hnul.1, ih hnul.2]

/-- Whether a plain `char` has negative values is up to the platform. -/
inductive CharType where
  | signed
  | unsigned
deriving DecidableEq, Repr

/-- The value that a `char` has in a comparison. -/
def CharType.value : CharType → UInt8 → Int
  | .signed, b => if b.toNat < 128 then b.toNat else b.toNat - 256
  | .unsigned, b => b.toNat

/-- A property of all bytes is one of the numbers below 256. -/
theorem forall_byte_iff
    {p : UInt8 → Prop} :
    (∀ b, p b) ↔ ∀ n : Fin 256, p (UInt8.ofFin n) :=
  ⟨fun h _ => h _, fun h b => h b.toFin⟩

/-- What an `int` holds after a sum was stored in it. -/
def toInt (n : Int) : Int :=
  n.bmod 4294967296

/-- An `int` that is passed as a `size_t`. -/
def toSize (n : Int) : Nat :=
  (n % 18446744073709551616).toNat

namespace MQTTPacket

/-! ### Fixed-width integers -/

def writeChar (c : UInt8) : Bytes := [c]

/-- Two bytes, the high one first. -/
def writeInt (anInt : Nat) : Bytes :=
  [UInt8.ofNat (anInt / 256), UInt8.ofNat (anInt % 256)]

/-- Four bytes of a signed `int`, by the signed divisions of the source. -/
def writeInt4 (anInt : Int) : Bytes :=
  let anInt₁ := anInt.tmod 16777216
  let anInt₂ := anInt₁.tmod 65536
  [UInt8.ofInt (anInt.tdiv 16777216), UInt8.ofInt (anInt₁.tdiv 65536),
    UInt8.ofInt (anInt₂.tdiv 256), UInt8.ofInt (anInt₂.tmod 256)]

def readChar (buf : Bytes) (pos : Nat) : Except ReadError (UInt8 × Nat) :=
  match buf[pos]? with
  | some c => .ok (c, pos + 1)
  | none => .error .outOfBounds

def readInt (buf : Bytes) (pos : Nat) : Except ReadError (Nat × Nat) :=
  match buf[pos]?, buf[pos + 1]? with
  | some hi, some lo => .ok (256 * hi.toNat + lo.toNat, pos + 2)
  | _, _ => .error .outOfBounds

/-- The value is stored into an `unsigned int`. -/
def readInt4 (buf : Bytes) (pos : Nat) : Except ReadError (UInt32 × Nat) :=
  match buf[pos]?, buf[pos + 1]?, buf[pos + 2]?, buf[pos + 3]? with
  | some b₀, some b₁, some b₂, some b₃ =>
      .ok (UInt32.ofNat (16777216 * b₀.toNat + 65536 * b₁.toNat + 256 * b₂.toNat + b₃.toNat),
        pos + 4)
  | _, _, _, _ => .error .outOfBounds

/-! ### Length-delimited data -/

/-- `writeMQTTLenString`: two bytes of length, then the data. -/
def writeMQTTLenString (data : Bytes) : Bytes :=
  writeInt data.length ++ data

/-- `MQTTLenStringRead`; its return value -1 is `malformed`. -/
def lenStringRead (buf : Bytes) (pos : Nat) : Except ReadError (Bytes × Nat) :=
  if pos + 1 < buf.length then
    match readInt buf pos with
    | .error e => .error e
    | .ok (len, pos) =>
        if pos + len ≤ buf.length then
          .ok ((buf.drop pos).take len, pos + len)
        else
          .error .malformed
  else
    .error .malformed

/-! ### Variable byte integers -/

/-- The loop of `MQTTPacket_encode`; a length below `128 ^ (fuel + 1)` never runs out of fuel. -/
def encodeLoop : Nat → Nat → Bytes
  | 0, length => [UInt8.ofNat (length % 128)]
  | fuel + 1, length =>
      if length / 128 > 0 then
        UInt8.ofNat (length % 128 + 128) :: encodeLoop fuel (length / 128)
      else
        [UInt8.ofNat (length % 128)]

/-- `MQTTPacket_encode` -/
def encode (length : Nat) : Bytes :=
  encodeLoop length length

/-- `MQTTPacket_VBIlen`; its argument is an `int`. -/
def VBIlen (rem_len : Int) : Int :=
  if rem_len < 128 then 1
  else if rem_len < 16384 then 2
  else if rem_len < 2097152 then 3
  else 4

/--
The loop of `MQTTPacket_VBIdecode` over a buffer: at most `tries` more bytes
are read.  The first component is the returned length, which counts the
refused fifth byte as well.
-/
def VBIdecode (buf : Bytes) :
    (tries pos multiplier len value : Nat) → Except ReadError (Nat × Nat)
  | 0, _, _, len, value => .ok (len + 1, value)
  | tries + 1, pos, multiplier, len, value =>
      match buf[pos]? with
      | none => .error .outOfBounds
      | some c =>
          let value := value + c.toNat % 128 * multiplier
          if c.toNat / 128 = 1 then
            VBIdecode buf tries (pos + 1) (multiplier * 128) (len + 1) value
          else
            .ok (len + 1, value)

/-- `MQTTPacket_decodeBuf`: the number of bytes to skip, and the value. -/
def decodeBuf (buf : Bytes) (pos : Nat) : Except ReadError (Nat × Nat) :=
  VBIdecode buf 4 pos 1 0 0

/-! ### Round trips -/

@[simp] theorem writeInt_length
    (n : Nat) :
    (writeInt n).length = 2 := by
  rfl

theorem readInt_of_drop
    {buf rest : Bytes} {pos : Nat} {hi lo : UInt8}
    (h : buf.drop pos = hi :: lo :: rest) :
    readInt buf pos = .ok (256 * hi.toNat + lo.toNat, pos + 2) := by
  have h₀ : buf[pos]? = some hi := by
    have := congrArg (·[0]?) h
    simpa using this
  have h₁ : buf[pos + 1]? = some lo := by
    have := congrArg (·[1]?) h
    simpa using this
  simp [readInt, h₀, h₁]

/-- A two-byte integer is read back where it was written. -/
theorem readInt_writeInt
    {buf rest : Bytes} {pos n : Nat}
    (hn : n < 65536)
    (h : buf.drop pos = writeInt n ++ rest) :
    readInt buf pos = .ok (n, pos + 2) := by
  have h' : buf.drop pos =
      UInt8.ofNat (n / 256) :: UInt8.ofNat (n % 256) :: rest := h
  rw [readInt_of_drop h']
  have : 256 * (UInt8.ofNat (n / 256)).toNat + (UInt8.ofNat (n % 256)).toNat = n := by
    simp only [UInt8.toNat_ofNat']
    omega
  rw [this]

/-- So is a string that its two bytes of length can describe. -/
theorem lenStringRead_write
    {buf data rest : Bytes} {pos : Nat}
    (hlen : data.length ≤ 65535)
    (h : buf.drop pos = writeMQTTLenString data ++ rest) :
    lenStringRead buf pos = .ok (data, pos + (2 + data.length)) := by
  rw [writeMQTTLenString, List.append_assoc] at h
  have hrest : buf.drop (pos + 2) = data ++ rest := by
    rw [← writeInt_length data.length]
    exact Lib.Reader.drop_add h
  have hsize := congrArg List.length h
  simp only [List.length_drop, List.length_append, writeInt_length] at hsize
  unfold lenStringRead
  rw [if_pos (by omega), readInt_writeInt (by omega) h]
  dsimp only
  rw [if_pos (by omega), hrest, List.take_left, Nat.add_assoc]

/-- The encoding does not depend on the fuel once there is enough of it. -/
theorem encodeLoop_fuel
    {fuel₁ fuel₂ n : Nat}
    (h₁ : n ≤ fuel₁)
    (h₂ : n ≤ fuel₂) :
    encodeLoop fuel₁ n = encodeLoop fuel₂ n := by
  induction fuel₁ generalizing fuel₂ n with
  | zero =>
      obtain rfl : n = 0 := by omega
      cases fuel₂ <;> simp [encodeLoop]
  | succ fuel₁ ih =>
      cases fuel₂ with
      | zero =>
          obtain rfl : n = 0 := by omega
          simp [encodeLoop]
      | succ fuel₂ =>
          simp only [encodeLoop]
          split
          · have hrest : encodeLoop fuel₁ (n / 128) = encodeLoop fuel₂ (n / 128) :=
              ih (by omega) (by omega)
            rw [hrest]
          · rfl

theorem encode_of_lt
    {n : Nat}
    (hn : n < 128) :
    encode n = [UInt8.ofNat n] := by
  have hdiv : n / 128 = 0 := by omega
  have hmod : n % 128 = n := by omega
  unfold encode
  cases n <;> simp [encodeLoop, hdiv, hmod]

theorem encode_of_ge
    {n : Nat}
    (hn : 128 ≤ n) :
    encode n = UInt8.ofNat (n % 128 + 128) :: encode (n / 128) := by
  obtain ⟨k, rfl⟩ : ∃ k, n = k + 1 := ⟨n - 1, by omega⟩
  have hpos : (k + 1) / 128 > 0 := by omega
  have hfuel : encodeLoop k ((k + 1) / 128) = encode ((k + 1) / 128) :=
    encodeLoop_fuel (by omega) le_rfl
  conv_lhs => unfold encode
  simp [encodeLoop, hpos, hfuel]

theorem encode_ne_nil
    (n : Nat) :
    encode n ≠ [] := by
  by_cases hn : n < 128
  · simp [encode_of_lt hn]
  · simp [encode_of_ge (by omega : 128 ≤ n)]

/-! ### Readers are local -/

theorem getElem?_inside
    {buf : Bytes} {pos : Nat} {c : UInt8}
    (h : buf[pos]? = some c)
    (front back : Bytes) :
    (front ++ (buf ++ back))[front.length + pos]? = some c := by
  have hlt : pos < buf.length := (List.getElem?_eq_some_iff.mp h).1
  rw [List.getElem?_append_right (Nat.le_add_right _ _), Nat.add_sub_cancel_left,
    List.getElem?_append_left hlt, h]

/-- What `readChar` has read. -/
theorem readChar_ok
    {buf : Bytes} {pos pos' : Nat} {c : UInt8}
    (h : readChar buf pos = .ok (c, pos')) :
    buf[pos]? = some c ∧ pos' = pos + 1 := by
  unfold readChar at h
  split at h
  next hc =>
    cases h
    exact ⟨hc, rfl⟩
  · cases h

theorem readInt_ok
    {buf : Bytes} {pos pos' n : Nat}
    (h : readInt buf pos = .ok (n, pos')) :
    ∃ hi lo, buf[pos]? = some hi ∧ buf[pos + 1]? = some lo ∧
      n = 256 * hi.toNat + lo.toNat ∧ pos' = pos + 2 := by
  unfold readInt at h
  split at h
  next hi lo hhi hlo =>
    cases h
    exact ⟨hi, lo, hhi, hlo, rfl, rfl⟩
  · cases h

theorem readInt4_ok
    {buf : Bytes} {pos pos' : Nat} {n : UInt32}
    (h : readInt4 buf pos = .ok (n, pos')) :
    ∃ b₀ b₁ b₂ b₃, buf[pos]? = some b₀ ∧ buf[pos + 1]? = some b₁ ∧ buf[pos + 2]? = some b₂ ∧
      buf[pos + 3]? = some b₃ ∧
      n = UInt32.ofNat (16777216 * b₀.toNat + 65536 * b₁.toNat + 256 * b₂.toNat + b₃.toNat) ∧
      pos' = pos + 4 := by
  unfold readInt4 at h
  split at h
  next b₀ b₁ b₂ b₃ h₀ h₁ h₂ h₃ =>
    cases h
    exact ⟨b₀, b₁, b₂, b₃, h₀, h₁, h₂, h₃, rfl, rfl⟩
  · cases h

theorem readChar_local :
    Lib.Reader.Local readChar := by
  intro buf pos pos' c h front back
  obtain ⟨hc, rfl⟩ := readChar_ok h
  rw [readChar, getElem?_inside hc, Nat.add_assoc]

theorem readInt_local :
    Lib.Reader.Local readInt := by
  intro buf pos pos' n h front back
  obtain ⟨hi, lo, hhi, hlo, rfl, rfl⟩ := readInt_ok h
  rw [readInt, getElem?_inside hhi, Nat.add_assoc, getElem?_inside hlo, Nat.add_assoc]

theorem readInt4_local :
    Lib.Reader.Local readInt4 := by
  intro buf pos pos' n h front back
  obtain ⟨b₀, b₁, b₂, b₃, h₀, h₁, h₂, h₃, rfl, rfl⟩ := readInt4_ok h
  simp only [readInt4, Nat.add_assoc, getElem?_inside h₀, getElem?_inside h₁, getElem?_inside h₂,
    getElem?_inside h₃]

theorem lenStringRead_local :
    Lib.Reader.Local lenStringRead := by
  intro buf pos pos' data h front back
  unfold lenStringRead at h ⊢
  split at h
  next hroom =>
    rw [if_pos (by simp only [List.length_append]; omega)]
    cases hlen : readInt buf pos with
    | error e =>
        simp [hlen] at h
    | ok res =>
        obtain ⟨len, pos₁⟩ := res
        rw [readInt_local hlen front back]
        simp only [hlen] at h ⊢
        split at h
        next hfits =>
          simp only [Except.ok.injEq, Prod.mk.injEq] at h
          obtain ⟨rfl, rfl⟩ := h
          rw [if_pos (by simp only [List.length_append]; omega), List.drop_length_add_append]
          simp only [Except.ok.injEq, Prod.mk.injEq, Nat.add_assoc, and_true]
          rw [List.drop_append_of_le_length (by omega),
            List.take_append_of_le_length (by rw [List.length_drop]; omega)]
        · cases h
  · cases h

/-- The bytes an integer is decoded from decide its value wherever they stand. -/
theorem VBIdecode_inside
    {buf : Bytes} {tries pos multiplier len value : Nat} {res : Nat × Nat}
    (h : VBIdecode buf tries pos multiplier len value = .ok res)
    (front back : Bytes) :
    VBIdecode (front ++ (buf ++ back)) tries (front.length + pos) multiplier len value =
      .ok res := by
  induction tries generalizing pos multiplier len value with
  | zero =>
      exact h
  | succ tries ih =>
      rw [VBIdecode] at h ⊢
      cases hc : buf[pos]? with
      | none =>
          simp [hc] at h
      | some c =>
          rw [getElem?_inside hc]
          simp only [hc] at h ⊢
          split
          next hmore =>
            rw [if_pos hmore] at h
            exact ih h
          next hlast =>
            rw [if_neg hlast] at h
            exact h

end MQTTPacket

end PahoMqtt
