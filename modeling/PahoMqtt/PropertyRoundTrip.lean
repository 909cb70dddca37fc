import PahoMqtt.PropertyLengths

/-!
# Reading back a property list

The bytes that `MQTTProperties_write` wrote for a list of `MQTTProperties_add`,
given to `MQTTProperties_read`.  All values come back but one: the four bytes
of an integer of 2^31 or more are computed from a negative `int`, by divisions
that round towards zero, and only the multiples of 2^24 are written right.  The
list itself is read to its end where its length fits into four bytes.
-/

namespace PahoMqtt
namespace MQTTProperties

open Lib MQTTPacket

/-! ### Four-byte integers -/

/-- What `readInt4` makes of the bytes of `writeInt4`. -/
def rereadInteger4 (n : UInt32) : UInt32 :=
  let bytes := writeInt4 n.toInt32.toInt
  UInt32.ofNat (16777216 * (bytes.getD 0 0).toNat + 65536 * (bytes.getD 1 0).toNat +
    256 * (bytes.getD 2 0).toNat + (bytes.getD 3 0).toNat)

theorem toInt32_of_ge
    {n : UInt32}
    (hn : 2147483648 ≤ n.toNat) :
    n.toInt32.toInt = n.toNat - 4294967296 := by
  have hlt := n.toNat_lt
  have hbits : n.toBitVec.toNat = n.toNat := rfl
  change n.toBitVec.toInt = _
  rw [BitVec.toInt_eq_toNat_cond, hbits]
  split <;> omega

theorem ofInt_toNat
    (i : Int) :
    ((UInt8.ofInt i).toNat : Int) = i % 256 := by
  unfold UInt8.ofInt
  rw [UInt8.toNat_ofNat']
  omega

theorem rereadInteger4_toNat
    (n : UInt32) :
    ((rereadInteger4 n).toNat : Int) =
      16777216 * (n.toInt32.toInt.tdiv 16777216 % 256) +
        65536 * ((n.toInt32.toInt.tmod 16777216).tdiv 65536 % 256) +
        256 * (((n.toInt32.toInt.tmod 16777216).tmod 65536).tdiv 256 % 256) +
        ((n.toInt32.toInt.tmod 16777216).tmod 65536).tmod 256 % 256 := by
  unfold rereadInteger4
  simp only [writeInt4, List.getD_cons_zero, List.getD_cons_succ, UInt32.toNat_ofNat']
  have h₀ := ofInt_toNat (n.toInt32.toInt.tdiv 16777216)
  have h₁ := ofInt_toNat ((n.toInt32.toInt.tmod 16777216).tdiv 65536)
  have h₂ := ofInt_toNat (((n.toInt32.toInt.tmod 16777216).tmod 65536).tdiv 256)
  have h₃ := ofInt_toNat (((n.toInt32.toInt.tmod 16777216).tmod 65536).tmod 256)
  omega

/-- Which integers survive the signed divisions. -/
theorem rereadInteger4_eq_iff
    (n : UInt32) :
    rereadInteger4 n = n ↔ n.toNat < 2147483648 ∨ 16777216 ∣ n.toNat := by
  have hlt := n.toNat_lt
  have hread := rereadInteger4_toNat n
  rw [← UInt32.toNat_inj]
  by_cases hsmall : n.toNat < 2147483648
  · rw [toInt32_of_lt hsmall] at hread
    simp only [Int.tdiv_eq_ediv, Int.tmod_eq_emod, Int.natCast_nonneg, true_or, if_true] at hread
    have hsecond : 0 ≤ (n.toNat : Int) % 16777216 := by omega
    have hthird : 0 ≤ (n.toNat : Int) % 16777216 % 65536 := by omega
    simp only [Int.add_zero, Int.natCast_zero, Int.sub_zero, hsecond, hthird, true_or, if_true]
      at hread
    simp only [hsmall, true_or, iff_true]
    omega
  · rw [toInt32_of_ge (by omega)] at hread
    simp only [hsmall, false_or]
    by_cases hdvd : 16777216 ∣ n.toNat
    · obtain ⟨k, hk⟩ := hdvd
      have hint : ((n.toNat : Int) - 4294967296) = 16777216 * ((k : Int) - 256) := by omega
      simp only [hint, Int.mul_tdiv_cancel_left _ (by decide : (16777216 : Int) ≠ 0),
        Int.mul_tmod_right, Int.zero_tdiv, Int.zero_tmod] at hread
      simp only [hk, dvd_mul_right, iff_true]
      omega
    · have hneg : ¬(0 ≤ (n.toNat : Int) - 4294967296 ∨
          (16777216 : Int) ∣ (n.toNat : Int) - 4294967296) := by
        omega
      rw [Int.tdiv_eq_ediv, if_neg hneg] at hread
      have hsign : Int.sign 16777216 = 1 := rfl
      simp only [hdvd, iff_false]
      omega

/-! ### One property -/

/-- The value is in the range of its type, and a string is no longer than its two bytes say. -/
def InRange (prop : Property) : Prop :=
  match prop.value with
  | .integer4 n =>
      propertyGetType prop.identifier = some .variableByteInteger → n.toNat ≤ 268435455
  | .data data => data.length ≤ 65535
  | .pair data value => data.length ≤ 65535 ∧ value.length ≤ 65535
  | _ => True

/-- The integer, if it is one of four bytes, is below 2^31 or a multiple of 2^24. -/
def Integer4Exact (prop : Property) : Prop :=
  ∀ n, prop.value = .integer4 n → propertyGetType prop.identifier = some .fourByteInteger →
    n.toNat < 2147483648 ∨ 16777216 ∣ n.toNat

theorem admits_integer4
    (type : PropertyType) (n m : UInt32) :
    type.admits (.integer4 n) = type.admits (.integer4 m) := by
  cases type <;> rfl

/-- What is read back for a written property. -/
def reread (prop : Property) : Property where
  identifier := prop.identifier
  value :=
    match prop.value with
    | .integer4 n =>
        if propertyGetType prop.identifier = some .fourByteInteger then
          .integer4 (rereadInteger4 n)
        else
          .integer4 n
    | value => value
  typed := by
    have htyped := prop.typed
    cases hvalue : prop.value with
    | integer4 n =>
        rw [hvalue] at htyped
        dsimp only
        split
        · simpa only [admits_integer4 _ n (rereadInteger4 n)] using htyped
        · exact htyped
    | byte _ | integer2 _ | data _ | pair _ _ =>
        rw [hvalue] at htyped
        exact htyped

theorem reread_eq_iff
    (prop : Property) :
    reread prop = prop ↔ Integer4Exact prop := by
  obtain ⟨identifier, value, typed⟩ := prop
  have hext : reread ⟨identifier, value, typed⟩ = ⟨identifier, value, typed⟩ ↔
      (reread ⟨identifier, value, typed⟩).value = value := by
    simp [reread]
  rw [hext]
  unfold reread Integer4Exact
  cases value with
  | integer4 n =>
      simp only [PropertyValue.integer4.injEq, forall_eq', ← rereadInteger4_eq_iff]
      split
      next htype => simp [htype]
      next htype => simp [htype]
  | byte _ | integer2 _ | data _ | pair _ _ => simp

/-- A property is read as the value that stands behind its identifier. -/
theorem propertyRead_of_value
    {buf rest : Bytes} {pos pos' : Nat} {identifier : UInt8} {type : PropertyType}
    {value : {value : PropertyValue // type.admits value = true}}
    (hdrop : buf.drop pos = identifier :: rest)
    (htype : propertyGetType identifier = some type)
    (hvalue : valueRead type buf (pos + 1) = .ok (value, pos')) :
    propertyRead buf pos = .ok (⟨identifier, value, by simp [htype, value.2]⟩, pos') := by
  have hid : readChar buf pos = .ok (identifier, pos + 1) := by
    simp [readChar, (getElem?_of_drop hdrop).1]
  unfold propertyRead
  rw [hid]
  dsimp only
  split
  next hnone =>
    rw [htype] at hnone
    cases hnone
  next type' htype' =>
    obtain rfl : type = type' := by simpa [htype] using htype'
    rw [hvalue]

theorem readInt4_bytes
    {buf rest : Bytes} {pos : Nat} {n : UInt32}
    (h : buf.drop pos = writeInt4 n.toInt32.toInt ++ rest) :
    readInt4 buf pos = .ok (rereadInteger4 n, pos + 4) := by
  obtain ⟨h₀, hrest₀⟩ := getElem?_of_drop h
  obtain ⟨h₁, hrest₁⟩ := getElem?_of_drop hrest₀
  obtain ⟨h₂, hrest₂⟩ := getElem?_of_drop hrest₁
  obtain ⟨h₃, _⟩ := getElem?_of_drop hrest₂
  simp only [Nat.add_assoc, Nat.reduceAdd] at h₂ h₃
  simp only [readInt4, h₀, h₁, h₂, h₃]
  rfl

/-- The bytes behind the identifier of a written property, read by its type. -/
theorem valueRead_written
    {identifier : UInt8} {value : PropertyValue} {type : PropertyType}
    {typed : (propertyGetType identifier).any (·.admits value) = true}
    (htype : propertyGetType identifier = some type)
    (hrange : InRange ⟨identifier, value, typed⟩)
    {buf rest : Bytes} {pos : Nat}
    (hdrop : buf.drop pos = (propertyWrite ⟨identifier, value, typed⟩).tail ++ rest) :
    ∃ read, valueRead type buf pos =
        .ok (read, pos + (wireSize ⟨identifier, value, typed⟩ - 1)) ∧
      read.1 = (reread ⟨identifier, value, typed⟩).value := by
  have hadmits : type.admits value = true := by
    simpa [htype] using typed
  simp only [propertyWrite, writeChar, List.singleton_append, List.tail_cons, htype] at hdrop
  simp only [InRange, htype] at hrange
  simp only [wireSize, reread, htype, Nat.add_sub_cancel_left]
  cases type with
  | byte =>
      cases value with
      | byte b =>
          refine ⟨⟨.byte b, rfl⟩, ?_, rfl⟩
          simp [valueRead, readChar, (getElem?_of_drop hdrop).1]
      | _ => cases hadmits
  | twoByteInteger =>
      cases value with
      | integer2 n =>
          refine ⟨⟨.integer2 n, rfl⟩, ?_, rfl⟩
          simp [valueRead, readInt_writeInt n.toNat_lt hdrop]
      | _ => cases hadmits
  | fourByteInteger =>
      cases value with
      | integer4 n =>
          refine ⟨⟨.integer4 (rereadInteger4 n), rfl⟩, ?_, rfl⟩
          have hread : readInt4 buf pos = .ok (rereadInteger4 n, pos + 4) :=
            readInt4_bytes hdrop
          simp [valueRead, hread]
      | _ => cases hadmits
  | variableByteInteger =>
      cases value with
      | integer4 n =>
          refine ⟨⟨.integer4 n, rfl⟩, ?_, rfl⟩
          have hfour : (encode n.toNat).length ≤ 4 :=
            (encode_length_le_iff 3 _).mpr (by have := hrange rfl; omega)
          have hread := decodeBuf_taken (.wellFormed (encode_isVarInt n.toNat) hfour) hdrop
          simp [valueRead, hread, encode_length]
      | _ => cases hadmits
  | binaryData | utf8EncodedString =>
      cases value with
      | data data =>
          refine ⟨⟨.data data, rfl⟩, ?_, rfl⟩
          simp [valueRead, lenStringRead_write hrange hdrop]
      | _ => cases hadmits
  | utf8StringPair =>
      cases value with
      | pair data value =>
          refine ⟨⟨.pair data value, rfl⟩, ?_, rfl⟩
          have hfirst : buf.drop pos = writeMQTTLenString data ++
              (writeMQTTLenString value ++ rest) := by
            rw [hdrop, List.append_assoc]
          have hsecond := Lib.Reader.drop_add hfirst
          rw [writeMQTTLenString_length] at hsecond
          simp [valueRead, lenStringRead_write hrange.1 hfirst,
            lenStringRead_write hrange.2 hsecond, Nat.add_assoc]
      | _ => cases hadmits

/-- The value of a written property is read back, with an integer as its bytes say. -/
theorem propertyRead_written
    {prop : Property} {buf rest : Bytes} {pos : Nat}
    (hrange : InRange prop)
    (hdrop : buf.drop pos = propertyWrite prop ++ rest) :
    propertyRead buf pos = .ok (reread prop, pos + wireSize prop) := by
  obtain ⟨identifier, value, typed⟩ := prop
  have hcons : buf.drop pos =
      identifier :: ((propertyWrite ⟨identifier, value, typed⟩).tail ++ rest) := hdrop
  obtain ⟨hhead, hbytes⟩ := getElem?_of_drop hcons
  have hid := drop_of_getElem? hhead
  cases htype : propertyGetType identifier with
  | none =>
      simp [htype] at typed
  | some type =>
      obtain ⟨⟨value', htyped'⟩, hvalue, rfl⟩ := valueRead_written htype hrange hbytes
      have hsize : pos + 1 + (wireSize ⟨identifier, value, typed⟩ - 1) =
          pos + wireSize ⟨identifier, value, typed⟩ := by
        have : 0 < wireSize ⟨identifier, value, typed⟩ := by
          unfold wireSize
          omega
        omega
      rw [propertyRead_of_value hid htype hvalue, hsize]
      rfl

/-! ### The list -/

/-- An `unsigned int` from which a length is taken. -/
def lessLength (remlength n : Nat) : Nat :=
  (remlength + 4294967296 - n % 4294967296) % 4294967296

/-- The lengths, taken from an `unsigned int` one by one, leave zero with the last and not before. -/
def CountsDown : (remlength : Nat) → (lengths : List Nat) → Prop
  | remlength, [] => remlength = 0
  | remlength, n :: lengths => remlength ≠ 0 ∧ CountsDown (lessLength remlength n) lengths

/-- The list comes back whole, and reading it takes just the bytes that were written. -/
def RoundTrips (props : Properties) : Prop :=
  ∃ read, MQTTProperties.read (write props) 0 = .ok (read, (write props).length) ∧
    read.array = props.array

theorem wireSize_pos
    (prop : Property) :
    0 < wireSize prop := by
  unfold wireSize
  omega

theorem countsDown_sum
    {lengths : List Nat}
    (hpos : ∀ n ∈ lengths, 0 < n)
    (hlt : lengths.sum < 4294967296) :
    CountsDown lengths.sum lengths := by
  induction lengths with
  | nil =>
      rfl
  | cons n lengths ih =>
      obtain ⟨hn, hrest⟩ := List.forall_mem_cons.mp hpos
      rw [List.sum_cons] at hlt ⊢
      have hless : lessLength (n + lengths.sum) n = lengths.sum := by
        unfold lessLength
        omega
      refine ⟨by omega, ?_⟩
      rw [hless]
      exact ih hrest (by omega)

theorem lenStringRead_le
    {buf data : Bytes} {pos pos' : Nat}
    (h : lenStringRead buf pos = .ok (data, pos')) :
    pos ≤ pos' := by
  unfold lenStringRead at h
  split at h
  · split at h
    · cases h
    next len pos₁ hint =>
      obtain ⟨_, _, _, _, _, rfl⟩ := readInt_ok hint
      split at h
      · cases h
        omega
      · cases h
  · cases h

theorem valueRead_le
    {type : PropertyType} {buf : Bytes} {pos pos' : Nat}
    {value : {value : PropertyValue // type.admits value = true}}
    (h : valueRead type buf pos = .ok (value, pos')) :
    pos ≤ pos' := by
  unfold valueRead at h
  cases type with
  | byte =>
      dsimp only at h
      split at h
      · cases h
      next hread =>
        obtain ⟨_, rfl⟩ := readChar_ok hread
        cases h
        omega
  | twoByteInteger =>
      dsimp only at h
      split at h
      · cases h
      next hread =>
        obtain ⟨_, _, _, _, _, rfl⟩ := readInt_ok hread
        cases h
        omega
  | fourByteInteger =>
      dsimp only at h
      split at h
      · cases h
      next hread =>
        obtain ⟨_, _, _, _, _, _, _, _, _, rfl⟩ := readInt4_ok hread
        cases h
        omega
  | variableByteInteger =>
      dsimp only at h
      split at h
      · cases h
      · cases h
        omega
  | binaryData | utf8EncodedString =>
      dsimp only at h
      split at h
      · cases h
      next hread =>
        cases h
        exact lenStringRead_le hread
  | utf8StringPair =>
      dsimp only at h
      split at h
      · cases h
      next hread =>
        split at h
        · cases h
        next hread' =>
          cases h
          exact (lenStringRead_le hread).trans (lenStringRead_le hread')

/-- Every property takes its identifier at least. -/
theorem propertyRead_lt
    {buf : Bytes} {pos pos' : Nat} {prop : Property}
    (h : propertyRead buf pos = .ok (prop, pos')) :
    pos < pos' := by
  unfold propertyRead at h
  split at h
  · cases h
  next hid =>
    obtain ⟨_, rfl⟩ := readChar_ok hid
    split at h
    · cases h
    · split at h
      · cases h
      next hvalue =>
        cases h
        have := valueRead_le hvalue
        omega

/-- The loop only adds to what it has read, and counts what it reads. -/
theorem readLoop_consumes
    {buf : Bytes} {fuel remlength pos pos' : Nat} {array array' : List Property}
    (hrem : remlength < 4294967296)
    (h : readLoop buf fuel remlength pos array = .ok (array', pos')) :
    array <+: array' ∧ ∃ n, pos' = pos + n ∧ n % 4294967296 = remlength := by
  induction fuel generalizing remlength pos array with
  | zero =>
      rw [readLoop] at h
      split at h
      next hzero =>
        cases h
        exact ⟨List.prefix_rfl, 0, rfl, by omega⟩
      · cases h
  | succ fuel ih =>
      rw [readLoop] at h
      split at h
      next hzero =>
        cases h
        exact ⟨List.prefix_rfl, 0, rfl, by omega⟩
      next hmore =>
        split at h
        · cases h
        next prop pos₁ hprop =>
          have hlt := propertyRead_lt hprop
          obtain ⟨hfront, n, rfl, hn⟩ := ih (Nat.mod_lt _ (by decide)) h
          refine ⟨(List.prefix_append array [prop]).trans hfront, pos₁ - pos + n, ?_, ?_⟩
          · omega
          · omega

/-- When the loop reads a written list to its end: its lengths are counted down to zero. -/
theorem readLoop_written_iff
    {buf : Bytes} {fuel remlength pos pos' : Nat} {array before : List Property}
    (hrange : ∀ prop ∈ array, InRange prop)
    (hfuel : array.length ≤ fuel)
    (hdrop : buf.drop pos = array.flatMap propertyWrite) :
    readLoop buf fuel remlength pos before = .ok (before ++ array, pos') ↔
      CountsDown remlength (array.map wireSize) ∧ (∀ prop ∈ array, Integer4Exact prop) ∧
        pos' = pos + (array.map wireSize).sum := by
  induction array generalizing fuel remlength pos before with
  | nil =>
      have hend : buf[pos]? = none := by
        rw [List.getElem?_eq_none_iff]
        exact List.drop_eq_nil_iff.mp hdrop
      have hread : propertyRead buf pos = .error .outOfBounds := by
        simp [propertyRead, readChar, hend]
      cases fuel with
      | zero =>
          by_cases hzero : remlength = 0 <;> simp [readLoop, CountsDown, hzero, eq_comm]
      | succ fuel =>
          by_cases hzero : remlength = 0 <;> simp [readLoop, CountsDown, hzero, hread, eq_comm]
  | cons prop array ih =>
      obtain ⟨hprop, hrest⟩ := List.forall_mem_cons.mp hrange
      obtain ⟨fuel, rfl⟩ : ∃ k, fuel = k + 1 := ⟨fuel - 1, by simp at hfuel; omega⟩
      rw [List.flatMap_cons] at hdrop
      have hread := propertyRead_written hprop hdrop
      have hdrop' : buf.drop (pos + wireSize prop) = array.flatMap propertyWrite := by
        rw [← propertyWrite_length]
        exact Lib.Reader.drop_add hdrop
      rw [readLoop]
      by_cases hzero : remlength = 0
      · simp [hzero, CountsDown]
      · simp only [hzero, if_false, hread, Nat.add_sub_cancel_left, List.map_cons, CountsDown,
          ne_eq, not_false_eq_true, true_and, List.forall_mem_cons, List.sum_cons]
        by_cases hexact : Integer4Exact prop
        · have hsame := (reread_eq_iff prop).mpr hexact
          have hnext := @ih fuel (lessLength remlength (wireSize prop)) _ (before ++ [prop]) hrest
            (by simpa using hfuel) hdrop'
          rw [List.append_assoc, List.singleton_append] at hnext
          rw [hsame]
          simp only [hexact, true_and, ← Nat.add_assoc]
          exact hnext
        · simp only [hexact, false_and, and_false, iff_false]
          intro h
          have hfront := (readLoop_consumes (Nat.mod_lt _ (by decide)) h).1
          have hhead : reread prop = prop := by
            obtain ⟨tail, htail⟩ := hfront
            rw [List.append_assoc, List.append_cancel_left_eq, List.singleton_append] at htail
            exact (List.cons.inj htail).1
          exact hexact ((reread_eq_iff prop).mp hhead)

/-! ### When a list comes back -/

theorem InRange.fits
    {prop : Property}
    (h : InRange prop) :
    VariableFits prop := by
  intro n hvalue htype
  have hle : n.toNat ≤ 268435455 := by
    simp only [InRange, hvalue] at h
    exact h htype
  omega

/-- The length that `MQTTProperties_add` has counted, passed on as a `size_t`. -/
theorem added_length
    {array : List Property}
    (hrange : ∀ prop ∈ array, InRange prop) :
    array.foldl add initializer = ⟨array, toInt ((array.map wireSize).sum : Nat)⟩ := by
  have hsum := (sum_addedLength_eq_iff array).mpr (fun prop hprop => (hrange prop hprop).fits)
  have hfold := foldl_add array [] 0
  simpa [toInt, initializer, hsum] using hfold

theorem toSize_toInt_of_lt
    {total : Nat}
    (hlt : total % 4294967296 < 268435456) :
    toSize (toInt total) = total % 4294967296 := by
  unfold toSize toInt
  rw [Int.bmod_def]
  omega

/-- A length that does not fit into four bytes takes five to ten, and keeps its low bits. -/
theorem toSize_toInt_of_ge
    {total : Nat}
    (hge : 268435456 ≤ total % 4294967296) :
    5 ≤ (encode (toSize (toInt total))).length ∧
      (encode (toSize (toInt total))).length ≤ 10 ∧
      toSize (toInt total) % 268435456 = total % 268435456 := by
  have hshort := encode_length_le_iff 3 (toSize (toInt total))
  have hlong := encode_length_le_iff 9 (toSize (toInt total))
  have hsize : toSize (toInt total) < 18446744073709551616 := by
    unfold toSize
    omega
  have hvalue : 268435456 ≤ toSize (toInt total) ∧
      toSize (toInt total) % 268435456 = total % 268435456 := by
    unfold toSize toInt
    rw [Int.bmod_def]
    omega
  norm_num at hshort hlong
  omega

theorem length_le_sum
    (array : List Property) :
    array.length ≤ (array.map wireSize).sum := by
  induction array with
  | nil =>
      exact le_rfl
  | cons prop array ih =>
      have := wireSize_pos prop
      simp only [List.length_cons, List.map_cons, List.sum_cons]
      omega

theorem write_added
    {array : List Property}
    (hrange : ∀ prop ∈ array, InRange prop) :
    write (array.foldl add initializer) =
      encode (toSize (toInt ((array.map wireSize).sum : Nat))) ++ array.flatMap propertyWrite := by
  rw [added_length hrange, write]

/-- A prefix of four bytes is read, and the loop goes on behind it. -/
theorem read_short
    {lead body : Bytes} {size : Nat}
    (hvar : IsVarInt lead size)
    (hlen : lead.length ≤ 4) :
    MQTTProperties.read (lead ++ body) 0 =
      (readLoop (lead ++ body) (lead ++ body).length size lead.length []).map
        fun res => (⟨res.1, size⟩, res.2) := by
  have hroom : 0 < (lead ++ body).length := by
    have := hvar.length_pos
    rw [List.length_append]
    omega
  have hdrop : (lead ++ body).drop 0 = lead ++ body := rfl
  have hdecode := decodeBuf_taken (.wellFormed hvar hlen) hdrop
  unfold MQTTProperties.read
  rw [if_pos hroom, hdecode]
  simp only [Nat.zero_add]
  generalize readLoop _ _ _ _ _ = result
  cases result <;> rfl

/-- Of a longer prefix the low bits are read, and one byte is skipped. -/
theorem read_long
    {lead body : Bytes} {size pos : Nat} {props : Properties}
    (hvar : IsVarInt lead size)
    (hlen : 5 ≤ lead.length)
    (hread : MQTTProperties.read (lead ++ body) 0 = .ok (props, pos)) :
    ∃ n, pos = 5 + n ∧ n % 4294967296 = size % 268435456 := by
  obtain ⟨hmore, hdigits⟩ := hvar.take_continues (by omega : 4 < lead.length)
  have hdrop : (lead ++ body).drop 0 = lead.take 4 ++ (lead.drop 4 ++ body) := by
    rw [← List.append_assoc, List.take_append_drop, List.drop_zero]
  have hfour : (lead.take 4).length = 4 := by
    rw [List.length_take]
    omega
  have hcontinues := VBIdecode_continues hmore 1 0 0 hdrop
  have hpow : 128 ^ 4 = 268435456 := by norm_num
  rw [hfour, hdigits, hpow, Nat.zero_add, Nat.zero_add, Nat.mul_one] at hcontinues
  unfold MQTTProperties.read decodeBuf at hread
  rw [hcontinues] at hread
  split at hread
  · dsimp only at hread
    split at hread
    · cases hread
    next hloop =>
      cases hread
      have hlt : size % 268435456 < 4294967296 :=
        lt_of_lt_of_le (Nat.mod_lt _ (by norm_num)) (by norm_num)
      obtain ⟨_, n, hn, hmod⟩ := readLoop_consumes hlt hloop
      exact ⟨n, by omega, hmod⟩
  · cases hread

/-- A list whose length fits into four bytes is read as long as there is length left. -/
theorem added_roundTrips_of_fits
    {array : List Property}
    (hrange : ∀ prop ∈ array, InRange prop)
    (hfour : (array.map wireSize).sum % 4294967296 < 268435456) :
    RoundTrips (array.foldl add initializer) ↔
      (∀ prop ∈ array, Integer4Exact prop) ∧
        CountsDown ((array.map wireSize).sum % 4294967296) (array.map wireSize) := by
  have hbody := body_length array
  have hvar := encode_isVarInt ((array.map wireSize).sum % 4294967296)
  have hlen := (encode_length_le_iff 3 ((array.map wireSize).sum % 4294967296)).mpr (by omega)
  unfold RoundTrips
  rw [write_added hrange, toSize_toInt_of_lt hfour, added_length hrange]
  generalize encode ((array.map wireSize).sum % 4294967296) = lead at *
  have hloop := @readLoop_written_iff (lead ++ array.flatMap propertyWrite)
    (lead ++ array.flatMap propertyWrite).length ((array.map wireSize).sum % 4294967296)
    lead.length (lead ++ array.flatMap propertyWrite).length array [] hrange
    (by have := length_le_sum array; rw [List.length_append]; omega) (by simp)
  have hend : (lead ++ array.flatMap propertyWrite).length =
      lead.length + (array.map wireSize).sum := by
    rw [List.length_append, hbody]
  rw [List.nil_append] at hloop
  rw [read_short hvar hlen]
  constructor
  · rintro ⟨props, hread, hsame⟩
    cases hread' : readLoop (lead ++ array.flatMap propertyWrite)
        (lead ++ array.flatMap propertyWrite).length ((array.map wireSize).sum % 4294967296)
        lead.length [] with
    | error e =>
        rw [hread'] at hread
        cases hread
    | ok res =>
        rw [hread'] at hread
        obtain ⟨array', pos⟩ := res
        cases hread
        obtain rfl : array' = array := hsame
        obtain ⟨hcount, hexact, _⟩ := hloop.mp hread'
        exact ⟨hexact, hcount⟩
  · rintro ⟨hexact, hcount⟩
    rw [hloop.mpr ⟨hcount, hexact, hend⟩]
    exact ⟨_, rfl, rfl⟩

/-- Where nothing wraps round, only the integers matter. -/
theorem added_roundTrips_of_lt
    {array : List Property}
    (hrange : ∀ prop ∈ array, InRange prop)
    (hlt : (array.map wireSize).sum < 268435456) :
    RoundTrips (array.foldl add initializer) ↔ ∀ prop ∈ array, Integer4Exact prop := by
  have hmod : (array.map wireSize).sum % 4294967296 = (array.map wireSize).sum :=
    Nat.mod_eq_of_lt (by omega)
  have hcount : CountsDown (array.map wireSize).sum (array.map wireSize) := by
    refine countsDown_sum ?_ (by omega)
    intro n hn
    obtain ⟨prop, _, rfl⟩ := List.mem_map.mp hn
    exact wireSize_pos prop
  rw [added_roundTrips_of_fits hrange (by omega), hmod]
  simp only [hcount, and_true]

/--
A list of values in range comes back exactly when its four-byte integers
survive and its length, which is an `int`, fits into four bytes and is not
counted down to zero before the last property.
-/
theorem added_roundTrips_iff
    {array : List Property}
    (hrange : ∀ prop ∈ array, InRange prop) :
    RoundTrips (array.foldl add initializer) ↔
      (∀ prop ∈ array, Integer4Exact prop) ∧
        (array.map wireSize).sum % 4294967296 < 268435456 ∧
        CountsDown ((array.map wireSize).sum % 4294967296) (array.map wireSize) := by
  by_cases hfour : (array.map wireSize).sum % 4294967296 < 268435456
  · rw [added_roundTrips_of_fits hrange hfour]
    simp only [hfour, true_and]
  · refine iff_of_false ?_ ?_
    · rintro ⟨props, hread, _⟩
      have hge : 268435456 ≤ (array.map wireSize).sum % 4294967296 := Nat.not_lt.mp hfour
      have hbody := body_length array
      obtain ⟨hlow, hhigh, hbits⟩ := toSize_toInt_of_ge hge
      have hvar := encode_isVarInt (toSize (toInt ((array.map wireSize).sum : Nat)))
      rw [write_added hrange] at hread
      obtain ⟨n, hn, hmod⟩ := read_long hvar hlow hread
      rw [List.length_append] at hn
      omega
    · rintro ⟨_, hlt, _⟩
      exact hfour hlt

/-- A list with one SESSION_EXPIRY_INTERVAL. -/
def sessionExpiry (n : UInt32) : List Property :=
  [⟨17, .integer4 n, rfl⟩]

theorem inRange_sessionExpiry
    (n : UInt32) :
    ∀ prop ∈ sessionExpiry n, InRange prop := by
  intro prop hprop
  obtain rfl := List.mem_singleton.mp hprop
  intro htype
  cases htype

theorem added_roundTrips_iff_sessionExpiry :
    RoundTrips ((sessionExpiry 2147483647).foldl add initializer) := by
  refine (added_roundTrips_iff (inRange_sessionExpiry _)).mpr ⟨?_, by decide, ?_⟩
  · intro prop hprop n hvalue _
    obtain rfl := List.mem_singleton.mp hprop
    cases hvalue
    exact .inl (by decide)
  · exact ⟨by decide, rfl⟩

/-- The interval that never expires is read back as one of 255 seconds. -/
theorem expiry_never_not_roundTrips :
    (∀ prop ∈ sessionExpiry 4294967295, InRange prop) ∧
      ¬RoundTrips ((sessionExpiry 4294967295).foldl add initializer) := by
  refine ⟨inRange_sessionExpiry _, ?_⟩
  rintro ⟨props, hread, hsame⟩
  have hread' : MQTTProperties.read
      (write ((sessionExpiry 4294967295).foldl add initializer)) 0 =
        .ok (⟨sessionExpiry 255, 5⟩, 6) := by
    decide
  rw [hread'] at hread
  cases hread
  exact absurd hsame (by decide)

end MQTTProperties
end PahoMqtt
