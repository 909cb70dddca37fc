import PahoMqtt.VariableByteIntegers
import PahoMqtt.Properties

/-!
# The length of a property list

`MQTTProperties_add` keeps the length of the list up to date, and the buffers of
packets are allocated by `MQTTProperties_len`; the bytes are written by a
function of their own.  Both count the same for every property but one with a
variable byte integer that does not fit into four bytes: nothing keeps such a
value out, it is counted with one to four bytes and written with five.
-/

namespace PahoMqtt
namespace MQTTProperties

open Lib MQTTPacket

/-- The lists that calls of `MQTTProperties_add` and `MQTTProperties_copy` build. -/
inductive Built : Properties → Prop where
  | initializer : Built initializer
  | add {props : Properties} (h : Built props) (prop : Property) : Built (add props prop)
  | copy {props : Properties} (h : Built props) : Built (copy props)

/-- The bytes the format takes for a property: its identifier and its value. -/
def wireSize (prop : Property) : Nat :=
  1 + match prop.value with
    | .byte _ => 1
    | .integer2 _ => 2
    | .integer4 n =>
        if propertyGetType prop.identifier = some .variableByteInteger then
          Nat.log 128 n.toNat + 1
        else
          4
    | .data data => 2 + data.length
    | .pair data value => 2 + data.length + (2 + value.length)

/-- A variable byte integer, if the property has one, fits into four bytes. -/
def VariableFits (prop : Property) : Prop :=
  ∀ n, prop.value = .integer4 n →
    propertyGetType prop.identifier = some .variableByteInteger → n.toNat < 268435456

/--
The length that is computed for a list is the number of bytes written for it,
and the first of them are the minimal variable byte integer of the number of
those that follow.
-/
def FilledExactly (props : Properties) : Prop :=
  len props = (write props).length ∧
    ∃ lead body, write props = lead ++ body ∧ body = props.array.flatMap propertyWrite ∧
      lead.length ≤ 4 ∧ MinimalVarInt lead body.length

/-! ### Lengths of integers -/

theorem encode_length
    (n : Nat) :
    (encode n).length = Nat.log 128 n + 1 := by
  have hpos := (encode_isVarInt n).length_pos
  refine le_antisymm ?_ ?_
  · exact (encode_length_le_iff _ _).mpr (Nat.lt_pow_succ_log_self (by omega) n)
  · by_contra hshort
    obtain ⟨k, hk⟩ : ∃ k, (encode n).length = k + 1 := ⟨(encode n).length - 1, by omega⟩
    have hlt : n < 128 ^ (k + 1) := (encode_length_le_iff k n).mp hk.le
    have hlog : Nat.log 128 n ≤ k := by
      have := Nat.log_lt_of_lt_pow' (by omega) hlt
      omega
    omega

theorem VBIlen_eq_log
    {n : Nat}
    (hn : n < 268435456) :
    VBIlen n = (Nat.log 128 n + 1 : Nat) := by
  rw [← encode_length]
  have h₁ := encode_length_le_iff 0 n
  have h₂ := encode_length_le_iff 1 n
  have h₃ := encode_length_le_iff 2 n
  have h₄ := encode_length_le_iff 3 n
  have hpos := (encode_isVarInt n).length_pos
  norm_num at h₁ h₂ h₃ h₄
  unfold VBIlen
  split
  · omega
  · split
    · omega
    · split <;> omega

/-- What does not fit into four bytes is counted with fewer than it is written with. -/
theorem VBIlen_lt_log
    {n : UInt32}
    (hn : 268435456 ≤ n.toNat) :
    VBIlen n.toInt32.toInt < (Nat.log 128 n.toNat + 1 : Nat) := by
  rw [← encode_length]
  have hlong := encode_length_le_iff 3 n.toNat
  norm_num at hlong
  unfold VBIlen
  split
  · omega
  · split
    · omega
    · split <;> omega

/-- Below 2^31 an `unsigned int` is passed on as it is. -/
theorem toInt32_of_lt
    {n : UInt32}
    (hn : n.toNat < 2147483648) :
    n.toInt32.toInt = n.toNat := by
  change n.toBitVec.toInt = n.toNat
  rw [BitVec.toInt_eq_toNat_of_lt (by change 2 * n.toNat < 2 ^ 32; omega)]
  rfl

/-! ### Lengths of properties -/

@[simp] theorem writeMQTTLenString_length
    (data : Bytes) :
    (writeMQTTLenString data).length = 2 + data.length := by
  simp [writeMQTTLenString]

theorem propertyWrite_length
    (prop : Property) :
    (propertyWrite prop).length = wireSize prop := by
  unfold propertyWrite wireSize
  rw [List.length_append]
  congr 1
  cases hvalue : prop.value with
  | byte b => rfl
  | integer2 n => rfl
  | integer4 n =>
      dsimp only
      split
      · exact encode_length _
      · rfl
  | data data => exact writeMQTTLenString_length data
  | pair data value => simp

theorem addedLength_of_fits
    {prop : Property}
    (hfits : VariableFits prop) :
    addedLength prop = wireSize prop := by
  unfold addedLength wireSize
  cases hvalue : prop.value with
  | byte b => rfl
  | integer2 n => rfl
  | integer4 n =>
      dsimp only
      split
      next htype =>
        have hn := hfits n hvalue htype
        rw [toInt32_of_lt (by omega), VBIlen_eq_log hn]
        push_cast
        omega
      · rfl
  | data data =>
      push_cast
      omega
  | pair data value =>
      push_cast
      omega

theorem addedLength_lt
    {prop : Property}
    (hfits : ¬VariableFits prop) :
    addedLength prop < wireSize prop := by
  unfold VariableFits at hfits
  push Not at hfits
  obtain ⟨n, hvalue, htype, hn⟩ := hfits
  have hlt := VBIlen_lt_log hn
  unfold addedLength wireSize
  simp only [hvalue, htype, if_true]
  push_cast at hlt ⊢
  omega

theorem addedLength_nonneg
    (prop : Property) :
    0 ≤ addedLength prop := by
  have hVBI : ∀ n : Int, 0 ≤ VBIlen n := by
    intro n
    unfold VBIlen
    split
    · omega
    · split
      · omega
      · split <;> omega
  unfold addedLength
  cases prop.value with
  | byte b =>
      dsimp only
      omega
  | integer2 n =>
      dsimp only
      omega
  | integer4 n =>
      dsimp only
      split
      · have := hVBI n.toInt32.toInt
        omega
      · omega
  | data data =>
      dsimp only
      omega
  | pair data value =>
      dsimp only
      omega

/-- What is counted for a list is never more than what is written for it. -/
theorem sum_addedLength_le
    (array : List Property) :
    0 ≤ (array.map addedLength).sum ∧
      (array.map addedLength).sum ≤ (array.map wireSize).sum := by
  induction array with
  | nil =>
      simp
  | cons prop array ih =>
      have hnonneg := addedLength_nonneg prop
      have hle : addedLength prop ≤ wireSize prop := by
        by_cases hfits : VariableFits prop
        · exact (addedLength_of_fits hfits).le
        · exact (addedLength_lt hfits).le
      simp only [List.map_cons, List.sum_cons, Nat.cast_add]
      omega

/-- It is the same only where every integer fits. -/
theorem sum_addedLength_eq_iff
    (array : List Property) :
    (array.map addedLength).sum = (array.map wireSize).sum ↔ ∀ prop ∈ array, VariableFits prop := by
  induction array with
  | nil =>
      simp
  | cons prop array ih =>
      have hrest := (sum_addedLength_le array).2
      simp only [List.map_cons, List.sum_cons, Nat.cast_add, List.forall_mem_cons, ← ih]
      by_cases hfits : VariableFits prop
      · have := addedLength_of_fits hfits
        simp only [hfits, true_and]
        omega
      · have := addedLength_lt hfits
        simp only [hfits, false_and, iff_false]
        omega

theorem body_length
    (array : List Property) :
    (array.flatMap propertyWrite).length = (array.map wireSize).sum := by
  simp [List.length_flatMap, propertyWrite_length]

theorem Built.length_eq
    {props : Properties}
    (h : Built props) :
    props.length = toInt (props.array.map addedLength).sum := by
  induction h with
  | initializer =>
      rfl
  | @add props _ prop ih =>
      simp [MQTTProperties.add, ih, toInt]
  | copy _ _ =>
      simp only [copy_eq]

/-! ### When the lengths agree -/

theorem toInt_of_lt
    {n : Int}
    (hnonneg : 0 ≤ n)
    (hlt : n < 2147483648) :
    toInt n = n := by
  rw [toInt, Int.bmod_def]
  omega

theorem toSize_of_lt
    {n : Nat}
    (hlt : n < 2147483648) :
    toSize n = n := by
  unfold toSize
  omega

/--
The computed length of a built list is that of the bytes written, with the
right prefix, exactly when its variable byte integers and its whole length fit
into four bytes.
-/
theorem built_filled_iff
    {props : Properties}
    (hbuilt : Built props) :
    FilledExactly props ↔
      (∀ prop ∈ props.array, VariableFits prop) ∧
        (props.array.map wireSize).sum < 268435456 := by
  have hlength := hbuilt.length_eq
  obtain ⟨hnonneg, hle⟩ := sum_addedLength_le props.array
  constructor
  · rintro ⟨_, lead, body, hwrite, rfl, hfour, hminimal⟩
    have hbody := body_length props.array
    have hlt : (props.array.map wireSize).sum < 268435456 := by
      calc (props.array.map wireSize).sum < 128 ^ lead.length := hbody ▸ hminimal.1.lt_pow
        _ ≤ 128 ^ 4 := Nat.pow_le_pow_right (by omega) hfour
        _ = 268435456 := by norm_num
    have hlead : encode (toSize props.length) = lead := by
      exact List.append_cancel_right hwrite
    have hsame : toSize props.length = (props.array.map wireSize).sum := by
      rw [← hbody]
      have hvar : IsVarInt lead (toSize props.length) := hlead ▸ encode_isVarInt _
      exact (hvar.prefix_unique hminimal.1 (rfl : lead ++ [] = lead ++ [])).2.1
    rw [hlength, toInt_of_lt hnonneg (by omega)] at hsame
    refine ⟨(sum_addedLength_eq_iff _).mp ?_, hlt⟩
    unfold toSize at hsame
    omega
  · rintro ⟨hfits, hlt⟩
    have hsum := (sum_addedLength_eq_iff _).mpr hfits
    rw [hsum, toInt_of_lt (by omega) (by omega)] at hlength
    have hsize : toSize props.length = (props.array.map wireSize).sum := by
      rw [hlength, toSize_of_lt (by omega)]
    refine ⟨?_, encode (toSize props.length), _, rfl, rfl, ?_, ?_⟩
    · have hlog := encode_length_le_iff 3 (props.array.map wireSize).sum
      rw [encode_length] at hlog
      rw [write, List.length_append, body_length, hsize, encode_length, len, hlength,
        VBIlen_eq_log hlt, toInt_of_lt (by omega) (by omega)]
      push_cast
      omega
    · rw [hsize]
      exact (encode_length_le_iff 3 _).mpr (by omega)
    · rw [body_length, hsize]
      exact encode_minimal _

/-- A list with one SUBSCRIPTION_IDENTIFIER. -/
def subscriptionIdentifier (n : UInt32) : Properties :=
  add initializer ⟨11, .integer4 n, rfl⟩

theorem built_filled_iff_subscriptionIdentifier :
    FilledExactly (subscriptionIdentifier 268435455) := by
  refine (built_filled_iff (.add .initializer _)).mpr ⟨?_, ?_⟩
  · intro prop hprop n hvalue _
    obtain rfl := List.mem_singleton.mp hprop
    cases hvalue
    decide
  · decide

/-- Three bytes are counted for the largest integer, and seven are written. -/
theorem overlong_integer_overflows :
    Built (subscriptionIdentifier 4294967295) ∧
      len (subscriptionIdentifier 4294967295) = 3 ∧
      (write (subscriptionIdentifier 4294967295)).length = 7 ∧
      ¬FilledExactly (subscriptionIdentifier 4294967295) := by
  have hlen : len (subscriptionIdentifier 4294967295) = 3 := by
    decide
  have hwrite : (write (subscriptionIdentifier 4294967295)).length = 7 := by
    have hlog : Nat.log 128 4294967295 = 4 := by
      rw [Nat.log_eq_iff] <;> norm_num
    have hlength : toSize (subscriptionIdentifier 4294967295).length = 2 := by
      decide
    rw [write, List.length_append, body_length, hlength]
    simp [subscriptionIdentifier, add, initializer, wireSize, propertyGetType, hlog, encode_of_lt]
  refine ⟨.add .initializer _, hlen, hwrite, ?_⟩
  rintro ⟨hsame, _⟩
  rw [hlen, hwrite] at hsame
  cases hsame

end MQTTProperties
end PahoMqtt
