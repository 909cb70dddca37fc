import Mathlib.Tactic

/-!
# Numbers in bytes, the highest first

The bytes of a number in a field of a fixed width, and the number that bytes spell.
-/

namespace PahoMqtt
namespace Lib

def bigEndian : (width : Nat) → Nat → List UInt8
  | 0, _ => []
  | width + 1, n => UInt8.ofNat (n / 256 ^ width) :: bigEndian width n

def ofBigEndian (bytes : List UInt8) : Nat :=
  bytes.foldl (fun n b => 256 * n + b.toNat) 0

@[simp] theorem bigEndian_length
    (width n : Nat) :
    (bigEndian width n).length = width := by
  induction width with
  | zero =>
      rfl
  | succ width ih =>
      rw [bigEndian, List.length_cons, ih]

theorem foldl_bigEndian
    (width n high : Nat) :
    (bigEndian width n).foldl (fun n b => 256 * n + b.toNat) high =
      256 ^ width * high + n % 256 ^ width := by
  induction width generalizing high with
  | zero =>
      simp [bigEndian, Nat.mod_one]
  | succ width ih =>
      have hdigit : n % 256 ^ (width + 1) =
          n % 256 ^ width + 256 ^ width * (n / 256 ^ width % 256) := Nat.mod_pow_succ
      rw [bigEndian, List.foldl_cons, ih, UInt8.toNat_ofNat', hdigit]
      ring

theorem ofBigEndian_bigEndian
    {width n : Nat}
    (h : n < 256 ^ width) :
    ofBigEndian (bigEndian width n) = n := by
  rw [ofBigEndian, foldl_bigEndian, Nat.mul_zero, Nat.zero_add, Nat.mod_eq_of_lt h]

theorem ofBigEndian_cons
    (b : UInt8) (bytes : List UInt8) :
    ofBigEndian (b :: bytes) = 256 ^ bytes.length * b.toNat + ofBigEndian bytes := by
  have hfold : ∀ high, bytes.foldl (fun n b => 256 * n + b.toNat) high =
      256 ^ bytes.length * high + ofBigEndian bytes := by
    rw [ofBigEndian]
    induction bytes with
    | nil =>
        intro high
        simp
    | cons c bytes ih =>
        intro high
        rw [List.foldl_cons, List.foldl_cons, ih, ih (256 * 0 + c.toNat), List.length_cons]
        ring
  rw [ofBigEndian, List.foldl_cons, hfold, Nat.mul_zero, Nat.zero_add]

theorem ofBigEndian_lt
    (bytes : List UInt8) :
    ofBigEndian bytes < 256 ^ bytes.length := by
  induction bytes with
  | nil =>
      decide
  | cons b bytes ih =>
      have hb : b.toNat < 256 := b.toNat_lt
      have hle : 256 ^ bytes.length * b.toNat ≤ 256 ^ bytes.length * 255 :=
        Nat.mul_le_mul_left _ (by omega)
      rw [ofBigEndian_cons, List.length_cons, pow_succ]
      omega

/-- What lies above the field does not matter. -/
theorem bigEndian_add
    (width k n : Nat) :
    bigEndian width (256 ^ width * k + n) = bigEndian width n := by
  induction width generalizing k with
  | zero =>
      rfl
  | succ width ih =>
      have hsplit : 256 ^ (width + 1) * k + n = 256 ^ width * (256 * k) + n := by ring
      rw [bigEndian, bigEndian, hsplit, ih, Nat.mul_add_div (Nat.pow_pos (by decide))]
      congr 1
      rw [UInt8.ofNat_add, UInt8.ofNat_mul]
      simp

/-- A field is the bytes of the number that it spells. -/
theorem bigEndian_ofBigEndian
    (bytes : List UInt8) :
    bigEndian bytes.length (ofBigEndian bytes) = bytes := by
  induction bytes with
  | nil =>
      rfl
  | cons b bytes ih =>
      rw [List.length_cons, bigEndian, ofBigEndian_cons, bigEndian_add, ih,
        Nat.mul_add_div (Nat.pow_pos (by decide)), Nat.div_eq_of_lt (ofBigEndian_lt bytes),
        Nat.add_zero, UInt8.ofNat_toNat]

/-- A field of two parts. -/
theorem bigEndian_append
    (high low n : Nat) :
    bigEndian (high + low) n = bigEndian high (n / 256 ^ low) ++ bigEndian low n := by
  induction high with
  | zero =>
      rw [Nat.zero_add, bigEndian, List.nil_append]
  | succ high ih =>
      rw [Nat.add_right_comm, bigEndian, ih, bigEndian, Nat.div_div_eq_div_mul, ← pow_add,
        Nat.add_comm low, List.cons_append]

end Lib
end PahoMqtt
