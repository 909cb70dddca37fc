import Mathlib.Tactic

/-!
# Variable-length integers

Numbers in base 128, the lowest digit first, with a continuation bit on every
byte but the last.  A byte string is the integer it spells, whatever produced
it; a minimal spelling is one that no other spelling of the number is shorter
than.
-/

namespace PahoMqtt
namespace Lib

/-- The bytes spell the number. -/
inductive IsVarInt : List UInt8 → Nat → Prop where
  | last {b : UInt8} (h : b.toNat < 128) : IsVarInt [b] b.toNat
  | more {b : UInt8} {bytes : List UInt8} {n : Nat} (h : 128 ≤ b.toNat)
      (htail : IsVarInt bytes n) : IsVarInt (b :: bytes) (b.toNat % 128 + 128 * n)

/-- What the digits of some bytes come to, whether or not a spelling ends with them. -/
def varIntDigits : List UInt8 → Nat
  | [] => 0
  | b :: bytes => b.toNat % 128 + 128 * varIntDigits bytes

/-- No spelling of the number is shorter. -/
def MinimalVarInt (bytes : List UInt8) (n : Nat) : Prop :=
  IsVarInt bytes n ∧ ∀ other, IsVarInt other n → bytes.length ≤ other.length

theorem varIntDigits_lt
    (bytes : List UInt8) :
    varIntDigits bytes < 128 ^ bytes.length := by
  induction bytes with
  | nil =>
      simp [varIntDigits]
  | cons b bytes ih =>
      rw [varIntDigits, List.length_cons, pow_succ]
      omega

/-- A spelling stands in front, or every byte says that another one follows. -/
theorem varInt_split
    (bytes : List UInt8) :
    (∃ lead n rest, bytes = lead ++ rest ∧ IsVarInt lead n) ∨ ∀ b ∈ bytes, 128 ≤ b.toNat := by
  induction bytes with
  | nil =>
      exact .inr (by simp)
  | cons b bytes ih =>
      by_cases hmore : 128 ≤ b.toNat
      · rcases ih with ⟨lead, n, rest, rfl, hvar⟩ | hall
        · exact .inl ⟨b :: lead, _, rest, rfl, .more hmore hvar⟩
        · exact .inr (List.forall_mem_cons.mpr ⟨hmore, hall⟩)
      · exact .inl ⟨[b], _, bytes, rfl, .last (Nat.lt_of_not_le hmore)⟩

namespace IsVarInt

theorem length_pos
    {bytes : List UInt8} {n : Nat}
    (h : IsVarInt bytes n) :
    0 < bytes.length := by
  cases h <;> simp

theorem lt_pow
    {bytes : List UInt8} {n : Nat}
    (h : IsVarInt bytes n) :
    n < 128 ^ bytes.length := by
  induction h with
  | last h =>
      simpa using h
  | @more b bytes n _ _ ih =>
      rw [List.length_cons, pow_succ]
      omega

theorem not_continues
    {bytes : List UInt8} {n : Nat}
    (h : IsVarInt bytes n) :
    ∃ b ∈ bytes, b.toNat < 128 := by
  induction h with
  | @last b h => exact ⟨b, List.mem_singleton_self b, h⟩
  | more _ _ ih =>
      obtain ⟨b, hb, hlast⟩ := ih
      exact ⟨b, List.mem_cons_of_mem _ hb, hlast⟩

/-- The last byte says where the spelling ends. -/
theorem prefix_unique
    {bytes bytes' rest rest' : List UInt8} {n n' : Nat}
    (h : IsVarInt bytes n)
    (h' : IsVarInt bytes' n')
    (heq : bytes ++ rest = bytes' ++ rest') :
    bytes = bytes' ∧ n = n' ∧ rest = rest' := by
  induction h generalizing bytes' n' with
  | last hb =>
      cases h' with
      | last _ =>
          simp_all
      | more hmore _ =>
          simp only [List.cons_append, List.nil_append, List.cons.injEq] at heq
          rw [heq.1] at hb
          omega
  | more hb _ ih =>
      cases h' with
      | last hlast =>
          simp only [List.cons_append, List.nil_append, List.cons.injEq] at heq
          rw [heq.1] at hb
          omega
      | more _ htail' =>
          simp only [List.cons_append, List.cons.injEq] at heq
          obtain ⟨rfl, hrest⟩ := heq
          obtain ⟨rfl, rfl, rfl⟩ := ih htail' hrest
          exact ⟨rfl, rfl, rfl⟩

/-- A spelling that goes on is its first digits and something above them. -/
theorem take_continues
    {bytes : List UInt8} {n k : Nat}
    (h : IsVarInt bytes n)
    (hk : k < bytes.length) :
    (∀ b ∈ bytes.take k, 128 ≤ b.toNat) ∧ varIntDigits (bytes.take k) = n % 128 ^ k := by
  induction h generalizing k with
  | last h =>
      obtain rfl : k = 0 := by simpa using hk
      simp [varIntDigits, Nat.mod_one]
  | @more b bytes n hmore htail ih =>
      cases k with
      | zero =>
          simp [varIntDigits, Nat.mod_one]
      | succ k =>
          obtain ⟨hall, hdigits⟩ := ih (Nat.lt_of_succ_lt_succ hk)
          refine ⟨List.forall_mem_cons.mpr ⟨hmore, hall⟩, ?_⟩
          rw [List.take_succ_cons, varIntDigits, hdigits, pow_succ', Nat.mod_mul]
          have hlow : (b.toNat % 128 + 128 * n) % 128 = b.toNat % 128 := by omega
          have hhigh : (b.toNat % 128 + 128 * n) / 128 = n := by omega
          rw [hlow, hhigh]

/-- A spelling whose last byte carries something is minimal. -/
theorem minimal
    {bytes : List UInt8} {n : Nat}
    (h : IsVarInt bytes n)
    (hleast : bytes.length = 1 ∨ 128 ^ (bytes.length - 1) ≤ n) :
    MinimalVarInt bytes n := by
  refine ⟨h, ?_⟩
  intro other hother
  have hpos := hother.length_pos
  rcases hleast with hone | hleast
  · omega
  · have hlt : 128 ^ (bytes.length - 1) < 128 ^ other.length :=
      lt_of_le_of_lt hleast hother.lt_pow
    have := (Nat.pow_lt_pow_iff_right (by omega : 1 < 128)).mp hlt
    omega

end IsVarInt

end Lib
end PahoMqtt
