import PahoMqtt.Lib.CStrings
import Mathlib.Tactic

/-!
# Base64

Three bytes are a number of 24 bits, which four characters of an alphabet of 64
spell.  One or two bytes at the end are filled up with zero bits to a number of
whole characters, and the missing characters are padding.
-/

namespace PahoMqtt
namespace Lib

def base64Alphabet : List UInt8 :=
  ascii "ABCDEFGHIJKLMNOPQRSTUVWXYZabcdefghijklmnopqrstuvwxyz0123456789+/"

/-- `=` -/
def base64Pad : UInt8 := 61

/-- The character for a number below 64. -/
def base64Digit (n : Nat) : UInt8 := base64Alphabet.getD n base64Pad

def base64Text : List UInt8 → List UInt8
  | [] => []
  | [a] =>
      let n := a.toNat * 16
      [base64Digit (n / 64), base64Digit (n % 64), base64Pad, base64Pad]
  | [a, b] =>
      let n := a.toNat * 1024 + b.toNat * 4
      [base64Digit (n / 4096), base64Digit (n / 64 % 64), base64Digit (n % 64), base64Pad]
  | a :: b :: c :: rest =>
      let n := a.toNat * 65536 + b.toNat * 256 + c.toNat
      base64Digit (n / 262144) :: base64Digit (n / 4096 % 64) ::
        base64Digit (n / 64 % 64) :: base64Digit (n % 64) :: base64Text rest

theorem length_base64Text
    (x : List UInt8) :
    (base64Text x).length = 4 * ((x.length + 2) / 3) := by
  induction x using base64Text.induct with
  | case1 => rfl
  | case2 a => simp [base64Text]
  | case3 a b => simp [base64Text]
  | case4 a b c rest ih =>
      rw [base64Text]
      simp only [List.length_cons, ih]
      omega

theorem base64Digit_ne_pad
    {n : Nat}
    (h : n < 64) :
    base64Digit n ≠ base64Pad := by
  revert n
  decide

theorem base64Digit_pad : base64Digit 64 = base64Pad := by
  decide

/-- The characters of a text are the 64 of the alphabet and the padding. -/
theorem exists_digit_of_mem
    {x : List UInt8} {c : UInt8}
    (h : c ∈ base64Text x) :
    ∃ n ≤ 64, c = base64Digit n := by
  induction x using base64Text.induct with
  | case1 => cases h
  | case2 a =>
      have ha := a.toNat_lt
      simp only [base64Text, ← base64Digit_pad, List.mem_cons, List.not_mem_nil, or_false] at h
      rcases h with rfl | rfl | rfl | rfl
      all_goals exact ⟨_, by omega, rfl⟩
  | case3 a b =>
      have ha := a.toNat_lt
      have hb := b.toNat_lt
      simp only [base64Text, ← base64Digit_pad, List.mem_cons, List.not_mem_nil, or_false] at h
      rcases h with rfl | rfl | rfl | rfl
      all_goals exact ⟨_, by omega, rfl⟩
  | case4 a b c rest ih =>
      have ha := a.toNat_lt
      have hb := b.toNat_lt
      have hc := c.toNat_lt
      simp only [base64Text, List.mem_cons] at h
      rcases h with rfl | rfl | rfl | rfl | h
      case inr.inr.inr.inr => exact ih h
      all_goals exact ⟨_, by omega, rfl⟩

/-- The padding at the end says how many bytes are left over. -/
theorem base64Text_ends
    {x : List UInt8}
    (hx : x ≠ []) :
    ((base64Text x)[(base64Text x).length - 2]? = some base64Pad ↔ x.length % 3 = 1) ∧
      ((base64Text x)[(base64Text x).length - 1]? = some base64Pad ↔ x.length % 3 ≠ 0) := by
  induction x using base64Text.induct with
  | case1 => exact absurd rfl hx
  | case2 a => simp [base64Text]
  | case3 a b =>
      simp only [base64Text, List.length_cons, List.length_nil]
      have hdigit := base64Digit_ne_pad (n := (a.toNat * 1024 + b.toNat * 4) % 64) (by omega)
      simp [hdigit]
  | case4 a b c rest ih =>
      rw [base64Text]
      by_cases hrest : rest = []
      · have h₂ := base64Digit_ne_pad (n := (a.toNat * 65536 + b.toNat * 256 + c.toNat) / 64 % 64)
          (by omega)
        have h₃ := base64Digit_ne_pad (n := (a.toNat * 65536 + b.toNat * 256 + c.toNat) % 64)
          (by omega)
        simp [hrest, base64Text, h₂, h₃]
      · obtain ⟨htwo, hone⟩ := ih hrest
        have hpos : 4 ≤ (base64Text rest).length := by
          have := List.length_pos_of_ne_nil hrest
          rw [length_base64Text]
          omega
        have hskip : ∀ back, 1 ≤ back → back ≤ 4 → ∀ c₀ c₁ c₂ c₃,
            (c₀ :: c₁ :: c₂ :: c₃ :: base64Text rest)[(base64Text rest).length + 4 - back]? =
              (base64Text rest)[(base64Text rest).length - back]? := by
          intro back h₁ h₄ c₀ c₁ c₂ c₃
          rw [(by omega : (base64Text rest).length + 4 - back =
            (base64Text rest).length - back + 1 + 1 + 1 + 1)]
          rfl
        have hmod : (rest.length + 1 + 1 + 1) % 3 = rest.length % 3 := by omega
        simp only [List.length_cons, Nat.add_assoc, Nat.reduceAdd] at hskip hmod ⊢
        rw [hskip 2 (by omega) (by omega), hskip 1 (by omega) (by omega), hmod]
        exact ⟨htwo, hone⟩

end Lib
end PahoMqtt
