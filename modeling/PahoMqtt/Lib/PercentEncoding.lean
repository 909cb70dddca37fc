import PahoMqtt.Lib.CStrings

/-!
# Percent-encoding

A percent sign and two hexadecimal digits stand for the byte with that value; all
other bytes stand for themselves.
-/

namespace PahoMqtt
namespace Lib

def isxdigit (b : UInt8) : Bool :=
  isdigit b || (65 ≤ b && b ≤ 70) || (97 ≤ b && b ≤ 102)

/-- The value of a hexadecimal digit. -/
def hexValue (b : UInt8) : Nat :=
  if isdigit b then b.toNat - 48 else if b ≤ 70 then b.toNat - 55 else b.toNat - 87

def percentByte (high low : UInt8) : UInt8 := UInt8.ofNat (hexValue high * 16 + hexValue low)

/-- Each escape is replaced; a percent sign that begins none stands for itself. -/
def percentDecode : List UInt8 → List UInt8
  | b :: high :: low :: rest =>
      if b = 37 ∧ isxdigit high = true ∧ isxdigit low = true then
        percentByte high low :: percentDecode rest
      else
        b :: percentDecode (high :: low :: rest)
  | s => s

/-- Two hexadecimal digits stand at the beginning. -/
def HexPair (s : List UInt8) : Prop :=
  ∃ high low rest, s = high :: low :: rest ∧ isxdigit high = true ∧ isxdigit low = true

/-- Every percent sign begins an escape. -/
def WellEscaped (s : List UInt8) : Prop :=
  ∀ before after, s = before ++ 37 :: after → HexPair after

theorem isxdigit_ne_percent
    {b : UInt8}
    (h : isxdigit b = true) :
    b ≠ 37 := by
  rintro rfl
  revert h
  decide

theorem percentDecode_nil : percentDecode [] = [] := rfl

theorem percentDecode_cons
    {b : UInt8} {s : List UInt8}
    (h : ¬(b = 37 ∧ HexPair s)) :
    percentDecode (b :: s) = b :: percentDecode s := by
  match s with
  | [] => rfl
  | [_] => rfl
  | high :: low :: rest =>
      rw [percentDecode, if_neg]
      rintro ⟨hb, hhigh, hlow⟩
      exact h ⟨hb, high, low, rest, rfl, hhigh, hlow⟩

theorem percentDecode_escape
    {high low : UInt8}
    (hhigh : isxdigit high = true)
    (hlow : isxdigit low = true) (rest : List UInt8) :
    percentDecode (37 :: high :: low :: rest) = percentByte high low :: percentDecode rest := by
  rw [percentDecode]
  exact if_pos ⟨rfl, hhigh, hlow⟩

theorem wellEscaped_nil : WellEscaped [] := by
  intro before after h
  cases before <;> cases h

theorem wellEscaped_cons_iff
    {b : UInt8} {s : List UInt8} :
    WellEscaped (b :: s) ↔ (b = 37 → HexPair s) ∧ WellEscaped s := by
  constructor
  · intro h
    refine ⟨?_, ?_⟩
    · rintro rfl
      exact h [] s rfl
    · intro before after hs
      exact h (b :: before) after (by rw [hs, List.cons_append])
  · rintro ⟨hhead, htail⟩ before after hs
    cases before with
    | nil =>
        obtain ⟨rfl, rfl⟩ := List.cons.inj hs
        exact hhead rfl
    | cons c before =>
        exact htail before after (List.cons.inj hs).2

theorem wellEscaped_escape_iff
    {high low : UInt8}
    (hhigh : isxdigit high = true)
    (hlow : isxdigit low = true) {rest : List UInt8} :
    WellEscaped (37 :: high :: low :: rest) ↔ WellEscaped rest := by
  rw [wellEscaped_cons_iff, wellEscaped_cons_iff, wellEscaped_cons_iff]
  constructor
  · rintro ⟨-, -, -, h⟩
    exact h
  · intro h
    exact ⟨fun _ => ⟨high, low, rest, rfl, hhigh, hlow⟩,
      fun h' => absurd h' (isxdigit_ne_percent hhigh),
      fun h' => absurd h' (isxdigit_ne_percent hlow), h⟩

theorem length_percentDecode_le
    (s : List UInt8) :
    (percentDecode s).length ≤ s.length := by
  fun_induction percentDecode s with
  | case1 b high low rest hescape ih =>
      simp only [List.length_cons]
      omega
  | case2 b high low rest hplain ih =>
      simp only [List.length_cons] at ih ⊢
      omega
  | case3 s hshort =>
      exact Nat.le_refl _

/-- A text that stands for nothing is empty. -/
theorem percentDecode_eq_nil
    {s : List UInt8} :
    percentDecode s = [] ↔ s = [] := by
  constructor
  · intro h
    fun_induction percentDecode s with
    | case1 b high low rest hescape ih => cases h
    | case2 b high low rest hplain ih => cases h
    | case3 s hshort => exact h
  · rintro rfl
    rfl

end Lib
end PahoMqtt
