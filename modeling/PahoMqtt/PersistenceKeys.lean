import PahoMqtt.Lib.ExactMap
import PahoMqtt.Packets

/-!
# Keys of the persistent store

A record's key is a stem followed by a number in decimal, printed by `snprintf`
into a buffer of a fixed size; a key that does not fit is an error.  The stems
of MQTTPersistence.h all end with their only dash and a number has none, so
the key determines both the stem and the number.
-/

namespace PahoMqtt

/-- The stems of MQTTPersistence.h. -/
inductive Stem where
  | publishSent
  | pubrel
  | publishReceived
  | v5PublishSent
  | v5Pubrel
  | v5PublishReceived
  | command
  | v5Command
  | queue
  | v5Queue
deriving DecidableEq, Repr

abbrev Key := List Char

/-- The records of a client, by their keys. -/
abbrev Store := Lib.ExactMap Key Bytes

namespace Stem

def text : Stem → List Char
  | .publishSent => ['s', '-']
  | .pubrel => ['s', 'c', '-']
  | .publishReceived => ['r', '-']
  | .v5PublishSent => ['s', '5', '-']
  | .v5Pubrel => ['s', 'c', '5', '-']
  | .v5PublishReceived => ['r', '5', '-']
  | .command => ['c', '-']
  | .v5Command => ['c', '5', '-']
  | .queue => ['q', '-']
  | .v5Queue => ['q', '5', '-']

/-- The stem and the number as `"%s%d"` prints them. -/
def key (stem : Stem) (n : Nat) : Key :=
  stem.text ++ Nat.toDigits 10 n

/-- `snprintf(key, keysize, "%s%d", stem, n)`; `none` where it reports `keysize` or more. -/
def snprintf (keysize : Nat) (stem : Stem) (n : Nat) : Option Key :=
  if (stem.key n).length ≥ keysize then none else some (stem.key n)

/-- `strncmp(key, stem, strlen(stem)) == 0` -/
def isStemOf (stem : Stem) (key : Key) : Bool :=
  stem.text.isPrefixOf key

theorem dash_not_mem_toDigits
    (n : Nat) :
    '-' ∉ Nat.toDigits 10 n := by
  intro hmem
  have hdigit : ('-').isDigit = true :=
    Nat.isDigit_of_mem_toDigits (by decide) (by decide) hmem
  exact absurd hdigit (by decide)

theorem text_eq
    (stem : Stem) :
    ∃ front : List Char, '-' ∉ front ∧ stem.text = front ++ ['-'] := by
  cases stem <;> exact ⟨_, by decide, (List.dropLast_append_getLast (by decide)).symm⟩

/-- A key determines its stem and its number. -/
theorem key_eq_key
    {stem₁ stem₂ : Stem} {n₁ n₂ : Nat} :
    stem₁.key n₁ = stem₂.key n₂ ↔ stem₁ = stem₂ ∧ n₁ = n₂ := by
  constructor
  · intro h
    obtain ⟨front₁, hdash, h₁⟩ := text_eq stem₁
    obtain ⟨front₂, _, h₂⟩ := text_eq stem₂
    have hsplit : front₁ ++ '-' :: Nat.toDigits 10 n₁ = front₂ ++ '-' :: Nat.toDigits 10 n₂ := by
      simpa [key, h₁, h₂] using h
    obtain ⟨hfront, _, hdigits⟩ :=
      (List.append_cons_inj_of_notMem hdash (dash_not_mem_toDigits n₁)).mp hsplit
    have htext : stem₁.text = stem₂.text := by
      rw [h₁, h₂, hfront]
    refine ⟨?_, ?_⟩
    · revert htext
      cases stem₁ <;> cases stem₂ <;> simp [text]
    · have hnumber := congrArg (Nat.ofDigitChars 10 · 0) hdigits
      simpa using hnumber
  · rintro ⟨rfl, rfl⟩
    rfl

/-- Only its own stem is a prefix of a key. -/
@[simp] theorem isStemOf_key
    (stem₁ stem₂ : Stem) (n : Nat) :
    stem₁.isStemOf (stem₂.key n) = decide (stem₁ = stem₂) := by
  cases stem₁ <;> cases stem₂ <;> simp [isStemOf, key, text, List.isPrefixOf]

/-- `atoi(strchr(key, '-') + 1)` -/
def number (key : Key) : Nat :=
  Nat.ofDigitChars 10 ((key.dropWhile (· ≠ '-')).drop 1) 0

@[simp] theorem number_key
    (stem : Stem) (n : Nat) :
    number (stem.key n) = n := by
  obtain ⟨front, hdash, htext⟩ := text_eq stem
  have hdrop : (stem.key n).dropWhile (· ≠ '-') = '-' :: Nat.toDigits 10 n := by
    rw [key, htext, List.append_assoc, List.dropWhile_append_of_pos]
    · simp
    · intro c hc
      have hne : c ≠ '-' := by
        rintro rfl
        exact hdash hc
      simpa using hne
  rw [number, hdrop]
  simp

/-- The length of a key, by the digits of its number. -/
theorem key_length_le_iff
    (stem : Stem) {n k : Nat} (hk : 0 < k) :
    (stem.key n).length ≤ stem.text.length + k ↔ n < 10 ^ k := by
  rw [key, List.length_append, Nat.add_le_add_iff_left]
  exact Nat.length_toDigits_le_iff (by decide) hk

end Stem

end PahoMqtt
