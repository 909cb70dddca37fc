import Mathlib.Data.List.Basic
import Mathlib.Data.List.TakeWhile

/-!
# Strings that end with a zero byte

The comparison of a memory area with a string, for at most `n` bytes, the search
for a byte from either end, and the number at the beginning of a string.  A pointer
into an area is the rest of the area from there on.
-/

namespace PahoMqtt
namespace Lib

/-- The bytes of a literal. -/
def ascii (s : String) : List UInt8 := s.toList.map fun c => UInt8.ofNat c.toNat

/-- `strncmp` returns 0; both areas are read up to a zero byte. -/
def strncmp : (n : Nat) → List UInt8 → List UInt8 → Bool
  | 0, _, _ => true
  | n + 1, a :: as, b :: bs => a = b && (a = 0 || strncmp n as bs)
  | _ + 1, _, _ => false

/-- `tolower` -/
def tolower (c : UInt8) : UInt8 := if 65 ≤ c ∧ c ≤ 90 then c + 32 else c

/-- `memchr`: the rest of the area from the first `c` on, if that is among the first `n` bytes. -/
def memchr (c : UInt8) (n : Nat) (p : List UInt8) : Option (List UInt8) :=
  if c ∈ p.take n then some (p.dropWhile (· ≠ c)) else none

/--
The comparison with a string succeeds on an area that begins with the part of the
string that is compared, with its end if all of it is.
-/
theorem strncmp_iff
    {s : List UInt8}
    (hs : 0 ∉ s)
    (n : Nat) (a : List UInt8) :
    strncmp n a (s ++ [0]) = true ↔
      (n ≤ s.length ∧ s.take n <+: a) ∨ (s.length < n ∧ s ++ [0] <+: a) := by
  induction n generalizing a s with
  | zero =>
      simp [strncmp]
  | succ n ih =>
      cases s with
      | nil =>
          cases a with
          | nil => simp [strncmp]
          | cons x a =>
              by_cases hx : x = 0
              · simp [strncmp, hx]
              · simp [strncmp, hx, Ne.symm hx]
      | cons c s =>
          rw [List.mem_cons, not_or] at hs
          obtain ⟨hc, hs⟩ := hs
          cases a with
          | nil => simp [strncmp]
          | cons x a =>
              simp only [List.cons_append, strncmp, List.length_cons, List.take_succ_cons,
                List.cons_prefix_cons, Nat.add_le_add_iff_right, Nat.add_lt_add_iff_right]
              by_cases hx : x = c
              · subst hx
                have hne : x ≠ 0 := Ne.symm hc
                simp [hne, ih hs]
              · simp [hx, Ne.symm hx]

/-- The comparison with all of a string but its end. -/
theorem strncmp_length_iff
    {s : List UInt8}
    (hs : 0 ∉ s)
    (a : List UInt8) :
    strncmp s.length a s = true ↔ s <+: a := by
  induction s generalizing a with
  | nil =>
      simp [strncmp]
  | cons c s ih =>
      rw [List.mem_cons, not_or] at hs
      obtain ⟨hc, hs⟩ := hs
      cases a with
      | nil => simp [strncmp]
      | cons x a =>
          by_cases hx : x = c
          · subst hx
            simp [strncmp, Ne.symm hc, ih hs]
          · simp [strncmp, hx, Ne.symm hx]

theorem dropWhile_ne_cons
    {c : UInt8} {p : List UInt8}
    (h : c ∈ p) :
    ∃ rest, p.dropWhile (· ≠ c) = c :: rest := by
  induction p with
  | nil =>
      cases h
  | cons x p ih =>
      by_cases hx : x = c
      · exact ⟨p, by simp [hx]⟩
      · obtain ⟨rest, hrest⟩ := ih ((List.mem_cons.mp h).resolve_left (Ne.symm hx))
        refine ⟨rest, ?_⟩
        rw [List.dropWhile_cons, if_pos (by simpa using hx)]
        exact hrest

/-- The area is what comes before the byte, and the rest. -/
theorem memchr_split
    {c : UInt8} {n : Nat} {p q : List UInt8}
    (h : memchr c n p = some q) :
    p = p.takeWhile (· ≠ c) ++ q ∧ ∃ rest, q = c :: rest := by
  rw [memchr] at h
  split at h
  case isFalse =>
    cases h
  case isTrue hmem =>
    obtain rfl := Option.some.inj h
    exact ⟨List.takeWhile_append_dropWhile.symm, dropWhile_ne_cons (List.mem_of_mem_take hmem)⟩

/-- `strrchr`: how many bytes come before the last `c`. -/
def strrchr (c : UInt8) : List UInt8 → Option Nat
  | [] => none
  | b :: s =>
      match strrchr c s with
      | some i => some (i + 1)
      | none => if b = c then some 0 else none

theorem strrchr_none
    {c : UInt8} {s : List UInt8}
    (h : c ∉ s) :
    strrchr c s = none := by
  induction s with
  | nil =>
      rfl
  | cons b s ih =>
      rw [List.mem_cons, not_or] at h
      simp [strrchr, ih h.2, Ne.symm h.1]

/-- What follows the last `c` does not matter. -/
theorem strrchr_append
    {c : UInt8} {rest : List UInt8}
    (h : c ∉ rest) (s : List UInt8) :
    strrchr c (s ++ c :: rest) = some s.length := by
  induction s with
  | nil =>
      simp [strrchr, strrchr_none h]
  | cons b s ih =>
      simp [strrchr, ih]

/-- A byte that is there has a last place. -/
theorem strrchr_split
    {c : UInt8} {s : List UInt8}
    (h : c ∈ s) :
    ∃ before after, s = before ++ c :: after ∧ c ∉ after ∧ strrchr c s = some before.length := by
  obtain ⟨after, before, hsplit, hnot⟩ :=
    List.eq_append_cons_of_mem (List.mem_reverse.mpr h)
  have hs : s = before.reverse ++ c :: after.reverse := by
    rw [← List.reverse_reverse s, hsplit]
    simp
  have hafter : c ∉ after.reverse := by
    rw [List.mem_reverse]
    exact hnot
  refine ⟨before.reverse, after.reverse, hs, hafter, ?_⟩
  rw [hs]
  exact strrchr_append hafter before.reverse

/-- A `c` in the second part is the last one. -/
theorem strrchr_append_of_mem
    {c : UInt8} {rest : List UInt8}
    (h : c ∈ rest) (s : List UInt8) :
    ∃ i, strrchr c rest = some i ∧ strrchr c (s ++ rest) = some (s.length + i) := by
  obtain ⟨before, after, rfl, hafter, hlast⟩ := strrchr_split h
  refine ⟨before.length, hlast, ?_⟩
  rw [← List.append_assoc, strrchr_append hafter, List.length_append]

/-- Without a `c` in the second part it is looked for in the first. -/
theorem strrchr_append_of_not_mem
    {c : UInt8} {rest : List UInt8}
    (h : c ∉ rest) (s : List UInt8) :
    strrchr c (s ++ rest) = strrchr c s := by
  induction s with
  | nil =>
      rw [List.nil_append, strrchr_none h]
      rfl
  | cons b s ih =>
      rw [List.cons_append, strrchr, ih, strrchr]

theorem strrchr_lt
    {c : UInt8} {s : List UInt8} {i : Nat}
    (h : strrchr c s = some i) :
    i < s.length := by
  by_cases hmem : c ∈ s
  · obtain ⟨before, after, hsplit, -, hlast⟩ := strrchr_split hmem
    rw [h] at hlast
    rw [Option.some.inj hlast, hsplit]
    simp
  · rw [strrchr_none hmem] at h
    cases h

/-- `strchr`: how many bytes come before the first `c`. -/
def strchr (c : UInt8) : List UInt8 → Option Nat
  | [] => none
  | b :: s => if b = c then some 0 else (strchr c s).map (· + 1)

theorem strchr_none
    {c : UInt8} {s : List UInt8}
    (h : c ∉ s) :
    strchr c s = none := by
  induction s with
  | nil =>
      rfl
  | cons b s ih =>
      rw [List.mem_cons, not_or] at h
      rw [strchr, if_neg (Ne.symm h.1), ih h.2]
      rfl

theorem strchr_append
    {c : UInt8} {s : List UInt8}
    (h : c ∉ s) (rest : List UInt8) :
    strchr c (s ++ c :: rest) = some s.length := by
  induction s with
  | nil =>
      rw [List.nil_append, strchr, if_pos rfl]
      rfl
  | cons b s ih =>
      rw [List.mem_cons, not_or] at h
      rw [List.cons_append, strchr, if_neg (Ne.symm h.1), ih h.2]
      rfl

def isspace (b : UInt8) : Bool := b = 32 || (9 ≤ b && b ≤ 13)

def isdigit (b : UInt8) : Bool := 48 ≤ b && b ≤ 57

/-- The number that digits stand for. -/
def decimal (digits : List UInt8) : Nat :=
  digits.foldl (fun n b => 10 * n + (b.toNat - 48)) 0

/-- `atoi`, for numbers that an `int` holds. -/
def atoi (s : List UInt8) : Int :=
  match s.dropWhile isspace with
  | 45 :: rest => -decimal (rest.takeWhile isdigit)
  | 43 :: rest => decimal (rest.takeWhile isdigit)
  | rest => decimal (rest.takeWhile isdigit)

/-- The number ends at the first byte that is no digit. -/
theorem atoi_append
    {digits rest : List UInt8}
    (h : ∀ b ∈ digits, isdigit b = true)
    (hrest : ∀ b ∈ rest.head?, isdigit b = false ∧ isspace b = false ∧ b ≠ 45 ∧ b ≠ 43) :
    atoi (digits ++ rest) = decimal digits := by
  have htake : (digits ++ rest).takeWhile isdigit = digits := by
    rw [List.takeWhile_append_of_pos h]
    cases rest with
    | nil => simp
    | cons b rest =>
        rw [List.takeWhile_cons_of_neg (by rw [(hrest b rfl).1]; decide), List.append_nil]
  have hhead : ∀ b ∈ (digits ++ rest).head?, isspace b = false ∧ b ≠ 45 ∧ b ≠ 43 := by
    cases digits with
    | nil => exact fun b hb => (hrest b hb).2
    | cons b digits =>
        intro c hc
        obtain rfl : b = c := by simpa using hc
        have hb := h b List.mem_cons_self
        rw [isdigit, Bool.and_eq_true, decide_eq_true_eq, decide_eq_true_eq] at hb
        rw [isspace]
        grind
  generalize digits ++ rest = text at htake hhead
  cases text with
  | nil =>
      obtain rfl : digits = [] := htake.symm
      rfl
  | cons b text =>
      obtain ⟨hspace, hminus, hplus⟩ := hhead b rfl
      rw [atoi, List.dropWhile_cons_of_neg (by rw [hspace]; decide)]
      split
      · rename_i heq
        exact absurd (List.cons.inj heq).1 hminus
      · rename_i heq
        exact absurd (List.cons.inj heq).1 hplus
      · rw [htake]

theorem atoi_digits
    {digits : List UInt8}
    (h : ∀ b ∈ digits, isdigit b = true) :
    atoi digits = decimal digits := by
  have hall : atoi (digits ++ []) = decimal digits := atoi_append h (by simp)
  rw [List.append_nil] at hall
  exact hall

end Lib
end PahoMqtt
