import Mathlib.Logic.Function.Iterate

/-!
# Searching a ring for a free element

The elements are tried one after the other from a given one on, until one is
free or the search comes round to the element it must not reach.  Nothing is
assumed of the successor function: where the search never comes round, and all
that it tries is in use, it does not end, which shows as running out of fuel.
-/

namespace PahoMqtt
namespace Lib

universe u

inductive SearchResult (α : Type u) where
  | found (a : α)
  | cameRound
  | outOfFuel
deriving DecidableEq

variable {α : Type u} [DecidableEq α]

/-- The search from `a` on, which gives up when it comes to `start`. -/
def cyclicSearch (next : α → α) (used : α → Bool) (start : α) : Nat → α → SearchResult α
  | 0, _ => .outOfFuel
  | fuel + 1, a =>
      if used a then
        if next a = start then .cameRound else cyclicSearch next used start fuel (next a)
      else .found a

variable {next : α → α} {used : α → Bool} {start : α}

/-- `b` is free, and the search passes only used elements on its way from `a` to it. -/
def Reaches (next : α → α) (used : α → Bool) (start : α) (fuel : Nat) (a b : α) : Prop :=
  used b = false ∧ ∃ k < fuel, next^[k] a = b ∧
    ∀ j < k, used (next^[j] a) = true ∧ next^[j + 1] a ≠ start

/-- The search finds exactly the element that it reaches. -/
theorem cyclicSearch_eq_found_iff
    (fuel : Nat) (a b : α) :
    cyclicSearch next used start fuel a = .found b ↔ Reaches next used start fuel a b := by
  induction fuel generalizing a with
  | zero =>
      rw [cyclicSearch]
      constructor
      · intro h
        cases h
      · rintro ⟨_, k, hk, _⟩
        exact absurd hk (Nat.not_lt_zero k)
  | succ fuel ih =>
      rw [cyclicSearch]
      by_cases hused : used a = true
      · rw [if_pos hused]
        by_cases hround : next a = start
        · rw [if_pos hround]
          constructor
          · intro h
            cases h
          · rintro ⟨hfree, k, _, hreach, hpassed⟩
            cases k with
            | zero =>
                obtain rfl : a = b := hreach
                rw [hused] at hfree
                cases hfree
            | succ k =>
                exact absurd hround (hpassed 0 (Nat.succ_pos k)).2
        · rw [if_neg hround, ih (next a)]
          constructor
          · rintro ⟨hfree, k, hk, hreach, hpassed⟩
            refine ⟨hfree, k + 1, Nat.succ_lt_succ hk, hreach, ?_⟩
            intro j hj
            cases j with
            | zero => exact ⟨hused, hround⟩
            | succ j => exact hpassed j (Nat.lt_of_succ_lt_succ hj)
          · rintro ⟨hfree, k, hk, hreach, hpassed⟩
            cases k with
            | zero =>
                obtain rfl : a = b := hreach
                rw [hused] at hfree
                cases hfree
            | succ k =>
                exact ⟨hfree, k, Nat.lt_of_succ_lt_succ hk, hreach,
                  fun j hj => hpassed (j + 1) (Nat.succ_lt_succ hj)⟩
      · rw [if_neg hused]
        constructor
        · intro h
          obtain rfl := SearchResult.found.inj h
          exact ⟨eq_false_of_ne_true hused, 0, Nat.succ_pos fuel, rfl,
            fun j hj => absurd hj (Nat.not_lt_zero j)⟩
        · rintro ⟨_, k, _, hreach, hpassed⟩
          cases k with
          | zero =>
              exact congrArg SearchResult.found hreach
          | succ k =>
              exact absurd (hpassed 0 (Nat.succ_pos k)).1 hused

/-- The search does not end where all that it tries is in use and it never comes round. -/
theorem cyclicSearch_eq_outOfFuel_iff
    (fuel : Nat) (a : α) :
    cyclicSearch next used start fuel a = .outOfFuel ↔
      ∀ k < fuel, used (next^[k] a) = true ∧ next^[k + 1] a ≠ start := by
  induction fuel generalizing a with
  | zero =>
      exact iff_of_true rfl fun k hk => absurd hk (Nat.not_lt_zero k)
  | succ fuel ih =>
      rw [cyclicSearch]
      by_cases hused : used a = true
      · rw [if_pos hused]
        by_cases hround : next a = start
        · rw [if_pos hround]
          exact iff_of_false (fun h => by cases h) fun h => (h 0 (Nat.succ_pos fuel)).2 hround
        · rw [if_neg hround, ih (next a)]
          constructor
          · intro h k hk
            cases k with
            | zero => exact ⟨hused, hround⟩
            | succ k => exact h k (Nat.lt_of_succ_lt_succ hk)
          · exact fun h k hk => h (k + 1) (Nat.succ_lt_succ hk)
      · rw [if_neg hused]
        exact iff_of_false (fun h => by cases h) fun h => hused (h 0 (Nat.succ_pos fuel)).1

/-- A search that comes round has passed everything before `start`. -/
theorem exists_of_cameRound
    {fuel : Nat} {a : α}
    (h : cyclicSearch next used start fuel a = .cameRound) :
    ∃ k < fuel, next^[k + 1] a = start ∧ ∀ j ≤ k, used (next^[j] a) = true := by
  induction fuel generalizing a with
  | zero =>
      cases h
  | succ fuel ih =>
      rw [cyclicSearch] at h
      by_cases hused : used a = true
      · rw [if_pos hused] at h
        by_cases hround : next a = start
        · refine ⟨0, Nat.succ_pos fuel, hround, ?_⟩
          intro j hj
          obtain rfl := Nat.le_zero.mp hj
          exact hused
        · rw [if_neg hround] at h
          obtain ⟨k, hk, hstart, hpassed⟩ := ih h
          refine ⟨k + 1, Nat.succ_lt_succ hk, hstart, ?_⟩
          intro j hj
          cases j with
          | zero => exact hused
          | succ j => exact hpassed j (Nat.le_of_succ_le_succ hj)
      · rw [if_neg hused] at h
        cases h

/-- What a search finds, under another name. -/
def SearchResult.map {β : Type u} (f : α → β) : SearchResult α → SearchResult β
  | .found a => .found (f a)
  | .cameRound => .cameRound
  | .outOfFuel => .outOfFuel

/-- The same ring under other names is searched in the same way. -/
theorem cyclicSearch_map
    {β : Type u} [DecidableEq β] {next' : β → β} {used' : β → Bool} {f : α → β}
    (hf : Function.Injective f)
    (hnext : ∀ a, next' (f a) = f (next a))
    (hused : ∀ a, used' (f a) = used a) (fuel : Nat) (a : α) :
    cyclicSearch next' used' (f start) fuel (f a) = (cyclicSearch next used start fuel a).map f := by
  induction fuel generalizing a with
  | zero =>
      rfl
  | succ fuel ih =>
      simp only [cyclicSearch, hused, hnext, hf.eq_iff, ih]
      split
      · split <;> rfl
      · rfl

end Lib
end PahoMqtt
