import Mathlib.Data.List.Nodup

/-!
# A list that is walked through while it changes

A cursor stands at an element of a list without duplicates, or nowhere.  What
is left to walk through are the elements from the cursor on.  Elements that are
appended are left to be reached, elements that are removed are not, and moving
the cursor on takes the first one away.
-/

namespace PahoMqtt
namespace Lib

universe u

variable {α : Type u} {xs ys : List α} {x y : α} {cur : Option α}

/-- The cursor stands at an element, or nowhere. -/
def Within (xs : List α) (cur : Option α) : Prop :=
  ∀ x ∈ cur, x ∈ xs

theorem within_none
    (xs : List α) :
    Within xs none := by
  intro x hx
  cases hx

theorem within_some :
    Within xs (some x) ↔ x ∈ xs := by
  simp [Within]

theorem Within.append
    (h : Within xs cur) (ys : List α) :
    Within (xs ++ ys) cur := fun x hx =>
  List.mem_append_left ys (h x hx)

variable [DecidableEq α]

/-- The elements from the cursor on. -/
def rest (xs : List α) : Option α → List α
  | none => []
  | some x => xs.dropWhile (· ≠ x)

/-- The element after `x`. -/
def following (xs : List α) (x : α) : Option α :=
  (rest xs (some x)).tail.head?

/-- The cursor where `x` is about to be removed: it is moved on if it stands there. -/
def past (xs : List α) (cur : Option α) (x : α) : Option α :=
  if cur = some x then following xs x else cur

@[simp] theorem rest_none
    (xs : List α) :
    rest xs none = [] :=
  rfl

theorem rest_suffix
    (xs : List α) (cur : Option α) :
    rest xs cur <:+ xs := by
  cases cur with
  | none => exact List.nil_suffix
  | some x => exact List.dropWhile_suffix _

theorem rest_nodup
    (h : xs.Nodup) (cur : Option α) :
    (rest xs cur).Nodup :=
  h.sublist (rest_suffix xs cur).sublist

/-- The cursor parts the list. -/
theorem rest_split
    {before after : List α}
    (h : x ∉ before) :
    rest (before ++ x :: after) (some x) = x :: after := by
  have hne : ∀ y ∈ before, decide (y ≠ x) = true := by
    intro y hy
    exact decide_eq_true fun heq => h (heq ▸ hy)
  rw [rest, List.dropWhile_append_of_pos hne, List.dropWhile_cons_of_neg (by simp)]

theorem rest_cons
    (hx : x ∈ xs) :
    ∃ after, rest xs (some x) = x :: after := by
  obtain ⟨before, after, rfl, hbefore⟩ := List.eq_append_cons_of_mem hx
  exact ⟨after, rest_split hbefore⟩

/-- Moving the cursor on takes the first element away. -/
theorem rest_following
    (hnodup : xs.Nodup)
    (hx : x ∈ xs) :
    rest xs (following xs x) = (rest xs (some x)).tail := by
  obtain ⟨before, after, rfl, hbefore⟩ := List.eq_append_cons_of_mem hx
  rw [following, rest_split hbefore, List.tail_cons]
  cases after with
  | nil => rfl
  | cons y after =>
      have hsplit : before ++ x :: y :: after = (before ++ [x]) ++ y :: after := by
        rw [List.append_assoc, List.singleton_append]
      rw [hsplit] at hnodup ⊢
      exact rest_split fun hy =>
        (List.nodup_append.mp hnodup).2.2 y hy y List.mem_cons_self rfl

/-- What is left once the cursor has come to an element and is moved on. -/
theorem rest_of_suffix
    {after : List α}
    (hnodup : xs.Nodup)
    (h : x :: after <:+ xs) :
    rest xs (following xs x) = after := by
  obtain ⟨before, rfl⟩ := h
  have hbefore : x ∉ before := fun hx =>
    (List.nodup_append.mp hnodup).2.2 x hx x List.mem_cons_self rfl
  rw [rest_following hnodup (List.mem_append_right _ List.mem_cons_self), rest_split hbefore,
    List.tail_cons]

/-- What is appended is left to be reached. -/
theorem rest_append
    (hx : x ∈ xs) (ys : List α) :
    rest (xs ++ ys) (some x) = rest xs (some x) ++ ys := by
  obtain ⟨before, after, rfl, hbefore⟩ := List.eq_append_cons_of_mem hx
  rw [List.append_assoc, List.cons_append, rest_split hbefore, rest_split hbefore,
    List.cons_append]

/-- What is removed is not left, where it is not the element at the cursor. -/
theorem rest_erase
    (hnodup : xs.Nodup)
    (hx : x ∈ xs)
    (hne : x ≠ y) :
    rest (xs.erase y) (some x) = (rest xs (some x)).erase y := by
  obtain ⟨before, after, rfl, hbefore⟩ := List.eq_append_cons_of_mem hx
  rw [rest_split hbefore]
  by_cases hy : y ∈ before
  · have hafter : y ∉ x :: after := fun hmem =>
      (List.nodup_append.mp hnodup).2.2 y hy y hmem rfl
    rw [List.erase_append_left _ hy, List.erase_of_not_mem hafter]
    exact rest_split fun hmem => hbefore (List.mem_of_mem_erase hmem)
  · rw [List.erase_append_right _ hy, List.erase_cons_tail (by simpa using hne)]
    exact rest_split hbefore

theorem within_following
    (xs : List α) (x : α) :
    Within xs (following xs x) := fun _ hy =>
  (rest_suffix xs (some x)).subset (List.mem_of_mem_tail (List.mem_of_head? hy))

/-- What is removed is not left. -/
theorem rest_past
    (hnodup : xs.Nodup)
    (hcur : Within xs cur) (y : α) :
    rest (xs.erase y) (past xs cur y) = (rest xs cur).erase y := by
  rw [past]
  split
  case isFalse hne =>
    cases cur with
    | none => rfl
    | some x => exact rest_erase hnodup (within_some.mp hcur) fun heq => hne (congrArg some heq)
  case isTrue heq =>
    subst heq
    have hy := within_some.mp hcur
    obtain ⟨after, hrest⟩ := rest_cons hy
    have hnext := rest_following hnodup hy
    have hleft := rest_nodup hnodup (some y)
    rw [hrest, List.tail_cons] at hnext
    rw [hrest] at hleft
    rw [hrest, List.erase_cons_head]
    -- The element that the cursor moves on to is another one.
    cases hfollowing : following xs y with
    | none =>
        rw [hfollowing] at hnext
        exact hnext
    | some z =>
        have hz := within_following xs y z hfollowing
        rw [hfollowing] at hnext
        obtain ⟨after', hrest'⟩ := rest_cons hz
        have hne : z ≠ y := by
          rintro rfl
          exact (List.nodup_cons.mp hleft).1 (hnext ▸ hrest' ▸ List.mem_cons_self)
        rw [rest_erase hnodup hz hne, hnext, List.erase_of_not_mem (List.nodup_cons.mp hleft).1]

theorem Within.past
    (hnodup : xs.Nodup)
    (hcur : Within xs cur) (y : α) :
    Within (xs.erase y) (past xs cur y) := by
  intro z hz
  have hmem : z ∈ xs ∧ z ≠ y := by
    rw [Lib.past] at hz
    split at hz
    case isFalse hne =>
      refine ⟨hcur z hz, ?_⟩
      rintro rfl
      exact hne hz
    case isTrue heq =>
      subst heq
      have hy := within_some.mp hcur
      have hzy := within_following xs y z hz
      refine ⟨hzy, ?_⟩
      rintro rfl
      obtain ⟨after, hrest⟩ := rest_cons hy
      have hnext := rest_following hnodup hy
      rw [show following xs z = some z from hz, hrest, List.tail_cons] at hnext
      exact absurd (congrArg List.length hnext) (by simp)
  exact (List.Nodup.mem_erase_iff hnodup).mpr ⟨hmem.2, hmem.1⟩

end Lib
end PahoMqtt
