import Mathlib.Data.Tree.Basic
import Mathlib.Data.List.Nodup

/-!
# Places in a binary tree

A place in a tree is given by the subtree that is found there and the frames of
the nodes above it, the nearest first.  The values of the tree are then those
before the place, those of the subtree and those after it, so that what is done
to the subtree is done to a segment of the values.

A side is `false` for left and `true` for right.  Trees are written with the
child on a given side first, so that a statement and its mirror image are one.
-/

namespace PahoMqtt
namespace Lib
namespace TreePlaces

universe u

variable {α : Type u}

/-- The values in order. -/
def elements : BinaryTree α → List α
  | .nil => []
  | .node a l r => elements l ++ a :: elements r

def rootOf : BinaryTree α → Option α
  | .nil => none
  | .node a _ _ => some a

/-- The node that has the child `x` on the side and `y` on the other one. -/
def join (side : Bool) (a : α) (x y : BinaryTree α) : BinaryTree α :=
  if side then .node a y x else .node a x y

/-- A node above a place: the side on which the place is, and what is on the other one. -/
structure Frame (α : Type u) where
  side : Bool
  value : α
  sibling : BinaryTree α

/-- The tree with `t` at the place. -/
def plug (t : BinaryTree α) : List (Frame α) → BinaryTree α
  | [] => t
  | f :: C => plug (join f.side f.value t f.sibling) C

/-- The values before a place. -/
def before : List (Frame α) → List α
  | [] => []
  | f :: C => before C ++ if f.side then elements f.sibling ++ [f.value] else []

/-- The values after a place. -/
def after : List (Frame α) → List α
  | [] => []
  | f :: C => (if f.side then [] else f.value :: elements f.sibling) ++ after C

/-- The values of the frames and of what is beside them. -/
def around (C : List (Frame α)) : List α :=
  C.flatMap (fun f => f.value :: elements f.sibling)

@[simp] theorem elements_nil :
    elements (.nil : BinaryTree α) = [] := rfl

@[simp] theorem elements_node
    (a : α) (l r : BinaryTree α) :
    elements (.node a l r) = elements l ++ a :: elements r := rfl

@[simp] theorem rootOf_nil :
    rootOf (.nil : BinaryTree α) = none := rfl

@[simp] theorem rootOf_node
    (a : α) (l r : BinaryTree α) :
    rootOf (.node a l r) = some a := rfl

@[simp] theorem plug_nil
    (t : BinaryTree α) :
    plug t [] = t := rfl

@[simp] theorem plug_cons
    (t : BinaryTree α) (f : Frame α) (C : List (Frame α)) :
    plug t (f :: C) = plug (join f.side f.value t f.sibling) C := rfl

theorem rootOf_eq_none
    {t : BinaryTree α} :
    rootOf t = none ↔ t = .nil := by
  cases t with
  | nil => simp
  | node a l r => simp

/-- A tree with a root, whatever side is named first. -/
theorem rootOf_eq_some
    (side : Bool) {t : BinaryTree α} {a : α}
    (h : rootOf t = some a) :
    ∃ x y, t = join side a x y := by
  cases t with
  | nil =>
      cases h
  | node b l r =>
      obtain rfl := Option.some.inj h
      cases side with
      | false => exact ⟨l, r, rfl⟩
      | true => exact ⟨r, l, rfl⟩

@[simp] theorem rootOf_join
    (side : Bool) (a : α) (x y : BinaryTree α) :
    rootOf (join side a x y) = some a := by
  cases side with
  | false => rfl
  | true => rfl

/-- The other side may be named instead. -/
theorem join_not
    (side : Bool) (a : α) (x y : BinaryTree α) :
    join (!side) a x y = join side a y x := by
  cases side with
  | false => rfl
  | true => rfl

theorem mem_elements_of_rootOf
    {t : BinaryTree α} {a : α}
    (h : rootOf t = some a) :
    a ∈ elements t := by
  obtain ⟨x, y, rfl⟩ := rootOf_eq_some false h
  exact List.mem_append_right _ List.mem_cons_self

theorem elements_join_perm
    (side : Bool) (a : α) (x y : BinaryTree α) :
    (elements (join side a x y)).Perm (a :: (elements x ++ elements y)) := by
  cases side with
  | false =>
      exact List.perm_middle
  | true =>
      exact List.perm_middle.trans (List.Perm.cons a List.perm_append_comm)

theorem elements_plug
    (t : BinaryTree α) (C : List (Frame α)) :
    elements (plug t C) = before C ++ elements t ++ after C := by
  induction C generalizing t with
  | nil =>
      simp [before, after]
  | cons f C ih =>
      obtain ⟨side, a, s⟩ := f
      rw [plug_cons, ih]
      cases side with
      | false => simp [join, before, after]
      | true => simp [join, before, after]

theorem around_perm
    (C : List (Frame α)) :
    (before C ++ after C).Perm (around C) := by
  induction C with
  | nil =>
      exact List.Perm.refl _
  | cons f C ih =>
      obtain ⟨side, a, s⟩ := f
      have hswap : ∀ xs : List α, (before C ++ (xs ++ after C)).Perm (xs ++ around C) := by
        intro xs
        refine List.Perm.trans ?_ (ih.append_left xs)
        rw [← List.append_assoc, ← List.append_assoc]
        exact List.perm_append_comm.append_right _
      cases side with
      | false =>
          simpa [before, after, around] using hswap (a :: elements s)
      | true =>
          have hlast := (hswap (elements s ++ [a])).trans
            ((List.perm_append_singleton a (elements s)).append_right (around C))
          simpa [before, after, around] using hlast

/-- The values of a tree are those at a place and those around it. -/
theorem elements_plug_perm
    (t : BinaryTree α) (C : List (Frame α)) :
    (elements (plug t C)).Perm (elements t ++ around C) := by
  rw [elements_plug]
  refine List.Perm.trans ?_ ((around_perm C).append_left (elements t))
  rw [← List.append_assoc]
  exact List.perm_append_comm.append_right _

theorem mem_elements_plug
    {t : BinaryTree α} {a : α}
    (h : rootOf t = some a) (C : List (Frame α)) :
    a ∈ elements (plug t C) :=
  (elements_plug_perm t C).mem_iff.mpr (List.mem_append_left _ (mem_elements_of_rootOf h))

theorem length_le_around
    (C : List (Frame α)) :
    C.length ≤ (around C).length := by
  induction C with
  | nil =>
      exact Nat.le_refl _
  | cons f C ih =>
      have hsplit : around (f :: C) = f.value :: (elements f.sibling ++ around C) := rfl
      rw [hsplit, List.length_cons, List.length_cons, List.length_append]
      omega

/-- What is done to the values at the place is done to those of the tree. -/
theorem elements_plug_congr
    {s t : BinaryTree α}
    (h : elements s = elements t) (C : List (Frame α)) :
    elements (plug s C) = elements (plug t C) := by
  rw [elements_plug, elements_plug, h]

/-- A rotation leaves the order of the values alone. -/
theorem elements_rotate
    (side : Bool) (a b : α) (x m r : BinaryTree α) :
    elements (join side b (join side a x m) r) =
      elements (join (!side) a (join side b m r) x) := by
  cases side with
  | false => simp [join]
  | true => simp [join]

theorem before_append
    (C D : List (Frame α)) :
    before (C ++ D) = before D ++ before C := by
  induction C with
  | nil =>
      simp [before]
  | cons f C ih =>
      rw [List.cons_append, before, ih, before, List.append_assoc]

theorem after_append
    (C D : List (Frame α)) :
    after (C ++ D) = after C ++ after D := by
  induction C with
  | nil =>
      rfl
  | cons f C ih =>
      rw [List.cons_append, after, ih, after, List.append_assoc]

/-- What is at a place below a node does not matter to the root. -/
theorem rootOf_plug_cons
    (s t : BinaryTree α) (f : Frame α) (C : List (Frame α)) :
    rootOf (plug s (f :: C)) = rootOf (plug t (f :: C)) := by
  induction C generalizing s t f with
  | nil =>
      rw [plug_cons, plug_nil, rootOf_join, plug_cons, plug_nil, rootOf_join]
  | cons g C ih =>
      exact ih _ _ g

/-- The root of a tree is above every place but the root itself. -/
theorem mem_around_of_rootOf
    {t : BinaryTree α} {f : Frame α} {C : List (Frame α)} {a : α}
    (h : rootOf (plug t (f :: C)) = some a) :
    a ∈ around (f :: C) := by
  induction C generalizing t f with
  | nil =>
      rw [plug_cons, plug_nil, rootOf_join] at h
      obtain rfl := Option.some.inj h
      exact List.mem_cons_self
  | cons g C ih =>
      exact List.mem_append_right _ (ih h)

/-! ### Nodes and their places -/

/-- Every value is at some place. -/
theorem exists_plug_of_mem
    {a : α} {t : BinaryTree α}
    (h : a ∈ elements t) (C : List (Frame α)) :
    ∃ l r D, plug t C = plug (.node a l r) D := by
  induction t generalizing C with
  | nil =>
      cases h
  | node b l r ihl ihr =>
      rcases List.mem_append.mp h with hl | hr
      · exact ihl hl (⟨false, b, r⟩ :: C)
      rcases List.mem_cons.mp hr with rfl | hr
      · exact ⟨l, r, C, rfl⟩
      · exact ihr hr (⟨true, b, l⟩ :: C)

/-- The place of a value, where the values before and after it are known. -/
theorem exists_plug_of_eq
    {t : BinaryTree α} {a : α} {xs ys : List α}
    (h : elements t = xs ++ a :: ys)
    (hnodup : (elements t).Nodup) :
    ∃ l r C, t = plug (.node a l r) C ∧ xs = before C ++ elements l ∧
      ys = elements r ++ after C := by
  have ha : a ∈ elements t := by
    rw [h]
    exact List.mem_append_right _ List.mem_cons_self
  obtain ⟨l, r, C, hplug⟩ := exists_plug_of_mem ha []
  rw [plug_nil] at hplug
  subst hplug
  rw [h, List.nodup_middle, List.nodup_cons, List.mem_append, not_or] at hnodup
  have hsame : xs ++ a :: ys = (before C ++ elements l) ++ a :: (elements r ++ after C) := by
    rw [← h, elements_plug, elements_node]
    simp only [List.append_assoc, List.cons_append]
  obtain ⟨hxs, _, hys⟩ := (List.append_cons_inj_of_notMem hnodup.1.1 hnodup.1.2).mp hsame
  exact ⟨l, r, C, rfl, hxs, hys⟩

/-- The first value of a tree is at a place that is reached by going left. -/
theorem exists_leftmost
    (a : α) (l r : BinaryTree α) (C : List (Frame α)) :
    ∃ b r' D, plug (.node a l r) C = plug (.node b .nil r') (D ++ C) ∧
      elements (.node a l r) = b :: (elements r' ++ after D) ∧ before D = [] := by
  induction l generalizing a r C with
  | nil =>
      exact ⟨a, r, [], rfl, by simp [after], rfl⟩
  | node a' l' r' ihl _ =>
      obtain ⟨b, s, D, hplug, helements, hbefore⟩ := ihl a' r' (⟨false, a, r⟩ :: C)
      refine ⟨b, s, D ++ [⟨false, a, r⟩], ?_, ?_, ?_⟩
      · rw [List.append_assoc]
        exact hplug
      · rw [elements_node, helements, after_append]
        simp [after]
      · rw [before_append, hbefore]
        rfl

/-! ### Searching -/

/-- A search goes right where the comparison is positive, and ends where it is 0. -/
def search (compare : α → Int) : BinaryTree α → List (Frame α) → BinaryTree α × List (Frame α)
  | .nil, C => (.nil, C)
  | .node a l r, C =>
      if compare a = 0 then (.node a l r, C)
      else if compare a > 0 then search compare r (⟨true, a, l⟩ :: C)
      else search compare l (⟨false, a, r⟩ :: C)

section

variable {compare : α → Int}

theorem plug_search
    (t : BinaryTree α) (C : List (Frame α)) :
    plug (search compare t C).1 (search compare t C).2 = plug t C := by
  induction t generalizing C with
  | nil =>
      rfl
  | node a l r ihl ihr =>
      rw [search]
      split_ifs
      · rfl
      · exact ihr _
      · exact ihl _

/-- Where the values ascend, the comparison is positive before the place and negative after it. -/
theorem search_spec
    {t : BinaryTree α} {C : List (Frame α)}
    (hsorted : (elements t).Pairwise (fun a b => compare a ≤ 0 → compare b < 0))
    (hbefore : ∀ a ∈ before C, compare a > 0)
    (hafter : ∀ a ∈ after C, compare a < 0) :
    (∀ a ∈ before (search compare t C).2, compare a > 0) ∧
      (∀ a ∈ after (search compare t C).2, compare a < 0) ∧
      ((search compare t C).1 = .nil ∨
        ∃ a l r, (search compare t C).1 = .node a l r ∧ compare a = 0) := by
  induction t generalizing C with
  | nil =>
      exact ⟨hbefore, hafter, .inl rfl⟩
  | node a l r ihl ihr =>
      obtain ⟨hl, har, hlar⟩ := List.pairwise_append.mp hsorted
      obtain ⟨ha, hr⟩ := List.pairwise_cons.mp har
      rw [search]
      split_ifs with hzero hpos
      · exact ⟨hbefore, hafter, .inr ⟨a, l, r, rfl, hzero⟩⟩
      · refine ihr hr ?_ hafter
        intro b hb
        simp only [before, if_true, List.mem_append, List.mem_singleton] at hb
        rcases hb with hb | hb | rfl
        · exact hbefore b hb
        · by_contra hnot
          have hneg := hlar b hb a List.mem_cons_self (by omega)
          omega
        · exact hpos
      · refine ihl hl (by simpa [before] using hbefore) ?_
        intro b hb
        simp only [after, Bool.false_eq_true, if_false, List.cons_append, List.mem_cons,
          List.mem_append] at hb
        rcases hb with rfl | hb | hb
        · omega
        · exact ha b hb (by omega)
        · exact hafter b hb

end

end TreePlaces
end Lib
end PahoMqtt
