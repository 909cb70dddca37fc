import Mathlib.Data.Nat.Log
import Mathlib.Logic.Function.Basic
import Mathlib.Tactic.Ring
import PahoMqtt.Lib.TreePlaces

/-!
# Red-black trees

The colours of a binary tree are given by a function on its values, so that a
change of colours is an update of this function and leaves the shape alone.  A
tree with a hole is sound for a subtree of a given black height and root colour;
the rounds of balancing are then statements about a few subtrees each, and about
what is around them.
-/

namespace PahoMqtt
namespace Lib
namespace RedBlack

open TreePlaces

universe u

variable {α : Type u}

/-- The colour of the root; an empty tree is black. -/
def rootRed (red : α → Bool) : BinaryTree α → Bool
  | .nil => false
  | .node a _ _ => red a

/-- What a node adds to the black height. -/
def weight (red : α → Bool) (a : α) : Nat :=
  if red a then 0 else 1

/-- No red node has a red child. -/
def NoRedRed (red : α → Bool) : BinaryTree α → Prop
  | .nil => True
  | .node a l r =>
      (red a = true → rootRed red l = false ∧ rootRed red r = false) ∧
        NoRedRed red l ∧ NoRedRed red r

/-- Every path from the root to a leaf has `n` black nodes. -/
def BlackHeight (red : α → Bool) : BinaryTree α → (n : Nat) → Prop
  | .nil, n => n = 0
  | .node a l r, n => ∃ k, n = k + weight red a ∧ BlackHeight red l k ∧ BlackHeight red r k

/-- The invariants of a red-black tree. -/
structure IsRedBlack (red : α → Bool) (T : BinaryTree α) : Prop where
  root : rootRed red T = false
  noRedRed : NoRedRed red T
  balanced : ∃ n, BlackHeight red T n

/-- A tree that keeps the invariants, except that its root may be red. -/
def Sound (red : α → Bool) (T : BinaryTree α) (n : Nat) : Prop :=
  NoRedRed red T ∧ BlackHeight red T n

/-- What is around a hole keeps the invariants with a subtree of this black height and colour. -/
def SoundAround (red : α → Bool) : List (Frame α) → (n : Nat) → (holeRed : Bool) → Prop
  | [], _, holeRed => holeRed = false
  | f :: C, n, holeRed =>
      (red f.value = true → holeRed = false ∧ rootRed red f.sibling = false) ∧
        Sound red f.sibling n ∧ SoundAround red C (n + weight red f.value) (red f.value)

/-! ### Parts of a tree -/

section

variable {red red' : α → Bool} {S T x y : BinaryTree α} {C : List (Frame α)} {a : α} {side : Bool}
  {n : Nat}

@[simp] theorem rootRed_nil :
    rootRed red .nil = false := rfl

@[simp] theorem rootRed_join :
    rootRed red (join side a x y) = red a := by
  cases side with
  | false => rfl
  | true => rfl

theorem weight_red
    (h : red a = true) :
    weight red a = 0 :=
  if_pos h

theorem weight_black
    (h : red a = false) :
    weight red a = 1 := by
  rw [weight, h, if_neg Bool.false_ne_true]

theorem rootRed_of_rootOf
    (h : rootOf T = some a) :
    rootRed red T = red a := by
  obtain ⟨x, y, rfl⟩ := rootOf_eq_some false h
  exact rootRed_join

/-- A red root is there. -/
theorem exists_of_rootRed
    (side : Bool)
    (h : rootRed red T = true) :
    ∃ a x y, T = join side a x y ∧ red a = true := by
  cases hroot : rootOf T with
  | none =>
      rw [rootOf_eq_none.mp hroot] at h
      cases h
  | some a =>
      obtain ⟨x, y, rfl⟩ := rootOf_eq_some side hroot
      exact ⟨a, x, y, rfl, rootRed_join.symm.trans h⟩

@[simp] theorem sound_nil :
    Sound red .nil n ↔ n = 0 :=
  and_iff_right trivial

theorem sound_node
    {l r : BinaryTree α} :
    Sound red (.node a l r) n ↔
      ∃ k, n = k + weight red a ∧
        (red a = true → rootRed red l = false ∧ rootRed red r = false) ∧
        Sound red l k ∧ Sound red r k := by
  constructor
  · rintro ⟨⟨hchildren, hl, hr⟩, k, hn, hl', hr'⟩
    exact ⟨k, hn, hchildren, ⟨hl, hl'⟩, ⟨hr, hr'⟩⟩
  · rintro ⟨k, hn, hchildren, ⟨hl, hl'⟩, ⟨hr, hr'⟩⟩
    exact ⟨⟨hchildren, hl, hr⟩, k, hn, hl', hr'⟩

theorem sound_join :
    Sound red (join side a x y) n ↔
      ∃ k, n = k + weight red a ∧
        (red a = true → rootRed red x = false ∧ rootRed red y = false) ∧
        Sound red x k ∧ Sound red y k := by
  cases side with
  | false =>
      exact sound_node
  | true =>
      refine sound_node.trans (exists_congr fun k => and_congr_right fun _ => ?_)
      rw [and_comm (a := rootRed red x = false), and_comm (a := Sound red x k)]

theorem blackHeight_join :
    BlackHeight red (join side a x y) n ↔
      ∃ k, n = k + weight red a ∧ BlackHeight red x k ∧ BlackHeight red y k := by
  cases side with
  | false =>
      exact Iff.rfl
  | true =>
      exact exists_congr fun k => and_congr_right fun _ => and_comm

theorem BlackHeight.unique
    {m : Nat}
    (h : BlackHeight red T n)
    (h' : BlackHeight red T m) :
    n = m := by
  induction T generalizing n m with
  | nil =>
      exact h.trans h'.symm
  | node a l r ihl _ =>
      obtain ⟨k, rfl, hl, _⟩ := h
      obtain ⟨k', rfl, hl', _⟩ := h'
      rw [ihl hl hl']

/-- A tree is sound where a subtree and what is around it are. -/
theorem isRedBlack_plug :
    IsRedBlack red (plug S C) ↔
      ∃ n, Sound red S n ∧ SoundAround red C n (rootRed red S) := by
  induction C generalizing S with
  | nil =>
      constructor
      · rintro ⟨hroot, hred, n, hheight⟩
        exact ⟨n, ⟨hred, hheight⟩, hroot⟩
      · rintro ⟨n, ⟨hred, hheight⟩, hroot⟩
        exact ⟨hroot, hred, n, hheight⟩
  | cons f C ih =>
      rw [plug_cons, ih]
      constructor
      · rintro ⟨n, hS, hC⟩
        obtain ⟨k, rfl, hchildren, hS, hs⟩ := sound_join.mp hS
        rw [rootRed_join] at hC
        exact ⟨k, hS, hchildren, hs, hC⟩
      · rintro ⟨k, hS, hchildren, hs, hC⟩
        refine ⟨k + weight red f.value, sound_join.mpr ⟨k, rfl, hchildren, hS, hs⟩, ?_⟩
        rwa [rootRed_join]

/-- Every subtree has a black height. -/
theorem BlackHeight.of_plug
    (h : BlackHeight red (plug S C) n) :
    ∃ k, BlackHeight red S k := by
  induction C generalizing S with
  | nil =>
      exact ⟨n, h⟩
  | cons f C ih =>
      obtain ⟨k, hk⟩ := ih h
      obtain ⟨k', _, hS, _⟩ := blackHeight_join.mp hk
      exact ⟨k', hS⟩

/-- A subtree with a black root is never in the way. -/
theorem SoundAround.of_black
    {holeRed : Bool}
    (h : SoundAround red C n holeRed) :
    SoundAround red C n false := by
  cases C with
  | nil =>
      rfl
  | cons f C =>
      obtain ⟨hchildren, hs, hC⟩ := h
      exact ⟨fun hred => ⟨rfl, (hchildren hred).2⟩, hs, hC⟩

/-! ### Colours -/

/-- The colours of these nodes are the same. -/
def SameOn (bs : List α) (red red' : α → Bool) : Prop :=
  ∀ b ∈ bs, red' b = red b

theorem SameOn.refl
    (bs : List α) (red : α → Bool) :
    SameOn bs red red :=
  fun _ _ => rfl

theorem SameOn.symm
    {bs : List α}
    (h : SameOn bs red red') :
    SameOn bs red' red :=
  fun b hb => (h b hb).symm

theorem SameOn.update
    [DecidableEq α] {bs : List α} {value : Bool}
    (h : SameOn bs red red')
    (ha : a ∉ bs) :
    SameOn bs red (Function.update red' a value) := by
  intro b hb
  rw [Function.update_of_ne (ne_of_mem_of_not_mem hb ha)]
  exact h b hb

theorem rootRed_congr
    (hsame : SameOn (elements T) red red') :
    rootRed red' T = rootRed red T := by
  cases T with
  | nil => rfl
  | node a l r => exact hsame a (List.mem_append_right _ List.mem_cons_self)

theorem weight_congr
    (hsame : red' a = red a) :
    weight red' a = weight red a := by
  rw [weight, weight, hsame]

theorem BlackHeight.congr
    (h : BlackHeight red T n)
    (hsame : SameOn (elements T) red red') :
    BlackHeight red' T n := by
  induction T generalizing n with
  | nil =>
      exact h
  | node a l r ihl ihr =>
      obtain ⟨k, rfl, hl, hr⟩ := h
      have ha : red' a = red a := hsame a (List.mem_append_right _ List.mem_cons_self)
      refine ⟨k, by rw [weight_congr ha], ihl hl fun b hb => ?_, ihr hr fun b hb => ?_⟩
      · exact hsame b (List.mem_append_left _ hb)
      · exact hsame b (List.mem_append_right _ (List.mem_cons_of_mem _ hb))

theorem Sound.congr
    (h : Sound red T n)
    (hsame : SameOn (elements T) red red') :
    Sound red' T n := by
  induction T generalizing n with
  | nil =>
      exact sound_nil.mpr (sound_nil.mp h)
  | node a l r ihl ihr =>
      obtain ⟨k, rfl, hchildren, hl, hr⟩ := sound_node.mp h
      have ha : red' a = red a := hsame a (List.mem_append_right _ List.mem_cons_self)
      have hsamel : SameOn (elements l) red red' := fun b hb =>
        hsame b (List.mem_append_left _ hb)
      have hsamer : SameOn (elements r) red red' := fun b hb =>
        hsame b (List.mem_append_right _ (List.mem_cons_of_mem _ hb))
      refine sound_node.mpr ⟨k, ?_, ?_, ihl hl hsamel, ihr hr hsamer⟩
      · rw [weight_congr ha]
      · rwa [ha, rootRed_congr hsamel, rootRed_congr hsamer]

theorem IsRedBlack.congr
    (h : IsRedBlack red T)
    (hsame : SameOn (elements T) red red') :
    IsRedBlack red' T := by
  obtain ⟨hroot, hred, n, hheight⟩ := h
  have hsound : Sound red T n := ⟨hred, hheight⟩
  obtain ⟨hred', hheight'⟩ := hsound.congr hsame
  exact ⟨(rootRed_congr hsame).trans hroot, hred', n, hheight'⟩

theorem SoundAround.congr
    {holeRed : Bool}
    (h : SoundAround red C n holeRed)
    (hsame : SameOn (around C) red red') :
    SoundAround red' C n holeRed := by
  induction C generalizing n holeRed with
  | nil =>
      exact h
  | cons f C ih =>
      obtain ⟨hchildren, hs, hC⟩ := h
      have hf : red' f.value = red f.value := hsame f.value (by simp [around])
      have hsames : SameOn (elements f.sibling) red red' := fun a ha =>
        hsame a (by simp [around, ha])
      have hsameC : SameOn (around C) red red' := fun a ha =>
        hsame a (List.mem_append_right _ ha)
      refine ⟨?_, hs.congr hsames, ?_⟩
      · rwa [hf, rootRed_congr hsames]
      · rw [weight_congr hf, hf]
        exact ih hC hsameC

end

/-! ### Depth -/

/-- A subtree of black height `n` has at least `2 ^ n - 1` nodes. -/
theorem Sound.two_pow_le
    {red : α → Bool} {T : BinaryTree α} {n : Nat}
    (h : Sound red T n) :
    2 ^ n ≤ (elements T).length + 1 := by
  induction T generalizing n with
  | nil =>
      rw [sound_nil.mp h]
      exact Nat.le_refl _
  | node a l r ihl ihr =>
      obtain ⟨k, rfl, _, hl, hr⟩ := sound_node.mp h
      have hl := ihl hl
      have hr := ihr hr
      have hweight : 2 ^ (k + weight red a) ≤ 2 * 2 ^ k := by
        unfold weight
        split
        · rw [Nat.add_zero]
          omega
        · rw [Nat.pow_succ]
          omega
      rw [elements_node, List.length_append, List.length_cons]
      omega

/-- A path has at most as many red nodes as black ones, and one more if it starts with a red one. -/
theorem Sound.height_le
    {red : α → Bool} {T : BinaryTree α} {n : Nat}
    (h : Sound red T n) :
    T.height ≤ 2 * n + (rootRed red T).toNat := by
  induction T generalizing n with
  | nil =>
      exact Nat.zero_le _
  | node a l r ihl ihr =>
      obtain ⟨k, rfl, hchildren, hl, hr⟩ := sound_node.mp h
      have hl := ihl hl
      have hr := ihr hr
      have hbl := Bool.toNat_le (rootRed red l)
      have hbr := Bool.toNat_le (rootRed red r)
      have hroot : rootRed red (.node a l r) = red a := rfl
      rw [BinaryTree.height, hroot]
      unfold weight
      cases hred : red a with
      | true =>
          obtain ⟨hredl, hredr⟩ := hchildren hred
          rw [hredl] at hl
          rw [hredr] at hr
          simp only [Bool.toNat_false, Bool.toNat_true, if_true] at hl hr ⊢
          omega
      | false =>
          simp only [Bool.toNat_false, Bool.false_eq_true, if_false]
          omega

/-- A red-black tree with `n` nodes is at most `2 * log2 (n + 1)` deep. -/
theorem IsRedBlack.height_le
    {red : α → Bool} {T : BinaryTree α}
    (h : IsRedBlack red T) :
    T.height ≤ 2 * Nat.log 2 ((elements T).length + 1) := by
  obtain ⟨hroot, hred, n, hheight⟩ := h
  have hsound : Sound red T n := ⟨hred, hheight⟩
  have hdeep := hsound.height_le
  have hlog : n ≤ Nat.log 2 ((elements T).length + 1) :=
    Nat.le_log_of_pow_le (by decide) hsound.two_pow_le
  rw [hroot, Bool.toNat_false] at hdeep
  omega

end RedBlack
end Lib
end PahoMqtt
