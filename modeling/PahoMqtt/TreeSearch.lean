import PahoMqtt.TreeBalance

/-!
# Finding nodes

What the loops that go through a tree without changing it find there: the first
node, the next one, and the node or the place for a key.
-/

namespace PahoMqtt
namespace Tree

open Lib.TreePlaces

variable {α κ : Type}

section

variable {t : Tree α κ} {index : Fin 2}

/-! ### The nodes in order -/

/-- The loop goes to the first node of a subtree. -/
theorem minimumFrom_spec
    {fuel : Nat} {parent : Option Addr} {T : BinaryTree Addr} {a : Addr}
    (hfuel : (elements T).length < fuel)
    (h : t.HoldsTree parent T)
    (hroot : rootOf T = some a) :
    ∃ b, t.minimumFrom fuel a = some b ∧ (elements T).head? = some b := by
  induction fuel generalizing T a parent with
  | zero =>
      exact absurd hfuel (Nat.not_lt_zero _)
  | succ fuel ih =>
      cases T with
      | nil =>
          cases hroot
      | node a' l r =>
          obtain rfl := Option.some.inj hroot
          obtain ⟨ha, hl, _⟩ := h
          obtain ⟨n, hn, _, hchild⟩ := exists_node ha
          have hleft : n.child LEFT = rootOf l := by rw [hchild, pointers_self]
          rw [elements_node, List.length_append, List.length_cons] at hfuel
          cases hl' : rootOf l with
          | none =>
              obtain rfl := rootOf_eq_none.mp hl'
              refine ⟨a', ?_, rfl⟩
              rw [minimumFrom, hn]
              simp only [hleft, rootOf_nil, Option.bind_eq_bind, Option.bind_some]
              rfl
          | some c =>
              obtain ⟨b, hb, hhead⟩ := ih (by omega) hl hl'
              refine ⟨b, ?_, ?_⟩
              · rw [minimumFrom, hn]
                simp only [hleft, hl', hb, Option.bind_eq_bind, Option.bind_some]
              · rw [elements_node, List.head?_append, hhead]
                rfl

theorem TreeMinimum_spec
    {parent : Option Addr} {T : BinaryTree Addr}
    (h : t.HoldsTree parent T)
    (hfits : (elements T).length ≤ t.allocated) :
    t.TreeMinimum (rootOf T) = some (elements T).head? := by
  cases hroot : rootOf T with
  | none =>
      obtain rfl := rootOf_eq_none.mp hroot
      rfl
  | some a =>
      obtain ⟨b, hb, hhead⟩ := minimumFrom_spec (Nat.lt_succ_of_le hfits) h hroot
      simp only [TreeMinimum, hb, hhead, Option.bind_eq_bind, Option.bind_some]
      rfl

/-- The loop goes up to the first node that the place is on the left of. -/
theorem climb_spec
    {fuel : Nat} {a : Addr} {C : List (Frame Addr)}
    (hfuel : C.length < fuel)
    (h : t.HoldsFrames (some a) C)
    (hnodup : (a :: around C).Nodup) :
    t.climb fuel a (parentAddr C) = some (after C).head? := by
  induction C generalizing fuel a with
  | nil =>
      cases fuel with
      | zero => exact absurd hfuel (Nat.not_lt_zero _)
      | succ fuel => rfl
  | cons f C ih =>
      cases fuel with
      | zero =>
          exact absurd hfuel (Nat.not_lt_zero _)
      | succ fuel =>
          obtain ⟨hf, _, hC⟩ := h
          obtain ⟨n, hn, hparent, hchild⟩ := exists_node hf
          obtain ⟨ha, hnodup⟩ := List.nodup_cons.mp hnodup
          have haround : around (f :: C) = f.value :: (elements f.sibling ++ around C) := rfl
          rw [haround] at ha hnodup
          have hup : t.climb (fuel + 1) a (parentAddr (f :: C)) =
              if n.child RIGHT = some a then t.climb fuel f.value n.parent
              else some (some f.value) := by
            change ((t.node f.value).bind fun n => _) = _
            rw [hn]
            rfl
          rw [hup, hchild, hparent, after]
          cases hside : f.side with
          | true =>
              rw [pointers_self, if_pos rfl, if_pos rfl, List.nil_append]
              refine ih (Nat.lt_of_succ_lt_succ hfuel) hC ?_
              exact hnodup.sublist (List.Sublist.cons_cons _ (List.sublist_append_right _ _))
          | false =>
              have hright : pointers LEFT (some a) (rootOf f.sibling) RIGHT ≠ some a := by
                rw [show RIGHT = !LEFT from rfl, pointers_other]
                exact fun hroot => ha (List.mem_cons_of_mem _
                  (List.mem_append_left _ (mem_elements_of_rootOf hroot)))
              rw [if_neg hright, if_neg Bool.false_ne_true]
              rfl

/-- The successor is the first node after the place, in its right subtree or above. -/
theorem TreeSuccessor_spec
    {a : Addr} {l r : BinaryTree Addr} {C : List (Frame Addr)}
    (h : t.Shaped index (plug (.node a l r) C)) :
    t.TreeSuccessor a = some (elements r ++ after C).head? := by
  obtain ⟨⟨ha, _, hr⟩, hC⟩ := holdsTree_plug.mp h.holds
  obtain ⟨n, hn, hparent, hchild⟩ := exists_node ha
  have hright : n.child RIGHT = rootOf r := by
    rw [hchild, show RIGHT = !LEFT from rfl, pointers_other]
  have hperm := elements_plug_perm (.node a l r) C
  rw [TreeSuccessor, hn]
  simp only [hright, Option.bind_eq_bind, Option.bind_some]
  cases hroot : rootOf r with
  | none =>
      obtain rfl := rootOf_eq_none.mp hroot
      rw [elements_nil, List.nil_append, hparent]
      refine climb_spec h.length_lt hC ?_
      have hnodup := hperm.nodup_iff.mp h.nodup
      refine hnodup.sublist ?_
      rw [elements_node, elements_nil]
      exact (List.sublist_append_right (elements l) [a]).append (List.Sublist.refl _)
  | some b =>
      have hfits := h.fits
      rw [hperm.length_eq, List.length_append, elements_node, List.length_append,
        List.length_cons] at hfits
      have hminimum := TreeMinimum_spec hr (by omega)
      rw [hroot] at hminimum
      have hne : elements r ≠ [] := List.ne_nil_of_mem (mem_elements_of_rootOf hroot)
      simp only [hminimum, List.head?_append_of_ne_nil _ hne]

/-! ### Nodes and places by key -/

variable {compare : α → α ⊕ κ → Int} {key : α ⊕ κ}

/-- What the comparison says at a node. -/
def compareAt (t : Tree α κ) (compare : α → α ⊕ κ → Int) (key : α ⊕ κ) (addr : Addr) : Int :=
  match t.node addr with
  | none => 0
  | some n => compare n.content key

/-- The side on which a place is of the node above it. -/
def sideOf (C : List (Frame Addr)) : Bool :=
  (C.head?.map Frame.side).getD LEFT

theorem child_eq
    {n : Node α} {l r : BinaryTree Addr} {which : Bool}
    (h : n.child = pointers LEFT (rootOf l) (rootOf r)) :
    n.child which = if which then rootOf r else rootOf l := by
  rw [h]
  cases which with
  | false => rfl
  | true => rfl

theorem findFrom_spec
    {fuel : Nat} {parent : Option Addr} {T : BinaryTree Addr}
    (hfuel : (elements T).length < fuel)
    (h : t.HoldsTree parent T) (C : List (Frame Addr)) :
    t.findFrom compare key fuel (rootOf T) =
      some (rootOf (search (t.compareAt compare key) T C).1) := by
  induction fuel generalizing T parent C with
  | zero =>
      exact absurd hfuel (Nat.not_lt_zero _)
  | succ fuel ih =>
      cases T with
      | nil =>
          rfl
      | node a l r =>
          obtain ⟨ha, hl, hr⟩ := h
          obtain ⟨n, hn, _, hchild⟩ := exists_node ha
          have hcompare : t.compareAt compare key a = compare n.content key := by
            rw [compareAt, hn]
          rw [elements_node, List.length_append, List.length_cons] at hfuel
          rw [rootOf_node, findFrom, hn, search, hcompare]
          simp only [Option.bind_eq_bind, Option.bind_some, child_eq hchild, decide_eq_true_eq]
          split_ifs
          · rfl
          · exact ih (by omega) hr _
          · exact ih (by omega) hl _

/-- The search of `TreeAddByIndex` ends at the node with the key, or at the place for it. -/
theorem searchPlace_spec
    {content : α} {fuel : Nat} {T : BinaryTree Addr} {C : List (Frame Addr)} {result : Int}
    (hfuel : (elements T).length < fuel)
    (h : t.HoldsTree (parentAddr C) T)
    (hresult : result ≠ 0) :
    ∃ place, t.searchPlace compare content fuel ⟨parentAddr C, sideOf C, rootOf T, result⟩ =
        some place ∧
      (place.result = 0 → place.curnode =
        rootOf (search (t.compareAt compare (.inl content)) T C).1) ∧
      (place.result = 0 ↔ (search (t.compareAt compare (.inl content)) T C).1 ≠ .nil) ∧
      (place.result ≠ 0 → place.curparent =
          parentAddr (search (t.compareAt compare (.inl content)) T C).2 ∧
        place.left = sideOf (search (t.compareAt compare (.inl content)) T C).2) := by
  induction fuel generalizing T C result with
  | zero =>
      exact absurd hfuel (Nat.not_lt_zero _)
  | succ fuel ih =>
      cases T with
      | nil =>
          exact ⟨_, rfl, fun hzero => absurd hzero hresult,
            iff_of_false hresult (not_not_intro rfl), fun _ => ⟨rfl, rfl⟩⟩
      | node a l r =>
          obtain ⟨ha, hl, hr⟩ := h
          obtain ⟨n, hn, _, hchild⟩ := exists_node ha
          have hcompare : t.compareAt compare (.inl content) a = compare n.content (.inl content) := by
            rw [compareAt, hn]
          rw [elements_node, List.length_append, List.length_cons] at hfuel
          rw [search, hcompare]
          simp only [searchPlace, rootOf_node, hn, Option.bind_eq_bind, Option.bind_some,
            child_eq hchild, decide_eq_true_eq]
          split_ifs with hzero hpos
          · refine ⟨_, rfl, fun _ => rfl, iff_of_true hzero ?_, fun hne => absurd hzero hne⟩
            exact fun hnil => by cases hnil
          · have hright := ih (C := ⟨RIGHT, a, l⟩ :: C) (by omega) hr hzero
            rw [decide_eq_true hpos]
            exact hright
          · have hleft := ih (C := ⟨LEFT, a, r⟩ :: C) (by omega) hl hzero
            rw [decide_eq_false hpos]
            exact hleft

end

end Tree
end PahoMqtt
