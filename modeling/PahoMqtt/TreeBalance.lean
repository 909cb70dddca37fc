import PahoMqtt.Lib.RedBlackRemoving
import PahoMqtt.TreeShapes

/-!
# Balancing

`TreeBalanceAfterAdd` and `TreeBalanceAfterRemove` come to an end on every tree,
and leave its nodes in order.  The first goes up with every round.  The second
goes up as well, or its next round is the last one: it is then at the root or at
a red node.
-/

namespace PahoMqtt
namespace Tree

open Lib.TreePlaces Lib.RedBlack

variable {α κ : Type}

/-- The shape is changed into one with the same nodes in the same order. -/
structure Rebalances (index : Fin 2) (T : BinaryTree Addr) (t t' : Tree α κ)
    (T' : BinaryTree Addr) : Prop where
  shaped : t'.Shaped index T'
  order : elements T' = elements T
  reshapes : Reshapes t t'

section

variable {t t' t'' : Tree α κ} {index : Fin 2}

theorem Shaped.rebalances
    {T : BinaryTree Addr}
    (h : t.Shaped index T) :
    Rebalances index T t t T :=
  ⟨h, rfl, .refl t⟩

theorem Rebalances.trans
    {T T' T'' : BinaryTree Addr}
    (h : Rebalances index T t t' T')
    (h' : Rebalances index T' t' t'' T'') :
    Rebalances index T t t'' T'' :=
  ⟨h'.shaped, h'.order.trans h.order, h.reshapes.trans h'.reshapes⟩

theorem isRed_some
    (t : Tree α κ) (a : Addr) :
    t.isRed (some a) = t.color a := by
  rw [isRed, color]
  cases t.node a with
  | none => rfl
  | some n => rfl

theorem isBlack_some
    (t : Tree α κ) (a : Addr) :
    t.isBlack (some a) = (t.color a).map (!·) := by
  rw [isBlack, color]
  cases t.node a with
  | none => rfl
  | some n => rfl

theorem exists_color
    {a : Addr} {l : Option Addr × (Bool → Option Addr)}
    (h : t.links a = some l) :
    ∃ red, t.color a = some red := by
  obtain ⟨n, hn, _⟩ := Option.map_eq_some_iff.mp h
  refine ⟨n.red, ?_⟩
  rw [color, hn]
  rfl

/-- The colours, with black where there is no node. -/
def redAt (t : Tree α κ) (a : Addr) : Bool :=
  (t.color a).getD false

theorem redAt_of_color
    {a : Addr} {red : Bool}
    (h : t.color a = some red) :
    t.redAt a = red := by
  rw [redAt, h, Option.getD_some]

theorem color_of_redAt
    {a : Addr}
    (h : t.redAt a = true) :
    t.color a = some true := by
  cases hcolor : t.color a with
  | none =>
      rw [redAt, hcolor] at h
      cases h
  | some red =>
      exact congrArg some ((redAt_of_color hcolor).symm.trans h)

theorem redAt_congr
    (h : t'.color = t.color) :
    t'.redAt = t.redAt := by
  funext a
  rw [redAt, redAt, h]

theorem redAt_update
    {a : Addr} {value : Bool}
    (h : t'.color = Function.update t.color a (some value)) :
    t'.redAt = Function.update t.redAt a value := by
  funext b
  rw [redAt, h]
  by_cases hb : b = a
  · rw [hb, Function.update_self, Function.update_self, Option.getD_some]
  · rw [Function.update_of_ne hb, Function.update_of_ne hb, redAt]

/-- The node at the root of a subtree. -/
theorem HoldsTree.links_root
    {parent : Option Addr} {T : BinaryTree Addr} {a : Addr}
    (h : t.HoldsTree parent T)
    (hroot : rootOf T = some a) :
    ∃ c, t.links a = some (parent, c) := by
  cases T with
  | nil =>
      cases hroot
  | node b l r =>
      obtain rfl := Option.some.inj hroot
      exact ⟨_, h.1⟩

theorem HoldsTree.isRed_rootOf
    {parent : Option Addr} {T : BinaryTree Addr}
    (h : t.HoldsTree parent T) :
    t.isRed (rootOf T) = some (rootRed t.redAt T) := by
  cases T with
  | nil =>
      rfl
  | node a l r =>
      obtain ⟨red, hred⟩ := exists_color h.1
      rw [rootOf_node, isRed_some, hred, ← redAt_of_color hred]
      rfl

theorem HoldsTree.isBlack_rootOf
    {parent : Option Addr} {T : BinaryTree Addr}
    (h : t.HoldsTree parent T) :
    t.isBlack (rootOf T) = some (!rootRed t.redAt T) := by
  cases T with
  | nil =>
      rfl
  | node a l r =>
      obtain ⟨red, hred⟩ := exists_color h.1
      rw [rootOf_node, isBlack_some, hred, ← redAt_of_color hred]
      rfl

/-- A node of the shape is given another colour. -/
theorem Shaped.setRed
    {T : BinaryTree Addr} {a : Addr} {l : Option Addr × (Bool → Option Addr)}
    (h : t.Shaped index T)
    (ha : t.links a = some l) (value : Bool) :
    ∃ t', t.setRed a value = some t' ∧ t'.links = t.links ∧ t'.root = t.root ∧
      t'.redAt = Function.update t.redAt a value ∧ Rebalances index T t t' T := by
  obtain ⟨p, c⟩ := l
  obtain ⟨t', ht', hcolor, hlinks, hroot, hreshapes⟩ := setRed_spec ha value
  exact ⟨t', ht', hlinks, hroot, redAt_update hcolor, h.congr hlinks hroot hreshapes.allocated,
    rfl, hreshapes⟩

/-- A rotation, with the order of the nodes. -/
theorem Shaped.rotate
    {a b : Addr} {m r x : BinaryTree Addr} {C : List (Frame Addr)} {d : Bool}
    (h : t.Shaped index (plug (join (!d) a (join d b m r) x) C)) :
    ∃ t', t.TreeRotate a d index = some t' ∧ t'.redAt = t.redAt ∧
      Rebalances index (plug (join (!d) a (join d b m r) x) C) t t'
        (plug (join d b (join d a x m) r) C) := by
  obtain ⟨t', ht', hshaped, hcolor, hreshapes⟩ := TreeRotate_spec h
  exact ⟨t', ht', redAt_congr hcolor, hshaped,
    elements_plug_congr (elements_rotate d a b x m r) C, hreshapes⟩

/-! ### After adding -/

/-- The nodes above a place and their links. -/
theorem Shaped.above
    {S : BinaryTree Addr} {f : Frame Addr} {C : List (Frame Addr)}
    (h : t.Shaped index (plug S (f :: C))) :
    t.HoldsTree (some f.value) S ∧
      t.links f.value = some (parentAddr C, pointers f.side (rootOf S) (rootOf f.sibling)) ∧
      t.HoldsTree (some f.value) f.sibling ∧ t.HoldsFrames (some f.value) C := by
  obtain ⟨hS, hf, hs, hC⟩ := holdsTree_plug.mp h.holds
  exact ⟨hS, hf, hs, hC⟩

/-- The node at a place is not the one beside it. -/
theorem Shaped.sibling_ne
    {S : BinaryTree Addr} {f : Frame Addr} {C : List (Frame Addr)} {a : Addr}
    (h : t.Shaped index (plug S (f :: C)))
    (hS : rootOf S = some a) :
    rootOf f.sibling ≠ some a := by
  intro hsibling
  have hnodup := (elements_plug_perm S (f :: C)).nodup_iff.mp h.nodup
  refine (List.nodup_append.mp hnodup).2.2 a (mem_elements_of_rootOf hS) a ?_ rfl
  exact List.mem_append_left _ (List.mem_cons_of_mem _ (mem_elements_of_rootOf hsibling))

/-- The grandparent goes down on the side of the uncle. -/
theorem rotateGrandparent_spec
    {S y u : BinaryTree Addr} {s : Bool} {a p g : Addr} {C : List (Frame Addr)}
    (h : t.Shaped index (plug S (⟨s, p, y⟩ :: ⟨s, g, u⟩ :: C)))
    (hS : rootOf S = some a) :
    ∃ t', t.rotateGrandparent a (!s) index = some t' ∧
      t'.redAt = Function.update (Function.update t.redAt p false) g true ∧
      Rebalances index (plug S (⟨s, p, y⟩ :: ⟨s, g, u⟩ :: C)) t t'
        (plug S (⟨s, p, join (!s) g u y⟩ :: C)) := by
  obtain ⟨hhold, hp, _, hg, _⟩ := h.above
  obtain ⟨_, ha⟩ := hhold.links_root hS
  obtain ⟨na, hna, hparent, _⟩ := exists_node ha
  obtain ⟨t₁, ht₁, hlinks₁, _, hred₁, hrebalances₁⟩ := h.setRed hp false
  rw [← hlinks₁] at hp hg
  obtain ⟨np, hnp, hgrandparent, _⟩ := exists_node hp
  obtain ⟨t₂, ht₂, _, _, hred₂, hrebalances₂⟩ := hrebalances₁.shaped.setRed hg true
  have hshape : plug S (⟨s, p, y⟩ :: ⟨s, g, u⟩ :: C) =
      plug (join (!(!s)) g (join (!s) p y S) u) C := by
    rw [plug_cons, plug_cons, Bool.not_not, join_not]
  have hshaped := hrebalances₂.shaped
  rw [hshape] at hshaped
  obtain ⟨t₃, ht₃, hred₃, hrebalances₃⟩ := hshaped.rotate
  rw [← hshape, join_not s p] at hrebalances₃
  refine ⟨t₃, ?_, by rw [hred₃, hred₂, hred₁],
    (hrebalances₁.trans hrebalances₂).trans hrebalances₃⟩
  rw [rotateGrandparent, hna]
  simp only [hparent, ht₁, hnp, hgrandparent, ht₂, ht₃, parentAddr, List.head?_cons,
    Option.map_some, Option.bind_eq_bind, Option.bind_some]

/-- A round is one of those on the shape and the colours, and goes up by one node at least. -/
theorem TreeBAASub_spec
    {S : BinaryTree Addr} {f g : Frame Addr} {C : List (Frame Addr)} {a : Addr}
    (h : t.Shaped index (plug S (f :: g :: C)))
    (hS : rootOf S = some a) :
    ∃ a' t' S' D, t.TreeBAASub a (!g.side) index = some (a', t') ∧ rootOf S' = some a' ∧
      D.length ≤ C.length + 1 ∧ AddRound t.redAt S f g C S' D t'.redAt ∧
      Rebalances index (plug S (f :: g :: C)) t t' (plug S' D) := by
  obtain ⟨hhold, hf, _, hg, hu, _⟩ := h.above
  obtain ⟨_, ha⟩ := hhold.links_root hS
  obtain ⟨na, hna, hparent, _⟩ := exists_node ha
  obtain ⟨nf, hnf, hgrandparent, hchildf⟩ := exists_node hf
  obtain ⟨ng, hng, _, hchildg⟩ := exists_node hg
  have huncle : ng.child (!g.side) = rootOf g.sibling := by rw [hchildg, pointers_other]
  have hgrandparent : nf.parent = some g.value := hgrandparent
  have hstart : ∀ k : Addr × Tree α κ,
      (∃ red, t.isRed (rootOf g.sibling) = some red ∧
        (if red = true then (do
          let uncle ← rootOf g.sibling
          let t ← t.setRed uncle false
          let t ← t.setRed f.value false
          let t ← t.setRed g.value true
          pure (g.value, t))
        else if nf.child (!g.side) = some a then (do
          let t ← t.TreeRotate f.value (!(!g.side)) index
          pure (f.value, ← t.rotateGrandparent f.value (!g.side) index))
        else (do pure (a, ← t.rotateGrandparent a (!g.side) index))) = some k) →
      t.TreeBAASub a (!g.side) index = some k := by
    rintro k ⟨red, hred, hk⟩
    rw [TreeBAASub, hna]
    simp only [hparent, hnf, hgrandparent, hng, huncle, hred, Option.bind_eq_bind,
      Option.bind_some]
    exact hk
  have hred := hu.isRed_rootOf
  cases hcolor : rootRed t.redAt g.sibling with
  | true =>
      rw [hcolor] at hred
      -- the red moves up to the grandparent
      cases hroot : rootOf g.sibling with
      | none =>
          rw [hroot] at hred
          cases hred
      | some u =>
          obtain ⟨_, hlinku⟩ := hu.links_root hroot
          obtain ⟨t₁, ht₁, hlinks₁, _, hred₁, hrebalances₁⟩ := h.setRed hlinku false
          rw [← hlinks₁] at hf hg
          obtain ⟨t₂, ht₂, hlinks₂, _, hred₂, hrebalances₂⟩ := hrebalances₁.shaped.setRed hf false
          rw [← hlinks₂] at hg
          obtain ⟨t₃, ht₃, _, _, hred₃, hrebalances₃⟩ := hrebalances₂.shaped.setRed hg true
          have hround := AddRound.recolor (f := f) (C := C) (S := S) hroot
            ((rootRed_of_rootOf hroot).symm.trans hcolor)
          rw [← hred₁, ← hred₂, ← hred₃] at hround
          refine ⟨g.value, t₃, join g.side g.value (join f.side f.value S f.sibling) g.sibling, C,
            hstart _ ⟨true, hred, ?_⟩, rootOf_join _ _ _ _, Nat.le_succ _, hround,
            (hrebalances₁.trans hrebalances₂).trans hrebalances₃⟩
          simp only [hroot, ht₁, ht₂, ht₃, if_true, Option.bind_eq_bind, Option.bind_some]
          rfl
  | false =>
      rw [hcolor] at hred
      obtain ⟨s, p, y⟩ := f
      obtain ⟨s', g, u⟩ := g
      dsimp only at *
      by_cases hside : s = s'
      · -- the node is on the outer side
        subst hside
        have hinner : nf.child (!s) ≠ some a := by
          rw [hchildf, pointers_other]
          exact h.sibling_ne hS
        obtain ⟨t', ht', hred', hrebalances⟩ := rotateGrandparent_spec h hS
        refine ⟨a, t', S, ⟨s, p, join (!s) g u y⟩ :: C, hstart _ ⟨false, hred, ?_⟩, hS,
          le_refl _, ?_, hrebalances⟩
        swap
        · rw [hred']
          exact .outer rfl hcolor
        rw [if_neg Bool.false_ne_true, if_neg hinner, ht']
        rfl
      · -- the parent goes down first, so that it is on the outer side
        obtain rfl : s = !s' := by
          cases s <;> cases s' <;> simp_all
        have hinner : nf.child (!s') = some a := by rw [hchildf, pointers_self, hS]
        obtain ⟨m, r, rfl⟩ := rootOf_eq_some s' hS
        obtain ⟨t₁, ht₁, hred₁, hrebalances₁⟩ := h.rotate
        obtain ⟨t₂, ht₂, hred₂, hrebalances₂⟩ :=
          rotateGrandparent_spec hrebalances₁.shaped (rootOf_join s' p y m)
        refine ⟨p, t₂, join s' p y m, ⟨s', _, join (!s') g u r⟩ :: C,
          hstart _ ⟨false, hred, ?_⟩, rootOf_join _ _ _ _, le_refl _, ?_,
          hrebalances₁.trans hrebalances₂⟩
        swap
        · rw [hred₂, hred₁]
          exact .inner rfl hcolor rfl
        rw [if_neg Bool.false_ne_true, if_pos hinner, Bool.not_not, ht₁]
        simp only [ht₂, Option.bind_eq_bind, Option.bind_some]
        rfl

/-- There are fewer nodes above a place than rounds of a loop. -/
theorem Shaped.length_lt
    {S : BinaryTree Addr} {C : List (Frame Addr)}
    (h : t.Shaped index (plug S C)) :
    C.length < t.allocated + 1 := by
  have hlength := (elements_plug_perm S C).length_eq
  rw [List.length_append] at hlength
  have haround := length_le_around C
  have hfits := h.fits
  omega

/-- A round of the loop: the side of the parent tells the side of the uncle. -/
theorem balanceAfterAdd_round
    {S : BinaryTree Addr} {f g : Frame Addr} {C : List (Frame Addr)} {a a' : Addr}
    {t₁ : Tree α κ}
    (h : t.Shaped index (plug S (f :: g :: C)))
    (hS : rootOf S = some a)
    (hred : t.color f.value = some true)
    (hround : t.TreeBAASub a (!g.side) index = some (a', t₁)) (fuel : Nat) :
    balanceAfterAdd index (fuel + 1) t a = balanceAfterAdd index fuel t₁ a' := by
  obtain ⟨hhold, hf, _, hg, _⟩ := h.above
  obtain ⟨_, ha⟩ := hhold.links_root hS
  obtain ⟨na, hna, habove, _⟩ := exists_node ha
  obtain ⟨nf, hnf, hgrandparent, _⟩ := exists_node hf
  have hgrandparent : nf.parent = some g.value := hgrandparent
  obtain ⟨ng, hng, _, hchildg⟩ := exists_node hg
  rw [balanceAfterAdd, hna]
  simp only [habove, isRed_some, hred, hnf, hgrandparent, hng, if_true, Option.bind_eq_bind,
    Option.bind_some]
  by_cases hside : g.side = LEFT
  · rw [hside] at hround hchildg
    have hleft : ng.child LEFT = some f.value := by
      rw [hchildg, pointers_self]
    rw [if_pos hleft]
    simp only [show RIGHT = !LEFT from rfl, hround, Option.bind_some]
  · obtain hside : g.side = RIGHT := by simpa using hside
    rw [hside] at hround hchildg
    have hplace : t.Shaped index (plug (join f.side f.value S f.sibling) (g :: C)) := h
    have hleft : ng.child LEFT ≠ some f.value := by
      rw [hchildg, show LEFT = !RIGHT from rfl, pointers_other]
      exact hplace.sibling_ne (rootOf_join _ _ _ _)
    rw [if_neg hleft]
    simp only [show LEFT = !RIGHT from rfl, hround, Option.bind_some]

/-- The loop comes to its end, the parent being black or the root. -/
theorem balanceAfterAdd_spec
    {fuel : Nat} {S : BinaryTree Addr} {C : List (Frame Addr)} {a : Addr}
    (hfuel : C.length < fuel)
    (h : t.Shaped index (plug S C))
    (hS : rootOf S = some a) :
    ∃ t' T', balanceAfterAdd index fuel t a = some t' ∧ AddRounds t.redAt S C T' t'.redAt ∧
      Rebalances index (plug S C) t t' T' := by
  induction fuel generalizing t S C a with
  | zero =>
      exact absurd hfuel (Nat.not_lt_zero _)
  | succ fuel ih =>
      obtain ⟨hhold, hC⟩ := holdsTree_plug.mp h.holds
      obtain ⟨_, ha⟩ := hhold.links_root hS
      obtain ⟨na, hna, hparent, _⟩ := exists_node ha
      match C with
      | [] =>
          refine ⟨t, S, ?_, .done (by simp), h.rebalances⟩
          rw [balanceAfterAdd, hna]
          simp only [hparent, parentAddr, List.head?_nil, Option.map_none, isRed,
            Option.bind_eq_bind, Option.bind_some]
          rfl
      | f :: C =>
          have habove : na.parent = some f.value := hparent
          obtain ⟨red, hred⟩ := exists_color hC.1
          obtain ⟨nf, hnf, hgrandparent, _⟩ := exists_node hC.1
          cases red with
          | false =>
              refine ⟨t, _, ?_, .done ?_, h.rebalances⟩
              · rw [balanceAfterAdd, hna]
                simp only [habove, isRed_some, hred, Option.bind_eq_bind, Option.bind_some]
                rfl
              · rintro f' g' D heq
                obtain ⟨rfl, _⟩ := List.cons.inj heq
                exact redAt_of_color hred
          | true =>
              cases C with
              | nil =>
                  refine ⟨t, _, ?_, .done (by simp), h.rebalances⟩
                  rw [balanceAfterAdd, hna]
                  simp only [habove, isRed_some, hred, hnf, hgrandparent, if_true,
                    Option.bind_eq_bind, Option.bind_some]
                  rfl
              | cons g C =>
                  obtain ⟨a', t₁, S', D, ht₁, hS', hlength, hround, hrebalances⟩ :=
                    TreeBAASub_spec h hS
                  rw [List.length_cons, List.length_cons] at hfuel
                  obtain ⟨t', T', ht', hrounds, hrebalances'⟩ :=
                    ih (by omega) hrebalances.shaped hS'
                  refine ⟨t', T', ?_, .round (redAt_of_color hred) hround hrounds,
                    hrebalances.trans hrebalances'⟩
                  rw [balanceAfterAdd_round h hS hred ht₁, ht']

theorem Shaped.exists_root
    {T : BinaryTree Addr} {a : Addr}
    (h : t.Shaped index T)
    (ha : a ∈ elements T) :
    ∃ b c, t.root index = some b ∧ t.links b = some (none, c) := by
  cases T with
  | nil =>
      cases ha
  | node b l r =>
      exact ⟨b, _, h.root, h.holds.1⟩

/-- The rounds are made from the place, and then the root is blackened. -/
theorem TreeBalanceAfterAdd_rounds
    {S : BinaryTree Addr} {C : List (Frame Addr)} {a : Addr}
    (h : t.Shaped index (plug S C))
    (hS : rootOf S = some a) :
    ∃ t' T' red b, t.TreeBalanceAfterAdd a index = some t' ∧ AddRounds t.redAt S C T' red ∧
      rootOf T' = some b ∧ t'.redAt = Function.update red b false ∧
      Rebalances index (plug S C) t t' T' := by
  obtain ⟨t₁, T₁, ht₁, hrounds, hrebalances₁⟩ := balanceAfterAdd_spec h.length_lt h hS
  have ha : a ∈ elements T₁ := by
    rw [hrebalances₁.order]
    exact mem_elements_plug hS C
  obtain ⟨b, _, hroot, hb⟩ := hrebalances₁.shaped.exists_root ha
  obtain ⟨t₂, ht₂, _, _, hred₂, hrebalances₂⟩ := hrebalances₁.shaped.setRed hb false
  refine ⟨t₂, T₁, t₁.redAt, b, ?_, hrounds, hrebalances₁.shaped.root.symm.trans hroot, hred₂,
    hrebalances₁.trans hrebalances₂⟩
  rw [TreeBalanceAfterAdd, ht₁]
  simp only [hroot, ht₂, Option.bind_eq_bind, Option.bind_some]

/-! ### After removing -/

/-- The current node is at the place; `temp` is at an empty place. -/
def AtPlace (cur : CurrentNode) (S : BinaryTree Addr) (C : List (Frame Addr)) : Prop :=
  match cur with
  | .node a => rootOf S = some a
  | .temp p => S = .nil ∧ parentAddr C = some p

/-- Nothing but the value above a place says what is at it. -/
theorem AtPlace.above
    {cur : CurrentNode} {S : BinaryTree Addr} {f g : Frame Addr} {C D : List (Frame Addr)}
    (h : AtPlace cur S (f :: C))
    (hvalue : g.value = f.value) :
    AtPlace cur S (g :: D) := by
  cases cur with
  | node a =>
      exact h
  | temp p =>
      exact ⟨h.1, (congrArg some hvalue).trans h.2⟩

theorem Shaped.parentOf
    {cur : CurrentNode} {S : BinaryTree Addr} {f : Frame Addr} {C : List (Frame Addr)}
    (h : t.Shaped index (plug S (f :: C)))
    (hcur : AtPlace cur S (f :: C)) :
    t.parentOf cur = some (some f.value) := by
  cases cur with
  | node a =>
      obtain ⟨_, ha⟩ := h.above.1.links_root hcur
      obtain ⟨n, hn, hparent, _⟩ := exists_node ha
      rw [Tree.parentOf, hn, ← hparent]
      rfl
  | temp p =>
      exact congrArg some hcur.2.symm

/-- The sibling is black in the end; where it was red, the parent is red now. -/
theorem rotateRedSibling_spec
    {cur : CurrentNode} {S s : BinaryTree Addr} {d : Bool} {p : Addr} {C : List (Frame Addr)}
    (h : t.Shaped index (plug S (⟨d, p, s⟩ :: C)))
    (hcur : AtPlace cur S (⟨d, p, s⟩ :: C)) :
    ∃ t' s' C', t.rotateRedSibling cur (!d) index = some (rootOf s', t') ∧
      AtPlace cur S (⟨d, p, s'⟩ :: C') ∧ SiblingRotated t.redAt d p s C s' C' t'.redAt ∧
      Rebalances index (plug S (⟨d, p, s⟩ :: C)) t t' (plug S (⟨d, p, s'⟩ :: C')) := by
  obtain ⟨_, hp, hs, _⟩ := h.above
  have hparentOf := h.parentOf hcur
  obtain ⟨np, hnp, _, hchildp⟩ := exists_node hp
  have hred := hs.isRed_rootOf
  have hsibling : np.child (!d) = rootOf s := by rw [hchildp, pointers_other]
  cases hcolor : rootRed t.redAt s with
  | false =>
      rw [hcolor] at hred
      refine ⟨t, s, C, ?_, hcur, .black hcolor, h.rebalances⟩
      rw [rotateRedSibling, hparentOf]
      simp only [hnp, hsibling, hred, Option.bind_eq_bind, Option.bind_some]
      rfl
  | true =>
      rw [hcolor] at hred
      obtain ⟨b, m, r, rfl, hb'⟩ := exists_of_rootRed d hcolor
      rw [rootOf_join] at hsibling hred
      obtain ⟨_, hb⟩ := hs.links_root (rootOf_join d b m r)
      obtain ⟨t₁, ht₁, hlinks₁, _, hred₁, hrebalances₁⟩ := h.setRed hb false
      rw [← hlinks₁] at hp
      obtain ⟨t₂, ht₂, _, _, hred₂, hrebalances₂⟩ := hrebalances₁.shaped.setRed hp true
      have hshaped := hrebalances₂.shaped
      rw [plug_cons, ← join_not] at hshaped
      obtain ⟨t₃, ht₃, hred₃, hrebalances₃⟩ := hshaped.rotate
      have hplace : t₃.Shaped index (plug S (⟨d, p, m⟩ :: ⟨d, b, r⟩ :: C)) :=
        hrebalances₃.shaped
      obtain ⟨n₃, hn₃, _, hchild₃⟩ := exists_node hplace.above.2.1
      have hcur₃ : AtPlace cur S (⟨d, p, m⟩ :: ⟨d, b, r⟩ :: C) := hcur.above rfl
      refine ⟨t₃, m, ⟨d, b, r⟩ :: C, ?_, hcur₃, ?_, ?_⟩
      · rw [rotateRedSibling, hparentOf]
        simp only [hnp, hsibling, hred, ht₁, ht₂, Bool.not_not, ht₃, hplace.parentOf hcur₃, hn₃,
          hchild₃, pointers_other, if_true, Option.bind_eq_bind, Option.bind_some]
        rfl
      · rw [hred₃, hred₂, hred₁]
        exact .red rfl hb'
      · rw [join_not] at hrebalances₃
        exact (hrebalances₁.trans hrebalances₂).trans hrebalances₃

/-- The child of the sibling on its own side is red in the end. -/
theorem rotateSibling_spec
    {cur : CurrentNode} {S m r : BinaryTree Addr} {d : Bool} {p b : Addr}
    {C : List (Frame Addr)}
    (h : t.Shaped index (plug S (⟨d, p, join d b m r⟩ :: C)))
    (hcur : AtPlace cur S (⟨d, p, join d b m r⟩ :: C))
    (hred : rootRed t.redAt m = true ∨ rootRed t.redAt r = true) :
    ∃ t' b' m' r' e, t.rotateSibling cur b (!d) index = some (b', t') ∧ rootOf r' = some e ∧
      AtPlace cur S (⟨d, p, join d b' m' r'⟩ :: C) ∧
      NephewRotated t.redAt d b m r b' m' r' t'.redAt ∧
      Rebalances index (plug S (⟨d, p, join d b m r⟩ :: C)) t t'
        (plug S (⟨d, p, join d b' m' r'⟩ :: C)) := by
  obtain ⟨_, _, hs, _⟩ := h.above
  obtain ⟨hb, hm, hr⟩ := holdsTree_join.mp hs
  obtain ⟨nb, hnb, _, hchildb⟩ := exists_node hb
  have houter : nb.child (!d) = rootOf r := by rw [hchildb, pointers_other]
  have hinner : nb.child (!(!d)) = rootOf m := by rw [hchildb, Bool.not_not, pointers_self]
  have hblack := hr.isBlack_rootOf
  cases hcolor : rootRed t.redAt r with
  | true =>
      rw [hcolor] at hblack
      obtain ⟨e, x, y, rfl, _⟩ := exists_of_rootRed false hcolor
      refine ⟨t, b, m, _, e, ?_, rootOf_join _ _ _ _, hcur, .outer hcolor, h.rebalances⟩
      rw [rotateSibling, hnb]
      simp only [houter, hblack, Option.bind_eq_bind, Option.bind_some]
      rfl
  | false =>
      rw [hcolor] at hblack
      -- the child on the other side is red, and comes up
      have hredm : rootRed t.redAt m = true := hred.resolve_right fun hredr => by
        rw [hcolor] at hredr
        cases hredr
      obtain ⟨c, m₁, r₁, rfl, hc'⟩ := exists_of_rootRed (!d) hredm
      obtain ⟨_, hc⟩ := hm.links_root (rootOf_join (!d) c m₁ r₁)
      obtain ⟨t₁, ht₁, hlinks₁, _, hred₁, hrebalances₁⟩ := h.setRed hc false
      rw [← hlinks₁] at hb
      obtain ⟨t₂, ht₂, _, _, hred₂, hrebalances₂⟩ := hrebalances₁.shaped.setRed hb true
      have hshape : plug S (⟨d, p, join d b (join (!d) c m₁ r₁) r⟩ :: C) =
          plug (join (!(!d)) b (join (!d) c m₁ r₁) r) (⟨!d, p, S⟩ :: C) := by
        rw [plug_cons, plug_cons, Bool.not_not, join_not d p]
      have hshaped := hrebalances₂.shaped
      rw [hshape] at hshaped
      obtain ⟨t₃, ht₃, hred₃, hrebalances₃⟩ := hshaped.rotate
      have hshape' : plug (join (!d) c (join (!d) b r m₁) r₁) (⟨!d, p, S⟩ :: C) =
          plug S (⟨d, p, join d c r₁ (join (!d) b r m₁)⟩ :: C) := by
        rw [plug_cons, plug_cons, join_not d p, join_not d c]
      rw [← hshape, hshape'] at hrebalances₃
      have hplace := hrebalances₃.shaped
      obtain ⟨n₃, hn₃, _, hchild₃⟩ := exists_node hplace.above.2.1
      have hcur₃ : AtPlace cur S (⟨d, p, join d c r₁ (join (!d) b r m₁)⟩ :: C) :=
        hcur.above rfl
      refine ⟨t₃, c, r₁, join (!d) b r m₁, b, ?_, rootOf_join _ _ _ _, hcur₃, ?_,
        (hrebalances₁.trans hrebalances₂).trans hrebalances₃⟩
      · rw [rotateSibling, hnb]
        simp only [houter, hblack, hinner, rootOf_join, ht₁, ht₂, ht₃, hplace.parentOf hcur₃,
          hn₃, hchild₃, pointers_other, Bool.not_false, if_true, Option.bind_eq_bind,
          Option.bind_some]
        rfl
      · rw [hred₃, hred₂, hred₁]
        exact .inner hcolor rfl hc'

theorem rotateParent_spec
    {cur : CurrentNode} {S m r : BinaryTree Addr} {d : Bool} {p b e : Addr}
    {C : List (Frame Addr)}
    (h : t.Shaped index (plug S (⟨d, p, join d b m r⟩ :: C)))
    (hcur : AtPlace cur S (⟨d, p, join d b m r⟩ :: C))
    (he : rootOf r = some e) :
    ∃ t', t.rotateParent cur b (!d) index = some t' ∧
      t'.redAt = Function.update (Function.update (Function.update t.redAt b (t.redAt p)) p false)
        e false ∧
      Rebalances index (plug S (⟨d, p, join d b m r⟩ :: C)) t t'
        (plug (join d b (join d p S m) r) C) := by
  obtain ⟨_, hp, hs, _⟩ := h.above
  obtain ⟨hb, _, hr⟩ := holdsTree_join.mp hs
  obtain ⟨_, hlinke⟩ := hr.links_root he
  obtain ⟨np, hnp, _⟩ := exists_node hp
  have hcolorp : t.redAt p = np.red := redAt_of_color (by rw [color, hnp]; rfl)
  obtain ⟨t₁, ht₁, hlinks₁, _, hred₁, hrebalances₁⟩ := h.setRed hb np.red
  rw [← hlinks₁] at hp hb hlinke
  obtain ⟨t₂, ht₂, hlinks₂, _, hred₂, hrebalances₂⟩ := hrebalances₁.shaped.setRed hp false
  rw [← hlinks₂] at hb hlinke
  obtain ⟨nb, hnb, _, hchildb⟩ := exists_node hb
  have houter : nb.child (!d) = some e := by rw [hchildb, pointers_other, he]
  obtain ⟨t₃, ht₃, _, _, hred₃, hrebalances₃⟩ := hrebalances₂.shaped.setRed hlinke false
  have hshape : plug S (⟨d, p, join d b m r⟩ :: C) =
      plug (join (!d) p (join d b m r) S) C := by
    rw [plug_cons, join_not]
  have hshaped := hrebalances₃.shaped
  rw [hshape] at hshaped
  obtain ⟨t₄, ht₄, hred₄, hrebalances₄⟩ := hshaped.rotate
  rw [← hshape] at hrebalances₄
  refine ⟨t₄, ?_, by rw [hred₄, hred₃, hred₂, hred₁, hcolorp],
    ((hrebalances₁.trans hrebalances₂).trans hrebalances₃).trans hrebalances₄⟩
  rw [rotateParent, h.parentOf hcur]
  simp only [hnp, ht₁, ht₂, hnb, houter, ht₃, Bool.not_not, ht₄, Option.bind_eq_bind,
    Option.bind_some]

/-- A round is one of those on the shape and the colours; after it the current node is one up,
or red, or the root. -/
theorem TreeBARSub_spec
    {cur : CurrentNode} {S s : BinaryTree Addr} {d : Bool} {p : Addr} {C : List (Frame Addr)}
    (h : t.Shaped index (plug S (⟨d, p, s⟩ :: C)))
    (hcur : AtPlace cur S (⟨d, p, s⟩ :: C)) :
    ∃ a t' s' C' red S' D, t.TreeBARSub cur (!d) index = some (a, t') ∧ rootOf S' = some a ∧
      (D = C ∨ t'.redAt a = true ∨ D = []) ∧ SiblingRotated t.redAt d p s C s' C' red ∧
      BlackSibling red S d p s' C' S' D t'.redAt ∧
      Rebalances index (plug S (⟨d, p, s⟩ :: C)) t t' (plug S' D) := by
  obtain ⟨t₁, s₁, C₁, ht₁, hcur₁, hrotated, hrebalances₁⟩ := rotateRedSibling_spec h hcur
  have hshaped₁ := hrebalances₁.shaped
  have hparentOf := hshaped₁.parentOf hcur₁
  have hs₁ := hshaped₁.above.2.2.1
  have hup : C₁ = C ∨ t₁.redAt p = true := hrotated.same_or_red
  cases hroot : rootOf s₁ with
  | none =>
      refine ⟨p, t₁, s₁, C₁, _, join d p S s₁, C₁, ?_, rootOf_join _ _ _ _, hup.imp_right .inl,
        hrotated, .missing (rootOf_eq_none.mp hroot), hrebalances₁⟩
      rw [TreeBARSub, ht₁, hroot]
      simp only [hparentOf, Option.bind_eq_bind, Option.bind_some]
      rfl
  | some b =>
      obtain ⟨m, r, rfl⟩ := rootOf_eq_some d hroot
      obtain ⟨hb, hm, hr⟩ := holdsTree_join.mp hs₁
      obtain ⟨nb, hnb, _, hchildb⟩ := exists_node hb
      have hblackm := hm.isBlack_rootOf
      have hblackr := hr.isBlack_rootOf
      have hinner : nb.child (!(!d)) = rootOf m := by rw [hchildb, Bool.not_not, pointers_self]
      have houter : nb.child (!d) = rootOf r := by rw [hchildb, pointers_other]
      by_cases hblack : ((!rootRed t₁.redAt m) && (!rootRed t₁.redAt r)) = true
      · -- the black moves up to the parent
        obtain ⟨t₂, ht₂, _, _, hred₂, hrebalances₂⟩ := hshaped₁.setRed hb true
        have hchildren : rootRed t₁.redAt m = false ∧ rootRed t₁.redAt r = false := by
          simpa using hblack
        refine ⟨p, t₂, _, C₁, _, join d p S (join d b m r), C₁, ?_, rootOf_join _ _ _ _, ?_,
          hrotated, ?_, hrebalances₁.trans hrebalances₂⟩
        · rw [TreeBARSub, ht₁, hroot]
          simp only [hparentOf, hnb, hinner, houter, hblackm, hblackr, hblack, ht₂, if_true,
            Option.bind_eq_bind, Option.bind_some]
          rfl
        · refine hup.imp_right fun hred => .inl ?_
          rw [hred₂]
          by_cases hpb : p = b
          · rw [hpb, Function.update_self]
          · rw [Function.update_of_ne hpb, hred]
        · rw [hred₂]
          exact .recolor rfl hchildren.1 hchildren.2
      · have hred : rootRed t₁.redAt m = true ∨ rootRed t₁.redAt r = true := by
          simpa [imp_iff_not_or] using hblack
        obtain ⟨t₂, b₂, m₂, r₂, e, ht₂, he, hcur₂, hnephew, hrebalances₂⟩ :=
          rotateSibling_spec hshaped₁ hcur₁ hred
        obtain ⟨t₃, ht₃, hred₃, hrebalances₃⟩ := rotateParent_spec hrebalances₂.shaped hcur₂ he
        obtain ⟨a, _, hroot₃, _⟩ := hrebalances₃.shaped.exists_root (a := p) (by
          rw [hrebalances₃.order]
          refine (elements_plug_perm _ _).mem_iff.mpr (List.mem_append_right _ ?_)
          exact List.mem_cons_self)
        refine ⟨a, t₃, _, C₁, _, plug (join d b₂ (join d p S m₂) r₂) C₁, [], ?_, ?_,
          .inr (.inr rfl), hrotated, ?_, (hrebalances₁.trans hrebalances₂).trans hrebalances₃⟩
        · rw [TreeBARSub, ht₁, hroot]
          simp only [hparentOf, hnb, hinner, houter, hblackm, hblackr, if_neg hblack, ht₂, ht₃,
            hroot₃, Option.bind_eq_bind, Option.bind_some]
          rfl
        · rw [← hrebalances₃.shaped.root, hroot₃]
        · rw [hred₃]
          exact .rotate rfl hnephew he

/-- At the root and at a red node the loop ends. -/
theorem balanceAfterRemove_end
    {S : BinaryTree Addr} {C : List (Frame Addr)} {a : Addr}
    (h : t.Shaped index (plug S C))
    (hS : rootOf S = some a)
    (hlast : t.redAt a = true ∨ C = []) (fuel : Nat) :
    balanceAfterRemove index (fuel + 1) t (.node a) = some (.node a, t) := by
  have hsettled : t.isUnsettled index (.node a) = some false := by
    rw [isUnsettled]
    split
    · rfl
    · next hroot =>
        rcases hlast with hred | rfl
        · rw [isBlack_some, color_of_redAt hred]
          rfl
        · exact absurd (h.root.trans hS) hroot
  rw [balanceAfterRemove, hsettled]
  rfl

/-- The side of the place is found by comparing, or it may be taken to be the left one. -/
theorem exists_side
    {cur : CurrentNode} {S : BinaryTree Addr} {f : Frame Addr} {C : List (Frame Addr)}
    (h : t.Shaped index (plug S (f :: C)))
    (hcur : AtPlace cur S (f :: C)) :
    ∃ d, join f.side f.value S f.sibling = join d f.value S f.sibling ∧
      (cur.pointer = pointers f.side (rootOf S) (rootOf f.sibling) LEFT ↔ d = LEFT) := by
  obtain ⟨side, p, s⟩ := f
  have hpointer : cur.pointer = rootOf S := by
    cases cur with
    | node a =>
        exact hcur.symm
    | temp p =>
        rw [hcur.1]
        rfl
  cases side with
  | false =>
      exact ⟨LEFT, rfl, iff_of_true hpointer rfl⟩
  | true =>
      by_cases hsame : rootOf S = rootOf s
      · cases hS : rootOf S with
        | some a =>
            exact absurd (hsame.symm.trans hS) (h.sibling_ne hS)
        | none =>
            obtain rfl := rootOf_eq_none.mp hS
            obtain rfl := rootOf_eq_none.mp (hsame.symm.trans hS)
            exact ⟨LEFT, rfl, iff_of_true hpointer rfl⟩
      · refine ⟨RIGHT, rfl, iff_of_false ?_ Bool.true_eq_false.mp⟩
        rw [hpointer]
        exact hsame

/-- `temp` is never settled, and a node is where it is red or the root. -/
theorem isUnsettled_cases
    {cur : CurrentNode} {S : BinaryTree Addr} {C : List (Frame Addr)}
    (h : t.Shaped index (plug S C))
    (hcur : AtPlace cur S C) :
    (∃ a, cur = .node a ∧ (t.redAt a = true ∨ C = []) ∧
        t.isUnsettled index cur = some false) ∨
      (∃ f D, C = f :: D ∧ rootRed t.redAt S = false ∧ t.isUnsettled index cur = some true) := by
  cases C with
  | nil =>
      cases cur with
      | temp p =>
          cases hcur.2
      | node a =>
          exact .inl ⟨a, rfl, .inr rfl, if_pos (h.root.trans hcur)⟩
  | cons f D =>
      cases cur with
      | temp p =>
          refine .inr ⟨f, D, rfl, ?_, rfl⟩
          rw [hcur.1]
          rfl
      | node a =>
          obtain ⟨_, ha⟩ := h.above.1.links_root hcur
          obtain ⟨red, hred⟩ := exists_color ha
          have hroot : t.root index ≠ some a := by
            rw [h.root]
            intro hroot
            have hnodup := (elements_plug_perm S (f :: D)).nodup_iff.mp h.nodup
            exact (List.nodup_append.mp hnodup).2.2 a (mem_elements_of_rootOf hcur) a
              (mem_around_of_rootOf hroot) rfl
          rw [isUnsettled, isBlack_some, hred, if_neg hroot]
          cases red with
          | false =>
              refine .inr ⟨f, D, rfl, ?_, rfl⟩
              rw [rootRed_of_rootOf hcur]
              exact redAt_of_color hred
          | true =>
              exact .inl ⟨a, rfl, .inl (redAt_of_color hred), rfl⟩

/-- A round of the loop, with the sibling on the side that `exists_side` finds. -/
theorem balanceAfterRemove_round
    {cur : CurrentNode} {S : BinaryTree Addr} {f : Frame Addr} {C : List (Frame Addr)} {d : Bool}
    {a : Addr} {t₁ : Tree α κ}
    (h : t.Shaped index (plug S (f :: C)))
    (hcur : AtPlace cur S (f :: C))
    (hunsettled : t.isUnsettled index cur = some true)
    (hside : cur.pointer = pointers f.side (rootOf S) (rootOf f.sibling) LEFT ↔ d = LEFT)
    (hround : t.TreeBARSub cur (!d) index = some (a, t₁)) (fuel : Nat) :
    balanceAfterRemove index (fuel + 1) t cur = balanceAfterRemove index fuel t₁ (.node a) := by
  obtain ⟨nf, hnf, _, hchildf⟩ := exists_node h.above.2.1
  rw [balanceAfterRemove, hunsettled]
  simp only [h.parentOf hcur, hnf, hchildf, if_true, Option.bind_eq_bind, Option.bind_some]
  by_cases hleft : d = LEFT
  · rw [if_pos (hside.mpr hleft)]
    rw [hleft] at hround
    simp only [show RIGHT = !LEFT from rfl, hround, Option.bind_some]
  · rw [if_neg (mt hside.mp hleft)]
    rw [show d = RIGHT by simpa using hleft] at hround
    simp only [show LEFT = !RIGHT from rfl, hround, Option.bind_some]

/-- The loop comes to its end at a node. -/
theorem balanceAfterRemove_spec
    {fuel : Nat} {cur : CurrentNode} {S : BinaryTree Addr} {C : List (Frame Addr)}
    (hfuel : C.length < fuel)
    (h : t.Shaped index (plug S C))
    (hcur : AtPlace cur S C) :
    ∃ a t' T', balanceAfterRemove index fuel t cur = some (.node a, t') ∧ a ∈ elements T' ∧
      RemoveRounds t.redAt S C T' t'.redAt a ∧ Rebalances index (plug S C) t t' T' := by
  induction fuel generalizing t cur S C with
  | zero =>
      exact absurd hfuel (Nat.not_lt_zero _)
  | succ fuel ih =>
      rcases isUnsettled_cases h hcur with
        ⟨a, rfl, hlast, hsettled⟩ | ⟨f, C, rfl, hblack, hunsettled⟩
      · refine ⟨a, t, _, ?_, mem_elements_plug hcur C, .done hcur hlast, h.rebalances⟩
        rw [balanceAfterRemove, hsettled]
        rfl
      · obtain ⟨d, hjoin, hside⟩ := exists_side h hcur
        have hplace := h
        rw [plug_cons, hjoin] at hplace ⊢
        obtain ⟨a, t₁, s₁, C₁, red₁, S₁, D, ht₁, hS₁, hlast, hsibling, hround, hrebalances₁⟩ :=
          TreeBARSub_spec (C := C) hplace (hcur.above rfl)
        rw [balanceAfterRemove_round h hcur hunsettled hside ht₁]
        rw [List.length_cons] at hfuel
        have hend : t₁.redAt a = true ∨ D = [] →
            ∃ a' t' T', balanceAfterRemove index fuel t₁ (.node a) = some (.node a', t') ∧
              a' ∈ elements T' ∧ RemoveRounds t₁.redAt S₁ D T' t'.redAt a' ∧
              Rebalances index (plug S₁ D) t₁ t' T' := by
          intro hend
          obtain ⟨fuel, rfl⟩ : ∃ k, fuel = k + 1 := ⟨fuel - 1, by omega⟩
          exact ⟨a, t₁, _, balanceAfterRemove_end hrebalances₁.shaped hS₁ hend fuel,
            mem_elements_plug hS₁ D, .done hS₁ hend, hrebalances₁.shaped.rebalances⟩
        obtain ⟨a', t', T', ht', hin, hrounds, hrebalances'⟩ :
            ∃ a' t' T', balanceAfterRemove index fuel t₁ (.node a) = some (.node a', t') ∧
              a' ∈ elements T' ∧ RemoveRounds t₁.redAt S₁ D T' t'.redAt a' ∧
              Rebalances index (plug S₁ D) t₁ t' T' := by
          rcases hlast with rfl | hlast
          · have hnext : AtPlace (.node a) S₁ D := hS₁
            exact ih (by omega) hrebalances₁.shaped hnext
          · exact hend hlast
        exact ⟨a', t', T', ht', hin, .round hblack hjoin hsibling hround hrounds,
          hrebalances₁.trans hrebalances'⟩

/-- The rounds are made from the place, and then the node at which they end is blackened. -/
theorem TreeBalanceAfterRemove_rounds
    {cur : CurrentNode} {S : BinaryTree Addr} {C : List (Frame Addr)}
    (h : t.Shaped index (plug S C))
    (hcur : AtPlace cur S C) :
    ∃ t' T' red a, t.TreeBalanceAfterRemove cur index = some t' ∧
      RemoveRounds t.redAt S C T' red a ∧ t'.redAt = Function.update red a false ∧
      Rebalances index (plug S C) t t' T' := by
  obtain ⟨a, t₁, T₁, ht₁, hin, hrounds, hrebalances₁⟩ :=
    balanceAfterRemove_spec h.length_lt h hcur
  obtain ⟨l, r, D, hplug⟩ := exists_plug_of_mem hin []
  rw [plug_nil] at hplug
  subst hplug
  obtain ⟨_, ha⟩ := (holdsTree_plug.mp hrebalances₁.shaped.holds).1.links_root (rootOf_node a l r)
  obtain ⟨t₂, ht₂, _, _, hred₂, hrebalances₂⟩ := hrebalances₁.shaped.setRed ha false
  refine ⟨t₂, _, t₁.redAt, a, ?_, hrounds, hred₂, hrebalances₁.trans hrebalances₂⟩
  rw [TreeBalanceAfterRemove, ht₁]
  exact ht₂

end

end Tree
end PahoMqtt
