import PahoMqtt.Lib.RedBlack

/-!
# Balancing after adding

The rounds that go up from a node whose parent may be as red as itself.  Behind
a red uncle the red moves up; beside a black one a rotation or two end it.  The
rounds are sound from a red node, and from a black one too unless it is the
inner child of its parent: then the two subtrees of the node that is rotated
down have different black heights.
-/

namespace PahoMqtt
namespace Lib
namespace RedBlack

open TreePlaces

universe u

variable {α : Type u} [DecidableEq α]

/-- A tree whose only fault may be that the node at the place and its parent are red. -/
def Nearly (red : α → Bool) (S : BinaryTree α) (C : List (Frame α)) : Prop :=
  ∃ n, Sound red S n ∧ SoundAround red C n false

/-- A round at the place, with the parent, the grandparent and what is above them. -/
inductive AddRound (red : α → Bool) (S : BinaryTree α) (f g : Frame α) (C : List (Frame α)) :
    BinaryTree α → List (Frame α) → (α → Bool) → Prop
  | recolor {u : α}
      (hroot : rootOf g.sibling = some u)
      (hu : red u = true) :
      AddRound red S f g C (join g.side g.value (join f.side f.value S f.sibling) g.sibling) C
        (Function.update (Function.update (Function.update red u false) f.value false)
          g.value true)
  | outer
      (hside : f.side = g.side)
      (hu : rootRed red g.sibling = false) :
      AddRound red S f g C S
        (⟨g.side, f.value, join (!g.side) g.value g.sibling f.sibling⟩ :: C)
        (Function.update (Function.update red f.value false) g.value true)
  | inner {a : α} {m r : BinaryTree α}
      (hside : f.side = !g.side)
      (hu : rootRed red g.sibling = false)
      (hS : S = join g.side a m r) :
      AddRound red S f g C (join g.side f.value f.sibling m)
        (⟨g.side, a, join (!g.side) g.value g.sibling r⟩ :: C)
        (Function.update (Function.update red a false) g.value true)

/-- The rounds go on while the parent is red and not the root. -/
inductive AddRounds : (red : α → Bool) → BinaryTree α → List (Frame α) →
    BinaryTree α → (red' : α → Bool) → Prop
  | done {red : α → Bool} {S : BinaryTree α} {C : List (Frame α)}
      (hparent : ∀ f g D, C = f :: g :: D → red f.value = false) :
      AddRounds red S C (plug S C) red
  | round {red red' red'' : α → Bool} {S S' T : BinaryTree α} {f g : Frame α}
      {C D : List (Frame α)}
      (hparent : red f.value = true)
      (hround : AddRound red S f g C S' D red')
      (hrest : AddRounds red' S' D T red'') :
      AddRounds red S (f :: g :: C) T red''

/-! ### Nodes that are different -/

/-- The nodes at, beside and above a place are different. -/
structure Separate (S : BinaryTree α) (f g : Frame α) (C : List (Frame α)) : Prop where
  parent : f.value ≠ g.value ∧ f.value ∉ elements S ∧ f.value ∉ elements f.sibling ∧
    f.value ∉ elements g.sibling ∧ f.value ∉ around C
  grandparent : g.value ∉ elements S ∧ g.value ∉ elements f.sibling ∧
    g.value ∉ elements g.sibling ∧ g.value ∉ around C
  place : ∀ a ∈ elements S, a ∉ elements f.sibling ∧ a ∉ elements g.sibling ∧ a ∉ around C
  uncle : ∀ a ∈ elements g.sibling, a ∉ elements S ∧ a ∉ elements f.sibling ∧ a ∉ around C
  place_nodup : (elements S).Nodup
  uncle_nodup : (elements g.sibling).Nodup

omit [DecidableEq α] in
theorem separate
    {S : BinaryTree α} {f g : Frame α} {C : List (Frame α)}
    (h : (elements (plug S (f :: g :: C))).Nodup) :
    Separate S f g C := by
  have hnodup := (elements_plug_perm S (f :: g :: C)).nodup_iff.mp h
  have haround : around (f :: g :: C) =
      f.value :: (elements f.sibling ++ (g.value :: (elements g.sibling ++ around C))) := rfl
  rw [haround] at hnodup
  obtain ⟨hS, hrest, hSrest⟩ := List.nodup_append.mp hnodup
  obtain ⟨hf, hrest⟩ := List.nodup_cons.mp hrest
  obtain ⟨_, hrest, hfs⟩ := List.nodup_append.mp hrest
  obtain ⟨hg, hrest⟩ := List.nodup_cons.mp hrest
  obtain ⟨hgs, _, hgC⟩ := List.nodup_append.mp hrest
  constructor <;> grind

/-- The children of a node whose colour is changed. -/
theorem sound_join_update
    {red : α → Bool} {x y : BinaryTree α} {a : α} {side value : Bool} {n : Nat}
    (hx : a ∉ elements x)
    (hy : a ∉ elements y) :
    Sound (Function.update red a value) (join side a x y) n ↔
      ∃ k, n = k + (if value then 0 else 1) ∧
        (value = true → rootRed red x = false ∧ rootRed red y = false) ∧
        Sound red x k ∧ Sound red y k := by
  have hother : ∀ {t : BinaryTree α}, a ∉ elements t →
      SameOn (elements t) red (Function.update red a value) :=
    fun ha => (SameOn.refl _ red).update ha
  have hcongr : ∀ {t : BinaryTree α} {k}, a ∉ elements t →
      (Sound (Function.update red a value) t k ↔ Sound red t k) := fun ha =>
    ⟨fun h => h.congr fun b hb => (hother ha b hb).symm, fun h => h.congr (hother ha)⟩
  simp only [sound_join, weight, Function.update_self, rootRed_congr (hother hx),
    rootRed_congr (hother hy), hcongr hx, hcongr hy]

/-! ### A round -/

section

variable {red red' : α → Bool} {S S' : BinaryTree α} {f g : Frame α} {C D : List (Frame α)}

omit [DecidableEq α] in
/-- A red parent has a black parent and a black sibling at the place. -/
theorem Nearly.above
    (h : Nearly red S (f :: g :: C))
    (hparent : red f.value = true) :
    ∃ n, Sound red S n ∧ Sound red f.sibling n ∧ rootRed red f.sibling = false ∧
      Sound red g.sibling n ∧ red g.value = false ∧ SoundAround red C (n + 1) false := by
  obtain ⟨n, hS, hf, hs, hg, hu, hC⟩ := h
  have hgrandparent : red g.value = false := by
    cases hred : red g.value with
    | false => rfl
    | true => exact absurd (hg hred).1 (by simp [hparent])
  refine ⟨n, hS, hs, (hf hparent).2, ?_, hgrandparent, ?_⟩
  · rwa [weight_red hparent, Nat.add_zero] at hu
  · rwa [weight_red hparent, weight_black hgrandparent, hgrandparent] at hC

/-- The red moves up from the parent and the uncle to the grandparent. -/
theorem Nearly.recolor
    {u : α}
    (h : Nearly red S (f :: g :: C))
    (hapart : Separate S f g C)
    (hparent : red f.value = true)
    (hroot : rootOf g.sibling = some u)
    (hu : red u = true) :
    Nearly (Function.update (Function.update (Function.update red u false) f.value false)
        g.value true)
      (join g.side g.value (join f.side f.value S f.sibling) g.sibling) C := by
  obtain ⟨n, hS, hs, _, hsibling, _, hC⟩ := h.above hparent
  obtain ⟨⟨hfg, hfS, hfs, hfu, hfC⟩, ⟨hgS, hgs, hgu, hgC⟩, _, huncle, _, hnodup⟩ := hapart
  obtain ⟨huS, hus, huC⟩ := huncle u (mem_elements_of_rootOf hroot)
  obtain ⟨x, y, hxy⟩ := rootOf_eq_some false hroot
  have hperm := elements_join_perm false u x y
  rw [← hxy] at hperm
  have hux := (List.nodup_cons.mp (hperm.nodup_iff.mp hnodup)).1
  rw [hxy] at hsibling
  obtain ⟨k, hk, hblack, hx, hy⟩ := sound_join.mp hsibling
  rw [weight_red hu, Nat.add_zero] at hk
  generalize hred' : Function.update (Function.update (Function.update red u false) f.value false)
    g.value true = red'
  have hg : red' g.value = true := by
    rw [← hred', Function.update_self]
  have hf : red' f.value = false := by
    rw [← hred', Function.update_of_ne hfg, Function.update_self]
  have hu' : red' u = false := by
    have huf : u ≠ f.value := fun heq => hfu (heq ▸ mem_elements_of_rootOf hroot)
    have hug : u ≠ g.value := fun heq => hgu (heq ▸ mem_elements_of_rootOf hroot)
    rw [← hred', Function.update_of_ne hug, Function.update_of_ne huf, Function.update_self]
  have hsame : ∀ {bs : List α}, u ∉ bs → f.value ∉ bs → g.value ∉ bs → SameOn bs red red' := by
    rintro bs hubs hfbs hgbs
    rw [← hred']
    exact (((SameOn.refl bs red).update hubs).update hfbs).update hgbs
  have hin : ∀ b ∈ elements x ++ elements y, b ∈ elements g.sibling := fun b hb =>
    hperm.mem_iff.mpr (List.mem_cons_of_mem _ hb)
  have hsame' := @hsame (elements x ++ elements y) hux (fun hb => hfu (hin _ hb))
    (fun hb => hgu (hin _ hb))
  have hx' : SameOn (elements x) red red' := fun b hb =>
    hsame' b (List.mem_append_left _ hb)
  have hy' : SameOn (elements y) red red' := fun b hb =>
    hsame' b (List.mem_append_right _ hb)
  have huncle' : Sound red' g.sibling (n + 1) := by
    rw [hxy]
    refine sound_join.mpr ⟨k, ?_, ?_, hx.congr hx', hy.congr hy'⟩
    · rw [weight_black hu', hk]
    · intro hred
      rw [hu'] at hred
      cases hred
  have hparent' : Sound red' (join f.side f.value S f.sibling) (n + 1) := by
    refine sound_join.mpr ⟨n, ?_, ?_, hS.congr (hsame huS hfS hgS), hs.congr (hsame hus hfs hgs)⟩
    · rw [weight_black hf]
    · intro hred
      rw [hf] at hred
      cases hred
  refine ⟨n + 1, sound_join.mpr ⟨n + 1, ?_, ?_, hparent', huncle'⟩, hC.congr (hsame huC hfC hgC)⟩
  · rw [weight_red hg, Nat.add_zero]
  · intro _
    rw [rootRed_join, hf, rootRed_of_rootOf hroot, hu']
    exact ⟨rfl, rfl⟩

/-- On the outer side the grandparent goes down to the uncle. -/
theorem Nearly.outer
    (h : Nearly red S (f :: g :: C))
    (hapart : Separate S f g C)
    (hparent : red f.value = true)
    (hu : rootRed red g.sibling = false) :
    Nearly (Function.update (Function.update red f.value false) g.value true) S
      (⟨g.side, f.value, join (!g.side) g.value g.sibling f.sibling⟩ :: C) := by
  obtain ⟨n, hS, hs, hblack, hsibling, _, hC⟩ := h.above hparent
  obtain ⟨⟨hfg, hfS, hfs, hfu, hfC⟩, ⟨hgS, hgs, hgu, hgC⟩, _⟩ := hapart
  generalize hred' : Function.update (Function.update red f.value false) g.value true = red'
  have hg : red' g.value = true := by
    rw [← hred', Function.update_self]
  have hf : red' f.value = false := by
    rw [← hred', Function.update_of_ne hfg, Function.update_self]
  have hsame : ∀ {bs : List α}, f.value ∉ bs → g.value ∉ bs → SameOn bs red red' := by
    rintro bs hfbs hgbs
    rw [← hred']
    exact ((SameOn.refl bs red).update hfbs).update hgbs
  have hdown : Sound red' (join (!g.side) g.value g.sibling f.sibling) n := by
    refine sound_join.mpr ⟨n, ?_, ?_, hsibling.congr (hsame hfu hgu), hs.congr (hsame hfs hgs)⟩
    · rw [weight_red hg, Nat.add_zero]
    · intro _
      rw [rootRed_congr (hsame hfu hgu), rootRed_congr (hsame hfs hgs)]
      exact ⟨hu, hblack⟩
  refine ⟨n, hS.congr (hsame hfS hgS), ?_, hdown, ?_⟩
  · intro hred
    rw [hf] at hred
    cases hred
  · dsimp only
    rw [weight_black hf, hf]
    exact hC.congr (hsame hfC hgC)

/-- On the inner side the node comes up between its parent and its grandparent. -/
theorem Nearly.inner
    {a : α} {m r : BinaryTree α}
    (h : Nearly red (join g.side a m r) (f :: g :: C))
    (hapart : Separate (join g.side a m r) f g C)
    (hparent : red f.value = true)
    (hu : rootRed red g.sibling = false)
    (ha : red a = true) :
    Nearly (Function.update (Function.update red a false) g.value true)
      (join g.side f.value f.sibling m)
      (⟨g.side, a, join (!g.side) g.value g.sibling r⟩ :: C) := by
  obtain ⟨n, hS, hs, hblack, hsibling, _, hC⟩ := h.above hparent
  obtain ⟨⟨hfg, hfS, _⟩, ⟨hgS, hgs, hgu, hgC⟩, hplace, _, hnodup, _⟩ := hapart
  have hperm := elements_join_perm g.side a m r
  have hin : a ∈ elements (join g.side a m r) := hperm.mem_iff.mpr List.mem_cons_self
  obtain ⟨has, hau, haC⟩ := hplace a hin
  have hamr := (List.nodup_cons.mp (hperm.nodup_iff.mp hnodup)).1
  rw [hperm.mem_iff, List.mem_cons, not_or, List.mem_append, not_or] at hfS hgS
  rw [List.mem_append, not_or] at hamr
  obtain ⟨k, hk, hchildren, hm, hr⟩ := sound_join.mp hS
  rw [weight_red ha, Nat.add_zero] at hk
  obtain ⟨hmblack, hrblack⟩ := hchildren ha
  subst hk
  generalize hred' : Function.update (Function.update red a false) g.value true = red'
  have hg : red' g.value = true := by
    rw [← hred', Function.update_self]
  have ha' : red' a = false := by
    rw [← hred', Function.update_of_ne (Ne.symm hgS.1), Function.update_self]
  have hf : red' f.value = true := by
    rw [← hred', Function.update_of_ne hfg, Function.update_of_ne hfS.1, hparent]
  have hsame : ∀ {bs : List α}, a ∉ bs → g.value ∉ bs → SameOn bs red red' := by
    rintro bs habs hgbs
    rw [← hred']
    exact ((SameOn.refl bs red).update habs).update hgbs
  have hdown : Sound red' (join (!g.side) g.value g.sibling r) n := by
    refine sound_join.mpr ⟨n, ?_, ?_, hsibling.congr (hsame hau hgu),
      hr.congr (hsame hamr.2 hgS.2.2)⟩
    · rw [weight_red hg, Nat.add_zero]
    · intro _
      rw [rootRed_congr (hsame hau hgu), rootRed_congr (hsame hamr.2 hgS.2.2)]
      exact ⟨hu, hrblack⟩
  have hdown' : Sound red' (join g.side f.value f.sibling m) n := by
    refine sound_join.mpr ⟨n, ?_, ?_, hs.congr (hsame has hgs),
      hm.congr (hsame hamr.1 hgS.2.1)⟩
    · rw [weight_red hf, Nat.add_zero]
    · intro _
      rw [rootRed_congr (hsame has hgs), rootRed_congr (hsame hamr.1 hgS.2.1)]
      exact ⟨hblack, hmblack⟩
  refine ⟨n, hdown', ?_, hdown, ?_⟩
  · intro hred
    rw [ha'] at hred
    cases hred
  · dsimp only
    rw [weight_black ha', ha']
    exact hC.congr (hsame haC hgC)

omit [DecidableEq α] in
/-- The node at the place is black and the inner child of a red parent with a black sibling. -/
def Misplaced (red : α → Bool) (S : BinaryTree α) (C : List (Frame α)) : Prop :=
  rootRed red S = false ∧ ∃ f g D, C = f :: g :: D ∧ red f.value = true ∧ f.side = !g.side ∧
    rootRed red g.sibling = false

theorem AddRound.elements_eq
    (h : AddRound red S f g C S' D red') :
    elements (plug S' D) = elements (plug S (f :: g :: C)) := by
  obtain ⟨side, p, y⟩ := f
  obtain ⟨side', q, u⟩ := g
  cases h with
  | recolor hroot hu =>
      rfl
  | outer hside hu =>
      obtain rfl : side = side' := hside
      refine elements_plug_congr ?_ C
      cases side <;> simp [join]
  | inner hside hu hS =>
      obtain rfl : side = !side' := hside
      rw [hS]
      refine elements_plug_congr ?_ C
      cases side' <;> simp [join]

/-- The rounds are sound, and from the second one on they are at a red node or come to an end. -/
theorem AddRound.nearly
    (hround : AddRound red S f g C S' D red')
    (h : Nearly red S (f :: g :: C))
    (hnodup : (elements (plug S (f :: g :: C))).Nodup)
    (hparent : red f.value = true)
    (hplace : ¬Misplaced red S (f :: g :: C)) :
    Nearly red' S' D ∧ ¬Misplaced red' S' D := by
  have hapart := separate hnodup
  cases hround with
  | recolor hroot hu =>
      refine ⟨h.recolor hapart hparent hroot hu, ?_⟩
      rintro ⟨hblack, _⟩
      rw [rootRed_join, Function.update_self] at hblack
      cases hblack
  | outer hside hu =>
      refine ⟨h.outer hapart hparent hu, ?_⟩
      rintro ⟨_, f', g', D, heq, hred, _⟩
      obtain ⟨rfl, _⟩ := List.cons.inj heq
      dsimp only at hred
      rw [Function.update_of_ne hapart.parent.1, Function.update_self] at hred
      cases hred
  | @inner a m r hside hu hS =>
      subst hS
      have ha : red a = true := by
        by_contra hblack
        refine hplace ⟨?_, f, g, C, rfl, hparent, hside, hu⟩
        rw [rootRed_join]
        simpa using hblack
      have hag : a ≠ g.value := by
        rintro rfl
        exact hapart.grandparent.1 (mem_elements_of_rootOf (rootOf_join _ _ _ _))
      refine ⟨h.inner hapart hparent hu ha, ?_⟩
      rintro ⟨_, f', g', D, heq, hred, _⟩
      obtain ⟨rfl, _⟩ := List.cons.inj heq
      dsimp only at hred
      rw [Function.update_of_ne hag, Function.update_self] at hred
      cases hred

omit [DecidableEq α] in
/-- Where the parent is black or the root, nothing is wrong but the colour of the root. -/
theorem Nearly.sound
    (h : Nearly red S C)
    (hparent : ∀ f g D, C = f :: g :: D → red f.value = false) :
    ∃ n, Sound red (plug S C) n := by
  obtain ⟨n, hS, hC⟩ := h
  cases C with
  | nil =>
      exact ⟨n, hS⟩
  | cons f C =>
      obtain ⟨_, hs, hC⟩ := hC
      have hblack : red f.value = false := by
        cases C with
        | nil => exact hC
        | cons g C => exact hparent f g C rfl
      have htree : IsRedBlack red (plug S (f :: C)) := by
        refine isRedBlack_plug.mpr ⟨n, hS, ?_, hs, hC⟩
        intro hred
        rw [hblack] at hred
        cases hred
      exact htree.balanced.imp fun _ hheight => ⟨htree.noRedRed, hheight⟩

end

/-! ### All rounds -/

section

variable {red red' : α → Bool} {S T : BinaryTree α} {C : List (Frame α)}

theorem AddRounds.elements_eq
    (h : AddRounds red S C T red') :
    elements T = elements (plug S C) := by
  induction h with
  | done => rfl
  | round _ hround _ ih => exact ih.trans hround.elements_eq

theorem AddRounds.sound
    (hrounds : AddRounds red S C T red')
    (h : Nearly red S C)
    (hnodup : (elements (plug S C)).Nodup)
    (hplace : ¬Misplaced red S C) :
    ∃ n, Sound red' T n := by
  induction hrounds with
  | done hparent =>
      exact h.sound hparent
  | round hparent hround _ ih =>
      obtain ⟨hnext, hplace'⟩ := hround.nearly h hnodup hparent hplace
      exact ih hnext (hround.elements_eq ▸ hnodup) hplace'

/-- A sound tree is a red-black tree when its root is blackened. -/
theorem Sound.blacken
    {n : Nat} {a : α}
    (h : Sound red T n)
    (hnodup : (elements T).Nodup)
    (hroot : rootOf T = some a) :
    IsRedBlack (Function.update red a false) T := by
  obtain ⟨x, y, rfl⟩ := rootOf_eq_some false hroot
  have ha := (List.nodup_cons.mp ((elements_join_perm false a x y).nodup_iff.mp hnodup)).1
  rw [List.mem_append, not_or] at ha
  obtain ⟨k, _, _, hx, hy⟩ := sound_join.mp h
  have hsound : Sound (Function.update red a false) (join false a x y) (k + 1) := by
    refine (sound_join_update ha.1 ha.2).mpr ⟨k, rfl, ?_, hx, hy⟩
    intro hred
    cases hred
  refine ⟨?_, hsound.1, _, hsound.2⟩
  rw [rootRed_join, Function.update_self]

/-- The rounds make a red-black tree, unless they start at a black inner node. -/
theorem AddRounds.isRedBlack
    {a : α}
    (hrounds : AddRounds red S C T red')
    (h : Nearly red S C)
    (hnodup : (elements (plug S C)).Nodup)
    (hplace : ¬Misplaced red S C)
    (hroot : rootOf T = some a) :
    IsRedBlack (Function.update red' a false) T := by
  obtain ⟨n, hsound⟩ := hrounds.sound h hnodup hplace
  exact hsound.blacken (hrounds.elements_eq ▸ hnodup) hroot

/-- A black inner node comes up between subtrees of different black heights. -/
theorem AddRounds.not_isRedBlack
    {b : α}
    (hrounds : AddRounds red S C T red')
    (h : Nearly red S C)
    (hnodup : (elements (plug S C)).Nodup)
    (hplace : Misplaced red S C)
    (hroot : rootOf T = some b) :
    ¬IsRedBlack (Function.update red' b false) T := by
  obtain ⟨hblack, f, g, D, rfl, hparent, hside, hu⟩ := hplace
  cases hrounds with
  | done hdone =>
      rw [hdone f g D rfl] at hparent
      cases hparent
  | @round _ red₁ _ _ S₁ _ _ _ _ D₁ _ hround hrest =>
      have horder := hround.elements_eq
      cases hround with
      | recolor hroot' hu' =>
          rw [rootRed_of_rootOf hroot', hu'] at hu
          cases hu
      | outer hside' _ =>
          rw [hside'] at hside
          exact absurd hside (Bool.not_ne_self _).symm
      | @inner a m r _ _ hS =>
          subst hS
          obtain ⟨n, hS, hs, _, _, _, _⟩ := h.above hparent
          obtain ⟨k, hk, _, hm, _⟩ := sound_join.mp hS
          rw [rootRed_join] at hblack
          rw [weight_black hblack] at hk
          have hapart := separate hnodup
          have hperm := elements_join_perm g.side a m r
          have hin : a ∈ elements (join g.side a m r) := hperm.mem_iff.mpr List.mem_cons_self
          have ham := (List.nodup_cons.mp (hperm.nodup_iff.mp hapart.place_nodup)).1
          rw [List.mem_append, not_or] at ham
          have hag : a ≠ g.value := by
            rintro rfl
            exact hapart.grandparent.1 hin
          have hgm : g.value ∉ elements m := fun hgm => hapart.grandparent.1
            (hperm.mem_iff.mpr (List.mem_cons_of_mem _ (List.mem_append_left _ hgm)))
          cases hrest with
          | round hred _ _ =>
              dsimp only at hred
              rw [Function.update_of_ne hag, Function.update_self] at hred
              cases hred
          | done =>
              rintro ⟨_, _, j, hheight⟩
              obtain ⟨_, hsub⟩ := hheight.of_plug
              obtain ⟨i, _, hy, hm'⟩ := blackHeight_join.mp hsub
              -- the colours of the two subtrees are the old ones
              have hb := mem_around_of_rootOf hroot
              have hwhole := (elements_plug_perm _ _).nodup_iff.mp (horder ▸ hnodup)
              have hbnot := fun hin => (List.nodup_append.mp hwhole).2.2 b hin b hb rfl
              rw [(elements_join_perm g.side f.value f.sibling m).mem_iff] at hbnot
              have hsame : ∀ {t : BinaryTree α}, b ∉ elements t → a ∉ elements t →
                  g.value ∉ elements t → SameOn (elements t)
                    (Function.update (Function.update (Function.update red a false) g.value true)
                      b false) red := by
                intro t hbt hat hgt
                exact ((((SameOn.refl _ red).update hat).update hgt).update hbt).symm
              have hi := (hy.congr (hsame (fun hc => hbnot (by simp [hc]))
                (hapart.place a hin).1 hapart.grandparent.2.1)).unique hs.2
              have hi' := (hm'.congr (hsame (fun hc => hbnot (by simp [hc])) ham.1
                hgm)).unique hm.2
              omega

end

end RedBlack
end Lib
end PahoMqtt
