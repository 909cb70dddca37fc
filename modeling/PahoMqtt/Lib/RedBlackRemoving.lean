import PahoMqtt.Lib.RedBlackAdding

/-!
# Balancing after removing

The rounds that go up from a place that has one black node less than the tree
needs there.  A red sibling is rotated away first.  Behind a black sibling with
black children the lack moves up; otherwise the sibling's subtree can spare a
black node, and the tree is whole again.  At a red node, or at the root, the
node is blackened.
-/

namespace PahoMqtt
namespace Lib
namespace RedBlack

open TreePlaces

universe u

variable {α : Type u}

/-- A tree that keeps the invariants below its root. -/
def Below (red : α → Bool) : BinaryTree α → (n : Nat) → Prop
  | .nil, n => n = 0
  | .node a l r, n => ∃ k, n = k + weight red a ∧ Sound red l k ∧ Sound red r k

/-- A tree that lacks one black node on the paths through the place. -/
def Lacking (red : α → Bool) (S : BinaryTree α) (C : List (Frame α)) : Prop :=
  ∃ n, Below red S n ∧ SoundAround red C (n + 1) false

section

variable [DecidableEq α]

/-- A red sibling goes up, and its inner child becomes the sibling. -/
inductive SiblingRotated (red : α → Bool) (d : Bool) (p : α) (s : BinaryTree α)
    (C : List (Frame α)) : BinaryTree α → List (Frame α) → (α → Bool) → Prop
  | black
      (hs : rootRed red s = false) :
      SiblingRotated red d p s C s C red
  | red {b : α} {m r : BinaryTree α}
      (hs : s = join d b m r)
      (hb : red b = true) :
      SiblingRotated red d p s C m (⟨d, b, r⟩ :: C)
        (Function.update (Function.update red b false) p true)

/-- The outer child of the sibling is red in the end. -/
inductive NephewRotated (red : α → Bool) (d : Bool) (b : α) (m r : BinaryTree α) :
    α → BinaryTree α → BinaryTree α → (α → Bool) → Prop
  | outer
      (hr : rootRed red r = true) :
      NephewRotated red d b m r b m r red
  | inner {c : α} {m₁ r₁ : BinaryTree α}
      (hr : rootRed red r = false)
      (hm : m = join (!d) c m₁ r₁)
      (hc : red c = true) :
      NephewRotated red d b m r c r₁ (join (!d) b r m₁)
        (Function.update (Function.update red c false) b true)

/-- A round at the place beside a black sibling. -/
inductive BlackSibling (red : α → Bool) (S : BinaryTree α) (d : Bool) (p : α)
    (s : BinaryTree α) (C : List (Frame α)) :
    BinaryTree α → List (Frame α) → (α → Bool) → Prop
  | missing
      (hs : s = .nil) :
      BlackSibling red S d p s C (join d p S s) C red
  | recolor {b : α} {m r : BinaryTree α}
      (hs : s = join d b m r)
      (hm : rootRed red m = false)
      (hr : rootRed red r = false) :
      BlackSibling red S d p s C (join d p S s) C (Function.update red b true)
  | rotate {b b' e : α} {m r m' r' : BinaryTree α} {red' : α → Bool}
      (hs : s = join d b m r)
      (hnephew : NephewRotated red d b m r b' m' r' red')
      (he : rootOf r' = some e) :
      BlackSibling red S d p s C (plug (join d b' (join d p S m') r') C) []
        (Function.update (Function.update (Function.update red' b' (red' p)) p false) e false)

/-- The rounds go on while the node at the place is black and not the root. -/
inductive RemoveRounds : (red : α → Bool) → BinaryTree α → List (Frame α) →
    BinaryTree α → (red' : α → Bool) → α → Prop
  | done {red : α → Bool} {S : BinaryTree α} {C : List (Frame α)} {a : α}
      (hroot : rootOf S = some a)
      (hlast : red a = true ∨ C = []) :
      RemoveRounds red S C (plug S C) red a
  | round {red red₁ red₂ red' : α → Bool} {S S' s T : BinaryTree α} {f : Frame α} {d : Bool}
      {C C' D : List (Frame α)} {a : α}
      (hblack : rootRed red S = false)
      (hside : join f.side f.value S f.sibling = join d f.value S f.sibling)
      (hsibling : SiblingRotated red d f.value f.sibling C s C' red₁)
      (hround : BlackSibling red₁ S d f.value s C' S' D red₂)
      (hrest : RemoveRounds red₂ S' D T red' a) :
      RemoveRounds red S (f :: C) T red' a

end

/-! ### Nodes that are different -/

/-- The nodes at, beside and above a place are different, and so are those of the sibling. -/
structure Beside (S : BinaryTree α) (p b : α) (m r : BinaryTree α) (C : List (Frame α)) :
    Prop where
  parent : p ≠ b ∧ p ∉ elements S ∧ p ∉ elements m ∧ p ∉ elements r ∧ p ∉ around C
  sibling : b ∉ elements S ∧ b ∉ elements m ∧ b ∉ elements r ∧ b ∉ around C
  inner : ∀ a ∈ elements m, a ∉ elements S ∧ a ∉ elements r ∧ a ∉ around C
  outer : ∀ a ∈ elements r, a ∉ elements S ∧ a ∉ elements m ∧ a ∉ around C
  inner_nodup : (elements m).Nodup
  outer_nodup : (elements r).Nodup

theorem beside
    {S m r : BinaryTree α} {d : Bool} {p b : α} {C : List (Frame α)}
    (h : (elements (plug S (⟨d, p, join d b m r⟩ :: C))).Nodup) :
    Beside S p b m r C := by
  have hnodup := (elements_plug_perm S _).nodup_iff.mp h
  have haround : around (⟨d, p, join d b m r⟩ :: C) =
      p :: (elements (join d b m r) ++ around C) := rfl
  rw [haround] at hnodup
  have hsibling := ((elements_join_perm d b m r).append_right (around C)).cons p
  have hnodup := (hsibling.append_left (elements S)).nodup_iff.mp hnodup
  obtain ⟨_, hrest, hSrest⟩ := List.nodup_append.mp hnodup
  obtain ⟨hp, hrest⟩ := List.nodup_cons.mp hrest
  rw [List.cons_append] at hrest
  obtain ⟨hb, hrest⟩ := List.nodup_cons.mp hrest
  obtain ⟨hmr, _, hmrC⟩ := List.nodup_append.mp hrest
  obtain ⟨hm, hr, hapart⟩ := List.nodup_append.mp hmr
  constructor <;> grind

/-! ### A round -/

section

variable {red red' : α → Bool} {S S' s s' : BinaryTree α} {d : Bool} {p : α}
  {C C' D : List (Frame α)}

theorem Below.sound
    {n : Nat}
    (h : Below red S n)
    (hblack : rootRed red S = false) :
    Sound red S n := by
  cases S with
  | nil =>
      exact sound_nil.mpr h
  | node a l r =>
      obtain ⟨k, hn, hl, hr⟩ := h
      refine sound_node.mpr ⟨k, hn, ?_, hl, hr⟩
      intro hred
      rw [show rootRed red (.node a l r) = red a from rfl, hred] at hblack
      cases hblack

theorem Sound.below
    {n : Nat}
    (h : Sound red S n) :
    Below red S n := by
  cases S with
  | nil =>
      exact sound_nil.mp h
  | node a l r =>
      obtain ⟨k, hn, _, hl, hr⟩ := sound_node.mp h
      exact ⟨k, hn, hl, hr⟩

theorem below_join
    {a : α} {x y : BinaryTree α} {n : Nat} :
    Below red (join d a x y) n ↔ ∃ k, n = k + weight red a ∧ Sound red x k ∧ Sound red y k := by
  cases d with
  | false =>
      exact Iff.rfl
  | true =>
      exact exists_congr fun k => and_congr_right fun _ => and_comm

/-- The place is black and lacks one black node, and beside it is a black node. -/
def BesideBlack (red : α → Bool) (S : BinaryTree α) (p : α) (s : BinaryTree α)
    (C : List (Frame α)) : Prop :=
  rootRed red s = false ∧ ∃ n, Sound red S n ∧ Sound red s (n + 1) ∧
    SoundAround red C (n + 1 + weight red p) (red p)

variable [DecidableEq α]

/-- The place is where it was, or its parent is red. -/
theorem SiblingRotated.same_or_red
    (h : SiblingRotated red d p s C s' C' red') :
    C' = C ∨ red' p = true := by
  cases h with
  | black hs => exact .inl rfl
  | red hs hb => exact .inr (Function.update_self _ _ _)

theorem SiblingRotated.elements_eq
    (h : SiblingRotated red d p s C s' C' red') :
    elements (plug S (⟨d, p, s'⟩ :: C')) = elements (plug S (⟨d, p, s⟩ :: C)) := by
  cases h with
  | black hs =>
      rfl
  | red hs hb =>
      rw [hs]
      refine elements_plug_congr ?_ C
      cases d with
      | false => simp [join]
      | true => simp [join]

/-- Where the sibling was red, the place has a black one now, and a red parent. -/
theorem SiblingRotated.besideBlack
    {f : Frame α}
    (hsibling : SiblingRotated red d f.value f.sibling C s' C' red')
    (h : Lacking red S (f :: C))
    (hblack : rootRed red S = false)
    (hnodup : (elements (plug S (⟨d, f.value, f.sibling⟩ :: C))).Nodup) :
    BesideBlack red' S f.value s' C' := by
  obtain ⟨side, p, s⟩ := f
  obtain ⟨n, hS, hp, hs, hC⟩ := h
  have hS := hS.sound hblack
  dsimp only at hsibling hnodup hp hs hC ⊢
  cases hsibling with
  | black hs' =>
      exact ⟨hs', n, hS, hs, hC⟩
  | @red b m r hjoin hb =>
      subst hjoin
      obtain ⟨⟨hpb, hpS, hpm, hpr, hpC⟩, ⟨hbS, hbm, hbr, hbC⟩, _⟩ := beside hnodup
      have hpblack : red p = false := by
        cases hred : red p with
        | false => rfl
        | true => exact absurd (hp hred).2 (by rw [rootRed_join, hb]; exact Bool.true_eq_false.mp)
      obtain ⟨k, hk, hchildren, hm, hr⟩ := sound_join.mp hs
      rw [weight_red hb, Nat.add_zero] at hk
      subst hk
      rw [weight_black hpblack, hpblack] at hC
      generalize hred' : Function.update (Function.update red b false) p true = red'
      have hp' : red' p = true := by
        rw [← hred', Function.update_self]
      have hb' : red' b = false := by
        rw [← hred', Function.update_of_ne (Ne.symm hpb), Function.update_self]
      have hsame : ∀ {bs : List α}, b ∉ bs → p ∉ bs → SameOn bs red red' := by
        rintro bs hbbs hpbs
        rw [← hred']
        exact ((SameOn.refl bs red).update hbbs).update hpbs
      refine ⟨?_, n, hS.congr (hsame hbS hpS), hm.congr (hsame hbm hpm), ?_, ?_, ?_⟩
      · rw [rootRed_congr (hsame hbm hpm)]
        exact (hchildren hb).1
      · intro hred
        rw [hb'] at hred
        cases hred
      · rw [weight_red hp', Nat.add_zero]
        exact hr.congr (hsame hbr hpr)
      · dsimp only
        rw [weight_red hp', Nat.add_zero, weight_black hb', hb']
        exact hC.congr (hsame hbC hpC)

theorem NephewRotated.elements_eq
    {b b' : α} {m r m' r' : BinaryTree α}
    (h : NephewRotated red d b m r b' m' r' red') :
    elements (join d b' m' r') = elements (join d b m r) := by
  cases h with
  | outer hr =>
      rfl
  | inner hr hm hc =>
      rw [hm]
      cases d with
      | false => simp [join]
      | true => simp [join]

/-- The sibling's subtree is as sound as before, and its outer child is red. -/
theorem NephewRotated.sound
    {b c : α} {m r r₁ r' : BinaryTree α} {n : Nat}
    (h : NephewRotated red d b m r c r₁ r' red')
    (hm : Sound red m n)
    (hr : Sound red r n)
    (hnodup : (elements (join d b m r)).Nodup) :
    Sound red' r₁ n ∧ Sound red' r' n ∧ rootRed red' r' = true ∧
      ∀ bs, (∀ a ∈ elements (join d b m r), a ∉ bs) → SameOn bs red red' := by
  cases h with
  | outer hred =>
      exact ⟨hm, hr, hred, fun bs _ => .refl bs red⟩
  | @inner _ m₁ _ hblack hjoin hc =>
      subst hjoin
      have hperm := elements_join_perm d b (join (!d) c m₁ r₁) r
      have hpermc := elements_join_perm (!d) c m₁ r₁
      obtain ⟨hb, hnodup⟩ := List.nodup_cons.mp (hperm.nodup_iff.mp hnodup)
      obtain ⟨hnodupc, _, hapart⟩ := List.nodup_append.mp hnodup
      have hc' := (List.nodup_cons.mp (hpermc.nodup_iff.mp hnodupc)).1
      rw [List.mem_append, not_or, hpermc.mem_iff, List.mem_cons, not_or, List.mem_append,
        not_or] at hb
      rw [List.mem_append, not_or] at hc'
      obtain ⟨⟨hbc, hbm, hbr₁⟩, hbr⟩ := hb
      have hcr : c ∉ elements r := fun hin =>
        hapart c (mem_elements_of_rootOf (rootOf_join _ _ _ _)) c hin rfl
      obtain ⟨k, hk, hchildren, hm₁, hr₁⟩ := sound_join.mp hm
      rw [weight_red hc, Nat.add_zero] at hk
      subst hk
      generalize hred' : Function.update (Function.update red c false) b true = red'
      have hb' : red' b = true := by
        rw [← hred', Function.update_self]
      have hsame : ∀ {bs : List α}, c ∉ bs → b ∉ bs → SameOn bs red red' := by
        rintro bs hcbs hbbs
        rw [← hred']
        exact ((SameOn.refl bs red).update hcbs).update hbbs
      refine ⟨hr₁.congr (hsame hc'.2 hbr₁), ?_, ?_, ?_⟩
      · refine sound_join.mpr ⟨n, ?_, ?_, hr.congr (hsame hcr hbr), hm₁.congr (hsame hc'.1 hbm)⟩
        · rw [weight_red hb', Nat.add_zero]
        · intro _
          rw [rootRed_congr (hsame hcr hbr), rootRed_congr (hsame hc'.1 hbm)]
          exact ⟨hblack, (hchildren hc).1⟩
      · rw [rootRed_join, hb']
      · rintro bs hout
        refine hsame (hout c ?_) (hout b (mem_elements_of_rootOf (rootOf_join _ _ _ _)))
        rw [hperm.mem_iff]
        refine List.mem_cons_of_mem _ (List.mem_append_left _ ?_)
        exact mem_elements_of_rootOf (rootOf_join _ _ _ _)

theorem BlackSibling.elements_eq
    (h : BlackSibling red S d p s C S' D red') :
    elements (plug S' D) = elements (plug S (⟨d, p, s⟩ :: C)) := by
  cases h with
  | missing hs =>
      rfl
  | recolor hs hm hr =>
      rfl
  | rotate hs hnephew he =>
      rw [hs, plug_nil]
      refine elements_plug_congr ?_ C
      have horder := hnephew.elements_eq
      cases d with
      | false =>
          simp only [join, Bool.false_eq_true, if_false, elements_node] at horder ⊢
          rw [← horder]
          simp
      | true =>
          simp only [join, if_true, elements_node] at horder ⊢
          rw [← horder]
          simp

/-- Behind a black sibling with black children the lack moves up to the parent. -/
theorem BesideBlack.recolor
    {b : α} {m r : BinaryTree α}
    (h : BesideBlack red S p (join d b m r) C)
    (hm : rootRed red m = false)
    (hr : rootRed red r = false)
    (hnodup : (elements (plug S (⟨d, p, join d b m r⟩ :: C))).Nodup) :
    Lacking (Function.update red b true) (join d p S (join d b m r)) C := by
  obtain ⟨hb, n, hS, hs, hC⟩ := h
  obtain ⟨⟨hpb, _⟩, ⟨hbS, hbm, hbr, hbC⟩, _⟩ := beside hnodup
  rw [rootRed_join] at hb
  obtain ⟨k, hk, _, hm', hr'⟩ := sound_join.mp hs
  rw [weight_black hb] at hk
  obtain rfl : n = k := by omega
  have hsibling : Sound (Function.update red b true) (join d b m r) n :=
    (sound_join_update hbm hbr).mpr ⟨n, rfl, fun _ => ⟨hm, hr⟩, hm', hr'⟩
  refine ⟨n + weight red p, below_join.mpr ⟨n, ?_, ?_, hsibling⟩, ?_⟩
  · rw [weight_congr (Function.update_of_ne hpb true red)]
  · exact hS.congr ((SameOn.refl _ red).update hbS)
  · rw [show n + weight red p + 1 = n + 1 + weight red p by omega]
    exact hC.of_black.congr ((SameOn.refl _ red).update hbC)

/-- A rotation about the parent, with a red outer child of the sibling blackened. -/
theorem isRedBlack_rotate
    {b e : α} {m r : BinaryTree α} {n : Nat}
    (hS : Sound red S n)
    (hm : Sound red m n)
    (hr : Sound red r n)
    (hC : SoundAround red C (n + 1 + weight red p) (red p))
    (he : rootOf r = some e)
    (hred : red e = true)
    (hnodup : (elements (plug S (⟨d, p, join d b m r⟩ :: C))).Nodup) :
    IsRedBlack (Function.update (Function.update (Function.update red b (red p)) p false) e false)
      (plug (join d b (join d p S m) r) C) := by
  obtain ⟨⟨hpb, hpS, hpm, hpr, hpC⟩, ⟨hbS, hbm, hbr, hbC⟩, _, houter, _, hnodupr⟩ := beside hnodup
  obtain ⟨heS, hem, heC⟩ := houter e (mem_elements_of_rootOf he)
  have heb : e ≠ b := ne_of_mem_of_not_mem (mem_elements_of_rootOf he) hbr
  have hep : e ≠ p := ne_of_mem_of_not_mem (mem_elements_of_rootOf he) hpr
  obtain ⟨x, y, rfl⟩ := rootOf_eq_some false he
  have hpermr := elements_join_perm false e x y
  have hexy := (List.nodup_cons.mp (hpermr.nodup_iff.mp hnodupr)).1
  rw [List.mem_append, not_or] at hexy
  rw [hpermr.mem_iff, List.mem_cons, not_or, List.mem_append, not_or] at hpr hbr
  obtain ⟨k, hk, _, hx, hy⟩ := sound_join.mp hr
  rw [weight_red hred, Nat.add_zero] at hk
  subst hk
  generalize hred' : Function.update (Function.update (Function.update red b (red p)) p false)
    e false = red'
  have hsame : ∀ {bs : List α}, b ∉ bs → p ∉ bs → e ∉ bs → SameOn bs red red' := by
    rintro bs hbbs hpbs hebs
    rw [← hred']
    exact (((SameOn.refl bs red).update hbbs).update hpbs).update hebs
  have hb' : red' b = red p := by
    rw [← hred', Function.update_of_ne (Ne.symm heb), Function.update_of_ne (Ne.symm hpb),
      Function.update_self]
  have hp' : red' p = false := by
    rw [← hred', Function.update_of_ne (Ne.symm hep), Function.update_self]
  have he' : red' e = false := by
    rw [← hred', Function.update_self]
  have hdown : Sound red' (join d p S m) (n + 1) := by
    refine sound_join.mpr ⟨n, by rw [weight_black hp'], ?_, hS.congr (hsame hbS hpS heS),
      hm.congr (hsame hbm hpm hem)⟩
    intro hred
    rw [hp'] at hred
    cases hred
  have hdown' : Sound red' (join false e x y) (n + 1) := by
    refine sound_join.mpr ⟨n, by rw [weight_black he'], ?_,
      hx.congr (hsame hbr.2.1 hpr.2.1 hexy.1), hy.congr (hsame hbr.2.2 hpr.2.2 hexy.2)⟩
    intro hred
    rw [he'] at hred
    cases hred
  have hup : Sound red' (join d b (join d p S m) (join false e x y)) (n + 1 + weight red p) := by
    refine sound_join.mpr ⟨n + 1, by rw [weight, weight, hb'], ?_, hdown, hdown'⟩
    intro _
    rw [rootRed_join, rootRed_join]
    exact ⟨hp', he'⟩
  refine isRedBlack_plug.mpr ⟨n + 1 + weight red p, hup, ?_⟩
  rw [rootRed_join, hb']
  exact hC.congr (hsame hbC hpC heC)

/-- Where a child of the sibling is red, it makes up for the black node that is missing. -/
theorem BesideBlack.rotate
    {b b' e : α} {m r m' r' : BinaryTree α}
    (h : BesideBlack red S p (join d b m r) C)
    (hnephew : NephewRotated red d b m r b' m' r' red')
    (he : rootOf r' = some e)
    (hnodup : (elements (plug S (⟨d, p, join d b m r⟩ :: C))).Nodup) :
    IsRedBlack
      (Function.update (Function.update (Function.update red' b' (red' p)) p false) e false)
      (plug (join d b' (join d p S m') r') C) := by
  obtain ⟨hb, n, hS, hs, hC⟩ := h
  have hplug := (elements_plug_perm S _).nodup_iff.mp hnodup
  obtain ⟨_, hrest, hSrest⟩ := List.nodup_append.mp hplug
  obtain ⟨hp, hrest⟩ := List.nodup_cons.mp hrest
  obtain ⟨hsibling, _, hapart⟩ := List.nodup_append.mp hrest
  rw [rootRed_join] at hb
  obtain ⟨k, hk, _, hm, hr⟩ := sound_join.mp hs
  rw [weight_black hb] at hk
  obtain rfl : n = k := by omega
  obtain ⟨hm', hr', hred, hsame⟩ := hnephew.sound hm hr hsibling
  rw [rootRed_of_rootOf he] at hred
  -- the colours of what is beside the sibling's subtree are the old ones
  have hsameS : SameOn (elements S) red red' := hsame _ fun a ha haS =>
    hSrest a haS a (List.mem_cons_of_mem _ (List.mem_append_left _ ha)) rfl
  have hsameC : SameOn (around C) red red' := hsame _ fun a ha haC => hapart a ha a haC rfl
  have hsamep : red' p = red p := by
    refine hsame [p] (fun a ha hap => hp ?_) p List.mem_cons_self
    rw [List.mem_singleton.mp hap] at ha
    exact List.mem_append_left _ ha
  refine isRedBlack_rotate (hS.congr hsameS) hm' hr' ?_ he hred ?_
  · rw [weight_congr hsamep, hsamep]
    exact hC.congr hsameC
  · have horder : elements (plug S (⟨d, p, join d b' m' r'⟩ :: C)) =
        elements (plug S (⟨d, p, join d b m r⟩ :: C)) := by
      refine elements_plug_congr ?_ C
      have hjoin := hnephew.elements_eq
      cases d with
      | false =>
          exact congrArg (fun xs => elements S ++ p :: xs) hjoin
      | true =>
          exact congrArg (fun xs => xs ++ p :: elements S) hjoin
    rwa [horder]

omit [DecidableEq α] in
theorem IsRedBlack.lacking
    (h : IsRedBlack red S) :
    Lacking red S [] := by
  obtain ⟨_, hred, n, hheight⟩ := h
  have hsound : Sound red S n := ⟨hred, hheight⟩
  exact ⟨n, hsound.below, rfl⟩

theorem BlackSibling.lacking
    (hround : BlackSibling red S d p s C S' D red')
    (h : BesideBlack red S p s C)
    (hnodup : (elements (plug S (⟨d, p, s⟩ :: C))).Nodup) :
    Lacking red' S' D := by
  cases hround with
  | missing hs =>
      obtain ⟨_, n, _, hs', _⟩ := h
      rw [hs, sound_nil] at hs'
      exact absurd hs' (Nat.succ_ne_zero n)
  | recolor hs hm hr =>
      subst hs
      exact h.recolor hm hr hnodup
  | rotate hs hnephew he =>
      subst hs
      exact (h.rotate hnephew he hnodup).lacking

/-! ### Before the first round -/

section

variable {b : α} {x : BinaryTree α} {E : List (Frame α)}

omit [DecidableEq α] in
/-- A black node with one child at most is taken out. -/
theorem IsRedBlack.lacking_of_unlink
    (h : IsRedBlack red (plug (join d b .nil x) E))
    (hb : red b = false) :
    Lacking red x E := by
  obtain ⟨n, hS, hE⟩ := isRedBlack_plug.mp h
  obtain ⟨k, hn, _, hnil, hx⟩ := sound_join.mp hS
  obtain rfl := sound_nil.mp hnil
  rw [rootRed_join, hb, hn, weight_black hb] at hE
  exact ⟨0, hx.below, hE⟩

omit [DecidableEq α] in
/-- A red node with one child at most is taken out: it has none. -/
theorem IsRedBlack.of_unlink
    (h : IsRedBlack red (plug (join d b .nil x) E))
    (hb : red b = true) :
    IsRedBlack red (plug x E) := by
  obtain ⟨n, hS, hE⟩ := isRedBlack_plug.mp h
  obtain ⟨k, hn, hchildren, hnil, hx⟩ := sound_join.mp hS
  obtain rfl := sound_nil.mp hnil
  rw [hn, weight_red hb] at hE
  refine isRedBlack_plug.mpr ⟨0, hx, ?_⟩
  rw [(hchildren hb).2]
  exact hE.of_black

end

/-! ### All rounds -/

/-- A red node or the root is blackened. -/
theorem Lacking.blacken
    {a : α}
    (h : Lacking red S C)
    (hnodup : (elements (plug S C)).Nodup)
    (hroot : rootOf S = some a)
    (hlast : red a = true ∨ C = []) :
    IsRedBlack (Function.update red a false) (plug S C) := by
  obtain ⟨n, hS, hC⟩ := h
  obtain ⟨hnodupS, _, hapart⟩ :=
    List.nodup_append.mp ((elements_plug_perm S C).nodup_iff.mp hnodup)
  have haC : a ∉ around C := fun hin => hapart a (mem_elements_of_rootOf hroot) a hin rfl
  obtain ⟨x, y, rfl⟩ := rootOf_eq_some false hroot
  have ha := (List.nodup_cons.mp ((elements_join_perm false a x y).nodup_iff.mp hnodupS)).1
  rw [List.mem_append, not_or] at ha
  obtain ⟨k, hk, hx, hy⟩ := below_join.mp hS
  have hsound : Sound (Function.update red a false) (join false a x y) (k + 1) :=
    (sound_join_update ha.1 ha.2).mpr ⟨k, rfl, (fun hred => by cases hred), hx, hy⟩
  refine isRedBlack_plug.mpr ⟨k + 1, hsound, ?_⟩
  rw [rootRed_join, Function.update_self]
  rcases hlast with hred | rfl
  · rw [weight_red hred, Nat.add_zero] at hk
    rw [← hk]
    exact hC.congr ((SameOn.refl _ red).update haC)
  · rfl

/-- The rounds make a red-black tree of one that lacks a black node. -/
theorem RemoveRounds.isRedBlack
    {T : BinaryTree α} {a : α}
    (hrounds : RemoveRounds red S C T red' a)
    (h : Lacking red S C)
    (hnodup : (elements (plug S C)).Nodup) :
    IsRedBlack (Function.update red' a false) T := by
  induction hrounds with
  | done hroot hlast =>
      exact h.blacken hnodup hroot hlast
  | @round red _ _ _ S _ _ _ f d C _ _ _ hblack hside hsibling hround _ ih =>
      have hnodup' : (elements (plug S (⟨d, f.value, f.sibling⟩ :: C))).Nodup := by
        rw [plug_cons, ← hside]
        exact hnodup
      have hbeside := hsibling.besideBlack h hblack hnodup'
      have hnodup'' := hsibling.elements_eq ▸ hnodup'
      exact ih (hround.lacking hbeside hnodup'') (hround.elements_eq ▸ hnodup'')

end

end RedBlack
end Lib
end PahoMqtt
