import Mathlib.Tactic
import PahoMqtt.Lib.TreePlaces
import PahoMqtt.Tree

/-!
# The shapes of red-black trees

A binary tree of addresses says which nodes a tree consists of and how they are
linked.  Rotating and recolouring nodes changes the shape and the colours, but
neither the order of the nodes nor what they contain; this holds whatever the
colours are, so that it does not matter whether the tree is a red-black tree.
-/

namespace PahoMqtt
namespace Tree

open Lib.TreePlaces

variable {α κ : Type}

/-! ### Pointers -/

/-- The children of a node, the one on the side first. -/
def pointers (side : Bool) (x y : Option Addr) : Bool → Option Addr :=
  fun which => if which = side then x else y

section

variable (side : Bool) (x y z : Option Addr)

@[simp] theorem pointers_self :
    pointers side x y side = x := if_pos rfl

@[simp] theorem pointers_other :
    pointers side x y (!side) = y := if_neg (Bool.not_ne_self side)

theorem pointers_swap :
    pointers (!side) x y = pointers side y x := by
  funext which
  cases side with
  | false => cases which <;> rfl
  | true => cases which <;> rfl

@[simp] theorem update_pointers_self :
    Function.update (pointers side x y) side z = pointers side z y := by
  funext which
  cases side with
  | false => cases which <;> rfl
  | true => cases which <;> rfl

@[simp] theorem update_pointers_other :
    Function.update (pointers side x y) (!side) z = pointers side x z := by
  rw [← pointers_swap, update_pointers_self, pointers_swap]

end

/-- The parent and the children of a node. -/
def links (t : Tree α κ) (addr : Addr) : Option (Option Addr × (Bool → Option Addr)) :=
  (t.node addr).map (fun n => (n.parent, n.child))

/-- The content of a node and its size. -/
def entry (t : Tree α κ) (addr : Addr) : Option (α × UInt64) :=
  (t.node addr).map (fun n => (n.content, n.size))

def color (t : Tree α κ) (addr : Addr) : Option Bool :=
  (t.node addr).map (·.red)

/-- Only links and colours have changed. -/
structure Reshapes (t t' : Tree α κ) : Prop where
  entry : t'.entry = t.entry
  rest : t' = { t with node := t'.node, root := t'.root }

theorem Reshapes.refl
    (t : Tree α κ) :
    Reshapes t t :=
  ⟨rfl, rfl⟩

theorem Reshapes.trans
    {t t' t'' : Tree α κ}
    (h : Reshapes t t')
    (h' : Reshapes t' t'') :
    Reshapes t t'' where
  entry := h'.entry.trans h.entry
  rest := by
    refine h'.rest.trans ?_
    rw [h.rest]

theorem Reshapes.allocated
    {t t' : Tree α κ}
    (h : Reshapes t t') :
    t'.allocated = t.allocated := by
  rw [h.rest]

theorem exists_node
    {t : Tree α κ} {addr : Addr} {p : Option Addr} {c : Bool → Option Addr}
    (h : t.links addr = some (p, c)) :
    ∃ n, t.node addr = some n ∧ n.parent = p ∧ n.child = c := by
  obtain ⟨n, hn, heq⟩ := Option.map_eq_some_iff.mp h
  obtain ⟨rfl, rfl⟩ := Prod.mk.inj heq
  exact ⟨n, hn, rfl, rfl⟩

/-- An assignment to one node. -/
structure Assigns (t t' : Tree α κ) (addr : Addr)
    (l : Option Addr × (Bool → Option Addr)) : Prop where
  links : t'.links = Function.update t.links addr (some l)
  root : t'.root = t.root
  reshapes : Reshapes t t'

theorem Assigns.links_self
    {t t' : Tree α κ} {addr : Addr} {l : Option Addr × (Bool → Option Addr)}
    (h : Assigns t t' addr l) :
    t'.links addr = some l := by
  rw [h.links, Function.update_self]

theorem Assigns.links_of_ne
    {t t' : Tree α κ} {addr y : Addr} {l : Option Addr × (Bool → Option Addr)}
    (h : Assigns t t' addr l)
    (hy : y ≠ addr) :
    t'.links y = t.links y := by
  rw [h.links, Function.update_of_ne hy]

section

variable {t : Tree α κ} {addr : Addr} {n : Node α}

theorem map_write
    {β : Type} (f : Node α → β) (n' : Node α) :
    (fun y => ((t.write addr n').node y).map f) =
      Function.update (fun y => (t.node y).map f) addr (some (f n')) := by
  funext y
  by_cases hy : y = addr
  · subst hy
    simp [write]
  · simp [write, Function.update_of_ne hy]

/-- A field of a node that is written is kept where it has the same value. -/
theorem map_write_same
    {β : Type} (f : Node α → β) {n' : Node α}
    (hn : t.node addr = some n)
    (hf : f n' = f n) :
    (fun y => ((t.write addr n').node y).map f) = fun y => (t.node y).map f := by
  rw [map_write, hf]
  refine Function.update_eq_self_iff.mpr ?_
  rw [hn]
  rfl

theorem write_assigns
    {n' : Node α}
    (hn : t.node addr = some n)
    (hcontent : n'.content = n.content)
    (hsize : n'.size = n.size) :
    Assigns t (t.write addr n') addr (n'.parent, n'.child) where
  links := map_write (fun n => (n.parent, n.child)) n'
  root := rfl
  reshapes := ⟨map_write_same (fun n => (n.content, n.size)) hn (by rw [hcontent, hsize]), rfl⟩

variable {p : Option Addr} {c : Bool → Option Addr}

theorem setChild_spec
    (h : t.links addr = some (p, c)) (which : Bool) (value : Option Addr) :
    ∃ t', t.setChild addr which value = some t' ∧ t'.color = t.color ∧
      Assigns t t' addr (p, Function.update c which value) := by
  obtain ⟨n, hn, rfl, rfl⟩ := exists_node h
  have hassigns : Assigns t (t.write addr { n with child := Function.update n.child which value })
      addr (n.parent, Function.update n.child which value) :=
    write_assigns hn rfl rfl
  refine ⟨_, ?_, map_write_same (·.red) hn ?_, hassigns⟩
  · rw [setChild, hn]
    rfl
  · rfl

theorem setParent_spec
    (h : t.links addr = some (p, c)) (value : Option Addr) :
    ∃ t', t.setParent addr value = some t' ∧ t'.color = t.color ∧
      Assigns t t' addr (value, c) := by
  obtain ⟨n, hn, rfl, rfl⟩ := exists_node h
  have hassigns : Assigns t (t.write addr { n with parent := value }) addr (value, n.child) :=
    write_assigns hn rfl rfl
  refine ⟨_, ?_, map_write_same (·.red) hn ?_, hassigns⟩
  · rw [setParent, hn]
    rfl
  · rfl

theorem setRed_spec
    (h : t.links addr = some (p, c)) (value : Bool) :
    ∃ t', t.setRed addr value = some t' ∧
      t'.color = Function.update t.color addr (some value) ∧
      t'.links = t.links ∧ t'.root = t.root ∧ Reshapes t t' := by
  obtain ⟨n, hn, rfl, rfl⟩ := exists_node h
  have hassigns : Assigns t (t.write addr { n with red := value }) addr (n.parent, n.child) :=
    write_assigns hn rfl rfl
  refine ⟨t.write addr { n with red := value }, ?_, map_write (·.red) _, ?_, rfl,
    hassigns.reshapes⟩
  · rw [setRed, hn]
    rfl
  · exact map_write_same (fun n => (n.parent, n.child)) hn rfl

end

/-! ### Shapes in memory -/

/-- The nodes of a subtree are linked, and the node at its root has this parent. -/
def HoldsTree (t : Tree α κ) : Option Addr → BinaryTree Addr → Prop
  | _, .nil => True
  | parent, .node a l r =>
      t.links a = some (parent, pointers LEFT (rootOf l) (rootOf r)) ∧
        t.HoldsTree (some a) l ∧ t.HoldsTree (some a) r

/-- The node above a place. -/
def parentAddr (C : List (Frame Addr)) : Option Addr :=
  C.head?.map Frame.value

/-- The nodes around a place are linked, with `hole` as the pointer to the place. -/
def HoldsFrames (t : Tree α κ) : Option Addr → List (Frame Addr) → Prop
  | _, [] => True
  | hole, f :: C =>
      t.links f.value = some (parentAddr C, pointers f.side hole (rootOf f.sibling)) ∧
        t.HoldsTree (some f.value) f.sibling ∧ t.HoldsFrames (some f.value) C

/-- The index has this shape. -/
structure Shaped (t : Tree α κ) (index : Fin 2) (T : BinaryTree Addr) : Prop where
  root : t.root index = rootOf T
  holds : t.HoldsTree none T
  nodup : (elements T).Nodup
  fits : (elements T).length ≤ t.allocated

section

variable {t t' : Tree α κ} {index : Fin 2}

theorem holdsTree_join
    {parent : Option Addr} {side : Bool} {a : Addr} {x y : BinaryTree Addr} :
    t.HoldsTree parent (join side a x y) ↔
      t.links a = some (parent, pointers side (rootOf x) (rootOf y)) ∧
        t.HoldsTree (some a) x ∧ t.HoldsTree (some a) y := by
  cases side with
  | false =>
      exact Iff.rfl
  | true =>
      rw [← Bool.not_false, pointers_swap, Bool.not_false]
      exact and_congr_right fun _ => and_comm

theorem holdsTree_plug
    {S : BinaryTree Addr} {C : List (Frame Addr)} :
    t.HoldsTree none (plug S C) ↔
      t.HoldsTree (parentAddr C) S ∧ t.HoldsFrames (rootOf S) C := by
  induction C generalizing S with
  | nil =>
      exact (and_iff_left trivial).symm
  | cons f C ih =>
      rw [plug_cons, ih, holdsTree_join, rootOf_join, HoldsFrames]
      exact ⟨fun ⟨⟨hf, hS, hs⟩, hC⟩ => ⟨hS, hf, hs, hC⟩,
        fun ⟨hS, hf, hs, hC⟩ => ⟨⟨hf, hS, hs⟩, hC⟩⟩

theorem HoldsTree.congr
    {parent : Option Addr} {T : BinaryTree Addr}
    (h : t.HoldsTree parent T)
    (hsame : ∀ a ∈ elements T, t'.links a = t.links a) :
    t'.HoldsTree parent T := by
  induction T generalizing parent with
  | nil =>
      trivial
  | node a l r ihl ihr =>
      obtain ⟨ha, hl, hr⟩ := h
      refine ⟨?_, ihl hl fun b hb => hsame b (List.mem_append_left _ hb),
        ihr hr fun b hb => hsame b (List.mem_append_right _ (List.mem_cons_of_mem _ hb))⟩
      rw [hsame a (List.mem_append_right _ List.mem_cons_self)]
      exact ha

theorem HoldsFrames.congr
    {hole : Option Addr} {C : List (Frame Addr)}
    (h : t.HoldsFrames hole C)
    (hsame : ∀ a ∈ around C, t'.links a = t.links a) :
    t'.HoldsFrames hole C := by
  induction C generalizing hole with
  | nil =>
      trivial
  | cons f C ih =>
      obtain ⟨hf, hs, hC⟩ := h
      have hin : ∀ a ∈ f.value :: elements f.sibling, t'.links a = t.links a :=
        fun a ha => hsame a (List.mem_append_left _ ha)
      refine ⟨?_, hs.congr fun a ha => hin a (List.mem_cons_of_mem _ ha),
        ih hC fun a ha => hsame a (List.mem_append_right _ ha)⟩
      rw [hin f.value List.mem_cons_self]
      exact hf

/-- The pointer to a place is changed, in the node above it. -/
theorem HoldsFrames.rehang
    {hole hole' : Option Addr} {C : List (Frame Addr)}
    (h : t.HoldsFrames hole C)
    (hnodup : (around C).Nodup)
    (hfirst : ∀ f D, C = f :: D →
      t'.links f.value = some (parentAddr D, pointers f.side hole' (rootOf f.sibling)))
    (hsame : ∀ a ∈ around C, parentAddr C ≠ some a → t'.links a = t.links a) :
    t'.HoldsFrames hole' C := by
  cases C with
  | nil =>
      trivial
  | cons f C =>
      obtain ⟨_, hs, hC⟩ := h
      have hne : ∀ a ∈ elements f.sibling ++ around C, t'.links a = t.links a := by
        intro a ha
        refine hsame a (List.mem_cons_of_mem _ ha) fun hparent => ?_
        obtain rfl : f.value = a := Option.some.inj hparent
        exact (List.nodup_cons.mp hnodup).1 ha
      exact ⟨hfirst f C rfl, hs.congr fun a ha => hne a (List.mem_append_left _ ha),
        hC.congr fun a ha => hne a (List.mem_append_right _ ha)⟩

/-- The parent of a subtree is changed, in the node at its root. -/
theorem setChildParent_spec
    {parent : Option Addr} {T : BinaryTree Addr}
    (h : t.HoldsTree parent T)
    (hnodup : (elements T).Nodup) (value : Option Addr) :
    ∃ t', t.setChildParent (rootOf T) value = some t' ∧ t'.color = t.color ∧
      t'.HoldsTree value T ∧ (∀ a, rootOf T ≠ some a → t'.links a = t.links a) ∧
      t'.root = t.root ∧ Reshapes t t' := by
  cases T with
  | nil =>
      exact ⟨t, rfl, rfl, trivial, fun _ _ => rfl, rfl, .refl t⟩
  | node a l r =>
      obtain ⟨ha, hl, hr⟩ := h
      obtain ⟨t', hset, hcolor, hassigns⟩ := setParent_spec ha value
      have hnot : a ∉ elements l ∧ a ∉ elements r := by
        rw [elements_node, List.nodup_middle, List.nodup_cons, List.mem_append, not_or] at hnodup
        exact hnodup.1
      refine ⟨t', hset, hcolor, ⟨hassigns.links_self, ?_, ?_⟩, ?_, hassigns.root,
        hassigns.reshapes⟩
      · exact hl.congr fun b hb => hassigns.links_of_ne fun heq => hnot.1 (heq ▸ hb)
      · exact hr.congr fun b hb => hassigns.links_of_ne fun heq => hnot.2 (heq ▸ hb)
      · intro b hb
        exact hassigns.links_of_ne fun heq => hb (congrArg some heq.symm)

/-- The pointer to a place is changed, in the node above it or in the tree. -/
theorem relink_spec
    {old : Addr} {C : List (Frame Addr)}
    (h : t.HoldsFrames (some old) C)
    (hold : old ∉ around C)
    (hnodup : (around C).Nodup) (index : Fin 2) (which : Bool) (value : Option Addr) :
    ∃ t', t.relink index (parentAddr C) which old value = some t' ∧ t'.color = t.color ∧
      t'.HoldsFrames value C ∧ (∀ a, parentAddr C ≠ some a → t'.links a = t.links a) ∧
      t'.root = (if C = [] then Function.update t.root index value else t.root) ∧
      Reshapes t t' := by
  cases C with
  | nil =>
      exact ⟨t.setRoot index value, rfl, rfl, trivial, fun _ _ => rfl, rfl, ⟨rfl, rfl⟩⟩
  | cons f C =>
      obtain ⟨hf, hs, hC⟩ := h
      obtain ⟨n, hn, _, hchild⟩ := exists_node hf
      have hne : rootOf f.sibling ≠ some old := by
        intro hroot
        exact hold (List.mem_cons_of_mem _
          (List.mem_append_left _ (mem_elements_of_rootOf hroot)))
      -- the child that is compared with the old one tells on which side the place is
      have hset : t.relink index (parentAddr (f :: C)) which old value =
          t.setChild f.value f.side value := by
        change (t.node f.value).bind _ = _
        rw [hn, Option.bind_some, hchild]
        by_cases hwhich : which = f.side
        · rw [hwhich, pointers_self, if_pos rfl]
        · obtain rfl : which = !f.side := by
            cases which <;> cases hside : f.side <;> simp_all
          rw [pointers_other, if_neg hne, Bool.not_not]
      obtain ⟨t', ht', hcolor, hassigns⟩ := setChild_spec hf f.side value
      have hother : ∀ a, parentAddr (f :: C) ≠ some a → t'.links a = t.links a :=
        fun a ha => hassigns.links_of_ne fun heq => ha (congrArg some heq.symm)
      refine ⟨t', hset.trans ht', hcolor, ?_, hother, ?_, hassigns.reshapes⟩
      · have hheld : t.HoldsFrames (some old) (f :: C) := ⟨hf, hs, hC⟩
        refine hheld.rehang hnodup ?_ fun a _ ha => hother a ha
        intro g D heq
        obtain ⟨rfl, rfl⟩ := List.cons.inj heq
        rw [hassigns.links_self, update_pointers_self]
      · rw [if_neg (List.cons_ne_nil f C), hassigns.root]

theorem mem_around_of_parentAddr
    {C : List (Frame Addr)} {a : Addr}
    (h : parentAddr C = some a) :
    a ∈ around C := by
  cases C with
  | nil =>
      cases h
  | cons f C =>
      obtain rfl := Option.some.inj h
      exact List.mem_cons_self

/-- The shape is that of a tree with the same links at the same root. -/
theorem Shaped.congr
    {T : BinaryTree Addr}
    (h : t.Shaped index T)
    (hlinks : t'.links = t.links)
    (hroot : t'.root = t.root)
    (hallocated : t'.allocated = t.allocated) :
    t'.Shaped index T where
  root := hroot ▸ h.root
  holds := h.holds.congr fun a _ => congrFun hlinks a
  nodup := h.nodup
  fits := hallocated ▸ h.fits

/-! ### Rotating -/

/-- The nodes that a rotation deals with are different. -/
structure Apart (a b : Addr) (m r x : BinaryTree Addr) (C : List (Frame Addr)) : Prop where
  fst_ne : a ≠ b
  fst : a ∉ elements m ++ (elements r ++ (elements x ++ around C))
  snd : b ∉ elements m ++ (elements r ++ (elements x ++ around C))
  middle : ∀ y ∈ elements m, y ∉ elements r ++ (elements x ++ around C)
  middle_nodup : (elements m).Nodup
  around_nodup : (around C).Nodup
  around_apart : ∀ y ∈ elements r ++ elements x, y ∉ around C

theorem Shaped.apart
    {a b : Addr} {m r x : BinaryTree Addr} {C : List (Frame Addr)} {d : Bool}
    (h : t.Shaped index (plug (join (!d) a (join d b m r) x) C)) :
    Apart a b m r x C := by
  have hperm : (elements (plug (join (!d) a (join d b m r) x) C)).Perm
      (a :: b :: (elements m ++ (elements r ++ (elements x ++ around C)))) := by
    have hjoin := (elements_join_perm (!d) a (join d b m r) x).trans
      (((elements_join_perm d b m r).append_right (elements x)).cons a)
    have hplug := (elements_plug_perm (join (!d) a (join d b m r) x) C).trans
      (hjoin.append_right (around C))
    simpa only [List.cons_append, List.append_assoc] using hplug
  have hnodup := hperm.nodup_iff.mp h.nodup
  obtain ⟨ha, hnodup⟩ := List.nodup_cons.mp hnodup
  obtain ⟨hb, hnodup⟩ := List.nodup_cons.mp hnodup
  obtain ⟨hm, hnodup, hmiddle⟩ := List.nodup_append.mp hnodup
  rw [← List.append_assoc] at hnodup
  obtain ⟨_, hC, haround⟩ := List.nodup_append.mp hnodup
  rw [List.mem_cons, not_or] at ha
  exact ⟨ha.1, ha.2, hb, fun y hy hin => hmiddle y hy y hin rfl, hm, hC,
    fun y hy hin => haround y hy y hin rfl⟩

/-- What is below the rotated nodes, except for the subtree between them, is not written. -/
theorem Apart.outside
    {a b y : Addr} {m r x : BinaryTree Addr} {C : List (Frame Addr)}
    (h : Apart a b m r x C)
    (hy : y ∈ elements r ++ elements x) :
    y ≠ a ∧ y ≠ b ∧ rootOf m ≠ some y ∧ parentAddr C ≠ some y := by
  have hin : y ∈ elements r ++ (elements x ++ around C) := by
    rw [← List.append_assoc]
    exact List.mem_append_left _ hy
  refine ⟨?_, ?_, ?_, ?_⟩
  · exact fun heq => h.fst (heq ▸ List.mem_append_right _ hin)
  · exact fun heq => h.snd (heq ▸ List.mem_append_right _ hin)
  · exact fun hroot => h.middle y (mem_elements_of_rootOf hroot) hin
  · exact fun hparent => h.around_apart y hy (mem_around_of_parentAddr hparent)

/-- A rotation links the nodes in the rotated shape. -/
theorem TreeRotate_spec
    {a b : Addr} {m r x : BinaryTree Addr} {C : List (Frame Addr)} {d : Bool}
    (h : t.Shaped index (plug (join (!d) a (join d b m r) x) C)) :
    ∃ t', t.TreeRotate a d index = some t' ∧
      t'.Shaped index (plug (join d b (join d a x m) r) C) ∧
      t'.color = t.color ∧ Reshapes t t' := by
  have hapart := h.apart
  obtain ⟨hab, ha, hb, hmiddle, hmnodup, hCnodup, _⟩ := h.apart
  simp only [List.mem_append, not_or] at ha hb hmiddle
  obtain ⟨hS, hC⟩ := holdsTree_plug.mp h.holds
  rw [rootOf_join] at hC
  obtain ⟨hA, hB, hx⟩ := holdsTree_join.mp hS
  obtain ⟨hB, hm, hr⟩ := holdsTree_join.mp hB
  rw [rootOf_join] at hA
  have hroota : rootOf m ≠ some a := fun hroot => ha.1 (mem_elements_of_rootOf hroot)
  have hrootb : rootOf m ≠ some b := fun hroot => hb.1 (mem_elements_of_rootOf hroot)
  have haboveb : parentAddr C ≠ some b := fun hparent => hb.2.2.2 (mem_around_of_parentAddr hparent)
  have habovea : parentAddr C ≠ some a := fun hparent => ha.2.2.2 (mem_around_of_parentAddr hparent)
  obtain ⟨na, hna, _, hchilda⟩ := exists_node hA
  obtain ⟨nb, hnb, _, hchildb⟩ := exists_node hB
  -- curnode->child[!direction] = other->child[direction]
  obtain ⟨t₁, ht₁, hcolor₁, h₁⟩ := setChild_spec hA (!d) (rootOf m)
  rw [update_pointers_self] at h₁
  -- other->child[direction]->parent = curnode
  have hm₁ : t₁.HoldsTree (some b) m :=
    hm.congr fun y hy => h₁.links_of_ne fun heq => ha.1 (heq ▸ hy)
  obtain ⟨t₂, ht₂, hcolor₂, hm₂, hsame₂, hroot₂, hreshapes₂⟩ :=
    setChildParent_spec hm₁ hmnodup (some a)
  have hA₂ := (hsame₂ a hroota).trans h₁.links_self
  have hB₂ := ((hsame₂ b hrootb).trans (h₁.links_of_ne hab.symm)).trans hB
  obtain ⟨na₂, hna₂, hparent₂, _⟩ := exists_node hA₂
  -- other->parent = curnode->parent
  obtain ⟨t₃, ht₃, hcolor₃, h₃⟩ := setParent_spec hB₂ (parentAddr C)
  have hC₃ : t₃.HoldsFrames (some a) C := by
    refine hC.congr fun y hy => ?_
    have hya : y ≠ a := fun heq => ha.2.2.2 (heq ▸ hy)
    have hyb : y ≠ b := fun heq => hb.2.2.2 (heq ▸ hy)
    have hym : rootOf m ≠ some y := fun hroot =>
      (hmiddle y (mem_elements_of_rootOf hroot)).2.2 hy
    rw [h₃.links_of_ne hyb, hsame₂ y hym, h₁.links_of_ne hya]
  -- the pointer to curnode becomes other
  obtain ⟨t₄, ht₄, hcolor₄, hC₄, hsame₄, hroot₄, hreshapes₄⟩ :=
    relink_spec hC₃ ha.2.2.2 hCnodup index d (some b)
  -- other->child[direction] = curnode
  obtain ⟨t₅, ht₅, hcolor₅, h₅⟩ :=
    setChild_spec ((hsame₄ b haboveb).trans h₃.links_self) d (some a)
  rw [update_pointers_self] at h₅
  have hA₅ : t₅.links a = some (parentAddr C, pointers (!d) (rootOf m) (rootOf x)) := by
    rw [h₅.links_of_ne hab, hsame₄ a habovea, h₃.links_of_ne hab, hA₂]
  -- curnode->parent = other
  obtain ⟨t₆, ht₆, hcolor₆, h₆⟩ := setParent_spec hA₅ (some b)
  have hoffside : ∀ y ∈ elements r ++ elements x, t₆.links y = t.links y := by
    intro y hy
    obtain ⟨hya, hyb, hym, hyC⟩ := hapart.outside hy
    rw [h₆.links_of_ne hya, h₅.links_of_ne hyb, hsame₄ y hyC, h₃.links_of_ne hyb, hsame₂ y hym,
      h₁.links_of_ne hya]
  have hreshapes := ((((h₁.reshapes.trans hreshapes₂).trans h₃.reshapes).trans hreshapes₄).trans
    h₅.reshapes).trans h₆.reshapes
  have helements : elements (plug (join d b (join d a x m) r) C) =
      elements (plug (join (!d) a (join d b m r) x) C) :=
    elements_plug_congr (elements_rotate d a b x m r) C
  refine ⟨t₆, ?_, ⟨?_, ?_, ?_, ?_⟩, ?_, hreshapes⟩
  · have hother : na.child (!d) = some b := by rw [hchilda, pointers_self]
    have hmid : nb.child d = rootOf m := by rw [hchildb, pointers_self]
    simp only [TreeRotate, hna, hother, hnb, hmid, ht₁, ht₂, hna₂, hparent₂, ht₃, ht₄, ht₅, ht₆,
      Option.bind_eq_bind, Option.bind_some]
  · rw [h₆.root, h₅.root, hroot₄]
    cases C with
    | nil =>
        rw [if_pos rfl, Function.update_self, plug_nil, rootOf_join]
    | cons f C =>
        rw [if_neg (List.cons_ne_nil f C), h₃.root, hroot₂, h₁.root, h.root]
        exact rootOf_plug_cons _ _ f C
  · refine holdsTree_plug.mpr ⟨holdsTree_join.mpr ⟨?_, holdsTree_join.mpr ⟨?_, ?_, ?_⟩, ?_⟩, ?_⟩
    · rw [h₆.links_of_ne hab.symm, h₅.links_self, rootOf_join]
    · rw [h₆.links_self, pointers_swap]
    · exact hx.congr fun y hy => hoffside y (List.mem_append_right _ hy)
    · refine hm₂.congr fun y hy => ?_
      have hya : y ≠ a := fun heq => ha.1 (heq ▸ hy)
      have hyb : y ≠ b := fun heq => hb.1 (heq ▸ hy)
      have hyC : parentAddr C ≠ some y := fun hparent =>
        (hmiddle y hy).2.2 (mem_around_of_parentAddr hparent)
      rw [h₆.links_of_ne hya, h₅.links_of_ne hyb, hsame₄ y hyC, h₃.links_of_ne hyb]
    · exact hr.congr fun y hy => hoffside y (List.mem_append_left _ hy)
    · rw [rootOf_join]
      refine hC₄.congr fun y hy => ?_
      have hya : y ≠ a := fun heq => ha.2.2.2 (heq ▸ hy)
      have hyb : y ≠ b := fun heq => hb.2.2.2 (heq ▸ hy)
      rw [h₆.links_of_ne hya, h₅.links_of_ne hyb]
  · rw [helements]
    exact h.nodup
  · rw [helements, hreshapes.allocated]
    exact h.fits
  · rw [hcolor₆, hcolor₅, hcolor₄, hcolor₃, hcolor₂, hcolor₁]

end

end Tree
end PahoMqtt
