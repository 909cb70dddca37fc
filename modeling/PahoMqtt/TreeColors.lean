import PahoMqtt.TreeRuns

/-!
# Trees that stay red-black trees

Adding a key and removing one keep the invariants of a red-black tree.  Replacing
the content of a key does not always: the balancing that follows takes the node for
a new red one, and where it is black, the inner child of a red node and has a black
uncle, it is rotated up between subtrees of different black heights.
-/

namespace PahoMqtt
namespace Tree

open Lib.TreePlaces Lib.RedBlack

variable {α κ : Type}

/-- The nodes of the index are linked to a tree that has the colours of a red-black tree. -/
def IsRedBlackTree (t : Tree α κ) (index : Fin 2) : Prop :=
  ∃ T, t.Shaped index T ∧ IsRedBlack t.redAt T

/-- The node is black, the inner child of a red node, and the sibling of that is black. -/
inductive IsMisplaced (t : Tree α κ) (a : Addr) : Prop
  | intro {n np ng : Node α} {p g : Addr} {side : Bool}
      (hn : t.node a = some n)
      (hblack : n.red = false)
      (hparent : n.parent = some p)
      (hnp : t.node p = some np)
      (hred : np.red = true)
      (hinner : np.child (!side) = some a)
      (hgrandparent : np.parent = some g)
      (hng : t.node g = some ng)
      (hside : ng.child side = some p)
      (huncle : t.isRed (ng.child (!side)) = some false)

/-- Adding the content replaces that of a misplaced node. -/
def ReplacesMisplaced (t : Tree α κ) (content : α) (index : Fin 2) : Prop :=
  t.allow_duplicates = false ∧
    ∃ a, t.TreeFindContentIndex content index = some (some a) ∧ t.IsMisplaced a

section

variable {t : Tree α κ} {index : Fin 2}

/-! ### The shape of a tree -/

/-- The links determine the shape. -/
theorem HoldsTree.unique
    {parent parent' : Option Addr} {T T' : BinaryTree Addr}
    (h : t.HoldsTree parent T)
    (h' : t.HoldsTree parent' T')
    (hroot : rootOf T = rootOf T') :
    T = T' := by
  induction T generalizing parent parent' T' with
  | nil =>
      exact (rootOf_eq_none.mp hroot.symm).symm
  | node a l r ihl ihr =>
      cases T' with
      | nil =>
          cases hroot
      | node b l' r' =>
          obtain rfl := Option.some.inj hroot
          obtain ⟨ha, hl, hr⟩ := h
          obtain ⟨ha', hl', hr'⟩ := h'
          have hchild := (Prod.mk.inj (Option.some.inj (ha.symm.trans ha'))).2
          have hleft : rootOf l = rootOf l' := congrFun hchild LEFT
          have hright : rootOf r = rootOf r' := congrFun hchild RIGHT
          rw [ihl hl hl' hleft, ihr hr hr' hright]

theorem Shaped.unique
    {T T' : BinaryTree Addr}
    (h : t.Shaped index T)
    (h' : t.Shaped index T') :
    T = T' :=
  h.holds.unique h'.holds (h.root.symm.trans h'.root)

theorem isRedBlackTree_iff
    {T : BinaryTree Addr}
    (h : t.Shaped index T) :
    t.IsRedBlackTree index ↔ IsRedBlack t.redAt T := by
  constructor
  · rintro ⟨T', hshaped, hred⟩
    rwa [h.unique hshaped]
  · intro hred
    exact ⟨T, h, hred⟩

/-- A pointer to one of the children tells the side. -/
theorem side_of_pointers
    {side which : Bool} {x y : Option Addr} {a : Addr}
    (h : pointers side x y which = some a)
    (hother : y ≠ some a) :
    which = side := by
  by_contra hne
  rw [pointers, if_neg hne] at h
  exact hother h

/-- A node is misplaced in the memory where it is on the shape. -/
theorem isMisplaced_iff
    {S : BinaryTree Addr} {C : List (Frame Addr)} {a : Addr}
    (h : t.Shaped index (plug S C))
    (hS : rootOf S = some a) :
    t.IsMisplaced a ↔ Misplaced t.redAt S C := by
  obtain ⟨hhold, hC⟩ := holdsTree_plug.mp h.holds
  obtain ⟨c, ha⟩ := hhold.links_root hS
  obtain ⟨n, hn, hparent, hchild⟩ := exists_node ha
  have hred : t.redAt a = n.red := redAt_of_color (by rw [color, hn]; rfl)
  rw [Misplaced, rootRed_of_rootOf hS, hred]
  constructor
  · rintro ⟨hn', hblack, hp, hnp, hredp, hinner, hg, hng, hside, huncle⟩
    obtain rfl := Option.some.inj (hn.symm.trans hn')
    cases C with
    | nil =>
        cases hparent.symm.trans hp
    | cons f C =>
        obtain rfl : f.value = _ := Option.some.inj (hparent.symm.trans hp)
        obtain ⟨nf, hnf, hgrandparent, hchildf⟩ := exists_node hC.1
        obtain rfl := Option.some.inj (hnf.symm.trans hnp)
        cases C with
        | nil =>
            cases hgrandparent.symm.trans hg
        | cons g D =>
            obtain rfl : g.value = _ := Option.some.inj (hgrandparent.symm.trans hg)
            obtain ⟨_, _, hCg⟩ := hC
            obtain ⟨ng, hng', _, hchildg⟩ := exists_node hCg.1
            obtain rfl := Option.some.inj (hng'.symm.trans hng)
            have hplace : t.Shaped index (plug (join f.side f.value S f.sibling) (g :: D)) := h
            rw [hchildg] at hside huncle
            rw [hchildf] at hinner
            obtain rfl := side_of_pointers hside (hplace.sibling_ne (rootOf_join _ _ _ _))
            have hinner := side_of_pointers hinner (h.sibling_ne hS)
            rw [pointers_other, hCg.2.1.isRed_rootOf] at huncle
            exact ⟨hblack, f, g, D, rfl, (redAt_of_color (by rw [color, hnf]; rfl)).trans hredp,
              hinner.symm, Option.some.inj huncle⟩
  · rintro ⟨hblack, f, g, D, rfl, hredf, hside, huncle⟩
    obtain ⟨hf, _, hg, hu, _⟩ := hC
    obtain ⟨nf, hnf, hgrandparent, hchildf⟩ := exists_node hf
    obtain ⟨ng, hng, _, hchildg⟩ := exists_node hg
    refine @IsMisplaced.intro _ _ _ _ _ _ _ _ _ g.side hn hblack hparent hnf ?_ ?_ hgrandparent
      hng ?_ ?_
    · rw [← hredf]
      exact (redAt_of_color (by rw [color, hnf]; rfl)).symm
    · rw [hchildf, ← hside, pointers_self, hS]
    · rw [hchildg, pointers_self]
    · rw [hchildg, pointers_other, hu.isRed_rootOf, huncle]

/-! ### Adding -/

/-- Every node in the memory is one of the shape. -/
def AllIn (t : Tree α κ) (T : BinaryTree Addr) : Prop :=
  ∀ a, t.node a ≠ none → a ∈ elements T

theorem entry_eq_none
    {a : Addr} :
    t.entry a = none ↔ t.node a = none :=
  Option.map_eq_none_iff

/-- A node in the memory has been there before, or is the one that is written. -/
theorem AllIn.of_update
    {t' : Tree α κ} {T T' : BinaryTree Addr} {a : Addr} {e : Option (α × UInt64)}
    (h : t.AllIn T)
    (hentry : t'.entry = Function.update t.entry a e)
    (hin : ∀ b, b = a ∨ b ∈ elements T → b ∈ elements T') :
    t'.AllIn T' := by
  intro b hb
  rw [ne_eq, ← entry_eq_none, hentry] at hb
  by_cases hba : b = a
  · exact hin b (.inl hba)
  · rw [Function.update_of_ne hba, entry_eq_none] at hb
    exact hin b (.inr (h b hb))

/-- What `TreeAddByIndex` leaves a red-black tree as. -/
structure Added (t t' : Tree α κ) (index : Fin 2) (T T' : BinaryTree Addr) (content : α)
    (size : UInt64) (rc : Option α) : Prop where
  shaped : t'.Shaped index T'
  redBlack : IsRedBlack t'.redAt T' ↔ ¬t.ReplacesMisplaced content index
  replaced : ∀ a, t.TreeFindContentIndex content index = some (some a) →
    t.allow_duplicates = false →
    rc = some content ∧ t'.entry = Function.update t.entry a (some (content, size))
  allIn : t.AllIn T → t'.AllIn T'
  compare : t'.compare = t.compare
  indexes : t'.indexes = t.indexes

/-- Nothing is added where there is no memory, or a duplicate. -/
theorem added_same
    {T : BinaryTree Addr} {content : α} {size : UInt64}
    (h : t.Shaped index T)
    (hred : IsRedBlack t.redAt T)
    (hnone : ∀ a, t.TreeFindContentIndex content index = some (some a) →
      t.allow_duplicates = true) :
    Added t t index T T content size none where
  shaped := h
  redBlack := by
    refine iff_of_true hred ?_
    rintro ⟨hunique, a, hfind, _⟩
    rw [hnone a hfind] at hunique
    cases hunique
  replaced a hfind hunique := by
    rw [hnone a hfind] at hunique
    cases hunique
  allIn := id
  compare := rfl
  indexes := rfl

/-- A content is replaced: the tree is red-black unless the node is misplaced. -/
theorem added_found
    {compare : α → α ⊕ κ → Int} {content : α} {a : Addr} {l r : BinaryTree Addr}
    {D : List (Frame Addr)}
    (h : t.Shaped index (plug (.node a l r) D))
    (hred : IsRedBlack t.redAt (plug (.node a l r) D))
    (hcompare : t.compare index = some compare)
    (hsearch : search (t.compareAt compare (.inl content)) (plug (.node a l r) D) [] =
      (.node a l r, D))
    (hunique : t.allow_duplicates = false) (size : UInt64) (newel : Option Addr) :
    ∃ t' T', t.TreeAddByIndex content size newel index = some (some content, t') ∧
      Added t t' index (plug (.node a l r) D) T' content size (some content) := by
  have hfind : t.TreeFindContentIndex content index = some (some a) :=
    TreeFindIndex1_root h hcompare hsearch
  have hin : a ∈ elements (plug (.node a l r) D) := mem_elements_plug (rootOf_node a l r) D
  obtain ⟨n, hn⟩ := h.holds.exists_node hin
  have hentry : t.entry a = some (n.content, n.size) := by rw [entry, hn]; rfl
  obtain ⟨t₁, t', T', red, b, ht', hentry₁, hrest₁, hrounds, hroot, hred', hrebalances⟩ :=
    TreeAddByIndex_found h hcompare hsearch hunique hentry size newel
  have hentry' : t'.entry = Function.update t.entry a (some (content, size)) :=
    hrebalances.reshapes.entry.trans hentry₁
  have hnearly : Nearly t.redAt (.node a l r) D := by
    obtain ⟨n, hS, hD⟩ := isRedBlack_plug.mp hred
    exact ⟨n, hS, hD.of_black⟩
  have hmisplaced := isMisplaced_iff h (rootOf_node a l r)
  refine ⟨t', T', ht', hrebalances.shaped, ?_, ?_, fun hall => ?_, ?_, ?_⟩
  · rw [hred']
    constructor
    · rintro hbalanced ⟨_, a', hfind', hplace⟩
      obtain rfl : a = a' := Option.some.inj (Option.some.inj (hfind.symm.trans hfind'))
      exact hrounds.not_isRedBlack hnearly h.nodup (hmisplaced.mp hplace) hroot hbalanced
    · intro hsafe
      refine hrounds.isRedBlack hnearly h.nodup (fun hplace => hsafe ?_) hroot
      exact ⟨hunique, a, hfind, hmisplaced.mpr hplace⟩
  · intro a' hfind' _
    obtain rfl : a = a' := Option.some.inj (Option.some.inj (hfind.symm.trans hfind'))
    exact ⟨rfl, hentry'⟩
  · refine hall.of_update hentry' ?_
    rintro c (rfl | hc)
    · rwa [hrebalances.order]
    · rwa [hrebalances.order]
  · rw [hrebalances.reshapes.rest, hrest₁]
  · rw [hrebalances.reshapes.rest, hrest₁]

/-- A new key is added: the rounds start at a red node. -/
theorem added_absent
    {compare : α → α ⊕ κ → Int} {content : α} {newel : Addr} {D : List (Frame Addr)}
    (h : t.Shaped index (plug .nil D))
    (hred : IsRedBlack t.redAt (plug .nil D))
    (hcompare : t.compare index = some compare)
    (hsearch : search (t.compareAt compare (.inl content)) (plug .nil D) [] = (.nil, D))
    (hnew : t.node newel = none) (size : UInt64) :
    ∃ t' T', t.TreeAddByIndex content size (some newel) index = some (some content, t') ∧
      Added t t' index (plug .nil D) T' content size (some content) := by
  have hfind : t.TreeFindContentIndex content index = some none :=
    TreeFindIndex1_root h hcompare hsearch
  obtain ⟨t₁, t', T', red, b, ht', hentry₁, hrest₁, hrounds, hroot, hred', hrebalances⟩ :=
    TreeAddByIndex_absent h hcompare hsearch hnew size
  have hperm := elements_plug_perm (.node newel .nil .nil) D
  have hpermnil := elements_plug_perm .nil D
  have hnewred : Function.update t.redAt newel true newel = true := Function.update_self _ _ _
  have hnearly : Nearly (Function.update t.redAt newel true) (.node newel .nil .nil) D := by
    obtain ⟨n, hnil, hD⟩ := isRedBlack_plug.mp hred
    obtain rfl := sound_nil.mp hnil
    refine ⟨0, sound_node.mpr ⟨0, by rw [weight_red hnewred], fun _ => ⟨rfl, rfl⟩,
      sound_nil.mpr rfl, sound_nil.mpr rfl⟩, ?_⟩
    refine hD.congr ((SameOn.refl _ t.redAt).update fun hin => ?_)
    obtain ⟨n, hn⟩ := h.holds.exists_node (hpermnil.mem_iff.mpr hin)
    rw [hnew] at hn
    cases hn
  have hplace : ¬Misplaced (Function.update t.redAt newel true) (.node newel .nil .nil) D := by
    rintro ⟨hblack, _⟩
    rw [rootRed, hnewred] at hblack
    cases hblack
  refine ⟨t', T', ht', hrebalances.shaped, ?_, ?_, fun hall => ?_, ?_, ?_⟩
  · refine iff_of_true ?_ ?_
    · rw [hred']
      exact hrounds.isRedBlack hnearly (hrebalances.order ▸ hrebalances.shaped.nodup) hplace hroot
    · rintro ⟨_, a, hfind', _⟩
      cases hfind.symm.trans hfind'
  · intro a hfind'
    cases hfind.symm.trans hfind'
  · refine hall.of_update (hrebalances.reshapes.entry.trans hentry₁) ?_
    intro c hc
    rw [hrebalances.order, hperm.mem_iff]
    rcases hc with rfl | hc
    · exact List.mem_cons_self
    · exact List.mem_cons_of_mem _ (hpermnil.mem_iff.mp hc)
  · rw [hrebalances.reshapes.rest, hrest₁]
  · rw [hrebalances.reshapes.rest, hrest₁]

/-- `TreeAddByIndex` works on every red-black tree, and leaves one unless it replaces the content
of a misplaced node. -/
theorem exists_added
    {compare : α → α ⊕ κ → Int} {T : BinaryTree Addr} {newel : Option Addr}
    (h : t.Shaped index T)
    (hred : IsRedBlack t.redAt T)
    (hcompare : t.compare index = some compare)
    (hnew : ∀ a, newel = some a → t.node a = none) (content : α) (size : UInt64) :
    ∃ rc t' T', t.TreeAddByIndex content size newel index = some (rc, t') ∧
      Added t t' index T T' content size rc := by
  have hplug := @plug_search _ (t.compareAt compare (.inl content)) T []
  generalize hsearch : search (t.compareAt compare (.inl content)) T [] = place at hplug
  obtain ⟨S, D⟩ := place
  rw [plug_nil] at hplug
  subst hplug
  have hfind : t.TreeFindContentIndex content index = some (rootOf S) :=
    TreeFindIndex1_root h hcompare hsearch
  cases S with
  | nil =>
      cases newel with
      | none =>
          refine ⟨none, t, _, TreeAddByIndex_noMemory h hcompare hsearch size,
            added_same h hred fun a hfind' => ?_⟩
          cases hfind.symm.trans hfind'
      | some newel =>
          obtain ⟨t', T', ht', hadded⟩ :=
            added_absent h hred hcompare hsearch (hnew newel rfl) size
          exact ⟨some content, t', T', ht', hadded⟩
  | node a l r =>
      cases hduplicates : t.allow_duplicates with
      | true =>
          refine ⟨none, t, _, TreeAddByIndex_duplicate h hcompare hsearch ?_ hduplicates size newel,
            added_same h hred fun _ _ => hduplicates⟩
          exact fun hnil => by cases hnil
      | false =>
          obtain ⟨t', T', ht', hadded⟩ :=
            added_found h hred hcompare hsearch hduplicates size newel
          exact ⟨some content, t', T', ht', hadded⟩

end

/-! ### Runs -/

/-- The tree has one index, which is a red-black tree of all its nodes. -/
structure Sole (compare : α → α ⊕ κ → Int) (t : Tree α κ) (T : BinaryTree Addr) : Prop where
  shaped : t.Shaped 0 T
  redBlack : IsRedBlack t.redAt T
  allIn : t.AllIn T
  compare : t.compare 0 = some compare
  indexes : t.indexes = 1

section

variable {t : Tree α κ} {compare : α → α ⊕ κ → Int} {T : BinaryTree Addr}

theorem sole_initialize
    (compare : α → α ⊕ κ → Int) :
    Sole compare (TreeInitialize compare) .nil where
  shaped := ⟨rfl, trivial, List.nodup_nil, Nat.le_refl _⟩
  redBlack := ⟨rfl, trivial, 0, rfl⟩
  allIn _ ha := absurd rfl ha
  compare := rfl
  indexes := rfl

/-- A red-black tree is left when a node is removed. -/
theorem Sole.removeNode
    {a : Addr}
    (h : Sole compare t T)
    (ha : a ∈ elements T) :
    ∃ content t' T', t.TreeRemoveNodeIndex a 0 = some (content, t') ∧ Sole compare t' T' := by
  obtain ⟨N₁, N₂, hN⟩ := List.append_of_mem ha
  obtain ⟨n, hn⟩ := h.shaped.holds.exists_node ha
  have hentry : t.entry a = some (n.content, n.size) := by rw [entry, hn]; rfl
  obtain ⟨b, d, x, E, hredundant, rfl, _⟩ := exists_redundant h.shaped hN
  obtain ⟨t', T', ht', hshaped', horder, hentry', hrest, hred⟩ :=
    TreeRemoveNodeIndex_spec h.shaped hentry hredundant
  refine ⟨_, t', T', ht', hshaped', hred h.redBlack, ?_, ?_, ?_⟩
  · intro c hc
    rw [ne_eq, ← entry_eq_none, hentry'] at hc
    have hcb : c ≠ b := by
      rintro rfl
      exact hc (Function.update_self _ _ _)
    have hin : c ∈ elements (plug (join d b .nil x) E) := by
      by_cases hca : c = a
      · rwa [hca]
      · rw [Function.update_of_ne hcb, Function.update_of_ne hca, entry_eq_none] at hc
        exact h.allIn c hc
    rw [(elements_plug_perm _ E).mem_iff, List.mem_append,
      (elements_join_perm d b .nil x).mem_iff, List.mem_cons] at hin
    rw [horder, (elements_plug_perm x E).mem_iff, List.mem_append]
    exact hin.imp_left fun hin => hin.resolve_left hcb
  · rw [hrest]
    exact h.compare
  · rw [hrest]
    exact h.indexes

/-- A search ends at a node of the tree, if it finds one. -/
theorem Sole.find
    (h : Sole compare t T) (target : α ⊕ κ) :
    t.TreeFindIndex1 target 0 = some none ∨
      ∃ a, t.TreeFindIndex1 target 0 = some (some a) ∧ a ∈ elements T := by
  have hplug := @plug_search _ (t.compareAt compare target) T []
  generalize hsearch : search (t.compareAt compare target) T [] = place at hplug
  obtain ⟨S, D⟩ := place
  rw [plug_nil] at hplug
  subst hplug
  rw [TreeFindIndex1_root h.shaped h.compare hsearch]
  cases hroot : rootOf S with
  | none => exact .inl rfl
  | some a => exact .inr ⟨a, rfl, mem_elements_plug hroot D⟩

/-- Every operation works and leaves a red-black tree, but for a content of a misplaced node. -/
theorem Sole.exec
    {op : TreeOperation α κ}
    (h : Sole compare t T)
    (hop : t.Admissible op)
    (hplace : ∀ content size newel, op = .add content size newel →
      ¬t.ReplacesMisplaced content 0) :
    ∃ rc t' T', t.exec op = some (rc, t') ∧ Sole compare t' T' := by
  cases op with
  | add content size newel =>
      have hnew : ∀ a, newel = some a → t.node a = none := by
        rintro a rfl
        exact hop
      obtain ⟨rc, t', T', ht', hadded⟩ :=
        exists_added h.shaped h.redBlack h.compare hnew content size
      refine ⟨rc, t', T', (TreeAdd_eq h.indexes content size _).trans ht', hadded.shaped,
        hadded.redBlack.mpr (hplace content size newel rfl), hadded.allIn h.allIn, ?_, ?_⟩
      · rw [hadded.compare]
        exact h.compare
      · rw [hadded.indexes]
        exact h.indexes
  | remove content =>
      have hexec : t.exec (.remove content) = t.TreeRemoveIndex content 0 :=
        TreeRemove_eq h.indexes content
      rw [hexec, TreeRemoveIndex, TreeFindContentIndex]
      rcases h.find (.inl content) with hfind | ⟨a, hfind, ha⟩
      · exact ⟨none, t, T, by rw [hfind]; rfl, h⟩
      · obtain ⟨old, t', T', ht', hsole⟩ := h.removeNode ha
        refine ⟨some old, t', T', ?_, hsole⟩
        simp only [hfind, ht', Option.bind_eq_bind, Option.bind_some]
        rfl
  | removeKey k =>
      have hexec : t.exec (.removeKey k) = t.TreeRemoveKeyIndex k 0 := rfl
      rw [hexec, TreeRemoveKeyIndex, TreeFindIndex]
      rcases h.find (.inr k) with hfind | ⟨a, hfind, ha⟩
      · exact ⟨none, t, T, by rw [hfind]; rfl, h⟩
      · obtain ⟨old, t', T', ht', hsole⟩ := h.removeNode ha
        refine ⟨some old, t', T', ?_, hsole⟩
        simp only [hfind, ht', Option.bind_eq_bind, Option.bind_some]
        exact foldlM_indexes hsole.indexes _ _
  | removeNode node =>
      obtain ⟨old, t', T', ht', hsole⟩ := h.removeNode (h.allIn node hop)
      refine ⟨some old, t', T', ?_, hsole⟩
      rw [Tree.exec, ht']
      rfl

/-- In a run that spares the misplaced nodes the tree is a red-black tree throughout. -/
theorem run_sole
    {tr : TreeRun α κ}
    (hrun : Lib.Runs Step (TreeInitialize compare) tr t)
    (hplace : ∀ x ∈ tr, ∀ content size newel, x.event = .add content size newel →
      ¬x.pre.ReplacesMisplaced content 0) :
    ∃ T, Sole compare t T := by
  refine (hrun.invariant_of (I := fun t => ∃ T, Sole compare t T)
    (C := fun t op => ∀ content size newel, op = .add content size newel →
      ¬t.ReplacesMisplaced content 0) ?_ ⟨.nil, sole_initialize compare⟩ hplace).2
  rintro t op t' ⟨T, h⟩ hplace ⟨hop, rc, hexec⟩
  obtain ⟨rc', u, T', hexec', hsole⟩ := h.exec hop hplace
  rw [hexec] at hexec'
  obtain ⟨_, rfl⟩ := Prod.mk.inj (Option.some.inj hexec')
  exact ⟨T', hsole⟩

end

/--
`TreeAddByIndex` turns a red-black tree into one, with the content of its key
replaced, if and only if it does not replace the content of a misplaced node.  In a
run in which no content of such a node is replaced, every tree is a red-black tree
and at most `2 * log2 (n + 1)` deep.
-/
theorem TreeAddByIndex_redBlack_iff :
    (∀ (t : Tree α κ) (index : Fin 2) (content : α) (size : UInt64) (newel : Option Addr),
      t.IsRedBlackTree index → t.compare index ≠ none →
      (∀ a, newel = some a → t.node a = none) →
      ∃ rc t', t.TreeAddByIndex content size newel index = some (rc, t') ∧
        (∀ a, t.TreeFindContentIndex content index = some (some a) → t.allow_duplicates = false →
          rc = some content ∧ t'.entry = Function.update t.entry a (some (content, size))) ∧
        (t'.IsRedBlackTree index ↔ ¬t.ReplacesMisplaced content index)) ∧
    ∀ (compare : α → α ⊕ κ → Int) (tr : TreeRun α κ) (t : Tree α κ),
      Lib.Runs Step (TreeInitialize compare) tr t →
      (∀ x ∈ tr, ∀ content size newel, x.event = .add content size newel →
        ¬x.pre.ReplacesMisplaced content 0) →
      t.IsRedBlackTree 0 ∧
        ∀ T, t.Shaped 0 T → T.height ≤ 2 * Nat.log 2 ((elements T).length + 1) := by
  constructor
  · rintro t index content size newel ⟨T, hshaped, hred⟩ hcompare hnew
    obtain ⟨compare, hcompare⟩ := Option.ne_none_iff_exists'.mp hcompare
    obtain ⟨rc, t', T', ht', hadded⟩ := exists_added hshaped hred hcompare hnew content size
    refine ⟨rc, t', ht', hadded.replaced, ?_⟩
    rw [isRedBlackTree_iff hadded.shaped]
    exact hadded.redBlack
  · intro compare tr t hrun hplace
    obtain ⟨T, hsole⟩ := run_sole hrun hplace
    refine ⟨⟨T, hsole.shaped, hsole.redBlack⟩, fun T' hshaped => ?_⟩
    rw [hshaped.unique hsole.shaped]
    exact hsole.redBlack.height_le

theorem not_replacesMisplaced
    {t : Tree α κ} {content : α} {index : Fin 2}
    (h : t.TreeFindContentIndex content index = some none) :
    ¬t.ReplacesMisplaced content index := by
  rintro ⟨_, a, hfind, _⟩
  cases h.symm.trans hfind

/-- When the keys 1 to 6 have been added, the node of 3 is misplaced. -/
theorem exists_six_added :
    ∃ (tr : TreeRun Int Int) (t : Tree Int Int),
      Lib.Runs Step (TreeInitialize TreeIntCompare) tr t ∧
      tr.map Lib.Transition.event = [.add 1 4 (some 101), .add 2 4 (some 102),
        .add 3 4 (some 103), .add 4 4 (some 104), .add 5 4 (some 105), .add 6 4 (some 106)] ∧
      (∀ x ∈ tr, ∀ content size newel, x.event = .add content size newel →
        ¬x.pre.ReplacesMisplaced content 0) ∧
      t.compare 0 = some TreeIntCompare ∧ t.node 107 = none ∧
      t.TreeFindContentIndex 7 0 = some none ∧ t.ReplacesMisplaced 3 0 := by
  refine ⟨[⟨_, .add 1 4 (some 101), _⟩, ⟨_, .add 2 4 (some 102), _⟩, ⟨_, .add 3 4 (some 103), _⟩,
    ⟨_, .add 4 4 (some 104), _⟩, ⟨_, .add 5 4 (some 105), _⟩, ⟨_, .add 6 4 (some 106), _⟩], _,
    .cons ⟨rfl, some 1, rfl⟩ (.cons ⟨rfl, some 2, rfl⟩ (.cons ⟨rfl, some 3, rfl⟩
      (.cons ⟨rfl, some 4, rfl⟩ (.cons ⟨rfl, some 5, rfl⟩ (.cons ⟨rfl, some 6, rfl⟩
        (.nil _)))))), rfl, ?_, rfl, rfl, rfl, rfl, 103, rfl, ?_⟩
  · intro x hx content size newel hevent
    simp only [List.mem_cons, List.not_mem_nil, or_false] at hx
    rcases hx with rfl | rfl | rfl | rfl | rfl | rfl
    all_goals
      cases hevent
      exact not_replacesMisplaced rfl
  · exact @IsMisplaced.intro _ _ _ _ _ _ _ 104 102 RIGHT rfl rfl rfl rfl rfl rfl rfl rfl rfl rfl

/-- The tree with the keys 1 to 6 is a red-black tree, and is one when 7 is added. -/
theorem TreeAddByIndex_redBlack_iff_six :
    ∃ (t : Tree Int Int) (rc : Option Int) (t' : Tree Int Int),
      t.IsRedBlackTree 0 ∧
      (∀ T, t.Shaped 0 T → T.height ≤ 2 * Nat.log 2 ((elements T).length + 1)) ∧
      t.TreeAddByIndex 7 4 (some 107) 0 = some (rc, t') ∧ t'.IsRedBlackTree 0 := by
  obtain ⟨tr, t, hrun, _, hplace, hcompare, hnew, hfind, _⟩ := exists_six_added
  obtain ⟨hred, hdeep⟩ := TreeAddByIndex_redBlack_iff.2 TreeIntCompare tr t hrun hplace
  have hnew' : ∀ a, some 107 = some a → t.node a = none := by
    intro a ha
    rw [← Option.some.inj ha, hnew]
  have hcompare' : t.compare 0 ≠ none := by simp [hcompare]
  obtain ⟨rc, t', ht', _, hiff⟩ :=
    TreeAddByIndex_redBlack_iff.1 t 0 7 4 (some 107) hred hcompare' hnew'
  exact ⟨t, rc, t', hred, hdeep, ht', hiff.mpr (not_replacesMisplaced hfind)⟩

/-- When 3 is added again to the tree with the keys 1 to 6, it is no red-black tree any more. -/
theorem replaced_not_redBlack :
    ∃ (tr : TreeRun Int Int) (t t' : Tree Int Int),
      Lib.Runs Step (TreeInitialize TreeIntCompare) tr t ∧
      tr.map Lib.Transition.event = [.add 1 4 (some 101), .add 2 4 (some 102),
        .add 3 4 (some 103), .add 4 4 (some 104), .add 5 4 (some 105), .add 6 4 (some 106)] ∧
      t.IsRedBlackTree 0 ∧ (∃ rc, t.exec (.add 3 8 none) = some (rc, t')) ∧
      ¬t'.IsRedBlackTree 0 := by
  obtain ⟨tr, t, hrun, hevents, hplace, _, _, _, hreplaces⟩ := exists_six_added
  obtain ⟨T, hsole⟩ := run_sole hrun hplace
  have hnone : ∀ a, (none : Option Addr) = some a → t.node a = none := by
    intro a ha
    cases ha
  obtain ⟨rc, t', T', ht', hadded⟩ :=
    exists_added hsole.shaped hsole.redBlack hsole.compare hnone 3 8
  refine ⟨tr, t, t', hrun, hevents, ⟨T, hsole.shaped, hsole.redBlack⟩,
    ⟨rc, (TreeAdd_eq hsole.indexes 3 8 _).trans ht'⟩, ?_⟩
  rw [isRedBlackTree_iff hadded.shaped, hadded.redBlack]
  exact not_not_intro hreplaces

/-! ### Removing a node -/

/-- The contents of the others are left in their order, whichever node is taken out. -/
theorem entries_left
    {entry entry' : Addr → Option (α × UInt64)} {a b : Addr} {N₁ N₂ N : List Addr}
    (hnodup : (N₁ ++ a :: N₂).Nodup)
    (hentry : entry' = Function.update (Function.update entry a (entry b)) b none)
    (hcases : (b = a ∧ N = N₁ ++ N₂) ∨ ∃ N₃, b ≠ a ∧ N₂ = b :: N₃ ∧ N = N₁ ++ a :: N₃) :
    N.map entry' = (N₁ ++ N₂).map entry := by
  have hother : ∀ {y}, y ≠ a → y ≠ b → entry' y = entry y := by
    intro y hya hyb
    rw [hentry, Function.update_of_ne hyb, Function.update_of_ne hya]
  rw [List.nodup_middle, List.nodup_cons, List.mem_append, not_or] at hnodup
  obtain ⟨⟨ha₁, ha₂⟩, hnodup⟩ := hnodup
  rcases hcases with ⟨rfl, rfl⟩ | ⟨N₃, hba, rfl, rfl⟩
  · refine List.map_congr_left fun y hy => ?_
    have hya : y ≠ b := by
      rintro rfl
      exact (List.mem_append.mp hy).elim ha₁ ha₂
    exact hother hya hya
  · rw [List.nodup_middle, List.nodup_cons, List.mem_append, not_or] at hnodup
    obtain ⟨⟨hb₁, hb₃⟩, _⟩ := hnodup
    have hfront : N₁.map entry' = N₁.map entry :=
      List.map_congr_left fun y hy =>
        hother (fun heq => ha₁ (heq ▸ hy)) (fun heq => hb₁ (heq ▸ hy))
    have hback : N₃.map entry' = N₃.map entry :=
      List.map_congr_left fun y hy =>
        hother (fun heq => ha₂ (List.mem_cons_of_mem b (heq ▸ hy))) (fun heq => hb₃ (heq ▸ hy))
    have hcopied : entry' a = entry b := by
      rw [hentry, Function.update_of_ne (Ne.symm hba), Function.update_self]
    rw [List.map_append, List.map_cons, List.map_append, List.map_cons, hfront, hback, hcopied]

/--
From a red-black tree of any index every node can be removed: the balancing ends,
its content is returned and is the only one that is gone, and the tree is a red-black
tree again.
-/
theorem TreeRemoveNodeIndex_redBlack
    {t : Tree α κ} {index : Fin 2} {T : BinaryTree Addr} {a : Addr}
    (hshaped : t.Shaped index T)
    (hred : IsRedBlack t.redAt T)
    (ha : a ∈ elements T) :
    ∃ n t' T' N₁ N₂, t.node a = some n ∧
      t.TreeRemoveNodeIndex a index = some (n.content, t') ∧
      t'.Shaped index T' ∧ IsRedBlack t'.redAt T' ∧
      elements T = N₁ ++ a :: N₂ ∧ (elements T').map t'.entry = (N₁ ++ N₂).map t.entry := by
  obtain ⟨N₁, N₂, hN⟩ := List.append_of_mem ha
  obtain ⟨n, hn⟩ := hshaped.holds.exists_node ha
  have hentry : t.entry a = some (n.content, n.size) := by rw [entry, hn]; rfl
  have hnodup := hshaped.nodup
  obtain ⟨b, d, x, E, hredundant, rfl, hcases⟩ := exists_redundant hshaped hN
  obtain ⟨t', T', ht', hshaped', horder, hentry', _, hbalanced⟩ :=
    TreeRemoveNodeIndex_spec hshaped hentry hredundant
  rw [hN] at hnodup
  rw [← horder] at hcases
  exact ⟨n, t', T', N₁, N₂, hn, ht', hshaped', hbalanced hred, hN,
    entries_left hnodup hentry' hcases⟩

/-- A black node with two red children. -/
def threeNodes : Tree Int Int where
  node
    | 11 => some ⟨some 12, fun _ => none, 1, 4, true⟩
    | 12 => some ⟨none, pointers LEFT (some 11) (some 13), 2, 4, false⟩
    | 13 => some ⟨some 12, fun _ => none, 3, 4, true⟩
    | _ => none
  allocated := 3
  root := Function.update (fun _ => none) 0 (some 12)
  compare := Function.update (fun _ => none) 0 (some TreeIntCompare)
  indexes := 1
  count := 3
  size := 12
  allow_duplicates := false

/-- The root of three nodes is removed, and the content of its right child comes to its place. -/
theorem TreeRemoveNodeIndex_redBlack_root :
    ∃ t' T', threeNodes.TreeRemoveNodeIndex 12 0 = some (2, t') ∧ t'.Shaped 0 T' ∧
      IsRedBlack t'.redAt T' ∧ (elements T').map t'.entry = [some (1, 4), some (3, 4)] := by
  have hshaped : threeNodes.Shaped 0
      (.node 12 (.node 11 .nil .nil) (.node 13 .nil .nil)) := by
    refine ⟨rfl, ⟨rfl, ⟨?_, trivial, trivial⟩, ⟨?_, trivial, trivial⟩⟩, by decide, by decide⟩
    · refine congrArg (fun c => some (some 12, c)) (funext fun side => ?_)
      cases side <;> rfl
    · refine congrArg (fun c => some (some 12, c)) (funext fun side => ?_)
      cases side <;> rfl
  have hred : IsRedBlack threeNodes.redAt
      (.node 12 (.node 11 .nil .nil) (.node 13 .nil .nil)) := by
    have hblack : threeNodes.redAt 12 = false := rfl
    refine ⟨rfl, ⟨fun h => ?_, ⟨?_, trivial, trivial⟩, ⟨?_, trivial, trivial⟩⟩, 1, 0, rfl,
      ⟨0, rfl, rfl, rfl⟩, ⟨0, rfl, rfl, rfl⟩⟩
    · cases hblack.symm.trans h
    · exact fun _ => ⟨rfl, rfl⟩
    · exact fun _ => ⟨rfl, rfl⟩
  obtain ⟨n, t', T', N₁, N₂, hn, ht', hshaped', hred', hN, hentries⟩ :=
    @TreeRemoveNodeIndex_redBlack _ _ threeNodes 0 _ 12 hshaped hred (by decide)
  cases hn
  have hsame : [11] ++ 12 :: [13] = N₁ ++ 12 :: N₂ := hN
  obtain ⟨rfl, _, rfl⟩ :=
    (List.append_cons_inj_of_notMem (by decide : 12 ∉ [11]) (by decide : 12 ∉ [13])).mp hsame
  exact ⟨t', T', ht', hshaped', hred', hentries⟩

end Tree
end PahoMqtt
