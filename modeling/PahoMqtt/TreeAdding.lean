import PahoMqtt.TreeSearch

/-!
# Adding a node

`TreeAddByIndex` searches for the place of a content.  At a node with the same key
it replaces the content, at an empty place it hangs a new red node; either way the
rounds of balancing start from there, also when nothing but a content has changed.
-/

namespace PahoMqtt
namespace Tree

open Lib.TreePlaces Lib.RedBlack

variable {α κ : Type}

section

variable {t : Tree α κ} {index : Fin 2} {compare : α → α ⊕ κ → Int} {content : α}

theorem exists_entry
    {a : Addr} {e : α × UInt64}
    (h : t.entry a = some e) :
    ∃ n, t.node a = some n ∧ n.content = e.1 ∧ n.size = e.2 := by
  obtain ⟨n, hn, rfl⟩ := Option.map_eq_some_iff.mp h
  exact ⟨n, hn, rfl, rfl⟩

/-- The nodes of a subtree are in the memory. -/
theorem HoldsTree.exists_node
    {parent : Option Addr} {T : BinaryTree Addr} {a : Addr}
    (h : t.HoldsTree parent T)
    (ha : a ∈ elements T) :
    ∃ n, t.node a = some n := by
  induction T generalizing parent with
  | nil =>
      cases ha
  | node b l r ihl ihr =>
      obtain ⟨hb, hl, hr⟩ := h
      rcases List.mem_append.mp ha with ha | ha
      · exact ihl hl ha
      rcases List.mem_cons.mp ha with rfl | ha
      · obtain ⟨n, hn, _⟩ := Tree.exists_node hb
        exact ⟨n, hn⟩
      · exact ihr hr ha

/-- What the search of `TreeAddByIndex` ends with. -/
theorem searchPlace_root
    {T S : BinaryTree Addr} {D : List (Frame Addr)}
    (hshaped : t.Shaped index T)
    (hsearch : search (t.compareAt compare (.inl content)) T [] = (S, D)) :
    ∃ place, t.searchPlace compare content (t.allocated + 1) ⟨none, LEFT, t.root index, 1⟩ =
        some place ∧
      (place.result = 0 → place.curnode = rootOf S) ∧ (place.result = 0 ↔ S ≠ .nil) ∧
      (place.result ≠ 0 → place.curparent = parentAddr D ∧ place.left = sideOf D) := by
  have hplace := @searchPlace_spec _ _ t compare content (t.allocated + 1) T [] 1
    (Nat.lt_succ_of_le hshaped.fits) hshaped.holds (by decide)
  rw [hsearch] at hplace
  rw [hshaped.root]
  exact hplace

/-- What `TreeFindIndex1` ends with. -/
theorem TreeFindIndex1_root
    {T S : BinaryTree Addr} {D : List (Frame Addr)} {target : α ⊕ κ}
    (hshaped : t.Shaped index T)
    (hcompare : t.compare index = some compare)
    (hsearch : search (t.compareAt compare target) T [] = (S, D)) :
    t.TreeFindIndex1 target index = some (rootOf S) := by
  have hfrom : t.findFrom compare target (t.allocated + 1) (rootOf T) =
      some (rootOf (search (t.compareAt compare target) T []).1) :=
    findFrom_spec (Nat.lt_succ_of_le hshaped.fits) hshaped.holds []
  rw [hsearch] at hfrom
  rw [TreeFindIndex1, hcompare, hshaped.root]
  exact hfrom

/-- A content is replaced, and the tree is balanced from its node. -/
theorem TreeAddByIndex_found
    {a : Addr} {e : α × UInt64} {l r : BinaryTree Addr} {D : List (Frame Addr)}
    (hshaped : t.Shaped index (plug (.node a l r) D))
    (hcompare : t.compare index = some compare)
    (hsearch : search (t.compareAt compare (.inl content)) (plug (.node a l r) D) [] =
      (.node a l r, D))
    (hunique : t.allow_duplicates = false)
    (hentry : t.entry a = some e) (size : UInt64) (newel : Option Addr) :
    ∃ t₁ t' T' red b, t.TreeAddByIndex content size newel index = some (some content, t') ∧
      t₁.entry = Function.update t.entry a (some (content, size)) ∧
      t₁ = { t with
        node := t₁.node, size := if index = 0 then t.size + (size - e.2) else t.size } ∧
      AddRounds t.redAt (.node a l r) D T' red ∧ rootOf T' = some b ∧
      t'.redAt = Function.update red b false ∧
      Rebalances index (plug (.node a l r) D) t₁ t' T' := by
  obtain ⟨place, hplace, hcurnode, hresult, _⟩ := searchPlace_root hshaped hsearch
  have hzero : place.result = 0 := hresult.mpr fun hnil => by cases hnil
  obtain ⟨n, hn, hcontent, hsize⟩ := exists_entry hentry
  -- the tree with the new content
  set t₁ : Tree α κ := (if index = 0 then { t with size := t.size + (size - n.size) } else t).write
    a { n with content, size } with ht₁
  have hnode₁ : t₁.node = Function.update t.node a (some { n with content, size }) := by
    rw [ht₁]
    split_ifs <;> rfl
  have hwrite : ∀ {β : Type} (f : Node α → β),
      (fun y => (t₁.node y).map f) = fun y => ((t.write a { n with content, size }).node y).map f :=
    fun f => by rw [hnode₁]; rfl
  have hrest : t₁ = { t with
      node := t₁.node, size := if index = 0 then t.size + (size - n.size) else t.size } := by
    rw [ht₁]
    split_ifs <;> rfl
  have hlinks : t₁.links = t.links :=
    (hwrite _).trans (map_write_same (fun n => (n.parent, n.child)) hn rfl)
  have hred : t₁.redAt = t.redAt :=
    redAt_congr ((hwrite _).trans (map_write_same (·.red) hn rfl))
  have hentry₁ : t₁.entry = Function.update t.entry a (some (content, size)) :=
    (hwrite _).trans (map_write (fun n => (n.content, n.size)) _)
  have hshaped₁ : t₁.Shaped index (plug (.node a l r) D) :=
    hshaped.congr hlinks (by rw [hrest]) (by rw [hrest])
  obtain ⟨t', T', red, b, ht', hrounds, hroot, hred', hrebalances⟩ :=
    TreeBalanceAfterAdd_rounds hshaped₁ (rootOf_node a l r)
  rw [hred] at hrounds
  rw [hsize] at hrest
  refine ⟨t₁, t', T', red, b, ?_, hentry₁, hrest, hrounds, hroot, hred', hrebalances⟩
  have hduplicates : ¬ t.allow_duplicates = true := by simp [hunique]
  rw [TreeAddByIndex, hcompare]
  simp only [hplace, hzero, hcurnode hzero, rootOf_node, hn, if_true, Option.bind_eq_bind,
    Option.bind_some]
  rw [if_neg hduplicates, ← ht₁, ht']
  rfl

/-- Where duplicates are allowed, a content with the same key is not added. -/
theorem TreeAddByIndex_duplicate
    {T S : BinaryTree Addr} {D : List (Frame Addr)}
    (hshaped : t.Shaped index T)
    (hcompare : t.compare index = some compare)
    (hsearch : search (t.compareAt compare (.inl content)) T [] = (S, D))
    (hfound : S ≠ .nil)
    (hduplicates : t.allow_duplicates = true) (size : UInt64) (newel : Option Addr) :
    t.TreeAddByIndex content size newel index = some (none, t) := by
  obtain ⟨place, hplace, _, hresult, _⟩ := searchPlace_root hshaped hsearch
  rw [TreeAddByIndex, hcompare]
  simp only [hplace, hresult.mpr hfound, if_true, Option.bind_eq_bind, Option.bind_some]
  rw [if_pos hduplicates]
  rfl

/-- Without memory a new key is not added. -/
theorem TreeAddByIndex_noMemory
    {T : BinaryTree Addr} {D : List (Frame Addr)}
    (hshaped : t.Shaped index T)
    (hcompare : t.compare index = some compare)
    (hsearch : search (t.compareAt compare (.inl content)) T [] = (.nil, D)) (size : UInt64) :
    t.TreeAddByIndex content size none index = some (none, t) := by
  obtain ⟨place, hplace, _, hresult, _⟩ := searchPlace_root hshaped hsearch
  have hne : place.result ≠ 0 := fun hzero => hresult.mp hzero rfl
  rw [TreeAddByIndex, hcompare]
  simp only [hplace, if_neg hne, Option.bind_eq_bind, Option.bind_some]
  rfl

/-! ### A new node -/

/-- The new node is hung at an empty place. -/
theorem hang_spec
    {D : List (Frame Addr)}
    (h : t.HoldsFrames none D)
    (hnodup : (around D).Nodup) (index : Fin 2) (newel : Addr) :
    ∃ t', t.hang index (parentAddr D) (sideOf D) newel = some t' ∧ t'.color = t.color ∧
      t'.HoldsFrames (some newel) D ∧ (∀ a, parentAddr D ≠ some a → t'.links a = t.links a) ∧
      t'.root = (if D = [] then Function.update t.root index (some newel) else t.root) ∧
      Reshapes t t' := by
  cases D with
  | nil =>
      exact ⟨t.setRoot index (some newel), rfl, rfl, trivial, fun _ _ => rfl, rfl, ⟨rfl, rfl⟩⟩
  | cons f D =>
      obtain ⟨t', ht', hcolor, hassigns⟩ := setChild_spec h.1 f.side (some newel)
      have hother : ∀ a, parentAddr (f :: D) ≠ some a → t'.links a = t.links a :=
        fun a ha => hassigns.links_of_ne fun heq => ha (congrArg some heq.symm)
      refine ⟨t', ht', hcolor, ?_, hother, ?_, hassigns.reshapes⟩
      · refine h.rehang hnodup ?_ fun a _ ha => hother a ha
        intro g E heq
        obtain ⟨rfl, rfl⟩ := List.cons.inj heq
        rw [hassigns.links_self, update_pointers_self]
      · rw [if_neg (List.cons_ne_nil f D), hassigns.root]

/-- A new node without children is hung at the empty place. -/
theorem hangNew_spec
    {D : List (Frame Addr)} {newel : Addr} {n : Node α}
    (h : t.Shaped index (plug .nil D))
    (haround : newel ∉ around D)
    (hparent : n.parent = parentAddr D)
    (hchild : n.child = fun _ => none) :
    ∃ t', ({ t with allocated := t.allocated + 1 }.write newel n).hang index (parentAddr D)
        (sideOf D) newel = some t' ∧
      t'.Shaped index (plug (.node newel .nil .nil) D) ∧
      t'.redAt = Function.update t.redAt newel n.red ∧
      Reshapes ({ t with allocated := t.allocated + 1 }.write newel n) t' := by
  have hperm := elements_plug_perm .nil D
  rw [elements_nil, List.nil_append] at hperm
  have hnodup : (around D).Nodup := hperm.nodup_iff.mp h.nodup
  have hpermnew : (elements (plug (.node newel .nil .nil) D)).Perm (newel :: around D) :=
    elements_plug_perm (.node newel .nil .nil) D
  set t₁ : Tree α κ := { t with allocated := t.allocated + 1 }.write newel n with ht₁
  have hlinks₁ : t₁.links = Function.update t.links newel (some (n.parent, n.child)) :=
    map_write (fun n => (n.parent, n.child)) n
  have hred₁ : t₁.redAt = Function.update t.redAt newel n.red :=
    redAt_update (map_write (·.red) n)
  have hheld : t₁.HoldsFrames none D := by
    refine (holdsTree_plug.mp h.holds).2.congr fun y hy => ?_
    have hother : y ≠ newel := fun heq => haround (heq ▸ hy)
    rw [hlinks₁, Function.update_of_ne hother]
  obtain ⟨t₂, ht₂, hcolor, hframes, hsame, hroot, hreshapes⟩ := hang_spec hheld hnodup index newel
  have hlinknew : t₂.links newel = some (parentAddr D, pointers LEFT none none) := by
    rw [hsame newel fun hin => haround (mem_around_of_parentAddr hin), hlinks₁,
      Function.update_self, hparent, hchild]
    congr 2
    funext which
    cases which <;> rfl
  refine ⟨t₂, ht₂, ⟨?_, ?_, ?_, ?_⟩, (redAt_congr hcolor).trans hred₁, hreshapes⟩
  · rw [hroot]
    cases D with
    | nil =>
        rw [if_pos rfl, Function.update_self, plug_nil, rootOf_node]
    | cons f D =>
        rw [if_neg (List.cons_ne_nil f D)]
        exact h.root.trans (rootOf_plug_cons _ _ f D)
  · exact holdsTree_plug.mpr ⟨⟨hlinknew, trivial, trivial⟩, hframes⟩
  · exact hpermnew.nodup_iff.mpr (List.nodup_cons.mpr ⟨haround, hnodup⟩)
  · rw [hpermnew.length_eq, List.length_cons, ← hperm.length_eq, hreshapes.allocated]
    exact Nat.succ_le_succ h.fits

/-- A new red node is hung where the search has ended, and the tree is balanced from there. -/
theorem TreeAddByIndex_absent
    {newel : Addr} {D : List (Frame Addr)}
    (hshaped : t.Shaped index (plug .nil D))
    (hcompare : t.compare index = some compare)
    (hsearch : search (t.compareAt compare (.inl content)) (plug .nil D) [] = (.nil, D))
    (hnew : t.node newel = none) (size : UInt64) :
    ∃ t₁ t' T' red b, t.TreeAddByIndex content size (some newel) index =
        some (some content, t') ∧
      t₁.entry = Function.update t.entry newel (some (content, size)) ∧
      t₁ = { t with
        node := t₁.node, root := t₁.root, allocated := t.allocated + 1,
        count := if index = 0 then t.count + 1 else t.count,
        size := if index = 0 then t.size + size else t.size } ∧
      AddRounds (Function.update t.redAt newel true) (.node newel .nil .nil) D T' red ∧
      rootOf T' = some b ∧ t'.redAt = Function.update red b false ∧
      Rebalances index (plug (.node newel .nil .nil) D) t₁ t' T' := by
  obtain ⟨place, hplace, _, hresult, hplaced⟩ := searchPlace_root hshaped hsearch
  have hne : place.result ≠ 0 := fun hzero => hresult.mp hzero rfl
  obtain ⟨hcurparent, hleft⟩ := hplaced hne
  have haround : newel ∉ around D := by
    intro hin
    obtain ⟨n, hn⟩ := hshaped.holds.exists_node ((elements_plug_perm .nil D).mem_iff.mpr hin)
    rw [hnew] at hn
    cases hn
  -- the memory with the new node
  set n : Node α :=
    { parent := parentAddr D, child := fun _ => none, content, size, red := true } with hn
  set t₀ : Tree α κ := { t with allocated := t.allocated + 1 }.write newel n with ht₀
  obtain ⟨t₂, ht₂, hshaped₂, hred₂, hreshapes⟩ :
      ∃ t', t₀.hang index (parentAddr D) (sideOf D) newel = some t' ∧
        t'.Shaped index (plug (.node newel .nil .nil) D) ∧
        t'.redAt = Function.update t.redAt newel true ∧ Reshapes t₀ t' :=
    hangNew_spec hshaped haround rfl rfl
  set t₁ : Tree α κ :=
    if index = 0 then { t₂ with count := t₂.count + 1, size := t₂.size + size } else t₂ with ht₁
  have hsame : t₁.node = t₂.node ∧ t₁.root = t₂.root ∧ t₁.allocated = t₂.allocated := by
    rw [ht₁]
    split_ifs <;> exact ⟨rfl, rfl, rfl⟩
  have hshaped₁ : t₁.Shaped index (plug (.node newel .nil .nil) D) :=
    hshaped₂.congr (by funext a; rw [links, links, hsame.1]) hsame.2.1 hsame.2.2
  have hentry₁ : t₁.entry = Function.update t.entry newel (some (content, size)) := by
    have hentry₂ : t₂.entry = Function.update t.entry newel (some (content, size)) :=
      hreshapes.entry.trans (map_write (fun n => (n.content, n.size)) n)
    rw [← hentry₂]
    funext a
    rw [entry, entry, hsame.1]
  have hred₁ : t₁.redAt = Function.update t.redAt newel true := by
    rw [← hred₂]
    refine redAt_congr ?_
    funext a
    rw [color, color, hsame.1]
  have hrest₁ : t₁ = { t with
      node := t₁.node, root := t₁.root, allocated := t.allocated + 1,
      count := if index = 0 then t.count + 1 else t.count,
      size := if index = 0 then t.size + size else t.size } := by
    rw [ht₁]
    split_ifs
    · rw [hreshapes.rest]
      rfl
    · exact hreshapes.rest
  obtain ⟨t', T', red, b, ht', hrounds, hroot, hred', hrebalances⟩ :=
    TreeBalanceAfterAdd_rounds hshaped₁ (rootOf_node newel .nil .nil)
  rw [hred₁] at hrounds
  refine ⟨t₁, t', T', red, b, ?_, hentry₁, hrest₁, hrounds, hroot, hred', hrebalances⟩
  rw [TreeAddByIndex, hcompare]
  simp only [hplace, hne, hcurparent, hleft, if_false, Option.bind_eq_bind, Option.bind_some]
  rw [← hn, ← ht₀, ht₂]
  simp only [Option.bind_some]
  rw [← ht₁, ht']
  rfl

end

end Tree
end PahoMqtt
