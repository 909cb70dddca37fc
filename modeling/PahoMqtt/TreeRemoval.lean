import PahoMqtt.TreeMap

/-!
# Removing a node

`TreeRemoveNodeIndex` takes out the node itself, or its successor after it has
given its content to the node.  Either way the content of the node is gone, and
the others are left in their order.
-/

namespace PahoMqtt
namespace Tree

open Lib.TreePlaces Lib.RedBlack

variable {α κ : Type}

section

variable {t : Tree α κ} {index : Fin 2}

/-- A node with one child at most is taken out, and its child comes to its place. -/
theorem unlink_spec
    {b : Addr} {x : BinaryTree Addr} {d : Bool} {E : List (Frame Addr)}
    (h : t.Shaped index (plug (join d b .nil x) E)) :
    ∃ t₁ t₂, t.setChildParent (rootOf x) (parentAddr E) = some t₁ ∧
      t₁.relink index (parentAddr E) LEFT b (rootOf x) = some t₂ ∧
      t₂.Shaped index (plug x E) ∧ t₂.redAt = t.redAt ∧ Reshapes t t₂ := by
  obtain ⟨hS, hE⟩ := holdsTree_plug.mp h.holds
  obtain ⟨_, _, hx⟩ := holdsTree_join.mp hS
  rw [rootOf_join] at hE
  have hperm : (elements (plug (join d b .nil x) E)).Perm (b :: (elements x ++ around E)) :=
    (elements_plug_perm _ E).trans ((elements_join_perm d b .nil x).append_right (around E))
  have hpermx := elements_plug_perm x E
  obtain ⟨hb, hnodup⟩ := List.nodup_cons.mp (hperm.nodup_iff.mp h.nodup)
  obtain ⟨hxnodup, hEnodup, hapart⟩ := List.nodup_append.mp hnodup
  obtain ⟨t₁, ht₁, hcolor₁, hx₁, hsame₁, hroot₁, hreshapes₁⟩ :=
    setChildParent_spec hx hxnodup (parentAddr E)
  have hE₁ : t₁.HoldsFrames (some b) E := by
    refine hE.congr fun y hy => hsame₁ y fun hroot => ?_
    exact hapart y (mem_elements_of_rootOf hroot) y hy rfl
  obtain ⟨t₂, ht₂, hcolor₂, hE₂, hsame₂, hroot₂, hreshapes₂⟩ :=
    relink_spec hE₁ (fun hin => hb (List.mem_append_right _ hin)) hEnodup index LEFT (rootOf x)
  refine ⟨t₁, t₂, ht₁, ht₂, ⟨?_, ?_, ?_, ?_⟩, redAt_congr (hcolor₂.trans hcolor₁),
    hreshapes₁.trans hreshapes₂⟩
  · rw [hroot₂]
    cases E with
    | nil =>
        rw [if_pos rfl, Function.update_self, plug_nil]
    | cons f E =>
        rw [if_neg (List.cons_ne_nil f E), hroot₁, h.root]
        exact rootOf_plug_cons _ _ f E
  · refine holdsTree_plug.mpr ⟨hx₁.congr fun y hy => hsame₂ y fun hparent => ?_, hE₂⟩
    exact hapart y hy y (mem_around_of_parentAddr hparent) rfl
  · exact hpermx.nodup_iff.mpr hnodup
  · have hfits := h.fits
    rw [hperm.length_eq, List.length_cons] at hfits
    rw [hpermx.length_eq, hreshapes₂.allocated, hreshapes₁.allocated]
    exact Nat.le_of_succ_le hfits

/-- The child of the node that is taken out. -/
theorem curchild_eq
    {n : Node α} {x : BinaryTree Addr} {d : Bool}
    (h : n.child = pointers d none (rootOf x)) :
    n.child (if (n.child LEFT).isSome then LEFT else RIGHT) = rootOf x := by
  rw [h]
  cases d with
  | false =>
      rfl
  | true =>
      cases hroot : rootOf x with
      | none => rfl
      | some c => rfl

/-- The balancing is right, whatever the colour of the node that was taken out. -/
theorem balanceAfterUnlink_spec
    {x : BinaryTree Addr} {E : List (Frame Addr)}
    (h : t.Shaped index (plug x E)) (red : Bool) :
    ∃ t' T', t.balanceAfterUnlink red (rootOf x) (parentAddr E) index = some t' ∧
      Rebalances index (plug x E) t t' T' ∧
      ((red = true → IsRedBlack t.redAt (plug x E)) → (red = false → Lacking t.redAt x E) →
        IsRedBlack t'.redAt T') := by
  cases red with
  | true =>
      exact ⟨t, _, rfl, h.rebalances, fun hred _ => hred rfl⟩
  | false =>
      have hrounds : ∀ cur, AtPlace cur x E →
          ∃ t' T', t.TreeBalanceAfterRemove cur index = some t' ∧
            Rebalances index (plug x E) t t' T' ∧
            ((false = true → IsRedBlack t.redAt (plug x E)) →
              (false = false → Lacking t.redAt x E) → IsRedBlack t'.redAt T') := by
        intro cur hcur
        obtain ⟨t', T', red, a, ht', hrounds, hred, hrebalances⟩ :=
          TreeBalanceAfterRemove_rounds h hcur
        refine ⟨t', T', ht', hrebalances, fun _ hlacking => ?_⟩
        rw [hred]
        exact hrounds.isRedBlack (hlacking rfl) h.nodup
      cases hroot : rootOf x with
      | some c =>
          exact hrounds (.node c) hroot
      | none =>
          obtain rfl := rootOf_eq_none.mp hroot
          cases hparent : parentAddr E with
          | some p =>
              exact hrounds (.temp p) ⟨rfl, hparent⟩
          | none =>
              refine ⟨t, _, rfl, h.rebalances, fun _ _ => ?_⟩
              cases E with
              | nil => exact ⟨rfl, trivial, 0, rfl⟩
              | cons f E => cases hparent

/-- The content of one node is copied to another one. -/
theorem copy_spec
    {T : BinaryTree Addr} {a : Addr} {n : Node α}
    (h : t.Shaped index T)
    (hn : t.node a = some n) (content : α) (size : UInt64) :
    (t.write a { n with content, size }).Shaped index T ∧
      (t.write a { n with content, size }).entry =
        Function.update t.entry a (some (content, size)) ∧
      (t.write a { n with content, size }).redAt = t.redAt := by
  refine ⟨h.congr ?_ rfl rfl, map_write (fun n => (n.content, n.size)) _,
    redAt_congr (map_write_same (·.red) hn rfl)⟩
  exact map_write_same (fun n => (n.parent, n.child)) hn rfl

/-- The node that is taken out is freed. -/
theorem free_spec
    {T : BinaryTree Addr} {b : Addr} {n : Node α}
    (h : t.Shaped index T)
    (hn : t.node b = some n)
    (hb : b ∉ elements T)
    (hfits : (elements T).length < t.allocated) :
    ∃ t', t.free b = some t' ∧ t'.Shaped index T ∧
      t'.entry = Function.update t.entry b none ∧ SameOn (elements T) t.redAt t'.redAt ∧
      t' = { t with node := t'.node, allocated := t.allocated - 1 } := by
  have hother : ∀ y ∈ elements T, y ≠ b := fun y hy heq => hb (heq ▸ hy)
  have hmap : ∀ {β : Type} (f : Node α → β),
      (fun y => (Function.update t.node b none y).map f) =
        Function.update (fun y => (t.node y).map f) b none := by
    intro β f
    funext y
    by_cases hy : y = b
    · subst hy
      rw [Function.update_self, Function.update_self]
      rfl
    · rw [Function.update_of_ne hy, Function.update_of_ne hy]
  refine ⟨{ t with node := Function.update t.node b none, allocated := t.allocated - 1 }, ?_,
    ⟨h.root, ?_, h.nodup, ?_⟩, hmap (fun n => (n.content, n.size)), ?_, rfl⟩
  · rw [free, hn]
    rfl
  · refine h.holds.congr fun y hy => ?_
    have hlinks := congrFun (hmap (fun n => (n.parent, n.child))) y
    exact hlinks.trans (Function.update_of_ne (hother y hy) _ _)
  · exact Nat.le_sub_one_of_lt hfits
  · intro y hy
    have hcolor := congrFun (hmap (·.red)) y
    exact congrArg (Option.getD · false) (hcolor.trans (Function.update_of_ne (hother y hy) _ _))

/-- A node is removed by taking out a node with one child at most. -/
theorem TreeRemoveNodeIndex_spec
    {a b : Addr} {x : BinaryTree Addr} {d : Bool} {E : List (Frame Addr)} {e : α × UInt64}
    (h : t.Shaped index (plug (join d b .nil x) E))
    (hentry : t.entry a = some e)
    (hredundant : t.redundantFor a = some b) :
    ∃ t' T', t.TreeRemoveNodeIndex a index = some (e.1, t') ∧ t'.Shaped index T' ∧
      elements T' = elements (plug x E) ∧
      t'.entry = Function.update (Function.update t.entry a (t.entry b)) b none ∧
      t' = { t with
        node := t'.node, root := t'.root, allocated := t.allocated - 1,
        size := if index = 0 then t.size - e.2 else t.size,
        count := if index = 0 then t.count - 1 else t.count } ∧
      (IsRedBlack t.redAt (plug (join d b .nil x) E) → IsRedBlack t'.redAt T') := by
  obtain ⟨n, hn, hcontent, hsize⟩ := exists_entry hentry
  obtain ⟨hS, _⟩ := holdsTree_plug.mp h.holds
  obtain ⟨hb, _, _⟩ := holdsTree_join.mp hS
  obtain ⟨r, hr, hparent, hchild⟩ := exists_node hb
  have hcurchild := curchild_eq hchild
  obtain ⟨t₁, t₂, ht₁, ht₂, hshaped₂, hred₂, hreshapes₂⟩ := unlink_spec h
  have hentryb : t.entry b = some (r.content, r.size) := by rw [Tree.entry, hr]; rfl
  have hentrya₂ : t₂.entry a = some e := by rw [hreshapes₂.entry, hentry]
  obtain ⟨n₂, hn₂, _, _⟩ := exists_entry hentrya₂
  -- the content is copied, unless the node is taken out itself
  obtain ⟨t₃, ht₃, hshaped₃, hentry₃, hred₃, hrest₃⟩ : ∃ t₃ : Tree α κ,
      (if b ≠ a then t₂.write a { n₂ with content := r.content, size := r.size } else t₂) = t₃ ∧
        t₃.Shaped index (plug x E) ∧ t₃.entry = Function.update t.entry a (t.entry b) ∧
        t₃.redAt = t₂.redAt ∧ t₃ = { t₂ with node := t₃.node } := by
    by_cases hba : b = a
    · refine ⟨t₂, if_neg (not_not_intro hba), hshaped₂, ?_, rfl, rfl⟩
      rw [hreshapes₂.entry, hba, Function.update_eq_self]
    · obtain ⟨hshaped, hentry, hred⟩ := copy_spec hshaped₂ hn₂ r.content r.size
      refine ⟨_, if_pos hba, hshaped, ?_, hred, rfl⟩
      rw [hentry, hreshapes₂.entry, hentryb]
  obtain ⟨t₄, T', ht₄, hrebalances₄, hbalanced₄⟩ := balanceAfterUnlink_spec hshaped₃ r.red
  have hperm : (elements (plug (join d b .nil x) E)).Perm (b :: (elements x ++ around E)) :=
    (elements_plug_perm _ E).trans ((elements_join_perm d b .nil x).append_right (around E))
  have hperm' : (elements T').Perm (elements x ++ around E) := by
    rw [hrebalances₄.order]
    exact elements_plug_perm x E
  have hnot : b ∉ elements T' := by
    rw [hperm'.mem_iff]
    exact (List.nodup_cons.mp (hperm.nodup_iff.mp h.nodup)).1
  have hentryb₄ : t₄.entry b = some (r.content, r.size) := by
    rw [hrebalances₄.reshapes.entry, hentry₃]
    by_cases hba : b = a
    · rw [hba, Function.update_self, ← hba, hentryb]
    · rw [Function.update_of_ne hba, hentryb]
  obtain ⟨nb₄, hnb₄, _, _⟩ := exists_entry hentryb₄
  have hallocated : t₄.allocated = t.allocated := by
    rw [hrebalances₄.reshapes.allocated, hrest₃]
    exact hreshapes₂.allocated
  obtain ⟨t₅, ht₅, hshaped₅, hentry₅, hred₅, hrest₅⟩ :=
    free_spec hrebalances₄.shaped hnb₄ hnot (by
      have hfits := h.fits
      rw [hperm.length_eq, List.length_cons, ← hperm'.length_eq] at hfits
      rw [hallocated]
      exact hfits)
  refine ⟨{ t₅ with
      size := if index = 0 then t₅.size - n.size else t₅.size,
      count := if index = 0 then t₅.count - 1 else t₅.count }, T', ?_,
    ⟨hshaped₅.root, hshaped₅.holds.congr fun _ _ => rfl, hshaped₅.nodup, hshaped₅.fits⟩,
    hrebalances₄.order, ?_, ?_, ?_⟩
  · rw [TreeRemoveNodeIndex, hn]
    simp only [hredundant, hr, hcurchild, hparent, ht₁, ht₂, hn₂, ht₃, ht₄, ht₅,
      Option.bind_eq_bind, Option.bind_some]
    rw [hcontent]
    by_cases hindex : index = 0
    · simp only [if_pos hindex]
      rfl
    · simp only [if_neg hindex]
      rfl
  · change t₅.entry = _
    rw [hentry₅, hrebalances₄.reshapes.entry, hentry₃]
  · rw [hrest₅, hrebalances₄.reshapes.rest, hrest₃, hreshapes₂.rest, hsize]
  · intro hbalanced
    have hrb : t.redAt b = r.red := redAt_of_color (by rw [color, hr]; rfl)
    rw [hred₃, hred₂] at hbalanced₄
    have hbalanced₅ : IsRedBlack t₄.redAt T' :=
      hbalanced₄ (fun hred => hbalanced.of_unlink (hrb.trans hred))
        fun hred => hbalanced.lacking_of_unlink (hrb.trans hred)
    exact hbalanced₅.congr hred₅

/-- The place of the node that is taken out for the node `a`. -/
theorem exists_redundant
    {T : BinaryTree Addr} {a : Addr} {N₁ N₂ : List Addr}
    (h : t.Shaped index T)
    (hN : elements T = N₁ ++ a :: N₂) :
    ∃ b d x E, t.redundantFor a = some b ∧ T = plug (join d b .nil x) E ∧
      ((b = a ∧ elements (plug x E) = N₁ ++ N₂) ∨
        ∃ N₃, b ≠ a ∧ N₂ = b :: N₃ ∧ elements (plug x E) = N₁ ++ a :: N₃) := by
  have hnodup := h.nodup
  obtain ⟨l, r, C, rfl, rfl, rfl⟩ := exists_plug_of_eq hN hnodup
  rw [hN, List.nodup_middle, List.nodup_cons, List.mem_append, not_or] at hnodup
  obtain ⟨⟨ha, _, _⟩, _⟩ := holdsTree_plug.mp h.holds
  obtain ⟨n, hn, _, hchild⟩ := exists_node ha
  have hleft : n.child LEFT = rootOf l := by rw [hchild, pointers_self]
  have hright : n.child RIGHT = rootOf r := by
    rw [hchild, show RIGHT = !LEFT from rfl, pointers_other]
  have hredundant : t.redundantFor a =
      if (rootOf l).isSome && (rootOf r).isSome then (t.TreeSuccessor a).bind id else some a := by
    rw [redundantFor, hn]
    simp only [hleft, hright, Option.bind_eq_bind, Option.bind_some]
    rfl
  cases hl : rootOf l with
  | none =>
      obtain rfl := rootOf_eq_none.mp hl
      refine ⟨a, LEFT, r, C, ?_, rfl, .inl ⟨rfl, ?_⟩⟩
      · rw [hredundant]
        rfl
      · rw [elements_plug, elements_nil, List.append_nil, List.append_assoc]
  | some c =>
      cases r with
      | nil =>
          refine ⟨a, RIGHT, l, C, ?_, rfl, .inl ⟨rfl, ?_⟩⟩
          · rw [hredundant, hl]
            rfl
          · rw [elements_plug, elements_nil, List.nil_append]
      | node a' l' r' =>
          obtain ⟨b, x, D, hplug, helements, hbefore⟩ :=
            exists_leftmost a' l' r' (⟨RIGHT, a, l⟩ :: C)
          refine ⟨b, LEFT, x, D ++ ⟨RIGHT, a, l⟩ :: C, ?_, hplug, .inr
            ⟨elements x ++ after D ++ after C, ?_, ?_, ?_⟩⟩
          · rw [hredundant, hl, rootOf_node, TreeSuccessor_spec h, helements]
            rfl
          · rintro rfl
            refine hnodup.1.2 (List.mem_append_left _ ?_)
            rw [helements]
            exact List.mem_cons_self
          · rw [helements, List.cons_append]
          · rw [elements_plug, before_append, hbefore, after_append]
            simp [before, after]

end

section

variable [LinearOrder κ] {key : α → κ} {compare : α → α ⊕ κ → Int}
variable {t : Tree α κ} {N₁ N₂ : List (Addr × (α × UInt64))}

/-- One content less is kept. -/
theorem Consists.removed
    {t' : Tree α κ} {N : List (Addr × (α × UInt64))} {a : Addr} {e : α × UInt64}
    (h : Consists key compare t (N₁ ++ (a, e) :: N₂))
    (hshape : ∃ T, t'.Shaped 0 T ∧ elements T = N.map Prod.fst)
    (hentry : Graph t'.entry N)
    (hcontents : N.map Prod.snd = (N₁ ++ N₂).map Prod.snd)
    (hrest : t' = { t with
      node := t'.node, root := t'.root, allocated := t.allocated - 1,
      size := t.size - e.2, count := t.count - 1 }) :
    Consists key compare t' N := by
  have hlength : N.length = (N₁ ++ N₂).length := by
    have hmap := congrArg List.length hcontents
    rwa [List.length_map, List.length_map] at hmap
  have hlengths : (N₁ ++ (a, e) :: N₂).length = N.length + 1 := by
    rw [hlength, List.length_append, List.length_append, List.length_cons, Nat.add_assoc]
  have htotal : totalSize N = totalSize (N₁ ++ N₂) := by
    have hmap := congrArg (fun es : List (α × UInt64) => (es.map (fun e => e.2.toNat)).sum) hcontents
    simpa only [totalSize, List.map_map, Function.comp_def] using hmap
  have hkeys : N.map (fun e => key e.2.1) = (N₁ ++ N₂).map (fun e => key e.2.1) := by
    have hmap := congrArg (List.map (fun e : α × UInt64 => key e.1)) hcontents
    simpa only [List.map_map, Function.comp_def] using hmap
  refine ⟨⟨hentry, ?_, ?_, ?_, ?_, ?_, ?_, ?_⟩, hshape⟩
  · rw [hkeys]
    refine h.sorted.sublist (List.Sublist.map _ ?_)
    exact (List.Sublist.refl N₁).append (List.sublist_cons_self _ _)
  · rw [hrest]
    change t.allocated - 1 = _
    rw [h.allocated, hlengths, Nat.add_sub_cancel]
  · rw [hrest]
    exact h.compare
  · rw [hrest]
    exact h.indexes
  · rw [hrest]
    exact h.unique
  · rw [hrest]
    change t.count - 1 = _
    rw [h.count, hlengths]
    exact (congrArg (· - 1) (Int32.ofNat_add N.length 1)).trans (Int32.add_sub_cancel _ 1)
  · rw [hrest]
    change t.size - e.2 = _
    rw [h.size, totalSize_middle, htotal, UInt64.ofNat_add, UInt64.ofNat_toNat,
      UInt64.add_sub_cancel]

/-- After the removal of a node the contents of the others are left in their order. -/
theorem Consists.remove
    {a : Addr} {e : α × UInt64}
    (h : Consists key compare t (N₁ ++ (a, e) :: N₂)) :
    ∃ t' N, t.TreeRemoveNodeIndex a 0 = some (e.1, t') ∧ Consists key compare t' N ∧
      N.map Prod.snd = (N₁ ++ N₂).map Prod.snd := by
  obtain ⟨T, hshaped, helements⟩ := h.shape
  rw [List.map_append, List.map_cons] at helements
  obtain ⟨b, d, x, E, hredundant, rfl, hcases⟩ := exists_redundant hshaped helements
  obtain ⟨t', T', ht', hshaped', horder, hentry, hrest, _⟩ :=
    TreeRemoveNodeIndex_spec hshaped h.entry.apply hredundant
  rcases hcases with ⟨rfl, hleft⟩ | ⟨M, hba, hM, hleft⟩
  · -- the node itself is taken out
    refine ⟨t', N₁ ++ N₂, ht', h.removed ⟨T', hshaped', ?_⟩ ?_ rfl hrest, rfl⟩
    · rw [horder, hleft, List.map_append]
    · rw [hentry, Function.update_idem]
      exact h.entry.erase h.nodup
  · -- the successor is taken out, and its content is in the node
    obtain ⟨⟨b', e'⟩, N₃, rfl, rfl, rfl⟩ := List.map_eq_cons_iff.mp hM
    have hcontents : (N₁ ++ (a, e') :: N₃).map Prod.snd =
        (N₁ ++ (b', e') :: N₃).map Prod.snd := by
      simp only [List.map_append, List.map_cons]
    have hsplit : N₁ ++ (a, e) :: (b', e') :: N₃ = (N₁ ++ [(a, e)]) ++ (b', e') :: N₃ := by
      rw [List.append_assoc]
      rfl
    have hgraph := h.entry
    have hnodup := h.nodup
    rw [hsplit] at hgraph hnodup
    have herased := hgraph.erase hnodup
    have hnodup' : ((N₁ ++ (a, e) :: N₃).map Prod.fst).Nodup := by
      refine h.nodup.sublist (List.Sublist.map _ ?_)
      exact (List.Sublist.refl N₁).append ((List.sublist_cons_self _ _).cons_cons _)
    rw [List.append_assoc] at herased
    refine ⟨t', N₁ ++ (a, e') :: N₃, ht', h.removed ⟨T', hshaped', ?_⟩ ?_ hcontents hrest,
      hcontents⟩
    · rw [horder, hleft, List.map_append, List.map_cons]
    · rw [hentry, Function.update_comm (Ne.symm hba), hgraph.apply]
      exact Graph.replace herased hnodup' e'

end

end Tree
end PahoMqtt
