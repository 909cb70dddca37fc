import PahoMqtt.Lib.Runs
import PahoMqtt.TreeRemoval

/-!
# Runs of a tree

In every run of operations on a tree with one index the tree is a finite map from
keys to contents: it is in order, finds what was added last, counts the keys and
the sizes, and passes through its contents in the order of their keys.
-/

namespace PahoMqtt

/-- An operation; `newel` is what `malloc` returns for a new node. -/
inductive TreeOperation (α κ : Type) where
  | add (content : α) (size : UInt64) (newel : Option Addr)
  | remove (content : α)
  | removeKey (key : κ)
  | removeNode (node : Addr)

namespace Tree

open Lib.TreePlaces

variable {α κ : Type}

/-- The operation, with the content that it returns. -/
def exec (t : Tree α κ) : TreeOperation α κ → Option (Option α × Tree α κ)
  | .add content size newel => t.TreeAdd content size (fun _ => newel)
  | .remove content => t.TreeRemove content
  | .removeKey key => t.TreeRemoveKey key
  | .removeNode node => do
      let (content, t) ← t.TreeRemoveNodeIndex node 0
      pure (some content, t)

/-- `malloc` returns memory that is not in use; a node that is removed is one of the tree. -/
def Admissible (t : Tree α κ) : TreeOperation α κ → Prop
  | .add _ _ (some newel) => t.node newel = none
  | .removeNode node => t.node node ≠ none
  | _ => True

def Step (t : Tree α κ) (op : TreeOperation α κ) (t' : Tree α κ) : Prop :=
  t.Admissible op ∧ ∃ rc, t.exec op = some (rc, t')

/-- A run of a tree. -/
abbrev TreeRun (α κ : Type) := List (Lib.Transition (Tree α κ) (TreeOperation α κ))

/-- What an operation does to a finite map; a key that is new needs memory. -/
def nextContents [DecidableEq κ] (key : α → κ) (m : κ → Option (α × UInt64))
    (x : Lib.Transition (Tree α κ) (TreeOperation α κ)) : κ → Option (α × UInt64) :=
  match x.event with
  | .add content size newel =>
      if newel = none ∧ m (key content) = none then m
      else Function.update m (key content) (some (content, size))
  | .remove content => Function.update m (key content) none
  | .removeKey k => Function.update m k none
  | .removeNode node =>
      match x.pre.entry node with
      | none => m
      | some e => Function.update m (key e.1) none

/-- The content that was added last for each key and was not removed since. -/
def lastAdded [DecidableEq κ] (key : α → κ) (tr : TreeRun α κ) : κ → Option (α × UInt64) :=
  tr.foldl (nextContents key) (fun _ => none)

/-- `TreeNextElement` returns these nodes one after the other, and then NULL. -/
inductive Visits (t : Tree α κ) : Option Addr → List Addr → Prop
  | done {curnode : Option Addr}
      (hnext : t.TreeNextElement curnode = some none) :
      Visits t curnode []
  | visit {curnode : Option Addr} {a : Addr} {nodes : List Addr}
      (hnext : t.TreeNextElement curnode = some (some a))
      (hrest : Visits t (some a) nodes) :
      Visits t curnode (a :: nodes)

/-- The nodes with their keys instead of their places. -/
def keyed (key : α → κ) (N : List (Addr × (α × UInt64))) : List (κ × (α × UInt64)) :=
  N.map (fun e => (key e.2.1, e.2))

/--
The tree is the finite map `m`, which it keeps in these nodes: they are the nodes of
the tree in order, with ascending keys and these contents, and are passed through in
this order; a key is found with what the map has for it; `count` is the number of the
keys and `size` the sum of the sizes, as far as their types hold them.
-/
structure IsMap [LinearOrder κ] (key : α → κ) (t : Tree α κ) (m : κ → Option (α × UInt64))
    (N : List (Addr × (α × UInt64))) : Prop where
  sorted : (N.map (fun e => key e.2.1)).Pairwise (· < ·)
  traversal : ∃ T, t.Shaped 0 T ∧ elements T = N.map Prod.fst
  contents : Graph t.entry N
  map : Graph m (keyed key N)
  find : ∀ k, ∃ curnode, t.TreeFind k = some curnode ∧ curnode.bind t.entry = m k
  count : t.count = Int32.ofNat N.length
  size : t.size = UInt64.ofNat (totalSize N)
  iteration : t.Visits none (N.map Prod.fst)

/-! ### Iterating -/

section

variable {t : Tree α κ} {T : BinaryTree Addr} {xs ys : List Addr}

theorem TreeNextElement_spec
    (h : t.Shaped 0 T)
    (hsplit : elements T = xs ++ ys) :
    t.TreeNextElement xs.getLast? = some ys.head? := by
  rcases List.eq_nil_or_concat xs with rfl | ⟨xs, a, rfl⟩
  · have hminimum := TreeMinimum_spec h.holds h.fits
    rw [← h.root, hsplit] at hminimum
    exact hminimum
  · have hmiddle : elements T = xs ++ a :: ys := by
      rw [hsplit, List.concat_eq_append, List.append_assoc]
      rfl
    obtain ⟨l, r, C, rfl, _, hys⟩ := exists_plug_of_eq hmiddle h.nodup
    rw [List.concat_eq_append, List.getLast?_concat, hys]
    exact TreeSuccessor_spec h

/-- The nodes are visited in order, from any of them on. -/
theorem visits_of_split
    (h : t.Shaped 0 T)
    (hsplit : elements T = xs ++ ys) :
    t.Visits xs.getLast? ys := by
  induction ys generalizing xs with
  | nil =>
      exact .done (TreeNextElement_spec h hsplit)
  | cons a ys ih =>
      have hnext : elements T = (xs ++ [a]) ++ ys := by
        rw [hsplit, List.append_assoc]
        rfl
      have hrest : t.Visits (xs ++ [a]).getLast? ys := ih hnext
      rw [List.getLast?_concat] at hrest
      exact .visit (TreeNextElement_spec h hsplit) hrest

end

/-! ### One index -/

section

variable {t : Tree α κ}

/-- A loop over the indexes of a tree with one index. -/
theorem foldlM_indexes
    {β : Type}
    (h : t.indexes = 1) (f : β → Fin 2 → Option β) (b : β) :
    ((List.finRange 2).take t.indexes).foldlM f b = f b 0 := by
  rw [h]
  exact bind_pure (f b 0)

theorem TreeAdd_eq
    (h : t.indexes = 1) (content : α) (size : UInt64) (newel : Fin 2 → Option Addr) :
    t.TreeAdd content size newel = t.TreeAddByIndex content size (newel 0) 0 :=
  foldlM_indexes h _ _

theorem TreeRemove_eq
    (h : t.indexes = 1) (content : α) :
    t.TreeRemove content = t.TreeRemoveIndex content 0 :=
  foldlM_indexes h _ _

end

/-! ### What an operation does -/

section

variable [LinearOrder κ] {key : α → κ} {compare : α → α ⊕ κ → Int}
variable {t : Tree α κ} {m : κ → Option (α × UInt64)} {N N₁ N₂ : List (Addr × (α × UInt64))}

omit [LinearOrder κ] in
theorem keyed_eq_of_contents
    (h : N.map Prod.snd = N₁.map Prod.snd) :
    keyed key N = keyed key N₁ := by
  have hmap := congrArg (List.map (fun e : α × UInt64 => (key e.1, e))) h
  simpa only [keyed, List.map_map, Function.comp_def] using hmap

omit [LinearOrder κ] in
theorem keyed_append
    (N₁ N₂ : List (Addr × (α × UInt64))) :
    keyed key (N₁ ++ N₂) = keyed key N₁ ++ keyed key N₂ :=
  List.map_append

theorem Consists.keyed_nodup
    (h : Consists key compare t N) :
    ((keyed key N).map Prod.fst).Nodup := by
  rw [keyed, List.map_map]
  exact h.sorted.imp ne_of_lt

omit [LinearOrder κ] in
theorem Graph.none_of_key
    {k : κ}
    (h : Graph m (keyed key N))
    (hkey : ∀ e ∈ N, key e.2.1 ≠ k) :
    m k = none := by
  cases hm : m k with
  | none =>
      rfl
  | some e =>
      obtain ⟨e', he', heq⟩ := List.mem_map.mp ((h k e).mp hm)
      exact absurd (Prod.mk.inj heq).1 (hkey e' he')

/-- Without memory a new key is not added. -/
theorem TreeAddByIndex_none
    {content : α}
    (h : Consists key compare t N)
    (hcompare : Compares key compare)
    (hkey : ∀ e ∈ N, key e.2.1 ≠ key content) (size : UInt64) :
    t.TreeAddByIndex content size none 0 = some (none, t) := by
  obtain ⟨T, S, D, hshaped, helements, hsearch, rfl, hend⟩ := h.search hcompare (.inl content)
  obtain rfl : S = .nil := by
    rcases hend with ⟨b, l, r, N₁, N₂, e, _, rfl, hsame⟩ | ⟨_, _, hnil, _⟩
    · exact absurd hsame (hkey _ (List.mem_append_right _ List.mem_cons_self))
    · exact hnil
  exact TreeAddByIndex_noMemory hshaped h.compare hsearch size

/-- The key that a node has is removed with it. -/
theorem Consists.removeNode
    {a : Addr} {e : α × UInt64}
    (h : Consists key compare t (N₁ ++ (a, e) :: N₂))
    (hm : Graph m (keyed key (N₁ ++ (a, e) :: N₂))) :
    ∃ t' N, t.TreeRemoveNodeIndex a 0 = some (e.1, t') ∧ Consists key compare t' N ∧
      Graph (Function.update m (key e.1) none) (keyed key N) := by
  obtain ⟨t', N, ht', hconsists, hcontents⟩ := h.remove
  refine ⟨t', N, ht', hconsists, ?_⟩
  have hnodup := h.keyed_nodup
  rw [keyed_append] at hm hnodup
  rw [keyed_eq_of_contents hcontents, keyed_append]
  exact hm.erase hnodup

theorem TreeAdd_spec
    {content : α} {newel : Option Addr}
    (h : Consists key compare t N)
    (hcompare : Compares key compare)
    (hm : Graph m (keyed key N))
    (hnew : ∀ a, newel = some a → t.node a = none) (size : UInt64) :
    ∃ rc t' N', t.TreeAdd content size (fun _ => newel) = some (rc, t') ∧
      Consists key compare t' N' ∧
      Graph (if newel = none ∧ m (key content) = none then m
        else Function.update m (key content) (some (content, size))) (keyed key N') := by
  rw [TreeAdd_eq h.indexes]
  rcases h.find hcompare (.inl content) with ⟨N₁, N₂, a, e, rfl, hkey, _⟩ | ⟨hkey, _⟩
  · have hkey : key e.1 = key content := hkey
    obtain ⟨t', ht', hconsists⟩ := TreeAddByIndex_replace h hcompare hkey size newel
    refine ⟨_, t', _, ht', hconsists, ?_⟩
    have hnodup := h.keyed_nodup
    rw [keyed_append] at hm hnodup ⊢
    have hsome : m (key e.1) = some e := hm.apply
    rw [if_neg fun hnone => by rw [← hkey, hsome] at hnone; cases hnone.2]
    have hreplace := hm.replace hnodup (content, size)
    rw [hkey] at hreplace
    exact hreplace
  · have hnone : m (key content) = none := hm.none_of_key hkey
    cases newel with
    | none =>
        rw [if_pos ⟨rfl, hnone⟩]
        exact ⟨none, t, N, TreeAddByIndex_none h hcompare hkey size, h, hm⟩
    | some newel =>
        obtain ⟨t', N₁, N₂, rfl, ht', hconsists⟩ :=
          TreeAddByIndex_new h hcompare hkey (hnew newel rfl) size
        rw [if_neg fun hnone => by cases hnone.1]
        refine ⟨_, t', _, ht', hconsists, ?_⟩
        rw [keyed_append] at hm ⊢
        exact hm.insert hnone (content, size)

/-- What `TreeRemove` and `TreeRemoveKey` do when they have searched. -/
theorem remove_found
    (h : Consists key compare t N)
    (hcompare : Compares key compare)
    (hm : Graph m (keyed key N)) (target : α ⊕ κ) :
    (t.TreeFindIndex1 target 0 = some none ∧ m (targetKey key target) = none) ∨
      ∃ a content t' N', t.TreeFindIndex1 target 0 = some (some a) ∧
        t.TreeRemoveNodeIndex a 0 = some (content, t') ∧ t'.indexes = 1 ∧
        Consists key compare t' N' ∧
        Graph (Function.update m (targetKey key target) none) (keyed key N') := by
  rcases h.find hcompare target with ⟨N₁, N₂, a, e, rfl, hkey, hfind⟩ | ⟨hkey, hfind⟩
  · right
    obtain ⟨t', N, ht', hconsists, hmap⟩ := h.removeNode hm
    rw [hkey] at hmap
    exact ⟨a, e.1, t', N, hfind, ht', hconsists.indexes, hconsists, hmap⟩
  · exact .inl ⟨hfind, hm.none_of_key hkey⟩

/-- Every operation works, and does to the tree what it does to the map. -/
theorem exec_spec
    {op : TreeOperation α κ}
    (h : Consists key compare t N)
    (hcompare : Compares key compare)
    (hm : Graph m (keyed key N))
    (hop : t.Admissible op) :
    ∃ rc t' N', t.exec op = some (rc, t') ∧ Consists key compare t' N' ∧
      ∀ u, Graph (nextContents key m ⟨t, op, u⟩) (keyed key N') := by
  cases op with
  | add content size newel =>
      have hnew : ∀ a, newel = some a → t.node a = none := by
        rintro a rfl
        exact hop
      obtain ⟨rc, t', N', hadd, hconsists, hmap⟩ := TreeAdd_spec h hcompare hm hnew size
      exact ⟨rc, t', N', hadd, hconsists, fun _ => hmap⟩
  | remove content =>
      have hexec : t.exec (.remove content) = t.TreeRemoveIndex content 0 :=
        TreeRemove_eq h.indexes content
      rw [hexec, TreeRemoveIndex, TreeFindContentIndex]
      rcases remove_found h hcompare hm (.inl content) with
        ⟨hfind, hnone⟩ | ⟨a, old, t', N', hfind, hremove, _, hconsists, hmap⟩
      · rw [hfind]
        refine ⟨none, t, N, rfl, h, fun _ => ?_⟩
        change Graph (Function.update m (key content) none) _
        rw [Function.update_eq_self_iff.mpr hnone.symm]
        exact hm
      · rw [hfind]
        refine ⟨some old, t', N', ?_, hconsists, fun _ => hmap⟩
        simp only [hremove, Option.bind_eq_bind, Option.bind_some]
        rfl
  | removeKey k =>
      have hexec : t.exec (.removeKey k) = t.TreeRemoveKeyIndex k 0 := rfl
      rw [hexec, TreeRemoveKeyIndex, TreeFindIndex]
      rcases remove_found h hcompare hm (.inr k) with
        ⟨hfind, hnone⟩ | ⟨a, old, t', N', hfind, hremove, hindexes, hconsists, hmap⟩
      · rw [hfind]
        refine ⟨none, t, N, rfl, h, fun _ => ?_⟩
        change Graph (Function.update m k none) _
        rw [Function.update_eq_self_iff.mpr hnone.symm]
        exact hm
      · rw [hfind]
        refine ⟨some old, t', N', ?_, hconsists, fun _ => hmap⟩
        simp only [hremove, Option.bind_eq_bind, Option.bind_some]
        exact foldlM_indexes hindexes _ _
  | removeNode node =>
      cases hnode : t.node node with
      | none =>
          exact absurd hnode hop
      | some n =>
          have hentry : t.entry node = some (n.content, n.size) := by
            rw [Tree.entry, hnode]
            rfl
          obtain ⟨N₁, N₂, rfl⟩ := List.append_of_mem ((h.entry _ _).mp hentry)
          obtain ⟨t', N', hremove, hconsists, hmap⟩ := h.removeNode hm
          refine ⟨some n.content, t', N', ?_, hconsists, fun u => ?_⟩
          · rw [exec, hremove]
            rfl
          · have hnext : nextContents key m ⟨t, .removeNode node, u⟩ =
                Function.update m (key n.content) none := by
              simp only [nextContents, hentry]
            rw [hnext]
            exact hmap

/-! ### Runs -/

/-- A tree that consists of nodes is the finite map of their contents. -/
theorem Consists.isMap
    (h : Consists key compare t N)
    (hcompare : Compares key compare)
    (hm : Graph m (keyed key N)) :
    IsMap key t m N := by
  refine ⟨h.sorted, h.shape, h.entry, hm, ?_, h.count, h.size, ?_⟩
  · intro k
    rcases h.find hcompare (.inr k) with ⟨N₁, N₂, a, e, rfl, hkey, hfind⟩ | ⟨hkey, hfind⟩
    · refine ⟨some a, hfind, ?_⟩
      have hkey : key e.1 = k := hkey
      rw [keyed_append] at hm
      have hsome : m (key e.1) = some e := hm.apply
      rw [← hkey, hsome]
      exact h.entry.apply
    · exact ⟨none, hfind, (hm.none_of_key hkey).symm⟩
  · obtain ⟨T, hshaped, helements⟩ := h.shape
    rw [← helements]
    exact visits_of_split hshaped (List.nil_append (elements T)).symm

end

/--
In every run the tree is the map of what was added last, and an operation on the
tree that is reached works.
-/
theorem run_isMap
    [LinearOrder κ] {key : α → κ} {compare : α → α ⊕ κ → Int} {t : Tree α κ} {tr : TreeRun α κ}
    (hcompare : Compares key compare)
    (hrun : Lib.Runs Step (TreeInitialize compare) tr t) :
    (∃ N, IsMap key t (lastAdded key tr) N) ∧
      ∀ op, t.Admissible op → ∃ rc t', t.exec op = some (rc, t') := by
  obtain ⟨N, hconsists, hmap⟩ :
      ∃ N, Consists key compare t N ∧ Graph (lastAdded key tr) (keyed key N) := by
    have hstart : Graph (lastAdded key []) (keyed (α := α) key []) := fun _ _ =>
      iff_of_false (by simp [lastAdded]) List.not_mem_nil
    refine (hrun.history_of
      (I := fun tr t => ∃ N, Consists key compare t N ∧ Graph (lastAdded key tr) (keyed key N))
      (C := fun _ _ => True) ?_ ⟨[], consists_initialize key compare, hstart⟩
      (fun _ _ => trivial)).2
    · rintro tr t op t' ⟨N, hconsists, hmap⟩ - ⟨hop, rc, hexec⟩
      obtain ⟨rc', u, N', hexec', hconsists', hmap'⟩ := exec_spec hconsists hcompare hmap hop
      rw [hexec] at hexec'
      obtain ⟨_, rfl⟩ := Prod.mk.inj (Option.some.inj hexec')
      refine ⟨N', hconsists', ?_⟩
      rw [lastAdded, List.foldl_append]
      exact hmap' t'
  refine ⟨⟨N, hconsists.isMap hcompare hmap⟩, fun op hop => ?_⟩
  obtain ⟨rc, t', _, hexec, _⟩ := exec_spec hconsists hcompare hmap hop
  exact ⟨rc, t', hexec⟩

/-- Two keys are added, and the first one is removed. -/
theorem added_removed_isMap :
    ∃ (tr : TreeRun Int Int) (t : Tree Int Int),
      Lib.Runs Step (TreeInitialize TreeIntCompare) tr t ∧ t.size = 8 ∧
      lastAdded id tr 5 = none ∧ lastAdded id tr 3 = some (3, 8) ∧
      (∃ N, IsMap id t (lastAdded id tr) N) ∧
      ∃ rc t', t.exec (.add 7 2 (some 102)) = some (rc, t') := by
  obtain ⟨tr, t, hrun, hsize, hnew, hremoved, hkept⟩ :
      ∃ (tr : TreeRun Int Int) (t : Tree Int Int),
        Lib.Runs Step (TreeInitialize TreeIntCompare) tr t ∧ t.size = 8 ∧ t.node 102 = none ∧
        lastAdded id tr 5 = none ∧ lastAdded id tr 3 = some (3, 8) :=
    ⟨[⟨_, .add 5 4 (some 100), _⟩, ⟨_, .add 3 8 (some 101), _⟩, ⟨_, .removeKey 5, _⟩], _,
      .cons ⟨rfl, some 5, rfl⟩ (.cons ⟨rfl, some 3, rfl⟩
        (.cons ⟨trivial, some 5, rfl⟩ (.nil _))), rfl, rfl, rfl, rfl⟩
  obtain ⟨hmap, hexec⟩ := run_isMap compares_int hrun
  exact ⟨tr, t, hrun, hsize, hremoved, hkept, hmap, hexec _ hnew⟩

end Tree
end PahoMqtt
