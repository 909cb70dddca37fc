import PahoMqtt.Lib.Runs
import PahoMqtt.TreeAdding

/-!
# A tree is a finite map

A tree with one index and without duplicates keeps for each key the content that
was added last.  The tree is described by its nodes in order, each with its
content and the size of that; every operation is an operation on this list.
-/

namespace PahoMqtt
namespace Tree

open Lib.TreePlaces

variable {α κ : Type}

/-- The key of what a content is compared with. -/
def targetKey (key : α → κ) : α ⊕ κ → κ
  | .inl content => key content
  | .inr k => k

/-- A comparison is positive where the content has the smaller key, and 0 for the same key. -/
structure Compares [LinearOrder κ] (key : α → κ) (compare : α → α ⊕ κ → Int) : Prop where
  pos : ∀ a b, compare a b > 0 ↔ key a < targetKey key b
  zero : ∀ a b, compare a b = 0 ↔ key a = targetKey key b

theorem compares_int :
    Compares id TreeIntCompare := by
  have hkey : ∀ b : Int ⊕ Int, targetKey id b = b.elim id id := by
    intro b
    cases b <;> rfl
  constructor
  · intro a b
    rw [hkey, TreeIntCompare, id_eq]
    generalize b.elim id id = j
    split_ifs <;> omega
  · intro a b
    rw [hkey, TreeIntCompare, id_eq]
    generalize b.elim id id = j
    split_ifs with hgt heq
    · exact iff_of_false (by decide) (ne_of_gt hgt)
    · exact iff_of_true rfl heq
    · exact iff_of_false (by decide) heq

/-! ### The nodes of a tree -/

/-- The function has the values of the list, and no others. -/
def Graph {ι β : Type} (f : ι → Option β) (N : List (ι × β)) : Prop :=
  ∀ a e, f a = some e ↔ (a, e) ∈ N

section

variable {ι β : Type} [DecidableEq ι] {f : ι → Option β} {N₁ N₂ : List (ι × β)} {a : ι} {e : β}

theorem Graph.insert
    (h : Graph f (N₁ ++ N₂))
    (hnew : f a = none) (e : β) :
    Graph (Function.update f a (some e)) (N₁ ++ (a, e) :: N₂) := by
  intro y e'
  rw [List.perm_middle.mem_iff, List.mem_cons, Prod.mk.injEq, ← h y e']
  by_cases hy : y = a
  · subst hy
    rw [Function.update_self, hnew]
    simp [eq_comm]
  · simp [hy]

theorem Graph.erase
    (h : Graph f (N₁ ++ (a, e) :: N₂))
    (hnodup : ((N₁ ++ (a, e) :: N₂).map Prod.fst).Nodup) :
    Graph (Function.update f a none) (N₁ ++ N₂) := by
  have hperm := (List.perm_middle.map Prod.fst).nodup_iff.mp hnodup
  rw [List.map_cons, List.nodup_cons] at hperm
  intro y e'
  by_cases hy : y = a
  · subst hy
    rw [Function.update_self]
    exact iff_of_false (by simp) fun hin =>
      hperm.1 (List.mem_map.mpr ⟨(y, e'), hin, rfl⟩)
  · rw [Function.update_of_ne hy, h y e', List.perm_middle.mem_iff, List.mem_cons,
      Prod.mk.injEq]
    exact ⟨fun hin => hin.resolve_left fun heq => hy heq.1, .inr⟩

/-- Another value for a node. -/
theorem Graph.replace
    (h : Graph f (N₁ ++ (a, e) :: N₂))
    (hnodup : ((N₁ ++ (a, e) :: N₂).map Prod.fst).Nodup) (e' : β) :
    Graph (Function.update f a (some e')) (N₁ ++ (a, e') :: N₂) := by
  have hinsert := (h.erase hnodup).insert (Function.update_self a none f) e'
  rwa [Function.update_idem] at hinsert

omit [DecidableEq ι] in
theorem Graph.apply
    (h : Graph f (N₁ ++ (a, e) :: N₂)) :
    f a = some e :=
  (h a e).mpr (List.mem_append_right _ List.mem_cons_self)

end

/-- What the sizes add up to. -/
def totalSize (N : List (Addr × (α × UInt64))) : Nat :=
  (N.map (fun e => e.2.2.toNat)).sum

/-- The nodes have these contents, with the keys in order, and the header says so. -/
structure Contains [LinearOrder κ] (key : α → κ) (compare : α → α ⊕ κ → Int) (t : Tree α κ)
    (N : List (Addr × (α × UInt64))) : Prop where
  entry : Graph t.entry N
  sorted : (N.map (fun e => key e.2.1)).Pairwise (· < ·)
  allocated : t.allocated = N.length
  compare : t.compare 0 = some compare
  indexes : t.indexes = 1
  unique : t.allow_duplicates = false
  count : t.count = Int32.ofNat N.length
  size : t.size = UInt64.ofNat (totalSize N)

/-- The tree consists of these nodes, in this order and with these contents. -/
structure Consists [LinearOrder κ] (key : α → κ) (compare : α → α ⊕ κ → Int) (t : Tree α κ)
    (N : List (Addr × (α × UInt64))) : Prop extends Contains key compare t N where
  shape : ∃ T, t.Shaped 0 T ∧ elements T = N.map Prod.fst

section

variable [LinearOrder κ] {key : α → κ} {compare : α → α ⊕ κ → Int}

theorem consists_initialize
    (key : α → κ) (compare : α → α ⊕ κ → Int) :
    Consists key compare (TreeInitialize compare) [] where
  shape := ⟨.nil, ⟨rfl, trivial, List.nodup_nil, Nat.le_refl _⟩, rfl⟩
  entry a e := iff_of_false (fun h => by cases h) List.not_mem_nil
  sorted := List.Pairwise.nil
  allocated := rfl
  compare := rfl
  indexes := rfl
  unique := rfl
  count := rfl
  size := rfl

variable {t : Tree α κ} {N N₁ N₂ : List (Addr × (α × UInt64))}

theorem Consists.nodup
    (h : Consists key compare t N) :
    (N.map Prod.fst).Nodup := by
  obtain ⟨T, hshaped, helements⟩ := h.shape
  exact helements ▸ hshaped.nodup

/-- A key is the key of one node only. -/
theorem Consists.eq_of_key
    (h : Consists key compare t N)
    {e e' : Addr × (α × UInt64)}
    (he : e ∈ N)
    (he' : e' ∈ N)
    (hkey : key e.2.1 = key e'.2.1) :
    e = e' := by
  have hnodup : (N.map (fun e => key e.2.1)).Nodup := h.sorted.imp ne_of_lt
  exact List.inj_on_of_nodup_map hnodup he he' hkey

/-! ### Finding -/

omit [LinearOrder κ] in
theorem compareAt_eq
    {a : Addr} {e : α × UInt64}
    (h : t.entry a = some e) (target : α ⊕ κ) :
    t.compareAt compare target a = compare e.1 target := by
  obtain ⟨n, hn, rfl⟩ := Option.map_eq_some_iff.mp h
  rw [compareAt, hn]

/-- The comparisons of a search descend. -/
theorem Consists.compare_pairwise
    (h : Consists key compare t N)
    (hcompare : Compares key compare) (target : α ⊕ κ) :
    (N.map Prod.fst).Pairwise (fun a b =>
      t.compareAt compare target a ≤ 0 → t.compareAt compare target b < 0) := by
  refine List.pairwise_map.mpr ((List.pairwise_map.mp h.sorted).imp_of_mem ?_)
  intro e e' he he' hlt hle
  rw [compareAt_eq ((h.entry _ _).mpr he)] at hle
  rw [compareAt_eq ((h.entry _ _).mpr he')]
  have hnot : ¬ key e.2.1 < targetKey key target := fun hpos => by
    have := (hcompare.pos e.2.1 target).mpr hpos
    omega
  have hge : targetKey key target < key e'.2.1 := lt_of_le_of_lt (not_lt.mp hnot) hlt
  have hzero := mt (hcompare.zero e'.2.1 target).mp (ne_of_gt hge)
  have hpos := mt (hcompare.pos e'.2.1 target).mp (not_lt.mpr (le_of_lt hge))
  omega

/-- What a search ends at: the node with the key, or the place for it. -/
theorem Consists.search
    (h : Consists key compare t N)
    (hcompare : Compares key compare) (target : α ⊕ κ) :
    ∃ T S D, t.Shaped 0 T ∧ elements T = N.map Prod.fst ∧
      search (t.compareAt compare target) T [] = (S, D) ∧ T = plug S D ∧
      ((∃ a l r N₁ N₂ e, S = .node a l r ∧ N = N₁ ++ (a, e) :: N₂ ∧
          key e.1 = targetKey key target) ∨
        (∃ N₁ N₂, S = .nil ∧ N = N₁ ++ N₂ ∧ N₁.map Prod.fst = before D ∧
          N₂.map Prod.fst = after D ∧
          (∀ e ∈ N₁, key e.2.1 < targetKey key target) ∧
          ∀ e ∈ N₂, targetKey key target < key e.2.1)) := by
  obtain ⟨T, hshaped, helements⟩ := h.shape
  have hpairwise := h.compare_pairwise hcompare target
  rw [← helements] at hpairwise
  obtain ⟨hbefore, hafter, hend⟩ :=
    search_spec hpairwise (C := []) (fun a ha => by cases ha) (fun a ha => by cases ha)
  have hplug := @plug_search _ (t.compareAt compare target) T []
  generalize hsearch : Lib.TreePlaces.search (t.compareAt compare target) T [] = place at *
  obtain ⟨S, D⟩ := place
  dsimp only [plug_nil] at hbefore hafter hend hplug
  refine ⟨T, S, D, hshaped, helements, hsearch, hplug.symm, ?_⟩
  rcases hend with rfl | ⟨a, l, r, rfl, hzero⟩
  · right
    have hsplit : N.map Prod.fst = before D ++ after D := by
      rw [← helements, ← hplug, elements_plug, elements_nil, List.append_nil]
    obtain ⟨N₁, N₂, rfl, hN₁, hN₂⟩ := List.map_eq_append_iff.mp hsplit
    refine ⟨N₁, N₂, rfl, rfl, hN₁, hN₂, ?_, ?_⟩
    · intro e he
      have hin := hbefore e.1 (hN₁ ▸ List.mem_map_of_mem he)
      rw [compareAt_eq ((h.entry _ _).mpr (List.mem_append_left _ he))] at hin
      exact (hcompare.pos _ _).mp hin
    · intro e he
      have hin := hafter e.1 (hN₂ ▸ List.mem_map_of_mem he)
      rw [compareAt_eq ((h.entry _ _).mpr (List.mem_append_right _ he))] at hin
      refine lt_of_le_of_ne ?_ fun heq => ?_
      · refine not_lt.mp fun hlt => ?_
        have := (hcompare.pos e.2.1 target).mpr hlt
        omega
      · have := (hcompare.zero e.2.1 target).mpr heq.symm
        omega
  · left
    have hin : a ∈ N.map Prod.fst := by
      rw [← helements, ← hplug]
      exact mem_elements_plug (rootOf_node a l r) D
    obtain ⟨⟨a', e⟩, he, rfl⟩ := List.mem_map.mp hin
    obtain ⟨N₁, N₂, rfl⟩ := List.append_of_mem he
    rw [compareAt_eq h.entry.apply] at hzero
    exact ⟨_, l, r, N₁, N₂, e, rfl, rfl, (hcompare.zero _ _).mp hzero⟩

/-- A search by key finds the node with the key. -/
theorem Consists.find
    (h : Consists key compare t N)
    (hcompare : Compares key compare) (target : α ⊕ κ) :
    (∃ N₁ N₂ a e, N = N₁ ++ (a, e) :: N₂ ∧ key e.1 = targetKey key target ∧
      t.TreeFindIndex1 target 0 = some (some a)) ∨
    ((∀ e ∈ N, key e.2.1 ≠ targetKey key target) ∧ t.TreeFindIndex1 target 0 = some none) := by
  obtain ⟨T, S, D, hshaped, helements, hsearch, rfl, hend⟩ := h.search hcompare target
  have hfind : t.TreeFindIndex1 target 0 = some (rootOf S) :=
    TreeFindIndex1_root hshaped h.compare hsearch
  rcases hend with ⟨a, l, r, N₁, N₂, e, rfl, rfl, hkey⟩ | ⟨N₁, N₂, rfl, rfl, _, _, hlt, hgt⟩
  · exact .inl ⟨N₁, N₂, a, e, rfl, hkey, hfind⟩
  · refine .inr ⟨?_, hfind⟩
    intro e he
    rcases List.mem_append.mp he with he | he
    · exact ne_of_lt (hlt e he)
    · exact ne_of_gt (hgt e he)

/-! ### Adding -/

omit [LinearOrder κ] in
theorem totalSize_append
    (N₁ N₂ : List (Addr × (α × UInt64))) :
    totalSize (N₁ ++ N₂) = totalSize N₁ + totalSize N₂ := by
  rw [totalSize, List.map_append, List.sum_append]
  rfl

omit [LinearOrder κ] in
theorem totalSize_middle
    (N₁ N₂ : List (Addr × (α × UInt64))) (a : Addr) (e : α × UInt64) :
    totalSize (N₁ ++ (a, e) :: N₂) = totalSize (N₁ ++ N₂) + e.2.toNat := by
  rw [totalSize_append, totalSize_append]
  have hcons : totalSize ((a, e) :: N₂) = e.2.toNat + totalSize N₂ := rfl
  rw [hcons]
  omega

omit [LinearOrder κ] in
theorem map_key_middle
    (f : Addr × (α × UInt64) → κ) (N₁ N₂ : List (Addr × (α × UInt64)))
    (x : Addr × (α × UInt64)) :
    (N₁ ++ x :: N₂).map f = N₁.map f ++ f x :: N₂.map f := by
  rw [List.map_append, List.map_cons]

/-- A tree that is reshaped contains what it contained. -/
theorem Contains.of_rebalances
    {t' : Tree α κ} {T T' : BinaryTree Addr}
    (h : Contains key compare t N)
    (horder : elements T = N.map Prod.fst)
    (hrebalances : Rebalances 0 T t t' T') :
    Consists key compare t' N := by
  obtain ⟨hshaped, hsame, hreshapes⟩ := hrebalances
  have hrest := hreshapes.rest
  refine ⟨⟨?_, h.sorted, ?_, ?_, ?_, ?_, ?_, ?_⟩, T', hshaped, hsame.trans horder⟩
  · rw [hreshapes.entry]
    exact h.entry
  · rw [hrest]
    exact h.allocated
  · rw [hrest]
    exact h.compare
  · rw [hrest]
    exact h.indexes
  · rw [hrest]
    exact h.unique
  · rw [hrest]
    exact h.count
  · rw [hrest]
    exact h.size

/-- A node gets another content with the same key. -/
theorem Contains.replaced
    {t' : Tree α κ} {a : Addr} {e : α × UInt64} {content : α} {size : UInt64}
    (h : Contains key compare t (N₁ ++ (a, e) :: N₂))
    (hnodup : ((N₁ ++ (a, e) :: N₂).map Prod.fst).Nodup)
    (hkey : key e.1 = key content)
    (hentry : t'.entry = Function.update t.entry a (some (content, size)))
    (hrest : t' = { t with node := t'.node, size := t.size + (size - e.2) }) :
    Contains key compare t' (N₁ ++ (a, (content, size)) :: N₂) := by
  have hlength : (N₁ ++ (a, (content, size)) :: N₂).length = (N₁ ++ (a, e) :: N₂).length := by
    rw [List.length_append, List.length_append, List.length_cons, List.length_cons]
  rw [hrest]
  refine ⟨?_, ?_, ?_, h.compare, h.indexes, h.unique, ?_, ?_⟩
  · change Graph t'.entry _
    rw [hentry]
    exact h.entry.replace hnodup _
  · have hsorted := h.sorted
    rw [map_key_middle] at hsorted ⊢
    rwa [← hkey]
  · rw [hlength]
    exact h.allocated
  · rw [hlength]
    exact h.count
  · change t.size + (size - e.2) = _
    rw [h.size, totalSize_middle, totalSize_middle, UInt64.ofNat_add, UInt64.ofNat_add,
      UInt64.ofNat_toNat, UInt64.ofNat_toNat, UInt64.add_assoc, UInt64.add_comm e.2,
      UInt64.sub_add_cancel]

/-- A new node is between the nodes with smaller keys and those with larger ones. -/
theorem Contains.added
    {t' : Tree α κ} {newel : Addr} {content : α} {size : UInt64}
    (h : Contains key compare t (N₁ ++ N₂))
    (hnone : t.entry newel = none)
    (hlt : ∀ e ∈ N₁, key e.2.1 < key content)
    (hgt : ∀ e ∈ N₂, key content < key e.2.1)
    (hentry : t'.entry = Function.update t.entry newel (some (content, size)))
    (hrest : t' = { t with
      node := t'.node, root := t'.root, allocated := t.allocated + 1,
      count := t.count + 1, size := t.size + size }) :
    Contains key compare t' (N₁ ++ (newel, (content, size)) :: N₂) := by
  have hlength : (N₁ ++ (newel, (content, size)) :: N₂).length = (N₁ ++ N₂).length + 1 := by
    rw [List.length_append, List.length_append, List.length_cons, Nat.add_assoc]
  rw [hrest]
  refine ⟨?_, ?_, ?_, h.compare, h.indexes, h.unique, ?_, ?_⟩
  · change Graph t'.entry _
    rw [hentry]
    exact h.entry.insert hnone _
  · have hsorted := h.sorted
    rw [List.map_append] at hsorted
    obtain ⟨hs₁, hs₂, hs⟩ := List.pairwise_append.mp hsorted
    rw [map_key_middle]
    refine List.pairwise_append.mpr ⟨hs₁, List.pairwise_cons.mpr ⟨?_, hs₂⟩, ?_⟩
    · intro k hk
      obtain ⟨e, he, rfl⟩ := List.mem_map.mp hk
      exact hgt e he
    · intro k hk k' hk'
      rcases List.mem_cons.mp hk' with rfl | hk'
      · obtain ⟨e, he, rfl⟩ := List.mem_map.mp hk
        exact hlt e he
      · exact hs k hk k' hk'
  · rw [hlength, ← h.allocated]
  · change t.count + 1 = _
    rw [h.count, hlength]
    exact (Int32.ofNat_add _ 1).symm
  · change t.size + size = _
    rw [h.size, totalSize_middle, UInt64.ofNat_add, UInt64.ofNat_toNat]

/-- The content of a key that is there is replaced. -/
theorem TreeAddByIndex_replace
    {a : Addr} {e : α × UInt64} {content : α}
    (h : Consists key compare t (N₁ ++ (a, e) :: N₂))
    (hcompare : Compares key compare)
    (hkey : key e.1 = key content) (size : UInt64) (newel : Option Addr) :
    ∃ t', t.TreeAddByIndex content size newel 0 = some (some content, t') ∧
      Consists key compare t' (N₁ ++ (a, (content, size)) :: N₂) := by
  obtain ⟨T, S, D, hshaped, helements, hsearch, rfl, hend⟩ := h.search hcompare (.inl content)
  have hin : (a, e) ∈ N₁ ++ (a, e) :: N₂ := List.mem_append_right _ List.mem_cons_self
  obtain ⟨l, r, rfl⟩ : ∃ l r, S = .node a l r := by
    rcases hend with ⟨b, l, r, N₁', N₂', e', rfl, hN, hkey'⟩ | ⟨N₁', N₂', _, hN, _, _, hlt, hgt⟩
    · have hin' : (b, e') ∈ N₁ ++ (a, e) :: N₂ := by
        rw [hN]
        exact List.mem_append_right _ List.mem_cons_self
      obtain ⟨rfl, rfl⟩ := Prod.mk.inj (h.eq_of_key hin hin' (hkey.trans hkey'.symm))
      exact ⟨l, r, rfl⟩
    · rw [hN] at hin
      rcases List.mem_append.mp hin with hin | hin
      · exact absurd hkey (ne_of_lt (hlt _ hin))
      · exact absurd hkey (ne_of_gt (hgt _ hin))
  have hentry := h.entry.apply
  obtain ⟨t₁, t', T', _, _, ht', hentry₁, hrest₁, _, _, _, hrebalances⟩ :=
    TreeAddByIndex_found hshaped h.compare hsearch h.unique hentry size newel
  rw [if_pos rfl] at hrest₁
  have hcontains : Contains key compare t₁ (N₁ ++ (a, (content, size)) :: N₂) :=
    h.toContains.replaced h.nodup hkey hentry₁ hrest₁
  have hordered : elements (plug (.node a l r) D) =
      (N₁ ++ (a, (content, size)) :: N₂).map Prod.fst := by
    rw [helements, List.map_append, List.map_append, List.map_cons, List.map_cons]
  exact ⟨t', ht', hcontains.of_rebalances hordered hrebalances⟩

/-- A new node is hung where the search has ended. -/
theorem TreeAddByIndex_new
    {content : α} {newel : Addr}
    (h : Consists key compare t N)
    (hcompare : Compares key compare)
    (hkey : ∀ e ∈ N, key e.2.1 ≠ key content)
    (hnew : t.node newel = none) (size : UInt64) :
    ∃ t' N₁ N₂, N = N₁ ++ N₂ ∧ t.TreeAddByIndex content size (some newel) 0 =
        some (some content, t') ∧
      Consists key compare t' (N₁ ++ (newel, (content, size)) :: N₂) := by
  obtain ⟨T, S, D, hshaped, helements, hsearch, rfl, hend⟩ := h.search hcompare (.inl content)
  obtain ⟨N₁, N₂, rfl, rfl, hN₁, hN₂, hlt, hgt⟩ : ∃ N₁ N₂, S = .nil ∧ N = N₁ ++ N₂ ∧
      N₁.map Prod.fst = before D ∧ N₂.map Prod.fst = after D ∧
      (∀ e ∈ N₁, key e.2.1 < key content) ∧ ∀ e ∈ N₂, key content < key e.2.1 := by
    rcases hend with ⟨b, l, r, N₁, N₂, e, _, rfl, hsame⟩ | hplace
    · exact absurd hsame (hkey _ (List.mem_append_right _ List.mem_cons_self))
    · exact hplace
  have hnone : t.entry newel = none := by rw [Tree.entry, hnew]; rfl
  obtain ⟨t₁, t', T', _, _, ht', hentry₁, hrest₁, _, _, _, hrebalances⟩ :=
    TreeAddByIndex_absent hshaped h.compare hsearch hnew size
  rw [if_pos rfl, if_pos rfl] at hrest₁
  have hcontains : Contains key compare t₁ (N₁ ++ (newel, (content, size)) :: N₂) :=
    h.toContains.added hnone hlt hgt hentry₁ hrest₁
  have hordered : elements (plug (.node newel .nil .nil) D) =
      (N₁ ++ (newel, (content, size)) :: N₂).map Prod.fst := by
    rw [elements_plug, elements_node, elements_nil, List.nil_append, List.map_append,
      List.map_cons, hN₁, hN₂, List.append_assoc]
    rfl
  exact ⟨t', N₁, N₂, rfl, ht', hcontains.of_rebalances hordered hrebalances⟩

end

end Tree
end PahoMqtt
