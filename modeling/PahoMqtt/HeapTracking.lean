import PahoMqtt.TreeRuns
import PahoMqtt.Bytes

/-!
# Heap tracking

`mymalloc`, `myfree` and `myrealloc` of Heap.c, with a tree of records beside
the memory that they get from the allocator.  The allocator may fail at any
call: for a block, for its record and the file name in it, and for the node of
the tree.

The model has the blocks of the callers and not what is in them.
-/

namespace PahoMqtt

/-- `storageElement` -/
structure StorageElement where
  file : Bytes
  line : Int
  ptr : Addr
  size : UInt64

/--
`heap` and `state`, and the blocks that the allocator has given out for callers and not
taken back, with their rounded sizes.
-/
structure HeapState where
  heap : Tree StorageElement Addr
  current_size : UInt64
  max_size : UInt64
  blocks : List (Addr × UInt64)

/-- What the allocator answers in `mymalloc`; the node is that of `TreeAdd`. -/
structure Malloced where
  record : Bool
  file : Bool
  block : Option Addr
  node : Option Addr

/-- What the allocator answers in `myrealloc`. -/
structure Realloced where
  block : Option Addr
  file : Bool
  node : Option Addr

namespace Heap

def Heap_roundup (size : UInt64) : UInt64 :=
  if size % 16 ≠ 0 then size + (16 - size % 16) else size

def ptrCompare (a : StorageElement) (b : StorageElement ⊕ Addr) : Int :=
  let b := b.elim StorageElement.ptr id
  if a.ptr > b then -1 else if a.ptr = b then 0 else 1

/-- `Heap_initialize` -/
def Heap_initialize : HeapState where
  heap := .TreeInitialize ptrCompare
  current_size := 0
  max_size := 0
  blocks := []

/-- `sizeof(storageElement)` -/
def recordSize : UInt64 := 32

/-- `sizeof(eyecatcherType)` -/
def eyecatcherSize : Nat := 8

/-- `strlen(file)+1` -/
def filenamelen (file : Bytes) : UInt64 := UInt64.ofNat (strlen file + 1)

/-- `state.current_size` is assigned, and `state.max_size` where it is more than that. -/
def account (st : HeapState) (current_size : UInt64) : HeapState :=
  { st with
    current_size
    max_size := if current_size > st.max_size then current_size else st.max_size }

@[simp] theorem account_heap
    (st : HeapState) (current_size : UInt64) :
    (account st current_size).heap = st.heap :=
  rfl

/-- The allocator takes a block back. -/
def release (blocks : List (Addr × UInt64)) (ptr : Addr) : List (Addr × UInt64) :=
  blocks.filter fun block => block.1 ≠ ptr

/-- A block of this rounded size has room for the eyecatchers at its ends: its length does not wrap. -/
def HasRoom (size : UInt64) : Prop :=
  size.toNat + 2 * eyecatcherSize < 18446744073709551616

instance (size : UInt64) : Decidable (HasRoom size) := inferInstanceAs (Decidable (_ < _))

/-- `size + 2*sizeof(eyecatcherType)` -/
def blockLength (size : UInt64) : UInt64 := size + 2 * UInt64.ofNat eyecatcherSize

/-- `mymalloc`; an eyecatcher is not to be written outside the block. -/
def mymalloc (file : Bytes) (line : Int) (size : UInt64) (got : Malloced) (st : HeapState) :
    Option (Option Addr × HeapState) :=
  let size := Heap_roundup size
  if got.record = false then some (none, st)
  else if got.file = false then some (none, st)
  else
    match got.block with
    | none => some (none, st)
    | some ptr =>
        if ¬HasRoom size then none
        else do
          let space := recordSize + filenamelen file + blockLength size
          let (_, heap) ← st.heap.TreeAdd ⟨file, line, ptr, size⟩ space fun _ => got.node
          let st := account st (st.current_size + size)
          pure (some (ptr + eyecatcherSize), { st with heap, blocks := (ptr, size) :: st.blocks })

/-- `Internal_heap_unlink` -/
def Internal_heap_unlink (p : Addr) (st : HeapState) : Option (Int × HeapState) := do
  match ← st.heap.TreeFind (p - eyecatcherSize) with
  | none => pure (0, st)
  | some e => do
      let s := (← st.heap.node e).content
      let (_, heap) ← st.heap.TreeRemoveNodeIndex e 0
      pure (1, { st with heap, current_size := st.current_size - s.size })

/-- `myfree` -/
def myfree (p : Option Addr) (st : HeapState) : Option HeapState :=
  match p with
  | none => some st
  | some p => do
      let (rc, st) ← Internal_heap_unlink p st
      if rc ≠ 0 then pure { st with blocks := release st.blocks (p - eyecatcherSize) }
      else pure st

/--
`myrealloc`.  A block that cannot be reallocated stays as it is; a file name is not to
be copied to NULL.
-/
def myrealloc (file : Bytes) (line : Int) (p : Addr) (size : UInt64) (got : Realloced)
    (st : HeapState) : Option (Option Addr × HeapState) := do
  match ← st.heap.TreeRemoveKey (p - eyecatcherSize) with
  | (none, heap) => pure (none, { st with heap })
  | (some s, heap) =>
      let size := Heap_roundup size
      let st := account { st with heap } (st.current_size + (size - s.size))
      match got.block with
      | none => pure (none, st)
      | some ptr =>
          if ¬HasRoom size then none
          else if got.file = false then none
          else do
            let space := recordSize + (blockLength size - s.size)
            let space := space - UInt64.ofNat (strlen s.file) + filenamelen file
            let (_, heap) ← st.heap.TreeAdd ⟨file, line, ptr, size⟩ space fun _ => got.node
            pure (some (ptr + eyecatcherSize),
              { st with heap, blocks := (ptr, size) :: release st.blocks s.ptr })

/-- What the sizes of blocks add up to. -/
def total (blocks : List (Addr × UInt64)) : Nat :=
  (blocks.map fun block => block.2.toNat).sum

/-! ### Calls -/

inductive HeapCall where
  | malloc (file : Bytes) (line : Int) (size : UInt64) (got : Malloced)
  | free (p : Option Addr)
  | realloc (file : Bytes) (line : Int) (p : Addr) (size : UInt64) (got : Realloced)

namespace HeapCall

/-- What a call returns; none where it writes to NULL or outside a block. -/
def run (st : HeapState) : HeapCall → Option (Option Addr × HeapState)
  | .malloc file line size got => mymalloc file line size got st
  | .free p => (myfree p st).map fun st => (none, st)
  | .realloc file line p size got => myrealloc file line p size got st

/--
Callers pass blocks that they have; the allocator returns memory that is not in use, and
there is room in the address space for all the blocks.
-/
def Valid (st : HeapState) : HeapCall → Prop
  | .malloc _ _ size got =>
      (∀ ptr, got.block = some ptr → ptr ∉ st.blocks.map Prod.fst ∧
        total st.blocks + (blockLength (Heap_roundup size)).toNat < 18446744073709551616) ∧
      ∀ node, got.node = some node → st.heap.node node = none
  | .free p => ∀ q, p = some q → ∃ ptr ∈ st.blocks.map Prod.fst, q = ptr + eyecatcherSize
  | .realloc _ _ p size got =>
      ∃ old ∈ st.blocks.map Prod.fst, p = old + eyecatcherSize ∧
        (∀ ptr, got.block = some ptr → ptr ∉ (release st.blocks old).map Prod.fst ∧
          total (release st.blocks old) + (blockLength (Heap_roundup size)).toNat <
            18446744073709551616) ∧
        ∀ node, got.node = some node → ∀ s heap, st.heap.TreeRemoveKey old = some (s, heap) →
          heap.node node = none

def Allocates : HeapCall → Prop
  | .free _ => False
  | _ => True

/--
A block that is allocated has room for its eyecatchers; the allocator fails in `mymalloc`
for anything but the node alone, and in `myrealloc` not at all.
-/
def Spared : HeapCall → Prop
  | .malloc _ _ size got =>
      got.record = true → got.file = true → got.block ≠ none →
        HasRoom (Heap_roundup size) ∧ got.node ≠ none
  | .free _ => True
  | .realloc _ _ _ size got =>
      got.block ≠ none ∧ HasRoom (Heap_roundup size) ∧ got.file = true ∧ got.node ≠ none

end HeapCall

/-- The block has a record, with this size. -/
def Tracks (st : HeapState) (ptr : Addr) (size : UInt64) : Prop :=
  ∃ node s space, st.heap.TreeFind ptr = some (some node) ∧
    st.heap.entry node = some (s, space) ∧ s.ptr = ptr ∧ s.size = size

/-- The blocks with a record are those that callers have, and their sizes are counted. -/
structure Exact (st : HeapState) : Prop where
  tracked : ∀ ptr size, Tracks st ptr size ↔ (ptr, size) ∈ st.blocks
  current_size : st.current_size.toNat = total st.blocks

/-! ### The records -/

open PahoMqtt.Tree

theorem compares_ptr :
    Compares StorageElement.ptr ptrCompare := by
  have hkey : ∀ b : StorageElement ⊕ Addr,
      targetKey StorageElement.ptr b = b.elim StorageElement.ptr id := by
    intro b
    cases b <;> rfl
  constructor
  · intro a b
    rw [hkey, ptrCompare]
    generalize b.elim StorageElement.ptr id = q
    split_ifs with hgt heq
    · exact iff_of_false (by decide) (not_lt_of_gt hgt)
    · exact iff_of_false (by decide) (not_lt_of_ge (ge_of_eq heq))
    · exact iff_of_true (by decide) (lt_of_le_of_ne (not_lt.mp hgt) heq)
  · intro a b
    rw [hkey, ptrCompare]
    generalize b.elim StorageElement.ptr id = q
    split_ifs with hgt heq
    · exact iff_of_false (by decide) (ne_of_gt hgt)
    · exact iff_of_true rfl heq
    · exact iff_of_false (by decide) heq

/-- The block of a node. -/
def blockOf (e : Addr × (StorageElement × UInt64)) : Addr × UInt64 := (e.2.1.ptr, e.2.1.size)

/-- The nodes of the tree are the blocks, and their sizes are counted. -/
structure Accounts (st : HeapState) (N : List (Addr × (StorageElement × UInt64))) : Prop where
  consists : Consists StorageElement.ptr ptrCompare st.heap N
  blocks : (N.map blockOf).Perm st.blocks
  current_size : st.current_size.toNat = total st.blocks
  le : st.current_size.toNat ≤ st.max_size.toNat

theorem accounts_initialize :
    Accounts Heap_initialize [] where
  consists := consists_initialize _ _
  blocks := List.Perm.nil
  current_size := rfl
  le := Nat.le_refl 0

theorem total_perm
    {blocks blocks' : List (Addr × UInt64)}
    (h : blocks.Perm blocks') :
    total blocks = total blocks' :=
  (h.map _).sum_eq

variable {st : HeapState} {N N₁ N₂ : List (Addr × (StorageElement × UInt64))}

theorem Accounts.nodup
    (h : Accounts st N) :
    (st.blocks.map Prod.fst).Nodup := by
  have hkeys : ((N.map blockOf).map Prod.fst).Nodup := by
    rw [List.map_map]
    exact h.consists.sorted.imp ne_of_lt
  exact (h.blocks.map Prod.fst).nodup_iff.mp hkeys

/-- A record is found by its key. -/
theorem tracks_iff
    (h : Consists StorageElement.ptr ptrCompare st.heap N)
    (ptr : Addr) (size : UInt64) :
    Tracks st ptr size ↔ (ptr, size) ∈ N.map blockOf := by
  constructor
  · rintro ⟨node, s, space, _, hentry, rfl, rfl⟩
    exact List.mem_map.mpr ⟨(node, (s, space)), (h.entry _ _).mp hentry, rfl⟩
  · intro hmem
    obtain ⟨e, he, hblock⟩ := List.mem_map.mp hmem
    obtain ⟨rfl, rfl⟩ := Prod.mk.inj hblock
    rcases h.find compares_ptr (.inr e.2.1.ptr) with ⟨N₁, N₂, a, e', rfl, hkey, hfind⟩ | ⟨hnone, _⟩
    · have hmem' : (a, e') ∈ N₁ ++ (a, e') :: N₂ := List.mem_append_right _ List.mem_cons_self
      obtain rfl := h.eq_of_key he hmem' hkey.symm
      exact ⟨a, e'.1, e'.2, hfind, h.entry.apply, rfl, rfl⟩
    · exact absurd rfl (hnone e he)

theorem Accounts.exact
    (h : Accounts st N) :
    Exact st where
  tracked ptr size := (tracks_iff h.consists ptr size).trans h.blocks.mem_iff
  current_size := h.current_size

/-- The node of a block that a caller has. -/
theorem Accounts.find
    (h : Accounts st N)
    {ptr : Addr}
    (hptr : ptr ∈ st.blocks.map Prod.fst) :
    ∃ N₁ N₂ a e, N = N₁ ++ (a, e) :: N₂ ∧ e.1.ptr = ptr ∧
      st.heap.TreeFindIndex1 (.inr ptr) 0 = some (some a) := by
  obtain ⟨block, hblock, rfl⟩ := List.mem_map.mp hptr
  obtain ⟨e, he, rfl⟩ := List.mem_map.mp (h.blocks.mem_iff.mpr hblock)
  rcases h.consists.find compares_ptr (.inr e.2.1.ptr) with hfound | ⟨hnone, _⟩
  · exact hfound
  · exact absurd rfl (hnone e he)

/-- Without one node the others are the blocks without its block. -/
theorem release_perm
    {a : Addr} {e : StorageElement × UInt64}
    (h : Accounts st (N₁ ++ (a, e) :: N₂)) :
    ((N₁ ++ N₂).map blockOf).Perm (release st.blocks e.1.ptr) := by
  have hperm := h.blocks.filter fun block => block.1 ≠ e.1.ptr
  have hkeys := h.consists.sorted.imp ne_of_lt
  rw [List.map_append, List.map_cons, List.pairwise_append] at hkeys
  obtain ⟨_, hafter, hbetween⟩ := hkeys
  have hne : ∀ e' ∈ N₁ ++ N₂, e'.2.1.ptr ≠ e.1.ptr := by
    intro e' he'
    rcases List.mem_append.mp he' with hbefore | hbehind
    · exact hbetween _ (List.mem_map_of_mem hbefore) _ List.mem_cons_self
    · exact ((List.pairwise_cons.mp hafter).1 _ (List.mem_map_of_mem hbehind)).symm
  have hfilter : ((N₁ ++ (a, e) :: N₂).map blockOf).filter (fun block => block.1 ≠ e.1.ptr) =
      (N₁ ++ N₂).map blockOf := by
    have hout : ([(a, e)].map blockOf).filter (fun block => block.1 ≠ e.1.ptr) = [] := by
      simp [blockOf]
    have hsplit : N₁ ++ (a, e) :: N₂ = N₁ ++ ([(a, e)] ++ N₂) := rfl
    rw [hsplit, List.map_append, List.map_append, List.filter_append, List.filter_append, hout,
      List.nil_append, ← List.filter_append, ← List.map_append, List.filter_eq_self]
    intro block hblock
    obtain ⟨e', he', rfl⟩ := List.mem_map.mp hblock
    exact decide_eq_true (hne e' he')
  rwa [hfilter] at hperm

theorem total_release
    {a : Addr} {e : StorageElement × UInt64}
    (h : Accounts st (N₁ ++ (a, e) :: N₂)) :
    total st.blocks = total (release st.blocks e.1.ptr) + e.1.size.toNat := by
  rw [← total_perm h.blocks, ← total_perm (release_perm h)]
  simp only [total, List.map_append, List.map_cons, List.sum_append, List.sum_cons, blockOf]
  omega

/-- A block is put into the tree, where there is a node for it. -/
theorem TreeAdd_block
    {t : Tree StorageElement Addr} {s : StorageElement} {node : Addr}
    (h : Consists StorageElement.ptr ptrCompare t N)
    (hkey : s.ptr ∉ (N.map blockOf).map Prod.fst)
    (hnode : t.node node = none) (space : UInt64) :
    ∃ rc t' N', t.TreeAdd s space (fun _ => some node) = some (rc, t') ∧
      Consists StorageElement.ptr ptrCompare t' N' ∧
      (N'.map blockOf).Perm ((s.ptr, s.size) :: N.map blockOf) := by
  have hother : ∀ e ∈ N, e.2.1.ptr ≠ s.ptr := by
    intro e he heq
    refine hkey (heq ▸ ?_)
    rw [List.map_map]
    exact List.mem_map_of_mem (f := Prod.fst ∘ blockOf) he
  obtain ⟨t', N₁, N₂, rfl, hadd, hconsists⟩ :=
    TreeAddByIndex_new h compares_ptr hother hnode space
  refine ⟨_, t', _, (TreeAdd_eq h.indexes s space _).trans hadd, hconsists, ?_⟩
  rw [List.map_append, List.map_cons, List.map_append]
  exact List.perm_middle

/-- Without a node the tree stays as it is. -/
theorem TreeAdd_block_none
    {t : Tree StorageElement Addr} {s : StorageElement}
    (h : Consists StorageElement.ptr ptrCompare t N)
    (hkey : s.ptr ∉ (N.map blockOf).map Prod.fst)
    (space : UInt64) :
    t.TreeAdd s space (fun _ => none) = some (none, t) := by
  rw [TreeAdd_eq h.indexes]
  refine TreeAddByIndex_none h compares_ptr ?_ space
  intro e he heq
  refine hkey (heq ▸ ?_)
  rw [List.map_map]
  exact List.mem_map_of_mem (f := Prod.fst ∘ blockOf) he

/-! ### What a call does -/

theorem account_max
    (st : HeapState) (current_size : UInt64) :
    (account st current_size).max_size.toNat = max st.max_size.toNat current_size.toNat := by
  rw [account]
  dsimp only
  split
  next hgt =>
    rw [Nat.max_eq_right (Nat.le_of_lt (UInt64.lt_iff_toNat_lt.mp hgt))]
  next hle =>
    rw [Nat.max_eq_left (UInt64.le_iff_toNat_le.mp (UInt64.not_lt.mp hle))]

theorem toNat_blockLength
    {size : UInt64}
    (h : HasRoom size) :
    (blockLength size).toNat = size.toNat + 16 := by
  have hlt : size.toNat + 16 < 18446744073709551616 := h
  rw [blockLength, UInt64.toNat_add]
  exact Nat.mod_eq_of_lt hlt

/-- The block of a node goes out of the tree with it. -/
theorem Accounts.removed
    {a : Addr} {e : StorageElement × UInt64}
    (h : Accounts st (N₁ ++ (a, e) :: N₂)) :
    ∃ heap N', st.heap.TreeRemoveNodeIndex a 0 = some (e.1, heap) ∧
      Consists StorageElement.ptr ptrCompare heap N' ∧
      (N'.map blockOf).Perm (release st.blocks e.1.ptr) := by
  obtain ⟨heap, N', hremove, hconsists, hcontents⟩ := h.consists.remove
  refine ⟨heap, N', hremove, hconsists, ?_⟩
  have hblocks := congrArg (List.map fun e : StorageElement × UInt64 => (e.1.ptr, e.1.size)) hcontents
  rw [List.map_map, List.map_map] at hblocks
  exact (List.Perm.of_eq hblocks).trans (release_perm h)

/-- A block with a record is put to those that the tree has, and its size is counted. -/
theorem Accounts.added
    (st : HeapState) (s : StorageElement) {blocks : List (Addr × UInt64)} {node : Addr}
    (hconsists : Consists StorageElement.ptr ptrCompare st.heap N)
    (hblocks : (N.map blockOf).Perm blocks)
    (hkey : s.ptr ∉ blocks.map Prod.fst)
    (hnode : st.heap.node node = none)
    (hcurrent : st.current_size.toNat = total blocks + s.size.toNat)
    (hle : st.current_size.toNat ≤ st.max_size.toNat) (space : UInt64) :
    ∃ rc heap N', st.heap.TreeAdd s space (fun _ => some node) = some (rc, heap) ∧
      Accounts { st with heap, blocks := (s.ptr, s.size) :: blocks } N' := by
  rw [← (hblocks.map Prod.fst).mem_iff] at hkey
  obtain ⟨rc, heap, N', hadd, hconsists', hperm⟩ := TreeAdd_block hconsists hkey hnode space
  refine ⟨rc, heap, N', hadd, hconsists', hperm.trans (hblocks.cons _), ?_, hle⟩
  rw [hcurrent]
  exact Nat.add_comm _ _

/-- `mymalloc` with a block, and what `TreeAdd` does with its record. -/
theorem mymalloc_block
    {file : Bytes} {line : Int} {size : UInt64} {got : Malloced} {ptr : Addr}
    {rc : Option StorageElement} {heap : Tree StorageElement Addr}
    (hrecord : got.record = true) (hfile : got.file = true) (hblock : got.block = some ptr)
    (hroom : HasRoom (Heap_roundup size))
    (hadd : st.heap.TreeAdd ⟨file, line, ptr, Heap_roundup size⟩
      (recordSize + filenamelen file + blockLength (Heap_roundup size)) (fun _ => got.node) =
        some (rc, heap)) :
    mymalloc file line size got st = some (some (ptr + eyecatcherSize),
      { account st (st.current_size + Heap_roundup size) with
        heap, blocks := (ptr, Heap_roundup size) :: st.blocks }) := by
  unfold mymalloc
  rw [hrecord, hfile, hblock, if_neg (by decide), if_neg (by decide)]
  dsimp only
  rw [if_neg (not_not_intro hroom), hadd]
  rfl

theorem mymalloc_spared
    {file : Bytes} {line : Int} {size : UInt64} {got : Malloced}
    (h : Accounts st N)
    (hvalid : HeapCall.Valid st (.malloc file line size got))
    (hspared : HeapCall.Spared (.malloc file line size got)) :
    ∃ ret st' N', mymalloc file line size got st = some (ret, st') ∧ Accounts st' N' ∧
      st'.max_size.toNat = max st.max_size.toNat st'.current_size.toNat ∧
      (ret = none → st' = st) := by
  have hfails (hret : mymalloc file line size got st = some (none, st)) :
      ∃ ret st' N', mymalloc file line size got st = some (ret, st') ∧ Accounts st' N' ∧
        st'.max_size.toNat = max st.max_size.toNat st'.current_size.toNat ∧
        (ret = none → st' = st) :=
    ⟨none, st, N, hret, h, (Nat.max_eq_left h.le).symm, fun _ => rfl⟩
  cases hrecord : got.record with
  | false => exact hfails (if_pos hrecord)
  | true =>
    cases hfile : got.file with
    | false => exact hfails (by rw [mymalloc, hrecord, hfile]; rfl)
    | true =>
      cases hblock : got.block with
      | none => exact hfails (by rw [mymalloc, hrecord, hfile, hblock]; rfl)
      | some ptr =>
        obtain ⟨hroom, hnode⟩ := hspared hrecord hfile (by rw [hblock]; exact Option.some_ne_none _)
        obtain ⟨node, hsome⟩ := Option.ne_none_iff_exists'.mp hnode
        obtain ⟨hfresh, hfits⟩ := hvalid.1 ptr hblock
        have hcurrent : (st.current_size + Heap_roundup size).toNat =
            total st.blocks + (Heap_roundup size).toNat := by
          rw [toNat_blockLength hroom] at hfits
          rw [UInt64.toNat_add, h.current_size]
          exact Nat.mod_eq_of_lt (by omega)
        have hmax := account_max st (st.current_size + Heap_roundup size)
        obtain ⟨rc, heap, N', hadd, haccounts⟩ :=
          Accounts.added (account st (st.current_size + Heap_roundup size))
            ⟨file, line, ptr, Heap_roundup size⟩
            h.consists h.blocks hfresh (hvalid.2 node hsome) hcurrent
            (hmax ▸ Nat.le_max_right _ _)
            (recordSize + filenamelen file + blockLength (Heap_roundup size))
        rw [← hsome] at hadd
        exact ⟨_, _, N', mymalloc_block hrecord hfile hblock hroom hadd, haccounts, hmax, nofun⟩

/-- Without a node the block that `mymalloc` returns has no record. -/
theorem mymalloc_not_spared
    {file : Bytes} {line : Int} {size : UInt64} {got : Malloced} {ret : Option Addr}
    {st' : HeapState}
    (h : Accounts st N)
    (hvalid : HeapCall.Valid st (.malloc file line size got))
    (hspared : ¬HeapCall.Spared (.malloc file line size got))
    (hret : mymalloc file line size got st = some (ret, st')) :
    ¬Exact st' := by
  simp only [HeapCall.Spared, not_forall] at hspared
  obtain ⟨hrecord, hfile, hblock, hnot⟩ := hspared
  obtain ⟨ptr, hblock⟩ := Option.ne_none_iff_exists'.mp hblock
  obtain ⟨hfresh, _⟩ := hvalid.1 ptr hblock
  by_cases hroom : HasRoom (Heap_roundup size)
  · have hnode : got.node = none := of_not_not fun hnode => hnot ⟨hroom, hnode⟩
    have hkey : ptr ∉ (N.map blockOf).map Prod.fst := by
      rwa [(h.blocks.map Prod.fst).mem_iff]
    have hadd := TreeAdd_block_none (s := ⟨file, line, ptr, Heap_roundup size⟩) h.consists hkey
      (recordSize + filenamelen file + blockLength (Heap_roundup size))
    rw [← hnode] at hadd
    rw [mymalloc_block hrecord hfile hblock hroom hadd] at hret
    obtain ⟨rfl, rfl⟩ := Prod.mk.inj (Option.some.inj hret)
    intro hexact
    have htracks := (hexact.tracked ptr (Heap_roundup size)).mpr List.mem_cons_self
    exact hkey (List.mem_map_of_mem (f := Prod.fst) ((tracks_iff h.consists _ _).mp htracks))
  · rw [mymalloc, hrecord, hfile, hblock, if_neg (by decide), if_neg (by decide)] at hret
    dsimp only at hret
    rw [if_pos hroom] at hret
    cases hret

/-- The record of a block that a caller has goes out of the tree. -/
theorem Internal_heap_unlink_spec
    {a : Addr} {e : StorageElement × UInt64}
    (h : Accounts st (N₁ ++ (a, e) :: N₂))
    (hfind : st.heap.TreeFindIndex1 (.inr e.1.ptr) 0 = some (some a)) :
    ∃ heap N', Internal_heap_unlink (e.1.ptr + eyecatcherSize) st =
        some (1, { st with heap, current_size := st.current_size - e.1.size }) ∧
      Consists StorageElement.ptr ptrCompare heap N' ∧
      (N'.map blockOf).Perm (release st.blocks e.1.ptr) := by
  obtain ⟨heap, N', hremove, hconsists, hperm⟩ := h.removed
  obtain ⟨n, hn, hcontent⟩ := Option.map_eq_some_iff.mp h.consists.entry.apply
  refine ⟨heap, N', ?_, hconsists, hperm⟩
  have hfind : st.heap.TreeFind e.1.ptr = some (some a) := hfind
  have hsize : n.content.size = e.1.size := congrArg (fun e => e.1.size) hcontent
  rw [Internal_heap_unlink, Nat.add_sub_cancel, hfind]
  simp only [Option.bind_eq_bind, Option.bind_some, hn, hremove, hsize]
  rfl

theorem myfree_spec
    {p : Option Addr}
    (h : Accounts st N)
    (hvalid : HeapCall.Valid st (.free p)) :
    ∃ st' N', myfree p st = some st' ∧ Accounts st' N' ∧
      st'.max_size.toNat = max st.max_size.toNat st'.current_size.toNat := by
  cases p with
  | none => exact ⟨st, N, rfl, h, (Nat.max_eq_left h.le).symm⟩
  | some p =>
    obtain ⟨ptr, hptr, rfl⟩ := hvalid p rfl
    obtain ⟨N₁, N₂, a, e, rfl, rfl, hfind⟩ := h.find hptr
    obtain ⟨heap, N', hunlink, hconsists, hperm⟩ := Internal_heap_unlink_spec h hfind
    have htotal := total_release h
    have hmax := h.le
    rw [h.current_size] at hmax
    have hcurrent : (st.current_size - e.1.size).toNat = total (release st.blocks e.1.ptr) := by
      have hle : e.1.size ≤ st.current_size := by
        rw [UInt64.le_iff_toNat_le, h.current_size]
        omega
      rw [UInt64.toNat_sub_of_le _ _ hle, h.current_size]
      omega
    have hle : (st.current_size - e.1.size).toNat ≤ st.max_size.toNat := by omega
    refine ⟨{ st with heap, current_size := st.current_size - e.1.size,
                      blocks := release st.blocks e.1.ptr }, N', ?_,
      ⟨hconsists, hperm, hcurrent, hle⟩, (Nat.max_eq_left hle).symm⟩
    simp only [myfree, Option.bind_eq_bind, hunlink, Option.bind_some, Nat.add_sub_cancel]
    rfl

theorem TreeRemoveKey_block
    {a : Addr} {e : StorageElement × UInt64}
    (h : Accounts st (N₁ ++ (a, e) :: N₂))
    (hfind : st.heap.TreeFindIndex1 (.inr e.1.ptr) 0 = some (some a)) :
    ∃ heap N', st.heap.TreeRemoveKey e.1.ptr = some (some e.1, heap) ∧
      Consists StorageElement.ptr ptrCompare heap N' ∧
      (N'.map blockOf).Perm (release st.blocks e.1.ptr) := by
  obtain ⟨heap, N', hremove, hconsists, hperm⟩ := h.removed
  refine ⟨heap, N', ?_, hconsists, hperm⟩
  rw [TreeRemoveKey, TreeRemoveKeyIndex, TreeFindIndex, hfind]
  simp only [Option.bind_eq_bind, Option.bind_some, hremove]
  exact foldlM_indexes hconsists.indexes _ _

/-- `myrealloc` with a block, and what `TreeAdd` does with its record. -/
theorem myrealloc_block
    {file : Bytes} {line : Int} {old : Addr} {size : UInt64} {got : Realloced} {ptr : Addr}
    {s : StorageElement} {rc : Option StorageElement} {heap heap' : Tree StorageElement Addr}
    (hremove : st.heap.TreeRemoveKey old = some (some s, heap))
    (hblock : got.block = some ptr) (hroom : HasRoom (Heap_roundup size))
    (hfile : got.file = true)
    (hadd : heap.TreeAdd ⟨file, line, ptr, Heap_roundup size⟩
      (recordSize + (blockLength (Heap_roundup size) - s.size) -
        UInt64.ofNat (strlen s.file) + filenamelen file) (fun _ => got.node) = some (rc, heap')) :
    myrealloc file line (old + eyecatcherSize) size got st =
      some (some (ptr + eyecatcherSize),
        { account st (st.current_size + (Heap_roundup size - s.size)) with
          heap := heap', blocks := (ptr, Heap_roundup size) :: release st.blocks s.ptr }) := by
  rw [myrealloc, Nat.add_sub_cancel, hremove]
  simp only [Option.bind_eq_bind, Option.bind_some, hblock, account_heap]
  rw [if_neg (not_not_intro hroom), if_neg (by rw [hfile]; decide), hadd]
  rfl

theorem myrealloc_spared
    {file : Bytes} {line : Int} {p : Addr} {size : UInt64} {got : Realloced}
    (h : Accounts st N)
    (hvalid : HeapCall.Valid st (.realloc file line p size got))
    (hspared : HeapCall.Spared (.realloc file line p size got)) :
    ∃ q st' N', myrealloc file line p size got st = some (some q, st') ∧ Accounts st' N' ∧
      st'.max_size.toNat = max st.max_size.toNat st'.current_size.toNat := by
  obtain ⟨hblock, hroom, hfile, hnode⟩ := hspared
  obtain ⟨ptr, hblock⟩ := Option.ne_none_iff_exists'.mp hblock
  obtain ⟨node, hsome⟩ := Option.ne_none_iff_exists'.mp hnode
  obtain ⟨old, hold, rfl, hmoved, hfree⟩ := hvalid
  obtain ⟨hfresh, hfits⟩ := hmoved ptr hblock
  obtain ⟨N₁, N₂, a, e, rfl, rfl, hfind⟩ := h.find hold
  obtain ⟨heap, N', hremove, hconsists, hperm⟩ := TreeRemoveKey_block h hfind
  have htotal := total_release h
  have hcurrent : (st.current_size + (Heap_roundup size - e.1.size)).toNat =
      total (release st.blocks e.1.ptr) + (Heap_roundup size).toNat := by
    rw [toNat_blockLength hroom] at hfits
    have hsum : st.current_size = UInt64.ofNat (total (release st.blocks e.1.ptr)) + e.1.size := by
      rw [← UInt64.ofNat_toNat (x := st.current_size), h.current_size, htotal,
        UInt64.ofNat_add, UInt64.ofNat_toNat]
    have hnext : st.current_size + (Heap_roundup size - e.1.size) =
        UInt64.ofNat (total (release st.blocks e.1.ptr)) + Heap_roundup size := by
      rw [hsum]
      grind
    rw [hnext, UInt64.toNat_add, UInt64.toNat_ofNat', Nat.mod_add_mod]
    exact Nat.mod_eq_of_lt (by omega)
  have hmax := account_max st (st.current_size + (Heap_roundup size - e.1.size))
  obtain ⟨rc, heap', N'', hadd, haccounts⟩ :=
    Accounts.added
      { account st (st.current_size + (Heap_roundup size - e.1.size)) with heap }
      ⟨file, line, ptr, Heap_roundup size⟩
      hconsists hperm hfresh (hfree node hsome _ _ hremove) hcurrent (hmax ▸ Nat.le_max_right _ _)
      (recordSize + (blockLength (Heap_roundup size) - e.1.size) -
        UInt64.ofNat (strlen e.1.file) + filenamelen file)
  rw [← hsome] at hadd
  exact ⟨_, _, N'', myrealloc_block hremove hblock hroom hfile hadd, haccounts, hmax⟩

/-- Where it fails, `myrealloc` leaves a block without a record, the old one or the new one. -/
theorem myrealloc_not_spared
    {file : Bytes} {line : Int} {p : Addr} {size : UInt64} {got : Realloced} {ret : Option Addr}
    {st' : HeapState}
    (h : Accounts st N)
    (hvalid : HeapCall.Valid st (.realloc file line p size got))
    (hspared : ¬HeapCall.Spared (.realloc file line p size got))
    (hret : myrealloc file line p size got st = some (ret, st')) :
    ¬Exact st' := by
  obtain ⟨old, hold, rfl, hmoved, -⟩ := hvalid
  obtain ⟨N₁, N₂, a, e, rfl, rfl, hfind⟩ := h.find hold
  obtain ⟨heap, N', hremove, hconsists, hperm⟩ := TreeRemoveKey_block h hfind
  cases hblock : got.block with
  | none =>
    -- the old block is there, and its record is not
    rw [myrealloc, Nat.add_sub_cancel, hremove] at hret
    simp only [Option.bind_eq_bind, Option.bind_some, hblock] at hret
    obtain ⟨rfl, rfl⟩ := Prod.mk.inj (Option.some.inj hret)
    intro hexact
    have hmem : (e.1.ptr, e.1.size) ∈ st.blocks :=
      h.blocks.mem_iff.mp (List.mem_map_of_mem (List.mem_append_right _ List.mem_cons_self))
    have htracks := (tracks_iff hconsists _ _).mp ((hexact.tracked _ _).mpr hmem)
    have hgone := (List.mem_filter.mp (hperm.mem_iff.mp htracks)).2
    exact of_decide_eq_true hgone rfl
  | some ptr =>
    obtain ⟨hfresh, _⟩ := hmoved ptr hblock
    by_cases hroom : HasRoom (Heap_roundup size)
    · cases hfile : got.file with
      | false =>
        rw [myrealloc, Nat.add_sub_cancel, hremove] at hret
        simp only [Option.bind_eq_bind, Option.bind_some, hblock] at hret
        rw [if_neg (not_not_intro hroom), if_pos hfile] at hret
        cases hret
      | true =>
        -- the new block is there, and it has no record
        have hnode : got.node = none := by
          refine of_not_not fun hnode => hspared ⟨?_, hroom, hfile, hnode⟩
          rw [hblock]
          exact Option.some_ne_none ptr
        have hkey : ptr ∉ (N'.map blockOf).map Prod.fst := fun hmem =>
          hfresh ((hperm.map Prod.fst).mem_iff.mp hmem)
        have hadd := TreeAdd_block_none (s := ⟨file, line, ptr, Heap_roundup size⟩) hconsists hkey
          (recordSize + (blockLength (Heap_roundup size) - e.1.size) -
            UInt64.ofNat (strlen e.1.file) + filenamelen file)
        rw [← hnode] at hadd
        rw [myrealloc_block hremove hblock hroom hfile hadd] at hret
        obtain ⟨rfl, rfl⟩ := Prod.mk.inj (Option.some.inj hret)
        intro hexact
        have htracks := (hexact.tracked ptr (Heap_roundup size)).mpr List.mem_cons_self
        exact hkey (List.mem_map_of_mem (f := Prod.fst) ((tracks_iff hconsists _ _).mp htracks))
    · rw [myrealloc, Nat.add_sub_cancel, hremove] at hret
      simp only [Option.bind_eq_bind, Option.bind_some, hblock] at hret
      rw [if_pos hroom] at hret
      cases hret

end Heap
end PahoMqtt
