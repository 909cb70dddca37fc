import PahoMqtt.HeapTracking
import PahoMqtt.Lib.Runs

/-!
# Runs of the heap

Any calls of `mymalloc`, `myfree` and `myrealloc`, one after the other, with an
allocator that may fail at each of them.
-/

namespace PahoMqtt
namespace Heap

/-- A call with what it returns. -/
def Step (st : HeapState) (e : HeapCall × Option Addr) (st' : HeapState) : Prop :=
  e.1.Valid st ∧ e.1.run st = some (e.2, st')

/-- A run of the heap. -/
abbrev HeapRun := List (Lib.Transition HeapState (HeapCall × Option Addr))

/-- The maximum `current_size` that has been reached. -/
def peak (tr : HeapRun) : Nat :=
  tr.foldl (fun most x => max most x.post.current_size.toNat) 0

/-- A call keeps the records and the sizes, and changes nothing where it allocates nothing. -/
structure Keeps (st : HeapState) (call : HeapCall) (ret : Option Addr) (st' : HeapState) :
    Prop where
  exact : Exact st'
  max_size : st'.max_size.toNat = max st.max_size.toNat st'.current_size.toNat
  unchanged : call.Allocates → ret = none →
    (∀ ptr size, Tracks st' ptr size ↔ Tracks st ptr size) ∧ st'.current_size = st.current_size

variable {st st' : HeapState} {N : List (Addr × (StorageElement × UInt64))}
variable {call : HeapCall} {ret : Option Addr}

theorem run_spared
    (h : Accounts st N)
    (hvalid : call.Valid st)
    (hspared : call.Spared) :
    ∃ ret st' N', call.run st = some (ret, st') ∧ Accounts st' N' ∧ Keeps st call ret st' := by
  cases call with
  | malloc file line size got =>
    obtain ⟨ret, st', N', hret, haccounts, hmax, hsame⟩ := mymalloc_spared h hvalid hspared
    refine ⟨ret, st', N', hret, haccounts, haccounts.exact, hmax, fun _ hnone => ?_⟩
    obtain rfl := hsame hnone
    exact ⟨fun _ _ => Iff.rfl, rfl⟩
  | free p =>
    obtain ⟨st', N', hret, haccounts, hmax⟩ := myfree_spec h hvalid
    refine ⟨none, st', N', ?_, haccounts, haccounts.exact, hmax, fun hallocates => ?_⟩
    · rw [HeapCall.run, hret]
      rfl
    · exact hallocates.elim
  | realloc file line p size got =>
    obtain ⟨q, st', N', hret, haccounts, hmax⟩ := myrealloc_spared h hvalid hspared
    exact ⟨some q, st', N', hret, haccounts, haccounts.exact, hmax, nofun⟩

theorem run_not_spared
    (h : Accounts st N)
    (hvalid : call.Valid st)
    (hspared : ¬call.Spared)
    (hret : call.run st = some (ret, st')) :
    ¬Exact st' := by
  cases call with
  | malloc file line size got => exact mymalloc_not_spared h hvalid hspared hret
  | free p => exact absurd trivial hspared
  | realloc file line p size got => exact myrealloc_not_spared h hvalid hspared hret

/-- A call in a state whose records are the blocks keeps them exactly if it is spared. -/
theorem keeps_iff
    (h : Accounts st N)
    (hstep : Step st (call, ret) st') :
    Keeps st call ret st' ↔ call.Spared := by
  obtain ⟨hvalid, hret⟩ := hstep
  constructor
  · intro hkeeps
    by_contra hspared
    exact run_not_spared h hvalid hspared hret hkeeps.exact
  · intro hspared
    obtain ⟨ret', st'', N', hret', _, hkeeps⟩ := run_spared h hvalid hspared
    obtain ⟨rfl, rfl⟩ := Prod.mk.inj (Option.some.inj (hret.symm.trans hret'))
    exact hkeeps

theorem accounts_step
    (h : ∃ N, Accounts st N)
    (hspared : call.Spared)
    (hstep : Step st (call, ret) st') :
    (∃ N, Accounts st' N) ∧ Keeps st call ret st' := by
  obtain ⟨N, h⟩ := h
  obtain ⟨ret', st'', N', hret', haccounts, hkeeps⟩ := run_spared h hstep.1 hspared
  obtain ⟨rfl, rfl⟩ := Prod.mk.inj (Option.some.inj (hstep.2.symm.trans hret'))
  exact ⟨⟨N', haccounts⟩, hkeeps⟩

/-- All along a run whose calls are spared, the nodes of the tree are the blocks. -/
theorem run_accounts
    {tr : HeapRun}
    (hrun : Lib.Runs Step Heap_initialize tr st)
    (hspared : ∀ x ∈ tr, x.event.1.Spared) :
    (∃ N, Accounts st N) ∧ st.max_size.toNat = peak tr := by
  have hinitial : (∃ N, Accounts Heap_initialize N) ∧
      Heap_initialize.max_size.toNat = peak [] :=
    ⟨⟨[], accounts_initialize⟩, rfl⟩
  refine (hrun.history_of (I := fun tr st => (∃ N, Accounts st N) ∧ st.max_size.toNat = peak tr)
    (C := fun _ e => e.1.Spared) ?_ hinitial hspared).2
  intro tr st e st' h hspared hstep
  obtain ⟨haccounts, hkeeps⟩ := accounts_step h.1 hspared hstep
  refine ⟨haccounts, ?_⟩
  rw [peak, List.foldl_append, ← peak, ← h.2]
  exact hkeeps.max_size

/-- `mymalloc` of 16 bytes; the allocator does not fail. -/
def sixteenBytes : HeapCall :=
  .malloc [109] 1 16 ⟨true, true, some 4096, some 64⟩

/-- `myrealloc` of these to 32 bytes; the allocator fails. -/
def doubled : HeapCall :=
  .realloc [109] 2 4104 32 ⟨none, true, some 64⟩

/-- Without its record the block of 16 bytes is still there, and 32 bytes are counted. -/
theorem sixteenBytes_doubled :
    ∃ st st', Step Heap_initialize (sixteenBytes, some 4104) st ∧
      Step st (doubled, none) st' ∧ st.current_size = 16 ∧ st'.current_size = 32 ∧
      st'.max_size = 32 ∧ (4096, 16) ∈ st'.blocks ∧ st'.heap.TreeFind 4096 = some none := by
  have hvalid : sixteenBytes.Valid Heap_initialize := by
    refine ⟨?_, ?_⟩
    · rintro ptr ⟨⟩
      exact ⟨List.not_mem_nil, by decide⟩
    · rintro node ⟨⟩
      rfl
  obtain ⟨st, st', hret, hret', hblocks, hremove, hrest⟩ : ∃ st st',
      sixteenBytes.run Heap_initialize = some (some 4104, st) ∧
      doubled.run st = some (none, st') ∧ st.blocks = [(4096, 16)] ∧
      (∃ s heap, st.heap.TreeRemoveKey 4096 = some (s, heap) ∧ heap.node 64 = none) ∧
      st.current_size = 16 ∧ st'.current_size = 32 ∧ st'.max_size = 32 ∧
      st'.blocks = [(4096, 16)] ∧ st'.heap.TreeFind 4096 = some none :=
    ⟨_, _, rfl, rfl, rfl, ⟨_, _, rfl, rfl⟩, rfl, rfl, rfl, rfl, rfl⟩
  obtain ⟨hsize, hsize', hmax, hblocks', hfind⟩ := hrest
  have hvalid' : doubled.Valid st := by
    refine ⟨4096, ?_, rfl, nofun, ?_⟩
    · rw [hblocks]
      exact List.mem_cons_self
    · rintro node ⟨⟩ s heap hs
      obtain ⟨s', heap', hs', hfree⟩ := hremove
      obtain ⟨rfl, rfl⟩ := Prod.mk.inj (Option.some.inj (hs.symm.trans hs'))
      exact hfree
  refine ⟨st, st', ⟨hvalid, hret⟩, ⟨hvalid', hret'⟩, hsize, hsize', hmax, ?_, hfind⟩
  rw [hblocks']
  exact List.mem_cons_self

end Heap
end PahoMqtt
