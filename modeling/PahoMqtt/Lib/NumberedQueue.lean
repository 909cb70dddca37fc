import PahoMqtt.Lib.ExactMap
import PahoMqtt.Lib.OrderedInsert

/-!
# Queues of numbered records

A queue is kept in an exact map, one record for each entry, under a key that
carries the number of the entry.  As long as every new entry takes a number
greater than those of the entries still queued, the records tell the queue and
its order, whatever else the map holds.
-/

namespace PahoMqtt
namespace Lib

universe u v w

/-- A record: its kind and its number make its key. -/
structure Record (σ : Type u) (β : Type v) where
  kind : σ
  seqno : Nat
  bytes : β

/-- The keys of a queue, and how they are told apart and read. -/
structure Numbering (σ : Type u) (κ : Type w) where
  key : σ → Nat → κ
  key_inj : ∀ s t m n, key s m = key t n → s = t ∧ m = n
  isKey : κ → Bool
  isKey_key : ∀ s n, isKey (key s n) = true
  number : κ → Nat
  number_key : ∀ s n, number (key s n) = n

namespace Numbering

variable {σ : Type u} {β : Type v} {κ : Type w}

/-- The key of a record. -/
def keyOf (N : Numbering σ κ) (r : Record σ β) : κ :=
  N.key r.kind r.seqno

/-- The records of the queue are those of its entries, numbered in their order. -/
structure Holds (N : Numbering σ κ) (store : ExactMap κ β) (queue : List (Record σ β)) :
    Prop where
  stored : ∀ r ∈ queue, store (N.keyOf r) = some r.bytes
  only : ∀ k, N.isKey k = true → store k ≠ none → ∃ r ∈ queue, k = N.keyOf r
  ascending : Ascending Record.seqno queue

namespace Holds

variable {N : Numbering σ κ} {store : ExactMap κ β} {queue : List (Record σ β)}

theorem congr
    {store' : ExactMap κ β}
    (h : N.Holds store queue)
    (hsame : ∀ k, N.isKey k = true → store' k = store k) :
    N.Holds store' queue where
  stored r hr := (hsame _ (N.isKey_key r.kind r.seqno)).trans (h.stored r hr)
  only k hk hne := by
    rw [hsame k hk] at hne
    exact h.only k hk hne
  ascending := h.ascending

theorem keys_nodup
    (h : N.Holds store queue) :
    (queue.map N.keyOf).Nodup := by
  rw [List.Nodup, List.pairwise_map]
  refine h.ascending.imp (fun hlt heq => ?_)
  exact absurd (N.key_inj _ _ _ _ heq).2 hlt.ne

/-- An enumeration of the map yields the keys of the queue in some order. -/
theorem filter_perm
    (h : N.Holds store queue)
    {keys : List κ}
    (hkeys : store.Enumerates keys) :
    (keys.filter N.isKey).Perm (queue.map N.keyOf) := by
  refine (List.perm_ext_iff_of_nodup (hkeys.nodup.filter _) h.keys_nodup).mpr (fun k => ?_)
  rw [List.mem_filter, hkeys.mem_iff, List.mem_map]
  constructor
  · rintro ⟨hne, hk⟩
    obtain ⟨r, hr, rfl⟩ := h.only k hk hne
    exact ⟨r, hr, rfl⟩
  · rintro ⟨r, hr, rfl⟩
    refine ⟨?_, N.isKey_key _ _⟩
    rw [h.stored r hr]
    exact Option.some_ne_none _

/-- Sorted by their numbers, the keys stand in the order of the queue. -/
theorem filter_sorted
    (h : N.Holds store queue)
    {keys : List κ}
    (hkeys : store.Enumerates keys)
    (hsorted : keys.Pairwise (fun j k => N.number j ≤ N.number k)) :
    keys.filter N.isKey = queue.map N.keyOf := by
  refine (h.filter_perm hkeys).eq_of_pairwise ?_ (hsorted.filter _) ?_
  · intro j k hj hk hjk hkj
    have hj' := (h.filter_perm hkeys).mem_iff.mp hj
    obtain ⟨r, hr, rfl⟩ := List.mem_map.mp hj'
    obtain ⟨t, ht, rfl⟩ := List.mem_map.mp hk
    have hnumber : r.seqno = t.seqno := by
      have hle := le_antisymm hjk hkj
      simpa only [keyOf, N.number_key] using hle
    have hrt : r = t := List.inj_on_of_nodup_map h.ascending.nodup hr ht hnumber
    rw [hrt]
  · rw [List.pairwise_map]
    refine h.ascending.imp (fun hlt => ?_)
    simpa only [keyOf, N.number_key] using hlt.le

/-- The new entry's key was free. -/
theorem fresh
    (h : N.Holds store queue)
    {r : Record σ β}
    (hnext : ∀ t ∈ queue, t.seqno < r.seqno) :
    store (N.keyOf r) = none := by
  by_contra hne
  obtain ⟨t, ht, heq⟩ := h.only _ (N.isKey_key _ _) hne
  exact absurd (N.key_inj _ _ _ _ heq).2 (hnext t ht).ne'

variable [DecidableEq κ]

/-- A new entry with a number greater than those queued. -/
theorem put
    (h : N.Holds store queue)
    {r : Record σ β}
    (hnext : ∀ t ∈ queue, t.seqno < r.seqno) :
    N.Holds (store.put (N.keyOf r) r.bytes) (queue ++ [r]) where
  stored t ht := by
    rcases List.mem_append.mp ht with ht | ht
    · have hne : N.keyOf t ≠ N.keyOf r := fun heq =>
        absurd (N.key_inj _ _ _ _ heq).2 (hnext t ht).ne
      rw [ExactMap.put_of_ne store _ hne]
      exact h.stored t ht
    · obtain rfl := List.mem_singleton.mp ht
      exact ExactMap.put_self _ _ _
  only k hk hne := by
    by_cases heq : k = N.keyOf r
    · exact ⟨r, List.mem_append_right _ List.mem_cons_self, heq⟩
    · rw [ExactMap.put_of_ne store _ heq] at hne
      obtain ⟨t, ht, rfl⟩ := h.only k hk hne
      exact ⟨t, List.mem_append_left _ ht, rfl⟩
  ascending := by
    refine List.pairwise_append.mpr ⟨h.ascending, List.pairwise_singleton _ _, ?_⟩
    intro t ht s hs
    obtain rfl := List.mem_singleton.mp hs
    exact hnext t ht

/-- An entry leaves the queue with its record. -/
theorem remove
    {xs ys : List (Record σ β)} {r : Record σ β}
    (h : N.Holds store (xs ++ r :: ys)) :
    N.Holds (store.remove (N.keyOf r)) (xs ++ ys) where
  stored t ht := by
    have hmem : t ∈ xs ++ r :: ys := by
      rcases List.mem_append.mp ht with ht | ht
      · exact List.mem_append_left _ ht
      · exact List.mem_append_right _ (List.mem_cons_of_mem r ht)
    have hne : N.keyOf t ≠ N.keyOf r := by
      have hnodup := h.keys_nodup
      rw [List.map_append, List.map_cons, List.nodup_middle, List.nodup_cons,
        ← List.map_append] at hnodup
      exact fun heq => hnodup.1 (heq ▸ List.mem_map_of_mem ht)
    rw [ExactMap.remove_of_ne store hne]
    exact h.stored t hmem
  only k hk hne := by
    have hkr : k ≠ N.keyOf r := by
      rintro rfl
      exact hne (ExactMap.remove_self _ _)
    rw [ExactMap.remove_of_ne store hkr] at hne
    obtain ⟨t, ht, rfl⟩ := h.only k hk hne
    have htr : t ≠ r := by
      rintro rfl
      exact hkr rfl
    refine ⟨t, ?_, rfl⟩
    simpa [htr] using ht
  ascending := by
    refine h.ascending.sublist ?_
    exact List.Sublist.append_left (List.sublist_cons_self r ys) xs

/-- Removing a key that no entry has. -/
theorem remove_other
    (h : N.Holds store queue)
    {k : κ}
    (hk : ∀ r ∈ queue, N.keyOf r ≠ k) :
    N.Holds (store.remove k) queue where
  stored r hr := by
    rw [ExactMap.remove_of_ne store (hk r hr)]
    exact h.stored r hr
  only j hj hne := by
    have hjk : j ≠ k := by
      rintro rfl
      exact hne (ExactMap.remove_self _ _)
    rw [ExactMap.remove_of_ne store hjk] at hne
    exact h.only j hj hne
  ascending := h.ascending

end Holds

/-- All keys of the queue that are in the map have numbers below a bound. -/
def Within (N : Numbering σ κ) (store : ExactMap κ β) (bound : Nat) : Prop :=
  ∀ k, N.isKey k = true → store k ≠ none → ∃ s n, n < bound ∧ k = N.key s n

namespace Within

variable {N : Numbering σ κ} {store : ExactMap κ β} {bound : Nat}

theorem empty
    (N : Numbering σ κ) (bound : Nat) :
    N.Within (ExactMap.empty : ExactMap κ β) bound :=
  fun _ _ hne => absurd rfl hne

theorem congr
    {store' : ExactMap κ β}
    (h : N.Within store bound)
    (hsame : ∀ k, N.isKey k = true → store' k = store k) :
    N.Within store' bound := by
  intro k hk hne
  rw [hsame k hk] at hne
  exact h k hk hne

theorem number_lt
    (h : N.Within store bound)
    {k : κ}
    (hk : N.isKey k = true)
    (hne : store k ≠ none) :
    N.number k < bound := by
  obtain ⟨s, n, hlt, rfl⟩ := h k hk hne
  rwa [N.number_key]

variable [DecidableEq κ]

theorem put
    (h : N.Within store bound)
    (s : σ) {n : Nat}
    (hn : n < bound)
    (b : β) :
    N.Within (store.put (N.key s n) b) bound := by
  intro k hk hne
  by_cases heq : k = N.key s n
  · exact ⟨s, n, hn, heq⟩
  · rw [ExactMap.put_of_ne store b heq] at hne
    exact h k hk hne

theorem remove
    (h : N.Within store bound)
    (j : κ) :
    N.Within (store.remove j) bound := by
  intro k hk hne
  have hkj : k ≠ j := by
    rintro rfl
    exact hne (ExactMap.remove_self _ _)
  rw [ExactMap.remove_of_ne store hkj] at hne
  exact h k hk hne

end Within

end Numbering

end Lib
end PahoMqtt
