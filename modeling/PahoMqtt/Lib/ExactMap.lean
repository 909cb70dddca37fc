import Mathlib.Logic.Function.Basic
import Mathlib.Data.List.Nodup

/-!
# Exact maps

A key-value store that behaves as an exact map: a write replaces the value of
its key and of no other, a removal forgets its key and no other, and the keys
can be enumerated in any order.
-/

namespace PahoMqtt
namespace Lib

universe u v

/-- A store from keys to values; `none` is an absent key. -/
abbrev ExactMap (κ : Type u) (β : Type v) := κ → Option β

namespace ExactMap

variable {κ : Type u} {β : Type v} [DecidableEq κ]

/-- The store without any record. -/
def empty : ExactMap κ β := fun _ => none

/-- Write one record. -/
def put (m : ExactMap κ β) (k : κ) (b : β) : ExactMap κ β :=
  Function.update m k (some b)

/-- Remove one record; removing an absent key changes nothing. -/
def remove (m : ExactMap κ β) (k : κ) : ExactMap κ β :=
  Function.update m k none

omit [DecidableEq κ] in
@[simp] theorem empty_apply
    (k : κ) :
    (empty : ExactMap κ β) k = none := by
  rfl

theorem put_apply
    (m : ExactMap κ β) (k j : κ) (b : β) :
    m.put k b j = if j = k then some b else m j := by
  simp [put, Function.update_apply]

theorem remove_apply
    (m : ExactMap κ β) (k j : κ) :
    m.remove k j = if j = k then none else m j := by
  simp [remove, Function.update_apply]

@[simp] theorem put_self
    (m : ExactMap κ β) (k : κ) (b : β) :
    m.put k b k = some b := by
  simp [put_apply]

@[simp] theorem remove_self
    (m : ExactMap κ β) (k : κ) :
    m.remove k k = none := by
  simp [remove_apply]

theorem put_of_ne
    (m : ExactMap κ β) {k j : κ} (b : β) (hne : j ≠ k) :
    m.put k b j = m j := by
  simp [put_apply, hne]

theorem remove_of_ne
    (m : ExactMap κ β) {k j : κ} (hne : j ≠ k) :
    m.remove k j = m j := by
  simp [remove_apply, hne]

/-- Removing what was written under a free key. -/
theorem remove_put
    {m : ExactMap κ β} {k : κ} (b : β)
    (hfree : m k = none) :
    (m.put k b).remove k = m := by
  rw [remove, put, Function.update_idem, ← hfree, Function.update_eq_self]

/-- `ks` enumerates the keys of `m`, each once, in some order. -/
structure Enumerates (m : ExactMap κ β) (ks : List κ) : Prop where
  nodup : ks.Nodup
  mem_iff : ∀ k, k ∈ ks ↔ m k ≠ none

omit [DecidableEq κ] in
/-- The number of keys does not depend on the enumeration. -/
theorem Enumerates.length_eq
    {m : ExactMap κ β} {ks ks' : List κ}
    (h : m.Enumerates ks)
    (h' : m.Enumerates ks') :
    ks.length = ks'.length := by
  refine ((List.perm_ext_iff_of_nodup h.nodup h'.nodup).mpr ?_).length_eq
  intro k
  rw [h.mem_iff, h'.mem_iff]

end ExactMap

end Lib
end PahoMqtt
