import Mathlib.Data.List.Basic

/-!
# Filling a buffer

A buffer of a fixed length is filled by writing parts into it.  A write that does
not fit is not carried out, so that a sequence of writes gives a result only if
all of them stayed inside the buffer.  Parts that are written one after the other
leave nothing of the old contents exactly if their lengths add up to that of the
buffer.
-/

namespace PahoMqtt
namespace Lib

universe u

variable {α : Type u}

/-- Write `data` at `offset`; none if it does not fit. -/
def store (buffer : List α) (offset : Nat) (data : List α) : Option (List α) :=
  if offset + data.length ≤ buffer.length then
    some (buffer.take offset ++ data ++ buffer.drop (offset + data.length))
  else none

/-- Write parts one after the other. -/
def storeParts (buffer : List α) : (offset : Nat) → List (List α) → Option (List α)
  | _, [] => some buffer
  | offset, part :: parts =>
      (store buffer offset part).bind fun buffer => storeParts buffer (offset + part.length) parts

theorem store_of_le
    {buffer data : List α} {offset : Nat}
    (h : offset + data.length ≤ buffer.length) :
    store buffer offset data =
      some (buffer.take offset ++ data ++ buffer.drop (offset + data.length)) :=
  if_pos h

/-- One element that fits. -/
theorem store_singleton
    {buffer : List α} {pos : Nat}
    (h : pos < buffer.length)
    (b : α) :
    store buffer pos [b] = some (buffer.set pos b) := by
  have hfits : pos + [b].length ≤ buffer.length := h
  rw [store_of_le hfits, List.set_eq_take_append_cons_drop, if_pos h]
  simp

theorem take_succ_set
    {buffer : List α} {pos : Nat}
    (h : pos < buffer.length)
    (b : α) :
    (buffer.set pos b).take (pos + 1) = buffer.take pos ++ [b] := by
  rw [List.set_eq_take_append_cons_drop, if_pos h]
  have htaken : (buffer.take pos).length = pos := by
    rw [List.length_take]
    omega
  rw [List.take_append, htaken, List.take_of_length_le (by omega)]
  simp

theorem length_of_store
    {buffer data after : List α} {offset : Nat}
    (h : store buffer offset data = some after) :
    after.length = buffer.length := by
  rw [store] at h
  split at h
  · obtain rfl := Option.some.inj h
    simp only [List.length_append, List.length_take, List.length_drop]
    omega
  · cases h

/-- Parts that fit stand in the buffer one after the other, with the rest as it was. -/
theorem storeParts_of_le
    {buffer : List α} {offset : Nat} {parts : List (List α)}
    (h : offset + parts.flatten.length ≤ buffer.length) :
    storeParts buffer offset parts =
      some (buffer.take offset ++ parts.flatten ++
        buffer.drop (offset + parts.flatten.length)) := by
  induction parts generalizing buffer offset with
  | nil =>
      simp [storeParts]
  | cons part parts ih =>
      rw [List.flatten_cons, List.length_append] at h
      have hpart : offset + part.length ≤ buffer.length := by omega
      have htaken : (buffer.take offset ++ part).length = offset + part.length := by
        rw [List.length_append, List.length_take]
        omega
      have hrest : offset + part.length + parts.flatten.length ≤
          (buffer.take offset ++ part ++ buffer.drop (offset + part.length)).length := by
        rw [List.length_append, htaken, List.length_drop]
        omega
      have hskipped : (buffer.take offset ++ part ++ buffer.drop (offset + part.length)).drop
          (offset + part.length + parts.flatten.length) =
            buffer.drop (offset + (part.length + parts.flatten.length)) := by
        rw [← List.drop_drop, List.drop_left' htaken, List.drop_drop, Nat.add_assoc]
      rw [storeParts, store_of_le hpart, Option.bind_some, ih hrest, List.take_left' htaken,
        hskipped, List.flatten_cons, List.length_append]
      simp only [List.append_assoc]

/-- Parts that do not fit are not all written. -/
theorem storeParts_of_lt
    {buffer : List α} {offset : Nat} {parts : List (List α)}
    (hoffset : offset ≤ buffer.length)
    (h : buffer.length < offset + parts.flatten.length) :
    storeParts buffer offset parts = none := by
  induction parts generalizing buffer offset with
  | nil =>
      simp only [List.flatten_nil, List.length_nil] at h
      omega
  | cons part parts ih =>
      rw [List.flatten_cons, List.length_append] at h
      rw [storeParts]
      cases hstore : store buffer offset part with
      | none =>
          rfl
      | some after =>
          have hlength := length_of_store hstore
          have hfits : offset + part.length ≤ buffer.length := by
            by_contra hnot
            rw [store, if_neg hnot] at hstore
            cases hstore
          exact ih (by omega) (by omega)

/-- A buffer is filled exactly by parts whose lengths add up to its own. -/
theorem storeParts_eq_flatten_iff
    (buffer : List α) (parts : List (List α)) :
    storeParts buffer 0 parts = some parts.flatten ↔ parts.flatten.length = buffer.length := by
  constructor
  · intro h
    rcases Nat.lt_or_ge buffer.length parts.flatten.length with hlt | hle
    · rw [storeParts_of_lt (Nat.zero_le _) (by omega)] at h
      cases h
    · rw [storeParts_of_le (by omega)] at h
      have hlength := congrArg List.length (Option.some.inj h)
      simp only [List.take_zero, List.nil_append, List.length_append, List.length_drop] at hlength
      omega
  · intro h
    rw [storeParts_of_le (by omega), List.take_zero, List.nil_append, Nat.zero_add, h,
      List.drop_length, List.append_nil]

end Lib
end PahoMqtt
