import Mathlib.Data.List.Basic

/-!
# Resuming a gathering write

A write that takes its data from several buffers can stop at any position.  What
is left of it is found by walking over the buffers with the running total of
their lengths: a buffer behind the position is skipped, the one that holds it
is cut, and the ones after it are taken whole.

The buffers are of any type that has a length, data and a way to skip a part.
-/

namespace PahoMqtt
namespace Lib

universe u v

variable {β : Type u} {α : Type v}

section Resume

variable (len : β → Nat) (skip : β → Nat → β)

/-- What is left of the buffers after `pos`; the first of them starts at `cum`. -/
def resume (pos : Nat) : (cum : Nat) → List β → List β
  | _, [] => []
  | cum, b :: bufs =>
      if pos ≤ cum then b :: resume pos (cum + len b) bufs
      else if pos < cum + len b then skip b (pos - cum) :: resume pos (cum + len b) bufs
      else resume pos (cum + len b) bufs

variable {len skip} {data : β → List α}

/-- Once the position is passed, all buffers are taken as they are. -/
theorem resume_of_le
    {pos cum : Nat} (bufs : List β)
    (h : pos ≤ cum) :
    resume len skip pos cum bufs = bufs := by
  induction bufs generalizing cum with
  | nil =>
      rfl
  | cons b bufs ih =>
      rw [resume, if_pos h, ih (Nat.le_add_right_of_le h)]

/-- What is left holds the data behind the position, in order. -/
theorem flatMap_resume
    {bufs : List β}
    (hlen : ∀ b ∈ bufs, (data b).length = len b)
    (hskip : ∀ b n, data (skip b n) = (data b).drop n)
    (pos cum : Nat) :
    (resume len skip pos cum bufs).flatMap data = (bufs.flatMap data).drop (pos - cum) := by
  induction bufs generalizing cum with
  | nil =>
      simp [resume]
  | cons b bufs ih =>
      obtain ⟨hb, hbufs⟩ := List.forall_mem_cons.mp hlen
      unfold resume
      split
      · rename_i hle
        rw [resume_of_le bufs (Nat.le_add_right_of_le hle), Nat.sub_eq_zero_of_le hle,
          List.drop_zero]
      · rename_i hcum
        split
        · rename_i hcut
          have hpos : pos - cum ≤ (data b).length := by omega
          rw [resume_of_le bufs (Nat.le_of_lt hcut), List.flatMap_cons, List.flatMap_cons, hskip,
            List.drop_append_of_le_length hpos]
        · rename_i hbehind
          have hrest : pos - cum = (data b).length + (pos - (cum + len b)) := by omega
          rw [ih hbufs, List.flatMap_cons, hrest, List.drop_length_add_append]

end Resume

end Lib
end PahoMqtt
