import Mathlib.Data.List.Basic

/-!
# Readers over a buffer

A reader takes a buffer and an offset into it, and gives a value with the
offset behind it, or an error.  A local reader does not look at what stands
before its offset or behind what it reads, so that what it reads from a few
bytes on their own it reads from them anywhere.
-/

namespace PahoMqtt
namespace Lib

universe u v w

abbrev Reader (β : Type u) (ε : Type v) (α : Type w) :=
  List β → Nat → Except ε (α × Nat)

namespace Reader

variable {β : Type u} {ε : Type v} {α : Type w}

/-- A successful read gives the same value inside every larger buffer. -/
def Local (r : Reader β ε α) : Prop :=
  ∀ ⦃buf : List β⦄ ⦃pos pos' : Nat⦄ ⦃a : α⦄, r buf pos = .ok (a, pos') →
    ∀ front back : List β,
      r (front ++ (buf ++ back)) (front.length + pos) = .ok (a, front.length + pos')

/-- `r` reads `a` from `bytes` wherever they stand before a `rest` that `P` admits. -/
def Reads (r : Reader β ε α) (bytes : List β) (a : α) (P : List β → Prop) : Prop :=
  ∀ ⦃buf : List β⦄ ⦃pos : Nat⦄ ⦃rest : List β⦄, buf.drop pos = bytes ++ rest → P rest →
    r buf pos = .ok (a, pos + bytes.length)

/-- A buffer, split at an offset that something stands behind. -/
theorem split_of_drop
    {buf bytes rest : List β} {pos : Nat}
    (hbytes : bytes ≠ [])
    (h : buf.drop pos = bytes ++ rest) :
    ∃ front : List β, front.length = pos ∧ buf = front ++ (bytes ++ rest) := by
  refine ⟨buf.take pos, ?_, ?_⟩
  · have hlen : (buf.drop pos).length ≠ 0 := by
      rw [h]
      simp [hbytes]
    rw [List.length_drop] at hlen
    rw [List.length_take]
    omega
  · rw [← h, List.take_append_drop]

/-- What stands behind the first of two runs of bytes. -/
theorem drop_add
    {buf first rest : List β} {pos : Nat}
    (h : buf.drop pos = first ++ rest) :
    buf.drop (pos + first.length) = rest := by
  rw [← List.drop_drop, h, List.drop_left]

theorem Local.reads
    {r : Reader β ε α} {bytes : List β} {a : α}
    (hlocal : Local r)
    (hbytes : bytes ≠ [])
    (hread : r bytes 0 = .ok (a, bytes.length)) :
    Reads r bytes a (fun _ => True) := by
  intro buf pos rest h _
  obtain ⟨front, rfl, rfl⟩ := split_of_drop hbytes h
  exact hlocal hread front rest

/-! ### Repetition -/

/-- Read `n` values one after the other. -/
def repeated (r : Reader β ε α) : Nat → Reader β ε (List α)
  | 0, _, pos => .ok ([], pos)
  | n + 1, buf, pos =>
      match r buf pos with
      | .error e => .error e
      | .ok (a, pos) =>
          match repeated r n buf pos with
          | .error e => .error e
          | .ok (as, pos) => .ok (a :: as, pos)

theorem admits_flatMap
    {ι : Type*} {P : List β → Prop} {bytes : ι → List β} {entries : List ι} {rest : List β}
    (hclosed : ∀ x ∈ entries, ∀ rest, P rest → P (bytes x ++ rest))
    (hP : P rest) :
    P (entries.flatMap bytes ++ rest) := by
  induction entries with
  | nil =>
      exact hP
  | cons x entries ih =>
      rw [List.flatMap_cons, List.append_assoc]
      exact hclosed x List.mem_cons_self _ (ih (fun y hy => hclosed y (List.mem_cons_of_mem x hy)))

/-- Entries that are read one by one are read as a list. -/
theorem reads_repeated
    {ι : Type*} {r : Reader β ε α} {P : List β → Prop}
    {bytes : ι → List β} {value : ι → α} {entries : List ι}
    (hclosed : ∀ x ∈ entries, ∀ rest, P rest → P (bytes x ++ rest))
    (hreads : ∀ x ∈ entries, Reads r (bytes x) (value x) P) :
    Reads (repeated r entries.length) (entries.flatMap bytes) (entries.map value) P := by
  induction entries with
  | nil =>
      intro buf pos rest _ _
      rfl
  | cons x entries ih =>
      intro buf pos rest h hP
      have hrest := admits_flatMap (fun y hy => hclosed y (List.mem_cons_of_mem x hy)) hP
      rw [List.flatMap_cons, List.append_assoc] at h
      have hx := hreads x List.mem_cons_self h hrest
      have hxs := ih (fun y hy => hclosed y (List.mem_cons_of_mem x hy))
        (fun y hy => hreads y (List.mem_cons_of_mem x hy)) (drop_add h) hP
      simp only [List.length_cons, repeated, hx, hxs, List.map_cons, List.flatMap_cons,
        List.length_append, Nat.add_assoc]

/-- The error of an entry behind entries that are read is the error of the list. -/
theorem repeated_error
    {ι : Type*} {r : Reader β ε α} {P : List β → Prop} {e : ε}
    {bytes : ι → List β} {value : ι → α} {entries : List ι}
    (hclosed : ∀ x ∈ entries, ∀ rest, P rest → P (bytes x ++ rest))
    (hreads : ∀ x ∈ entries, Reads r (bytes x) (value x) P)
    {buf rest : List β} {pos : Nat}
    (h : buf.drop pos = entries.flatMap bytes ++ rest)
    (hP : P rest)
    (herror : r buf (pos + (entries.flatMap bytes).length) = .error e)
    (n : Nat) :
    repeated r (entries.length + (n + 1)) buf pos = .error e := by
  induction entries generalizing pos with
  | nil =>
      simp only [List.flatMap_nil, List.length_nil, Nat.add_zero] at herror
      simp [repeated, herror]
  | cons x entries ih =>
      rw [List.flatMap_cons, List.append_assoc] at h
      have hrest := admits_flatMap (fun y hy => hclosed y (List.mem_cons_of_mem x hy)) hP
      have hx := hreads x List.mem_cons_self h hrest
      rw [List.flatMap_cons, List.length_append, ← Nat.add_assoc] at herror
      have hxs := ih (fun y hy => hclosed y (List.mem_cons_of_mem x hy))
        (fun y hy => hreads y (List.mem_cons_of_mem x hy)) (drop_add h) herror
      have hlen : (x :: entries).length + (n + 1) = entries.length + (n + 1) + 1 := by
        rw [List.length_cons]
        omega
      rw [hlen, repeated, hx]
      simp [hxs]

end Reader

end Lib
end PahoMqtt
