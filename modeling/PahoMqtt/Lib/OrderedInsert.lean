import Mathlib.Data.List.Sort
import Mathlib.Data.List.Nodup

/-!
# Insertion by rank

An element goes before the first one of greater rank, and to the end if there
is none.  Elements of different ranks end up in the order of their ranks,
whatever the order they are inserted in.
-/

namespace PahoMqtt
namespace Lib

universe u v

variable {α : Type u} {ν : Type v} [LinearOrder ν] (rank : α → ν)

/-- Insert `a` before the first element of greater rank. -/
def insertBy (l : List α) (a : α) : List α :=
  l.orderedInsert (fun a b => rank a < rank b) a

/-- Every element has a smaller rank than those behind it. -/
def Ascending (l : List α) : Prop :=
  l.Pairwise (fun a b => rank a < rank b)

variable {rank}

theorem insertBy_perm
    (l : List α) (a : α) :
    (insertBy rank l a).Perm (a :: l) :=
  List.perm_orderedInsert _ a l

theorem insertBy_ascending
    {l : List α} {a : α}
    (hsorted : Ascending rank l)
    (hnew : ∀ b ∈ l, rank b ≠ rank a) :
    Ascending rank (insertBy rank l a) := by
  induction l with
  | nil =>
      exact List.pairwise_singleton _ a
  | cons b l ih =>
      rw [Ascending, List.pairwise_cons] at hsorted
      rw [insertBy, List.orderedInsert_cons]
      split
      next hlt =>
        refine List.pairwise_cons.mpr ⟨?_, List.pairwise_cons.mpr hsorted⟩
        intro x hx
        rcases List.mem_cons.mp hx with rfl | hx
        · exact hlt
        · exact hlt.trans (hsorted.1 x hx)
      next hge =>
        have hlt : rank b < rank a := lt_of_le_of_ne (not_lt.mp hge) (hnew b List.mem_cons_self)
        refine List.pairwise_cons.mpr ⟨?_, ih hsorted.2
          (fun x hx => hnew x (List.mem_cons_of_mem b hx))⟩
        intro x hx
        rcases List.mem_cons.mp ((insertBy_perm l a).mem_iff.mp hx) with rfl | hx
        · exact hlt
        · exact hsorted.1 x hx

/-- Inserting elements one by one loses none. -/
theorem foldl_insertBy_perm
    (done l : List α) :
    (l.foldl (insertBy rank) done).Perm (done ++ l) := by
  induction l generalizing done with
  | nil =>
      rw [List.append_nil]
      exact List.Perm.refl done
  | cons a l ih =>
      have hperm : (insertBy rank done a ++ l).Perm (done ++ a :: l) :=
        ((insertBy_perm done a).append_right l).trans List.perm_middle.symm
      exact (ih (insertBy rank done a)).trans hperm

/-- Inserting elements of different ranks one by one sorts them. -/
theorem foldl_insertBy_ascending
    {done l : List α}
    (hsorted : Ascending rank done)
    (hnodup : ((done ++ l).map rank).Nodup) :
    Ascending rank (l.foldl (insertBy rank) done) := by
  induction l generalizing done with
  | nil =>
      exact hsorted
  | cons a l ih =>
      have hperm : (insertBy rank done a ++ l).Perm (done ++ a :: l) :=
        ((insertBy_perm done a).append_right l).trans List.perm_middle.symm
      have hnew : ∀ x ∈ done, rank x ≠ rank a := by
        rw [List.map_append] at hnodup
        intro x hx
        exact (List.nodup_append.mp hnodup).2.2 _ (List.mem_map_of_mem hx) _
          (List.mem_map_of_mem List.mem_cons_self)
      exact ih (insertBy_ascending hsorted hnew) ((hperm.map rank).nodup_iff.mpr hnodup)

/-- There is one list in the order of the ranks. -/
theorem ascending_unique
    {l₁ l₂ : List α}
    (h₁ : Ascending rank l₁)
    (h₂ : Ascending rank l₂)
    (hperm : l₁.Perm l₂) :
    l₁ = l₂ :=
  hperm.eq_of_pairwise
    (fun _ _ _ _ hab hba => absurd (hab.trans hba) (lt_irrefl _)) h₁ h₂

theorem Ascending.nodup
    {l : List α}
    (h : Ascending rank l) :
    (l.map rank).Nodup := by
  rw [List.Nodup, List.pairwise_map]
  exact h.imp (fun hlt => hlt.ne)

/-- Inserting the elements of an ascending list in any order gives the list. -/
theorem foldl_insertBy_eq
    {l ordered : List α}
    (hordered : Ascending rank ordered)
    (hperm : l.Perm ordered) :
    l.foldl (insertBy rank) [] = ordered := by
  have hnodup : (([] ++ l).map rank).Nodup :=
    (hperm.map rank).nodup_iff.mpr hordered.nodup
  exact ascending_unique (foldl_insertBy_ascending List.Pairwise.nil hnodup) hordered
    ((foldl_insertBy_perm [] l).trans hperm)

end Lib
end PahoMqtt
