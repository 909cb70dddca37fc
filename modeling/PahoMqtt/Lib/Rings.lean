import Mathlib.Data.List.Chain
import Mathlib.Data.List.Nodup
import Mathlib.Logic.Function.Basic
import PahoMqtt.Lib.Chains

/-!
# Rings of links

A doubly linked list, seen with its header as one more node: the header's
successor is the first node and its predecessor the last.  Then the nodes form
a ring, every node with a link to both of its neighbours, and the edits of a
list, putting a node between two neighbours, taking one out and moving the header
to another place of the ring, are each a few link updates.

Read from its header in either direction, a ring is a chain.
-/

namespace PahoMqtt
namespace Lib

universe u v

variable {ν : Type u}

/-- `x` and `y` are neighbours, linked both ways. -/
def Link (next prev : ν → ν) (x y : ν) : Prop :=
  next x = y ∧ prev y = x

/-- The nodes `qs` in their order, in a ring through the header `h`. -/
def Ring (next prev : ν → ν) (h : ν) (qs : List ν) : Prop :=
  (h :: (qs ++ [h])).IsChain (Link next prev)

/-- A chain reads the successors of all but its last node, and the predecessors of the others. -/
theorem chain_congr
    {next prev next' prev' : ν → ν} {l : List ν}
    (h : l.IsChain (Link next prev))
    (hnext : ∀ x ∈ l.dropLast, next' x = next x)
    (hprev : ∀ y ∈ l.tail, prev' y = prev y) :
    l.IsChain (Link next' prev') := by
  induction l with
  | nil =>
      exact .nil
  | cons x l ih =>
      cases l with
      | nil =>
          exact .singleton x
      | cons y l =>
          rw [List.isChain_cons_cons] at h ⊢
          refine ⟨⟨?_, ?_⟩, ih h.2 ?_ ?_⟩
          · rw [hnext x (by simp), h.1.1]
          · rw [hprev y (by simp), h.1.2]
          · intro z hz
            exact hnext z (by simp [hz])
          · intro z hz
            exact hprev z (List.mem_cons_of_mem _ hz)

namespace Ring

variable {next prev : ν → ν} {h : ν}

theorem nil_iff :
    Ring next prev h [] ↔ next h = h ∧ prev h = h := by
  simp [Ring, Link]

/-- The seam between two halves of the ring. -/
theorem seam
    {xs ys : List ν}
    (hring : Ring next prev h (xs ++ ys)) :
    Link next prev (xs.getLastD h) (ys.headD h) := by
  have hsplit : ∃ before after, h :: (xs ++ ys ++ [h]) =
      before ++ xs.getLastD h :: ys.headD h :: after := by
    rcases List.eq_nil_or_concat xs with rfl | ⟨xs', x, rfl⟩
    · cases ys with
      | nil => exact ⟨[], [], rfl⟩
      | cons y ys => exact ⟨[], ys ++ [h], rfl⟩
    · cases ys with
      | nil => exact ⟨h :: xs', [], by simp⟩
      | cons y ys => exact ⟨h :: xs', ys ++ [h], by simp⟩
  obtain ⟨before, after, heq⟩ := hsplit
  rw [Ring, heq, List.isChain_append_cons_cons] at hring
  exact hring.2.1

/-- The halves of the ring on both sides of a seam. -/
theorem halves
    {xs ys : List ν}
    (hring : Ring next prev h (xs ++ ys)) :
    (h :: xs).IsChain (Link next prev) ∧ (ys ++ [h]).IsChain (Link next prev) := by
  have heq : h :: (xs ++ ys ++ [h]) = (h :: xs) ++ (ys ++ [h]) := by
    simp
  rw [Ring, heq] at hring
  exact ⟨hring.left_of_append, hring.right_of_append⟩

/-- Two halves make a ring if they meet. -/
theorem of_halves
    {xs ys : List ν}
    (hxs : (h :: xs).IsChain (Link next prev))
    (hys : (ys ++ [h]).IsChain (Link next prev))
    (hseam : Link next prev (xs.getLastD h) (ys.headD h)) :
    Ring next prev h (xs ++ ys) := by
  have heq : h :: (xs ++ ys ++ [h]) = (h :: xs) ++ (ys ++ [h]) := by
    simp
  rw [Ring, heq]
  refine hxs.append hys ?_
  intro x hx y hy
  obtain rfl : x = xs.getLastD h := by
    cases xs with
    | nil => simpa using hx.symm
    | cons z xs => simpa [List.getLast?_cons] using hx.symm
  obtain rfl : y = ys.headD h := by
    cases ys with
    | nil => simpa using hy.symm
    | cons z ys => simpa using hy.symm
  exact hseam

/-- A ring depends on the links of its own nodes only. -/
theorem congr
    {next' prev' : ν → ν} {qs : List ν}
    (hring : Ring next prev h qs)
    (hnext : ∀ x ∈ h :: qs, next' x = next x)
    (hprev : ∀ x ∈ h :: qs, prev' x = prev x) :
    Ring next' prev' h qs := by
  refine chain_congr hring ?_ ?_
  · intro x hx
    rw [← List.cons_append, List.dropLast_concat] at hx
    exact hnext x hx
  · intro x hx
    rw [List.tail_cons, List.mem_append, List.mem_singleton, or_comm, ← List.mem_cons] at hx
    exact hprev x hx

/-! ### Ends of a half -/

theorem getLastD_mem
    (xs : List ν) (h : ν) :
    xs.getLastD h ∈ h :: xs := by
  rcases List.eq_nil_or_concat xs with rfl | ⟨xs', x, rfl⟩ <;> simp

theorem headD_mem
    (ys : List ν) (h : ν) :
    ys.headD h ∈ h :: ys := by
  cases ys <;> simp

theorem getLastD_mem_of_ne_nil
    {xs : List ν} (hxs : xs ≠ []) (h : ν) :
    xs.getLastD h ∈ xs := by
  rcases List.eq_nil_or_concat xs with rfl | ⟨xs', x, rfl⟩
  · exact absurd rfl hxs
  · simp

theorem headD_mem_of_ne_nil
    {ys : List ν} (hys : ys ≠ []) (h : ν) :
    ys.headD h ∈ ys := by
  cases ys with
  | nil => exact absurd rfl hys
  | cons y ys => simp

theorem ne_getLastD_of_mem_dropLast
    {xs : List ν} {x : ν}
    (hnodup : xs.Nodup)
    (hx : x ∈ xs.dropLast) :
    x ≠ xs.getLastD h := by
  rcases List.eq_nil_or_concat xs with rfl | ⟨xs', z, rfl⟩
  · simp at hx
  · rw [List.concat_eq_append, List.dropLast_concat] at hx
    rw [List.concat_eq_append] at hnodup
    rw [List.concat_eq_append, List.getLastD_concat]
    rintro rfl
    exact (List.nodup_append.mp hnodup).2.2 x hx x List.mem_cons_self rfl

theorem ne_headD_of_mem_tail
    {ys : List ν} {y : ν}
    (hnodup : ys.Nodup)
    (hy : y ∈ ys.tail) :
    y ≠ ys.headD h := by
  cases ys with
  | nil =>
      simp at hy
  | cons z ys =>
      rintro rfl
      exact (List.nodup_cons.mp hnodup).1 hy

/-! ### Both directions -/

theorem reverse
    {qs : List ν}
    (hring : Ring next prev h qs) :
    Ring prev next h qs.reverse := by
  have heq : (h :: (qs ++ [h])).reverse = h :: (qs.reverse ++ [h]) := by
    simp
  rw [Ring, ← heq, List.isChain_reverse]
  exact hring.imp fun _ _ hlink => ⟨hlink.2, hlink.1⟩

/-- The nodes behind the header, where nothing stands for the header. -/
theorem chain
    {π : Type u} {μ : Type v} {next prev : Option π → Option π} {ps : List π}
    {cell : π → Option μ} {link : μ → Option π} (value : π → μ)
    (hring : Ring next prev none (ps.map some))
    (hcell : ∀ p, cell p = some (value p))
    (hlink : ∀ p, next (some p) = link (value p)) :
    Chain cell link (next none) (ps.map fun p => (p, value p)) := by
  have hfrom : ∀ start, (start :: (ps.map some ++ [none])).IsChain (Link next prev) →
      Chain cell link (next start) (ps.map fun p => (p, value p)) := by
    clear hring
    induction ps with
    | nil =>
        intro start hchain
        rw [(List.isChain_cons_cons.mp hchain).1.1]
        exact .nil
    | cons p ps ih =>
        intro start hchain
        obtain ⟨hfirst, hrest⟩ := List.isChain_cons_cons.mp hchain
        rw [hfirst.1]
        refine .cons (hcell p) ?_
        rw [← hlink]
        exact ih (some p) hrest
  exact hfrom none hring

/-! ### The edits -/

variable [DecidableEq ν]

/-- A new node between the two halves. -/
theorem insert
    {xs ys : List ν} {n : ν}
    (hring : Ring next prev h (xs ++ ys))
    (hnodup : (h :: (xs ++ ys)).Nodup)
    (hnew : n ∉ h :: (xs ++ ys)) :
    Ring
      (Function.update (Function.update next (xs.getLastD h) n) n (ys.headD h))
      (Function.update (Function.update prev (ys.headD h) n) n (xs.getLastD h))
      h (xs ++ n :: ys) := by
  obtain ⟨hxs, hys⟩ := hring.halves
  have hleft : (h :: xs).Nodup :=
    hnodup.sublist ((List.sublist_append_left xs ys).cons_cons h)
  have hright : (h :: ys).Nodup :=
    hnodup.sublist ((List.sublist_append_right xs ys).cons_cons h)
  have hdisjoint : ∀ x ∈ h :: xs, ∀ y ∈ ys, x ≠ y := by
    rw [← List.cons_append] at hnodup
    exact (List.nodup_append.mp hnodup).2.2
  have hnxs : ∀ x ∈ h :: xs, x ≠ n := by
    rintro x hx rfl
    exact hnew (((List.sublist_append_left xs ys).cons_cons h).subset hx)
  have hnys : ∀ y ∈ h :: ys, y ≠ n := by
    rintro y hy rfl
    exact hnew (((List.sublist_append_right xs ys).cons_cons h).subset hy)
  have hlast := getLastD_mem xs h
  have hhead := headD_mem ys h
  refine of_halves (chain_congr hxs ?_ ?_) ?_ ⟨?_, ?_⟩
  · intro x hx
    have hxlast : x ≠ (h :: xs).getLastD h := ne_getLastD_of_mem_dropLast hleft hx
    rw [List.getLastD_cons] at hxlast
    rw [Function.update_of_ne (hnxs x (List.dropLast_subset _ hx)), Function.update_of_ne hxlast]
  · intro y hy
    have hyhead : y ≠ ys.headD h := by
      rcases List.mem_cons.mp hhead with heq | hmem
      · rw [heq]
        rintro rfl
        exact (List.nodup_cons.mp hleft).1 hy
      · exact hdisjoint y (List.mem_cons_of_mem h hy) _ hmem
    rw [Function.update_of_ne (hnxs y (List.mem_cons_of_mem h hy)), Function.update_of_ne hyhead]
  · rw [List.cons_append]
    refine List.IsChain.cons (chain_congr hys ?_ ?_) ?_
    · intro x hx
      rw [List.dropLast_concat] at hx
      have hxlast : x ≠ xs.getLastD h := (hdisjoint _ hlast x hx).symm
      rw [Function.update_of_ne (hnys x (List.mem_cons_of_mem h hx)),
        Function.update_of_ne hxlast]
    · intro y hy
      have hend : (ys ++ [h]).Nodup := (List.nodup_cons.mp hright).2.append
        (List.nodup_singleton h) (by simpa using (List.nodup_cons.mp hright).1)
      have hyhead : y ≠ ys.headD h := by
        have hne := ne_headD_of_mem_tail (h := h) hend hy
        cases ys with
        | nil => exact hne
        | cons z ys => exact hne
      have hmem : y ∈ h :: ys := by
        have hmem := List.mem_of_mem_tail hy
        simpa [or_comm] using hmem
      rw [Function.update_of_ne (hnys y hmem), Function.update_of_ne hyhead]
    · intro y hy
      obtain rfl : y = ys.headD h := by
        cases ys with
        | nil => simpa using hy.symm
        | cons z ys => simpa using hy.symm
      refine ⟨Function.update_self _ _ _, ?_⟩
      rw [Function.update_of_ne (hnys _ hhead), Function.update_self]
  · rw [List.headD_cons, Function.update_of_ne (hnxs _ hlast), Function.update_self]
  · rw [List.headD_cons, Function.update_self]

/-- A node is taken out between the two halves. -/
theorem remove
    {xs ys : List ν} {n : ν}
    (hring : Ring next prev h (xs ++ n :: ys))
    (hnodup : (h :: (xs ++ n :: ys)).Nodup) :
    Ring
      (Function.update next (xs.getLastD h) (ys.headD h))
      (Function.update prev (ys.headD h) (xs.getLastD h))
      h (xs ++ ys) := by
  obtain ⟨hxs, hys⟩ := hring.halves
  have hleft : (h :: xs).Nodup :=
    hnodup.sublist ((List.sublist_append_left xs (n :: ys)).cons_cons h)
  have hright : (h :: ys).Nodup :=
    hnodup.sublist (((List.sublist_cons_self n ys).trans
      (List.sublist_append_right xs (n :: ys))).cons_cons h)
  have hdisjoint : ∀ x ∈ h :: xs, ∀ y ∈ ys, x ≠ y := by
    rw [← List.cons_append] at hnodup
    intro x hx y hy
    exact (List.nodup_append.mp hnodup).2.2 x hx y (List.mem_cons_of_mem n hy)
  have hlast := getLastD_mem xs h
  have hhead := headD_mem ys h
  refine of_halves (chain_congr hxs ?_ ?_) (chain_congr hys.tail ?_ ?_)
    ⟨Function.update_self _ _ _, Function.update_self _ _ _⟩
  · intro x hx
    have hxlast : x ≠ (h :: xs).getLastD h := ne_getLastD_of_mem_dropLast hleft hx
    rw [List.getLastD_cons] at hxlast
    exact Function.update_of_ne hxlast _ _
  · intro y hy
    refine Function.update_of_ne ?_ _ _
    rcases List.mem_cons.mp hhead with heq | hmem
    · rw [heq]
      rintro rfl
      exact (List.nodup_cons.mp hleft).1 hy
    · exact hdisjoint y (List.mem_cons_of_mem h hy) _ hmem
  · intro x hx
    rw [List.dropLast_concat] at hx
    exact Function.update_of_ne (hdisjoint _ hlast x hx).symm _ _
  · intro y hy
    have hend : (ys ++ [h]).Nodup := (List.nodup_cons.mp hright).2.append
      (List.nodup_singleton h) (by simpa using (List.nodup_cons.mp hright).1)
    refine Function.update_of_ne ?_ _ _
    have hne := ne_headD_of_mem_tail (h := h) hend hy
    cases ys with
    | nil => exact hne
    | cons z ys => exact hne

/-- The header put between the other two ends. -/
theorem rotate
    {xs ys : List ν}
    (hring : Ring next prev h (xs ++ ys))
    (hnodup : (h :: (xs ++ ys)).Nodup)
    (hxs : xs ≠ [])
    (hys : ys ≠ []) :
    Ring
      (Function.update (Function.update (Function.update next (ys.getLastD h) (xs.headD h))
        h (ys.headD h)) (xs.getLastD h) h)
      (Function.update (Function.update (Function.update prev (xs.headD h) (ys.getLastD h))
        h (xs.getLastD h)) (ys.headD h) h)
      h (ys ++ xs) := by
  obtain ⟨hfront, hback⟩ := hring.halves
  obtain ⟨hh, hboth⟩ := List.nodup_cons.mp hnodup
  obtain ⟨hxsnodup, hysnodup, hdisjoint⟩ := List.nodup_append.mp hboth
  have hhxs : ∀ x ∈ xs, x ≠ h := by
    rintro x hx rfl
    exact hh (List.mem_append_left ys hx)
  have hhys : ∀ y ∈ ys, y ≠ h := by
    rintro y hy rfl
    exact hh (List.mem_append_right xs hy)
  have hxlast := getLastD_mem_of_ne_nil hxs h
  have hylast := getLastD_mem_of_ne_nil hys h
  have hxhead := headD_mem_of_ne_nil hxs h
  have hyhead := headD_mem_of_ne_nil hys h
  refine of_halves (List.IsChain.cons (chain_congr hback.left_of_append ?_ ?_) ?_)
    (List.IsChain.append (chain_congr hfront.tail ?_ ?_) (.singleton h) ?_) ⟨?_, ?_⟩
  · intro y hy
    have hmem := List.dropLast_subset _ hy
    rw [Function.update_of_ne (hdisjoint _ hxlast y hmem).symm,
      Function.update_of_ne (hhys y hmem),
      Function.update_of_ne (ne_getLastD_of_mem_dropLast hysnodup hy)]
  · intro y hy
    have hmem := List.mem_of_mem_tail hy
    rw [Function.update_of_ne (ne_headD_of_mem_tail hysnodup hy),
      Function.update_of_ne (hhys y hmem),
      Function.update_of_ne (hdisjoint _ hxhead y hmem).symm]
  · intro y hy
    obtain rfl : y = ys.headD h := by
      cases ys with
      | nil => simp at hy
      | cons z ys => simpa using hy.symm
    refine ⟨?_, Function.update_self _ _ _⟩
    rw [Function.update_of_ne (hhxs _ hxlast).symm, Function.update_self]
  · intro x hx
    have hmem : x ∈ xs := List.dropLast_subset _ hx
    rw [Function.update_of_ne (ne_getLastD_of_mem_dropLast hxsnodup hx),
      Function.update_of_ne (hhxs x hmem), Function.update_of_ne (hdisjoint x hmem _ hylast)]
  · intro x hx
    have hmem : x ∈ xs := List.mem_of_mem_tail hx
    rw [Function.update_of_ne (hdisjoint x hmem _ hyhead), Function.update_of_ne (hhxs x hmem),
      Function.update_of_ne (ne_headD_of_mem_tail hxsnodup hx)]
  · intro x hx y hy
    obtain rfl : x = xs.getLastD h := by
      rcases List.eq_nil_or_concat xs with rfl | ⟨xs', z, rfl⟩
      · simp at hx
      · simpa using hx.symm
    obtain rfl : y = h := by
      simpa using hy.symm
    refine ⟨Function.update_self _ _ _, ?_⟩
    rw [Function.update_of_ne (hhys _ hyhead).symm, Function.update_self]
  · rw [Function.update_of_ne (hdisjoint _ hxlast _ hylast).symm,
      Function.update_of_ne (hhys _ hylast), Function.update_self]
  · rw [Function.update_of_ne (hdisjoint _ hxhead _ hyhead), Function.update_of_ne (hhxs _ hxhead),
      Function.update_self]

end Ring

end Lib
end PahoMqtt
