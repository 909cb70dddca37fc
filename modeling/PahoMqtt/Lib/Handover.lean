import Mathlib.Data.List.Sort
import PahoMqtt.Lib.Redelivery

/-!
# Items that are handed over one by one

Items are numbered as they come and wait in that order.  The first that waits is
handed over at once, or it is offered, and accepted or rejected some time later.
All that wait may be dropped, also while the first of them is being offered, which
is answered all the same.  No item is accepted twice, and none is passed over but
those that were dropped.
-/

namespace PahoMqtt
namespace Lib

/-- Where the items stand that have come. -/
structure Desk where
  came : Nat
  /-- The first that waits; those that came after it wait too. -/
  first : Nat
  /-- The item that is being offered. -/
  offered : Option Nat
  offers : List (Offer Nat)
  dropped : List Nat

namespace Desk

inductive Step : Desk → Desk → Prop
  | come (d : Desk) :
      Step d { d with came := d.came + 1 }
  | offer (d : Desk)
      (hfree : d.offered = none)
      (hwaits : d.first < d.came) :
      Step d { d with offered := some d.first }
  | answer (d : Desk) (k : Nat) (accepted : Bool)
      (hoffered : d.offered = some k) :
      Step d
        { d with
          offered := none
          first := if accepted ∧ k = d.first then d.first + 1 else d.first
          offers := d.offers ++ [⟨k, accepted⟩] }
  | give (d : Desk)
      (hfree : d.offered = none)
      (hwaits : d.first < d.came) :
      Step d { d with first := d.first + 1, offers := d.offers ++ [⟨d.first, true⟩] }
  | drop (d : Desk) :
      Step d
        { d with
          first := d.came
          dropped := d.dropped ++ List.range' d.first (d.came - d.first) }

/-- The item was accepted by one of these offers, or it was dropped. -/
def Done (offers : List (Offer Nat)) (dropped : List Nat) (k : Nat) : Prop :=
  k ∈ accepted offers ∨ k ∈ dropped

/-- No offer is of a later item, nor is the item among those that were accepted. -/
def Next (offers : List (Offer Nat)) (k : Nat) : Prop :=
  ∀ o ∈ offers, o.item ≤ k ∧ (o.accepted = true → o.item < k)

/-- The items were offered in turn, and nothing was lost. -/
structure InTurn (d : Desk) : Prop where
  first_le : d.first ≤ d.came
  passed : ∀ k < d.first, Done d.offers d.dropped k
  dropped_lt : ∀ k ∈ d.dropped, k < d.first
  next : Next d.offers d.first
  offered : ∀ k, d.offered = some k →
    k < d.came ∧ Next d.offers k ∧ (k = d.first ∨ k ∈ d.dropped)
  in_turn : ∀ before o after, d.offers = before ++ o :: after →
    ∀ k < o.item, Done before d.dropped k
  ordered : d.offers.Pairwise
    (fun o o' => o.item ≤ o'.item ∧ (o.accepted = true → o.item < o'.item))

theorem Done.mono
    {offers offers' : List (Offer Nat)} {dropped dropped' : List Nat} {k : Nat}
    (h : Done offers dropped k)
    (hoffers : accepted offers ⊆ accepted offers')
    (hdropped : dropped ⊆ dropped') :
    Done offers' dropped' k :=
  h.imp (fun hk => hoffers hk) (fun hk => hdropped hk)

theorem accepted_subset_append
    (offers offers' : List (Offer Nat)) :
    accepted offers ⊆ accepted (offers ++ offers') := by
  rw [accepted_append]
  exact List.subset_append_left _ _

theorem mem_accepted
    {offers : List (Offer Nat)} {k : Nat} :
    k ∈ accepted offers ↔ ∃ o ∈ offers, o.accepted = true ∧ o.item = k := by
  simp only [accepted, List.mem_map, List.mem_filter, and_assoc]

theorem Next.mono
    {offers : List (Offer Nat)} {j k : Nat}
    (h : Next offers j)
    (hjk : j ≤ k) :
    Next offers k :=
  fun o ho => ⟨(h o ho).1.trans hjk, fun hyes => ((h o ho).2 hyes).trans_le hjk⟩

theorem Next.append
    {offers : List (Offer Nat)} {j k : Nat} {yes : Bool}
    (h : Next offers j)
    (hjk : j ≤ k)
    (hyes : yes = true → j < k) :
    Next (offers ++ [⟨j, yes⟩]) k := by
  intro o ho
  rcases List.mem_append.mp ho with ho | ho
  · exact h.mono hjk o ho
  · obtain rfl := List.mem_singleton.mp ho
    exact ⟨hjk, hyes⟩

/-- No item has come. -/
theorem InTurn.start
    (came : Nat) :
    InTurn ⟨came, 0, none, [], []⟩ where
  first_le := Nat.zero_le came
  passed _ h := absurd h (Nat.not_lt_zero _)
  dropped_lt _ h := absurd h List.not_mem_nil
  next _ h := absurd h List.not_mem_nil
  offered _ h := nomatch h
  in_turn _ _ _ h :=
    absurd h.symm (List.append_ne_nil_of_right_ne_nil _ (List.cons_ne_nil _ _))
  ordered := List.Pairwise.nil

section Steps

variable {d : Desk}

/-- An answer, or an item that is handed over at once, comes after all earlier offers. -/
theorem InTurn.answered
    (h : d.InTurn)
    {k first : Nat} {yes : Bool}
    (hnext : Next d.offers k)
    (hplace : k = d.first ∨ k ∈ d.dropped)
    (hfirst : first = if yes = true ∧ k = d.first then d.first + 1 else d.first)
    (hcame : first ≤ d.came) :
    InTurn
      { d with
        offered := none
        first
        offers := d.offers ++ [⟨k, yes⟩] } := by
  have hle : k ≤ d.first := by
    rcases hplace with rfl | hdropped
    · exact le_rfl
    · exact (h.dropped_lt k hdropped).le
  have hkfirst : k ≤ first ∧ d.first ≤ first ∧ (yes = true → k < first) := by
    rw [hfirst]
    split
    next hnow => exact ⟨by omega, by omega, fun _ => by omega⟩
    next hnot =>
      refine ⟨hle, le_rfl, fun hyes => lt_of_le_of_ne hle fun heq => hnot ⟨hyes, heq⟩⟩
  constructor
  · exact hcame
  · intro j hj
    by_cases hjf : j < d.first
    · exact (h.passed j hjf).mono (accepted_subset_append _ _) (List.Subset.refl _)
    · -- only the item that has been accepted is new among those before the first
      dsimp only at hj
      rw [hfirst] at hj
      split at hj
      next hnow =>
        obtain ⟨rfl, rfl⟩ := hnow
        obtain rfl : j = d.first := by omega
        exact .inl (mem_accepted.mpr ⟨_, List.mem_append_right _ List.mem_cons_self, rfl, rfl⟩)
      next => exact absurd hj hjf
  · intro j hj
    exact (h.dropped_lt j hj).trans_le hkfirst.2.1
  · exact hnext.append hkfirst.1 hkfirst.2.2
  · intro j hj
    cases hj
  · intro before o after hsplit j hj
    rcases append_singleton_split hsplit with ⟨rfl, rfl, _⟩ | ⟨after', hoffers⟩
    · exact h.passed j (hj.trans_le hle)
    · exact h.in_turn before o after' hoffers j hj
  · refine List.pairwise_append.mpr ⟨h.ordered, List.pairwise_singleton _ _, ?_⟩
    intro o ho o' ho'
    obtain rfl := List.mem_singleton.mp ho'
    exact hnext o ho

/-- Every step keeps the turns. -/
theorem Step.inTurn
    {d' : Desk}
    (h : d.InTurn)
    (hstep : Step d d') :
    d'.InTurn := by
  cases hstep with
  | come =>
      exact { h with
        first_le := h.first_le.trans (Nat.le_succ _)
        offered := fun k hk => by
          obtain ⟨hcame, hrest⟩ := h.offered k hk
          exact ⟨hcame.trans (Nat.lt_succ_self _), hrest⟩ }
  | offer hfree hwaits =>
      refine { h with offered := fun k hk => ?_ }
      obtain rfl := Option.some.inj hk
      exact ⟨hwaits, h.next, .inl rfl⟩
  | answer k yes hoffered =>
      obtain ⟨hcame, hnext, hplace⟩ := h.offered k hoffered
      refine h.answered hnext hplace rfl ?_
      split
      next hnow => omega
      next => exact h.first_le
  | give hfree hwaits =>
      have hgiven := @InTurn.answered d h d.first (d.first + 1) true h.next (.inl rfl)
        (if_pos ⟨rfl, rfl⟩).symm hwaits
      rw [hfree]
      exact hgiven
  | drop =>
      have hrange : ∀ k, k ∈ List.range' d.first (d.came - d.first) ↔ d.first ≤ k ∧ k < d.came := by
        intro k
        rw [List.mem_range'_1]
        have := h.first_le
        omega
      have hsubset : d.dropped ⊆ d.dropped ++ List.range' d.first (d.came - d.first) :=
        List.subset_append_left _ _
      constructor
      · exact le_rfl
      · intro k hk
        by_cases hkf : k < d.first
        · exact (h.passed k hkf).mono (List.Subset.refl _) hsubset
        · exact .inr (List.mem_append_right _ ((hrange k).mpr ⟨not_lt.mp hkf, hk⟩))
      · intro k hk
        rcases List.mem_append.mp hk with hk | hk
        · exact (h.dropped_lt k hk).trans_le h.first_le
        · exact ((hrange k).mp hk).2
      · exact h.next.mono h.first_le
      · intro k hk
        obtain ⟨hcame, hnext, hplace⟩ := h.offered k hk
        refine ⟨hcame, hnext, .inr ?_⟩
        rcases hplace with rfl | hdropped
        · exact List.mem_append_right _ ((hrange _).mpr ⟨le_rfl, hcame⟩)
        · exact List.mem_append_left _ hdropped
      · intro before o after hsplit k hk
        exact (h.in_turn before o after hsplit k hk).mono (List.Subset.refl _) hsubset
      · exact h.ordered

end Steps

section Turns

variable {d : Desk}

/-- An item that was accepted is not offered again, nor is one before it. -/
theorem InTurn.once
    (h : d.InTurn)
    {before after : List (Offer Nat)} {o : Offer Nat}
    (hoffers : d.offers = before ++ o :: after)
    (haccepted : o.accepted = true) :
    ∀ o' ∈ after, o.item < o'.item := by
  have hordered := h.ordered
  rw [hoffers, List.pairwise_append] at hordered
  intro o' ho'
  exact ((List.pairwise_cons.mp hordered.2.1).1 o' ho').2 haccepted

/-- An item that was rejected is offered next, or it has been dropped. -/
theorem InTurn.again
    (h : d.InTurn)
    {before after : List (Offer Nat)} {o o' : Offer Nat}
    (hoffers : d.offers = before ++ o :: o' :: after)
    (hrejected : o.accepted = false) :
    o'.item = o.item ∨ o.item ∈ d.dropped := by
  have hordered := h.ordered
  rw [hoffers, List.pairwise_append] at hordered
  have hle : o.item ≤ o'.item :=
    ((List.pairwise_cons.mp hordered.2.1).1 o' List.mem_cons_self).1
  rcases hle.eq_or_lt with heq | hlt
  · exact .inl heq.symm
  · refine .inr ?_
    have hdone := h.in_turn (before ++ [o]) o' after (by rw [hoffers, List.append_assoc]; rfl)
      o.item hlt
    refine hdone.resolve_left fun hin => ?_
    obtain ⟨x, yes⟩ := o
    obtain rfl : yes = false := hrejected
    rw [accepted_append, accepted_cons_false, accepted_nil, List.append_nil] at hin
    -- an earlier offer that was accepted would have been of an earlier item
    obtain ⟨p, hp, hyes, hitem⟩ := mem_accepted.mp hin
    exact absurd hitem ((hordered.2.2 p hp _ List.mem_cons_self).2 hyes).ne

/-- Where nothing was dropped, the items that were accepted are those before the first. -/
theorem InTurn.accepted_eq
    (h : d.InTurn)
    (hkept : d.dropped = []) :
    accepted d.offers = List.range d.first := by
  have hascending : (accepted d.offers).Pairwise (· < ·) := by
    rw [accepted, List.pairwise_map]
    refine (h.ordered.filter _).imp_of_mem fun {o o'} ho _ hle => hle.2 (List.mem_filter.mp ho).2
  refine List.Perm.eq_of_pairwise' (r := (· < ·)) hascending List.pairwise_lt_range ?_
  refine (List.perm_ext_iff_of_nodup (hascending.imp ne_of_lt) List.nodup_range).mpr fun k => ?_
  rw [List.mem_range]
  constructor
  · intro hk
    obtain ⟨o, ho, hyes, rfl⟩ := mem_accepted.mp hk
    exact (h.next o ho).2 hyes
  · intro hk
    refine (h.passed k hk).resolve_right fun hdropped => ?_
    rw [hkept] at hdropped
    exact absurd hdropped List.not_mem_nil

end Turns

end Desk
end Lib
end PahoMqtt
