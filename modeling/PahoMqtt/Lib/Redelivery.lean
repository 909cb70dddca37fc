import Mathlib.Data.List.Basic

/-!
# Items that are offered until they are accepted

Items arrive one after the other and are offered to a receiver that accepts or
rejects them.  An item is offered when it arrives and no other waits, or it waits,
and the first of those that wait may be offered at any time.  Each step keeps the
offers in the order of arrival, and where they are, an item is offered again exactly
if it was rejected.
-/

namespace PahoMqtt
namespace Lib

universe u

/-- An offer of an item, and whether it was accepted. -/
structure Offer (α : Type u) where
  item : α
  accepted : Bool

/-- The items that were accepted. -/
def accepted {α : Type u} (offers : List (Offer α)) : List α :=
  (offers.filter (·.accepted)).map (·.item)

/-- The items that have arrived, those that wait, and the offers so far. -/
structure Line (α : Type u) where
  arrivals : List α
  waiting : List α
  offers : List (Offer α)

/-- An item arrives to wait or to be offered, or the first that waits is offered. -/
inductive LineEvent (α : Type u) where
  | wait (x : α)
  | offer (x : α) (accepted : Bool)
  | retry (accepted : Bool)

namespace Line

variable {α : Type u}

inductive Step : Line α → LineEvent α → Line α → Prop
  | wait (l : Line α) (x : α) :
      Step l (.wait x) { l with arrivals := l.arrivals ++ [x], waiting := l.waiting ++ [x] }
  | offer (l : Line α) (x : α) (accepted : Bool)
      (hnone : l.waiting = []) :
      Step l (.offer x accepted)
        { arrivals := l.arrivals ++ [x]
          waiting := if accepted then [] else [x]
          offers := l.offers ++ [⟨x, accepted⟩] }
  | retry (l : Line α) (x : α) (rest : List α) (accepted : Bool)
      (hwaiting : l.waiting = x :: rest) :
      Step l (.retry accepted)
        { l with
          waiting := if accepted then rest else x :: rest
          offers := l.offers ++ [⟨x, accepted⟩] }

/--
Every item was accepted or waits, and each was offered when those before it had
been accepted and none after it.
-/
structure InOrder (l : Line α) : Prop where
  accounted : accepted l.offers ++ l.waiting = l.arrivals
  first : ∀ before o after, l.offers = before ++ o :: after →
    accepted before ++ [o.item] <+: l.arrivals

end Line

variable {α : Type u}

@[simp] theorem accepted_nil : accepted ([] : List (Offer α)) = [] := rfl

@[simp] theorem accepted_append
    (offers offers' : List (Offer α)) :
    accepted (offers ++ offers') = accepted offers ++ accepted offers' := by
  simp [accepted]

@[simp] theorem accepted_cons_true
    (x : α) (offers : List (Offer α)) :
    accepted (⟨x, true⟩ :: offers) = x :: accepted offers := by
  simp [accepted]

@[simp] theorem accepted_cons_false
    (x : α) (offers : List (Offer α)) :
    accepted (⟨x, false⟩ :: offers) = accepted offers := by
  simp [accepted]

/-- A list that ends in one more, around one of its elements. -/
theorem append_singleton_split
    {β : Type u} {l before after : List β} {a o : β}
    (h : l ++ [a] = before ++ o :: after) :
    (before = l ∧ o = a ∧ after = []) ∨ ∃ after', l = before ++ o :: after' := by
  rcases List.append_eq_append_iff.mp h with ⟨rest, rfl, hrest⟩ | ⟨rest, rfl, hrest⟩
  · cases rest with
    | nil =>
        obtain ⟨rfl, rfl⟩ := List.cons.inj hrest
        exact Or.inl ⟨List.append_nil l, rfl, rfl⟩
    | cons b rest =>
        have hlength := congrArg List.length hrest
        simp only [List.length_cons, List.length_nil, List.length_append] at hlength
        omega
  · cases rest with
    | nil =>
        obtain ⟨rfl, rfl⟩ := List.cons.inj hrest
        exact Or.inl ⟨(List.append_nil before).symm, rfl, rfl⟩
    | cons b rest =>
        obtain ⟨rfl, _⟩ := List.cons.inj hrest
        exact Or.inr ⟨rest, rfl⟩

namespace Line

/-- An offer that comes next after those that were accepted keeps the order. -/
theorem InOrder.offered
    {l : Line α} {x : α} {rest : List α} {arrivals waiting : List α} {accept : Bool}
    (h : l.InOrder)
    (hgrows : l.arrivals <+: arrivals)
    (hnext : accepted l.offers ++ x :: rest = arrivals)
    (hwaiting : waiting = if accept then rest else x :: rest) :
    InOrder ⟨arrivals, waiting, l.offers ++ [⟨x, accept⟩]⟩ := by
  constructor
  · subst hwaiting
    cases accept with
    | true => simpa using hnext
    | false => simpa using hnext
  · intro before o after hsplit
    rcases append_singleton_split hsplit with ⟨rfl, rfl, _⟩ | ⟨after', hoffers⟩
    · refine ⟨rest, ?_⟩
      rw [List.append_assoc]
      exact hnext
    · exact (h.first before o after' hoffers).trans hgrows

/-- Every step keeps the order. -/
theorem Step.inOrder
    {l l' : Line α} {e : LineEvent α}
    (h : l.InOrder)
    (hstep : Step l e l') :
    l'.InOrder := by
  cases hstep with
  | wait x =>
      constructor
      · rw [← List.append_assoc, h.accounted]
      · intro before o after hsplit
        exact (h.first before o after hsplit).trans (List.prefix_append _ _)
  | offer x accept hnone =>
      refine h.offered (List.prefix_append _ _) ?_ rfl
      rw [← h.accounted, hnone, List.append_nil]
  | retry x rest accept hwaiting =>
      refine h.offered (List.prefix_refl _) ?_ rfl
      rw [← h.accounted, hwaiting]

/-- Items may wait before anything was offered. -/
theorem inOrder_start
    (waiting : List α) :
    InOrder ⟨waiting, waiting, []⟩ := by
  constructor
  · rfl
  · intro before o after hsplit
    exact absurd hsplit (by simp)

section Order

variable {l : Line α} {before after : List (Offer α)} {o : Offer α}

/-- What was rejected last is the first item that waits. -/
theorem InOrder.waits
    (h : l.InOrder)
    (hoffers : l.offers = before ++ [o])
    (hrejected : o.accepted = false) :
    l.waiting.head? = some o.item := by
  obtain ⟨rest, hrest⟩ := h.first before o [] hoffers
  obtain ⟨x, accept⟩ := o
  obtain rfl : accept = false := hrejected
  have haccounted := h.accounted
  rw [hoffers, ← hrest] at haccounted
  simp only [accepted_append, accepted_cons_false, accepted_nil, List.append_nil,
    List.append_assoc, List.append_cancel_left_eq] at haccounted
  rw [haccounted]
  rfl

/-- An item that was rejected is the next to be offered. -/
theorem InOrder.again
    {o' : Offer α}
    (h : l.InOrder)
    (hoffers : l.offers = before ++ o :: o' :: after)
    (hrejected : o.accepted = false) :
    o'.item = o.item := by
  have hfirst := h.first before o (o' :: after) hoffers
  have hnext := h.first (before ++ [o]) o' after (by rw [hoffers, List.append_assoc]; rfl)
  obtain ⟨x, accept⟩ := o
  obtain rfl : accept = false := hrejected
  rw [accepted_append, accepted_cons_false, accepted_nil, List.append_nil] at hnext
  have hsame := List.prefix_of_prefix_length_le hnext hfirst (by simp)
  have heq := hsame.eq_of_length (by simp)
  exact List.cons.inj (List.append_cancel_left heq) |>.1

/-- An item that was accepted is not offered again, where no item arrives twice. -/
theorem InOrder.not_again
    (h : l.InOrder)
    (hnodup : l.arrivals.Nodup)
    (hoffers : l.offers = before ++ o :: after)
    (haccepted : o.accepted = true) :
    ∀ o' ∈ after, o'.item ≠ o.item := by
  intro o' ho'
  obtain ⟨between, rest, rfl⟩ := List.append_of_mem ho'
  have hlater := h.first (before ++ o :: between) o' rest
    (by rw [hoffers, List.append_assoc]; rfl)
  obtain ⟨x, accept⟩ := o
  obtain rfl : accept = true := haccepted
  have hmem : x ∈ accepted (before ++ ⟨x, true⟩ :: between) := by
    simp
  have hdistinct := hnodup.sublist hlater.sublist
  rw [List.nodup_append] at hdistinct
  intro heq
  exact hdistinct.2.2 x hmem o'.item (List.mem_singleton_self _) heq.symm

/-- An item is offered again exactly if it was rejected and there is another offer. -/
theorem InOrder.again_iff
    (h : l.InOrder)
    (hnodup : l.arrivals.Nodup)
    (hoffers : l.offers = before ++ o :: after) :
    (∃ o' ∈ after, o'.item = o.item) ↔ o.accepted = false ∧ after ≠ [] := by
  constructor
  · rintro ⟨o', ho', heq⟩
    refine ⟨?_, List.ne_nil_of_mem ho'⟩
    by_contra haccepted
    rw [Bool.not_eq_false] at haccepted
    exact h.not_again hnodup hoffers haccepted o' ho' heq
  · rintro ⟨hrejected, hmore⟩
    cases after with
    | nil => exact absurd rfl hmore
    | cons o' after => exact ⟨o', List.mem_cons_self, h.again hoffers hrejected⟩

end Order

end Line

end Lib
end PahoMqtt
