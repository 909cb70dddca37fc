import Mathlib.Data.List.Nodup

/-!
# Lanes of a shared queue

A queue is shared by several owners, and the items of one owner form a lane.
The queue is scanned for the first item that is ready; an owner whose item has
been passed over is ignored for the rest of the scan, so that an item is only
reached when it is the first of its lane.

A ledger records what has happened to the items of a lane: those added, those
taken from the front and those dropped.  In a balanced ledger the items added
and not dropped are, in their order, those taken and then those still queued.
-/

namespace PahoMqtt
namespace Lib

universe u v

section FirstReady

variable {α : Type u} {κ : Type v} [DecidableEq κ]

/-- The first item that is ready and whose owner has not been passed over. -/
def firstReady (owner : α → κ) (ready : α → Bool) : List κ → List α → Option α
  | _, [] => none
  | ignored, a :: rest =>
      if owner a ∈ ignored then firstReady owner ready ignored rest
      else if ready a then some a
      else firstReady owner ready (ignored ++ [owner a]) rest

variable {owner : α → κ} {ready : α → Bool}

/-- What the scan finds is ready, and the first of its lane. -/
theorem firstReady_eq_some
    {ignored : List κ} {queue : List α} {a : α}
    (h : firstReady owner ready ignored queue = some a) :
    ready a = true ∧ owner a ∉ ignored ∧
      ∃ before after, queue = before ++ a :: after ∧ ∀ b ∈ before, owner b ≠ owner a := by
  induction queue generalizing ignored with
  | nil =>
      cases h
  | cons b rest ih =>
      rw [firstReady] at h
      by_cases hignored : owner b ∈ ignored
      · rw [if_pos hignored] at h
        obtain ⟨hready, hnot, before, after, hsplit, hbefore⟩ := ih h
        refine ⟨hready, hnot, b :: before, after, by rw [hsplit, List.cons_append], ?_⟩
        intro c hc
        rcases List.mem_cons.mp hc with rfl | hc
        · exact fun hsame => hnot (hsame ▸ hignored)
        · exact hbefore c hc
      · rw [if_neg hignored] at h
        by_cases hb : ready b = true
        · rw [if_pos hb] at h
          obtain rfl := Option.some.inj h
          exact ⟨hb, hignored, [], rest, rfl, fun c hc => absurd hc List.not_mem_nil⟩
        · rw [if_neg hb] at h
          obtain ⟨hready, hnot, before, after, hsplit, hbefore⟩ := ih h
          have hother : owner b ≠ owner a := fun hsame =>
            hnot (List.mem_append_right _ (hsame ▸ List.mem_singleton_self _))
          refine ⟨hready, fun hin => hnot (List.mem_append_left _ hin), b :: before, after,
            by rw [hsplit, List.cons_append], ?_⟩
          intro c hc
          rcases List.mem_cons.mp hc with rfl | hc
          · exact hother
          · exact hbefore c hc

/-- Where the first item of some lane is ready, the scan finds an item. -/
theorem firstReady_isSome
    {ignored : List κ} {before after : List α} {a : α}
    (hready : ready a = true)
    (hnot : owner a ∉ ignored)
    (hbefore : ∀ b ∈ before, owner b ≠ owner a) :
    (firstReady owner ready ignored (before ++ a :: after)).isSome = true := by
  induction before generalizing ignored with
  | nil =>
      rw [List.nil_append, firstReady, if_neg hnot, if_pos hready, Option.isSome_some]
  | cons b before ih =>
      have hrest : ∀ c ∈ before, owner c ≠ owner a :=
        fun c hc => hbefore c (List.mem_cons_of_mem b hc)
      rw [List.cons_append, firstReady]
      by_cases hignored : owner b ∈ ignored
      · rw [if_pos hignored]
        exact ih hnot hrest
      · rw [if_neg hignored]
        by_cases hb : ready b = true
        · rw [if_pos hb, Option.isSome_some]
        · rw [if_neg hb]
          refine ih ?_ hrest
          intro hin
          rcases List.mem_append.mp hin with hin | hin
          · exact hnot hin
          · exact hbefore b List.mem_cons_self (List.mem_singleton.mp hin).symm

end FirstReady

section Ledger

variable {α : Type u} [DecidableEq α]

/-- What has happened to the items of a lane. -/
structure Ledger (α : Type u) where
  added : List α
  taken : List α
  dropped : List α

namespace Ledger

/-- Items are added once, and leave from the front unless they are dropped. -/
structure Balanced (b : Ledger α) (queued : List α) : Prop where
  nodup : b.added.Nodup
  dropped : ∀ a ∈ b.dropped, a ∈ b.added
  balance : b.added.filter (fun a => decide (a ∉ b.dropped)) = b.taken ++ queued

namespace Balanced

variable {b : Ledger α} {queued : List α}

theorem empty : Balanced ⟨[], [], []⟩ ([] : List α) where
  nodup := List.nodup_nil
  dropped _ h := absurd h List.not_mem_nil
  balance := rfl

theorem nodup_append
    (h : b.Balanced queued) :
    (b.taken ++ queued).Nodup :=
  h.balance ▸ h.nodup.filter _

/-- No item is taken twice. -/
theorem nodup_taken
    (h : b.Balanced queued) :
    b.taken.Nodup :=
  h.nodup_append.of_append_left

theorem mem_added
    (h : b.Balanced queued)
    {a : α}
    (ha : a ∈ queued) :
    a ∈ b.added ∧ a ∉ b.dropped := by
  have hin : a ∈ b.added.filter (fun a => decide (a ∉ b.dropped)) :=
    h.balance ▸ List.mem_append_right _ ha
  obtain ⟨hadded, hkept⟩ := List.mem_filter.mp hin
  exact ⟨hadded, of_decide_eq_true hkept⟩

theorem add
    (h : b.Balanced queued)
    {a : α}
    (hnew : a ∉ b.added) :
    Balanced { b with added := b.added ++ [a] } (queued ++ [a]) where
  nodup := h.nodup.append (List.nodup_singleton a)
    (List.disjoint_singleton.mpr hnew)
  dropped c hc := List.mem_append_left _ (h.dropped c hc)
  balance := by
    have hkept : a ∉ b.dropped := fun hdropped => hnew (h.dropped a hdropped)
    rw [List.filter_append, h.balance, List.append_assoc]
    congr 1
    rw [List.filter_singleton, decide_eq_true hkept]
    rfl

theorem take
    {a : α}
    (h : b.Balanced (a :: queued)) :
    Balanced { b with taken := b.taken ++ [a] } queued where
  nodup := h.nodup
  dropped := h.dropped
  balance := by
    rw [h.balance, List.append_assoc, List.singleton_append]

theorem drop
    (h : b.Balanced queued)
    {a : α}
    (ha : a ∈ queued) :
    Balanced { b with dropped := b.dropped ++ [a] } (queued.erase a) where
  nodup := h.nodup
  dropped c hc := by
    rcases List.mem_append.mp hc with hc | hc
    · exact h.dropped c hc
    · obtain rfl := List.mem_singleton.mp hc
      exact (h.mem_added ha).1
  balance := by
    have hall := h.nodup_append
    have htaken : a ∉ b.taken := fun hin => (List.disjoint_of_nodup_append hall) hin ha
    have hsplit : b.added.filter (fun c => decide (c ∉ b.dropped ++ [a])) =
        (b.added.filter (fun c => decide (c ∉ b.dropped))).filter (fun c => c != a) := by
      rw [List.filter_filter]
      refine List.filter_congr fun c _ => ?_
      rw [Bool.eq_iff_iff]
      simp only [List.mem_append, List.mem_singleton, not_or, decide_eq_true_eq, Bool.and_eq_true,
        bne_iff_ne, ne_eq]
      exact and_comm
    rw [hsplit, h.balance, ← hall.erase_eq_filter, List.erase_append_right _ htaken]

/-- All that was added is taken or still queued exactly when nothing was dropped. -/
theorem added_eq_iff
    (h : b.Balanced queued) :
    b.added = b.taken ++ queued ↔ b.dropped = [] := by
  rw [← h.balance, eq_comm, List.filter_eq_self]
  constructor
  · intro hkept
    refine List.eq_nil_iff_forall_not_mem.mpr fun a ha => ?_
    exact of_decide_eq_true (hkept a (h.dropped a ha)) ha
  · intro hnone a _
    rw [hnone]
    exact decide_eq_true List.not_mem_nil

end Balanced

end Ledger

end Ledger

end Lib
end PahoMqtt
