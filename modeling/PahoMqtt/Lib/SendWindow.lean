import Mathlib.Algebra.Order.Group.Int
import Mathlib.Data.Multiset.Count
import Mathlib.Data.Multiset.UnionInter

/-!
# A limit on what is sent and not acknowledged

A sender keeps what is in flight: items that are outstanding at the receiver,
items that it may still send again, and items that are both or neither.  An
item counts once for each time that it is outstanding.  The outstanding items
stay within a limit as long as they do so together with those that may be sent
again, each counted the larger number of times.
-/

namespace PahoMqtt
namespace Lib

universe u

variable {α : Type u} [DecidableEq α]

/-- What is outstanding and what may be sent again is in flight, and fits the limit. -/
structure SendWindow (limit : Int) (outstanding pending inFlight : Multiset α) : Prop where
  outstanding_le : outstanding ≤ inFlight
  pending_le : pending ≤ inFlight
  room : ((outstanding ∪ pending).card : Int) ≤ limit

namespace SendWindow

variable {limit : Int} {outstanding outstanding' pending pending' inFlight inFlight' sent :
  Multiset α}

/-- The outstanding items are within the limit. -/
theorem card_le
    (h : SendWindow limit outstanding pending inFlight) :
    (outstanding.card : Int) ≤ limit := by
  have hcard := Multiset.card_le_card (Multiset.le_union_left (s := outstanding) (t := pending))
  have hroom := h.room
  omega

/-- As long as no more is in flight than the limit allows, anything may be outstanding. -/
theorem of_inFlight
    (houtstanding : outstanding ≤ inFlight)
    (hpending : pending ≤ inFlight)
    (hlimit : (inFlight.card : Int) ≤ limit) :
    SendWindow limit outstanding pending inFlight := by
  refine ⟨houtstanding, hpending, ?_⟩
  have hcard := Multiset.card_le_card (Multiset.union_le houtstanding hpending)
  omega

/-- A receiver that has seen nothing yet is sent some of the pending items. -/
theorem start
    (hsent : sent ≤ pending)
    (hpending : pending ≤ inFlight)
    (hlimit : (pending.card : Int) ≤ limit) :
    SendWindow limit sent pending inFlight := by
  refine ⟨hsent.trans hpending, hpending, ?_⟩
  have hcard := Multiset.card_le_card (Multiset.union_le hsent (le_refl pending))
  omega

/-- Items are acknowledged or need not be sent again. -/
theorem mono
    (h : SendWindow limit outstanding pending inFlight)
    (houtstanding : outstanding' ≤ outstanding)
    (hpending : pending' ≤ pending)
    (houtstanding_le : outstanding' ≤ inFlight')
    (hpending_le : pending' ≤ inFlight') :
    SendWindow limit outstanding' pending' inFlight' := by
  refine ⟨houtstanding_le, hpending_le, ?_⟩
  have hunion : outstanding' ∪ pending' ≤ outstanding ∪ pending :=
    Multiset.union_le (houtstanding.trans Multiset.le_union_left)
      (hpending.trans Multiset.le_union_right)
  have hcard := Multiset.card_le_card hunion
  have hroom := h.room
  omega

/-- Pending items are sent that are not outstanding already. -/
theorem resend
    (h : SendWindow limit outstanding pending inFlight)
    (hsent : sent ≤ pending)
    (hnew : ∀ a ∈ sent, a ∉ outstanding) :
    SendWindow limit (outstanding + sent) pending inFlight := by
  have hadd : outstanding + sent ≤ outstanding ∪ pending := by
    rw [Multiset.le_iff_count]
    intro a
    rw [Multiset.count_add, Multiset.count_union]
    have hle := Multiset.count_le_of_le a hsent
    by_cases ha : a ∈ sent
    · have hzero := Multiset.count_eq_zero_of_notMem (hnew a ha)
      omega
    · have hzero := Multiset.count_eq_zero_of_notMem ha
      omega
  refine ⟨hadd.trans (Multiset.union_le h.outstanding_le h.pending_le), h.pending_le, ?_⟩
  have hcard := Multiset.card_le_card
    (Multiset.union_le hadd (Multiset.le_union_right (s := outstanding) (t := pending)))
  have hroom := h.room
  omega

end SendWindow

end Lib
end PahoMqtt
