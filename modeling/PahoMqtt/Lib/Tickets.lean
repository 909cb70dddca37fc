import Mathlib.Data.Multiset.UnionInter
import Mathlib.Data.List.Perm.Subperm

/-!
# Tickets that are settled at most once

Tickets are numbered as they are issued and stand open until they are settled or
withdrawn.  A step settles and withdraws open tickets only.  Then no ticket is
settled twice, in whatever order they are settled.
-/

namespace PahoMqtt
namespace Lib

/-- The number of tickets issued, those that stand open, and those settled in their order. -/
structure Tickets where
  issued : Nat
  standing : List Nat
  settled : List Nat

namespace Tickets

/-- A ticket was issued, and is either open or has been settled once. -/
structure Sound (t : Tickets) : Prop where
  nodup : (t.settled ++ t.standing).Nodup
  numbered : ∀ n ∈ t.settled ++ t.standing, n < t.issued

variable {t : Tickets}

/-- No ticket is open at the start. -/
theorem Sound.start
    (issued : Nat) :
    Sound ⟨issued, [], []⟩ where
  nodup := List.nodup_nil
  numbered _ h := absurd h List.not_mem_nil

/-- No ticket is settled twice. -/
theorem Sound.nodup_settled
    (h : t.Sound) :
    t.settled.Nodup :=
  h.nodup.of_append_left

/-- A new ticket has a number of its own. -/
theorem Sound.issue
    (h : t.Sound) :
    Sound { t with issued := t.issued + 1, standing := t.standing ++ [t.issued] } := by
  constructor
  · have hnew : t.issued ∉ t.settled ++ t.standing := fun hin =>
      absurd (h.numbered _ hin) (lt_irrefl _)
    dsimp only
    rw [← List.append_assoc]
    exact h.nodup.append (List.nodup_singleton _) (List.disjoint_singleton.mpr hnew)
  · intro n hn
    dsimp only at hn
    rw [← List.append_assoc] at hn
    rcases List.mem_append.mp hn with hn | hn
    · exact Nat.lt_succ_of_lt (h.numbered n hn)
    · obtain rfl := List.mem_singleton.mp hn
      exact Nat.lt_succ_self _

/-- Of the open tickets some are settled, and of the others no more stand open than did. -/
theorem Sound.settle
    {now standing : List Nat}
    (h : t.Sound)
    (hopen : List.Subperm (now ++ standing) t.standing) :
    Sound { t with standing, settled := t.settled ++ now } := by
  have hall : List.Subperm (t.settled ++ now ++ standing) (t.settled ++ t.standing) := by
    rw [List.append_assoc]
    exact (List.subperm_append_left t.settled).mpr hopen
  constructor
  · exact Multiset.nodup_of_le (Multiset.coe_le.mpr hall) h.nodup
  · intro n hn
    exact h.numbered n (hall.subset hn)

/-- Tickets are withdrawn. -/
theorem Sound.withdraw
    {standing : List Nat}
    (h : t.Sound)
    (hopen : List.Subperm standing t.standing) :
    Sound { t with standing } := by
  have hnone : List.Subperm ([] ++ standing) t.standing := hopen
  have hsettled := h.settle hnone
  rwa [List.append_nil] at hsettled

end Tickets

end Lib
end PahoMqtt
