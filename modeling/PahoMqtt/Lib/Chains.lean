import Mathlib.Data.List.Nodup
import Mathlib.Logic.Function.Basic

/-!
# Singly linked chains

The cells that are found in a memory by following a link from one to the next,
until there is none.  The link of the last cell being empty makes the cells of a
chain distinct, so that a cell can be written, or one be put behind the last,
without touching the others.
-/

namespace PahoMqtt
namespace Lib

universe u v

variable {π : Type u} {ν : Type v}

/-- The cells that are linked from `start` on. -/
inductive Chain (cell : π → Option ν) (next : ν → Option π) : Option π → List (π × ν) → Prop
  | nil :
      Chain cell next none []
  | cons {p : π} {c : ν} {rest : List (π × ν)}
      (hcell : cell p = some c)
      (hrest : Chain cell next (next c) rest) :
      Chain cell next (some p) ((p, c) :: rest)

namespace Chain

variable {cell cell' : π → Option ν} {next : ν → Option π} {start : Option π}
  {cells : List (π × ν)}

theorem nil_iff :
    Chain cell next none cells ↔ cells = [] := by
  constructor
  · intro h
    cases h
    rfl
  · rintro rfl
    exact Chain.nil

theorem cons_iff
    {p : π} :
    Chain cell next (some p) cells ↔
      ∃ c rest, cells = (p, c) :: rest ∧ cell p = some c ∧ Chain cell next (next c) rest := by
  constructor
  · intro h
    cases h with
    | cons hcell hrest => exact ⟨_, _, rfl, hcell, hrest⟩
  · rintro ⟨c, rest, rfl, hcell, hrest⟩
    exact Chain.cons hcell hrest

/-- A chain is determined by where it starts. -/
theorem unique
    {cells' : List (π × ν)}
    (h : Chain cell next start cells)
    (h' : Chain cell next start cells') :
    cells' = cells := by
  induction h generalizing cells' with
  | nil =>
      exact nil_iff.mp h'
  | cons hcell _ ih =>
      obtain ⟨c, rest, rfl, hcell', hrest'⟩ := cons_iff.mp h'
      obtain rfl := Option.some.inj (hcell.symm.trans hcell')
      rw [ih hrest']

theorem cell_of_mem
    {p : π} {c : ν}
    (h : Chain cell next start cells)
    (hmem : (p, c) ∈ cells) :
    cell p = some c := by
  induction h with
  | nil =>
      cases hmem
  | cons hcell _ ih =>
      rcases List.mem_cons.mp hmem with heq | hmem
      · obtain ⟨rfl, rfl⟩ := Prod.mk.inj heq
        exact hcell
      · exact ih hmem

/-- The chain from one of the cells on is not longer than the chain. -/
theorem exists_from
    {p : π}
    (h : Chain cell next start cells)
    (hmem : p ∈ cells.map Prod.fst) :
    ∃ cells', Chain cell next (some p) cells' ∧ cells'.length ≤ cells.length := by
  induction h with
  | nil =>
      cases hmem
  | @cons q c rest hcell hrest ih =>
      rcases List.mem_cons.mp hmem with rfl | hmem
      · exact ⟨_, Chain.cons hcell hrest, Nat.le_refl _⟩
      · obtain ⟨cells', hfrom, hlength⟩ := ih hmem
        exact ⟨cells', hfrom, Nat.le_succ_of_le hlength⟩

/-- No cell comes twice, since the chain ends. -/
theorem nodup
    (h : Chain cell next start cells) :
    (cells.map Prod.fst).Nodup := by
  induction h with
  | nil =>
      exact List.nodup_nil
  | @cons p c rest hcell hrest ih =>
      refine List.nodup_cons.mpr ⟨fun hmem => ?_, ih⟩
      obtain ⟨cells', hfrom, hlength⟩ := hrest.exists_from hmem
      rw [(Chain.cons hcell hrest).unique hfrom, List.length_cons] at hlength
      exact absurd hlength (Nat.not_succ_le_self _)

/-- A chain depends on its own cells only. -/
theorem congr
    (h : Chain cell next start cells)
    (hsame : ∀ p ∈ cells.map Prod.fst, cell' p = cell p) :
    Chain cell' next start cells := by
  induction h with
  | nil =>
      exact Chain.nil
  | cons hcell _ ih =>
      refine Chain.cons ?_ (ih fun p hp => hsame p (List.mem_cons_of_mem _ hp))
      rw [hsame _ List.mem_cons_self, hcell]

variable [DecidableEq π]

theorem update_of_notMem
    {p : π}
    (h : Chain cell next start cells)
    (hp : p ∉ cells.map Prod.fst) (value : Option ν) :
    Chain (Function.update cell p value) next start cells := by
  refine h.congr fun q hq => Function.update_of_ne ?_ _ _
  rintro rfl
  exact hp hq

/-- The first cell is written, but not its link. -/
theorem update_head
    {p : π} {c : ν} {rest : List (π × ν)}
    (h : Chain cell next (some p) ((p, c) :: rest))
    (c' : ν)
    (hnext : next c' = next c) :
    Chain (Function.update cell p (some c')) next (some p) ((p, c') :: rest) := by
  have hnodup := h.nodup
  cases h with
  | cons hcell hrest =>
      refine Chain.cons (Function.update_self p _ cell) ?_
      rw [hnext]
      exact hrest.update_of_notMem (List.nodup_cons.mp hnodup).1 _

/-- A new cell is put behind the last one. -/
theorem append_cell
    {p last : π} {c c' new : ν}
    (h : Chain cell next start (cells ++ [(last, c)]))
    (hp : cell p = none)
    (hnew : next new = none)
    (hlink : next c' = some p) :
    Chain (Function.update (Function.update cell p (some new)) last (some c')) next start
      (cells ++ [(last, c'), (p, new)]) := by
  have hne : p ≠ last := by
    rintro rfl
    rw [h.cell_of_mem (List.mem_append_right _ List.mem_cons_self)] at hp
    cases hp
  induction cells generalizing start with
  | nil =>
      cases h with
      | cons hcell hrest =>
          refine Chain.cons (Function.update_self last _ _) ?_
          rw [hlink]
          refine Chain.cons ?_ (hnew ▸ Chain.nil)
          rw [Function.update_of_ne hne, Function.update_self]
  | cons first cells ih =>
      have hnodup := h.nodup
      cases h with
      | @cons q d rest hcell hrest =>
          refine Chain.cons ?_ (ih hrest)
          have hqp : q ≠ p := by
            rintro rfl
            rw [hcell] at hp
            cases hp
          have hqlast : q ≠ last := by
            rintro rfl
            refine (List.nodup_cons.mp hnodup).1 (List.mem_map.mpr ⟨(q, c), ?_, rfl⟩)
            exact List.mem_append_right _ List.mem_cons_self
          rw [Function.update_of_ne hqlast, Function.update_of_ne hqp, hcell]

end Chain

end Lib
end PahoMqtt
