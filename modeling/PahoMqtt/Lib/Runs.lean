import Mathlib.Data.List.Basic

/-!
# Finite runs of a labelled step relation

A run is recorded as the list of its transitions, each with the state before
it, the event taken and the state after it.  Claims about every reachable
state, about every step of a run, or about what happens between two steps are
statements about this list.

The module supplies splitting and concatenation of runs and the invariant rule
in the form in which the developments use it: a step is only required to
preserve the invariant when a side condition on the state before it and on its
event holds, and the conclusion speaks about every transition of the run.
-/

namespace PahoMqtt
namespace Lib

universe u v

/-- One step of a run. -/
structure Transition (σ : Type u) (ε : Type v) where
  pre : σ
  event : ε
  post : σ

variable {σ : Type u} {ε : Type v}

/-- The step of a simulated system that a transition makes, if it makes one. -/
def Transition.image {τ : Type u} {δ : Type v} (abs : σ → τ) (label : σ → ε → Option δ)
    (x : Transition σ ε) : Option (Transition τ δ) :=
  (label x.pre x.event).map (fun d => ⟨abs x.pre, d, abs x.post⟩)

/-- `Runs step s tr t`: the transitions `tr` lead from `s` to `t`. -/
inductive Runs (step : σ → ε → σ → Prop) :
    σ → List (Transition σ ε) → σ → Prop
  | nil (s : σ) : Runs step s [] s
  | cons {s u t : σ} {e : ε} {tr : List (Transition σ ε)}
      (hstep : step s e u)
      (hrun : Runs step u tr t) :
      Runs step s (⟨s, e, u⟩ :: tr) t

namespace Runs

variable {step : σ → ε → σ → Prop}

/-- The empty run stays where it is. -/
@[simp] theorem nil_iff
    {s t : σ} :
    Runs step s [] t ↔ s = t := by
  constructor
  · intro h
    cases h
    rfl
  · rintro rfl
    exact Runs.nil s

theorem cons_iff
    {s t : σ} {x : Transition σ ε} {tr : List (Transition σ ε)} :
    Runs step s (x :: tr) t ↔
      x.pre = s ∧ step s x.event x.post ∧ Runs step x.post tr t := by
  constructor
  · intro h
    cases h with
    | cons hstep hrun => exact ⟨rfl, hstep, hrun⟩
  · rintro ⟨rfl, hstep, hrun⟩
    exact Runs.cons hstep hrun

/-- Splitting a run and putting two runs together. -/
theorem append_iff
    {s t : σ} {tr₁ tr₂ : List (Transition σ ε)} :
    Runs step s (tr₁ ++ tr₂) t ↔
      ∃ u, Runs step s tr₁ u ∧ Runs step u tr₂ t := by
  induction tr₁ generalizing s with
  | nil =>
      simp
  | cons x tr ih =>
      simp only [List.cons_append, cons_iff, ih]
      constructor
      · rintro ⟨hpre, hstep, u, h₁, h₂⟩
        exact ⟨u, ⟨hpre, hstep, h₁⟩, h₂⟩
      · rintro ⟨u, ⟨hpre, hstep, h₁⟩, h₂⟩
        exact ⟨hpre, hstep, u, h₁, h₂⟩

/-- The run around one of its transitions. -/
theorem split
    {s t : σ} {tr₁ tr₂ : List (Transition σ ε)} {x : Transition σ ε}
    (hrun : Runs step s (tr₁ ++ x :: tr₂) t) :
    Runs step s tr₁ x.pre ∧
      step x.pre x.event x.post ∧
      Runs step x.post tr₂ t := by
  obtain ⟨u, h₁, h₂⟩ := append_iff.mp hrun
  obtain ⟨hpre, hstep, h₃⟩ := cons_iff.mp h₂
  subst hpre
  exact ⟨h₁, hstep, h₃⟩

/-- Every transition of a run is a step. -/
theorem step_of_mem
    {s t : σ} {tr : List (Transition σ ε)}
    (hrun : Runs step s tr t) :
    ∀ x ∈ tr, step x.pre x.event x.post := by
  induction hrun with
  | nil s =>
      intro x hx
      cases hx
  | cons hstep _ ih =>
      intro x hx
      rcases List.mem_cons.mp hx with rfl | hx
      · exact hstep
      · exact ih x hx

/--
The invariant rule with a side condition `C` on the steps: where every step of
the run meets `C`, the invariant holds before and after each of them and at the
end of the run.
-/
theorem invariant_of
    {I : σ → Prop} {C : σ → ε → Prop}
    (hpres : ∀ s e t, I s → C s e → step s e t → I t)
    {s t : σ} {tr : List (Transition σ ε)}
    (hrun : Runs step s tr t)
    (hI : I s)
    (hC : ∀ x ∈ tr, C x.pre x.event) :
    (∀ x ∈ tr, I x.pre ∧ I x.post) ∧ I t := by
  induction hrun with
  | nil s =>
      refine ⟨?_, hI⟩
      intro x hx
      cases hx
  | @cons s u t e tr hstep _ ih =>
      have hu : I u := hpres s e u hI (hC _ List.mem_cons_self) hstep
      obtain ⟨hmem, ht⟩ := ih hu (fun x hx => hC x (List.mem_cons_of_mem _ hx))
      refine ⟨?_, ht⟩
      intro x hx
      rcases List.mem_cons.mp hx with rfl | hx
      · exact ⟨hI, hu⟩
      · exact hmem x hx

/-- The invariant rule without a side condition. -/
theorem invariant
    {I : σ → Prop}
    (hpres : ∀ s e t, I s → step s e t → I t)
    {s t : σ} {tr : List (Transition σ ε)}
    (hrun : Runs step s tr t)
    (hI : I s) :
    (∀ x ∈ tr, I x.pre ∧ I x.post) ∧ I t :=
  hrun.invariant_of (C := fun _ _ => True)
    (fun s e t h _ hs => hpres s e t h hs) hI (fun _ _ => trivial)

/--
The invariant rule where the invariant also speaks about the transitions that
have led to a state.
-/
theorem history_of
    {I : List (Transition σ ε) → σ → Prop} {C : σ → ε → Prop}
    (hpres : ∀ tr s e t, I tr s → C s e → step s e t → I (tr ++ [⟨s, e, t⟩]) t)
    {s t : σ} {tr done : List (Transition σ ε)}
    (hrun : Runs step s tr t)
    (hI : I done s)
    (hC : ∀ x ∈ tr, C x.pre x.event) :
    (∀ tr₁ x tr₂, tr = tr₁ ++ x :: tr₂ → I (done ++ tr₁) x.pre) ∧ I (done ++ tr) t := by
  induction hrun generalizing done with
  | nil s =>
      refine ⟨?_, ?_⟩
      · intro tr₁ x tr₂ hsplit
        exact absurd hsplit.symm (by simp)
      · rw [List.append_nil]
        exact hI
  | @cons s u t e tr hstep _ ih =>
      have hu := hpres done s e u hI (hC _ List.mem_cons_self) hstep
      obtain ⟨hmem, ht⟩ := ih hu (fun x hx => hC x (List.mem_cons_of_mem _ hx))
      rw [List.append_assoc] at ht
      refine ⟨?_, ht⟩
      intro tr₁ x tr₂ hsplit
      cases tr₁ with
      | nil =>
          obtain ⟨rfl, _⟩ := List.cons.inj hsplit
          rw [List.append_nil]
          exact hI
      | cons y tr₁ =>
          obtain ⟨rfl, hrest⟩ := List.cons.inj hsplit
          have hpre := hmem tr₁ x tr₂ hrest
          rw [List.append_assoc] at hpre
          exact hpre

/--
Where a step from a state with the invariant has a property exactly if it meets the
condition, and then keeps the invariant, all steps of a run have the property exactly
if they all meet the condition.
-/
theorem forall_iff
    {I : σ → Prop} {C : σ → ε → Prop} {P : σ → ε → σ → Prop}
    (hpres : ∀ s e t, I s → C s e → step s e t → I t)
    (hiff : ∀ s e t, I s → step s e t → (P s e t ↔ C s e))
    {s t : σ} {tr : List (Transition σ ε)}
    (hrun : Runs step s tr t)
    (hI : I s) :
    (∀ x ∈ tr, P x.pre x.event x.post) ↔ ∀ x ∈ tr, C x.pre x.event := by
  induction hrun with
  | nil s =>
      exact iff_of_true nofun nofun
  | @cons s u t e tr hstep _ ih =>
      rw [List.forall_mem_cons, List.forall_mem_cons, hiff s e u hI hstep]
      exact and_congr_right fun hC => ih (hpres s e u hI hC hstep)

/--
Where a step that does not meet the condition always breaks the invariant, the
invariant holds all along a run exactly when all its steps meet the condition.
-/
theorem invariant_iff
    {I : σ → Prop} {C : σ → ε → Prop}
    (hpres : ∀ s e t, I s → C s e → step s e t → I t)
    (hbreak : ∀ s e t, I s → ¬ C s e → step s e t → ¬ I t)
    {s t : σ} {tr : List (Transition σ ε)}
    (hrun : Runs step s tr t)
    (hI : I s) :
    (∀ x ∈ tr, I x.post) ↔ ∀ x ∈ tr, C x.pre x.event := by
  refine hrun.forall_iff (P := fun _ _ t => I t) hpres ?_ hI
  intro s e t hs hstep
  constructor
  · intro ht
    by_contra hC
    exact hbreak s e t hs hC hstep ht
  · intro hC
    exact hpres s e t hs hC hstep

/-! ### Simulation -/

section Simulation

variable {τ : Type u} {δ : Type v}

/-- Where every step makes one step of another system or none, every run makes a run of it. -/
theorem simulates
    {step' : τ → δ → τ → Prop} (abs : σ → τ) (label : σ → ε → Option δ)
    (hmoves : ∀ s e t d, step s e t → label s e = some d → step' (abs s) d (abs t))
    (hstays : ∀ s e t, step s e t → label s e = none → abs t = abs s)
    {s t : σ} {tr : List (Transition σ ε)}
    (hrun : Runs step s tr t) :
    Runs step' (abs s) (tr.filterMap (Transition.image abs label)) (abs t) := by
  induction hrun with
  | nil s =>
      exact Runs.nil (abs s)
  | @cons s u t e tr hstep _ ih =>
      cases hlabel : label s e with
      | none =>
          rw [List.filterMap_cons_none (by rw [Transition.image, hlabel, Option.map_none]),
            ← hstays s e u hstep hlabel]
          exact ih
      | some d =>
          rw [List.filterMap_cons_some (by rw [Transition.image, hlabel, Option.map_some])]
          exact Runs.cons (hmoves s e u d hstep hlabel) ih

/-- A run, seen through an abstraction, is a run of another system if all its steps are steps. -/
theorem map_iff
    {step' : τ → δ → τ → Prop} (abs : σ → τ) (label : ε → δ)
    {s t : σ} {tr : List (Transition σ ε)}
    (hrun : Runs step s tr t) :
    Runs step' (abs s) (tr.map (fun x => ⟨abs x.pre, label x.event, abs x.post⟩)) (abs t) ↔
      ∀ x ∈ tr, step' (abs x.pre) (label x.event) (abs x.post) := by
  induction hrun with
  | nil s =>
      simp
  | cons hstep _ ih =>
      simp only [List.map_cons, cons_iff, true_and, ih, List.forall_mem_cons]

/--
The refinement rule: where every step from related states is a step of the other
system with the same event, every run is a run of it with the same events.
-/
theorem refines
    {step' : τ → ε → τ → Prop} {R : σ → τ → Prop}
    (hstep : ∀ s a e t, R s a → step s e t → ∃ b, step' a e b ∧ R t b)
    {s t : σ} {tr : List (Transition σ ε)} {a : τ}
    (hrun : Runs step s tr t)
    (hR : R s a) :
    ∃ tr' b, Runs step' a tr' b ∧ tr'.map Transition.event = tr.map Transition.event ∧ R t b := by
  induction hrun generalizing a with
  | nil s =>
      exact ⟨[], a, Runs.nil a, rfl, hR⟩
  | @cons s u t e tr hfirst _ ih =>
      obtain ⟨b, hb, hRb⟩ := hstep s a e u hR hfirst
      obtain ⟨tr', c, hrest, hevents, hRc⟩ := ih hRb
      refine ⟨⟨a, e, b⟩ :: tr', c, Runs.cons hb hrest, ?_, hRc⟩
      rw [List.map_cons, List.map_cons, hevents]

end Simulation

end Runs

/-! ### Runs of a function -/

/-- The transitions of a step function over a list of events. -/
def trace (f : σ → ε → σ) : σ → List ε → List (Transition σ ε)
  | _, [] => []
  | s, e :: es => ⟨s, e, f s e⟩ :: trace f (f s e) es

theorem trace_append
    (f : σ → ε → σ) (s : σ) (es es' : List ε) :
    trace f s (es ++ es') = trace f s es ++ trace f (es.foldl f s) es' := by
  induction es generalizing s with
  | nil => rfl
  | cons e es ih =>
      rw [List.cons_append, trace, trace, ih, List.cons_append, List.foldl_cons]

theorem Runs.of_trace
    {step : σ → ε → σ → Prop} {f : σ → ε → σ}
    (s : σ) (es : List ε)
    (hstep : ∀ x ∈ trace f s es, step x.pre x.event x.post) :
    Runs step s (trace f s es) (es.foldl f s) := by
  induction es generalizing s with
  | nil =>
      exact Runs.nil s
  | cons e es ih =>
      exact Runs.cons (hstep _ List.mem_cons_self)
        (ih (f s e) (fun x hx => hstep x (List.mem_cons_of_mem _ hx)))

theorem post_of_mem_trace
    {f : σ → ε → σ} {s : σ} {es : List ε} {x : Transition σ ε}
    (hx : x ∈ trace f s es) :
    x.post = f x.pre x.event := by
  induction es generalizing s with
  | nil =>
      cases hx
  | cons e es ih =>
      rcases List.mem_cons.mp hx with rfl | hx
      · rfl
      · exact ih hx

theorem event_of_mem_trace
    {f : σ → ε → σ} {s : σ} {es : List ε} {x : Transition σ ε}
    (hx : x ∈ trace f s es) :
    x.event ∈ es := by
  induction es generalizing s with
  | nil =>
      cases hx
  | cons e es ih =>
      rcases List.mem_cons.mp hx with rfl | hx
      · exact List.mem_cons_self
      · exact List.mem_cons_of_mem e (ih hx)

end Lib
end PahoMqtt
