import Mathlib.Data.List.Basic

/-!
# Streams of frames received in pieces

A stream is the concatenation of frames, each written as a word that is not
empty.  A receiver takes the stream in pieces of any size; between two pieces it
holds the beginning of one frame.  `Progress` relates the frames that are still
to come, how much was received of the first of them, and the part of the stream
that was not.  A piece moves the boundary; when it ends a frame, nothing of the
next one has been received.
-/

namespace PahoMqtt
namespace Lib

universe u v

section Framing

variable {F : Type u} {α : Type v} (write : F → List α)

/-- The frames `left` are to come; `held` symbols of the first were received, `unread` was not. -/
structure Progress (left : List F) (held : Nat) (unread : List α) : Prop where
  unread_eq : unread = (left.flatMap write).drop held
  short : ∀ f rest, left = f :: rest → held < (write f).length
  nothing : left = [] → held = 0

namespace Progress

variable {write} {left rest : List F} {f : F} {held : Nat} {unread : List α}

/-- Nothing was received yet. -/
theorem start
    (hwrite : ∀ f, write f ≠ [])
    (left : List F) :
    Progress write left 0 (left.flatMap write) where
  unread_eq := rfl
  short := by
    intro f _ _
    exact List.length_pos_iff.mpr (hwrite f)
  nothing := fun _ => rfl

/-- A part of the next frame was received. -/
theorem of_lt
    (hunread : unread = (write f ++ rest.flatMap write).drop held)
    (hshort : held < (write f).length) :
    Progress write (f :: rest) held unread where
  unread_eq := by
    rw [List.flatMap_cons]
    exact hunread
  short := by
    intro f' rest' heq
    cases heq
    exact hshort
  nothing := fun h => absurd h (List.cons_ne_nil f rest)

/-- When all is received, no frame is left. -/
theorem finished
    (h : Progress write left held []) :
    left = [] := by
  cases left with
  | nil =>
      rfl
  | cons f rest =>
      have hshort := h.short f rest rfl
      have hlength := congrArg List.length h.unread_eq
      simp only [List.length_nil, List.flatMap_cons, List.length_drop, List.length_append]
        at hlength
      omega

/-- What was received is the frames that have ended and the beginning of the next one. -/
theorem received
    (done : List F)
    (h : Progress write left held unread) :
    (done ++ left).flatMap write =
      done.flatMap write ++ (left.flatMap write).take held ++ unread := by
  rw [List.flatMap_append, h.unread_eq, List.append_assoc, List.take_append_drop]

end Progress

end Framing

end Lib
end PahoMqtt
