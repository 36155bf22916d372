import Mathlib.Data.List.Basic

set_option autoImplicit false

/- A first-in first-out channel that may lose what is inside: what left it and what it still holds
are what entered, in order, with some left out. -/
namespace LossyChannel

universe u
variable {α : Type u}

/-- What a channel has taken in, given out and still holds. It can only be built when the last two
together are part of the first, in its order. -/
structure Channel (α : Type u) where
  entered : List α
  departed : List α
  held : List α
  kept : (departed ++ held).Sublist entered

namespace Channel

def empty : Channel α := ⟨[], [], [], List.Sublist.refl _⟩

end Channel

/-- One move of a channel: `ins` enter behind everything held, `outs` leave in front, and anything
inside may be lost. -/
def Move (ins outs : List α) (c d : Channel α) : Prop :=
  d.entered = c.entered ++ ins ∧ d.departed = c.departed ++ outs ∧
    (outs ++ d.held).Sublist (c.held ++ ins)

/-- What is given out and kept is enough to make a move. -/
theorem Move.of_held {ins outs inside : List α} {c : Channel α}
    (cut : (outs ++ inside).Sublist (c.held ++ ins)) :
    ∃ d : Channel α, Move ins outs c d ∧ d.held = inside := by
  have kept : ((c.departed ++ outs) ++ inside).Sublist (c.entered ++ ins) := by
    rw [List.append_assoc]
    have within := cut.append_left c.departed
    rw [← List.append_assoc c.departed c.held ins] at within
    exact within.trans (c.kept.append_right ins)
  exact ⟨⟨c.entered ++ ins, c.departed ++ outs, inside, kept⟩, ⟨rfl, rfl, cut⟩, rfl⟩

end LossyChannel
