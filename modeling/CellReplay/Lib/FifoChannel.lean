import Mathlib.Data.List.Nodup

set_option autoImplicit false

/- A first-in first-out channel seen from outside: what entered, what left, and
what is held in between. -/
namespace FifoChannel

universe u v
variable {α : Type u} {β : Type v}

/-- What a channel has taken in and given out. The pair can only be built when
everything given out is an initial part of what was taken in. -/
structure Channel (α : Type u) where
  entered : List α
  departed : List α
  ordered : departed <+: entered

namespace Channel

/-- What is inside: taken in and not yet given out. -/
def held (c : Channel α) : List α := c.entered.drop c.departed.length

theorem departed_append_held (c : Channel α) : c.departed ++ c.held = c.entered := by
  have ⟨rest, same⟩ := c.ordered
  rw [held, ← same, List.drop_left]

/-- A channel is described by what left it and what it holds. -/
theorem held_eq_iff (c : Channel α) (inside : List α) :
    c.held = inside ↔ c.entered = c.departed ++ inside := by
  constructor
  · intro same
    rw [← same, departed_append_held]
  · intro same
    rw [held, same, List.drop_left]

def empty : Channel α := ⟨[], [], List.prefix_refl []⟩

end Channel

/-- One move of a channel: `ins` enter behind everything held, then `outs` leave in front. -/
def Move (ins outs : List α) (c d : Channel α) : Prop :=
  d.entered = c.entered ++ ins ∧ d.departed = c.departed ++ outs

/-- Such a cut always makes a move, whatever way the held items are stored. -/
theorem Move.of_held {ins outs inside : List α} {c : Channel α}
    (cut : c.held ++ ins = outs ++ inside) :
    ∃ d : Channel α, Move ins outs c d ∧ d.held = inside := by
  have total : c.entered ++ ins = (c.departed ++ outs) ++ inside := by
    rw [← c.departed_append_held, List.append_assoc, cut, List.append_assoc]
  let d : Channel α := ⟨c.entered ++ ins, c.departed ++ outs, ⟨inside, total.symm⟩⟩
  exact ⟨d, ⟨rfl, rfl⟩, (d.held_eq_iff inside).mpr total⟩

/-- Nothing leaves twice when nothing enters twice. -/
theorem Channel.departed_nodup (c : Channel α) (fresh : c.entered.Nodup) : c.departed.Nodup :=
  List.Nodup.sublist c.ordered.sublist fresh

/-- An item is on one side only. -/
theorem Channel.departed_disjoint_held (c : Channel α) (fresh : c.entered.Nodup) :
    List.Disjoint c.departed c.held := by
  rw [← c.departed_append_held] at fresh
  exact (List.nodup_append'.mp fresh).2.2

theorem Channel.held_nodup (c : Channel α) (fresh : c.entered.Nodup) : c.held.Nodup :=
  fresh.sublist (List.drop_sublist _ _)

end FifoChannel
