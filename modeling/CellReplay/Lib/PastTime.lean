import Mathlib.Data.List.Basic

set_option autoImplicit false

/- The past operator "since" over the sequence of events so far. -/
namespace PastTime

universe u
variable {α : Type u} {P : List α → α → Prop} {Q : α → Prop} {events : List α}

/-- Some event, with those before it, satisfies `P`, and none behind it satisfies `Q`. -/
def Since (P : List α → α → Prop) (Q : α → Prop) (events : List α) : Prop :=
  ∃ before event behind, events = before ++ event :: behind ∧ P before event ∧
    ∀ later ∈ behind, ¬ Q later

theorem not_since_nil : ¬ Since P Q [] := by
  intro since
  obtain ⟨before, event, behind, split, _⟩ := since
  exact List.append_ne_nil_of_right_ne_nil before (List.cons_ne_nil event behind) split.symm

/-- Events that do not satisfy `Q` change nothing. -/
theorem Since.append {behind : List α} (since : Since P Q events)
    (free : ∀ later ∈ behind, ¬ Q later) : Since P Q (events ++ behind) := by
  obtain ⟨before, event, between, split, holds, earlier⟩ := since
  refine ⟨before, event, between ++ behind, ?_, holds, ?_⟩
  · rw [split, List.append_assoc, List.cons_append]
  · intro later member
    rcases List.mem_append.mp member with old | new
    · exact earlier later old
    · exact free later new

/-- In a sequence with one event more, an event is that one or an earlier one. -/
theorem snoc_eq_append_cons {event other : α} {before behind : List α}
    (split : events ++ [event] = before ++ other :: behind) :
    (events = before ∧ event = other) ∨ ∃ rest, events = before ++ other :: rest ∧
      behind = rest ++ [event] := by
  rcases List.eq_nil_or_concat behind with empty | ⟨rest, last, shape⟩
  · rw [empty] at split
    obtain ⟨same, tail⟩ := List.append_inj' split rfl
    exact Or.inl ⟨same, List.head_eq_of_cons_eq tail⟩
  · rw [shape, List.concat_eq_append, ← List.cons_append, ← List.append_assoc] at split
    obtain ⟨same, tail⟩ := List.append_inj' split rfl
    refine Or.inr ⟨rest, same, ?_⟩
    rw [shape, List.concat_eq_append, tail]

/-- The recursion of the operator on the latest event. -/
theorem since_snoc {event : α} :
    Since P Q (events ++ [event]) ↔ P events event ∨ Since P Q events ∧ ¬ Q event := by
  constructor
  · intro since
    obtain ⟨before, first, behind, split, holds, free⟩ := since
    rcases snoc_eq_append_cons split with ⟨same, last⟩ | ⟨rest, same, shape⟩
    · rw [same, last]
      exact Or.inl holds
    · rw [shape] at free
      refine Or.inr ⟨⟨before, first, rest, same, holds, ?_⟩, ?_⟩
      · intro later member
        exact free later (List.mem_append_left _ member)
      · exact free event (List.mem_append_right _ (List.mem_singleton_self event))
  · intro either
    rcases either with holds | ⟨since, free⟩
    · exact ⟨events, event, [], rfl, holds, by simp⟩
    · apply since.append
      intro later member
      rw [List.mem_singleton.mp member]
      exact free

end PastTime
