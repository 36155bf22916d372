import Mathlib.Algebra.Ring.Nat
import Mathlib.Data.List.Basic

set_option autoImplicit false

/- Next-fit placement in numbered bins of one capacity. Only the bin under the cursor is open:
the cursor may skip bins at any time, and it skips one for an item that does not fit. -/
namespace NextFit

/-- Items placed so far: the number of the bin, and the size. -/
abbrev Placed := List (Nat × Nat)

/-- The total size of the items placed in bin `i`. -/
def load (placed : Placed) (i : Nat) : Nat :=
  ((placed.filter (fun p => p.1 == i)).map Prod.snd).sum

theorem load_append (front back : Placed) (i : Nat) :
    load (front ++ back) i = load front i + load back i := by
  unfold load
  rw [List.filter_append, List.map_append, List.sum_append]

theorem load_singleton (place size i : Nat) :
    load [(place, size)] i = if place = i then size else 0 := by
  by_cases same : place = i
  · simp [load, same]
  · simp [load, same]

/-- A bin in which nothing was placed is empty. -/
theorem load_eq_zero {placed : Placed} {i : Nat} (none : ∀ p ∈ placed, p.1 ≠ i) :
    load placed i = 0 := by
  have empty : placed.filter (fun p => p.1 == i) = [] := by
    rw [List.filter_eq_nil_iff]
    intro p member
    simpa using none p member
  unfold load
  rw [empty]
  rfl

/-- The items placed fit their bins, in order, and the bin under the cursor has room left. -/
structure Fits (capacity place room : Nat) (placed : Placed) : Prop where
  bounded : ∀ i, load placed i ≤ capacity
  behind : ∀ p ∈ placed, p.1 ≤ place
  room : load placed place + room ≤ capacity
  ordered : placed.Pairwise (fun a b => a.1 ≤ b.1)

variable {capacity place room : Nat} {placed : Placed}

/-- Nothing is placed, and the bin under the cursor is open. -/
theorem Fits.empty (capacity place : Nat) : Fits capacity place capacity [] :=
  ⟨fun _ => Nat.zero_le _, by simp, by simp [load], List.Pairwise.nil⟩

/-- A bin further on is empty. -/
theorem Fits.skip (fits : Fits capacity place room placed) {further : Nat}
    (later : place < further) :
    Fits capacity further capacity placed := by
  refine ⟨fits.bounded, ?_, ?_, fits.ordered⟩
  · intro p member
    have before := fits.behind p member
    omega
  · have none : load placed further = 0 := by
      apply load_eq_zero
      intro p member
      have before := fits.behind p member
      omega
    omega

/-- Room may be given up without placing anything. -/
theorem Fits.shrink (fits : Fits capacity place room placed) {less : Nat} (smaller : less ≤ room) :
    Fits capacity place less placed := by
  have bounded := fits.room
  exact ⟨fits.bounded, fits.behind, by omega, fits.ordered⟩

/-- An item that fits in the room left is placed in the bin under the cursor. -/
theorem Fits.put (fits : Fits capacity place room placed) {size : Nat} (small : size ≤ room) :
    Fits capacity place (room - size) (placed ++ [(place, size)]) := by
  have bounded := fits.room
  refine ⟨?_, ?_, ?_, ?_⟩
  · intro i
    have before := fits.bounded i
    rw [load_append, load_singleton]
    by_cases here : place = i
    · rw [if_pos here, ← here]
      omega
    · rw [if_neg here]
      exact before
  · intro p member
    rcases List.mem_append.mp member with old | new
    · exact fits.behind p old
    · exact Nat.le_of_eq (congrArg Prod.fst (List.mem_singleton.mp new))
  · rw [load_append, load_singleton, if_pos rfl]
    omega
  · rw [List.pairwise_append]
    refine ⟨fits.ordered, List.pairwise_singleton _ _, ?_⟩
    intro p member last inside
    rw [List.mem_singleton.mp inside]
    exact fits.behind p member

end NextFit
