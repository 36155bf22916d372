import Mathlib.Data.List.Sort

set_option autoImplicit false

/- A priority queue as its items in the order they will be popped. -/

universe u

/-- The items, first to pop first. `before a b` says that `a` may be popped ahead of `b`. -/
structure PriorityQueue (α : Type u) (before : α → α → Prop) where
  items : List α
  sorted : items.Pairwise before

namespace PriorityQueue

variable {α : Type u} {before : α → α → Prop}

def empty : PriorityQueue α before := ⟨[], List.Pairwise.nil⟩

/-- Insert an item at its place. -/
def push [DecidableRel before] [Std.Total before] [IsTrans α before]
    (q : PriorityQueue α before) (a : α) : PriorityQueue α before :=
  ⟨q.items.orderedInsert before a, List.Pairwise.orderedInsert a q.items q.sorted⟩

/-- Remove the first item. -/
def pop (q : PriorityQueue α before) : PriorityQueue α before :=
  ⟨q.items.tail, q.sorted.tail⟩

@[simp] theorem empty_items : (empty : PriorityQueue α before).items = [] := rfl

@[simp] theorem pop_items (q : PriorityQueue α before) : q.pop.items = q.items.tail := rfl

/-- No item may be popped ahead of the first one. -/
theorem top_before (q : PriorityQueue α before) (top : α) (rest : List α)
    (shape : q.items = top :: rest) : ∀ a ∈ rest, before top a := by
  have sorted := q.sorted
  rw [shape] at sorted
  exact (List.pairwise_cons.mp sorted).1

private theorem orderedInsert_last [DecidableRel before] (items : List α) (a : α)
    (behind : ∀ b ∈ items, ¬ before a b) :
    items.orderedInsert before a = items ++ [a] := by
  induction items with
  | nil => rfl
  | cons b items ih =>
      rw [List.orderedInsert_of_not_le before items (behind b (by simp)),
        ih (fun c member => behind c (by simp [member])), List.cons_append]

section
variable [DecidableRel before] [Std.Total before] [IsTrans α before]

theorem mem_push (q : PriorityQueue α before) (a b : α) :
    b ∈ (q.push a).items ↔ b = a ∨ b ∈ q.items :=
  List.mem_orderedInsert before

theorem length_push (q : PriorityQueue α before) (a : α) :
    (q.push a).items.length = q.items.length + 1 :=
  List.orderedInsert_length before q.items a

/-- An item that may be popped ahead of no other goes to the back. -/
theorem push_last (q : PriorityQueue α before) (a : α) (behind : ∀ b ∈ q.items, ¬ before a b) :
    (q.push a).items = q.items ++ [a] := orderedInsert_last q.items a behind

end

end PriorityQueue
