import Mathlib.Data.List.Basic

set_option autoImplicit false

/- The items of a ring buffer between two cursors, and what they become when items are
written behind the last one or taken off the first one. One slot of the ring stays free,
so equal cursors mean an empty window. -/
namespace RingWindow

universe u
variable {α : Type u}

/-- The items from cursor `first` up to cursor `last`, around the end of the ring if need be. -/
def window (ring : List α) (first last : Nat) : List α :=
  if first ≤ last then (ring.drop first).take (last - first)
  else ring.drop first ++ ring.take last

/-- Write a chunk over the ring from a place on. -/
def overwrite (ring : List α) (place : Nat) (chunk : List α) : List α :=
  ring.take place ++ chunk ++ ring.drop (place + chunk.length)

/-- A cursor that has reached the end of the ring is at its start. -/
def wrap (size place : Nat) : Nat := if place = size then 0 else place

theorem wrap_lt {size place : Nat} (positive : 0 < size) (inside : place ≤ size) :
    wrap size place < size := by
  unfold wrap
  split
  · exact positive
  · omega

theorem overwrite_length {ring chunk : List α} {place : Nat}
    (fits : place + chunk.length ≤ ring.length) :
    (overwrite ring place chunk).length = ring.length := by
  unfold overwrite
  rw [List.length_append, List.length_append, List.length_take, List.length_drop]
  omega

theorem window_length {ring : List α} {first last : Nat} (firstInside : first < ring.length)
    (lastInside : last < ring.length) : (window ring first last).length =
      if first ≤ last then last - first else ring.length - first + last := by
  unfold window
  split
  · rw [List.length_take, List.length_drop]
    omega
  · rw [List.length_append, List.length_take, List.length_drop]
    omega

theorem take_overwrite {ring chunk : List α} {place : Nat} (inside : place ≤ ring.length) :
    (overwrite ring place chunk).take (place + chunk.length) = ring.take place ++ chunk := by
  unfold overwrite
  have length : (ring.take place ++ chunk).length = place + chunk.length := by
    rw [List.length_append, List.length_take]
    omega
  rw [← length, List.take_left]

theorem drop_overwrite {ring chunk : List α} {place from' : Nat}
    (fits : place + chunk.length ≤ ring.length) (behind : place + chunk.length ≤ from') :
    (overwrite ring place chunk).drop from' = ring.drop from' := by
  unfold overwrite
  have length : (ring.take place ++ chunk).length = place + chunk.length := by
    rw [List.length_append, List.length_take]
    omega
  have more : from' = (ring.take place ++ chunk).length + (from' - (place + chunk.length)) := by
    omega
  rw [more, List.drop_length_add_append, List.drop_drop]
  congr 1
  omega

/-- The items before a cut, from a cursor on, are the window up to the cut. -/
theorem drop_take_window {ring : List α} {first last : Nat} (ordered : first ≤ last) :
    (ring.take last).drop first = window ring first last := by
  unfold window
  rw [if_pos ordered, List.drop_take]

/-- A chunk written at the last cursor is behind the window, if it leaves a slot free. -/
theorem window_push {ring chunk : List α} {first last : Nat} (firstInside : first < ring.length)
    (lastInside : last < ring.length) (fits : last + chunk.length ≤ ring.length)
    (free : (window ring first last).length + chunk.length < ring.length) :
    window (overwrite ring last chunk) first (wrap ring.length (last + chunk.length)) =
      window ring first last ++ chunk := by
  have length := window_length firstInside lastInside
  have taken : (overwrite ring last chunk).take (last + chunk.length) = ring.take last ++ chunk :=
    take_overwrite (Nat.le_of_lt lastInside)
  by_cases ordered : first ≤ last
  · rw [if_pos ordered] at length
    have behind : ((overwrite ring last chunk).take (last + chunk.length)).drop first =
        window ring first last ++ chunk := by
      rw [taken, List.drop_append_of_le_length, drop_take_window ordered]
      rw [List.length_take]
      omega
    by_cases full : last + chunk.length = ring.length
    · have later : ¬ first ≤ 0 := by omega
      have whole : (overwrite ring last chunk).length ≤ last + chunk.length := by
        rw [overwrite_length fits]
        omega
      rw [List.take_of_length_le whole] at behind
      unfold wrap
      rw [if_pos full]
      unfold window at behind ⊢
      rw [if_neg later, List.take_zero, List.append_nil]
      exact behind
    · unfold wrap
      rw [if_neg full, ← behind, drop_take_window (by omega)]
  · rw [if_neg ordered] at length
    have apart : ¬ first ≤ last + chunk.length := by omega
    have short : ¬ last + chunk.length = ring.length := by omega
    unfold wrap
    rw [if_neg short]
    unfold window
    rw [if_neg apart, if_neg ordered, taken, drop_overwrite fits (by omega), List.append_assoc]

/-- Taking items off the first cursor cuts them off the front of the window. -/
theorem window_pop {ring : List α} {first last count : Nat} (firstInside : first < ring.length)
    (lastInside : last < ring.length) (fits : first + count ≤ ring.length)
    (within : count ≤ (window ring first last).length) :
    (ring.drop first).take count ++ window ring (wrap ring.length (first + count)) last =
      window ring first last := by
  have length := window_length firstInside lastInside
  rw [length] at within
  by_cases ordered : first ≤ last
  · rw [if_pos ordered] at within
    have short : ¬ first + count = ring.length := by omega
    have parts : last - first = count + (last - (first + count)) := by omega
    unfold wrap
    rw [if_neg short]
    unfold window
    rw [if_pos ordered, if_pos (by omega), parts, List.take_add, List.drop_drop]
  · by_cases whole : first + count = ring.length
    · have all : (ring.drop first).length ≤ count := by
        rw [List.length_drop]
        omega
      unfold wrap
      rw [if_pos whole]
      unfold window
      rw [if_pos (Nat.zero_le last), if_neg ordered, List.take_of_length_le all, List.drop_zero,
        Nat.sub_zero]
    · have later : ¬ first + count ≤ last := by omega
      unfold wrap
      rw [if_neg whole]
      unfold window
      rw [if_neg later, if_neg ordered, ← List.append_assoc, ← List.drop_drop,
        List.take_append_drop]

end RingWindow
