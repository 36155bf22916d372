import Mathlib.Algebra.Ring.Nat
import Mathlib.Data.List.Basic

set_option autoImplicit false

/- A server that sends items as one stream of bytes. An item is complete when the bytes
sent reach the total size of the items up to and including it. -/
namespace FluidServer

universe u
variable {α : Type u} (size : α → Nat)

/-- The total size of some items. -/
def bytes (items : List α) : Nat := (items.map size).sum

/-- The total size of the items up to and including number `k`. -/
def bytesUpTo (items : List α) (k : Nat) : Nat := bytes size (items.take (k + 1))

@[simp] theorem bytes_nil : bytes size [] = 0 := rfl

@[simp] theorem bytes_cons (item : α) (items : List α) :
    bytes size (item :: items) = size item + bytes size items := rfl

@[simp] theorem bytes_append (front back : List α) :
    bytes size (front ++ back) = bytes size front + bytes size back := by
  unfold bytes
  rw [List.map_append, List.sum_append]

/-- More items are not fewer bytes. -/
theorem bytes_take_mono (items : List α) {j k : Nat} (ordered : j ≤ k) :
    bytes size (items.take j) ≤ bytes size (items.take k) := by
  obtain ⟨more, rfl⟩ := Nat.exists_eq_add_of_le ordered
  rw [List.take_add, bytes_append]
  exact Nat.le_add_right _ _

/-- Of a stream of items, the bytes sent are all those of the first items, and of the next
item some bytes that are not all of it. -/
structure Sent (done rest : List α) (sent : Nat) : Prop where
  complete : bytes size done ≤ sent
  pending : ∀ item ∈ rest.head?, sent < bytes size done + size item

/-- The items done are those whose bytes, with all bytes ahead of them, are sent. -/
theorem Sent.done_iff {done rest : List α} {sent : Nat} (state : Sent size done rest sent)
    {k : Nat} (inside : k < (done ++ rest).length) :
    k < done.length ↔ bytesUpTo size (done ++ rest) k ≤ sent := by
  have complete := state.complete
  unfold bytesUpTo
  constructor
  · intro below
    have upTo := bytes_take_mono size (done ++ rest) (j := k + 1) (k := done.length) below
    rw [List.take_left] at upTo
    omega
  · intro reached
    by_contra behind
    cases rest with
    | nil =>
        rw [List.append_nil] at inside
        exact behind inside
    | cons item rest =>
        have next := state.pending item rfl
        have upTo := bytes_take_mono size (done ++ item :: rest) (j := done.length + 1) (k := k + 1)
          (by omega)
        rw [List.take_length_add_append, List.take_succ_cons, List.take_zero, bytes_append,
          bytes_cons, bytes_nil] at upTo
        omega

/-- The items that become done between two counts of bytes are those whose bytes are reached
between the two. -/
theorem Sent.between_iff {done served rest : List α} {before after : Nat}
    (first : Sent size done (served ++ rest) before)
    (second : Sent size (done ++ served) rest after)
    {k : Nat} (inside : k < (done ++ served ++ rest).length) :
    done.length ≤ k ∧ k < done.length + served.length ↔
      before < bytesUpTo size (done ++ served ++ rest) k ∧
        bytesUpTo size (done ++ served ++ rest) k ≤ after := by
  have early := first.done_iff size (k := k) (by rw [← List.append_assoc]; exact inside)
  have late := second.done_iff size inside
  rw [← List.append_assoc] at early
  rw [List.length_append] at late
  omega

end FluidServer
