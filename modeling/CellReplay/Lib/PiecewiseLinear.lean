import Mathlib.Algebra.Order.Field.Basic
import Mathlib.Tactic.FieldSimp
import Mathlib.Tactic.Linarith
import Mathlib.Tactic.LinearCombination
import Mathlib.Tactic.Ring

set_option autoImplicit false

/- The piecewise linear function through some points given in ascending order, constant outside
of them, and evenly spaced points whose values alone are stored. -/
namespace PiecewiseLinear

variable {K : Type} [Field K] [LinearOrder K] [IsStrictOrderedRing K]

/-- The function through the points; 0 when there are none. -/
def interpolant : List (K × K) → K → K
  | [], _ => 0
  | [a], _ => a.2
  | a :: b :: points, x =>
      if x ≤ a.1 then a.2
      else if x ≤ b.1 then a.2 + (x - a.1) / (b.1 - a.1) * (b.2 - a.2)
      else interpolant (b :: points) x

omit [IsStrictOrderedRing K] in
/-- Up to the first point the function is constant. -/
theorem interpolant_of_le {a : K × K} {points : List (K × K)} {x : K} (before : x ≤ a.1) :
    interpolant (a :: points) x = a.2 := by
  cases points with
  | nil => rfl
  | cons b points => rw [interpolant, if_pos before]

/-- From the second point on the first one does not matter. -/
theorem interpolant_cons {a b : K × K} {points : List (K × K)} {x : K} (ordered : a.1 < b.1)
    (behind : b.1 ≤ x) : interpolant (a :: b :: points) x = interpolant (b :: points) x := by
  rw [interpolant, if_neg (by linarith)]
  by_cases same : x ≤ b.1
  · obtain rfl : x = b.1 := le_antisymm same behind
    have apart : b.1 - a.1 ≠ 0 := by linarith
    rw [if_pos same, interpolant_of_le (le_refl _), div_self apart]
    ring
  · rw [if_neg same]

omit [IsStrictOrderedRing K] in
/-- Between the first two points the function is linear. -/
theorem interpolant_between {a b : K × K} {points : List (K × K)} {x : K} (behind : a.1 ≤ x)
    (before : x ≤ b.1) :
    interpolant (a :: b :: points) x = a.2 + (x - a.1) / (b.1 - a.1) * (b.2 - a.2) := by
  rw [interpolant]
  by_cases same : x ≤ a.1
  · obtain rfl : x = a.1 := le_antisymm same behind
    rw [if_pos same]
    ring
  · rw [if_neg same, if_pos before]

/-- At each point the function has the value of the point. -/
theorem interpolant_at {points : List (K × K)} (sorted : points.Pairwise (fun a b => a.1 < b.1))
    {p : K × K} (member : p ∈ points) : interpolant points p.1 = p.2 := by
  induction points with
  | nil => cases member
  | cons a points ih =>
      rw [List.pairwise_cons] at sorted
      rcases List.mem_cons.mp member with rfl | behind
      · exact interpolant_of_le (le_refl _)
      · cases points with
        | nil => cases behind
        | cons b points =>
            have reached : b.1 ≤ p.1 := by
              rcases List.mem_cons.mp behind with rfl | later
              · exact le_refl _
              · exact le_of_lt ((List.pairwise_cons.mp sorted.2).1 p later)
            rw [interpolant_cons (sorted.1 b List.mem_cons_self) reached]
            exact ih sorted.2 behind

/-- Values at evenly spaced places. -/
def evenly (step : K) : K → List K → List (K × K)
  | _, [] => []
  | first, value :: values => (first, value) :: evenly step (first + step) values

/-- Each point stands at its place among evenly spaced ones, or repeats the value before it. -/
def InPlace (step : K) : K → List (K × K) → Prop
  | first, a :: b :: points =>
      (b.1 = first + step ∨ b.2 = a.2) ∧ InPlace step (first + step) (b :: points)
  | _, _ => True

/-- Points at least a step apart. -/
def Spaced (step : K) (points : List (K × K)) : Prop :=
  points.Pairwise (fun a b => a.1 + step ≤ b.1)

/-- A first point whose value is repeated does not matter. -/
theorem interpolant_repeat {a b : K × K} {points : List (K × K)} (ordered : a.1 < b.1)
    (same : b.2 = a.2) (x : K) :
    interpolant (a :: b :: points) x = interpolant (b :: points) x := by
  rcases le_total b.1 x with behind | before
  · exact interpolant_cons ordered behind
  · rw [interpolant_of_le before, interpolant, same, sub_self, mul_zero, add_zero, if_pos before,
      ite_self]

section
variable {step : K} (positive : 0 < step)
include positive

/-- Points in their places make the same function as the evenly spaced ones with their values. -/
theorem interpolant_evenly_of_inPlace {first : K} {points : List (K × K)}
    (spaced : Spaced step points) (start : ∀ a, points.head? = some a → first ≤ a.1)
    (places : InPlace step first points) (x : K) :
    interpolant (evenly step first (points.map Prod.snd)) x = interpolant points x := by
  induction points generalizing first with
  | nil => rfl
  | cons a points ih =>
      cases points with
      | nil => rfl
      | cons b points =>
          obtain ⟨place, others⟩ := places
          have ⟨gaps, spacedRest⟩ := List.pairwise_cons.mp spaced
          have gap := gaps b List.mem_cons_self
          have begin := start a rfl
          have rest := ih spacedRest
            (by
              intro c front
              cases front
              linarith)
            others
          rw [List.map_cons, evenly] at rest ⊢
          rw [List.map_cons, evenly]
          by_cases same : b.2 = a.2
          · have even : (first, a.2).1 < (first + step, b.2).1 := by simpa using positive
            rw [interpolant_repeat even same, interpolant_repeat (by linarith) same, rest]
          · have next : b.1 = first + step := place.resolve_right same
            have here : a.1 = first := le_antisymm (by linarith) begin
            rw [interpolant, interpolant, rest, here, next]

/-- A function that has the value of its second point one step from the first place has that point
there, unless the value is that of the first point. -/
theorem place_of_value {first : K} {a b : K × K} {points : List (K × K)} (start : first ≤ a.1)
    (gap : a.1 + step ≤ b.1) (value : b.2 = interpolant (a :: b :: points) (first + step)) :
    b.1 = first + step ∨ b.2 = a.2 := by
  by_contra neither
  rw [not_or] at neither
  have later : first + step < b.1 := lt_of_le_of_ne (by linarith) (Ne.symm neither.1)
  rcases le_total (first + step) a.1 with before | behind
  · rw [interpolant_of_le before] at value
    exact neither.2 value
  · rw [interpolant_between behind (le_of_lt later)] at value
    have apart : 0 < b.1 - a.1 := by linarith
    have ratio : (first + step - a.1) / (b.1 - a.1) < 1 := by
      rw [div_lt_one apart]
      linarith
    have difference : (1 - (first + step - a.1) / (b.1 - a.1)) * (b.2 - a.2) = 0 := by
      linear_combination value
    rcases mul_eq_zero.mp difference with whole | none
    · linarith
    · exact neither.2 (by linarith)

/-- Points that make that function, at least at the even places, are in their places. -/
theorem inPlace_of_interpolant_evenly {first : K} {points : List (K × K)}
    (spaced : Spaced step points) (start : ∀ a, points.head? = some a → first ≤ a.1)
    (agree : ∀ k : ℕ, k < points.length →
      interpolant (evenly step first (points.map Prod.snd)) (first + k * step) =
        interpolant points (first + k * step)) : InPlace step first points := by
  induction points generalizing first with
  | nil => trivial
  | cons a points ih =>
      cases points with
      | nil => trivial
      | cons b points =>
          have ⟨gaps, spacedRest⟩ := List.pairwise_cons.mp spaced
          have gap := gaps b List.mem_cons_self
          have begin := start a rfl
          have second := agree 1 (by simp)
          rw [Nat.cast_one, one_mul, List.map_cons, List.map_cons, evenly, evenly,
            interpolant_cons (by simpa using positive) (le_refl _),
            interpolant_of_le (le_refl _)] at second
          have place := place_of_value positive begin gap second
          refine ⟨place, ih spacedRest ?_ ?_⟩
          · intro c front
            cases front
            linarith
          · intro k inside
            have both := agree (k + 1) (by simpa using inside)
            have here : first + ((k + 1 : ℕ) : K) * step = first + step + k * step := by
              push_cast
              ring
            have behind : first + step ≤ first + step + (k : K) * step := by
              have := mul_nonneg (Nat.cast_nonneg k : (0 : K) ≤ k) (le_of_lt positive)
              linarith
            rw [here, List.map_cons, List.map_cons, evenly, evenly,
              interpolant_cons (by simpa using positive) behind] at both
            rw [List.map_cons, evenly, both]
            rcases place with next | same
            · exact interpolant_cons (by linarith) (by rw [next]; exact behind)
            · exact interpolant_repeat (by linarith) same _

/-- Between two even places the function is linear. -/
theorem interpolant_evenly_between {first x : K} {values : List K} {k : ℕ}
    (inside : k + 1 < values.length) (behind : first + k * step ≤ x)
    (before : x ≤ first + (k + 1) * step) :
    interpolant (evenly step first values) x =
      values.getD k 0 + (x - (first + k * step)) / step * (values.getD (k + 1) 0 - values.getD k 0)
        := by
  induction k generalizing first values with
  | zero =>
      obtain ⟨u, rest, rfl⟩ := List.exists_cons_of_length_pos (by omega : 0 < values.length)
      obtain ⟨v, rest, rfl⟩ := List.exists_cons_of_length_pos
        (by simpa using inside : 0 < rest.length)
      rw [Nat.cast_zero, zero_mul, add_zero] at behind
      rw [Nat.cast_zero, zero_add, one_mul] at before
      rw [evenly, evenly, interpolant_between behind before]
      simp
  | succ k ih =>
      obtain ⟨u, rest, rfl⟩ := List.exists_cons_of_length_pos (by omega : 0 < values.length)
      have longer : k + 1 < rest.length := by simpa using inside
      obtain ⟨v, others, shape⟩ := List.exists_cons_of_length_pos (by omega : 0 < rest.length)
      have multiple := mul_nonneg (Nat.cast_nonneg k : (0 : K) ≤ k) (le_of_lt positive)
      push_cast at behind before
      have here : first + step + k * step ≤ x := by linarith
      have there : x ≤ first + step + (k + 1) * step := by linarith
      have tail := ih longer here there
      rw [evenly]
      rw [shape, evenly] at tail ⊢
      rw [interpolant_cons (by simpa using positive) (by linarith), tail]
      simp only [List.getD_cons_succ]
      push_cast
      ring_nf

/-- From the last even place on the function is constant. -/
theorem interpolant_evenly_last {first x : K} {values : List K}
    (behind : first + (values.length - 1 : ℕ) * step ≤ x) :
    interpolant (evenly step first values) x = values.getD (values.length - 1) 0 := by
  induction values generalizing first with
  | nil => rfl
  | cons u values ih =>
      cases values with
      | nil => rfl
      | cons v values =>
          have multiple := mul_nonneg (Nat.cast_nonneg values.length : (0 : K) ≤ values.length)
            (le_of_lt positive)
          simp only [List.length_cons, Nat.add_sub_cancel] at behind ih ⊢
          push_cast at behind
          have tail := @ih (first + step) (by linarith)
          rw [evenly] at tail ⊢
          rw [evenly, interpolant_cons (by simpa using positive) (by linarith), tail]
          rfl

end

end PiecewiseLinear
