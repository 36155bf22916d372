import Mathlib.Algebra.Order.Ring.Int

set_option autoImplicit false

/- Consecutive numbers that are given out, in order, to numbers that grow but may leave gaps. -/
namespace Numbering

/-- The numbers from `first` to before `next` are given out, each to one number, in order. -/
structure Numbers (first next : Int) (R : Int → Int → Prop) : Prop where
  range : ∀ a x, R a x → first ≤ a ∧ a < next
  covers : ∀ a, first ≤ a → a < next → ∃ x, R a x
  functional : ∀ a x y, R a x → R a y → x = y
  increasing : ∀ a b x y, R a x → R b y → a < b → x < y

theorem numbers_empty (first : Int) : Numbers first first (fun _ _ => False) := by
  refine ⟨fun _ _ given => given.elim, ?_, fun _ _ _ given => given.elim,
    fun _ _ _ _ given => given.elim⟩
  intro a lower upper
  omega

section
variable {first next : Int} {R : Int → Int → Prop}

theorem Numbers.congr {S : Int → Int → Prop} (numbers : Numbers first next R)
    (same : ∀ a x, S a x ↔ R a x) : Numbers first next S := by
  have equal : S = R := by
    funext a x
    exact propext (same a x)
  rw [equal]
  exact numbers

/-- The next number is given to one that is larger than all before. -/
theorem Numbers.give (numbers : Numbers first next R) (start : first ≤ next) {u : Int}
    (larger : ∀ a x, R a x → x < u) :
    Numbers first (next + 1) (fun a x => R a x ∨ a = next ∧ x = u) := by
  constructor
  · rintro a x (old | ⟨new, _⟩)
    · have inside := numbers.range a x old
      omega
    · omega
  · intro a lower upper
    by_cases last : a = next
    · exact ⟨u, Or.inr ⟨last, rfl⟩⟩
    · obtain ⟨x, given⟩ := numbers.covers a lower (by omega)
      exact ⟨x, Or.inl given⟩
  · rintro a x y (old | ⟨new, same⟩) (old' | ⟨new', same'⟩)
    · exact numbers.functional a x y old old'
    · have inside := numbers.range a x old
      omega
    · have inside := numbers.range a y old'
      omega
    · exact same.trans same'.symm
  · rintro a b x y (old | ⟨new, same⟩) (old' | ⟨new', same'⟩) before
    · exact numbers.increasing a b x y old old' before
    · rw [same']
      exact larger a x old
    · have inside := numbers.range b y old'
      omega
    · omega

/-- The numbers given out grow no faster than those they are given to. -/
theorem Numbers.spread (numbers : Numbers first next R) {a x y : Int} {n : Nat} (given : R a x)
    (given' : R (a + n) y) : x + n ≤ y := by
  induction n generalizing y with
  | zero =>
      rw [Nat.cast_zero, add_zero] at given'
      have same := numbers.functional a x y given given'
      omega
  | succ n ih =>
      have lower := numbers.range a x given
      have upper := numbers.range _ y given'
      obtain ⟨z, between⟩ := numbers.covers (a + n) (by omega) (by omega)
      have below := numbers.increasing _ _ z y between given' (by omega)
      have grown := ih between
      omega

/-- Past a pair that belongs together the numbers stay together up to the first gap. -/
theorem Numbers.shift (numbers : Numbers first next R) {d u : Int} (given : R d u) {n : Nat}
    (dense : ∀ x, u ≤ x → x ≤ u + n → ∃ a, R a x) : R (d + n) (u + n) := by
  induction n with
  | zero => simpa using given
  | succ n ih =>
      have before := ih (fun x lower upper => dense x lower (by omega))
      obtain ⟨a, given'⟩ := dense (u + n + 1) (by omega) (by omega)
      have later : d + n < a := by
        by_contra early
        obtain ⟨m, apart⟩ := Int.le.dest (Int.not_lt.mp early)
        rw [← apart] at before
        have order := numbers.spread given' before
        omega
      obtain ⟨m, apart⟩ := Int.le.dest later.le
      rw [← apart] at given'
      have order := numbers.spread before given'
      have one : m = 1 := by omega
      rw [one] at given'
      rw [Nat.cast_add, Nat.cast_one, ← add_assoc, ← add_assoc]
      exact given'

/-- A pair at one distance from the least number and any number given out belongs together exactly
when these two do and there is no gap on the way. -/
theorem Numbers.shift_iff (numbers : Numbers first next R) {c d u v : Int} {n : Nat}
    (least : R c u) (floor : ∀ a x, R a x → u ≤ x) (start : R d v) :
    R (d + n) (u + n) ↔ R d u ∧ ∀ x, u ≤ x → x ≤ u + n → ∃ a, R a x := by
  constructor
  · intro given
    have same : d = c := by
      have order : c ≤ d := by
        by_contra late
        have above := numbers.increasing d c v u start least (by omega)
        have lower := floor d v start
        omega
      obtain ⟨m, apart⟩ := Int.le.dest (show c ≤ d + n by omega)
      rw [← apart] at given
      have grown := numbers.spread least given
      omega
    rw [same] at given ⊢
    refine ⟨least, ?_⟩
    intro x lower upper
    obtain ⟨m, apart⟩ := Int.le.dest lower
    obtain ⟨l, rest⟩ := Int.le.dest upper
    have range := numbers.range c u least
    have range' := numbers.range _ _ given
    obtain ⟨y, between⟩ := numbers.covers (c + m) (by omega) (by omega)
    have below := numbers.spread least between
    have total : c + n = c + m + l := by omega
    rw [total] at given
    have above := numbers.spread between given
    have exact' : y = x := by omega
    rw [← exact']
    exact ⟨_, between⟩
  · rintro ⟨together, dense⟩
    exact numbers.shift together dense

end

end Numbering
