import Mathlib.Data.Int.Log
import Mathlib.Data.Nat.Cast.Order.Field
import Mathlib.Data.Rat.Floor
import Mathlib.Tactic.Linarith
import Mathlib.Tactic.Ring

set_option autoImplicit false

/- Rounding to double precision: 53 significant bits, to the nearest number, to the even one of
two. The exponent is not bounded, so that this is what a machine computes while no result
overflows or is subnormal. -/
namespace Binary64

/-- The integer nearest to a number, the even one of two. -/
def nearestInt (x : ℚ) : ℤ :=
  if 2 * (x - ⌊x⌋) < 1 then ⌊x⌋
  else if 1 < 2 * (x - ⌊x⌋) then ⌊x⌋ + 1
  else if ⌊x⌋ % 2 = 0 then ⌊x⌋
  else ⌊x⌋ + 1

/-- What the last of the 53 bits of a number counts. -/
def ulp (x : ℚ) : ℚ := 2 ^ (Int.log 2 |x| - 52)

/-- The double nearest to a number. -/
def double (x : ℚ) : ℚ := nearestInt (x / ulp x) * ulp x

/-- The integer part of a number, towards zero. -/
def trunc (x : ℚ) : ℤ := if 0 ≤ x then ⌊x⌋ else ⌈x⌉

/-- The numbers of 53 bits. -/
def IsDouble (x : ℚ) : Prop := ∃ m e : ℤ, |m| ≤ 2 ^ 53 ∧ x = m * 2 ^ e

theorem nearestInt_near (x : ℚ) : |(nearestInt x : ℚ) - x| ≤ 1 / 2 := by
  have below := Int.floor_le x
  have above := Int.lt_floor_add_one x
  unfold nearestInt
  rw [abs_le]
  split
  · constructor <;> linarith
  · split
    · push_cast
      constructor <;> linarith
    · split
      · constructor <;> linarith
      · push_cast
        constructor <;> linarith

/-- No integer is nearer. -/
theorem nearestInt_nearest (x : ℚ) (n : ℤ) : |(nearestInt x : ℚ) - x| ≤ |(n : ℚ) - x| := by
  by_cases same : n = nearestInt x
  · rw [same]
  · have near := nearestInt_near x
    have apart : (1 : ℚ) ≤ |(n : ℚ) - nearestInt x| := by
      exact_mod_cast Int.one_le_abs (sub_ne_zero.mpr same)
    have triangle : |(n : ℚ) - nearestInt x| ≤ |(n : ℚ) - x| + |(nearestInt x : ℚ) - x| := by
      rw [abs_sub_comm (nearestInt x : ℚ) x]
      exact abs_sub_le _ _ _
    linarith

/-- Of two integers equally near, the even one is taken. -/
theorem nearestInt_even {x : ℚ} (tie : |(nearestInt x : ℚ) - x| = 1 / 2) :
    nearestInt x % 2 = 0 := by
  have below := Int.floor_le x
  have above := Int.lt_floor_add_one x
  unfold nearestInt at tie ⊢
  split
  · rw [if_pos (by assumption), abs_of_nonpos (by linarith)] at tie
    linarith
  · split
    · rw [if_neg (by assumption), if_pos (by assumption)] at tie
      push_cast at tie
      rw [abs_of_pos (by linarith)] at tie
      linarith
    · split
      · assumption
      · omega

/-- No other integer is as near, but for an odd one of two. -/
theorem nearestInt_eq_iff (x : ℚ) (n : ℤ) :
    nearestInt x = n ↔ |(n : ℚ) - x| ≤ 1 / 2 ∧ (|(n : ℚ) - x| = 1 / 2 → n % 2 = 0) := by
  constructor
  · rintro rfl
    exact ⟨nearestInt_near x, nearestInt_even⟩
  · rintro ⟨near, even⟩
    by_contra other
    have near' := nearestInt_near x
    have triangle : |(nearestInt x : ℚ) - n| ≤ |(nearestInt x : ℚ) - x| + |(n : ℚ) - x| := by
      rw [abs_sub_comm (n : ℚ) x]
      exact abs_sub_le _ _ _
    have apart : (1 : ℚ) ≤ |(nearestInt x : ℚ) - n| := by
      exact_mod_cast Int.one_le_abs (sub_ne_zero.mpr other)
    have beside : |nearestInt x - n| = 1 := by
      have both : |(nearestInt x : ℚ) - n| = 1 := le_antisymm (by linarith) apart
      exact_mod_cast both
    have even' := nearestInt_even (x := x) (by linarith)
    have even := even (by linarith)
    rcases abs_eq (by decide : (0 : ℤ) ≤ 1) |>.mp beside with up | down <;> omega

theorem ulp_pos (x : ℚ) : 0 < ulp x := zpow_pos (by norm_num) _

theorem abs_lt_ulp (x : ℚ) : |x| < 2 ^ 53 * ulp x := by
  have below := Int.lt_zpow_succ_log_self (b := 2) (by decide) |x|
  have shift : (2 : ℚ) ^ 53 * ulp x = 2 ^ (Int.log 2 |x| + 1) := by
    unfold ulp
    rw [← zpow_natCast, ← zpow_add₀ (by norm_num)]
    congr 1
    push_cast
    ring
  rw [shift]
  exact_mod_cast below

theorem ulp_le_abs {x : ℚ} (nonzero : x ≠ 0) : 2 ^ 52 * ulp x ≤ |x| := by
  have above := Int.zpow_log_le_self (b := 2) (by decide) (abs_pos.mpr nonzero)
  have shift : (2 : ℚ) ^ 52 * ulp x = 2 ^ (Int.log 2 |x|) := by
    unfold ulp
    rw [← zpow_natCast, ← zpow_add₀ (by norm_num)]
    congr 1
    push_cast
    ring
  rw [shift]
  exact_mod_cast above

/-- The distance to a multiple of the last bit, counted in last bits. -/
theorem abs_mul_ulp_sub (x : ℚ) (n : ℤ) :
    |(n : ℚ) * ulp x - x| = |(n : ℚ) - x / ulp x| * ulp x := by
  have positive := ulp_pos x
  rw [← abs_of_pos positive, ← abs_mul, abs_of_pos positive, sub_mul,
    div_mul_cancel₀ _ (ne_of_gt positive)]

theorem double_near (x : ℚ) : |double x - x| ≤ ulp x / 2 := by
  have near := nearestInt_near (x / ulp x)
  unfold double
  rw [abs_mul_ulp_sub]
  calc |(nearestInt (x / ulp x) : ℚ) - x / ulp x| * ulp x
      ≤ 1 / 2 * ulp x := mul_le_mul_of_nonneg_right near (le_of_lt (ulp_pos x))
    _ = ulp x / 2 := by ring

theorem double_nearest_multiple (x : ℚ) (n : ℤ) : |double x - x| ≤ |(n : ℚ) * ulp x - x| := by
  unfold double
  rw [abs_mul_ulp_sub, abs_mul_ulp_sub]
  exact mul_le_mul_of_nonneg_right (nearestInt_nearest _ n) (le_of_lt (ulp_pos x))

@[simp] theorem double_zero : double 0 = 0 := by
  unfold double
  simp [nearestInt]

/-- No double is nearer. -/
theorem double_nearest (x : ℚ) {y : ℚ} (isDouble : IsDouble y) : |double x - x| ≤ |y - x| := by
  obtain ⟨m, e, small, rfl⟩ := isDouble
  by_cases zero : x = 0
  · rw [zero, double_zero, sub_zero, abs_zero]
    exact abs_nonneg _
  by_cases multiple : Int.log 2 |x| - 52 ≤ e
  · have shift : (m : ℚ) * 2 ^ e =
        ((m * 2 ^ (e - (Int.log 2 |x| - 52)).toNat : ℤ) : ℚ) * ulp x := by
      unfold ulp
      push_cast
      rw [mul_assoc, ← zpow_natCast, Int.toNat_of_nonneg (by omega), ← zpow_add₀ (by norm_num)]
      congr 2
      ring
    rw [shift]
    exact double_nearest_multiple x _
  · -- A double of smaller last bits is nearer to zero than the power of two below `x`.
    have inside : |(m : ℚ) * 2 ^ e| ≤ 2 ^ 52 * ulp x := by
      have bound : |(m : ℚ)| ≤ 2 ^ 53 := by exact_mod_cast small
      have weight : (2 : ℚ) ^ 53 * 2 ^ e ≤ 2 ^ 52 * ulp x := by
        unfold ulp
        rw [← zpow_natCast, ← zpow_natCast, ← zpow_add₀ (by norm_num), ← zpow_add₀ (by norm_num)]
        apply zpow_le_zpow_right₀ (by norm_num)
        push_cast
        omega
      have positive : (0 : ℚ) < 2 ^ e := zpow_pos (by norm_num) _
      rw [abs_mul, abs_of_pos positive]
      calc |(m : ℚ)| * 2 ^ e ≤ 2 ^ 53 * 2 ^ e :=
            mul_le_mul_of_nonneg_right bound (le_of_lt positive)
        _ ≤ 2 ^ 52 * ulp x := weight
    have outside := ulp_le_abs zero
    obtain ⟨low, high⟩ := abs_le.mp inside
    rcases lt_or_gt_of_ne zero with negative | positive
    · have near := double_nearest_multiple x (-2 ^ 52)
      rw [abs_of_neg negative] at outside
      have toPower : |((-2 ^ 52 : ℤ) : ℚ) * ulp x - x| = -(2 ^ 52 * ulp x) - x := by
        push_cast
        rw [abs_of_nonneg (by linarith)]
        ring
      rw [toPower] at near
      exact le_trans near (le_trans (by linarith) (le_abs_self _))
    · have near := double_nearest_multiple x (2 ^ 52)
      rw [abs_of_pos positive] at outside
      have toPower : |((2 ^ 52 : ℤ) : ℚ) * ulp x - x| = x - 2 ^ 52 * ulp x := by
        push_cast
        rw [abs_of_nonpos (by linarith)]
        ring
      rw [toPower] at near
      exact le_trans near (le_trans (by linarith) (neg_le_abs _))

theorem isDouble_double (x : ℚ) : IsDouble (double x) := by
  refine ⟨nearestInt (x / ulp x), Int.log 2 |x| - 52, ?_, rfl⟩
  have bound : |x / ulp x| < 2 ^ 53 := by
    rw [abs_div, abs_of_pos (ulp_pos x), div_lt_iff₀ (ulp_pos x)]
    exact abs_lt_ulp x
  have near := nearestInt_near (x / ulp x)
  have below : |(nearestInt (x / ulp x) : ℚ)| < 2 ^ 53 + 1 := by
    rw [abs_lt] at bound ⊢
    rw [abs_le] at near
    constructor <;> linarith
  have cast : |nearestInt (x / ulp x)| < 2 ^ 53 + 1 := by exact_mod_cast below
  omega

/-- The nearer of two numbers is the lower one only below their middle. -/
theorem add_le_of_nearer {a b x : ℚ} (near : |a - x| ≤ |b - x|) (less : b < a) : a + b ≤ 2 * x := by
  have squares := sq_le_sq.mpr near
  nlinarith

theorem le_add_of_nearer {a b x : ℚ} (near : |a - x| ≤ |b - x|) (less : a < b) : 2 * x ≤ a + b := by
  have squares := sq_le_sq.mpr near
  nlinarith

/-- Rounding keeps the order, since neither of two doubles may be nearer to the other's number. -/
theorem double_mono {x y : ℚ} (ordered : x ≤ y) : double x ≤ double y := by
  rcases eq_or_lt_of_le ordered with same | less
  · rw [same]
  · by_contra crossed
    have crossed := not_le.mp crossed
    have low := add_le_of_nearer (double_nearest x (isDouble_double y)) crossed
    have high := le_add_of_nearer (double_nearest y (isDouble_double x)) crossed
    linarith

/-- A double is its own rounding. -/
theorem double_eq {x : ℚ} (isDouble : IsDouble x) : double x = x := by
  have near := double_nearest x isDouble
  rw [sub_self, abs_zero] at near
  exact sub_eq_zero.mp (abs_eq_zero.mp (le_antisymm near (abs_nonneg _)))

theorem isDouble_intCast {n : ℤ} (small : |n| ≤ 2 ^ 53) : IsDouble n := ⟨n, 0, small, by simp⟩

theorem isDouble_natCast {n : ℕ} (small : n ≤ 2 ^ 53) : IsDouble n :=
  isDouble_intCast (n := n) (by rw [Nat.abs_cast]; exact_mod_cast small)

/-- The relative error of rounding. -/
theorem double_error (x : ℚ) : |double x - x| ≤ |x| / 2 ^ 53 := by
  by_cases zero : x = 0
  · rw [zero, double_zero]
    simp
  · have near := double_near x
    have weight := ulp_le_abs zero
    rw [le_div_iff₀ (by norm_num)]
    linarith

theorem le_double {x y : ℚ} (isDouble : IsDouble x) (ordered : x ≤ y) : x ≤ double y := by
  have mono := double_mono ordered
  rwa [double_eq isDouble] at mono

theorem double_le {x y : ℚ} (isDouble : IsDouble y) (ordered : x ≤ y) : double x ≤ y := by
  have mono := double_mono ordered
  rwa [double_eq isDouble] at mono

theorem double_nonneg {x : ℚ} (nonneg : 0 ≤ x) : 0 ≤ double x :=
  le_double (isDouble_natCast (n := 0) (by decide)) nonneg

theorem trunc_of_nonneg {x : ℚ} (nonneg : 0 ≤ x) : trunc x = ⌊x⌋ := if_pos nonneg

@[simp] theorem trunc_zero : trunc 0 = 0 := by simp [trunc]

theorem trunc_mono {x y : ℚ} (ordered : x ≤ y) : trunc x ≤ trunc y := by
  unfold trunc
  split
  · rw [if_pos (le_trans (by assumption) ordered)]
    exact Int.floor_mono ordered
  · split
    · exact le_trans (Int.ceil_le.mpr (by push_cast; linarith))
        (Int.floor_nonneg.mpr (by assumption))
    · exact Int.ceil_mono ordered

/-- The quotient of two natural numbers is not rounded up to an integer while the first has 53
bits: it would be further from it than the relative error. -/
theorem floor_double_div {a : ℕ} (small : a < 2 ^ 53) (b : ℕ) :
    ⌊double ((a : ℚ) / b)⌋ = (a / b : ℕ) := by
  rcases Nat.eq_zero_or_pos b with zero | positive
  · simp [zero]
  · have positiveQ : (0 : ℚ) < b := by exact_mod_cast positive
    have quotient : a / b < 2 ^ 53 := lt_of_le_of_lt (Nat.div_le_self a b) small
    have below : ((a / b : ℕ) : ℚ) ≤ a / b := Nat.cast_div_le
    rw [Int.floor_eq_iff, Int.cast_natCast]
    refine ⟨le_double (isDouble_natCast (le_of_lt quotient)) below, ?_⟩
    by_contra raised
    have raised := not_lt.mp raised
    have error := le_trans (le_abs_self _) (double_error ((a : ℚ) / b))
    rw [abs_of_nonneg (by positivity)] at error
    have apart : a + 1 ≤ (a / b + 1) * b := by
      have := Nat.lt_div_mul_add (a := a) positive
      linarith
    have apartQ : (a : ℚ) + 1 ≤ ((a / b : ℕ) + 1) * b := by exact_mod_cast apart
    have smallQ : (a : ℚ) < 2 ^ 53 := by exact_mod_cast small
    have gap : (a : ℚ) / b + 1 / b ≤ (a / b : ℕ) + 1 := by
      rw [← add_div, div_le_iff₀ positiveQ]
      exact apartQ
    have error' : (a : ℚ) / b / 2 ^ 53 < 1 / b := by
      rw [div_div, div_lt_div_iff₀ (by positivity) positiveQ]
      nlinarith
    linarith

/-- Divided by an even number, a tie rounds alike either way. -/
theorem nearestInt_ediv (x : ℚ) (k : ℕ) :
    nearestInt x / (2 * k : ℕ) = ⌊x + 1 / 2⌋ / (2 * k : ℕ) := by
  have below := Int.floor_le x
  have above := Int.lt_floor_add_one x
  have half : ⌊x + 1 / 2⌋ = if 2 * (x - ⌊x⌋) < 1 then ⌊x⌋ else ⌊x⌋ + 1 := by
    split
    · rw [Int.floor_eq_iff]
      constructor <;> linarith
    · rw [Int.floor_eq_iff]
      push_cast
      constructor <;> linarith
  rw [half]
  unfold nearestInt
  split
  · rfl
  · split
    · rfl
    · split
      · -- The two integers have the same half.
        push_cast
        rw [← Int.ediv_ediv_of_nonneg (by decide), ← Int.ediv_ediv_of_nonneg (by decide)]
        congr 1
        omega
      · rfl

/-- Below 2^52 the last bit is at most a half. -/
theorem ulp_of_lt {x : ℚ} (nonneg : 0 ≤ x) (small : x < 2 ^ 52) :
    ∃ k : ℕ, ulp x * (2 * 2 ^ k : ℕ) = 1 := by
  have log : Int.log 2 |x| ≤ 51 := by
    rcases eq_or_lt_of_le nonneg with zero | positive
    · rw [← zero, abs_zero, Int.log_zero_right]
      decide
    · rw [abs_of_pos positive]
      have below : x < ((2 : ℕ) : ℚ) ^ (52 : ℤ) := by exact_mod_cast small
      have less := (Int.lt_zpow_iff_log_lt (by decide) positive).mp below
      omega
  refine ⟨(51 - Int.log 2 |x|).toNat, ?_⟩
  unfold ulp
  push_cast
  rw [← pow_succ', ← zpow_natCast, ← zpow_add₀ (by norm_num)]
  push_cast
  rw [Int.toNat_of_nonneg (by omega)]
  ring_nf
  norm_num

/-- From 2^52 on it is an integer. -/
theorem ulp_of_le {x : ℚ} (large : 2 ^ 52 ≤ x) : ∃ k : ℕ, ulp x = (2 ^ k : ℕ) := by
  have positive : 0 < x := lt_of_lt_of_le (by norm_num) large
  have log : 52 ≤ Int.log 2 |x| := by
    rw [abs_of_pos positive]
    exact (Int.zpow_le_iff_le_log (by decide) positive).mp (by exact_mod_cast large)
  refine ⟨(Int.log 2 |x| - 52).toNat, ?_⟩
  unfold ulp
  push_cast
  rw [← zpow_natCast, Int.toNat_of_nonneg (by omega)]

/-- The integer part that rounding to a double leaves. Up to 2^52 half a last bit may lead to the
next integer. From there on the double is an integer. -/
def RoundsInto (x : ℚ) (n : ℤ) : Prop :=
  (x < 2 ^ 52 ∧ (n : ℚ) ≤ x + ulp x / 2 ∧ x + ulp x / 2 < n + 1) ∨
    (2 ^ 52 ≤ x ∧ ∃ m : ℤ, (n : ℚ) = m * ulp x ∧ |(n : ℚ) - x| ≤ ulp x / 2 ∧
      (|(n : ℚ) - x| = ulp x / 2 → m % 2 = 0))

theorem floor_double_of_lt {x : ℚ} (nonneg : 0 ≤ x) (small : x < 2 ^ 52) :
    ⌊double x⌋ = ⌊x + ulp x / 2⌋ := by
  obtain ⟨k, inverse⟩ := ulp_of_lt nonneg small
  have positive := ulp_pos x
  have divides : ∀ y : ℚ, y * ulp x = y / (2 * 2 ^ k : ℕ) := by
    intro y
    rw [eq_div_iff (by positivity), mul_assoc, inverse, mul_one]
  have middle : x + ulp x / 2 = (x / ulp x + 1 / 2) * ulp x := by
    rw [add_mul, div_mul_cancel₀ _ (ne_of_gt positive)]
    ring
  unfold double
  rw [middle, divides, divides, Int.floor_div_natCast, Int.floor_div_natCast, Int.floor_intCast]
  exact nearestInt_ediv _ _

theorem floor_double_of_le {x : ℚ} (large : 2 ^ 52 ≤ x) (n : ℤ) :
    ⌊double x⌋ = n ↔ ∃ m : ℤ, (n : ℚ) = m * ulp x ∧ |(n : ℚ) - x| ≤ ulp x / 2 ∧
      (|(n : ℚ) - x| = ulp x / 2 → m % 2 = 0) := by
  obtain ⟨k, last⟩ := ulp_of_le large
  have positive := ulp_pos x
  have whole : double x = (nearestInt (x / ulp x) * (2 ^ k : ℕ) : ℤ) := by
    unfold double
    rw [last]
    push_cast
    rfl
  -- Distances are counted in last bits.
  have scaled : ∀ m : ℤ, (|(m : ℚ) * ulp x - x| ≤ ulp x / 2 ↔ |(m : ℚ) - x / ulp x| ≤ 1 / 2) ∧
      (|(m : ℚ) * ulp x - x| = ulp x / 2 ↔ |(m : ℚ) - x / ulp x| = 1 / 2) := by
    intro m
    have half : ulp x / 2 = 1 / 2 * ulp x := by ring
    rw [abs_mul_ulp_sub, half]
    exact ⟨mul_le_mul_iff_left₀ positive, mul_left_inj' (ne_of_gt positive)⟩
  rw [whole, Int.floor_intCast]
  constructor
  · rintro rfl
    have exact : (((nearestInt (x / ulp x) * (2 ^ k : ℕ) : ℤ)) : ℚ) =
        nearestInt (x / ulp x) * ulp x := by
      rw [last]
      push_cast
      rfl
    refine ⟨nearestInt (x / ulp x), exact, ?_⟩
    rw [exact, (scaled _).1, (scaled _).2]
    exact (nearestInt_eq_iff _ _).mp rfl
  · rintro ⟨m, multiple, near⟩
    rw [multiple, (scaled m).1, (scaled m).2] at near
    rw [(nearestInt_eq_iff _ m).mpr near]
    have same : ((m * (2 ^ k : ℕ) : ℤ) : ℚ) = n := by
      rw [multiple, last]
      push_cast
      rfl
    exact_mod_cast same

/-- Which integer part a number has after rounding. -/
theorem floor_double_eq_iff {x : ℚ} (nonneg : 0 ≤ x) (n : ℤ) :
    ⌊double x⌋ = n ↔ RoundsInto x n := by
  unfold RoundsInto
  rcases lt_or_ge x (2 ^ 52) with small | large
  · rw [floor_double_of_lt nonneg small, Int.floor_eq_iff]
    simp [small, not_le.mpr small]
  · rw [floor_double_of_le large]
    simp [large, not_lt.mpr large]

theorem trunc_double_eq_iff {x : ℚ} (nonneg : 0 ≤ x) (n : ℤ) :
    trunc (double x) = n ↔ RoundsInto x n := by
  rw [trunc_of_nonneg (double_nonneg nonneg)]
  exact floor_double_eq_iff nonneg n

end Binary64
