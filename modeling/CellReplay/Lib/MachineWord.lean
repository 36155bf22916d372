import Mathlib.Data.Int.ModEq
import Mathlib.Tactic.Linarith

set_option autoImplicit false

/- Two's-complement conversions of fixed width. The C and C++ conversions between
integer types are these two functions at the width of the target type. -/
namespace MachineWord

/-- The unsigned `w`-bit word an integer converts to. -/
def toUnsigned (w : Nat) (z : Int) : Nat := (z % 2 ^ w).toNat

/-- The signed `w`-bit word an integer converts to. -/
def toSigned (w : Nat) (z : Int) : Int := Int.bmod z (2 ^ w)

abbrev u64 (z : Int) : Nat := toUnsigned 64 z
abbrev i64 (z : Int) : Int := toSigned 64 z
abbrev u32 (z : Int) : Nat := toUnsigned 32 z
abbrev i32 (z : Int) : Int := toSigned 32 z

theorem toUnsigned_lt (w : Nat) (z : Int) : toUnsigned w z < 2 ^ w := by
  have positive : (0 : Int) < 2 ^ w := Int.pow_pos (by decide)
  have below := Int.emod_lt_of_pos z positive
  have above := Int.emod_nonneg z (ne_of_gt positive)
  have cast : ((toUnsigned w z : Nat) : Int) < ((2 ^ w : Nat) : Int) := by
    rw [toUnsigned, Int.toNat_of_nonneg above]
    exact_mod_cast below
  exact_mod_cast cast

/-- A value in range is its own unsigned word. -/
theorem toUnsigned_of_range (w : Nat) (z : Int) (nonneg : 0 ≤ z) (below : z < 2 ^ w) :
    (toUnsigned w z : Int) = z := by
  rw [toUnsigned, Int.emod_eq_of_lt nonneg below, Int.toNat_of_nonneg nonneg]

theorem toUnsigned_natCast (w n : Nat) (below : n < 2 ^ w) : toUnsigned w n = n := by
  have same := toUnsigned_of_range w n (Int.natCast_nonneg n) (by exact_mod_cast below)
  exact_mod_cast same

/-- Converting to an unsigned word never makes a natural number larger. -/
theorem toUnsigned_le (w n : Nat) : toUnsigned w n ≤ n := by
  have modulo : ((n : Int) % 2 ^ w) = ((n % 2 ^ w : Nat) : Int) := by
    rw [Int.natCast_mod, Int.natCast_pow]
    rfl
  rw [toUnsigned, modulo, Int.toNat_natCast]
  exact Nat.mod_le n (2 ^ w)

/-- Converting a word plus an increment wraps only once. -/
theorem toUnsigned_add (w : Nat) (a b : Int) :
    toUnsigned w ((toUnsigned w a : Int) + b) = toUnsigned w (a + b) := by
  have positive : (0 : Int) < 2 ^ w := Int.pow_pos (by decide)
  have word : ((toUnsigned w a : Nat) : Int) = a % 2 ^ w :=
    Int.toNat_of_nonneg (Int.emod_nonneg a (ne_of_gt positive))
  rw [toUnsigned, word, Int.emod_add_emod, toUnsigned]

theorem toUnsigned_toUnsigned (w : Nat) (z : Int) :
    toUnsigned w (toUnsigned w z) = toUnsigned w z :=
  toUnsigned_natCast w _ (toUnsigned_lt w z)

/-- Congruent values stay congruent when the same is added. -/
theorem toUnsigned_add_congr {w : Nat} {a b : Int} (same : toUnsigned w a = toUnsigned w b)
    (c : Int) : toUnsigned w (a + c) = toUnsigned w (b + c) := by
  rw [← toUnsigned_add w a, same, toUnsigned_add]

/-- Passing through the signed word of the same width changes nothing. -/
theorem toUnsigned_toSigned (w : Nat) (z : Int) : toUnsigned w (toSigned w z) = toUnsigned w z := by
  have same := Int.bmod_emod (x := z) (m := 2 ^ w)
  have cast : ((2 ^ w : Nat) : Int) = (2 ^ w : Int) := by norm_cast
  rw [cast] at same
  rw [toUnsigned, toSigned, same, toUnsigned]

/-- Nor does passing through a wider unsigned word. -/
theorem toSigned_toUnsigned {v w : Nat} (narrow : v ≤ w) (z : Int) :
    toSigned v (toUnsigned w z) = toSigned v z := by
  have positive : (0 : Int) < 2 ^ w := Int.pow_pos (by decide)
  have word : ((toUnsigned w z : Nat) : Int) = z % 2 ^ w :=
    Int.toNat_of_nonneg (Int.emod_nonneg z (ne_of_gt positive))
  have divides : ((2 ^ v : Nat) : Int) ∣ 2 ^ w := by
    have natural : (2 ^ v : Nat) ∣ 2 ^ w := Nat.pow_dvd_pow 2 narrow
    exact_mod_cast Int.natCast_dvd_natCast.mpr natural
  rw [toSigned, toSigned, word, ← Int.emod_bmod (z % 2 ^ w), Int.emod_emod_of_dvd _ divides,
    Int.emod_bmod]

/-- A value in range is its own signed word. -/
theorem toSigned_of_range (w : Nat) (z : Int) (positive : 0 < w)
    (above : -(2 ^ (w - 1) : Int) ≤ z) (below : z < 2 ^ (w - 1)) : toSigned w z = z := by
  have half : (2 ^ w : Nat) = 2 * 2 ^ (w - 1) := by
    rw [← Nat.pow_succ']
    congr 1
    omega
  have cast : ((2 ^ (w - 1) : Nat) : Int) = (2 ^ (w - 1) : Int) := by norm_cast
  rw [toSigned]
  apply Int.bmod_eq_of_le
  · rw [half]
    omega
  · rw [half]
    omega

/-- Nor does converting to a signed word. -/
theorem toSigned_le (w : Nat) (z : Int) (nonneg : 0 ≤ z) : toSigned w z ≤ z := by
  have modulo : z % ((2 ^ w : Nat) : Int) ≤ z := by
    have natural : (z.toNat : Int) = z := Int.toNat_of_nonneg nonneg
    rw [← natural, ← Int.natCast_mod]
    exact_mod_cast Nat.mod_le z.toNat (2 ^ w)
  unfold toSigned Int.bmod
  simp only
  split
  · exact modulo
  · omega

/-- A word whose signed value is not negative is that value. -/
theorem toSigned_eq_of_nonneg (w : Nat) (z : Int) (range : 0 ≤ z ∧ z < 2 ^ w)
    (nonneg : 0 ≤ toSigned w z) : toSigned w z = z := by
  have below := toSigned_le w z range.1
  have word := toUnsigned_toSigned w z
  have left := toUnsigned_of_range w (toSigned w z) nonneg (by omega)
  have right := toUnsigned_of_range w z range.1 range.2
  rw [← left, word, right]

theorem le_toSigned (w : Nat) (z : Int) : -(2 ^ w : Int) ≤ toSigned (w + 1) z := by
  have above := Int.le_bmod (x := z) (m := 2 ^ (w + 1)) (Nat.two_pow_pos _)
  have half : (2 ^ (w + 1) : Nat) = 2 * 2 ^ w := Nat.pow_succ'
  have cast : ((2 ^ w : Nat) : Int) = (2 ^ w : Int) := by norm_cast
  rw [toSigned]
  rw [half] at above ⊢
  omega

theorem toSigned_lt (w : Nat) (z : Int) : toSigned (w + 1) z < 2 ^ w := by
  have below := Int.bmod_lt (x := z) (m := 2 ^ (w + 1)) (Nat.two_pow_pos _)
  have half : (2 ^ (w + 1) : Nat) = 2 * 2 ^ w := Nat.pow_succ'
  have cast : ((2 ^ w : Nat) : Int) = (2 ^ w : Int) := by norm_cast
  rw [toSigned]
  rw [half] at below ⊢
  omega

theorem toUnsigned_modEq (w : Nat) (z : Int) : (toUnsigned w z : Int) ≡ z [ZMOD 2 ^ w] := by
  have positive : (0 : Int) < 2 ^ w := Int.pow_pos (by decide)
  have word : ((toUnsigned w z : Nat) : Int) = z % 2 ^ w :=
    Int.toNat_of_nonneg (Int.emod_nonneg z (ne_of_gt positive))
  rw [word]
  exact Int.mod_modEq z _

/-- Congruent values have the same signed word. -/
theorem toSigned_eq_of_modEq {w : Nat} {a b : Int} (same : a ≡ b [ZMOD 2 ^ w]) :
    toSigned w a = toSigned w b := by
  have word : toUnsigned w a = toUnsigned w b := congrArg Int.toNat same
  rw [← toSigned_toUnsigned (Nat.le_refl w) a, word, toSigned_toUnsigned (Nat.le_refl w)]

/-- A value that grows by `d` has a word that grows by `d`, unless that wraps around. -/
theorem toUnsigned_shift {w d : Nat} {z : Int} (below : toUnsigned w z + d < 2 ^ w) :
    toUnsigned w (z + d) = toUnsigned w z + d := by
  rw [← toUnsigned_add w z d]
  exact_mod_cast toUnsigned_natCast w _ below

end MachineWord
