import Mathlib.Data.List.Basic
import Mathlib.Algebra.Order.Group.Nat

set_option autoImplicit false

/- Natural numbers as hexadecimal text of a fixed width, the highest digit first. -/
namespace HexText

/-- The digit of a value below 16. -/
def digit (value : Nat) : Char :=
  if value < 10 then Char.ofNat (48 + value) else Char.ofNat (55 + value)

/-- The value of a digit, in upper or in lower case. -/
def value (c : Char) : Option Nat :=
  if c.isDigit then some (c.toNat - 48)
  else if 'A' ≤ c ∧ c ≤ 'F' then some (c.toNat - 55)
  else if 'a' ≤ c ∧ c ≤ 'f' then some (c.toNat - 87)
  else none

def isHexDigit (c : Char) : Bool := (value c).isSome

/-- The digits of a number, in a field of some width. -/
def digits : Nat → Nat → List Char
  | 0, _ => []
  | width + 1, n => digits width (n / 16) ++ [digit (n % 16)]

/-- The number some digits make. -/
def read (text : List Char) : Nat := text.foldl (fun n c => 16 * n + (value c).getD 0) 0

theorem value_digit : ∀ d < 16, value (digit d) = some d := by decide

@[simp] theorem digits_length (width n : Nat) : (digits width n).length = width := by
  induction width generalizing n with
  | zero => rfl
  | succ width ih => simp [digits, ih]

theorem mem_digits {width n : Nat} {c : Char} (member : c ∈ digits width n) :
    ∃ d < 16, c = digit d := by
  induction width generalizing n with
  | zero => cases member
  | succ width ih =>
      rcases List.mem_append.mp member with high | low
      · exact ih high
      · exact ⟨n % 16, Nat.mod_lt _ (by decide), List.mem_singleton.mp low⟩

/-- What is read of the digits of a number is the number, as far as the field holds it. -/
theorem read_digits (width n : Nat) : read (digits width n) = n % 16 ^ width := by
  induction width generalizing n with
  | zero => simp [digits, read, Nat.mod_one]
  | succ width ih =>
      have high := ih (n / 16)
      unfold read at high ⊢
      rw [digits, List.foldl_append, high, List.foldl_cons, List.foldl_nil,
        value_digit _ (Nat.mod_lt _ (by decide)), Option.getD_some, Nat.pow_succ,
        Nat.mul_comm (16 ^ width) 16, Nat.mod_mul]
      omega

end HexText
