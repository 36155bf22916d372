import Mathlib.Data.List.Basic
import Mathlib.Data.List.DropRight

set_option autoImplicit false

/- Integers as decimal text, and lists of them with a separator in between. -/
namespace DecimalText

/-- The decimal digits of an integer, behind a minus sign when it is negative. -/
def ofInt (z : Int) : List Char :=
  if z < 0 then '-' :: Nat.toDigits 10 z.natAbs else Nat.toDigits 10 z.toNat

theorem ofInt_of_nonneg {z : Int} (nonneg : 0 ≤ z) : ofInt z = Nat.toDigits 10 z.toNat :=
  if_neg (by omega)

theorem ofInt_of_neg {z : Int} (negative : z < 0) : ofInt z = '-' :: Nat.toDigits 10 z.natAbs :=
  if_pos negative

theorem isDigit_of_mem_ofInt {z : Int} (nonneg : 0 ≤ z) {c : Char} (member : c ∈ ofInt z) :
    c.isDigit = true := by
  rw [ofInt_of_nonneg nonneg] at member
  exact Nat.isDigit_of_mem_toDigits (by decide) (by decide) member

theorem ofInt_ne_nil (z : Int) : ofInt z ≠ [] := by
  unfold ofInt
  split
  · exact List.cons_ne_nil _ _
  · exact Nat.toDigits_ne_nil

/-- No other character than a digit or the minus sign is in the text of an integer. -/
theorem not_mem_ofInt {c : Char} (digit : c.isDigit = false) (sign : c ≠ '-') (z : Int) :
    c ∉ ofInt z := by
  intro member
  have digits : ∀ n : Nat, c ∉ Nat.toDigits 10 n := by
    intro n inside
    rw [Nat.isDigit_of_mem_toDigits (by decide) (by decide) inside] at digit
    cases digit
  unfold ofInt at member
  split at member
  · rcases List.mem_cons.mp member with same | inside
    · exact sign same
    · exact digits _ inside
  · exact digits _ member

/-- Integers with a separator in between. -/
def joined (sep : Char) (zs : List Int) : List Char := [sep].intercalate (zs.map ofInt)

theorem joined_cons_cons (sep : Char) (x y : Int) (zs : List Int) :
    joined sep (x :: y :: zs) = ofInt x ++ sep :: joined sep (y :: zs) := by
  unfold joined
  rw [List.map_cons, List.map_cons, List.intercalate_cons_cons, List.append_assoc,
    List.singleton_append]

theorem not_mem_intercalate {c sep : Char} (other : c ≠ sep) {texts : List (List Char)}
    (clean : ∀ text ∈ texts, c ∉ text) : c ∉ [sep].intercalate texts := by
  induction texts with
  | nil => exact List.not_mem_nil
  | cons first texts ih =>
      have front := clean first List.mem_cons_self
      have others := ih (fun text member => clean text (List.mem_cons_of_mem first member))
      cases texts with
      | nil =>
          rw [List.intercalate_singleton]
          exact front
      | cons second texts =>
          rw [List.intercalate_cons_cons, List.append_assoc]
          intro member
          rcases List.mem_append.mp member with inside | behind
          · exact front inside
          · rcases List.mem_cons.mp behind with same | later
            · exact other same
            · exact others later

/-- Splitting at the separator gives the texts of the integers back. -/
theorem splitOn_joined {sep : Char} (digit : sep.isDigit = false) (sign : sep ≠ '-')
    {zs : List Int} (some' : zs ≠ []) : (joined sep zs).splitOn sep = zs.map ofInt := by
  apply List.splitOn_intercalate
  · intro text member
    have ⟨z, _, same⟩ := List.mem_map.mp member
    rw [← same]
    exact not_mem_ofInt digit sign z
  · rw [Ne, List.map_eq_nil_iff]
    exact some'

/-- Up to the first minus sign there are the integers before the first negative one, and behind
the separator that follows them nothing. -/
theorem joined_negative {sep : Char} {before behind : List Int} {z : Int} (negative : z < 0) :
    ∃ rest, joined sep (before ++ z :: behind) =
      [sep].intercalate (before.map ofInt ++ [[]]) ++ '-' :: rest := by
  induction before with
  | nil =>
      rw [List.map_nil, List.nil_append, List.nil_append, List.intercalate_singleton]
      cases behind with
      | nil =>
          refine ⟨Nat.toDigits 10 z.natAbs, ?_⟩
          unfold joined
          rw [List.map_singleton, List.intercalate_singleton, ofInt_of_neg negative]
          rfl
      | cons y behind =>
          refine ⟨Nat.toDigits 10 z.natAbs ++ sep :: joined sep (y :: behind), ?_⟩
          rw [joined_cons_cons, ofInt_of_neg negative]
          rfl
  | cons x before ih =>
      have ⟨rest, shape⟩ := ih
      have ⟨next, others, parts⟩ : ∃ next others, before ++ z :: behind = next :: others :=
        List.exists_cons_of_ne_nil (List.append_ne_nil_of_right_ne_nil _ (List.cons_ne_nil _ _))
      have ⟨text, texts, pieces⟩ : ∃ text texts, before.map ofInt ++ [[]] = text :: texts :=
        List.exists_cons_of_ne_nil (List.append_ne_nil_of_right_ne_nil _ (List.cons_ne_nil _ _))
      refine ⟨rest, ?_⟩
      rw [List.cons_append, parts, joined_cons_cons, ← parts, shape, List.map_cons,
        List.cons_append, pieces, List.intercalate_cons_cons, List.append_assoc, List.append_assoc]
      rfl

end DecimalText
