import CellReplay.Lib.FueledLoop

set_option autoImplicit false

/- Two computations side by side, each of which may fail: what relates their states step by step
relates their results. -/
namespace FueledLoop

universe u v
variable {ε : Type v}

/-- Both fail alike, or both return and the results are related. -/
inductive Lockstep {α β : Type u} (R : α → β → Prop) : Except ε α → Except ε β → Prop
  | error (e : ε) : Lockstep R (.error e) (.error e)
  | ok {a : α} {b : β} (related : R a b) : Lockstep R (.ok a) (.ok b)

namespace Lockstep

variable {α β γ δ : Type u}

theorem refl (x : Except ε α) : Lockstep Eq x x := by
  cases x with
  | error e => exact error e
  | ok a => exact ok rfl

theorem mono {R S : α → β → Prop} {x : Except ε α} {y : Except ε β}
    (weaker : ∀ a b, R a b → S a b) (both : Lockstep R x y) : Lockstep S x y := by
  cases both with
  | error e => exact error e
  | ok related => exact ok (weaker _ _ related)

/-- Related first parts with rests that go on in lockstep go on in lockstep. -/
theorem bind {R : α → β → Prop} {S : γ → δ → Prop} {x : Except ε α} {y : Except ε β}
    {f : α → Except ε γ} {g : β → Except ε δ} (both : Lockstep R x y)
    (rest : ∀ a b, R a b → Lockstep S (f a) (g b)) : Lockstep S (x >>= f) (y >>= g) := by
  cases both with
  | error e => exact error e
  | ok related => exact rest _ _ related

/-- A first part that is the same in both. -/
theorem bind_same {S : γ → δ → Prop} (x : Except ε α) {f : α → Except ε γ} {g : α → Except ε δ}
    (rest : ∀ a, Lockstep S (f a) (g a)) : Lockstep S (x >>= f) (x >>= g) :=
  (refl x).bind (fun a _ same => same ▸ rest a)

/-- Results that are seen alike make outcomes that are seen alike. -/
theorem map_eq {R : α → β → Prop} {x : Except ε α} {y : Except ε β} {f : α → γ} {g : β → γ}
    (seen : ∀ a b, R a b → f a = g b) (both : Lockstep R x y) : x.map f = y.map g := by
  cases both with
  | error e => rfl
  | ok related => exact congrArg Except.ok (seen _ _ related)

end Lockstep

/-- Loops whose tests agree and whose bodies keep the states related end in lockstep. -/
theorem whileLoop_lockstep {σ τ : Type u} {out : ε} {R : σ → τ → Prop}
    {guard : σ → Except ε Bool} {guard' : τ → Except ε Bool} {body : σ → Except ε σ}
    {body' : τ → Except ε τ} (tests : ∀ s t, R s t → guard s = guard' t)
    (turns : ∀ s t, R s t → Lockstep R (body s) (body' t)) (fuel : Nat) {s : σ} {t : τ}
    (start : R s t) :
    Lockstep R (whileLoop out guard body fuel s) (whileLoop out guard' body' fuel t) := by
  induction fuel generalizing s t with
  | zero => exact Lockstep.error out
  | succ fuel ih =>
      rw [whileLoop, whileLoop, ← tests s t start]
      cases guard s with
      | error e => exact Lockstep.error e
      | ok b =>
          cases b with
          | false => exact Lockstep.ok start
          | true =>
              have both := turns s t start
              revert both
              generalize body s = next
              generalize body' t = other
              intro both
              cases both with
              | error e => exact Lockstep.error e
              | ok related => exact ih related

end FueledLoop
