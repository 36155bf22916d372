import Mathlib.Logic.Relation

set_option autoImplicit false

/- While loops whose test and body may fail, run for at most a given number of
turns, with their invariant and termination rules. -/
namespace FueledLoop

universe u v
variable {σ : Type u} {ε : Type v}

/-- A sequence of two computations succeeds through the first one's result. -/
theorem bind_eq_ok {α β : Type u} {x : Except ε α} {f : α → Except ε β} {b : β} :
    (x >>= f) = .ok b ↔ ∃ a, x = .ok a ∧ f a = .ok b := by
  cases x with
  | error e => simp [bind, Except.bind]
  | ok a => simp [bind, Except.bind]

/-- A sequence whose parts do all that those of another do does all that the other does; running
out of turns, `out`, is not among it. -/
theorem bind_extends {α β : Type u} {out : ε} {x y : Except ε α} {f g : α → Except ε β}
    {z : Except ε β} (first : ∀ w, x = w → w ≠ .error out → y = w)
    (rest : ∀ a w, f a = w → w ≠ .error out → g a = w) (done : z ≠ .error out)
    (run : (x >>= f) = z) : (y >>= g) = z := by
  cases x with
  | error e =>
      have other : e ≠ out := fun same => done (run ▸ same ▸ rfl)
      rw [first (.error e) rfl (by simpa using other)]
      exact run
  | ok a =>
      rw [first (.ok a) rfl (by simp)]
      exact rest a z run done

/-- Behind a computation with turns of its own, a continuation may be replaced by one that comes to
the same outcome in some number of turns. -/
theorem bind_settles {α β : Type u} {out : ε} {first : Nat → Except ε α}
    {f g : Nat → α → Except ε β} {x : Except ε β}
    (grows : ∀ {fewer more y}, fewer ≤ more → y ≠ .error out → first fewer = y → first more = y)
    (rest : ∀ {fewer more a}, fewer ≤ more → g fewer a = x → g more a = x)
    (settles : ∀ a, (∃ fuel, f fuel a = x) → ∃ fuel, g fuel a = x)
    (run : ∃ fuel, (first fuel >>= f fuel) = x) : ∃ fuel, (first fuel >>= g fuel) = x := by
  obtain ⟨fuel, run⟩ := run
  cases before : first fuel with
  | error e =>
      rw [before] at run
      exact ⟨fuel, by rw [before]; exact run⟩
  | ok a =>
      rw [before] at run
      obtain ⟨turns, last⟩ := settles a ⟨fuel, run⟩
      refine ⟨max fuel turns, ?_⟩
      rw [grows (Nat.le_max_left fuel turns) (by simp) before]
      exact rest (Nat.le_max_right fuel turns) last

/-- `while (guard s) s = body s`; `out` is the failure reported when the turns run out. -/
def whileLoop (out : ε) (guard : σ → Except ε Bool) (body : σ → Except ε σ) :
    Nat → σ → Except ε σ
  | 0, _ => .error out
  | fuel + 1, s =>
      match guard s with
      | .error e => .error e
      | .ok false => .ok s
      | .ok true =>
          match body s with
          | .error e => .error e
          | .ok next => whileLoop out guard body fuel next

/-- One turn of the loop. -/
def Turn (guard : σ → Except ε Bool) (body : σ → Except ε σ) (s next : σ) : Prop :=
  guard s = .ok true ∧ body s = .ok next

section
variable {out : ε} {guard : σ → Except ε Bool} {body : σ → Except ε σ}

theorem whileLoop_exit (fuel : Nat) (s : σ) (stop : guard s = .ok false) :
    whileLoop out guard body (fuel + 1) s = .ok s := by
  rw [whileLoop, stop]

theorem whileLoop_turn (fuel : Nat) (s next : σ) (turn : Turn guard body s next) :
    whileLoop out guard body (fuel + 1) s = whileLoop out guard body fuel next := by
  rw [whileLoop, turn.1]
  simp only [turn.2]

/-- What a loop that returns did first: it stopped, or it made one turn. -/
theorem whileLoop_ok_cases {fuel : Nat} {s r : σ} (run : whileLoop out guard body fuel s = .ok r) :
    (guard s = .ok false ∧ r = s) ∨
      ∃ left next, fuel = left + 1 ∧ Turn guard body s next ∧
        whileLoop out guard body left next = .ok r := by
  cases fuel with
  | zero => cases run
  | succ left =>
      rw [whileLoop] at run
      split at run
      · cases run
      · rename_i stop
        exact Or.inl ⟨stop, (Except.ok.inj run).symm⟩
      · rename_i go
        split at run
        · cases run
        · rename_i next step
          exact Or.inr ⟨left, next, rfl, ⟨go, step⟩, run⟩

/-- The invariant rule: what every turn keeps holds at the exit, where the test fails. -/
theorem whileLoop_inv {I : σ → Prop} (keep : ∀ s next, I s → Turn guard body s next → I next)
    {fuel : Nat} {s r : σ} (run : whileLoop out guard body fuel s = .ok r) (start : I s) :
    I r ∧ guard r = .ok false := by
  induction fuel generalizing s with
  | zero => cases run
  | succ fuel ih =>
      rcases whileLoop_ok_cases run with ⟨stop, rfl⟩ | ⟨left, next, same, turn, rest⟩
      · exact ⟨start, stop⟩
      · obtain rfl : fuel = left := by omega
        exact ih rest (keep s next start turn)

/-- What relates each turn's states, reflexively and transitively, relates start and result. -/
theorem whileLoop_rel {R : σ → σ → Prop} (refl : ∀ s, R s s)
    (trans : ∀ a b c, R a b → R b c → R a c)
    (turn : ∀ s next, Turn guard body s next → R s next)
    {fuel : Nat} {s r : σ} (run : whileLoop out guard body fuel s = .ok r) : R s r := by
  have related := whileLoop_inv (I := R s)
    (fun t next before step => trans s t next before (turn t next step)) run (refl s)
  exact related.1

/-- A state the loop passes through leads to the same result. -/
theorem whileLoop_resume {fuel : Nat} {s mid r : σ}
    (run : whileLoop out guard body fuel s = .ok r)
    (reach : Relation.ReflTransGen (Turn guard body) s mid) :
    ∃ left, whileLoop out guard body left mid = .ok r := by
  induction reach with
  | refl => exact ⟨fuel, run⟩
  | tail before turn ih =>
      have ⟨left, rest⟩ := ih
      rcases whileLoop_ok_cases rest with ⟨stop, same⟩ | ⟨fewer, next, same, other, rest⟩
      · rw [turn.1] at stop
        cases stop
      · have step := other.2
        rw [turn.2] at step
        cases step
        exact ⟨fewer, rest⟩

/-- Where no test and no turn fails, the loop fails only by running out of turns. -/
theorem whileLoop_error {I : σ → Prop} (tested : ∀ s, I s → ∃ b, guard s = .ok b)
    (stepped : ∀ s, I s → guard s = .ok true → ∃ next, body s = .ok next ∧ I next)
    {fuel : Nat} {s : σ} {e : ε} (start : I s) (run : whileLoop out guard body fuel s = .error e) :
    e = out := by
  induction fuel generalizing s with
  | zero => exact (Except.error.inj run).symm
  | succ fuel ih =>
      have ⟨b, test⟩ := tested s start
      cases b with
      | false =>
          rw [whileLoop_exit fuel s test] at run
          cases run
      | true =>
          have ⟨next, step, kept⟩ := stepped s start test
          rw [whileLoop_turn fuel s next ⟨test, step⟩] at run
          exact ih kept run

/-- The termination rule: a measure that every turn lowers bounds the turns needed, whether the
loop returns or a turn fails. -/
theorem whileLoop_ends {I : σ → Prop} {P : ε → Prop} (measure : σ → Nat)
    (tested : ∀ s, I s → ∃ b, guard s = .ok b)
    (lowers : ∀ s, I s → guard s = .ok true → (∃ e, body s = .error e ∧ P e) ∨
      ∃ next, body s = .ok next ∧ I next ∧ measure next < measure s)
    {fuel : Nat} {s : σ} (start : I s) (enough : measure s < fuel) :
    (∃ e, whileLoop out guard body fuel s = .error e ∧ P e) ∨
      ∃ r, whileLoop out guard body fuel s = .ok r := by
  induction fuel generalizing s with
  | zero => omega
  | succ fuel ih =>
      have ⟨b, test⟩ := tested s start
      cases b with
      | false => exact Or.inr ⟨s, whileLoop_exit fuel s test⟩
      | true =>
          rcases lowers s start test with ⟨e, failed, why⟩ | ⟨next, step, kept, lower⟩
          · refine Or.inl ⟨e, ?_, why⟩
            rw [whileLoop, test]
            simp only [failed]
          · rw [whileLoop_turn fuel s next ⟨test, step⟩]
            exact ih kept (by omega)

/-- Where no turn fails, the loop returns. -/
theorem whileLoop_returns {I : σ → Prop} (measure : σ → Nat)
    (tested : ∀ s, I s → ∃ b, guard s = .ok b)
    (lowers : ∀ s, I s → guard s = .ok true →
      ∃ next, body s = .ok next ∧ I next ∧ measure next < measure s)
    {fuel : Nat} {s : σ} (start : I s) (enough : measure s < fuel) :
    ∃ r, whileLoop out guard body fuel s = .ok r := by
  have ended : (∃ e, whileLoop out guard body fuel s = .error e ∧ False) ∨
      ∃ r, whileLoop out guard body fuel s = .ok r :=
    whileLoop_ends measure tested (fun s kept test => Or.inr (lowers s kept test)) start enough
  rcases ended with ⟨_, _, never⟩ | returned
  · exact never.elim
  · exact returned

/-- A loop that is done stays as it is with more turns, and with a body that does all the first
one does. -/
theorem whileLoop_mono {more : Nat} {wider : σ → Except ε σ}
    (extends_ : ∀ s x, body s = x → x ≠ .error out → wider s = x) {fuel : Nat} {s : σ}
    {x : Except ε σ} (le : fuel ≤ more) (done : x ≠ .error out)
    (run : whileLoop out guard body fuel s = x) : whileLoop out guard wider more s = x := by
  induction fuel generalizing s more with
  | zero => exact absurd run.symm done
  | succ fuel ih =>
      obtain ⟨left, rfl⟩ : ∃ left, more = left + 1 := ⟨more - 1, by omega⟩
      rw [whileLoop] at run ⊢
      cases test : guard s with
      | error e => simpa only [test] using run
      | ok b =>
          cases b with
          | false => simpa only [test] using run
          | true =>
              simp only [test] at run ⊢
              cases step : body s with
              | error e =>
                  simp only [step] at run
                  rw [extends_ s (.error e) step (run ▸ done)]
                  exact run
              | ok next =>
                  simp only [step] at run
                  rw [extends_ s (.ok next) step (by simp)]
                  exact ih (by omega) run

/-- Turns enough for the measure are as good as any more. -/
theorem whileLoop_enough {I : σ → Prop} (measure : σ → Nat)
    (tested : ∀ s, I s → ∃ b, guard s = .ok b)
    (lowers : ∀ s, I s → guard s = .ok true → (∃ e, body s = .error e ∧ e ≠ out) ∨
      ∃ next, body s = .ok next ∧ I next ∧ measure next < measure s)
    {fuel more : Nat} {s : σ} (start : I s) (enough : measure s < fuel) (le : fuel ≤ more) :
    whileLoop out guard body more s = whileLoop out guard body fuel s := by
  have ended : (∃ e, whileLoop out guard body fuel s = .error e ∧ e ≠ out) ∨
      ∃ r, whileLoop out guard body fuel s = .ok r :=
    whileLoop_ends measure tested lowers start enough
  refine whileLoop_mono (fun _ _ step _ => step) le ?_ rfl
  rcases ended with ⟨e, failed, other⟩ | ⟨r, returned⟩
  · rw [failed]
    simpa using other
  · rw [returned]
    simp

end

/-- A body that is given a number of turns of its own does no less when it is given more. -/
def Growing (out : ε) (body : Nat → σ → Except ε σ) : Prop :=
  ∀ fewer more s x, fewer ≤ more → body fewer s = x → x ≠ .error out → body more s = x

section
variable {out : ε} {early late : σ → Except ε Bool} {body : Nat → σ → Except ε σ}

/-- The turns of a loop that stops early are the first turns of the one that stops late. -/
theorem whileLoop_of_split (tested : ∀ s, ∃ b, early s = .ok b)
    (later : ∀ s, early s = .ok true → late s = .ok true) {inner fuel rest : Nat} {s : σ}
    {x : Except ε σ} (done : x ≠ .error out)
    (run : (whileLoop out early (body inner) fuel s >>= whileLoop out late (body inner) rest) = x) :
    whileLoop out late (body inner) (fuel + rest) s = x := by
  induction fuel generalizing s with
  | zero => exact absurd run.symm done
  | succ fuel ih =>
      have ⟨b, test⟩ := tested s
      cases b with
      | false =>
          rw [whileLoop_exit fuel s test] at run
          exact whileLoop_mono (fun _ _ step _ => step) (by omega) done run
      | true =>
          have goes := later s test
          rw [Nat.succ_add]
          cases step : body inner s with
          | error e =>
              rw [whileLoop, test] at run
              rw [whileLoop, goes]
              simp only [step] at run ⊢
              exact run
          | ok next =>
              rw [whileLoop_turn fuel s next ⟨test, step⟩] at run
              rw [whileLoop_turn _ s next ⟨goes, step⟩]
              exact ih run

theorem split_of_whileLoop (tested : ∀ s, ∃ b, early s = .ok b)
    (later : ∀ s, early s = .ok true → late s = .ok true) {inner fuel : Nat} {s : σ}
    {x : Except ε σ} (done : x ≠ .error out)
    (run : whileLoop out late (body inner) fuel s = x) :
    (whileLoop out early (body inner) fuel s >>= whileLoop out late (body inner) fuel) = x := by
  induction fuel generalizing s with
  | zero => exact absurd run.symm done
  | succ fuel ih =>
      have ⟨b, test⟩ := tested s
      cases b with
      | false =>
          rw [whileLoop_exit fuel s test]
          exact run
      | true =>
          have goes := later s test
          cases step : body inner s with
          | error e =>
              rw [whileLoop, goes] at run
              rw [whileLoop, test]
              simp only [step] at run ⊢
              exact run
          | ok next =>
              rw [whileLoop_turn fuel s next ⟨goes, step⟩] at run
              rw [whileLoop_turn fuel s next ⟨test, step⟩]
              have split := ih run
              cases first : whileLoop out early (body inner) fuel next with
              | error e =>
                  rw [first] at split
                  exact split
              | ok mid =>
                  rw [first] at split
                  exact whileLoop_mono (fun _ _ step _ => step) (Nat.le_succ fuel) done split

/-- Stopping a loop early and going on later is not observed: whatever the one run comes to in
some number of turns, the other comes to as well. -/
theorem whileLoop_split (grows : Growing out body) (tested : ∀ s, ∃ b, early s = .ok b)
    (later : ∀ s, early s = .ok true → late s = .ok true) {s : σ} {x : Except ε σ}
    (done : x ≠ .error out) :
    (∃ fuel, (whileLoop out early (body fuel) fuel s >>= whileLoop out late (body fuel) fuel) = x) ↔
      ∃ fuel, whileLoop out late (body fuel) fuel s = x := by
  constructor
  · rintro ⟨fuel, run⟩
    have whole := whileLoop_of_split tested later done run
    exact ⟨fuel + fuel, whileLoop_mono (fun s x => grows fuel (fuel + fuel) s x (by omega))
      (Nat.le_refl _) done whole⟩
  · rintro ⟨fuel, run⟩
    exact ⟨fuel, split_of_whileLoop tested later done run⟩

end

end FueledLoop
