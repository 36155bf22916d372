import Mathlib.Data.List.Induction
import Mathlib.Logic.Relation

set_option autoImplicit false

/- Labelled transition systems: runs as sequences of labels, and the induction
that lifts what a step keeps to what a run keeps. -/
namespace Transition

universe u v
variable {σ : Type u} {ι : Type v} {step : σ → ι → σ → Prop}

/-- A run from the first state to the last, with its labels in order. -/
inductive Run (step : σ → ι → σ → Prop) (first : σ) : List ι → σ → Prop
  | nil : Run step first [] first
  | snoc {labels : List ι} {middle last : σ} {label : ι} :
      Run step first labels middle → step middle label last →
      Run step first (labels ++ [label]) last

theorem Run.single {first last : σ} {label : ι} (move : step first label last) :
    Run step first [label] last := Run.snoc Run.nil move

theorem Run.append {first middle last : σ} {front back : List ι}
    (before : Run step first front middle) (after : Run step middle back last) :
    Run step first (front ++ back) last := by
  induction after with
  | nil => simpa only [List.append_nil] using before
  | snoc _ move ih =>
      rw [← List.append_assoc]
      exact Run.snoc ih move

theorem Run.nil_inv {first last : σ} {labels : List ι} (run : Run step first labels last)
    (none : labels = []) : last = first := by
  cases run with
  | nil => rfl
  | snoc _ _ => simp at none

theorem Run.snoc_inv {first last : σ} {front : List ι} {label : ι}
    (run : Run step first (front ++ [label]) last) :
    ∃ middle, Run step first front middle ∧ step middle label last := by
  generalize shape : front ++ [label] = labels at run
  cases run with
  | nil => simp at shape
  | snoc before move =>
      obtain ⟨rfl, same⟩ := List.append_inj' shape rfl
      obtain rfl := List.singleton_inj.mp same
      exact ⟨_, before, move⟩

theorem Run.single_inv {first last : σ} {label : ι} (run : Run step first [label] last) :
    step first label last := by
  obtain ⟨middle, before, move⟩ : ∃ middle, Run step first [] middle ∧ step middle label last :=
    run.snoc_inv
  rw [before.nil_inv rfl] at move
  exact move

/-- A run of some labels and others is a run of the ones to a state and of the others from it. -/
theorem Run.split {first last : σ} {front back : List ι}
    (run : Run step first (front ++ back) last) :
    ∃ middle, Run step first front middle ∧ Run step middle back last := by
  induction back using List.reverseRecOn generalizing last with
  | nil =>
      rw [List.append_nil] at run
      exact ⟨last, run, Run.nil⟩
  | append_singleton back label ih =>
      rw [← List.append_assoc] at run
      obtain ⟨before, ran, move⟩ := run.snoc_inv
      obtain ⟨middle, one, other⟩ := ih ran
      exact ⟨middle, one, Run.snoc other move⟩

/-- Every label of a run is the label of one of its steps. -/
theorem Run.step_of_mem {first last : σ} {labels : List ι} (run : Run step first labels last)
    {label : ι} (member : label ∈ labels) : ∃ s t, step s label t := by
  induction run with
  | nil => cases member
  | snoc _ move ih =>
      rcases List.mem_append.mp member with before | now
      · exact ih before
      · rw [List.mem_singleton.mp now]
        exact ⟨_, _, move⟩

/-- What every step keeps, a run keeps. -/
theorem Run.invariant {I : σ → Prop} (keep : ∀ s label t, I s → step s label t → I t)
    {first last : σ} {labels : List ι} (run : Run step first labels last) (start : I first) :
    I last := by
  induction run with
  | nil => exact start
  | snoc _ move ih => exact keep _ _ _ ih move

/-- What every step with an allowed label keeps, a run with allowed labels keeps. -/
theorem Run.guarded {I : σ → Prop} {P : ι → Prop}
    (keep : ∀ s label t, P label → I s → step s label t → I t)
    {first last : σ} {labels : List ι} (run : Run step first labels last)
    (allowed : ∀ label ∈ labels, P label) (start : I first) : I last := by
  induction run with
  | nil => exact start
  | snoc _ move ih =>
      have before := ih (fun label member => allowed label (List.mem_append_left _ member))
      exact keep _ _ _ (allowed _ (List.mem_append_right _ (List.mem_singleton_self _))) before move

/-- The invariant rule with the labels seen so far as part of the invariant. -/
theorem Run.history {I : List ι → σ → Prop}
    (keep : ∀ labels s label t, I labels s → step s label t → I (labels ++ [label]) t)
    {first last : σ} {labels : List ι} (run : Run step first labels last) (start : I [] first) :
    I labels last := by
  induction run with
  | nil => exact start
  | snoc _ move ih => exact keep _ _ _ _ ih move

/-- A run of a system whose steps are all steps of another is a run of the other. -/
theorem Run.mono {coarser : σ → ι → σ → Prop}
    (weaken : ∀ s label t, step s label t → coarser s label t)
    {first last : σ} {labels : List ι} (run : Run step first labels last) :
    Run coarser first labels last := by
  induction run with
  | nil => exact Run.nil
  | snoc _ move ih => exact Run.snoc ih (weaken _ _ _ move)

/-- Forward simulation: related states make related runs. -/
theorem Run.simulates {τ : Type u} {abstract : τ → ι → τ → Prop} {R : σ → τ → Prop}
    (simulate : ∀ s label t a, R s a → step s label t → ∃ b, abstract a label b ∧ R t b)
    {first last : σ} {labels : List ι} (run : Run step first labels last)
    {a : τ} (related : R first a) : ∃ b, Run abstract a labels b ∧ R last b := by
  induction run with
  | nil => exact ⟨a, Run.nil, related⟩
  | snoc _ move ih =>
      have ⟨middle, before, same⟩ := ih
      have ⟨b, move', after⟩ := simulate _ _ _ _ same move
      exact ⟨b, Run.snoc before move', after⟩

/-- A history variable restricts no run: if every step has a lifted step, every run has a lifted
run, -/
theorem Run.lifts {η : Type} {lifted : σ × η → ι → σ × η → Prop}
    (lift : ∀ s label t h, step s label t → ∃ h', lifted (s, h) label (t, h'))
    {first last : σ} {labels : List ι} (run : Run step first labels last) (h : η) :
    ∃ h', Run lifted (first, h) labels (last, h') := by
  induction run with
  | nil => exact ⟨h, Run.nil⟩
  | snoc _ move ih =>
      obtain ⟨before, ran⟩ := ih
      obtain ⟨after, move'⟩ := lift _ _ _ before move
      exact ⟨after, Run.snoc ran move'⟩

/-- and the other way round. -/
theorem Run.lowers {η : Type} {lifted : σ × η → ι → σ × η → Prop}
    (lower : ∀ s label t, lifted s label t → step s.1 label t.1)
    {first last : σ × η} {labels : List ι} (run : Run lifted first labels last) :
    Run step first.1 labels last.1 := by
  induction run with
  | nil => exact Run.nil
  | snoc _ move ih => exact Run.snoc ih (lower _ _ _ move)

/-- Make the steps of a partial function, each one where it is allowed. -/
def execAll (exec : ι → σ → Option σ) (allowed : σ → ι → Prop)
    [∀ s label, Decidable (allowed s label)] (labels : List ι) (s : σ) : Option σ :=
  labels.foldlM (fun s label => if allowed s label then exec label s else none) s

theorem run_of_execAll {exec : ι → σ → Option σ} {allowed : σ → ι → Prop}
    [∀ s label, Decidable (allowed s label)] {labels : List ι} {first last : σ}
    (returned : execAll exec allowed labels first = some last) :
    Run (fun s label t => exec label s = some t ∧ allowed s label) first labels last := by
  induction labels generalizing first with
  | nil =>
      rw [← Option.some.inj returned]
      exact Run.nil
  | cons label labels ih =>
      unfold execAll at returned
      rw [List.foldlM_cons] at returned
      obtain ⟨next, move, rest⟩ := Option.bind_eq_some_iff.mp returned
      split at move
      · rename_i permitted
        exact (Run.single ⟨move, permitted⟩).append (ih rest)
      · cases move

end Transition
