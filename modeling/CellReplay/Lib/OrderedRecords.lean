import CellReplay.Lib.FueledLoop
import Mathlib.Data.List.Induction
import Mathlib.Data.List.ReduceOption

set_option autoImplicit false

/- Files of records that must come in order: every line is parsed, some lines carry no record, and
a record before the last one kept is refused. -/
namespace OrderedRecords

open FueledLoop

universe u
variable {α β ε : Type u} {key : β → Nat} {out : ε}

/-- Keep a record behind those kept so far. -/
def keep (key : β → Nat) (out : ε) (records : List β) (record : β) : Except ε (List β) :=
  if records.getLast?.any (fun back => key record < key back) then .error out
  else .ok (records ++ [record])

/-- Read one line. -/
def read (parse : α → Except ε (Option β)) (key : β → Nat) (out : ε) (records : List β)
    (line : α) : Except ε (List β) := do
  match ← parse line with
  | none => return records
  | some record => keep key out records record

/-- The records are in order. -/
def InSequence (key : β → Nat) (records : List β) : Prop :=
  records.Pairwise (fun a b => key a ≤ key b)

theorem inSequence_snoc {records : List β} {record : β} : InSequence key (records ++ [record]) ↔
    InSequence key records ∧ ∀ back ∈ records, key back ≤ key record := by
  unfold InSequence
  simp [List.pairwise_append]

/-- A record is kept exactly when the records are in order with it. -/
theorem keep_eq_ok {records next : List β} {record : β} (sorted : InSequence key records) :
    keep key out records record = .ok next ↔
      next = records ++ [record] ∧ InSequence key (records ++ [record]) := by
  have last : records.getLast?.any (fun back => decide (key record < key back)) = false ↔
      ∀ back ∈ records, key back ≤ key record := by
    rcases List.eq_nil_or_concat records with rfl | ⟨front, back, rfl⟩
    · simp
    · rw [List.concat_eq_append] at sorted ⊢
      have ⟨_, before⟩ := inSequence_snoc.mp sorted
      simp only [List.getLast?_concat, Option.any_some, decide_eq_false_iff_not, Nat.not_lt,
        List.mem_append, List.mem_singleton]
      constructor
      · intro final other member
        rcases member with old | same
        · exact Nat.le_trans (before other old) final
        · rw [same]
          exact final
      · intro all
        exact all back (Or.inr rfl)
  unfold keep
  rw [inSequence_snoc]
  by_cases refused : records.getLast?.any (fun back => decide (key record < key back)) = true
  · have disordered : ¬ ∀ back ∈ records, key back ≤ key record := by
      intro all
      rw [last.mpr all] at refused
      cases refused
    rw [if_pos refused]
    simp [disordered]
  · rw [if_neg refused]
    have all := last.mp (Bool.eq_false_iff.mpr refused)
    simp only [Except.ok.injEq]
    exact ⟨fun same => ⟨same.symm, sorted, all⟩, fun both => both.1.symm⟩

/-- A file is read exactly when its lines are parsed and its records are in order. -/
theorem foldlM_read_eq_ok {parse : α → Except ε (Option β)} {lines : List α} {records : List β} :
    lines.foldlM (read parse key out) [] = .ok records ↔
      ∃ parsed, lines.mapM parse = .ok parsed ∧ records = parsed.reduceOption ∧
        InSequence key records := by
  induction lines using List.reverseRecOn generalizing records with
  | nil =>
      simp only [List.foldlM_nil, List.mapM_nil]
      constructor
      · intro same
        cases same
        exact ⟨[], rfl, rfl, List.Pairwise.nil⟩
      · rintro ⟨parsed, same, rfl, _⟩
        cases same
        rfl
  | append_singleton lines line ih =>
      rw [List.foldlM_append, List.mapM_append, bind_eq_ok]
      constructor
      · rintro ⟨before, folded, last⟩
        obtain ⟨parsed, mapped, same, sorted⟩ := ih.mp folded
        rw [List.foldlM_cons, bind_eq_ok] at last
        obtain ⟨after, step, returned⟩ := last
        cases returned
        obtain ⟨record, here, step⟩ := bind_eq_ok.mp step
        refine ⟨parsed ++ [record], ?_, ?_⟩
        · rw [mapped, List.mapM_cons, here]
          rfl
        · rw [List.reduceOption_append]
          cases record with
          | none =>
              cases step
              exact ⟨by simpa using same, sorted⟩
          | some record =>
              have ⟨shape, ordered⟩ := (keep_eq_ok sorted).mp step
              rw [shape, same]
              rw [same] at ordered
              exact ⟨rfl, ordered⟩
      · rintro ⟨parsed, mapped, same, sorted⟩
        obtain ⟨front, first, mapped⟩ := bind_eq_ok.mp mapped
        obtain ⟨back, second, returned⟩ := bind_eq_ok.mp mapped
        rw [List.mapM_cons] at second
        obtain ⟨record, here, second⟩ := bind_eq_ok.mp second
        cases second
        cases returned
        rw [List.reduceOption_append] at same
        have before : InSequence key front.reduceOption := by
          rw [same] at sorted
          exact (List.pairwise_append.mp sorted).1
        refine ⟨front.reduceOption, ih.mpr ⟨front, first, rfl, before⟩, ?_⟩
        rw [List.foldlM_cons]
        refine bind_eq_ok.mpr ⟨records, ?_, rfl⟩
        refine bind_eq_ok.mpr ⟨record, here, ?_⟩
        cases record with
        | none =>
            rw [same]
            simp
            rfl
        | some record =>
            rw [same] at sorted ⊢
            exact (keep_eq_ok before).mpr ⟨rfl, sorted⟩

/-- The records of lines of which some carry one. -/
theorem reduceOption_map_ite {γ δ : Type u} (p : γ → Prop) [DecidablePred p] (f : γ → δ)
    (lines : List γ) : (lines.map fun line => if p line then some (f line) else none).reduceOption =
      (lines.filter p).map f := by
  induction lines with
  | nil => rfl
  | cons line lines ih =>
      by_cases carries : p line
      · simp [carries, ih, List.reduceOption_cons_of_some]
      · simp [carries, ih, List.reduceOption_cons_of_none]

end OrderedRecords
