import Mathlib.Data.List.Nodup

set_option autoImplicit false

/- Dictionaries that keep their entries in the order in which the keys were first set. -/
namespace InsertionDict

universe u v
variable {α : Type u} {β : Type v} [DecidableEq α]

/-- Replace the entry of a key where it stands, or add one at the end. -/
def setEntry (k : α) (v : β) : List (α × β) → List (α × β)
  | [] => [(k, v)]
  | entry :: entries => if entry.1 = k then (k, v) :: entries else entry :: setEntry k v entries

/-- The value of the first entry of a key. -/
def lookup (k : α) : List (α × β) → Option β
  | [] => none
  | entry :: entries => if entry.1 = k then some entry.2 else lookup k entries

theorem lookup_setEntry (k : α) (v : β) (entries : List (α × β)) (other : α) :
    lookup other (setEntry k v entries) = if k = other then some v else lookup other entries := by
  induction entries with
  | nil => rfl
  | cons entry entries ih =>
      unfold setEntry
      by_cases here : entry.1 = k
      · rw [if_pos here]
        by_cases same : k = other
        · simp only [lookup, if_pos same]
        · have apart : entry.1 ≠ other := fun equal => same (here.symm.trans equal)
          simp only [lookup, if_neg same, if_neg apart]
      · rw [if_neg here]
        by_cases first : entry.1 = other
        · have apart : k ≠ other := fun equal => here (first.trans equal.symm)
          simp only [lookup, if_pos first, if_neg apart]
        · simp only [lookup, if_neg first, ih]

theorem mem_keys_setEntry {k : α} {v : β} {entries : List (α × β)} {other : α} :
    other ∈ (setEntry k v entries).map Prod.fst ↔ other = k ∨ other ∈ entries.map Prod.fst := by
  induction entries with
  | nil => simp [setEntry]
  | cons entry entries ih =>
      unfold setEntry
      by_cases here : entry.1 = k
      · rw [if_pos here]
        simp [here]
      · rw [if_neg here, List.map_cons, List.mem_cons, ih, List.map_cons, List.mem_cons]
        constructor
        · rintro (first | same | old)
          · exact Or.inr (Or.inl first)
          · exact Or.inl same
          · exact Or.inr (Or.inr old)
        · rintro (same | first | old)
          · exact Or.inr (Or.inl same)
          · exact Or.inl first
          · exact Or.inr (Or.inr old)

theorem nodup_setEntry {k : α} {v : β} {entries : List (α × β)}
    (nodup : (entries.map Prod.fst).Nodup) : ((setEntry k v entries).map Prod.fst).Nodup := by
  induction entries with
  | nil => simp [setEntry]
  | cons entry entries ih =>
      rw [List.map_cons, List.nodup_cons] at nodup
      unfold setEntry
      by_cases here : entry.1 = k
      · rw [if_pos here, List.map_cons, List.nodup_cons]
        rw [here] at nodup
        exact nodup
      · rw [if_neg here, List.map_cons, List.nodup_cons, mem_keys_setEntry]
        refine ⟨?_, ih nodup.2⟩
        rintro (same | old)
        · exact here same
        · exact nodup.1 old

/-- A new key goes to the end. -/
theorem setEntry_new {k : α} {v : β} {entries : List (α × β)}
    (new : k ∉ entries.map Prod.fst) : setEntry k v entries = entries ++ [(k, v)] := by
  induction entries with
  | nil => rfl
  | cons entry entries ih =>
      rw [List.map_cons, List.mem_cons, not_or] at new
      unfold setEntry
      rw [if_neg (Ne.symm new.1), ih new.2]
      rfl

/-- A dictionary: its entries, with no key twice. -/
structure Dict (α : Type u) (β : Type v) where
  entries : List (α × β)
  nodup : (entries.map Prod.fst).Nodup

namespace Dict

variable (d : Dict α β)

def empty : Dict α β := ⟨[], List.nodup_nil⟩

def get? (k : α) : Option β := lookup k d.entries

def set (k : α) (v : β) : Dict α β := ⟨setEntry k v d.entries, nodup_setEntry d.nodup⟩

@[simp] theorem get?_empty (k : α) : (empty : Dict α β).get? k = none := rfl

theorem get?_set (k : α) (v : β) (other : α) :
    (d.set k v).get? other = if k = other then some v else d.get? other :=
  lookup_setEntry k v d.entries other

end Dict

end InsertionDict
