import CellReplay.Frontend.CellularQueue
import CellReplay.Lib.PiecewiseLinear

set_option autoImplicit false

namespace CellReplay

open MachineWord FueledLoop PiecewiseLinear

/-- The variables of the loop that reads the offset file. -/
structure OffsetTable where
  currSize : Int := 100
  psizeLatencyOffset : List ℚ := []

section
-- what `strtod` reads as a finite value; floating-point text is a parameter of the model
variable (strtod : Text → Option ℚ × Text) (filename : String)

/-- One word of a line: the size in the first column, the offset in the second one; the others
are ignored. An `int` that overflows is undefined. -/
def readOffsetWord (t : OffsetTable) (num : Nat) (word : Text) : Except Fault OffsetTable :=
  if num = 0 then do
    let psize := i32 (← myatoi word)
    if psize ≠ t.currSize then
      .error (.runtimeError (filename ++ ": packet size latency offset " ++
        "should be an increment of 100 bytes and start from 100 bytes"))
    else if 2 ^ 31 ≤ t.currSize + 100 then .error .conversion
    else return { t with currSize := t.currSize + 100 }
  else if num = 1 then do
    let offset ← myatof strtod word
    return { t with psizeLatencyOffset := t.psizeLatencyOffset ++ [offset] }
  else .ok t

/-- One line of the offset file. -/
def readOffsetLine (t : OffsetTable) (line : Text) : Except Fault OffsetTable :=
  (splitWords line).zipIdx.foldlM (fun t word => readOffsetWord strtod filename t word.2 word.1) t

/-- The part of the constructor that reads the packet size latency offsets. -/
def readOffsets (lines : List Text) : Except Fault (List ℚ) := do
  return (← lines.foldlM (readOffsetLine strtod filename) {}).psizeLatencyOffset

/-- The point of a line with two columns: the size and the offset written there. -/
def linePoint (line : Text) : Option (Int × ℚ) :=
  match splitWords line with
  | size :: offset :: _ =>
      match myatoi size, myatof strtod offset with
      | .ok size, .ok offset => some (size, offset)
      | _, _ => none
  | _ => none

/-- The points written on the lines of an offset file. -/
def writtenPoints (lines : List Text) : List (Int × ℚ) := lines.filterMap (linePoint strtod)

end

/-- A point as it is written. -/
def asWritten (p : Int × ℚ) : ℚ × ℚ := (p.1, p.2)

/-- A point with its size as the loader has it, which is an `int`. -/
def asRead (p : Int × ℚ) : ℚ × ℚ := (i32 p.1, p.2)

variable {strtod : Text → Option ℚ × Text} {filename : String}

/-- What follows the second column is ignored. -/
theorem readOffsetWord_rest (words : List Text) {num : Nat} (third : 2 ≤ num) (t : OffsetTable) :
    (words.zipIdx num).foldlM (fun t word => readOffsetWord strtod filename t word.2 word.1) t =
      .ok t := by
  induction words generalizing num with
  | nil => rfl
  | cons word words ih =>
      rw [List.zipIdx_cons, List.foldlM_cons]
      simp only [readOffsetWord, if_neg (show num ≠ 0 by omega), if_neg (show num ≠ 1 by omega)]
      exact ih (by omega)

/-- A first column that is accepted is the next size. -/
theorem readOffsetWord_size {t next : OffsetTable} {word : Text}
    (read : readOffsetWord strtod filename t 0 word = .ok next) :
    ∃ size, myatoi word = .ok size ∧ i32 size = t.currSize ∧ t.currSize + 100 < 2 ^ 31 ∧
      next = { t with currSize := t.currSize + 100 } := by
  obtain ⟨size, value, read⟩ := bind_eq_ok.mp read
  by_cases other : i32 size ≠ t.currSize
  · rw [if_pos other] at read
    cases read
  · by_cases large : 2 ^ 31 ≤ t.currSize + 100
    · rw [if_neg other, if_pos large] at read
      cases read
    · rw [if_neg other, if_neg large] at read
      exact ⟨size, value, not_not.mp other, by omega, (Except.ok.inj read).symm⟩

/-- What one line that is accepted does: nothing, or it moves on to the next size, and its second
column, if there is one, is the next offset. -/
theorem readOffsetLine_cases {t next : OffsetTable} {line : Text}
    (read : readOffsetLine strtod filename t line = .ok next) :
    (linePoint strtod line = none ∧ next.psizeLatencyOffset = t.psizeLatencyOffset ∧
        (next.currSize = t.currSize ∨
          next.currSize = t.currSize + 100 ∧ t.currSize + 100 < 2 ^ 31)) ∨
      ∃ size offset, linePoint strtod line = some (size, offset) ∧ i32 size = t.currSize ∧
        next.psizeLatencyOffset = t.psizeLatencyOffset ++ [offset] ∧
        next.currSize = t.currSize + 100 ∧ t.currSize + 100 < 2 ^ 31 := by
  unfold readOffsetLine at read
  unfold linePoint
  cases words : splitWords line with
  | nil =>
      rw [words] at read
      cases read
      exact Or.inl ⟨rfl, rfl, Or.inl rfl⟩
  | cons word rest =>
      rw [words, List.zipIdx_cons, List.foldlM_cons] at read
      obtain ⟨mid, first, read⟩ := bind_eq_ok.mp read
      obtain ⟨size, value, same, small, shape⟩ := readOffsetWord_size first
      cases rest with
      | nil =>
          cases read
          rw [shape]
          exact Or.inl ⟨rfl, rfl, Or.inr ⟨rfl, small⟩⟩
      | cons second others =>
          rw [List.zipIdx_cons, List.foldlM_cons] at read
          obtain ⟨after, column, read⟩ := bind_eq_ok.mp read
          rw [readOffsetWord_rest others (Nat.le_refl 2)] at read
          obtain ⟨offset, parsed, pushed⟩ := bind_eq_ok.mp column
          refine Or.inr ⟨size, offset, ?_, same, ?_⟩
          · simp only [value, parsed]
          · rw [← Except.ok.inj read, ← Except.ok.inj pushed, shape]
            exact ⟨rfl, rfl, small⟩

/-- What holds of the table read so far and the points written so far: the offsets are those of
the points, in order, and the sizes of the points go up by 100 bytes at least. -/
structure Loaded (t : OffsetTable) (points : List (ℚ × ℚ)) : Prop where
  offsets : t.psizeLatencyOffset = points.map Prod.snd
  spaced : Spaced 100 points
  sizes : ∀ p ∈ points, 100 ≤ p.1 ∧ p.1 + 100 ≤ t.currSize
  short : 100 * ((points.length : Int) + 1) ≤ t.currSize
  small : t.currSize < 2 ^ 31

theorem readOffsetLine_loaded {t next : OffsetTable} {line : Text} {points : List (ℚ × ℚ)}
    (loaded : Loaded t points) (read : readOffsetLine strtod filename t line = .ok next) :
    Loaded next (points ++ (linePoint strtod line).toList.map asRead) := by
  have short := loaded.short
  have small := loaded.small
  rcases readOffsetLine_cases read with
    ⟨none, offsets, size⟩ | ⟨written, offset, point, same, offsets, size, room⟩
  · rw [none, Option.toList_none, List.map_nil, List.append_nil]
    have later : t.currSize ≤ next.currSize ∧ next.currSize < 2 ^ 31 := by omega
    have cast : (t.currSize : ℚ) ≤ next.currSize := by exact_mod_cast later.1
    refine ⟨offsets.trans loaded.offsets, loaded.spaced, ?_, by omega, later.2⟩
    intro p member
    have ⟨least, most⟩ := loaded.sizes p member
    exact ⟨least, most.trans cast⟩
  · have cast : (next.currSize : ℚ) = t.currSize + 100 := by exact_mod_cast congrArg Int.cast size
    have first : (100 : ℚ) ≤ t.currSize := by
      have : (100 : Int) ≤ t.currSize := by omega
      exact_mod_cast this
    rw [point, Option.toList_some, List.map_singleton, asRead, same]
    refine ⟨?_, ?_, ?_, ?_, by omega⟩
    · rw [offsets, loaded.offsets, List.map_append]
      rfl
    · refine List.pairwise_append.mpr ⟨loaded.spaced, List.pairwise_singleton _ _, ?_⟩
      intro p member q other
      rw [List.mem_singleton.mp other]
      exact (loaded.sizes p member).2
    · intro p member
      rcases List.mem_append.mp member with old | new
      · have ⟨least, most⟩ := loaded.sizes p old
        exact ⟨least, by linarith⟩
      · rw [List.mem_singleton.mp new, cast]
        exact ⟨first, le_refl _⟩
    · rw [List.length_append, List.length_singleton, size]
      push_cast
      omega

theorem readOffsets_loaded {lines : List Text} {t final : OffsetTable} {points : List (ℚ × ℚ)}
    (loaded : Loaded t points)
    (read : lines.foldlM (readOffsetLine strtod filename) t = .ok final) :
    Loaded final (points ++ (writtenPoints strtod lines).map asRead) := by
  induction lines generalizing t points with
  | nil =>
      cases read
      simpa [writtenPoints] using loaded
  | cons line lines ih =>
      rw [List.foldlM_cons] at read
      obtain ⟨next, first, read⟩ := bind_eq_ok.mp read
      have rest := ih (readOffsetLine_loaded loaded first) read
      unfold writtenPoints at rest ⊢
      rw [List.filterMap_cons]
      cases point : linePoint strtod line with
      | none => simpa [point] using rest
      | some p => simpa [point] using rest

/-- The index computed for a packet size, as the `int` it is kept in. -/
theorem offsetIndex {psize : Nat} (word : psize < 2 ^ 32) :
    i32 (u32 ((psize / 100 : Nat) - 1)) = (psize / 100 : Nat) - 1 := by
  have quotient : psize / 100 < 2 ^ 31 - 1 := by omega
  exact (toSigned_toUnsigned (Nat.le_refl 32) _).trans
    (toSigned_of_range 32 _ (by decide) (by omega) (by omega))

/-- The lookup is linear between the entries of the table, which stand at 100, 200 and so on, and
constant outside of them. -/
theorem getPsizeLatencyOffset_eq (table : List ℚ) {psize : Nat} (word : psize < 2 ^ 32) :
    getPsizeLatencyOffset table psize = interpolant (evenly 100 100 table) psize := by
  cases table with
  | nil => rfl
  | cons value values =>
      have index := offsetIndex word
      have division : 100 * (psize / 100) + psize % 100 = psize := Nat.div_add_mod psize 100
      have below : psize % 100 < 100 := Nat.mod_lt psize (by decide)
      have parts : (psize : ℚ) = 100 * (psize / 100 : Nat) + (psize % 100 : Nat) := by
        exact_mod_cast division.symm
      have shorter : ((psize % 100 : Nat) : ℚ) ≤ 100 := by exact_mod_cast le_of_lt below
      have filled : (value :: values).length ≠ 0 := by simp
      push_cast at index
      simp only [getPsizeLatencyOffset, psizeLatencyOffsetIn, id_eq, if_neg filled, index]
      by_cases small : psize < 100
      · have early : (psize : ℚ) ≤ 100 := by exact_mod_cast le_of_lt small
        rw [if_pos (by omega), evenly, interpolant_of_le early]
        rfl
      · rw [if_neg (by omega)]
        obtain ⟨k, place⟩ : ∃ k, psize / 100 = k + 1 := ⟨psize / 100 - 1, by omega⟩
        have whole : ((psize : Int) / 100 - 1).toNat = k := by omega
        rw [place] at parts
        push_cast at parts
        have rest : (0 : ℚ) ≤ (psize % 100 : Nat) := Nat.cast_nonneg _
        by_cases last : ((value :: values).length : Int) - 1 ≤ (psize : Int) / 100 - 1
        · have entries : (((value :: values).length - 1 : Nat) : ℚ) ≤ k := by
            have : (value :: values).length - 1 ≤ k := by omega
            exact_mod_cast this
          rw [if_pos last, interpolant_evenly_last (by norm_num)]
          linarith
        · rw [if_neg last, whole,
            interpolant_evenly_between (k := k) (by norm_num) (by omega) (by linarith)
              (by linarith), parts]
          ring

/-- The lookup is the function through the points written in the file, and there is a packet size
for each of them at which the offset written is used. -/
def InterpolatesFile (strtod : Text → Option ℚ × Text) (lines : List Text) (table : List ℚ) :
    Prop :=
  (∀ psize : Nat, psize < 2 ^ 32 → getPsizeLatencyOffset table psize =
      interpolant ((writtenPoints strtod lines).map asWritten) psize) ∧
    ∀ size offset, (size, offset) ∈ writtenPoints strtod lines →
      ∃ psize : Nat, psize < 2 ^ 32 ∧ (psize : Int) = size ∧
        getPsizeLatencyOffset table psize = offset

/-- Every size written is an `unsigned int`, and every point follows the one before it by 100
bytes or repeats its offset, the first one standing at 100 bytes unless it is repeated. -/
def WrittenInPlace (points : List (Int × ℚ)) : Prop :=
  (∀ p ∈ points, 0 ≤ p.1 ∧ p.1 < 2 ^ 32) ∧ InPlace 100 100 (points.map asWritten)

/-- What the loader makes of a file: the offsets of its points, whose sizes it reads as ascending
ones from 100 bytes on. -/
theorem readOffsets_points {lines : List Text} {table : List ℚ}
    (read : readOffsets strtod filename lines = .ok table) :
    ((writtenPoints strtod lines).map asRead).map Prod.snd = table ∧
      Spaced 100 ((writtenPoints strtod lines).map asRead) ∧
      (∀ a ∈ (writtenPoints strtod lines).map asRead, 100 ≤ a.1) ∧
      100 * ((writtenPoints strtod lines).length + 1) < 2 ^ 31 := by
  obtain ⟨final, run, result⟩ := bind_eq_ok.mp read
  have initial : Loaded {} [] := ⟨rfl, List.Pairwise.nil, by simp, by decide, by decide⟩
  have loaded := readOffsets_loaded initial run
  rw [List.nil_append] at loaded
  have short := loaded.short
  have small := loaded.small
  rw [List.length_map] at short
  refine ⟨?_, loaded.spaced, fun a member => (loaded.sizes a member).1, by omega⟩
  rw [← Except.ok.inj result, loaded.offsets]

/-- Sizes that an `unsigned int` holds are read as they are written. -/
theorem asRead_eq_asWritten {points : List (Int × ℚ)}
    (ranges : ∀ p ∈ points, 0 ≤ p.1 ∧ p.1 < 2 ^ 32)
    (sizes : ∀ a ∈ points.map asRead, 100 ≤ a.1) :
    points.map asRead = points.map asWritten := by
  apply List.map_congr_left
  intro p member
  have least : (100 : ℚ) ≤ (i32 p.1 : Int) := sizes _ (List.mem_map_of_mem member)
  have least : 100 ≤ i32 p.1 := by exact_mod_cast least
  have same : i32 p.1 = p.1 := toSigned_eq_of_nonneg 32 p.1 (ranges p member)
    (le_trans (by decide) least)
  rw [asRead, asWritten, same]

/-- An accepted file is interpolated exactly if its points stand where the table has them. -/
theorem interpolatesFile_iff {lines : List Text} {table : List ℚ}
    (read : readOffsets strtod filename lines = .ok table) :
    InterpolatesFile strtod lines table ↔ WrittenInPlace (writtenPoints strtod lines) := by
  obtain ⟨values, spaced, sizes, short⟩ := readOffsets_points read
  unfold InterpolatesFile
  generalize writtenPoints strtod lines = points at *
  have start : ∀ a, (points.map asRead).head? = some a → 100 ≤ a.1 :=
    fun a front => sizes a (List.mem_of_mem_head? front)
  have hundred : (0 : ℚ) < 100 := by norm_num
  constructor
  · rintro ⟨whole, each⟩
    have ranges : ∀ p ∈ points, 0 ≤ p.1 ∧ p.1 < 2 ^ 32 := by
      intro p member
      obtain ⟨psize, word, size, _⟩ := each p.1 p.2 member
      omega
    have same := asRead_eq_asWritten ranges sizes
    refine ⟨ranges, ?_⟩
    rw [same] at spaced start values
    refine inPlace_of_interpolant_evenly hundred spaced start ?_
    intro k inside
    rw [List.length_map] at inside
    have word : 100 + k * 100 < 2 ^ 32 := by omega
    have lookup := whole _ word
    rw [getPsizeLatencyOffset_eq table word, ← values] at lookup
    push_cast at lookup
    exact lookup
  · rintro ⟨ranges, places⟩
    have same := asRead_eq_asWritten ranges sizes
    rw [same] at spaced start values
    have whole : ∀ psize : Nat, psize < 2 ^ 32 →
        getPsizeLatencyOffset table psize = interpolant (points.map asWritten) psize := by
      intro psize word
      rw [getPsizeLatencyOffset_eq table word, ← values]
      exact interpolant_evenly_of_inPlace hundred spaced start places _
    refine ⟨whole, ?_⟩
    intro size offset member
    obtain ⟨nonneg, word⟩ := ranges _ member
    have cast : ((size.toNat : Nat) : Int) = size := Int.toNat_of_nonneg nonneg
    have narrow : size.toNat < 2 ^ 32 := by omega
    refine ⟨size.toNat, narrow, cast, ?_⟩
    have sorted : (points.map asWritten).Pairwise (fun a b => a.1 < b.1) :=
      spaced.imp (fun {a b} gap => by linarith)
    have place : ((size.toNat : Nat) : ℚ) = size := by exact_mod_cast cast
    rw [whole _ narrow, place]
    exact interpolant_at sorted (List.mem_map_of_mem member)

/-- What `strtod` reads of a number without a fraction or an exponent. -/
def strtodWhole (str : Text) : Option ℚ × Text :=
  ((strtol str).1.map (fun z => (z : ℚ)), (strtol str).2)

/-- A size without an offset, and two points behind it. -/
def sizeAlone : List Text := ["100".toList, "200 5".toList, "300 9".toList]

/-- The points behind it are used one place ahead: at 200 bytes the offset of 300 bytes. -/
theorem not_interpolatesFile :
    readOffsets strtodWhole "offsets" sizeAlone = .ok [5, 9] ∧
      getPsizeLatencyOffset [5, 9] 200 = 9 ∧
      ¬ InterpolatesFile strtodWhole sizeAlone [5, 9] := by
  have lookup : getPsizeLatencyOffset [5, 9] 200 = 9 := by decide +kernel
  refine ⟨by decide +kernel, lookup, ?_⟩
  rintro ⟨_, each⟩
  obtain ⟨psize, _, size, offset⟩ := each 200 5 (by decide +kernel)
  obtain rfl : psize = 200 := by omega
  rw [lookup] at offset
  exact absurd offset (by decide)

/-- Two points in their places are interpolated. -/
theorem interpolatesFile_iff_twoPoints :
    let lines : List Text := ["100 5".toList, "200 9".toList]
    readOffsets strtodWhole "offsets" lines = .ok [5, 9] ∧
      InterpolatesFile strtodWhole lines [5, 9] := by
  intro lines
  have read : readOffsets strtodWhole "offsets" lines = .ok [5, 9] := by decide +kernel
  refine ⟨read, (interpolatesFile_iff read).mpr ?_⟩
  have points : writtenPoints strtodWhole lines = [(100, 5), (200, 9)] := by decide +kernel
  rw [points]
  exact ⟨by decide, Or.inl (by norm_num [asWritten]), trivial⟩

end CellReplay
