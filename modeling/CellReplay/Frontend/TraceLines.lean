import CellReplay.Frontend.Trace
import CellReplay.Lib.DecimalText
import CellReplay.Lib.OrderedRecords
import CellReplay.Packet.QueueArguments

set_option autoImplicit false

namespace CellReplay

open DecimalText FueledLoop MachineWord OrderedRecords

/-- The lines `getline` yields: none after a newline that ends the file. -/
def getLines (file : Text) : List Text :=
  let lines := file.splitOn '\n'
  if lines.getLast? = some [] then lines.dropLast else lines

/-- A file of lines that end with a newline. -/
def ofLines (lines : List Text) : Text := lines.flatMap (· ++ ['\n'])

theorem ofLines_eq (lines : List Text) : ofLines lines = ['\n'].intercalate (lines ++ [[]]) := by
  induction lines with
  | nil => rfl
  | cons line lines ih =>
      unfold ofLines at ih ⊢
      obtain ⟨next, rest, shape⟩ : ∃ next rest, lines ++ [[]] = next :: rest :=
        List.exists_cons_of_ne_nil (by simp)
      rw [List.flatMap_cons, ih, List.cons_append, shape, List.intercalate_cons_cons]

theorem getLines_ofLines {lines : List Text} (clean : ∀ line ∈ lines, '\n' ∉ line) :
    getLines (ofLines lines) = lines := by
  have split : (ofLines lines).splitOn '\n' = lines ++ [[]] := by
    rw [ofLines_eq]
    apply List.splitOn_intercalate
    · intro line member
      rcases List.mem_append.mp member with inside | last
      · exact clean line inside
      · simp [List.mem_singleton.mp last]
    · simp
  unfold getLines
  simp [split]

/-- `strtol` reads the text of an integer to its end. -/
theorem strtol_ofInt (z : Int) : strtol (ofInt z) = (toLong z, []) := by
  have digits : ∀ n : Nat, ∀ c ∈ Nat.toDigits 10 n, c.isDigit = true :=
    fun n c member => Nat.isDigit_of_mem_toDigits (by decide) (by decide) member
  have first : ∀ n : Nat, ∃ c rest, Nat.toDigits 10 n = c :: rest ∧ isSpace c = false ∧
      c ≠ '-' ∧ c ≠ '+' := by
    intro n
    obtain ⟨c, rest, shape⟩ := List.exists_cons_of_ne_nil (Nat.toDigits_ne_nil (b := 10) (n := n))
    obtain ⟨space, minus, plus⟩ := not_isSpace_of_isDigit (digits n c (by simp [shape]))
    exact ⟨c, rest, shape, space, minus, plus⟩
  have taken : ∀ n : Nat, (Nat.toDigits 10 n).takeWhile Char.isDigit = Nat.toDigits 10 n :=
    fun n => List.takeWhile_eq_self_iff.mpr (digits n)
  have dropped : ∀ n : Nat, (Nat.toDigits 10 n).dropWhile Char.isDigit = [] :=
    fun n => List.dropWhile_eq_nil_iff.mpr (digits n)
  have filled : ∀ n : Nat, (Nat.toDigits 10 n).isEmpty = false :=
    fun n => List.isEmpty_eq_false_iff.mpr Nat.toDigits_ne_nil
  rcases Int.lt_or_le z 0 with negative | nonneg
  · have front : ('-' :: Nat.toDigits 10 z.natAbs).dropWhile isSpace =
        '-' :: Nat.toDigits 10 z.natAbs := rfl
    rw [ofInt_of_neg negative, strtol, front]
    simp only [splitSign, taken, dropped, filled, Nat.ofDigitChars_ten_toDigits, ↓reduceIte,
      Bool.false_eq_true]
    rw [show -(z.natAbs : Int) = z by omega]
  · obtain ⟨c, rest, shape, space, minus, plus⟩ := first z.toNat
    have front : (Nat.toDigits 10 z.toNat).dropWhile isSpace = Nat.toDigits 10 z.toNat := by
      rw [shape, List.dropWhile_cons_of_neg (by simp [space])]
    have unsigned : splitSign (Nat.toDigits 10 z.toNat) = (false, Nat.toDigits 10 z.toNat) := by
      rw [shape]
      unfold splitSign
      split
      · rename_i same
        exact absurd (List.cons.inj same).1 minus
      · rename_i same
        exact absurd (List.cons.inj same).1 plus
      · rfl
    rw [ofInt_of_nonneg nonneg, strtol, front, unsigned]
    simp only [taken, dropped, filled, Nat.ofDigitChars_ten_toDigits, ↓reduceIte,
      Bool.false_eq_true]
    rw [Int.toNat_of_nonneg nonneg]

/-- What `myatoi` reads of the text of an integer is the integer, if a `long` holds it. -/
theorem myatoi_ofInt {z : Int} (above : -2 ^ 63 ≤ z) (below : z < 2 ^ 63) :
    myatoi (ofInt z) = .ok z := by
  have long : toLong z = some z := if_pos ⟨above, below⟩
  unfold myatoi
  rw [List.isEmpty_eq_false_iff.mpr (ofInt_ne_nil z), strtol_ofInt, long]
  rfl

/-- What a line of the heavy PDO trace says. -/
def heavyRecord (filename : String) (startTimestamp : Nat) (line : Text) :
    Except Fault (Option Nat) :=
  if line.isEmpty then .error (.runtimeError (filename ++ ": invalid empty line"))
  else do
    let ms := u64 (← myatoi line)
    return if startTimestamp ≤ ms then some (ms - startTimestamp) else none

/-- What a line of the packet train trace says. -/
def trainRecord (filename : String) (startTimestamp : Nat) (line : Text) :
    Except Fault (Option DelayPDOInstance) :=
  if line.isEmpty then .error (.runtimeError (filename ++ ": invalid empty line"))
  else do
    let row ← readColumns (splitWords line)
    return if startTimestamp ≤ row.time then
      some { row with time := row.time - startTimestamp } else none

section
variable {filename : String} {start : Nat} {lines : List Text}

theorem readHeavyLine_eq : readHeavyLine filename start =
    read (heavyRecord filename start) id
      (.runtimeError (filename ++ ": timestamps must be monotonically nondecreasing")) := by
  funext schedule line
  unfold readHeavyLine OrderedRecords.read heavyRecord
  split
  · rfl
  · cases myatoi line with
    | error fault => rfl
    | ok value =>
        show keepHeavyTime filename start schedule (u64 value) = _
        unfold keepHeavyTime
        simp only [bind, Except.bind, pure, Except.pure]
        split
        · rfl
        · rfl

theorem readTrainLine_eq : readTrainLine filename start =
    read (trainRecord filename start) DelayPDOInstance.time
      (.runtimeError (filename ++ ": timestamps must be monotonically nondecreasing")) := by
  funext rows line
  unfold readTrainLine OrderedRecords.read trainRecord
  split
  · rfl
  · cases readColumns (splitWords line) with
    | error fault => rfl
    | ok row =>
        show keepTrainRow filename start rows row = _
        unfold keepTrainRow
        simp only [bind, Except.bind, pure, Except.pure]
        split
        · rfl
        · rfl

/-- A heavy PDO trace is accepted exactly when its lines are numbers, the ones not before the start
are in order, and the last of them is after the start. -/
theorem readHeavyTrace_eq_ok {times : List Nat} :
    readHeavyTrace filename start lines = .ok times ↔
      (∃ parsed, lines.mapM (heavyRecord filename start) = .ok parsed ∧
        times = parsed.reduceOption ∧ InSequence id times) ∧
        ∃ last, times.getLast? = some last ∧ last ≠ 0 := by
  unfold readHeavyTrace
  rw [bind_eq_ok, readHeavyLine_eq, ← foldlM_read_eq_ok]
  constructor
  · rintro ⟨schedule, folded, checked⟩
    unfold checkHeavyTrace at checked
    split at checked
    · cases checked
    · split at checked
      · cases checked
      · rename_i filled lasting
        cases checked
        refine ⟨folded, ?_⟩
        obtain ⟨last, shape⟩ := Option.ne_none_iff_exists'.mp
          (fun none => filled (by simpa using none) : times.getLast? ≠ none)
        refine ⟨last, shape, ?_⟩
        rintro rfl
        exact lasting shape
  · rintro ⟨folded, last, shape, lasting⟩
    refine ⟨times, folded, ?_⟩
    unfold checkHeavyTrace
    rw [if_neg, if_neg]
    · rw [shape]
      simpa using lasting
    · intro empty
      rw [List.isEmpty_iff.mp empty] at shape
      cases shape

/-- A packet train trace is accepted exactly when its lines are rows with a delay that is not
negative, and of those not before the start there are three at least, in order. -/
theorem readTrainTrace_eq_ok {rows : List DelayPDOInstance} :
    readTrainTrace filename start lines = .ok rows ↔
      (∃ parsed, lines.mapM (trainRecord filename start) = .ok parsed ∧
        rows = parsed.reduceOption ∧ InSequence DelayPDOInstance.time rows) ∧ 2 < rows.length := by
  unfold readTrainTrace
  rw [bind_eq_ok, readTrainLine_eq, ← foldlM_read_eq_ok]
  constructor
  · rintro ⟨kept, folded, checked⟩
    split at checked
    · cases checked
    · rename_i many
      cases checked
      exact ⟨folded, Nat.lt_of_not_le many⟩
  · rintro ⟨folded, many⟩
    exact ⟨rows, folded, if_neg (Nat.not_le.mpr many)⟩

end

/-- Lines of which each is parsed, or refused, are parsed together exactly when none is refused. -/
theorem mapM_eq_ok_iff {α β ε : Type} {parse : α → Except ε β} (good : α → Prop) (value : α → β)
    {lines : List α} {parsed : List β}
    (reads : ∀ line ∈ lines, ∀ b, parse line = .ok b ↔ good line ∧ b = value line) :
    lines.mapM parse = .ok parsed ↔ (∀ line ∈ lines, good line) ∧ parsed = lines.map value := by
  induction lines generalizing parsed with
  | nil =>
      simp only [List.mapM_nil]
      exact ⟨fun same => ⟨by simp, (Except.ok.inj same).symm⟩, fun both => by rw [both.2]; rfl⟩
  | cons line lines ih =>
      have rest := fun parsed => @ih parsed fun other member =>
        reads other (List.mem_cons_of_mem line member)
      have here := reads line List.mem_cons_self
      rw [List.mapM_cons, bind_eq_ok]
      constructor
      · rintro ⟨b, first, others⟩
        obtain ⟨bs, behind, same⟩ := bind_eq_ok.mp others
        have ⟨fine, shape⟩ := (here b).mp first
        have ⟨all, shapes⟩ := (rest bs).mp behind
        cases same
        rw [shape, shapes]
        exact ⟨List.forall_mem_cons.mpr ⟨fine, all⟩, rfl⟩
      · rintro ⟨all, shape⟩
        have ⟨fine, others⟩ := List.forall_mem_cons.mp all
        refine ⟨value line, (here _).mpr ⟨fine, rfl⟩, ?_⟩
        refine bind_eq_ok.mpr ⟨lines.map value, (rest _).mpr ⟨others, rfl⟩, ?_⟩
        rw [shape]
        rfl

end CellReplay
