import CellReplay.Util.Ezio
import Mathlib.Data.List.Sort

set_option autoImplicit false

namespace CellReplay

open MachineWord FueledLoop

/-- A heavy PDO schedule as the constructor of the emulator accepts it. -/
structure HeavyTrace where
  times : List Nat
  nonempty : times ≠ []
  nondecreasing : times.Pairwise (· ≤ ·)
  lasting : times.getLast nonempty ≠ 0
  representable : ∀ t ∈ times, t < 2 ^ 64
  deriving DecidableEq

namespace HeavyTrace

variable (s : HeavyTrace)

/-- `heavy_pdo_schedule_.back()`. -/
def last : Nat := s.times.getLast s.nonempty

theorem length_pos : 0 < s.times.length := List.length_pos_iff.mpr s.nonempty

end HeavyTrace

/-- What holds of the part of a schedule read so far. -/
def Ascending (times : List Nat) : Prop :=
  times.Pairwise (· ≤ ·) ∧ ∀ t ∈ times, t < 2 ^ 64

/-- Appending to a sorted list a value not below its last one. -/
theorem pairwise_append_last {α : Type} {k : α → Nat} {items : List α} {a : α}
    (sorted : items.Pairwise (fun x y => k x ≤ k y))
    (above : ∀ b, items.getLast? = some b → k b ≤ k a) :
    (items ++ [a]).Pairwise (fun x y => k x ≤ k y) := by
  rw [List.pairwise_append]
  refine ⟨sorted, List.pairwise_singleton _ _, ?_⟩
  intro x member y other
  cases List.mem_singleton.mp other
  have nonempty : items ≠ [] := List.ne_nil_of_mem member
  have final := above (items.getLast nonempty) (List.getLast?_eq_some_getLast nonempty)
  rcases List.mem_iff_getElem.mp member with ⟨i, inside, rfl⟩
  rw [List.getLast_eq_getElem] at final
  rcases Nat.lt_or_ge i (items.length - 1) with earlier | later
  · have := List.pairwise_iff_getElem.mp sorted i (items.length - 1) inside (by omega) earlier
    omega
  · obtain rfl : i = items.length - 1 := by omega
    exact final

/-- Keep a timestamp, if it is not before the start, behind those kept so far. -/
def keepHeavyTime (filename : String) (startTimestamp : Nat) (schedule : List Nat) (ms : Nat) :
    Except Fault (List Nat) :=
  if startTimestamp ≤ ms then
    if (schedule.getLast?).any (fun back => ms - startTimestamp < back) then
      .error (.runtimeError (filename ++ ": timestamps must be monotonically nondecreasing"))
    else .ok (schedule ++ [ms - startTimestamp])
  else .ok schedule

/-- One line of the heavy PDO trace, given the schedule of the lines before it. -/
def readHeavyLine (filename : String) (startTimestamp : Nat) (schedule : List Nat) (line : Text) :
    Except Fault (List Nat) :=
  if line.isEmpty then .error (.runtimeError (filename ++ ": invalid empty line"))
  else do keepHeavyTime filename startTimestamp schedule (u64 (← myatoi line))

/-- The two checks made when the heavy PDO trace has been read. -/
def checkHeavyTrace (filename : String) (schedule : List Nat) : Except Fault (List Nat) :=
  if schedule.isEmpty then .error (.runtimeError (filename ++ ": no valid timestamps found"))
  else if schedule.getLast? = some 0 then
    .error (.runtimeError (filename ++ ": trace must last for a nonzero amount of time"))
  else .ok schedule

/-- The part of the constructor that reads the heavy PDO trace. -/
def readHeavyTrace (filename : String) (startTimestamp : Nat) (lines : List Text) :
    Except Fault (List Nat) := do
  checkHeavyTrace filename (← lines.foldlM (readHeavyLine filename startTimestamp) [])

theorem keepHeavyTime_ascending {filename : String} {start ms : Nat} {schedule next : List Nat}
    (before : Ascending schedule) (word : ms < 2 ^ 64)
    (kept : keepHeavyTime filename start schedule ms = .ok next) : Ascending next := by
  unfold keepHeavyTime at kept
  split at kept
  · split at kept
    · cases kept
    · rename_i ordered
      cases kept
      refine ⟨pairwise_append_last (k := id) before.1 ?_, ?_⟩
      · intro back last
        simpa [last] using ordered
      · intro t member
        rcases List.mem_append.mp member with old | new
        · exact before.2 t old
        · cases List.mem_singleton.mp new
          omega
  · cases kept
    exact before

theorem readHeavyLine_ascending {filename : String} {start : Nat} {schedule next : List Nat}
    {line : Text} (before : Ascending schedule)
    (read : readHeavyLine filename start schedule line = .ok next) : Ascending next := by
  unfold readHeavyLine at read
  split at read
  · cases read
  · have ⟨value, _, kept⟩ := bind_eq_ok.mp read
    exact keepHeavyTime_ascending before (toUnsigned_lt 64 value) kept

/-- A fold of fallible steps keeps what each step keeps. -/
theorem foldlM_invariant {α β : Type} {f : β → α → Except Fault β} {I : β → Prop}
    (keep : ∀ b a c, I b → f b a = .ok c → I c) (items : List α) {b c : β} (start : I b)
    (run : items.foldlM f b = .ok c) : I c := by
  induction items generalizing b with
  | nil =>
      cases run
      exact start
  | cons a items ih =>
      have ⟨next, step, rest⟩ := bind_eq_ok.mp run
      exact ih (keep b a next start step) rest

/-- What the constructor accepts is a heavy trace. -/
theorem readHeavyTrace_accepted {filename : String} {start : Nat} {lines : List Text}
    {times : List Nat} (read : readHeavyTrace filename start lines = .ok times) :
    ∃ nonempty : times ≠ [], Ascending times ∧ times.getLast nonempty ≠ 0 := by
  have ⟨schedule, folded, checked⟩ := bind_eq_ok.mp read
  have ascending : Ascending schedule :=
    foldlM_invariant (fun _ _ _ before step => readHeavyLine_ascending before step) lines
      ⟨List.Pairwise.nil, by simp⟩ folded
  unfold checkHeavyTrace at checked
  split at checked
  · cases checked
  · rename_i filled
    split at checked
    · cases checked
    · rename_i lasting
      cases checked
      have nonempty : times ≠ [] := by simpa using filled
      refine ⟨nonempty, ascending, ?_⟩
      intro zero
      exact lasting (by rw [List.getLast?_eq_some_getLast nonempty, zero])

/-- The heavy trace the constructor keeps. -/
def HeavyTrace.load (filename : String) (startTimestamp : Nat) (lines : List Text) :
    Except Fault HeavyTrace :=
  match read : readHeavyTrace filename startTimestamp lines with
  | .error fault => .error fault
  | .ok times =>
      have accepted := readHeavyTrace_accepted read
      .ok ⟨times, accepted.1, accepted.2.1.1, accepted.2.2, accepted.2.1.2⟩

/-- One line of a packet train trace: a base delay and the light PDOs. -/
structure DelayPDOInstance where
  time : Nat
  delay : Int
  pdo : List Int
  deriving DecidableEq, Repr

/-- A packet train trace as the constructor of the emulator accepts it. -/
structure PacketTrainTrace where
  instances : List DelayPDOInstance
  threeLines : 2 < instances.length
  nondecreasing : instances.Pairwise (fun a b => a.time ≤ b.time)
  representable : ∀ i ∈ instances, i.time < 2 ^ 64
  delayed : ∀ i ∈ instances, 0 ≤ i.delay ∧ i.delay < 2 ^ 31
  pdoRange : ∀ i ∈ instances, ∀ p ∈ i.pdo, -2 ^ 31 ≤ p ∧ p < 2 ^ 31
  deriving DecidableEq

namespace PacketTrainTrace

variable (s : PacketTrainTrace)

/-- `delay_pdo_trace.size() - 1`. -/
def lastIdx : Nat := s.instances.length - 1

theorem lastIdx_lt : s.lastIdx < s.instances.length := by
  have lines := s.threeLines
  unfold lastIdx
  omega

/-- The time of the row at an index; rows past the end are never asked for. -/
def time (i : Nat) : Nat := (s.instances[i]?.map DelayPDOInstance.time).getD 0

/-- The last kept time. -/
def last : Nat := s.time s.lastIdx

theorem time_eq (i : Nat) (inside : i < s.instances.length) :
    s.time i = s.instances[i].time := by
  simp only [time, List.getElem?_eq_getElem inside, Option.map_some, Option.getD_some]

theorem time_mono (i j : Nat) (ordered : i ≤ j) (inside : j < s.instances.length) :
    s.time i ≤ s.time j := by
  rw [s.time_eq i (by omega), s.time_eq j inside]
  rcases Nat.lt_or_ge i j with earlier | later
  · exact List.pairwise_iff_getElem.mp s.nondecreasing i j (by omega) inside earlier
  · obtain rfl : i = j := by omega
    exact Nat.le_refl _

end PacketTrainTrace

/-- The words `getline( iss, word, ' ' )` yields: none after a delimiter that ends the line. -/
def splitWords (line : Text) : List Text :=
  let words := line.splitOn ' '
  if words.getLast? = some [] then words.dropLast else words

/-- `uint64_t time_ms`, left 0 when there is no column. -/
def timeColumn : List Text → Except Fault Nat
  | [] => .ok 0
  | word :: _ => do return u64 (← myatoi word)

/-- `int first_packet_delay_ms`, left -1 when there is no second column. -/
def delayColumn : List Text → Except Fault Int
  | _ :: word :: _ => do return i32 (← myatoi word)
  | _ => .ok (-1)

/-- The rest of the columns, each an `int`. -/
def pdoColumns (words : List Text) : Except Fault (List Int) :=
  (words.drop 2).mapM (fun word => do return i32 (← myatoi word))

/-- The columns of one line: timestamp, base delay, light PDOs. -/
def readColumns (words : List Text) : Except Fault DelayPDOInstance := do
  let timeMs ← timeColumn words
  let firstPacketDelayMs ← delayColumn words
  let packetDeliveryOportunity ← pdoColumns words
  check "first_packet_delay_ms >= 0" (0 ≤ firstPacketDelayMs)
  return ⟨timeMs, firstPacketDelayMs, packetDeliveryOportunity⟩

theorem timeColumn_lt {words : List Text} {time : Nat} (read : timeColumn words = .ok time) :
    time < 2 ^ 64 := by
  unfold timeColumn at read
  split at read
  · cases read
    decide
  · have ⟨value, _, same⟩ := bind_eq_ok.mp read
    cases same
    exact toUnsigned_lt 64 value

theorem delayColumn_lt {words : List Text} {delay : Int} (read : delayColumn words = .ok delay) :
    delay < 2 ^ 31 := by
  unfold delayColumn at read
  split at read
  · have ⟨value, _, same⟩ := bind_eq_ok.mp read
    cases same
    exact toSigned_lt 31 value
  · cases read
    decide

theorem pdoColumns_range {words : List Text} {pdo : List Int}
    (read : pdoColumns words = .ok pdo) : ∀ p ∈ pdo, -2 ^ 31 ≤ p ∧ p < 2 ^ 31 := by
  unfold pdoColumns at read
  generalize words.drop 2 = columns at read
  induction columns generalizing pdo with
  | nil =>
      cases read
      simp
  | cons word rest ih =>
      rw [List.mapM_cons] at read
      have ⟨first, column, read⟩ := bind_eq_ok.mp read
      have ⟨others, behind, read⟩ := bind_eq_ok.mp read
      cases read
      have ⟨value, _, same⟩ := bind_eq_ok.mp column
      cases same
      intro p member
      rcases List.mem_cons.mp member with rfl | member
      · exact ⟨le_toSigned 31 value, toSigned_lt 31 value⟩
      · exact ih behind p member

/-- Keep a row, if it is not before the start, behind those kept so far. -/
def keepTrainRow (filename : String) (startTimestamp : Nat) (rows : List DelayPDOInstance)
    (row : DelayPDOInstance) : Except Fault (List DelayPDOInstance) :=
  if startTimestamp ≤ row.time then
    if (rows.getLast?).any (fun back => row.time - startTimestamp < back.time) then
      .error (.runtimeError (filename ++ ": timestamps must be monotonically nondecreasing"))
    else .ok (rows ++ [{ row with time := row.time - startTimestamp }])
  else .ok rows

/-- One line of the packet train trace, given the rows of the lines before it. -/
def readTrainLine (filename : String) (startTimestamp : Nat) (rows : List DelayPDOInstance)
    (line : Text) : Except Fault (List DelayPDOInstance) :=
  if line.isEmpty then .error (.runtimeError (filename ++ ": invalid empty line"))
  else do keepTrainRow filename startTimestamp rows (← readColumns (splitWords line))

/-- The part of the constructor that reads the packet train trace. -/
def readTrainTrace (filename : String) (startTimestamp : Nat) (lines : List Text) :
    Except Fault (List DelayPDOInstance) := do
  let rows ← lines.foldlM (readTrainLine filename startTimestamp) []
  if rows.length ≤ 2 then
    .error (.runtimeError (filename ++ ": there should be at least three lines"))
  else .ok rows

/-- What holds of the rows read so far. -/
structure Rows (rows : List DelayPDOInstance) : Prop where
  nondecreasing : rows.Pairwise (fun a b => a.time ≤ b.time)
  representable : ∀ i ∈ rows, i.time < 2 ^ 64
  delayed : ∀ i ∈ rows, 0 ≤ i.delay ∧ i.delay < 2 ^ 31
  pdoRange : ∀ i ∈ rows, ∀ p ∈ i.pdo, -2 ^ 31 ≤ p ∧ p < 2 ^ 31

/-- What holds of one row as it is read. -/
structure Row (row : DelayPDOInstance) : Prop where
  representable : row.time < 2 ^ 64
  delayed : 0 ≤ row.delay ∧ row.delay < 2 ^ 31
  pdoRange : ∀ p ∈ row.pdo, -2 ^ 31 ≤ p ∧ p < 2 ^ 31

theorem readColumns_row {words : List Text} {row : DelayPDOInstance}
    (read : readColumns words = .ok row) : Row row := by
  have ⟨time, first, read⟩ := bind_eq_ok.mp read
  have ⟨delay, second, read⟩ := bind_eq_ok.mp read
  have ⟨pdo, third, read⟩ := bind_eq_ok.mp read
  have ⟨_, checked, read⟩ := bind_eq_ok.mp read
  cases read
  have nonneg : 0 ≤ delay := by simpa using check_eq_ok.mp checked
  exact ⟨timeColumn_lt first, ⟨nonneg, delayColumn_lt second⟩, pdoColumns_range third⟩

theorem keepTrainRow_rows {filename : String} {start : Nat} {rows next : List DelayPDOInstance}
    {row : DelayPDOInstance} (before : Rows rows) (word : Row row)
    (kept : keepTrainRow filename start rows row = .ok next) : Rows next := by
  unfold keepTrainRow at kept
  split at kept
  · split at kept
    · cases kept
    · rename_i ordered
      cases kept
      refine ⟨pairwise_append_last (k := DelayPDOInstance.time) before.nondecreasing ?_, ?_, ?_, ?_⟩
      · intro back last
        simpa [last] using ordered
      · intro i member
        rcases List.mem_append.mp member with old | new
        · exact before.representable i old
        · cases List.mem_singleton.mp new
          have below := word.representable
          dsimp only
          omega
      · intro i member
        rcases List.mem_append.mp member with old | new
        · exact before.delayed i old
        · cases List.mem_singleton.mp new
          exact word.delayed
      · intro i member
        rcases List.mem_append.mp member with old | new
        · exact before.pdoRange i old
        · cases List.mem_singleton.mp new
          exact word.pdoRange
  · cases kept
    exact before

theorem readTrainLine_rows {filename : String} {start : Nat} {rows next : List DelayPDOInstance}
    {line : Text} (before : Rows rows)
    (read : readTrainLine filename start rows line = .ok next) : Rows next := by
  unfold readTrainLine at read
  split at read
  · cases read
  · have ⟨row, columns, kept⟩ := bind_eq_ok.mp read
    exact keepTrainRow_rows before (readColumns_row columns) kept

/-- What the constructor accepts is a packet train trace. -/
theorem readTrainTrace_accepted {filename : String} {start : Nat} {lines : List Text}
    {rows : List DelayPDOInstance} (read : readTrainTrace filename start lines = .ok rows) :
    2 < rows.length ∧ Rows rows := by
  have ⟨kept, folded, checked⟩ := bind_eq_ok.mp read
  have sound : Rows kept :=
    foldlM_invariant (fun _ _ _ before step => readTrainLine_rows before step) lines
      ⟨List.Pairwise.nil, by simp, by simp, by simp⟩ folded
  by_cases few : kept.length ≤ 2
  · rw [if_pos few] at checked
    cases checked
  · rw [if_neg few] at checked
    cases checked
    exact ⟨by omega, sound⟩

/-- The packet train trace the constructor keeps. -/
def PacketTrainTrace.load (filename : String) (startTimestamp : Nat) (lines : List Text) :
    Except Fault PacketTrainTrace :=
  match read : readTrainTrace filename startTimestamp lines with
  | .error fault => .error fault
  | .ok rows =>
      have accepted := readTrainTrace_accepted read
      .ok ⟨rows, accepted.1, accepted.2.nondecreasing, accepted.2.representable,
        accepted.2.delayed, accepted.2.pdoRange⟩

end CellReplay
