import CellReplay.Frontend.TraceLines
import CellReplay.Record.TraceFiles

set_option autoImplicit false

namespace CellReplay

open Binary64 DecimalText FueledLoop MachineWord OrderedRecords

/-- `print_array`: every number but the last one is followed by a space. The index of the last one
is past an empty array. -/
def printArray (arr : List Int) : Except Fault Text :=
  match arr.getLast? with
  | none => .error .outOfRange
  | some last => .ok (arr.dropLast.flatMap (fun x => ofInt x ++ [' ']) ++ ofInt last)

namespace OutputLine

/-- What `%d %d %s` writes of a line. -/
def text (line : OutputLine) : Except Fault Text := do
  let pdos ← printArray line.pdos
  return ofInt line.time ++ ' ' :: (ofInt line.oneWayMs ++ ' ' :: pdos)

/-- The text of a trace file. -/
def fileText (lines : List OutputLine) : Except Fault Text := do
  return ofLines (← lines.mapM text)

/-- The numbers of the line are of the types that the emulator reads them into. -/
structure Fits (line : OutputLine) : Prop where
  time : 0 ≤ line.time ∧ line.time < 2 ^ 63
  oneWayMs : -2 ^ 31 ≤ line.oneWayMs ∧ line.oneWayMs < 2 ^ 31
  pdos : ∀ pdo ∈ line.pdos, -2 ^ 31 ≤ pdo ∧ pdo < 2 ^ 31
  some' : line.pdos ≠ []

/-- The row that the emulator replays for the line, from a start. -/
def replayed (start : Nat) (line : OutputLine) : DelayPDOInstance :=
  ⟨line.time.toNat - start, line.oneWayMs, line.pdos⟩

/-- The numbers of the line, in the order of its columns. -/
def numbers (line : OutputLine) : List Int := line.time :: line.oneWayMs :: line.pdos

variable {line : OutputLine} {filename : String} {start : Nat}

theorem printArray_eq {arr : List Int} (some' : arr ≠ []) :
    printArray arr = .ok (joined ' ' arr) := by
  have front : ∀ xs : List Int, ∀ last, xs.flatMap (fun x => ofInt x ++ [' ']) ++ ofInt last =
      joined ' ' (xs ++ [last]) := by
    intro xs last
    induction xs with
    | nil => simp [joined, List.intercalate_singleton]
    | cons x xs ih =>
        obtain ⟨y, rest, shape⟩ : ∃ y rest, xs ++ [last] = y :: rest :=
          List.exists_cons_of_ne_nil (by simp)
        rw [List.cons_append, shape, joined_cons_cons, ← shape, ← ih]
        simp
  unfold printArray
  rw [List.getLast?_eq_some_getLast some']
  dsimp only
  rw [front, List.dropLast_append_getLast]

theorem text_eq (some' : line.pdos ≠ []) : line.text = .ok (joined ' ' line.numbers) := by
  obtain ⟨pdo, rest, shape⟩ := List.exists_cons_of_ne_nil some'
  unfold text numbers
  rw [printArray_eq some', joined_cons_cons, shape, joined_cons_cons]
  rfl

theorem fileText_eq {lines : List OutputLine} (some' : ∀ line ∈ lines, line.pdos ≠ []) :
    fileText lines = .ok (ofLines (lines.map fun line => joined ' ' line.numbers)) := by
  have texts : lines.mapM text = .ok (lines.map fun line => joined ' ' line.numbers) := by
    apply (mapM_eq_ok_iff (fun _ => True) (fun line => joined ' ' line.numbers) _).mpr
    · exact ⟨fun _ _ => trivial, rfl⟩
    · intro line member b
      rw [text_eq (some' line member)]
      simp [eq_comm]
  unfold fileText
  rw [texts]
  rfl

theorem newline_not_mem (line : OutputLine) : '\n' ∉ joined ' ' line.numbers := by
  apply not_mem_intercalate (by decide)
  intro text member
  have ⟨z, _, same⟩ := List.mem_map.mp member
  rw [← same]
  exact not_mem_ofInt (by decide) (by decide) z

/-- The emulator splits a line into its numbers. -/
theorem splitWords_joined {zs : List Int} (some' : zs ≠ []) :
    splitWords (joined ' ' zs) = zs.map ofInt := by
  have split := splitOn_joined (show ' '.isDigit = false by decide) (by decide) some'
  have last : (zs.map ofInt).getLast? ≠ some [] := by
    intro empty
    have member := List.mem_of_getLast? empty
    obtain ⟨z, _, none⟩ := List.mem_map.mp member
    exact ofInt_ne_nil z none
  unfold splitWords
  rw [split]
  exact if_neg last

theorem i32_of_range {z : Int} (range : -2 ^ 31 ≤ z ∧ z < 2 ^ 31) : i32 z = z :=
  toSigned_of_range 32 z (by decide) range.1 range.2

/-- A line that fits is read as it was written; a negative delay fails the assertion. -/
theorem Fits.readColumns (fits : Fits line) (row : DelayPDOInstance) :
    readColumns (line.numbers.map ofInt) = .ok row ↔
      0 ≤ line.oneWayMs ∧ row = ⟨line.time.toNat, line.oneWayMs, line.pdos⟩ := by
  have ⟨late, early⟩ := fits.time
  have ⟨low, high⟩ := fits.oneWayMs
  have time : u64 line.time = line.time.toNat := by
    have same := toUnsigned_of_range 64 line.time late (by omega)
    unfold u64
    omega
  have pdos : (line.pdos.map ofInt).mapM (fun word => do return i32 (← myatoi word)) =
      (.ok line.pdos : Except Fault (List Int)) := by
    rw [List.mapM_map]
    have read : line.pdos.mapM (fun pdo => do return i32 (← myatoi (ofInt pdo))) =
        (.ok (line.pdos.map id) : Except Fault (List Int)) := by
      apply (mapM_eq_ok_iff (fun _ => True) id _).mpr
      · exact ⟨fun _ _ => trivial, rfl⟩
      · intro pdo member b
        have ⟨above, below⟩ := fits.pdos pdo member
        rw [myatoi_ofInt (by omega) (by omega)]
        show (.ok (i32 pdo) : Except Fault Int) = .ok b ↔ _
        rw [i32_of_range ⟨above, below⟩]
        simp [eq_comm]
    rw [List.map_id] at read
    exact read
  unfold CellReplay.readColumns timeColumn delayColumn pdoColumns numbers
  simp only [List.map_cons, List.drop_succ_cons, List.drop_zero]
  rw [myatoi_ofInt (by omega) early, myatoi_ofInt (by omega) (by omega), pdos]
  show (do
      check "first_packet_delay_ms >= 0" (0 ≤ i32 line.oneWayMs)
      return ⟨u64 line.time, i32 line.oneWayMs, line.pdos⟩ : Except Fault _) = .ok row ↔ _
  rw [i32_of_range ⟨low, high⟩, time, bind_eq_ok]
  simp only [check_eq_ok, decide_eq_true_eq]
  constructor
  · rintro ⟨_, nonneg, same⟩
    cases same
    exact ⟨nonneg, rfl⟩
  · rintro ⟨nonneg, rfl⟩
    exact ⟨(), nonneg, rfl⟩

theorem Fits.trainRecord (fits : Fits line) (record : Option DelayPDOInstance) :
    trainRecord filename start (joined ' ' line.numbers) = .ok record ↔
      0 ≤ line.oneWayMs ∧
        record = if start ≤ line.time.toNat then some (line.replayed start) else none := by
  have filled : (joined ' ' line.numbers).isEmpty = false := by
    apply List.isEmpty_eq_false_iff.mpr
    intro empty
    have words := splitWords_joined (show line.numbers ≠ [] by simp [numbers])
    rw [empty] at words
    simp [splitWords, numbers] at words
  unfold CellReplay.trainRecord
  rw [filled, splitWords_joined (by simp [numbers])]
  show (do
      let row ← CellReplay.readColumns (line.numbers.map ofInt)
      return if start ≤ row.time then
        some { row with time := row.time - start } else none : Except Fault _) = .ok record ↔ _
  rw [bind_eq_ok]
  constructor
  · rintro ⟨row, read, same⟩
    obtain ⟨nonneg, rfl⟩ := (fits.readColumns row).mp read
    exact ⟨nonneg, (Except.ok.inj same).symm⟩
  · rintro ⟨nonneg, rfl⟩
    exact ⟨_, (fits.readColumns _).mpr ⟨nonneg, rfl⟩, rfl⟩

/-- What the emulator keeps of a trace file. -/
theorem readTrainTrace_fileText {lines : List OutputLine} {file : Text}
    {rows : List DelayPDOInstance} (fits : ∀ line ∈ lines, Fits line)
    (written : fileText lines = .ok file) :
    readTrainTrace filename start (getLines file) = .ok rows ↔
      (∀ line ∈ lines, 0 ≤ line.oneWayMs) ∧
        rows = (lines.filter (fun line => start ≤ line.time.toNat)).map (replayed start) ∧
        InSequence DelayPDOInstance.time rows ∧ 2 < rows.length := by
  rw [fileText_eq (fun line member => (fits line member).some')] at written
  have clean : ∀ text ∈ lines.map (fun line => joined ' ' line.numbers), '\n' ∉ text := by
    intro text member
    obtain ⟨line, _, rfl⟩ := List.mem_map.mp member
    exact newline_not_mem line
  have kept := reduceOption_map_ite (fun line : OutputLine => start ≤ line.time.toNat)
    (replayed start) lines
  rw [← Except.ok.inj written, getLines_ofLines clean, readTrainTrace_eq_ok, List.mapM_map]
  have mapped := fun parsed => @mapM_eq_ok_iff OutputLine _ _
    (fun line => CellReplay.trainRecord filename start (joined ' ' line.numbers))
    (fun line => 0 ≤ line.oneWayMs)
    (fun line => if start ≤ line.time.toNat then some (line.replayed start) else none)
    lines parsed fun line member => (fits line member).trainRecord
  constructor
  · rintro ⟨⟨parsed, read, rfl, sorted⟩, many⟩
    obtain ⟨nonneg, rfl⟩ := (mapped parsed).mp read
    exact ⟨nonneg, kept, sorted, many⟩
  · rintro ⟨nonneg, rfl, sorted, many⟩
    exact ⟨⟨_, (mapped _).mpr ⟨nonneg, rfl⟩, kept.symm, sorted⟩, many⟩

/-- The numbers of the line are not past those types. -/
structure Small (line : OutputLine) : Prop where
  time : line.time < 2 ^ 63
  oneWayMs : -2 ^ 31 ≤ line.oneWayMs ∧ line.oneWayMs < 2 ^ 31
  pdos : ∀ pdo ∈ line.pdos, pdo < 2 ^ 31

end OutputLine

theorem PacketTrainTrace.load_eq_ok {filename : String} {start : Nat} {lines : List Text}
    {trace : PacketTrainTrace} : PacketTrainTrace.load filename start lines = .ok trace ↔
      readTrainTrace filename start lines = .ok trace.instances := by
  unfold load
  split
  · rename_i fault read
    simp [read]
  · rename_i rows read
    constructor
    · intro same
      rw [← Except.ok.inj same]
      exact read
    · intro same
      cases trace
      cases read.symm.trans same
      rfl

/-- A train that is not cut off is not before the base of the times. -/
theorem traceStart_le {up down : List LogRow} (logs : ExperimentLogs up down) {first : LogRow}
    (late : first ∈ lateTrains down) : traceStart down ≤ sinceFirst down first := by
  have ascending := lateTrains_ascending logs
  unfold traceStart
  cases trains : lateTrains down with
  | nil =>
      rw [trains] at late
      cases late
  | cons head rest =>
      rw [trains] at late ascending
      rcases List.mem_cons.mp late with same | after
      · rw [same]
        exact le_rfl
      · exact (List.pairwise_cons.mp ascending).1 first after

theorem RowsOf.time_nonneg {up down : List LogRow} {join : LogRow → Option TraceRow}
    {trace : List TraceRow} (rowsOf : RowsOf up down join trace) (logs : ExperimentLogs up down)
    {row : TraceRow} (member : row ∈ trace) : 0 ≤ row.timeColumn := by
  rw [rowsOf.rows] at member
  obtain ⟨first, late, made⟩ := List.mem_filterMap.mp member
  have nonneg : 0 ≤ row.time := by
    rw [(rowsOf.rowOf first late row made).time]
    exact double_nonneg (sub_nonneg.mpr (traceStart_le logs late))
  unfold TraceRow.timeColumn
  rw [trunc_of_nonneg nonneg]
  exact Int.floor_nonneg.mpr nonneg

/-- The lines of a trace file: times and PDOs are not negative, and the times are in order. -/
structure Written (lines : List OutputLine) : Prop where
  timeNonneg : ∀ line ∈ lines, 0 ≤ line.time
  ascending : (lines.map OutputLine.time).Pairwise (· ≤ ·)
  pdos : ∀ line ∈ lines, line.pdos.head? = some 0 ∧ line.pdos.Pairwise (· ≤ ·)

theorem writeTraceFiles_written {upLines : List LogLine} {downLines : List ClientLogLine}
    {files : TraceFiles} (logs : ExperimentLogs (upRows upLines) (downRows downLines))
    (written : writeTraceFiles upLines downLines = .ok files) :
    Written files.up ∧ Written files.down := by
  unfold writeTraceFiles at written
  rw [bind_eq_ok] at written
  obtain ⟨trace, generated, returned⟩ := written
  rw [← Except.ok.inj returned]
  obtain ⟨join, rowsOf⟩ := generateTrace_rowsOf generated logs
  have ascending := rowsOf.ascending logs
  constructor
  · refine ⟨?_, by rwa [List.map_map], ?_⟩
    · intro line member
      obtain ⟨row, inTrace, rfl⟩ := List.mem_map.mp member
      exact rowsOf.time_nonneg logs inTrace
    · intro line member
      obtain ⟨row, inTrace, rfl⟩ := List.mem_map.mp member
      obtain ⟨first, rowOf⟩ := rowsOf.row inTrace
      exact rowOf.up
  · refine ⟨?_, by rwa [List.map_map], ?_⟩
    · intro line member
      obtain ⟨row, inTrace, rfl⟩ := List.mem_map.mp member
      exact rowsOf.time_nonneg logs inTrace
    · intro line member
      obtain ⟨row, inTrace, rfl⟩ := List.mem_map.mp member
      obtain ⟨first, rowOf⟩ := rowsOf.row inTrace
      exact rowOf.down

theorem Written.fits {lines : List OutputLine} (written : Written lines)
    (small : ∀ line ∈ lines, line.Small) : ∀ line ∈ lines, line.Fits := by
  intro line member
  have ⟨starts, ascending⟩ := written.pdos line member
  obtain ⟨rest, shape⟩ := List.head?_eq_some_iff.mp starts
  refine ⟨⟨written.timeNonneg line member, (small line member).time⟩,
    (small line member).oneWayMs, ?_, by simp [shape]⟩
  intro pdo inside
  have below := (small line member).pdos pdo inside
  have nonneg : 0 ≤ pdo := by
    rw [shape] at ascending inside
    rcases List.mem_cons.mp inside with same | after
    · omega
    · exact (List.pairwise_cons.mp ascending).1 pdo after
  omega

theorem Written.inSequence {lines : List OutputLine} (written : Written lines) (start : Nat) :
    InSequence DelayPDOInstance.time
      ((lines.filter (fun line => start ≤ line.time.toNat)).map (OutputLine.replayed start)) := by
  unfold InSequence
  rw [List.pairwise_map]
  apply List.Pairwise.filter
  apply (List.pairwise_map.mp written.ascending).imp
  intro a b ordered
  unfold OutputLine.replayed
  dsimp only
  omega

/-- The emulator accepts a trace file that was written from two logs if and only if no delay in it
is negative and three lines at least are not before the start, and these are the rows that it
replays. -/
theorem replays_written_traces {upLines : List LogLine} {downLines : List ClientLogLine}
    {files : TraceFiles} {lines : List OutputLine}
    (logs : ExperimentLogs (upRows upLines) (downRows downLines))
    (written : writeTraceFiles upLines downLines = .ok files)
    (either : lines = files.up ∨ lines = files.down) (small : ∀ line ∈ lines, line.Small)
    (filename : String) (start : Nat) :
    ∃ file, OutputLine.fileText lines = .ok file ∧
      ((∃ trace, PacketTrainTrace.load filename start (getLines file) = .ok trace) ↔
        (∀ line ∈ lines, 0 ≤ line.oneWayMs) ∧
          2 < (lines.filter (fun line => start ≤ line.time.toNat)).length) ∧
      ∀ trace, PacketTrainTrace.load filename start (getLines file) = .ok trace →
        trace.instances = (lines.filter (fun line => start ≤ line.time.toNat)).map
          (OutputLine.replayed start) := by
  have shape : Written lines := by
    have ⟨up, down⟩ := writeTraceFiles_written logs written
    rcases either with rfl | rfl
    · exact up
    · exact down
  have fits := shape.fits small
  have text := OutputLine.fileText_eq fun line member => (fits line member).some'
  refine ⟨_, text, ⟨?_, ?_⟩, ?_⟩
  · rintro ⟨trace, loaded⟩
    have ⟨nonneg, rows, _, many⟩ := (OutputLine.readTrainTrace_fileText fits text).mp
      (PacketTrainTrace.load_eq_ok.mp loaded)
    rw [rows, List.length_map] at many
    exact ⟨nonneg, many⟩
  · rintro ⟨nonneg, many⟩
    have read : readTrainTrace filename start (getLines _) = .ok _ :=
      (OutputLine.readTrainTrace_fileText fits text).mpr
        ⟨nonneg, rfl, shape.inSequence start, by rwa [List.length_map]⟩
    have ⟨threeLines, rows⟩ := readTrainTrace_accepted read
    exact ⟨⟨_, threeLines, rows.nondecreasing, rows.representable, rows.delayed, rows.pdoRange⟩,
      PacketTrainTrace.load_eq_ok.mpr read⟩
  · intro trace loaded
    exact ((OutputLine.readTrainTrace_fileText fits text).mp
      (PacketTrainTrace.load_eq_ok.mp loaded)).2.1

/-- The down log of four trains, sent after 0 s, 2 s, 2.5 s and 3 s. -/
def fourTrainsDown : List ClientLogLine :=
  [.config 1, .packet ⟨0, 0, 0, 30000000⟩ 1400, .packet ⟨1, 0, 2000000000, 2030000000⟩ 1400,
    .packet ⟨2, 0, 2500000000, 2530000000⟩ 1400, .packet ⟨2, 1, 2500100000, 2533000000⟩ 1400,
    .packet ⟨3, 0, 3000000000, 3042000000⟩ 1400]

theorem replays_written_traces_fourTrains :
    ∃ files file trace, writeTraceFiles (upLogOf [0, 1, 2, 3]) fourTrainsDown = .ok files ∧
      OutputLine.fileText files.down = .ok file ∧
      PacketTrainTrace.load "down" 0 (getLines file) = .ok trace ∧
      trace.instances = [⟨0, 15, [0]⟩, ⟨500, 15, [0, 3]⟩, ⟨1000, 21, [0]⟩] := by
  have logs : ExperimentLogs (upRows (upLogOf [0, 1, 2, 3])) (downRows fourTrainsDown) :=
    ⟨by decide, by decide, by decide, by decide, by decide, by decide, by decide, by decide⟩
  have written : writeTraceFiles (upLogOf [0, 1, 2, 3]) fourTrainsDown =
      .ok ⟨[⟨0, 15, [0]⟩, ⟨500, 15, [0]⟩, ⟨1000, 21, [0]⟩],
        [⟨0, 15, [0]⟩, ⟨500, 15, [0, 3]⟩, ⟨1000, 21, [0]⟩]⟩ := by decide +kernel
  have small : ∀ line ∈ [⟨0, 15, [0]⟩, ⟨500, 15, [0, 3]⟩, ⟨1000, 21, [0]⟩],
      OutputLine.Small line := by
    simp only [List.forall_mem_cons]
    exact ⟨⟨by decide, by decide, by decide⟩, ⟨by decide, by decide, by decide⟩,
      ⟨by decide, by decide, by decide⟩, by simp⟩
  have ⟨file, text, accepted, rows⟩ :=
    replays_written_traces logs written (Or.inr rfl) small "down" 0
  have ⟨trace, loaded⟩ := accepted.mpr ⟨by decide, by decide⟩
  exact ⟨_, file, trace, written, text, loaded, rows trace loaded⟩

end CellReplay
