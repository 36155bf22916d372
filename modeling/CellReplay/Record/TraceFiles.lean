import CellReplay.Record.TraceProcessor

set_option autoImplicit false

namespace CellReplay

open Binary64 FueledLoop InsertionDict

/-- A line of a trace file. -/
structure OutputLine where
  time : Int
  oneWayMs : Int
  pdos : List Int
  deriving DecidableEq, Repr

/-- The two trace files, line by line. -/
structure TraceFiles where
  up : List OutputLine
  down : List OutputLine
  deriving DecidableEq, Repr

namespace TraceRow

/-- What `%d` writes of the time of a row. -/
def timeColumn (row : TraceRow) : Int := trunc row.time

def oneWayMs (row : TraceRow) : Int := trunc (double (row.rtt / 2))

def upLine (row : TraceRow) : OutputLine := ⟨row.timeColumn, row.oneWayMs, row.upPdos⟩

def downLine (row : TraceRow) : OutputLine := ⟨row.timeColumn, row.oneWayMs, row.downPdos⟩

end TraceRow

/-- The files that `main` writes. -/
def writeTraceFiles (upLines : List LogLine) (downLines : List ClientLogLine) :
    Except Fault TraceFiles := do
  let trace ← generateTrace upLines downLines
  return ⟨trace.map TraceRow.upLine, trace.map TraceRow.downLine⟩

namespace TraceFiles

/-- The files are aligned, they begin at time 0, and all their lists are sorted. -/
structure WellFormed (files : TraceFiles) : Prop where
  columns : files.up.map (fun line => (line.time, line.oneWayMs)) =
    files.down.map (fun line => (line.time, line.oneWayMs))
  starts : ∀ line, files.up.head? = some line → line.time = 0
  ascending : (files.up.map OutputLine.time).Pairwise (· ≤ ·)
  pdos : ∀ line ∈ files.up ++ files.down,
    line.pdos.head? = some 0 ∧ line.pdos.Pairwise (· ≤ ·)

end TraceFiles

/-- The rows of the first packets of the trains. -/
def firstPackets (rows : List LogRow) : List LogRow := rows.filter (fun row => row.seqId = 0)

/-- When the train of a row was sent, since the first train of the log. -/
def sinceFirst (rows : List LogRow) (row : LogRow) : ℚ :=
  Trains.inMs (row.sentTime - ((firstPackets rows).head?.map LogRow.sentTime).getD (-1))

/-- The train of a row, counted from the first train of the log. -/
def fromFirst (rows : List LogRow) (row : LogRow) : Int :=
  row.trainId - (firstTrain rows).getD (-1)

/-- The trains of the down log that are not cut off. -/
def lateTrains (down : List LogRow) : List LogRow :=
  (firstPackets down).filter (fun row => startTimeMs ≤ sinceFirst down row)

/-- A train of the down log is one of the up log. -/
def inUpLog (up down : List LogRow) (row : LogRow) : Bool :=
  (firstPackets up).any (fun answer => fromFirst up answer = fromFirst down row)

/-- The first train that makes a row was sent within a millisecond of the first train that is not
cut off. -/
def StartsAtRow (up down : List LogRow) : Prop :=
  ∀ first row, (lateTrains down).head? = some first →
    (lateTrains down).find? (inUpLog up down) = some row →
    double (sinceFirst down row - sinceFirst down first) < 1

/-- Two logs as the experiment writes them: a train's first packet is logged once, what is received
later is logged later, and so are the trains sent later. -/
structure ExperimentLogs (up down : List LogRow) : Prop where
  upCounted : ∀ row ∈ up, 0 ≤ row.trainId
  downCounted : ∀ row ∈ down, 0 ≤ row.trainId
  upReceived : (up.map LogRow.recvTime).Pairwise (· ≤ ·)
  downReceived : (down.map LogRow.recvTime).Pairwise (· ≤ ·)
  upOnce : ((firstPackets up).map LogRow.trainId).Nodup
  downOnce : ((firstPackets down).map LogRow.trainId).Nodup
  sentNonneg : ∀ row ∈ firstPackets down, 0 ≤ row.sentTime
  sent : ((firstPackets down).map LogRow.sentTime).Pairwise (· ≤ ·)

theorem inMs_mono {a b : Int} (ordered : a ≤ b) : Trains.inMs a ≤ Trains.inMs b := by
  unfold Trains.inMs
  apply double_mono
  have ordered' : (a : ℚ) ≤ b := by exact_mod_cast ordered
  exact div_le_div_of_nonneg_right (double_mono ordered') (by norm_num)

theorem toMs_mono {a b : Int} (ordered : a ≤ b) : Trains.toMs a ≤ Trains.toMs b :=
  trunc_mono (inMs_mono ordered)

theorem toMs_zero : Trains.toMs 0 = 0 := by
  unfold Trains.toMs Trains.inMs
  simp

section
variable {rows : List LogRow} {row : LogRow}

theorem firstPackets_snoc : firstPackets (rows ++ [row]) =
    firstPackets rows ++ if row.seqId = 0 then [row] else [] := by
  unfold firstPackets
  rw [List.filter_append]
  by_cases first : row.seqId = 0
  · simp [first]
  · simp [first]

theorem firstTrain_eq_firstPackets (rows : List LogRow) :
    firstTrain rows = (firstPackets rows).head?.map LogRow.trainId := by
  rw [firstTrain_eq_head?, List.head?_map]
  rfl

theorem firstPackets_subset (member : row ∈ firstPackets rows) : row ∈ rows :=
  List.mem_of_mem_filter member

/-- A train makes a probe if its first packet is logged, and only then. -/
theorem ofTrain_isSome (rows : List LogRow) (trainId : Int) :
    (Probe.ofTrain rows trainId).isSome ↔ ∃ row ∈ firstPackets rows, row.trainId = trainId := by
  induction rows using List.reverseRecOn with
  | nil => simp [Probe.ofTrain, firstPackets]
  | append_singleton rows row ih =>
      rw [Probe.ofTrain_snoc, firstPackets_snoc]
      unfold Probe.read
      by_cases first : row.seqId = 0
      · by_cases same : row.trainId = trainId
        · simp [first, same]
        · simp [first, same, ih]
      · by_cases same : row.trainId = trainId
        · simp [first, same, ih]
        · simp [first, same, ih]

/-- What the PDOs of a probe are while rows are received in order. -/
structure InOrder (rows : List LogRow) (p : Probe) : Prop where
  starts : p.pdos.head? = some 0
  ascending : p.pdos.Pairwise (· ≤ ·)
  arrived : ∀ now, (∀ row ∈ rows, row.recvTime ≤ now) → p.recvTime ≤ now
  passed : ∀ now, (∀ row ∈ rows, row.recvTime ≤ now) →
    ∀ pdo ∈ p.pdos, pdo ≤ Trains.toMs (now - p.recvTime)

theorem inOrder_first (row : LogRow) :
    InOrder (rows ++ [row]) ⟨row.sentTime, row.recvTime, [0]⟩ := by
  have arrived : ∀ now, (∀ r ∈ rows ++ [row], r.recvTime ≤ now) → row.recvTime ≤ now :=
    fun now past => past row (by simp)
  refine ⟨rfl, List.pairwise_singleton _ _, arrived, ?_⟩
  intro now past pdo member
  rw [List.mem_singleton.mp member, ← toMs_zero]
  exact toMs_mono (Int.sub_nonneg_of_le (arrived now past))

theorem InOrder.skip {p : Probe} (inOrder : InOrder rows p) : InOrder (rows ++ [row]) p := by
  refine ⟨inOrder.starts, inOrder.ascending, ?_, ?_⟩
  · intro now past
    exact inOrder.arrived now (fun r member => past r (List.mem_append_left _ member))
  · intro now past
    exact inOrder.passed now (fun r member => past r (List.mem_append_left _ member))

theorem InOrder.other {p : Probe} (inOrder : InOrder rows p)
    (last : ∀ r ∈ rows, r.recvTime ≤ row.recvTime) : InOrder (rows ++ [row])
      { p with pdos := p.pdos ++ [Trains.toMs (row.recvTime - p.recvTime)] } := by
  refine ⟨?_, ?_, ?_, ?_⟩
  · rw [List.head?_append, inOrder.starts]
    rfl
  · rw [List.pairwise_append]
    refine ⟨inOrder.ascending, List.pairwise_singleton _ _, ?_⟩
    intro pdo member pdo' member'
    rw [List.mem_singleton.mp member']
    exact inOrder.passed _ last pdo member
  · exact inOrder.skip.arrived
  · intro now past pdo member
    rcases List.mem_append.mp member with old | new
    · exact inOrder.skip.passed now past pdo old
    · rw [List.mem_singleton.mp new]
      exact toMs_mono (Int.sub_le_sub_right (past row (by simp)) _)

/-- Every probe of a log in order is in order. -/
theorem ofTrain_inOrder {trainId : Int} (received : (rows.map LogRow.recvTime).Pairwise (· ≤ ·)) :
    ∀ {p}, Probe.ofTrain rows trainId = some p → InOrder rows p := by
  induction rows using List.reverseRecOn with
  | nil =>
      intro p made
      cases made
  | append_singleton rows row ih =>
      intro p made
      rw [List.map_append, List.pairwise_append] at received
      have last : ∀ r ∈ rows, r.recvTime ≤ row.recvTime := fun r member =>
        received.2.2 _ (List.mem_map_of_mem member) _ (by simp)
      rw [Probe.ofTrain_snoc] at made
      split at made
      · unfold Probe.read at made
        split at made
        · rw [← Option.some.inj made]
          exact inOrder_first row
        · obtain ⟨before, made', rfl⟩ := Option.map_eq_some_iff.mp made
          exact (ih received.1 made').other last
      · exact (ih received.1 made).skip

end

/-- The times are those of the trains of the log, in their order. -/
structure DownTimes (rows : List LogRow) (d : DownTrains) : Prop where
  reads : DownReads rows d
  baseSendTime : d.baseSendTime = ((firstPackets rows).head?.map LogRow.sentTime).getD (-1)
  times : d.times.entries =
    (firstPackets rows).map (fun row => (fromFirst rows row, sinceFirst rows row))

section
variable {rows : List LogRow} {row : LogRow} {d : DownTrains}

theorem downTimes_init : DownTimes [] DownTrains.init := ⟨⟨reads_init, fun _ => rfl⟩, rfl, rfl⟩

theorem DownTimes.other (times : DownTimes rows d) (counted : 0 ≤ row.trainId)
    (other : row.seqId ≠ 0) : DownTimes (rows ++ [row]) (d.read row) := by
  have same : firstPackets (rows ++ [row]) = firstPackets rows := by
    rw [firstPackets_snoc, if_neg other, List.append_nil]
  have sameTrain : firstTrain (rows ++ [row]) = firstTrain rows := by
    rw [firstTrain_eq_firstPackets, firstTrain_eq_firstPackets, same]
  refine ⟨times.reads.read counted, ?_, ?_⟩
  · rw [same, ← times.baseSendTime]
    unfold DownTrains.read
    dsimp only
    rw [if_neg other]
  · unfold fromFirst sinceFirst
    rw [same, sameTrain]
    unfold DownTrains.read
    dsimp only
    rw [if_neg other]
    exact times.times

/-- The first train is at time 0 of the trace. -/
theorem DownTimes.first (times : DownTimes rows d) (counted : 0 ≤ row.trainId)
    (first : row.seqId = 0) (none : firstPackets rows = []) :
    DownTimes (rows ++ [row]) (d.read row) := by
  have packets : firstPackets (rows ++ [row]) = [row] := by
    rw [firstPackets_snoc, if_pos first, none]
    rfl
  have noTrain : firstTrain rows = .none := by
    rw [firstTrain_eq_firstPackets, none]
    rfl
  have baseTrainId := times.reads.trains.baseTrainId
  have baseSendTime := times.baseSendTime
  have entries := times.times
  rw [noTrain] at baseTrainId
  rw [none] at baseSendTime entries
  have after : d.read row = { d with
      trains := d.trains.readFirst row
      rtts := d.rtts.set (row.trainId - (d.trains.readFirst row).baseTrainId)
        (Trains.inMs (row.recvTime - row.sentTime))
      times := d.times.set (row.trainId - (d.trains.readFirst row).baseTrainId)
        (Trains.inMs (row.sentTime - row.sentTime))
      baseSendTime := row.sentTime } := by
    unfold DownTrains.read Trains.read
    dsimp only
    rw [if_pos first, if_pos first, if_pos (by rw [baseSendTime]; decide)]
  have base : (d.trains.readFirst row).baseTrainId = row.trainId := by
    unfold Trains.readFirst
    exact if_pos (by rw [baseTrainId]; decide)
  refine ⟨times.reads.read counted, ?_, ?_⟩
  · rw [after, packets]
    rfl
  · rw [after, base]
    unfold fromFirst sinceFirst
    rw [firstTrain_eq_firstPackets, packets]
    unfold Dict.set
    dsimp only
    rw [entries]
    rfl

/-- A train whose first packet was not logged before has no entry. -/
theorem DownTimes.fresh (times : DownTimes rows d) (first : row.seqId = 0)
    (once : ((firstPackets (rows ++ [row])).map LogRow.trainId).Nodup) :
    fromFirst rows row ∉ d.times.entries.map Prod.fst := by
  rw [times.times, List.map_map]
  intro member
  obtain ⟨r, member, same⟩ := List.mem_map.mp member
  rw [firstPackets_snoc, if_pos first, List.map_append, List.nodup_append] at once
  apply once.2.2 r.trainId (List.mem_map_of_mem member) row.trainId (by simp)
  simp only [Function.comp_apply, fromFirst] at same
  omega

/-- A later train moves neither base, and its entry goes to the end. -/
theorem DownTimes.next {head : LogRow} {rest : List LogRow} (times : DownTimes rows d)
    (counted : ∀ r ∈ rows ++ [row], 0 ≤ r.trainId) (first : row.seqId = 0)
    (some : firstPackets rows = head :: rest) (sentNonneg : 0 ≤ head.sentTime)
    (once : ((firstPackets (rows ++ [row])).map LogRow.trainId).Nodup) :
    DownTimes (rows ++ [row]) (d.read row) := by
  have packets : firstPackets (rows ++ [row]) = firstPackets rows ++ [row] := by
    rw [firstPackets_snoc, if_pos first]
  have train : firstTrain rows = .some head.trainId := by
    rw [firstTrain_eq_firstPackets, some]
    rfl
  have train' : firstTrain (rows ++ [row]) = .some head.trainId := by
    rw [firstTrain_eq_firstPackets, packets, some]
    rfl
  have baseTrainId := times.reads.trains.baseTrainId
  have baseSendTime := times.baseSendTime
  rw [train] at baseTrainId
  rw [some] at baseSendTime
  have headCounted : 0 ≤ head.trainId :=
    counted head (List.mem_append_left _ (firstPackets_subset (by rw [some]; simp)))
  have base : (d.trains.readFirst row).baseTrainId = head.trainId := by
    unfold Trains.readFirst
    dsimp only
    rw [baseTrainId, Option.getD_some, if_neg (by omega)]
  have after : d.read row = { d with
      trains := d.trains.readFirst row
      rtts := d.rtts.set (row.trainId - head.trainId) (Trains.inMs (row.recvTime - row.sentTime))
      times := d.times.set (row.trainId - head.trainId)
        (Trains.inMs (row.sentTime - head.sentTime))
      baseSendTime := head.sentTime } := by
    have sameSendTime : d.baseSendTime = head.sentTime := baseSendTime
    unfold DownTrains.read Trains.read
    dsimp only
    rw [if_pos first, if_pos first, base, sameSendTime, if_neg (by omega)]
  refine ⟨times.reads.read (counted row (by simp)), ?_, ?_⟩
  · rw [after, packets, some]
    rfl
  · have entries := times.times
    have sameTrain : fromFirst (rows ++ [row]) = fromFirst rows := by
      unfold fromFirst
      rw [train, train']
    have sameSince : sinceFirst (rows ++ [row]) = sinceFirst rows := by
      unfold sinceFirst
      rw [packets, some]
      rfl
    have fresh := times.fresh first once
    rw [fromFirst, train, Option.getD_some] at fresh
    rw [after, sameTrain, sameSince, packets]
    unfold Dict.set
    dsimp only
    rw [setEntry_new fresh, entries, List.map_append]
    unfold fromFirst sinceFirst
    rw [train, some]
    rfl

theorem DownTimes.read (times : DownTimes rows d) (counted : ∀ r ∈ rows ++ [row], 0 ≤ r.trainId)
    (sentNonneg : ∀ r ∈ firstPackets (rows ++ [row]), 0 ≤ r.sentTime)
    (once : ((firstPackets (rows ++ [row])).map LogRow.trainId).Nodup) :
    DownTimes (rows ++ [row]) (d.read row) := by
  by_cases first : row.seqId = 0
  · cases before : firstPackets rows with
    | nil => exact times.first (counted row (by simp)) first before
    | cons head rest =>
        apply times.next counted first before (sentNonneg head ?_) once
        rw [firstPackets_snoc, before]
        simp
  · exact times.other (counted row (by simp)) first

end

theorem processDownTrainFile_times (lines : List ClientLogLine)
    (counted : ∀ row ∈ downRows lines, 0 ≤ row.trainId)
    (sentNonneg : ∀ row ∈ firstPackets (downRows lines), 0 ≤ row.sentTime)
    (once : ((firstPackets (downRows lines)).map LogRow.trainId).Nodup) :
    DownTimes (downRows lines) (processDownTrainFile lines) := by
  induction lines using List.reverseRecOn with
  | nil => exact downTimes_init
  | append_singleton lines line ih =>
      rw [processDownTrainFile_snoc]
      have rows : downRows (lines ++ [line]) = downRows lines ++ line.row.toList := by
        unfold downRows
        rw [List.filterMap_append]
        cases line with
        | config senderId => rfl
        | packet row size => rfl
      rw [rows] at counted sentNonneg once ⊢
      have earlier : ∀ r ∈ firstPackets (downRows lines),
          r ∈ firstPackets (downRows lines ++ line.row.toList) := by
        intro r member
        unfold firstPackets at member ⊢
        rw [List.filter_append]
        exact List.mem_append_left _ member
      have before := ih (fun row member => counted row (List.mem_append_left _ member))
        (fun row member => sentNonneg row (earlier row member)) (by
          unfold firstPackets at once ⊢
          rw [List.filter_append, List.map_append] at once
          exact once.of_append_left)
      cases line with
      | config senderId =>
          rw [ClientLogLine.row, Option.toList_none, List.append_nil]
          exact ⟨⟨before.reads.trains, before.reads.rtts⟩, before.baseSendTime, before.times⟩
      | packet row size => exact before.read counted sentNonneg once

theorem processUpTrainFile_eq_ok (lines : List LogLine) {downSenderId : Option Int} :
    ∀ {t}, processUpTrainFile lines downSenderId = .ok t →
      (∀ row ∈ upRows lines, 0 ≤ row.trainId) → Reads (upRows lines) t := by
  induction lines using List.reverseRecOn with
  | nil =>
      intro t processed _
      cases processed
      exact reads_init
  | append_singleton lines line ih =>
      intro t processed counted
      unfold processUpTrainFile at processed ih
      rw [List.foldlM_append, bind_eq_ok] at processed
      obtain ⟨before, processed, last⟩ := processed
      rw [List.foldlM_cons, bind_eq_ok] at last
      obtain ⟨after, last, returned⟩ := last
      cases returned
      unfold upRows at counted ih ⊢
      rw [List.filterMap_append] at counted ⊢
      have reads := ih processed (fun row member => counted row (List.mem_append_left _ member))
      cases line with
      | config sender gapMs upNum downNum size =>
          unfold readUpLine at last
          rw [bind_eq_ok] at last
          obtain ⟨_, _, same⟩ := last
          cases same
          rwa [← List.append_nil (List.filterMap _ lines)] at reads
      | columns =>
          cases last
          rwa [← List.append_nil (List.filterMap _ lines)] at reads
      | packet trainNum seqNum sendTimestamp recvTimestamp sender size =>
          cases last
          exact reads.read (counted ⟨trainNum, seqNum, sendTimestamp, recvTimestamp⟩
            (by simp [LogLine.row]))

section
variable (rtts : Dict Int ℚ) (downPdos upPdos : Dict Int (List Int)) {startTimeMs : ℚ}

/-- The row of a train, if the train is in both logs. -/
def joinRow (traceStartTime : ℚ) (entry : Int × ℚ) : Option TraceRow :=
  match rtts.get? entry.1, downPdos.get? entry.1, upPdos.get? entry.1 with
  | some rtt, some down, some up =>
      some ⟨entry.1, double (entry.2 - traceStartTime), rtt, down, up⟩
  | _, _, _ => none

/-- Once the base of the times is set, every train is joined on it. -/
theorem foldl_cutTrain {traceStartTime : ℚ} (set : 0 ≤ traceStartTime) (rows : List TraceRow)
    (entries : List (Int × ℚ)) :
    entries.foldl (cutTrain rtts downPdos upPdos startTimeMs) (traceStartTime, rows) =
      (traceStartTime, rows ++ (entries.filter (fun entry => startTimeMs ≤ entry.2)).filterMap
        (joinRow rtts downPdos upPdos traceStartTime)) := by
  induction entries generalizing rows with
  | nil => simp
  | cons entry entries ih =>
      have turn : cutTrain rtts downPdos upPdos startTimeMs (traceStartTime, rows) entry =
          (traceStartTime, rows ++ if startTimeMs ≤ entry.2 then
            (joinRow rtts downPdos upPdos traceStartTime entry).toList else []) := by
        unfold cutTrain joinRow
        dsimp only
        rw [if_neg (not_lt.mpr set)]
        split
        · cases rtts.get? entry.1 with
          | none => simp
          | some rtt =>
              cases downPdos.get? entry.1 with
              | none => simp
              | some down =>
                  cases upPdos.get? entry.1 with
                  | none => simp
                  | some up => rfl
        · simp
      rw [List.foldl_cons, turn, ih, List.append_assoc]
      by_cases late : startTimeMs ≤ entry.2
      · cases joined : joinRow rtts downPdos upPdos traceStartTime entry with
        | none => simp [late, joined]
        | some row => simp [late, joined]
      · simp [late]

/-- The base of the times is the time of the first train that is not cut off. -/
theorem foldl_cutTrain_unset (nonneg : 0 ≤ startTimeMs) (entries : List (Int × ℚ)) :
    (entries.foldl (cutTrain rtts downPdos upPdos startTimeMs) (-1, [])).2 =
      (entries.filter (fun entry => startTimeMs ≤ entry.2)).filterMap
        (joinRow rtts downPdos upPdos (((entries.filter
          (fun entry => startTimeMs ≤ entry.2)).head?.map Prod.snd).getD (-1))) := by
  induction entries with
  | nil => rfl
  | cons entry entries ih =>
      rw [List.foldl_cons]
      by_cases late : startTimeMs ≤ entry.2
      · have turn : cutTrain rtts downPdos upPdos startTimeMs (-1, []) entry =
            cutTrain rtts downPdos upPdos startTimeMs (entry.2, []) entry := by
          unfold cutTrain
          dsimp only
          rw [if_neg (not_lt.mpr (le_trans nonneg late)), if_pos (by norm_num : (-1 : ℚ) < 0),
            if_pos late, if_pos late]
        have all : (entry :: entries).foldl (cutTrain rtts downPdos upPdos startTimeMs)
            (entry.2, []) = _ :=
          foldl_cutTrain rtts downPdos upPdos (le_trans nonneg late) [] (entry :: entries)
        rw [List.foldl_cons, ← turn] at all
        rw [all, List.filter_cons_of_pos (by simpa using late)]
        rfl
      · have turn : cutTrain rtts downPdos upPdos startTimeMs (-1, []) entry = (-1, []) := by
          unfold cutTrain
          exact if_neg late
        rw [turn, ih, List.filter_cons_of_neg (by simpa using late)]

end

/-- What the logs say of one row: it is of a train of the down log, on the base of the times. -/
structure RowOf (down : List LogRow) (traceStartTime : ℚ) (first : LogRow) (row : TraceRow) :
    Prop where
  time : row.time = double (sinceFirst down first - traceStartTime)
  up : row.upPdos.head? = some 0 ∧ row.upPdos.Pairwise (· ≤ ·)
  down : row.downPdos.head? = some 0 ∧ row.downPdos.Pairwise (· ≤ ·)

section
variable {up down : List LogRow} {d : DownTrains} {t : Trains} {first : LogRow}

/-- A train of the down log makes a row if it is in the up log, and only then. -/
theorem joinRow_of_logs (logs : ExperimentLogs up down) (upReads : Reads up t)
    (downReads : DownReads down d) (member : first ∈ firstPackets down) (traceStartTime : ℚ) :
    (inUpLog up down first = true ∧ ∃ row, joinRow d.rtts d.trains.pdos t.pdos traceStartTime
      (fromFirst down first, sinceFirst down first) = some row ∧
        RowOf down traceStartTime first row) ∨
    (inUpLog up down first = false ∧ joinRow d.rtts d.trains.pdos t.pdos traceStartTime
      (fromFirst down first, sinceFirst down first) = none) := by
  have downTrain : d.trains.baseTrainId + fromFirst down first = first.trainId := by
    rw [downReads.trains.baseTrainId]
    unfold fromFirst
    omega
  have downSome := (ofTrain_isSome down first.trainId).mpr ⟨first, member, rfl⟩
  obtain ⟨probe, made⟩ := Option.isSome_iff_exists.mp downSome
  have gotRtt := downReads.rtts (fromFirst down first)
  have gotDown := downReads.trains.pdos (fromFirst down first)
  have gotUp := upReads.pdos (fromFirst down first)
  rw [downTrain, made] at gotRtt gotDown
  have found : inUpLog up down first = true ↔
      (Probe.ofTrain up (t.baseTrainId + fromFirst down first)).isSome := by
    rw [ofTrain_isSome]
    unfold inUpLog
    rw [List.any_eq_true]
    apply exists_congr
    intro answer
    apply and_congr_right
    intro _
    rw [decide_eq_true_iff, upReads.baseTrainId]
    unfold fromFirst
    constructor
    · intro same
      omega
    · intro same
      omega
  unfold joinRow
  dsimp only
  rw [gotRtt, gotDown, gotUp]
  cases answered : Probe.ofTrain up (t.baseTrainId + fromFirst down first) with
  | none =>
      rw [answered] at found
      exact .inr ⟨by simpa using found, rfl⟩
  | some answer =>
      rw [answered] at found
      have upOrder := ofTrain_inOrder logs.upReceived answered
      have downOrder := ofTrain_inOrder logs.downReceived made
      exact .inl ⟨found.mpr rfl, _, rfl, rfl, ⟨upOrder.starts, upOrder.ascending⟩,
        ⟨downOrder.starts, downOrder.ascending⟩⟩

end

/-- The first result of a partial function is that of the first element it is defined on. -/
theorem head?_filterMap_eq {α β : Type} (f : α → Option β) (p : α → Bool) (l : List α)
    (defined : ∀ a ∈ l, p a = (f a).isSome) : (l.filterMap f).head? = (l.find? p).bind f := by
  induction l with
  | nil => rfl
  | cons a l ih =>
      have here := defined a (by simp)
      rw [List.filterMap_cons]
      cases value : f a with
      | none =>
          rw [value] at here
          rw [List.find?_cons_of_neg (by simp [here])]
          exact ih (fun b member => defined b (List.mem_cons_of_mem _ member))
      | some b =>
          rw [value] at here
          rw [List.find?_cons_of_pos (by simp [here]), Option.bind_some, value]
          rfl

/-- The base of the times of the rows: when the first train that is not cut off was sent. -/
def traceStart (down : List LogRow) : ℚ :=
  ((lateTrains down).head?.map (sinceFirst down)).getD (-1)

/-- The rows are those of the late trains that are in both logs. -/
structure RowsOf (up down : List LogRow) (join : LogRow → Option TraceRow)
    (trace : List TraceRow) : Prop where
  rows : trace = (lateTrains down).filterMap join
  answered : ∀ first ∈ lateTrains down, inUpLog up down first = (join first).isSome
  rowOf : ∀ first ∈ lateTrains down, ∀ row, join first = some row →
    RowOf down (traceStart down) first row

theorem generateTrace_rowsOf {upLines : List LogLine} {downLines : List ClientLogLine}
    {trace : List TraceRow} (generated : generateTrace upLines downLines = .ok trace)
    (logs : ExperimentLogs (upRows upLines) (downRows downLines)) :
    ∃ join, RowsOf (upRows upLines) (downRows downLines) join trace := by
  unfold generateTrace at generated
  dsimp only at generated
  rw [bind_eq_ok] at generated
  obtain ⟨t, processed, returned⟩ := generated
  have upReads := processUpTrainFile_eq_ok upLines processed logs.upCounted
  have times := processDownTrainFile_times downLines logs.downCounted logs.sentNonneg logs.downOnce
  generalize processDownTrainFile downLines = d at times returned
  generalize upRows upLines = up at logs upReads ⊢
  generalize downRows downLines = down at logs times ⊢
  have late : (d.times.entries.filter (fun entry => startTimeMs ≤ entry.2)) =
      (lateTrains down).map (fun row => (fromFirst down row, sinceFirst down row)) := by
    rw [times.times, List.filter_map]
    rfl
  have rows : trace = _ := (Except.ok.inj returned).symm
  unfold cutTrace at rows
  rw [foldl_cutTrain_unset _ _ _ (by unfold startTimeMs; norm_num), late, List.head?_map,
    Option.map_map, List.filterMap_map] at rows
  have joined := fun first (member : first ∈ lateTrains down) =>
    joinRow_of_logs logs upReads times.reads (List.mem_of_mem_filter member) (traceStart down)
  refine ⟨_, rows, ?_, ?_⟩
  · intro first member
    rcases joined first member with ⟨found, row, joined, _⟩ | ⟨lost, missing⟩
    · rw [found, Function.comp_apply]
      exact (congrArg Option.isSome joined).symm
    · rw [lost, Function.comp_apply]
      exact (congrArg Option.isSome missing).symm
  · intro first member row same
    rcases joined first member with ⟨_, row', joined, rowOf⟩ | ⟨_, missing⟩
    · rw [← Option.some.inj (joined.symm.trans same)]
      exact rowOf
    · cases missing.symm.trans same

theorem trunc_eq_zero_iff {x : ℚ} (nonneg : 0 ≤ x) : trunc x = 0 ↔ x < 1 := by
  rw [trunc_of_nonneg nonneg, Int.floor_eq_zero_iff, Set.mem_Ico]
  exact and_iff_right nonneg

/-- The trains of the down log are in the order of their times. -/
theorem lateTrains_ascending {up down : List LogRow} (logs : ExperimentLogs up down) :
    (lateTrains down).Pairwise (fun a b => sinceFirst down a ≤ sinceFirst down b) := by
  apply List.Pairwise.filter
  apply (List.pairwise_map.mp logs.sent).imp
  intro a b earlier
  exact inMs_mono (Int.sub_le_sub_right earlier _)

section
variable {up down : List LogRow} {join : LogRow → Option TraceRow} {trace : List TraceRow}

theorem RowsOf.row (rowsOf : RowsOf up down join trace) {row : TraceRow} (member : row ∈ trace) :
    ∃ first, RowOf down (traceStart down) first row := by
  rw [rowsOf.rows] at member
  obtain ⟨first, late, made⟩ := List.mem_filterMap.mp member
  exact ⟨first, rowsOf.rowOf first late row made⟩

theorem RowsOf.head? (rowsOf : RowsOf up down join trace) :
    trace.head? = ((lateTrains down).find? (inUpLog up down)).bind join := by
  rw [rowsOf.rows]
  exact head?_filterMap_eq join _ _ rowsOf.answered

/-- The first row is at time 0 if its train was sent within a millisecond of the base. -/
theorem RowsOf.starts_iff (rowsOf : RowsOf up down join trace) (logs : ExperimentLogs up down) :
    (∀ line, (trace.map TraceRow.upLine).head? = some line → line.time = 0) ↔
      StartsAtRow up down := by
  rw [List.head?_map, rowsOf.head?]
  unfold StartsAtRow
  cases found : (lateTrains down).find? (inUpLog up down) with
  | none => simp
  | some row =>
      have member := List.mem_of_find?_eq_some found
      have answered := rowsOf.answered row member
      have isSome : inUpLog up down row = true := List.find?_some found
      rw [isSome] at answered
      obtain ⟨line, made⟩ := Option.isSome_iff_exists.mp answered.symm
      have time := (rowsOf.rowOf row member line made).time
      have ascending := lateTrains_ascending logs
      unfold traceStart at time
      cases late : lateTrains down with
      | nil =>
          rw [late] at member
          cases member
      | cons first rest =>
          rw [late] at time ascending member
          have later : sinceFirst down first ≤ sinceFirst down row := by
            rcases List.mem_cons.mp member with same | after
            · rw [same]
            · exact (List.pairwise_cons.mp ascending).1 row after
          have column : line.timeColumn = 0 ↔
              double (sinceFirst down row - sinceFirst down first) < 1 := by
            unfold TraceRow.timeColumn
            rw [time]
            exact trunc_eq_zero_iff (double_nonneg (sub_nonneg.mpr later))
          rw [Option.bind_some, made]
          constructor
          · intro zero first' row' same same'
            cases same
            cases same'
            exact column.mp (zero _ rfl)
          · intro within line' same
            cases same
            exact column.mpr (within first row rfl rfl)

theorem RowsOf.ascending (rowsOf : RowsOf up down join trace) (logs : ExperimentLogs up down) :
    (trace.map TraceRow.timeColumn).Pairwise (· ≤ ·) := by
  rw [List.pairwise_map, rowsOf.rows, List.pairwise_filterMap]
  apply (lateTrains_ascending logs).imp_of_mem
  intro a b inA inB earlier row made row' made'
  unfold TraceRow.timeColumn
  rw [(rowsOf.rowOf a inA row made).time, (rowsOf.rowOf b inB row' made').time]
  exact trunc_mono (double_mono (sub_le_sub_right earlier _))

end

/-- The trace files are well formed if and only if the first train that makes a row was sent within
a millisecond of the first train that is not cut off. -/
theorem writeTraceFiles_wellFormed_iff {upLines : List LogLine} {downLines : List ClientLogLine}
    {files : TraceFiles} (logs : ExperimentLogs (upRows upLines) (downRows downLines))
    (written : writeTraceFiles upLines downLines = .ok files) :
    files.WellFormed ↔ StartsAtRow (upRows upLines) (downRows downLines) := by
  unfold writeTraceFiles at written
  rw [bind_eq_ok] at written
  obtain ⟨trace, generated, returned⟩ := written
  rw [← Except.ok.inj returned]
  obtain ⟨join, rowsOf⟩ := generateTrace_rowsOf generated logs
  constructor
  · intro wellFormed
    exact (rowsOf.starts_iff logs).mp wellFormed.starts
  · intro startsAtRow
    refine ⟨?_, (rowsOf.starts_iff logs).mpr startsAtRow, ?_, ?_⟩
    · rw [List.map_map, List.map_map]
      rfl
    · rw [List.map_map]
      exact rowsOf.ascending logs
    · intro line member
      rcases List.mem_append.mp member with member | member
      · obtain ⟨row, inTrace, rfl⟩ := List.mem_map.mp member
        obtain ⟨first, rowOf⟩ := rowsOf.row inTrace
        exact rowOf.up
      · obtain ⟨row, inTrace, rfl⟩ := List.mem_map.mp member
        obtain ⟨first, rowOf⟩ := rowsOf.row inTrace
        exact rowOf.down

/-- The down log of three trains, sent after 0 s, 2 s and 2.5 s. -/
def threeTrainsDown : List ClientLogLine :=
  [.config 1, .packet ⟨0, 0, 0, 30000000⟩ 1400, .packet ⟨0, 1, 100000, 30500000⟩ 1400,
    .packet ⟨1, 0, 2000000000, 2030000000⟩ 1400, .packet ⟨2, 0, 2500000000, 2530000000⟩ 1400,
    .packet ⟨2, 1, 2500100000, 2533000000⟩ 1400]

/-- The up log of the trains named. -/
def upLogOf (trains : List Int) : List LogLine :=
  .config 1 500 2 2 1400 :: .columns ::
    trains.map (fun train =>
      .packet train 0 (500000000 * train) (500000000 * train + 15000000) 1 1400)

theorem writeTraceFiles_wellFormed_iff_nothingLost :
    ∃ files, writeTraceFiles (upLogOf [0, 1, 2]) threeTrainsDown = .ok files ∧
      files.WellFormed := by
  have logs : ExperimentLogs (upRows (upLogOf [0, 1, 2])) (downRows threeTrainsDown) :=
    ⟨by decide, by decide, by decide, by decide, by decide, by decide, by decide, by decide⟩
  refine ⟨_, rfl, (writeTraceFiles_wellFormed_iff logs rfl).mpr ?_⟩
  have start : (lateTrains (downRows threeTrainsDown)).head? =
      some ⟨1, 0, 2000000000, 2030000000⟩ := by decide +kernel
  have joined : (lateTrains (downRows threeTrainsDown)).find?
      (inUpLog (upRows (upLogOf [0, 1, 2])) (downRows threeTrainsDown)) =
        some ⟨1, 0, 2000000000, 2030000000⟩ := by decide +kernel
  intro first row isFirst isRow
  cases start.symm.trans isFirst
  cases joined.symm.trans isRow
  simp

/-- The train sent after 2 s is lost on the way up, and the trace begins at 500 ms. -/
theorem not_writeTraceFiles_wellFormed :
    ExperimentLogs (upRows (upLogOf [0, 2])) (downRows threeTrainsDown) ∧
      ∃ files, writeTraceFiles (upLogOf [0, 2]) threeTrainsDown = .ok files ∧
        files = ⟨[⟨500, 15, [0]⟩], [⟨500, 15, [0, 3]⟩]⟩ ∧ ¬ files.WellFormed := by
  refine ⟨⟨by decide, by decide, by decide, by decide, by decide, by decide, by decide,
    by decide⟩, _, rfl, by decide +kernel, ?_⟩
  intro wellFormed
  have zero := wellFormed.starts ⟨500, 15, [0]⟩ (by decide +kernel)
  exact absurd zero (by decide)

end CellReplay
