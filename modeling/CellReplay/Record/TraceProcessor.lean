import CellReplay.Lib.Binary64
import CellReplay.Lib.InsertionDict
import CellReplay.Record.PacketTrainServer

set_option autoImplicit false

namespace CellReplay

open Binary64 FueledLoop InsertionDict

/-- The columns of a packet log that the trace processor reads. -/
structure LogRow where
  trainId : Int
  seqId : Int
  sentTime : Int
  recvTime : Int
  deriving DecidableEq, Repr

/-- A line of the packet log of a client. -/
inductive ClientLogLine where
  | config (senderId : Int)
  | packet (row : LogRow) (packetSize : Int)
  deriving DecidableEq, Repr

/-- The columns of a packet line of the server's log. -/
def LogLine.row : LogLine → Option LogRow
  | .packet trainNum seqNum sendTimestamp recvTimestamp _ _ =>
      some ⟨trainNum, seqNum, sendTimestamp, recvTimestamp⟩
  | _ => none

def ClientLogLine.row : ClientLogLine → Option LogRow
  | .packet row _ => some row
  | .config _ => none

/-- The variables that both files are processed with. -/
structure Trains where
  pdos : Dict Int (List Int)
  firstPacketRecvTime : Dict Int Int
  baseTrainId : Int

/-- The variables that the down file is processed with. -/
structure DownTrains where
  trains : Trains
  rtts : Dict Int ℚ
  times : Dict Int ℚ
  baseSendTime : Int
  senderId : Option Int

namespace Trains

def init : Trains := ⟨Dict.empty, Dict.empty, -1⟩

/-- A time in ns as ms, a quotient of floating-point numbers. -/
def inMs (time : Int) : ℚ := double (double time / 10 ^ 6)

def toMs (time : Int) : Int := trunc (inMs time)

/-- The first packet of a train. -/
def readFirst (row : LogRow) (t : Trains) : Trains :=
  let baseTrainId := if t.baseTrainId < 0 then row.trainId else t.baseTrainId
  let trainId := row.trainId - baseTrainId
  ⟨t.pdos.set trainId [0], t.firstPacketRecvTime.set trainId row.recvTime, baseTrainId⟩

/-- Another packet of a train. -/
def readOther (row : LogRow) (t : Trains) : Trains :=
  let trainId := row.trainId - t.baseTrainId
  match t.firstPacketRecvTime.get? trainId, t.pdos.get? trainId with
  | some first, some pdos =>
      { t with pdos := t.pdos.set trainId (pdos ++ [toMs (row.recvTime - first)]) }
  | _, _ => t

def read (t : Trains) (row : LogRow) : Trains :=
  if row.seqId = 0 then t.readFirst row else t.readOther row

end Trains

namespace DownTrains

def init : DownTrains := ⟨Trains.init, Dict.empty, Dict.empty, -1, none⟩

def read (d : DownTrains) (row : LogRow) : DownTrains :=
  let trains := d.trains.read row
  if row.seqId = 0 then
    let baseSendTime := if d.baseSendTime < 0 then row.sentTime else d.baseSendTime
    let trainId := row.trainId - trains.baseTrainId
    { d with
      trains := trains
      rtts := d.rtts.set trainId (Trains.inMs (row.recvTime - row.sentTime))
      times := d.times.set trainId (Trains.inMs (row.sentTime - baseSendTime))
      baseSendTime := baseSendTime }
  else { d with trains := trains }

def readLine (d : DownTrains) : ClientLogLine → DownTrains
  | .config senderId => { d with senderId := some senderId }
  | .packet row _ => d.read row

end DownTrains

def processDownTrainFile (lines : List ClientLogLine) : DownTrains :=
  lines.foldl DownTrains.readLine DownTrains.init

/-- A line of the up file; its header must name the sender of the down file. -/
def readUpLine (downSenderId : Option Int) (t : Trains) : LogLine → Except Fault Trains
  | .config senderId _ _ _ _ => do
      check "down_sender_id == sender_id" (downSenderId == some senderId)
      return t
  | .columns => .ok t
  | .packet trainNum seqNum sendTimestamp recvTimestamp _ _ =>
      .ok (t.read ⟨trainNum, seqNum, sendTimestamp, recvTimestamp⟩)

def processUpTrainFile (lines : List LogLine) (downSenderId : Option Int) : Except Fault Trains :=
  lines.foldlM (readUpLine downSenderId) Trains.init

/-- What the lists that `cut_trace` returns hold at one place, with the train it is about. -/
structure TraceRow where
  trainId : Int
  time : ℚ
  rtt : ℚ
  downPdos : List Int
  upPdos : List Int
  deriving DecidableEq

/-- One turn of the loop of `cut_trace` over `times`. -/
def cutTrain (rtts : Dict Int ℚ) (downPdos upPdos : Dict Int (List Int)) (startTimeMs : ℚ)
    (cut : ℚ × List TraceRow) (entry : Int × ℚ) : ℚ × List TraceRow :=
  if startTimeMs ≤ entry.2 then
    let traceStartTime := if cut.1 < 0 then entry.2 else cut.1
    match rtts.get? entry.1, downPdos.get? entry.1, upPdos.get? entry.1 with
    | some rtt, some down, some up =>
        (traceStartTime, cut.2 ++ [⟨entry.1, double (entry.2 - traceStartTime), rtt, down, up⟩])
    | _, _, _ => (traceStartTime, cut.2)
  else cut

def cutTrace (times rtts : Dict Int ℚ) (downPdos upPdos : Dict Int (List Int)) (startTimeMs : ℚ) :
    List TraceRow :=
  (times.entries.foldl (cutTrain rtts downPdos upPdos startTimeMs) (-1, [])).2

def startTimeMs : ℚ := 2000

/-- The rows of the two trace files that `main` writes. -/
def generateTrace (upLines : List LogLine) (downLines : List ClientLogLine) :
    Except Fault (List TraceRow) := do
  let down := processDownTrainFile downLines
  let up ← processUpTrainFile upLines down.senderId
  return cutTrace down.times down.rtts down.trains.pdos up.pdos startTimeMs

/-- What the rows of one train tell: the times of its first packet, and when its other packets
arrived. -/
structure Probe where
  sentTime : Int
  recvTime : Int
  pdos : List Int
  deriving DecidableEq, Repr

namespace Probe

def rtt (p : Probe) : ℚ := Trains.inMs (p.recvTime - p.sentTime)

def read (probe : Option Probe) (row : LogRow) : Option Probe :=
  if row.seqId = 0 then some ⟨row.sentTime, row.recvTime, [0]⟩
  else probe.map (fun p => { p with pdos := p.pdos ++ [Trains.toMs (row.recvTime - p.recvTime)] })

/-- The probe that the rows of a train make, whatever rows stand between them. -/
def ofTrain (rows : List LogRow) (trainId : Int) : Option Probe :=
  (rows.filter (fun row => row.trainId = trainId)).foldl read none

theorem ofTrain_snoc (rows : List LogRow) (row : LogRow) (trainId : Int) :
    ofTrain (rows ++ [row]) trainId =
      if row.trainId = trainId then read (ofTrain rows trainId) row else ofTrain rows trainId := by
  unfold ofTrain
  rw [List.filter_append, List.foldl_append]
  by_cases same : row.trainId = trainId
  · simp [same]
  · simp [same]

/-- A packet that is not the first of its train leaves what the first one told. -/
theorem map_ofTrain_other {β : Type} {rows : List LogRow} {row : LogRow} (other : row.seqId ≠ 0)
    (f : Probe → β) (blind : ∀ p pdos, f { p with pdos := pdos } = f p) (trainId : Int) :
    (ofTrain (rows ++ [row]) trainId).map f = (ofTrain rows trainId).map f := by
  rw [ofTrain_snoc]
  split
  · unfold read
    rw [if_neg other, Option.map_map]
    apply congrArg (fun f => Option.map f _)
    funext p
    exact blind p _
  · rfl

end Probe

/-- The train of the first row that is of the first packet of a train. -/
def firstTrain (rows : List LogRow) : Option Int :=
  (rows.find? (fun row => row.seqId = 0)).map LogRow.trainId

theorem firstTrain_snoc (rows : List LogRow) (row : LogRow) : firstTrain (rows ++ [row]) =
    (firstTrain rows).or (if row.seqId = 0 then some row.trainId else none) := by
  unfold firstTrain
  rw [List.find?_append]
  cases rows.find? (fun row => decide (row.seqId = 0)) with
  | some first => rfl
  | none =>
      by_cases first : row.seqId = 0
      · simp [first]
      · simp [first]

theorem firstTrain_eq_head? (rows : List LogRow) :
    firstTrain rows = ((rows.filter (fun row => row.seqId = 0)).map LogRow.trainId).head? := by
  unfold firstTrain
  rw [List.head?_map, List.head?_filter]

/-- Before its first packet is logged, a train makes no probe. -/
theorem ofTrain_eq_none {rows : List LogRow} {trainId : Int}
    (absent : ∀ row ∈ rows, row.seqId = 0 → row.trainId ≠ trainId) :
    Probe.ofTrain rows trainId = none := by
  induction rows using List.reverseRecOn with
  | nil => rfl
  | append_singleton rows row ih =>
      rw [Probe.ofTrain_snoc, ih (fun row member => absent row (List.mem_append_left _ member))]
      split
      · rename_i same
        unfold Probe.read
        rw [if_neg (fun first => absent row (by simp) first same)]
        rfl
      · rfl

theorem ofTrain_eq_none_of_firstTrain {rows : List LogRow} (found : firstTrain rows = none)
    (trainId : Int) : Probe.ofTrain rows trainId = none := by
  apply ofTrain_eq_none
  intro row member first
  have none := List.find?_eq_none.mp (Option.map_eq_none_iff.mp found) row member
  simp [first] at none

/-- The variables hold, for each train counted from the first one, the probe its rows make. -/
structure Reads (rows : List LogRow) (t : Trains) : Prop where
  counted : ∀ first, firstTrain rows = some first → 0 ≤ first
  baseTrainId : t.baseTrainId = (firstTrain rows).getD (-1)
  pdos : ∀ k, t.pdos.get? k = (Probe.ofTrain rows (t.baseTrainId + k)).map Probe.pdos
  firstPacketRecvTime : ∀ k, t.firstPacketRecvTime.get? k =
    (Probe.ofTrain rows (t.baseTrainId + k)).map Probe.recvTime

theorem reads_init : Reads [] Trains.init := by
  refine ⟨?_, rfl, fun _ => rfl, fun _ => rfl⟩
  intro first found
  cases found

section
variable {rows : List LogRow} {row : LogRow} {t : Trains}

/-- The first packet of the first train moves the base, while there is no probe to move. -/
theorem Reads.rebase (reads : Reads rows t) (first : row.seqId = 0) (positive : 0 ≤ row.trainId) :
    firstTrain (rows ++ [row]) = some (t.readFirst row).baseTrainId ∧
      0 ≤ (t.readFirst row).baseTrainId ∧
      ∀ k, Probe.ofTrain rows (t.baseTrainId + k) =
        Probe.ofTrain rows ((t.readFirst row).baseTrainId + k) := by
  rw [firstTrain_snoc, if_pos first]
  unfold Trains.readFirst
  dsimp only
  rw [reads.baseTrainId]
  cases found : firstTrain rows with
  | none =>
      refine ⟨rfl, positive, ?_⟩
      intro k
      rw [ofTrain_eq_none_of_firstTrain found, ofTrain_eq_none_of_firstTrain found]
  | some train =>
      have counted := reads.counted train found
      have base : (if train < 0 then row.trainId else train) = train :=
        if_neg (Int.not_lt.mpr counted)
      rw [Option.getD_some, base]
      exact ⟨rfl, counted, fun _ => rfl⟩

theorem Reads.probe_first (reads : Reads rows t) (first : row.seqId = 0)
    (positive : 0 ≤ row.trainId) (k : Int) :
    Probe.ofTrain (rows ++ [row]) ((t.readFirst row).baseTrainId + k) =
      if row.trainId - (t.readFirst row).baseTrainId = k then
        some ⟨row.sentTime, row.recvTime, [0]⟩
      else Probe.ofTrain rows (t.baseTrainId + k) := by
  obtain ⟨_, _, moved⟩ := reads.rebase first positive
  rw [Probe.ofTrain_snoc, moved]
  unfold Probe.read
  rw [if_pos first]
  exact if_congr (by omega) rfl rfl

theorem Reads.first (reads : Reads rows t) (first : row.seqId = 0) (positive : 0 ≤ row.trainId) :
    Reads (rows ++ [row]) (t.readFirst row) := by
  obtain ⟨found, counted, _⟩ := reads.rebase first positive
  refine ⟨?_, ?_, ?_, ?_⟩
  · intro train same
    rw [found] at same
    rw [← Option.some.inj same]
    exact counted
  · rw [found]
    rfl
  · intro k
    rw [reads.probe_first first positive, apply_ite (Option.map Probe.pdos), ← reads.pdos]
    exact Dict.get?_set _ _ _ _
  · intro k
    rw [reads.probe_first first positive, apply_ite (Option.map Probe.recvTime),
      ← reads.firstPacketRecvTime]
    exact Dict.get?_set _ _ _ _

/-- Another packet moves neither the base nor the time of a first packet. -/
theorem readOther_same (row : LogRow) (t : Trains) :
    (t.readOther row).baseTrainId = t.baseTrainId ∧
      (t.readOther row).firstPacketRecvTime = t.firstPacketRecvTime := by
  unfold Trains.readOther
  dsimp only
  split
  · exact ⟨rfl, rfl⟩
  · exact ⟨rfl, rfl⟩

theorem Reads.readOther_pdos (reads : Reads rows t) (other : row.seqId ≠ 0) (k : Int) :
    (t.readOther row).pdos.get? k =
      (Probe.ofTrain (rows ++ [row]) (t.baseTrainId + k)).map Probe.pdos := by
  have here : t.baseTrainId + (row.trainId - t.baseTrainId) = row.trainId := by omega
  have pdos := reads.pdos (row.trainId - t.baseTrainId)
  have firstPacketRecvTime := reads.firstPacketRecvTime (row.trainId - t.baseTrainId)
  rw [here] at pdos firstPacketRecvTime
  have probe : Probe.ofTrain (rows ++ [row]) (t.baseTrainId + k) =
      if row.trainId - t.baseTrainId = k then Probe.read (Probe.ofTrain rows row.trainId) row
      else Probe.ofTrain rows (t.baseTrainId + k) := by
    rw [Probe.ofTrain_snoc]
    by_cases same : row.trainId = t.baseTrainId + k
    · rw [if_pos same, if_pos (by omega), ← same]
    · rw [if_neg same, if_neg (by omega)]
  rw [probe, apply_ite (Option.map Probe.pdos), ← reads.pdos]
  unfold Trains.readOther Probe.read
  dsimp only
  rw [if_neg other, pdos, firstPacketRecvTime]
  cases made : Probe.ofTrain rows row.trainId with
  | none =>
      simp only [Option.map_none]
      split
      · rename_i same
        rw [← same, pdos, made]
        rfl
      · rfl
  | some p =>
      simp only [Option.map_some]
      exact Dict.get?_set _ _ _ _

theorem Reads.other (reads : Reads rows t) (other : row.seqId ≠ 0) :
    Reads (rows ++ [row]) (t.readOther row) := by
  have found : firstTrain (rows ++ [row]) = firstTrain rows := by
    rw [firstTrain_snoc, if_neg other, Option.or_none]
  obtain ⟨base, recvTime⟩ := readOther_same row t
  refine ⟨?_, ?_, ?_, ?_⟩
  · rw [found]
    exact reads.counted
  · rw [base, found]
    exact reads.baseTrainId
  · intro k
    rw [base]
    exact reads.readOther_pdos other k
  · intro k
    rw [base, recvTime, Probe.map_ofTrain_other other Probe.recvTime (fun _ _ => rfl)]
    exact reads.firstPacketRecvTime k

/-- Of each row the variables keep track. -/
theorem Reads.read (reads : Reads rows t) (positive : 0 ≤ row.trainId) :
    Reads (rows ++ [row]) (t.read row) := by
  unfold Trains.read
  split
  · exact reads.first (by assumption) positive
  · exact reads.other (by assumption)

/-- The PDOs of a train are those of its probe, counted from the first train. -/
theorem Reads.get?_pdos (reads : Reads rows t) {k : Int} {pdos : List Int}
    (got : t.pdos.get? k = some pdos) : ∃ first, firstTrain rows = some first ∧
      t.baseTrainId = first ∧ (Probe.ofTrain rows (first + k)).map Probe.pdos = some pdos := by
  rw [reads.pdos] at got
  cases found : firstTrain rows with
  | none =>
      rw [ofTrain_eq_none_of_firstTrain found] at got
      cases got
  | some first =>
      have base : t.baseTrainId = first := by
        rw [reads.baseTrainId, found]
        rfl
      rw [base] at got
      exact ⟨first, rfl, base, got⟩

end

/-- Also the round-trip times are those of the probes. -/
structure DownReads (rows : List LogRow) (d : DownTrains) : Prop where
  trains : Reads rows d.trains
  rtts : ∀ k, d.rtts.get? k = (Probe.ofTrain rows (d.trains.baseTrainId + k)).map Probe.rtt

theorem DownReads.read {rows : List LogRow} {row : LogRow} {d : DownTrains}
    (reads : DownReads rows d) (positive : 0 ≤ row.trainId) :
    DownReads (rows ++ [row]) (d.read row) := by
  unfold DownTrains.read Trains.read
  dsimp only
  by_cases first : row.seqId = 0
  · rw [if_pos first, if_pos first]
    refine ⟨reads.trains.first first positive, ?_⟩
    intro k
    rw [reads.trains.probe_first first positive, apply_ite (Option.map Probe.rtt), ← reads.rtts]
    exact Dict.get?_set _ _ _ _
  · rw [if_neg first, if_neg first]
    refine ⟨reads.trains.other first, ?_⟩
    intro k
    rw [(readOther_same row d.trains).1, Probe.map_ofTrain_other first Probe.rtt (fun _ _ => rfl)]
    exact reads.rtts k

/-- The rows of a packet log. -/
def upRows (lines : List LogLine) : List LogRow := lines.filterMap LogLine.row
def downRows (lines : List ClientLogLine) : List LogRow := lines.filterMap ClientLogLine.row

theorem processDownTrainFile_snoc (lines : List ClientLogLine) (line : ClientLogLine) :
    processDownTrainFile (lines ++ [line]) = (processDownTrainFile lines).readLine line := by
  unfold processDownTrainFile
  rw [List.foldl_append]
  rfl

theorem processDownTrainFile_reads (lines : List ClientLogLine)
    (positive : ∀ row ∈ downRows lines, 0 ≤ row.trainId) :
    DownReads (downRows lines) (processDownTrainFile lines) := by
  induction lines using List.reverseRecOn with
  | nil => exact ⟨reads_init, fun _ => rfl⟩
  | append_singleton lines line ih =>
      unfold downRows at positive ih ⊢
      rw [List.filterMap_append] at positive ⊢
      rw [processDownTrainFile_snoc]
      have before := ih (fun row member => positive row (List.mem_append_left _ member))
      cases line with
      | config senderId =>
          simp only [List.filterMap_cons, ClientLogLine.row, List.filterMap_nil, List.append_nil]
          exact ⟨before.trains, before.rtts⟩
      | packet row size => exact before.read (positive row (by simp [ClientLogLine.row]))

/-- A header of a log file names the sender. -/
def LogLine.Names (senderId : Int) : LogLine → Prop
  | .config named _ _ _ _ => named = senderId
  | _ => True

theorem processUpTrainFile_reads (lines : List LogLine) {senderId : Int}
    (names : ∀ line ∈ lines, line.Names senderId)
    (positive : ∀ row ∈ upRows lines, 0 ≤ row.trainId) :
    ∃ t, processUpTrainFile lines (some senderId) = .ok t ∧ Reads (upRows lines) t := by
  induction lines using List.reverseRecOn with
  | nil => exact ⟨Trains.init, rfl, reads_init⟩
  | append_singleton lines line ih =>
      unfold upRows at positive ih ⊢
      rw [List.filterMap_append] at positive ⊢
      obtain ⟨t, processed, before⟩ := ih (fun line member =>
        names line (List.mem_append_left _ member))
        (fun row member => positive row (List.mem_append_left _ member))
      have next : processUpTrainFile (lines ++ [line]) (some senderId) =
          readUpLine (some senderId) t line := by
        unfold processUpTrainFile at processed ⊢
        rw [List.foldlM_append, processed]
        simp only [List.foldlM_cons, List.foldlM_nil, bind_pure]
        rfl
      rw [next]
      have named := names line (by simp)
      cases line with
      | config sender gapMs upNum downNum size =>
          have same : sender = senderId := named
          refine ⟨t, ?_, by rwa [← List.append_nil (List.filterMap _ lines)] at before⟩
          unfold readUpLine
          rw [same]
          simp [check, bind, Except.bind, pure, Except.pure]
      | columns => exact ⟨t, rfl, by rwa [← List.append_nil (List.filterMap _ lines)] at before⟩
      | packet trainNum seqNum sendTimestamp recvTimestamp sender size =>
          refine ⟨_, rfl,
            before.read (positive ⟨trainNum, seqNum, sendTimestamp, recvTimestamp⟩ ?_)⟩
          simp [LogLine.row]

/-- What a row is cut from. -/
def Cut (rtts : Dict Int ℚ) (downPdos upPdos : Dict Int (List Int)) (row : TraceRow) : Prop :=
  rtts.get? row.trainId = some row.rtt ∧ downPdos.get? row.trainId = some row.downPdos ∧
    upPdos.get? row.trainId = some row.upPdos

theorem cutTrain_cut {rtts : Dict Int ℚ} {downPdos upPdos : Dict Int (List Int)} {startTimeMs : ℚ}
    {cut : ℚ × List TraceRow} (old : ∀ row ∈ cut.2, Cut rtts downPdos upPdos row)
    (entry : Int × ℚ) :
    ∀ row ∈ (cutTrain rtts downPdos upPdos startTimeMs cut entry).2,
      Cut rtts downPdos upPdos row := by
  unfold cutTrain
  dsimp only
  split
  · split
    · rename_i rtt down up gotRtt gotDown gotUp
      intro row member
      rcases List.mem_append.mp member with old' | new
      · exact old row old'
      · rw [List.mem_singleton.mp new]
        exact ⟨gotRtt, gotDown, gotUp⟩
    · exact old
  · exact old

theorem cutTrace_cut (times rtts : Dict Int ℚ) (downPdos upPdos : Dict Int (List Int))
    (startTimeMs : ℚ) : ∀ row ∈ cutTrace times rtts downPdos upPdos startTimeMs,
      Cut rtts downPdos upPdos row := by
  have all : ∀ (entries : List (Int × ℚ)) (cut : ℚ × List TraceRow),
      (∀ row ∈ cut.2, Cut rtts downPdos upPdos row) →
      ∀ row ∈ (entries.foldl (cutTrain rtts downPdos upPdos startTimeMs) cut).2,
        Cut rtts downPdos upPdos row := by
    intro entries
    induction entries with
    | nil => exact fun _ old => old
    | cons entry entries ih => exact fun cut old => ih _ (cutTrain_cut old entry)
  apply all
  intro row member
  cases member

/-- A row combines what the rows of an up train and those of a down train tell. -/
structure Joins (up down : List LogRow) (row : TraceRow) (upTrain downTrain : Int) : Prop where
  upPdos : (Probe.ofTrain up upTrain).map Probe.pdos = some row.upPdos
  downPdos : (Probe.ofTrain down downTrain).map Probe.pdos = some row.downPdos
  rtt : (Probe.ofTrain down downTrain).map Probe.rtt = some row.rtt

/-- The trains that a row combines are as far from the first one of each log. -/
theorem generateTrace_joins {upLines : List LogLine} {downLines : List ClientLogLine}
    {senderId : Int} (headed : (processDownTrainFile downLines).senderId = some senderId)
    (names : ∀ line ∈ upLines, line.Names senderId)
    (upPositive : ∀ row ∈ upRows upLines, 0 ≤ row.trainId)
    (downPositive : ∀ row ∈ downRows downLines, 0 ≤ row.trainId) :
    ∃ trace, generateTrace upLines downLines = .ok trace ∧ ∀ row ∈ trace, ∃ firstUp firstDown,
      firstTrain (upRows upLines) = some firstUp ∧
      firstTrain (downRows downLines) = some firstDown ∧
      Joins (upRows upLines) (downRows downLines) row (firstUp + row.trainId)
        (firstDown + row.trainId) := by
  obtain ⟨up, processed, upReads⟩ := processUpTrainFile_reads upLines names upPositive
  have downReads := processDownTrainFile_reads downLines downPositive
  unfold generateTrace
  dsimp only
  rw [headed, processed]
  refine ⟨_, rfl, ?_⟩
  intro row member
  obtain ⟨rtt, down, up⟩ := cutTrace_cut _ _ _ _ _ row member
  obtain ⟨firstUp, foundUp, _, upPdos⟩ := upReads.get?_pdos up
  obtain ⟨firstDown, foundDown, base, downPdos⟩ := downReads.trains.get?_pdos down
  rw [downReads.rtts, base] at rtt
  exact ⟨firstUp, firstDown, foundUp, foundDown, upPdos, downPdos, rtt⟩

end CellReplay
