import CellReplay.Frontend.TraceLines
import CellReplay.Record.SaturatorServer

set_option autoImplicit false

namespace CellReplay

open Binary64 DecimalText FueledLoop MachineWord OrderedRecords Transition

/-- The receive timestamp of a line that is split into more than three fields of which the first
one is digits only. The configuration has a `=`, and a sign is no digit. -/
def SaturatorLogLine.recvTimestamp : SaturatorLogLine → Option Int
  | .packet seqNum _ recvTimestamp _ _ => if 0 ≤ seqNum then some recvTimestamp else none
  | _ => none

/-- The variables of `generate_bandwidth_trace` that make the trace. -/
structure BandwidthTrace where
  startRecvTime : Int
  startTraceRecvTime : Int
  trace : List Int
  deriving DecidableEq, Repr

namespace BandwidthTrace

def startTimeMs : Int := 2000

def init : BandwidthTrace := ⟨0, 0, []⟩

/-- `(int) ((recv_timestamp - start) / 1000000)`, a quotient of two integers. -/
def relativeRecvTime (recvTimestamp start : Int) : Int :=
  trunc (double ((recvTimestamp - start : Int) / 1000000))

def readPacket (recvTimestamp : Int) (b : BandwidthTrace) : BandwidthTrace :=
  let b := if b.startRecvTime ≤ 0 then { b with startRecvTime := recvTimestamp } else b
  if startTimeMs < relativeRecvTime recvTimestamp b.startRecvTime then
    let b := if b.startTraceRecvTime ≤ 0 then { b with startTraceRecvTime := recvTimestamp } else b
    { b with trace := b.trace ++ [relativeRecvTime recvTimestamp b.startTraceRecvTime] }
  else b

def readLine (b : BandwidthTrace) (line : SaturatorLogLine) : BandwidthTrace :=
  match line.recvTimestamp with
  | some recvTimestamp => b.readPacket recvTimestamp
  | none => b

def generateBandwidthTrace (lines : List SaturatorLogLine) : List Int :=
  (lines.foldl readLine init).trace

/-- The file that `main` writes, one `%d` a line. -/
def outfile (trace : List Int) : Text := ofLines (trace.map ofInt)

/-- The first of the times, and 0 if there is none. -/
def first (times : List Int) : Int := times.head?.getD 0

/-- The arrivals more than two seconds after the first one. -/
def late (times : List Int) : List Int :=
  times.filter (fun time => startTimeMs < relativeRecvTime time (first times))

/-- The variables after the arrivals. -/
structure Generates (times : List Int) (b : BandwidthTrace) : Prop where
  startRecvTime : b.startRecvTime = first times
  startTraceRecvTime : b.startTraceRecvTime = first (late times)
  trace : b.trace = (late times).map (fun time => relativeRecvTime time (first (late times)))

section
variable {times : List Int} {time : Int}

theorem first_snoc (positive : ∀ time ∈ times, 0 < time) :
    first (times ++ [time]) = if first times ≤ 0 then time else first times := by
  unfold first
  cases times with
  | nil => rfl
  | cons head rest =>
      have above := positive head List.mem_cons_self
      simp [Int.not_le.mpr above]

theorem first_snoc_of_mem {other : Int} (member : other ∈ times) :
    first (times ++ [time]) = first times := by
  unfold first
  cases times with
  | nil => cases member
  | cons head rest => rfl

theorem late_snoc : late (times ++ [time]) = late times ++
    if startTimeMs < relativeRecvTime time (first (times ++ [time])) then [time] else [] := by
  have before : times.filter (fun other =>
      decide (startTimeMs < relativeRecvTime other (first (times ++ [time])))) = late times := by
    apply List.filter_congr
    intro other member
    rw [first_snoc_of_mem member]
  have last : [time].filter (fun other =>
      decide (startTimeMs < relativeRecvTime other (first (times ++ [time])))) =
      if startTimeMs < relativeRecvTime time (first (times ++ [time])) then [time] else [] := by
    by_cases after : startTimeMs < relativeRecvTime time (first (times ++ [time]))
    · simp [after]
    · simp [after]
  unfold late at before ⊢
  rw [List.filter_append, before, last]

theorem Generates.read {b : BandwidthTrace} (generates : Generates times b)
    (positive : ∀ time ∈ times, 0 < time) : Generates (times ++ [time]) (b.readPacket time) := by
  have latePositive : ∀ time ∈ late times, 0 < time :=
    fun time member => positive time (List.mem_of_mem_filter member)
  have started : (if b.startRecvTime ≤ 0 then { b with startRecvTime := time } else b) =
      ⟨first (times ++ [time]), b.startTraceRecvTime, b.trace⟩ := by
    rw [first_snoc positive, ← generates.startRecvTime]
    split
    · rfl
    · rfl
  unfold readPacket
  rw [started]
  dsimp only
  by_cases after : startTimeMs < relativeRecvTime time (first (times ++ [time]))
  · have latest : late (times ++ [time]) = late times ++ [time] := by
      rw [late_snoc, if_pos after]
    have based : (if b.startTraceRecvTime ≤ 0 then
          ⟨first (times ++ [time]), time, b.trace⟩
        else ⟨first (times ++ [time]), b.startTraceRecvTime, b.trace⟩ : BandwidthTrace) =
        ⟨first (times ++ [time]), first (late times ++ [time]), b.trace⟩ := by
      rw [first_snoc latePositive, ← generates.startTraceRecvTime]
      split
      · rfl
      · rfl
    have relative : (late times).map (fun other =>
        relativeRecvTime other (first (late times ++ [time]))) = b.trace := by
      rw [generates.trace]
      apply List.map_congr_left
      intro other member
      rw [first_snoc_of_mem member]
    rw [if_pos after, based]
    refine ⟨rfl, ?_, ?_⟩
    · rw [latest]
    · rw [latest, List.map_append, relative, List.map_singleton]
  · have latest : late (times ++ [time]) = late times := by
      rw [late_snoc, if_neg after, List.append_nil]
    rw [if_neg after]
    exact ⟨rfl, by rw [latest]; exact generates.startTraceRecvTime,
      by rw [latest]; exact generates.trace⟩

end

/-- The receive timestamps of a log. -/
def recvTimestamps (lines : List SaturatorLogLine) : List Int :=
  lines.filterMap SaturatorLogLine.recvTimestamp

theorem foldl_readLine_generates {lines : List SaturatorLogLine}
    (positive : ∀ time ∈ recvTimestamps lines, 0 < time) :
    Generates (recvTimestamps lines) (lines.foldl readLine init) := by
  induction lines using List.reverseRecOn with
  | nil => exact ⟨rfl, rfl, rfl⟩
  | append_singleton lines line ih =>
      unfold recvTimestamps at positive ih ⊢
      rw [List.filterMap_append] at positive ⊢
      have before := ih (fun time member => positive time (List.mem_append_left _ member))
      rw [List.foldl_append, List.foldl_cons, List.foldl_nil]
      generalize lines.foldl readLine init = b at before ⊢
      unfold readLine
      cases shape : line.recvTimestamp with
      | none => simpa [shape] using before
      | some time =>
          simp only [List.filterMap_cons, shape, List.filterMap_nil]
          exact before.read fun time member => positive time (List.mem_append_left _ member)

/-- Whole milliseconds between two readings of the clock. -/
def sinceMs (start time : Int) : Nat := (time - start).toNat / 10 ^ 6

theorem relativeRecvTime_eq {time start : Int} (ordered : start ≤ time)
    (short : time - start < 2 ^ 53) : relativeRecvTime time start = sinceMs start time := by
  have natural : time - start = ((time - start).toNat : Int) := by omega
  have small : (time - start).toNat < 2 ^ 53 := by omega
  have exact' := floor_double_div small (10 ^ 6)
  have million : ((10 ^ 6 : ℕ) : ℚ) = 1000000 := by norm_num
  rw [million] at exact'
  unfold relativeRecvTime sinceMs
  rw [natural, Int.cast_natCast, Int.toNat_natCast,
    trunc_of_nonneg (double_nonneg (by positivity)), exact']

end BandwidthTrace

namespace SaturatorServer

/-- The clock reading that `main` handles a datagram at. -/
def Event.reading : Event → Option Int
  | .receive now _ _ => some now
  | _ => none

/-- The readings of a run. -/
def readings (events : List Event) : List Int := events.filterMap Event.reading

/-- The receive timestamps in the log are readings of the run, in its order. -/
def Logged (events : List Event) (s : SaturatorServer) : Prop :=
  ∀ log, s.logFile = some log →
    (BandwidthTrace.recvTimestamps log.lines).Sublist (readings events)

theorem logThroughput_logFile (now : Int) (address : Address) (senderId : Int)
    (s : SaturatorServer) : (s.logThroughput now address senderId).logFile = s.logFile := by
  unfold logThroughput
  extract_lets counted logged
  have same : logged.logFile = s.logFile := by
    unfold logged
    split
    · rfl
    · rfl
  split
  · exact same
  · exact same

theorem Logged.kept {events : List Event} {s s' : SaturatorServer} (logged : Logged events s)
    (event : Event)
    (same : s'.logFile = s.logFile ∨ s'.logFile = s.logFile.map LogFile.close) :
    Logged (events ++ [event]) s' := by
  have longer : (readings events).Sublist (readings (events ++ [event])) := by
    unfold readings
    rw [List.filterMap_append]
    exact List.sublist_append_left _ _
  intro log found
  rcases same with same | same
  · rw [same] at found
    exact (logged log found).trans longer
  · rw [same] at found
    obtain ⟨file, opened, rfl⟩ := Option.map_eq_some_iff.mp found
    exact (logged file opened).trans longer

theorem Logged.handleControl {events : List Event} {s : SaturatorServer} (logged : Logged events s)
    (event : Event) (address : Address) (fields : ControlFields) :
    Logged (events ++ [event]) (s.handleControl address fields) := by
  unfold SaturatorServer.handleControl
  dsimp only
  split
  · exact logged.kept event (Or.inr rfl)
  · split
    · exact logged.kept event (Or.inl rfl)
    · exact logged.kept event (Or.inl rfl)

/-- A log that is opened says nothing yet. -/
theorem Logged.handleConfig {events : List Event} {s : SaturatorServer} (logged : Logged events s)
    (event : Event) (now : Int) (address : Address) (fields : SaturatorConfigFields) :
    Logged (events ++ [event]) (s.handleConfig now address fields) := by
  unfold SaturatorServer.handleConfig
  split
  · intro log found
    rw [← Option.some.inj found]
    exact List.nil_sublist _
  · exact logged.kept event (Or.inl rfl)

/-- A packet that is logged is logged with the reading of its datagram. -/
theorem Logged.handleData {events : List Event} {s s' : SaturatorServer}
    (logged : Logged events s) {now : Int} {address : Address} {datagram : Bytes}
    {fields : SaturatorPacketFields} {length : Nat}
    (run : s.handleData now address fields length = .ok s') :
    Logged (events ++ [.receive now address datagram]) s' := by
  unfold SaturatorServer.handleData at run
  split at run
  · obtain ⟨file, written, returned⟩ := bind_eq_ok.mp run
    have same : s'.logFile = some file := by
      rw [← Except.ok.inj returned]
      exact logThroughput_logFile _ _ _ _
    intro log found
    rw [← Option.some.inj (same.symm.trans found)]
    cases open' : s.logFile with
    | none =>
        rw [open'] at written
        cases written
    | some before =>
        rw [open'] at written
        unfold LogFile.write at written
        dsimp only at written
        split at written
        · cases written
        · rw [← Except.ok.inj written]
          unfold BandwidthTrace.recvTimestamps readings
          rw [List.filterMap_append, List.filterMap_append]
          apply (logged before open').append
          unfold SaturatorLogLine.recvTimestamp
          by_cases digits : 0 ≤ fields.seqNum
          · simp [digits, Event.reading]
          · simp [digits]
  · rw [← Except.ok.inj run]
    exact logged.kept _ (Or.inl rfl)

theorem Logged.step {events : List Event} {s s' : SaturatorServer} (logged : Logged events s)
    (event : Event) (step : Step s event s') : Logged (events ++ [event]) s' := by
  unfold Step exec at step
  cases event with
  | receive now address datagram =>
      dsimp only at step
      unfold handle at step
      cases shape : dispatch (DynamicServer.recvfrom datagram) with
      | control fields =>
          rw [shape] at step
          rw [← Option.some.inj step]
          exact logged.handleControl _ address fields
      | config fields =>
          rw [shape] at step
          rw [← Option.some.inj step]
          exact logged.handleConfig _ now address fields
      | data fields length =>
          rw [shape] at step
          dsimp only at step
          cases run : s.handleData now address fields length with
          | error fault =>
              rw [run] at step
              cases step
          | ok next =>
              rw [run] at step
              rw [← Option.some.inj step]
              exact logged.handleData run
  | testStop i =>
      obtain ⟨t, _, rfl⟩ := Option.map_eq_some_iff.mp step
      apply logged.kept
      unfold SaturatorServer.testStop
      split
      · exact Or.inl rfl
      · exact Or.inl rfl
  | sendRound i =>
      obtain ⟨t, _, rfl⟩ := Option.map_eq_some_iff.mp step
      apply logged.kept
      unfold SaturatorServer.sendRound
      split
      · exact Or.inl rfl
      · exact Or.inl rfl
  | testInactivity i now =>
      obtain ⟨t, _, rfl⟩ := Option.map_eq_some_iff.mp step
      apply logged.kept
      unfold SaturatorServer.testInactivity
      split
      · exact Or.inl rfl
      · exact Or.inl rfl

/-- In every run the log has the packets in the order in which they were received. -/
theorem logged_of_run {events : List Event} {s : SaturatorServer}
    (run : Run Step init events s) : Logged events s := by
  apply run.history (I := Logged)
  · intro events s event s' logged step
    exact logged.step event step
  · intro log found
    cases found

end SaturatorServer

theorem HeavyTrace.load_eq_ok {filename : String} {start : Nat} {lines : List Text}
    {trace : HeavyTrace} : HeavyTrace.load filename start lines = .ok trace ↔
      readHeavyTrace filename start lines = .ok trace.times := by
  unfold load
  split
  · rename_i fault read
    simp [read]
  · rename_i times read
    constructor
    · intro same
      rw [← Except.ok.inj same]
      exact read
    · intro same
      cases trace
      cases read.symm.trans same
      rfl

namespace BandwidthTrace

section
variable {filename : String} {start : Nat} {trace : List Nat}

theorem heavyRecord_ofInt {n : Nat} (small : n < 2 ^ 63) :
    heavyRecord filename start (ofInt n) = .ok (if start ≤ n then some (n - start) else none) := by
  have word : u64 n = n := by
    have same := toUnsigned_of_range 64 (n : Int) (by omega) (by omega)
    unfold u64
    omega
  unfold heavyRecord
  rw [List.isEmpty_eq_false_iff.mpr (ofInt_ne_nil n), myatoi_ofInt (by omega) (by omega)]
  show (.ok (if start ≤ u64 n then some (u64 n - start) else none) : Except Fault _) = _
  rw [word]

/-- The last record is the greatest. -/
theorem getLast?_pos_iff {times : List Nat} (sorted : InSequence id times) :
    (∃ last, times.getLast? = some last ∧ last ≠ 0) ↔ ∃ time ∈ times, 0 < time := by
  constructor
  · rintro ⟨last, final, lasting⟩
    exact ⟨last, List.mem_of_getLast? final, Nat.pos_of_ne_zero lasting⟩
  · rintro ⟨time, member, positive⟩
    rcases List.eq_nil_or_concat times with rfl | ⟨front, last, rfl⟩
    · cases member
    · rw [List.concat_eq_append] at sorted member ⊢
      have before := (inSequence_snoc.mp sorted).2
      refine ⟨last, List.getLast?_concat, ?_⟩
      rcases List.mem_append.mp member with old | same
      · have below : time ≤ last := before time old
        omega
      · rw [← List.mem_singleton.mp same]
        omega

/-- What the emulator keeps of a trace that is in order. -/
theorem readHeavyTrace_outfile {times : List Nat} (small : ∀ n ∈ trace, n < 2 ^ 63)
    (sorted : InSequence id trace) :
    readHeavyTrace filename start (getLines (outfile (trace.map Int.ofNat))) = .ok times ↔
      times = (trace.filter (start ≤ ·)).map (· - start) ∧ ∃ n ∈ trace, start < n := by
  have clean : ∀ text ∈ (trace.map Int.ofNat).map ofInt, '\n' ∉ text := by
    intro text member
    obtain ⟨z, _, rfl⟩ := List.mem_map.mp member
    exact not_mem_ofInt (by decide) (by decide) z
  have mapped := fun parsed => @mapM_eq_ok_iff Nat _ _
    (fun n => heavyRecord filename start (ofInt n)) (fun _ => True)
    (fun n => if start ≤ n then some (n - start) else none) trace parsed (by
      intro n member b
      rw [heavyRecord_ofInt (small n member)]
      simp [eq_comm])
  have kept : InSequence id ((trace.filter (start ≤ ·)).map (· - start)) := by
    unfold InSequence
    rw [List.pairwise_map]
    apply List.Pairwise.filter
    apply sorted.imp
    intro a b ordered
    exact Nat.sub_le_sub_right ordered start
  have lasting : (∃ time ∈ (trace.filter (start ≤ ·)).map (· - start), 0 < time) ↔
      ∃ n ∈ trace, start < n := by
    constructor
    · rintro ⟨time, member, positive⟩
      obtain ⟨n, inside, rfl⟩ := List.mem_map.mp member
      exact ⟨n, List.mem_of_mem_filter inside, by omega⟩
    · rintro ⟨n, member, past⟩
      refine ⟨n - start, List.mem_map.mpr ⟨n, ?_, rfl⟩, by omega⟩
      exact List.mem_filter.mpr ⟨member, decide_eq_true (by omega)⟩
  rw [← lasting, ← getLast?_pos_iff kept]
  unfold outfile
  rw [getLines_ofLines clean, readHeavyTrace_eq_ok, List.map_map, List.mapM_map]
  constructor
  · rintro ⟨⟨parsed, read, rfl, _⟩, last⟩
    obtain ⟨_, rfl⟩ := (mapped parsed).mp read
    rw [reduceOption_map_ite (start ≤ ·) (· - start)] at last ⊢
    exact ⟨rfl, last⟩
  · rintro ⟨rfl, last⟩
    refine ⟨⟨_, (mapped _).mpr ⟨fun _ _ => trivial, rfl⟩, ?_, kept⟩, last⟩
    exact (reduceOption_map_ite (start ≤ ·) (· - start) trace).symm

end

/-- The arrivals 2001 ms or more after the first one. -/
def lateArrivals (times : List Int) : List Int :=
  times.filter (fun time => startTimeMs < sinceMs (first times) time)

/-- The times of a log, from the first late arrival on. -/
def arrivals (lines : List SaturatorLogLine) : List Nat :=
  let late := lateArrivals (recvTimestamps lines)
  late.map (sinceMs (first late))

/-- Times that a clock read: in order, positive, and within 2^53 ns. -/
structure Clocked (times : List Int) : Prop where
  ordered : times.Pairwise (· ≤ ·)
  positive : ∀ time ∈ times, 0 < time
  short : ∀ early ∈ times, ∀ time ∈ times, time - early < 2 ^ 53

section
variable {times : List Int}

theorem Clocked.sublist {some' : List Int} (clocked : Clocked times) (sub : some'.Sublist times) :
    Clocked some' := by
  refine ⟨clocked.ordered.sublist sub, ?_, ?_⟩
  · intro time member
    exact clocked.positive time (sub.subset member)
  · intro early member time member'
    exact clocked.short early (sub.subset member) time (sub.subset member')

theorem Clocked.first_le (clocked : Clocked times) {time : Int} (member : time ∈ times) :
    first times ≤ time := by
  have ordered := clocked.ordered
  unfold first
  cases times with
  | nil => cases member
  | cons head rest =>
      rcases List.mem_cons.mp member with same | after
      · rw [same]
        exact Int.le_refl _
      · exact (List.pairwise_cons.mp ordered).1 time after

theorem first_mem {time : Int} (member : time ∈ times) : first times ∈ times := by
  unfold first
  cases times with
  | nil => cases member
  | cons head rest => exact List.mem_cons_self

theorem Clocked.relativeRecvTime (clocked : Clocked times) {time : Int} (member : time ∈ times) :
    relativeRecvTime time (first times) = sinceMs (first times) time :=
  relativeRecvTime_eq (clocked.first_le member) (clocked.short _ (first_mem member) time member)

theorem Clocked.late_eq (clocked : Clocked times) : late times = lateArrivals times := by
  apply List.filter_congr
  intro time member
  rw [clocked.relativeRecvTime member]

theorem generateBandwidthTrace_eq {lines : List SaturatorLogLine}
    (clocked : Clocked (recvTimestamps lines)) :
    generateBandwidthTrace lines = (arrivals lines).map Int.ofNat := by
  have generates := foldl_readLine_generates clocked.positive
  unfold generateBandwidthTrace arrivals
  rw [generates.trace, clocked.late_eq, List.map_map]
  apply List.map_congr_left
  intro time member
  exact (clocked.sublist List.filter_sublist).relativeRecvTime member

theorem arrivals_inSequence {lines : List SaturatorLogLine}
    (clocked : Clocked (recvTimestamps lines)) : InSequence id (arrivals lines) := by
  unfold InSequence arrivals
  rw [List.pairwise_map]
  apply List.Pairwise.filter
  apply clocked.ordered.imp
  intro a b ordered
  exact Nat.div_le_div_right (Int.toNat_le_toNat (Int.sub_le_sub_right ordered _))

theorem arrivals_lt {lines : List SaturatorLogLine} (clocked : Clocked (recvTimestamps lines)) :
    ∀ ms ∈ arrivals lines, ms < 2 ^ 63 := by
  intro ms member
  obtain ⟨time, late, rfl⟩ := List.mem_map.mp member
  have short : time - first (lateArrivals (recvTimestamps lines)) < 2 ^ 53 :=
    (clocked.sublist List.filter_sublist).short _ (first_mem late) time late
  unfold sinceMs
  omega

end

end BandwidthTrace

/-- The emulator accepts the trace made of the log of any run of the saturator server if and only if
a packet arrived late enough, and it replays the arrivals from the start on, to the millisecond. -/
theorem replays_recorded_bandwidth {events : List SaturatorServer.Event} {s : SaturatorServer}
    {log : LogFile SaturatorLogLine}
    (run : Run SaturatorServer.Step SaturatorServer.init events s)
    (clock : BandwidthTrace.Clocked (SaturatorServer.readings events))
    (written : s.logFile = some log) (filename : String) (start : Nat) :
    let file := BandwidthTrace.outfile (BandwidthTrace.generateBandwidthTrace log.lines)
    let arrivals := BandwidthTrace.arrivals log.lines
    ((∃ trace, HeavyTrace.load filename start (getLines file) = .ok trace) ↔
        ∃ ms ∈ arrivals, start < ms) ∧
      ∀ trace, HeavyTrace.load filename start (getLines file) = .ok trace →
        trace.times = (arrivals.filter (start ≤ ·)).map (· - start) := by
  have clocked := clock.sublist (SaturatorServer.logged_of_run run log written)
  dsimp only
  rw [BandwidthTrace.generateBandwidthTrace_eq clocked]
  have read : ∀ times, readHeavyTrace filename start (getLines (BandwidthTrace.outfile
      ((BandwidthTrace.arrivals log.lines).map Int.ofNat))) = .ok times ↔ _ :=
    fun times => BandwidthTrace.readHeavyTrace_outfile (BandwidthTrace.arrivals_lt clocked)
      (BandwidthTrace.arrivals_inSequence clocked)
  refine ⟨⟨?_, ?_⟩, ?_⟩
  · rintro ⟨trace, loaded⟩
    exact ((read _).mp (HeavyTrace.load_eq_ok.mp loaded)).2
  · intro past
    have accepted := (read _).mpr ⟨rfl, past⟩
    have ⟨nonempty, ascending, lasting⟩ := readHeavyTrace_accepted accepted
    exact ⟨⟨_, nonempty, ascending.1, lasting, ascending.2⟩, HeavyTrace.load_eq_ok.mpr accepted⟩
  · intro trace loaded
    exact ((read _).mp (HeavyTrace.load_eq_ok.mp loaded)).1

/-- Four packets of client 7, of which the last three arrive 2.5 s after the first one. -/
def fourArrivals : List SaturatorServer.Event :=
  [SaturatorServer.datagram 1 [7, 100, 0], SaturatorServer.datagram 2 [7, 1, 1, 1500],
    SaturatorServer.datagram 1000000000 [0, 0, 0, 7, 0],
    SaturatorServer.datagram 3500000000 [1, 0, 0, 7, 0],
    SaturatorServer.datagram 3512000000 [2, 0, 0, 7, 0],
    SaturatorServer.datagram 3520900000 [3, 0, 0, 7, 0]]

theorem replays_recorded_bandwidth_fourArrivals : ∃ s log,
    Run SaturatorServer.Step SaturatorServer.init fourArrivals s ∧ s.logFile = some log ∧
      ∃ trace, HeavyTrace.load "up" 5 (getLines (BandwidthTrace.outfile
        (BandwidthTrace.generateBandwidthTrace log.lines))) = .ok trace ∧
        trace.times = [7, 15] := by
  have observed : (Transition.execAll SaturatorServer.exec (fun _ _ => True) fourArrivals
      SaturatorServer.init).map (fun s => s.logFile.map (fun log =>
        BandwidthTrace.arrivals log.lines)) = some (some [0, 12, 20]) := by decide +kernel
  obtain ⟨s, returned, shape⟩ := Option.map_eq_some_iff.mp observed
  obtain ⟨log, written, arrivals⟩ := Option.map_eq_some_iff.mp shape
  have run : Run SaturatorServer.Step SaturatorServer.init fourArrivals s :=
    (run_of_execAll returned).mono (fun _ _ _ step => step.1)
  have clock : BandwidthTrace.Clocked (SaturatorServer.readings fourArrivals) :=
    ⟨by decide, by decide, by decide⟩
  have ⟨accepted, rows⟩ := replays_recorded_bandwidth run clock written "up" 5
  rw [arrivals] at accepted rows
  have ⟨trace, loaded⟩ := accepted.mpr ⟨12, by decide, by decide⟩
  exact ⟨s, log, run, written, trace, loaded, rows trace loaded⟩

end CellReplay
