import CellReplay.Frontend.Actions

set_option autoImplicit false

namespace CellReplay

open FueledLoop Transition

variable {cfg : Config} {law : ReleaseLaw}

/-- The configuration two traces make, with exact interpolation and no offset table. -/
def Config.ofTraces (heavy : HeavyTrace) (train : PacketTrainTrace) (repeat_ : Bool)
    (timer : Int) (range : -2 ^ 31 ≤ timer ∧ timer < 2 ^ 31) : Config where
  heavyPdoSchedule := heavy
  repeat_ := repeat_
  delayPdoTraces := train
  psizeLatencyOffset := []
  longToShortTimer := timer
  longToShortTimer_range := range
  interpolate := exactInterpolate

/-- A schedule with one opportunity every 10 ms. -/
def everyTenMs : HeavyTrace := ⟨[10], by decide, by decide, by decide, by decide⟩

/-- A train without base delay, whose instances have room for one packet at once. -/
def undelayedTrain : PacketTrainTrace :=
  ⟨[⟨0, 0, [0]⟩, ⟨100, 0, [0]⟩, ⟨200, 0, [0]⟩],
    by decide, by decide, by decide, by decide, by decide⟩

/-- A train with a base delay of 10 ms, whose instances have room for one packet at once. -/
def delayedTrain : PacketTrainTrace :=
  ⟨[⟨0, 10, [0]⟩, ⟨100, 10, [0]⟩, ⟨200, 10, [0]⟩], by decide, by decide, by decide, by decide,
    by decide⟩

/-- A packet of the largest size accepted. -/
def fullPacket : Bytes := List.replicate packetSize 0

theorem fiveMs_range : -2 ^ 31 ≤ (5 : Int) ∧ (5 : Int) < 2 ^ 31 := by decide

/-- The emulator of the two traces above, with a timer of 5 ms. -/
def undelayed : Config := Config.ofTraces everyTenMs undelayedTrain true 5 fiveMs_range

/-- A train whose instances have room at once and 10 ms later. -/
def twoSlotsApart : PacketTrainTrace :=
  ⟨[⟨0, 20, [0, 10]⟩, ⟨100, 20, [0, 10]⟩, ⟨200, 20, [0, 10]⟩],
    by decide, by decide, by decide, by decide, by decide⟩

def twoSlotsTenMs : Config := Config.ofTraces everyTenMs twoSlotsApart true 5 fiveMs_range

namespace Op

/-- Make some calls, one after the other. -/
def execAll (law : ReleaseLaw) (fuel : Nat) (ops : List Op) (q : CellularQueue cfg) :
    Except Fault (CellularQueue cfg) :=
  ops.foldlM (fun q op => op.exec law fuel q) q

/-- The readings that some calls take are nondecreasing, from `t` to `t'`. -/
def Timed (t' : Nat) : Nat → List Op → Prop
  | t, [] => t = t'
  | t, op :: ops => ∃ mid, t ≤ mid ∧ op.Between t mid ∧ Timed t' mid ops

/-- Calls that return at nondecreasing readings are a run. -/
theorem run_of_execAll {fuel : Nat} {ops : List Op} {q q' : CellularQueue cfg} {t t' : Nat}
    (timed : Timed t' t ops) (returned : execAll law fuel ops q = .ok q') :
    Run (Step law) (q, t) ops (q', t') := by
  induction ops generalizing q t with
  | nil =>
      have same : t = t' := timed
      have unchanged : q = q' := Except.ok.inj returned
      rw [same, unchanged]
      exact Run.nil
  | cons op ops ih =>
      have ⟨mid, later, between, rest⟩ := timed
      have ⟨next, first, others⟩ := bind_eq_ok.mp returned
      have step : Step law (q, t) op (next, mid) := ⟨between, later, fuel, first⟩
      exact (Run.single step).append (ih rest others)

end Op

/-- What is observed after some calls is observed in a state the emulator reaches. -/
theorem Reaches.of_execAll {α : Type} {fuel start t : Nat} {packetQueue : AbstractPacketQueue}
    {ops : List Op} {observe : CellularQueue cfg → α} {seen : α} (timed : Op.Timed t start ops)
    (returned : (Op.execAll law fuel ops
      (CellularQueue.construct cfg packetQueue start start)).toOption.map observe = some seen) :
    ∃ q, Reaches cfg law packetQueue ops q t ∧ observe q = seen := by
  have ⟨q, ok, same⟩ := observe_ok returned
  exact ⟨q, ⟨start, start, Nat.le_refl start, Op.run_of_execAll timed ok⟩, same⟩

section
variable {η : Type}

/-- One call, with a history variable that each call may extend and nothing reads. -/
def RecordedStep (law : ReleaseLaw) (record : Nat → Op → CellularQueue cfg → η → η)
    (s : (CellularQueue cfg × Nat) × η) (op : Op) (s' : (CellularQueue cfg × Nat) × η) : Prop :=
  op.Between s.1.2 s'.1.2 ∧ s.1.2 ≤ s'.1.2 ∧ ∃ fuel,
    op.exec law fuel s.1.1 = .ok s'.1.1 ∧ s'.2 = record fuel op s.1.1 s.2

/-- The emulator is constructed with an empty queue and makes some calls, and they are recorded. -/
def Recorded (cfg : Config) (law : ReleaseLaw) (record : Nat → Op → CellularQueue cfg → η → η)
    (first : η) (packetQueue : AbstractPacketQueue) (ops : List Op)
    (q : CellularQueue cfg) (t : Nat) (history : η) : Prop :=
  ∃ linkTimestamp delayTimestamp, linkTimestamp ≤ delayTimestamp ∧
    Run (RecordedStep law record)
      ((.construct cfg packetQueue linkTimestamp delayTimestamp, delayTimestamp), first) ops
      ((q, t), history)

variable {record : Nat → Op → CellularQueue cfg → η → η} {first history : η}
  {packetQueue : AbstractPacketQueue} {ops : List Op} {q : CellularQueue cfg} {t : Nat}

/-- Recording is no restriction: every run has a record, -/
theorem Reaches.recorded (reaches : Reaches cfg law packetQueue ops q t)
    (record : Nat → Op → CellularQueue cfg → η → η) (first : η) :
    ∃ history, Recorded cfg law record first packetQueue ops q t history := by
  obtain ⟨linkTimestamp, delayTimestamp, ordered, run⟩ := reaches
  have lift : ∀ s op s' before, Step law s op s' →
      ∃ after, RecordedStep law record (s, before) op (s', after) := by
    intro s op s' before step
    obtain ⟨between, later, fuel, returned⟩ := step
    exact ⟨record fuel op s.1 before, between, later, fuel, returned, rfl⟩
  obtain ⟨history, ran⟩ := run.lifts lift first
  exact ⟨history, linkTimestamp, delayTimestamp, ordered, ran⟩

/-- and a recorded run is a run. -/
theorem Recorded.reaches
    (recorded : Recorded cfg law record first packetQueue ops q t history) :
    Reaches cfg law packetQueue ops q t := by
  obtain ⟨linkTimestamp, delayTimestamp, ordered, run⟩ := recorded
  refine ⟨linkTimestamp, delayTimestamp, ordered, run.lowers ?_⟩
  intro s op s' step
  obtain ⟨between, later, fuel, returned, _⟩ := step
  exact ⟨between, later, fuel, returned⟩

/-- The invariant rule of recorded runs: only reading a packet concerns the delay stage. -/
theorem Recorded.invariant {I : CellularQueue cfg → Nat → η → Prop}
    (recorded : Recorded cfg law record first packetQueue ops q t history)
    (unrecorded : ∀ fuel op q history, (∀ now contents, op ≠ .readPacket now contents) →
      record fuel op q history = history)
    (start : ∀ linkTimestamp delayTimestamp,
      I (CellularQueue.construct cfg packetQueue linkTimestamp delayTimestamp) delayTimestamp first)
    (read : ∀ (q next : CellularQueue cfg) ops fuel t now t' contents history,
      Recorded cfg law record first packetQueue ops q t history → I q t history → t ≤ now →
      now ≤ t' → q.readPacket law fuel now contents = .ok next →
      I next t' (record fuel (.readPacket now contents) q history))
    (quiet : ∀ (q next : CellularQueue cfg) t t' history,
      I q t history → t ≤ t' → Unread q next → I next t' history) : I q t history := by
  obtain ⟨linkTimestamp, delayTimestamp, ordered, run⟩ := recorded
  have kept := run.history (I := fun ops s =>
      Recorded cfg law record first packetQueue ops s.1.1 s.1.2 s.2 ∧ I s.1.1 s.1.2 s.2)
    (by
      rintro ops s op s' ⟨recorded, before⟩ step
      obtain ⟨linkTimestamp, delayTimestamp, ordered, ran⟩ := recorded
      refine ⟨⟨linkTimestamp, delayTimestamp, ordered, Run.snoc ran step⟩, ?_⟩
      have recorded : Recorded cfg law record first packetQueue ops s.1.1 s.1.2 s.2 :=
        ⟨linkTimestamp, delayTimestamp, ordered, ran⟩
      obtain ⟨between, later, fuel, returned, records⟩ := step
      rw [records]
      rcases exec_read_or_unread recorded.reaches.filled returned with
        ⟨now, contents, same, reads⟩ | ⟨other, unread⟩
      · rw [same] at between ⊢
        exact read _ _ ops fuel _ now _ contents _ recorded before between.1 between.2 reads
      · rw [unrecorded _ _ _ _ other]
        exact quiet _ _ _ _ _ before later unread)
    ⟨⟨linkTimestamp, delayTimestamp, ordered, Run.nil⟩, start linkTimestamp delayTimestamp⟩
  exact kept.2

/-- Make some calls, and record them. -/
def Op.execRecorded (law : ReleaseLaw) (record : Nat → Op → CellularQueue cfg → η → η) (fuel : Nat)
    (ops : List Op) (s : CellularQueue cfg × η) : Except Fault (CellularQueue cfg × η) :=
  ops.foldlM (fun s op => do return (← op.exec law fuel s.1, record fuel op s.1 s.2)) s

theorem run_of_execRecorded {fuel : Nat} {s s' : CellularQueue cfg × η} {t' : Nat}
    (timed : Op.Timed t' t ops) (returned : Op.execRecorded law record fuel ops s = .ok s') :
    Run (RecordedStep law record) ((s.1, t), s.2) ops ((s'.1, t'), s'.2) := by
  induction ops generalizing s t with
  | nil =>
      have same : t = t' := timed
      have unchanged : s = s' := Except.ok.inj returned
      rw [same, unchanged]
      exact Run.nil
  | cons op ops ih =>
      obtain ⟨mid, later, between, rest⟩ := timed
      obtain ⟨next, one, others⟩ := bind_eq_ok.mp returned
      obtain ⟨q, execs, same⟩ := bind_eq_ok.mp one
      have shape : (q, record fuel op s.1 s.2) = next := Except.ok.inj same
      rw [← shape] at others
      have step : RecordedStep law record ((s.1, t), s.2) op ((q, mid), record fuel op s.1 s.2) :=
        ⟨between, later, fuel, execs, rfl⟩
      exact (Run.single step).append (ih rest others)

/-- What is observed after some recorded calls is observed in a recorded run. -/
theorem Recorded.of_execRecorded {α : Type} {fuel start : Nat}
    {observe : CellularQueue cfg × η → α} {seen : α} (timed : Op.Timed t start ops)
    (returned : (Op.execRecorded law record fuel ops
      (CellularQueue.construct cfg packetQueue start start, first)).toOption.map observe =
        some seen) :
    ∃ q history, Recorded cfg law record first packetQueue ops q t history ∧
      observe (q, history) = seen := by
  obtain ⟨⟨q, history⟩, ok, same⟩ := observe_ok returned
  exact ⟨q, history, ⟨start, start, Nat.le_refl start, run_of_execRecorded timed ok⟩, same⟩

end

end CellReplay
