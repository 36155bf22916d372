import CellReplay.Frontend.LinkQueue
import Mathlib.Data.Rat.Floor

set_option autoImplicit false

namespace CellReplay

open MachineWord FueledLoop

/-- Conversion of a floating value to `int`: toward zero, undefined out of range. -/
def toInt (x : ℚ) : Except Fault Int :=
  let truncated := if 0 ≤ x then ⌊x⌋ else ⌈x⌉
  if -2 ^ 31 ≤ truncated ∧ truncated < 2 ^ 31 then .ok truncated else .error .conversion

/-- How far a relative timestamp is between two rows, in exact arithmetic. -/
def interpolationRatio (relativeTimestampMs : Int) (current next : DelayPDOInstance) : ℚ :=
  (u64 (relativeTimestampMs - current.time) : ℚ) / (u64 (next.time - current.time) : ℚ)

/-- The interpolated base delay, in exact arithmetic. Two rows at one time make the ratio
infinite or not a number, which no `int` holds. -/
def exactInterpolate (relativeTimestampMs : Int) (current next : DelayPDOInstance) :
    Except Fault Int :=
  if u64 (next.time - current.time) = 0 then .error .conversion
  else
    let adjustedDelay := interpolationRatio relativeTimestampMs current next *
      ((next.delay - current.delay : Int) : ℚ)
    toInt ((current.delay : ℚ) + adjustedDelay)

/-- The members that `get_pkt_release_time_from_trace` reads and writes. Slot and row
indices count single steps and are natural numbers; the times and `int`s are exact. -/
structure LightPdo where
  delayBaseTimestamp : Nat
  currDeliveryOpportunity : Int
  currentDelayPdoIdx : Nat
  currentPdoIdx : Nat
  currentPdoSize : Nat
  pdoBaseTimestamp : Nat
  currentBaseDelay : Int
  bypassLinkPdo : Bool
  lastDelayQueueReleaseTime : Nat
  deriving DecidableEq, Repr

/-- The variables of the loop that looks for the instance. -/
structure InstanceSearch where
  currentDelayPdoIdx : Nat
  delayBaseTimestamp : Nat
  relativeTimestampMs : Int
  deriving DecidableEq, Repr

/-- `delay_pdo_trace[i]`. -/
def PacketTrainTrace.row (s : PacketTrainTrace) (i : Nat) : Except Fault DelayPDOInstance :=
  match s.instances[i]? with
  | some row => .ok row
  | none => .error .outOfRange

/-- `pdo[i]`. -/
def DelayPDOInstance.slot (row : DelayPDOInstance) (i : Nat) : Except Fault Int :=
  match row.pdo[i]? with
  | some slot => .ok slot
  | none => .error .outOfRange

namespace LightPdo

/-- The light PDO state as constructed at a clock reading. -/
def init (timestamp : Nat) : LightPdo where
  delayBaseTimestamp := timestamp
  currDeliveryOpportunity := 1400
  currentDelayPdoIdx := 0
  currentPdoIdx := 0
  currentPdoSize := 1
  pdoBaseTimestamp := 0
  currentBaseDelay := -1
  bypassLinkPdo := true
  lastDelayQueueReleaseTime := 0

/-- `time - delay_base_timestamp_` as an `int64_t`. -/
def relativeTimestampMs (time : Nat) (s : LightPdo) : Int := i64 (time - s.delayBaseTimestamp)

/-- Start when the queue is empty for `long_to_short_timer_`, or when the system starts. -/
def startNewShortPdoTrace (cfg : Config) (time : Nat) (s : LightPdo) : Bool :=
  s.currentBaseDelay < 0 ||
    u64 (s.lastDelayQueueReleaseTime + cfg.longToShortTimer) < u64 (time + s.currentBaseDelay)

/-- The test of the search loop, an unsigned comparison. -/
def nextRowReached (trace : PacketTrainTrace) (s : InstanceSearch) : Except Fault Bool := do
  let next ← trace.row (s.currentDelayPdoIdx + 1)
  return next.time ≤ u64 s.relativeTimestampMs

/-- One turn of the search loop: the next row, or the first one of the repeated trace. -/
def advanceRow (trace : PacketTrainTrace) (time : Nat) (s : InstanceSearch) :
    Except Fault InstanceSearch := do
  let idx := s.currentDelayPdoIdx + 1
  if trace.lastIdx ≤ idx then
    let row ← trace.row idx
    let base := u64 (s.delayBaseTimestamp + row.time)
    .ok ⟨0, base, i64 (time - base)⟩
  else .ok { s with currentDelayPdoIdx := idx }

/-- Search for the correct instance. -/
def searchInstance (fuel : Nat) (trace : PacketTrainTrace) (time : Nat) (s : LightPdo) :
    Except Fault InstanceSearch :=
  whileLoop .fuel (nextRowReached trace) (advanceRow trace time) fuel
    ⟨s.currentDelayPdoIdx, s.delayBaseTimestamp, s.relativeTimestampMs time⟩

/-- The state in which the instance found begins with its first packet. -/
def beginInstance (time size : Nat) (found : InstanceSearch) (row : DelayPDOInstance) (delay : Int)
    (s : LightPdo) : LightPdo :=
  { s with
    delayBaseTimestamp := found.delayBaseTimestamp
    currentDelayPdoIdx := found.currentDelayPdoIdx
    currentPdoSize := row.pdo.length
    currentBaseDelay := i32 (u64 delay)
    bypassLinkPdo := true
    pdoBaseTimestamp := u64 found.relativeTimestampMs
    currentPdoIdx := 0
    currDeliveryOpportunity := i32 (u32 (packetSize - size))
    lastDelayQueueReleaseTime := u64 (time + u64 delay) }

/-- Branch 1: a new light PDO instance. -/
def startInstance (fuel : Nat) (cfg : Config) (time size : Nat) (s : LightPdo) :
    Except Fault (Nat × LightPdo) := do
  let found ← searchInstance fuel cfg.delayPdoTraces time s
  let row ← cfg.delayPdoTraces.row found.currentDelayPdoIdx
  let next ← cfg.delayPdoTraces.row (found.currentDelayPdoIdx + 1)
  let delay ← cfg.interpolate found.relativeTimestampMs row next
  return (u64 (time + u64 delay), beginInstance time size found row delay s)

/-- The test of the loop that finds the slot: its time has passed. -/
def slotPassed (row : DelayPDOInstance) (timestampFromPdoBase : Int) (s : LightPdo) :
    Except Fault Bool :=
  if s.currentPdoIdx < s.currentPdoSize then do
    return (← row.slot s.currentPdoIdx) < timestampFromPdoBase
  else .ok false

/-- The next slot, with a whole opportunity left. -/
def nextSlot (s : LightPdo) : LightPdo :=
  { s with currentPdoIdx := s.currentPdoIdx + 1, currDeliveryOpportunity := packetSize }

/-- Find the slot for a packet and burn its bytes there. -/
def takeSlot (fuel : Nat) (row : DelayPDOInstance) (timestampFromPdoBase : Int) (size : Nat)
    (s : LightPdo) : Except Fault LightPdo := do
  let s ← whileLoop .fuel (slotPassed row timestampFromPdoBase) (fun s => .ok s.nextSlot) fuel s
  let s := if u32 s.currDeliveryOpportunity < size then s.nextSlot else s
  return { s with currDeliveryOpportunity := i32 (u32 (s.currDeliveryOpportunity - size)) }

/-- The release time on the slot taken: branch 2 past the last slot, else branch 3. -/
def releaseOnSlot (row : DelayPDOInstance) (timestampFromPdoBase : Int) (time : Nat)
    (s : LightPdo) :
    Except Fault (Nat × Bool) :=
  if s.currentPdoSize ≤ s.currentPdoIdx then do
    let back ← row.slot (u32 (s.currentPdoSize - 1))
    return (max (u64 (time + s.currentBaseDelay)) (u64 (time + back)), false)
  else do
    let slot ← row.slot s.currentPdoIdx
    check "pdo[current_pdo_idx_] >= timestamp_from_pdo_base" (timestampFromPdoBase ≤ slot)
    return (u64 (time + s.currentBaseDelay + (slot - timestampFromPdoBase)), true)

/-- Branches 2 and 3: the current light PDO. -/
def useCurrentPdo (fuel : Nat) (cfg : Config) (time size : Nat) (s : LightPdo) :
    Except Fault (Nat × LightPdo) := do
  let timestampFromPdoBase := i64 (s.relativeTimestampMs time - s.pdoBaseTimestamp)
  let row ← cfg.delayPdoTraces.row s.currentDelayPdoIdx
  let s ← takeSlot fuel row timestampFromPdoBase size s
  let (releaseTime, bypass) ← releaseOnSlot row timestampFromPdoBase time s
  return (releaseTime, { s with bypassLinkPdo := bypass, lastDelayQueueReleaseTime := releaseTime })

def getPktReleaseTimeFromTrace (fuel : Nat) (cfg : Config) (time size : Nat) (s : LightPdo) :
    Except Fault (Nat × LightPdo) :=
  if s.startNewShortPdoTrace cfg time then startInstance fuel cfg time size s
  else useCurrentPdo fuel cfg time size s

/-- `get_pkt_release_time`. -/
def getPktReleaseTime (cfg : Config) (fuel time : Nat) (contents : Bytes) (s : LightPdo) :
    Except Fault (Nat × LightPdo) :=
  getPktReleaseTimeFromTrace fuel cfg time contents.length s

end LightPdo

end CellReplay
