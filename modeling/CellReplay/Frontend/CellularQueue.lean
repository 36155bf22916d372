import CellReplay.Frontend.LightPdo
import CellReplay.Lib.Binary64
import CellReplay.Lib.PriorityQueue
import CellReplay.Lib.Transition

set_option autoImplicit false

namespace CellReplay

open MachineWord FueledLoop Binary64

/-- `DelayPktPairCmp`: whether `lhs` is popped behind `rhs`. -/
def delayPktPairCmp (lhs rhs : DelayQueuePacket) : Bool :=
  if lhs.releaseTime = rhs.releaseTime then rhs.sequenceNumber < lhs.sequenceNumber
  else rhs.releaseTime < lhs.releaseTime

/-- Whether `lhs` may be popped ahead of `rhs`. -/
def PopsBefore (lhs rhs : DelayQueuePacket) : Prop := delayPktPairCmp lhs rhs = false

instance : DecidableRel PopsBefore := fun lhs rhs =>
  inferInstanceAs (Decidable (delayPktPairCmp lhs rhs = false))

theorem popsBefore_iff (lhs rhs : DelayQueuePacket) :
    PopsBefore lhs rhs ↔ lhs.releaseTime < rhs.releaseTime ∨
      lhs.releaseTime = rhs.releaseTime ∧ lhs.sequenceNumber ≤ rhs.sequenceNumber := by
  unfold PopsBefore delayPktPairCmp
  split
  · rename_i same
    simp only [decide_eq_false_iff_not]
    omega
  · rename_i apart
    simp only [decide_eq_false_iff_not]
    omega

instance : Std.Total PopsBefore where
  total a b := by
    rw [popsBefore_iff, popsBefore_iff]
    omega

instance : IsTrans DelayQueuePacket PopsBefore where
  trans a b c := by
    rw [popsBefore_iff, popsBefore_iff, popsBefore_iff]
    omega

/-- The emulator of one direction. `fd` and `emplaced` record what was written to the
file descriptor and what was put in `delay_packet_queue_`, in order; nothing reads them.
The packet log, and the header text made for it, are left out. -/
structure CellularQueue (cfg : Config) where
  link : LinkQueue cfg
  light : LightPdo
  startTick : Bool
  endReleaseTime : Nat
  delayPacketQueue : PriorityQueue DelayQueuePacket PopsBefore
  pktCounter : Nat
  fd : List Datagram
  emplaced : List DelayQueuePacket

/-- What `get_pkt_release_time` computes from the turns allowed, the time, the contents
and the light PDO state. The emulator around it is modelled for any such law. -/
abbrev ReleaseLaw := Nat → Nat → Bytes → LightPdo → Except Fault (Nat × LightPdo)

/-- `get_psize_latency_offset`, with what an operation makes of its exact result. -/
def psizeLatencyOffsetIn (rounded : ℚ → ℚ) (psizeLatencyOffset : List ℚ) (psize : Nat) : ℚ :=
  if psizeLatencyOffset.length = 0 then 0
  else
    let idx := i32 (u32 (psize / 100 - 1))
    let remainder := psize % 100
    if idx < 0 then psizeLatencyOffset.getD 0 0
    else if (psizeLatencyOffset.length : Int) - 1 ≤ idx then
      psizeLatencyOffset.getD (psizeLatencyOffset.length - 1) 0
    else
      rounded (psizeLatencyOffset.getD idx.toNat 0 + rounded (rounded ((remainder : ℚ) / 100) *
        rounded (psizeLatencyOffset.getD (idx.toNat + 1) 0 - psizeLatencyOffset.getD idx.toNat 0)))

/-- In exact arithmetic. -/
def getPsizeLatencyOffset : List ℚ → Nat → ℚ := psizeLatencyOffsetIn id

/-- As computed, in double precision. -/
def getPsizeLatencyOffsetDouble : List ℚ → Nat → ℚ := psizeLatencyOffsetIn double

/-- `round`: to the nearest integer, halves away from zero. -/
def roundAway (x : ℚ) : ℚ := if 0 ≤ x then (⌊x + 1 / 2⌋ : ℚ) else (⌈x - 1 / 2⌉ : ℚ)

/-- The `int` added to a release time for the packet's size. -/
def latencyOffset (cfg : Config) (size : Nat) : Except Fault Int :=
  toInt (roundAway (getPsizeLatencyOffsetDouble cfg.psizeLatencyOffset size))

/-- 0.29 is not a double, and the offset of 14.5 ms comes out a little lower. -/
example : getPsizeLatencyOffset [0, 50] 129 = 29 / 2 ∧
    toInt (roundAway (getPsizeLatencyOffsetDouble [0, 50] 129)) = .ok 14 := by decide +kernel

namespace CellularQueue

variable {cfg : Config}

/-- The constructor, at its two clock readings. -/
def construct (cfg : Config) (packetQueue : AbstractPacketQueue)
    (linkTimestamp delayTimestamp : Nat) :
    CellularQueue cfg where
  link := LinkQueue.init cfg packetQueue linkTimestamp
  light := LightPdo.init delayTimestamp
  startTick := false
  endReleaseTime := 0
  delayPacketQueue := PriorityQueue.empty
  pktCounter := 0
  fd := []
  emplaced := []

/-- The trace is started by the first packet. -/
def startTrace (now : Nat) (q : CellularQueue cfg) : CellularQueue cfg :=
  if q.startTick then q
  else
    { q with
      startTick := true
      link := { q.link with linkBaseTimestamp := now }
      light := { q.light with delayBaseTimestamp := now } }

/-- Apply the latency offset only if it does not cause out-of-order. -/
def offsetReleaseTime (endReleaseTime releaseTime : Nat) (offset : Int) : Nat :=
  if endReleaseTime ≤ u64 (releaseTime + offset) then u64 (releaseTime + offset) else releaseTime

/-- The end of `read_packet`: keep the order, then put the packet in the delay queue. -/
def emplace (now : Nat) (contents : Bytes) (releaseTime : Nat) (q : CellularQueue cfg) :
    CellularQueue cfg :=
  let bypass := if releaseTime < q.endReleaseTime then false else q.light.bypassLinkPdo
  let releaseTime := max releaseTime q.endReleaseTime
  let packet : DelayQueuePacket := ⟨now, q.pktCounter, releaseTime, contents, bypass⟩
  { q with
    light := { q.light with bypassLinkPdo := bypass }
    endReleaseTime := releaseTime
    delayPacketQueue := q.delayPacketQueue.push packet
    pktCounter := q.pktCounter + 1
    emplaced := q.emplaced ++ [packet] }

/-- `read_packet` once both size checks are passed. -/
def takePacket (law : ReleaseLaw) (fuel now : Nat) (contents : Bytes) (q : CellularQueue cfg) :
    Except Fault (CellularQueue cfg) := do
  let q := q.startTrace now
  let (releaseTime, light) ← law fuel now contents q.light
  let offset ← latencyOffset cfg contents.length
  let releaseTime := offsetReleaseTime q.endReleaseTime releaseTime offset
  return { q with light := light }.emplace now contents releaseTime

def readPacket (law : ReleaseLaw) (fuel now : Nat) (contents : Bytes) (q : CellularQueue cfg) :
    Except Fault (CellularQueue cfg) :=
  if contents.length < 20 then .error (.runtimeError "Packet is too small!")
  else if packetSize < contents.length then
    .error (.runtimeError ("Packet size (" ++ toString contents.length ++
      ")  exceeds the maximum allowed (" ++ toString packetSize ++ ")"))
  else q.takePacket law fuel now contents

/-- The packet due first, if one is due, else one without contents. -/
def getNextFromDelayQueue (timestamp : Nat) (q : CellularQueue cfg) :
    DelayQueuePacket × CellularQueue cfg :=
  match q.delayPacketQueue.items with
  | [] => (DelayQueuePacket.ofContents [] 0, q)
  | top :: _ =>
      if top.releaseTime ≤ timestamp then
        (top, { q with delayPacketQueue := q.delayPacketQueue.pop })
      else (DelayQueuePacket.ofContents [] 0, q)

/-- The body of the loop of `write_packets`: straight to the descriptor, or to the link. -/
def forwardPacket (fuel now : Nat) (packet : DelayQueuePacket) (q : CellularQueue cfg) :
    Except Fault (CellularQueue cfg) :=
  if packet.isBypassLinkQueue && q.link.currentLinkQueueSize == 0 then
    .ok { q with fd := q.fd ++ [packet.datagram] }
  else do
    let link ← q.link.putPacketToLinkQueue fuel now packet
    return { q with link := link }

/-- The variables of the loop of `write_packets`: the packet popped, the number of the
next clock reading, and the emulator. -/
structure Draining (cfg : Config) where
  nextPacket : DelayQueuePacket
  reading : Nat
  queue : CellularQueue cfg

def packetPopped (d : Draining cfg) : Except Fault Bool := .ok (!d.nextPacket.contents.isEmpty)

/-- Pop the first due packet at a clock reading. -/
def popDue (clock : Nat → Nat) (reading : Nat) (q : CellularQueue cfg) : Draining cfg :=
  ⟨(q.getNextFromDelayQueue (clock reading)).1, reading + 1,
    (q.getNextFromDelayQueue (clock reading)).2⟩

def drainTurn (fuel : Nat) (clock : Nat → Nat) (now : Nat) (d : Draining cfg) :
    Except Fault (Draining cfg) := do
  let q ← d.queue.forwardPacket fuel now d.nextPacket
  return q.popDue clock d.reading

def outputWaiting (q : CellularQueue cfg) : Except Fault Bool := .ok (!q.link.outputQueue.isEmpty)

/-- Write the first packet of `output_queue_`; the link stage holds one packet less. -/
def writeOutput (q : CellularQueue cfg) : Except Fault (CellularQueue cfg) :=
  match q.link.outputQueue with
  | [] => .ok q
  | packet :: rest => do
      check "current_link_queue_size_ > 0" (0 < q.link.currentLinkQueueSize)
      return { q with
        fd := q.fd ++ [packet.datagram]
        link := { q.link with
          outputQueue := rest
          currentLinkQueueSize := q.link.currentLinkQueueSize - 1 } }

def writePacketsFromLinkQueue (fuel : Nat) (q : CellularQueue cfg) :
    Except Fault (CellularQueue cfg) :=
  whileLoop .fuel outputWaiting writeOutput fuel q

/-- `write_packets`, whose calls of `timestamp` read `clock 0`, `clock 1` and so on: the
first one pops a packet, the second one is `now`, and the others pop the other packets. -/
def writePackets (fuel : Nat) (clock : Nat → Nat) (q : CellularQueue cfg) :
    Except Fault (CellularQueue cfg) := do
  let d ← whileLoop .fuel packetPopped (drainTurn fuel clock (clock 1)) fuel
    { q.popDue clock 0 with reading := 2 }
  d.queue.writePacketsFromLinkQueue fuel

def waitTimeDelayQueue (now : Nat) (q : CellularQueue cfg) : Nat :=
  match q.delayPacketQueue.items with
  | [] => 65535
  | top :: _ => if top.releaseTime ≤ now then 0 else u32 (top.releaseTime - now)

def waitTime (fuel nowDelay nowLink : Nat) (q : CellularQueue cfg) :
    Except Fault (Nat × CellularQueue cfg) := do
  let waitTimeDelay := q.waitTimeDelayQueue nowDelay
  let (waitTimeLink, link) ← q.link.waitTimeLinkQueue fuel nowLink
  return (min waitTimeDelay waitTimeLink, { q with link := link })

def pendingOutput (now : Nat) (q : CellularQueue cfg) : Bool :=
  !q.link.outputQueue.isEmpty || q.waitTimeDelayQueue now == 0

end CellularQueue

/-- The calls the event loop makes, with the clock readings they take. `finished()` and
`pending_output()` change nothing. -/
inductive Op where
  | readPacket (now : Nat) (contents : Bytes)
  | writePackets (clock : Nat → Nat)
  | waitTime (nowDelay nowLink : Nat)
  | pendingOutput (now : Nat)

namespace Op

variable {cfg : Config}

/-- The state a call leaves. -/
def exec (law : ReleaseLaw) (fuel : Nat) : Op → CellularQueue cfg → Except Fault (CellularQueue cfg)
  | readPacket now contents, q => q.readPacket law fuel now contents
  | writePackets clock, q => q.writePackets fuel clock
  | waitTime nowDelay nowLink, q => do return (← q.waitTime fuel nowDelay nowLink).2
  | pendingOutput _, q => .ok q

/-- The clock readings of a call are nondecreasing, from `t` to at most `t'`. -/
def Between (t t' : Nat) : Op → Prop
  | readPacket now _ => t ≤ now ∧ now ≤ t'
  | writePackets clock => t ≤ clock 0 ∧ Monotone clock ∧ ∀ k, clock k ≤ t'
  | waitTime nowDelay nowLink => t ≤ nowDelay ∧ nowDelay ≤ nowLink ∧ nowLink ≤ t'
  | pendingOutput now => t ≤ now ∧ now ≤ t'

end Op

/-- One call, from a state and the latest clock reading to the next state and reading. -/
def Step {cfg : Config} (law : ReleaseLaw) (s : CellularQueue cfg × Nat) (op : Op)
    (s' : CellularQueue cfg × Nat) : Prop :=
  op.Between s.2 s'.2 ∧ s.2 ≤ s'.2 ∧ ∃ fuel, op.exec law fuel s.1 = .ok s'.1

/-- The emulator is constructed with an empty queue, and makes some calls. -/
def Reaches (cfg : Config) (law : ReleaseLaw) (packetQueue : AbstractPacketQueue) (ops : List Op)
    (q : CellularQueue cfg) (t : Nat) : Prop :=
  ∃ linkTimestamp delayTimestamp, linkTimestamp ≤ delayTimestamp ∧
    Transition.Run (Step law)
      (CellularQueue.construct cfg packetQueue linkTimestamp delayTimestamp, delayTimestamp)
      ops (q, t)

end CellReplay
