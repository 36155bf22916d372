import CellReplay.Frontend.Trace
import CellReplay.Packet.PacketQueue
import Mathlib.Data.Rat.Init

set_option autoImplicit false

namespace CellReplay

open MachineWord FueledLoop

/-- What the constructor fixes for the life of the emulator. `interpolate` is the
single-precision expression that yields a base delay from a relative timestamp and two
neighbouring rows; floating arithmetic is a parameter of the model. -/
structure Config where
  heavyPdoSchedule : HeavyTrace
  repeat_ : Bool
  delayPdoTraces : PacketTrainTrace
  psizeLatencyOffset : List ℚ
  longToShortTimer : Int
  longToShortTimer_range : -2 ^ 31 ≤ longToShortTimer ∧ longToShortTimer < 2 ^ 31
  interpolate : Int → DelayPDOInstance → DelayPDOInstance → Except Fault Int

/-- `MAX_PACKET_SIZE`. -/
def packetSize : Nat := 1400

/-- What one delivery opportunity did: its time, and the bytes sent of each packet. -/
structure Opportunity where
  deliveryTime : Nat
  sent : List (QueuedPacket × Nat)
  deriving DecidableEq, Repr

/-- The link stage: the members under "Link queue" in the class. The last two fields
are history variables, which nothing reads: the opportunities burned so far, and
each packet given to `packet_queue_` with the queue it met there. -/
structure LinkQueue (cfg : Config) where
  nextDelivery : Fin cfg.heavyPdoSchedule.times.length
  linkBaseTimestamp : Nat
  packetQueue : AbstractPacketQueue
  packetInTransit : QueuedPacket
  packetInTransitBytesLeft : Nat
  outputQueue : List QueuedPacket
  currentLinkQueueSize : Nat
  finished : Bool
  opportunities : List Opportunity
  enqueued : List (AbstractPacketQueue × QueuedPacket)

/-- A delivery opportunity in progress. -/
structure Delivery (cfg : Config) where
  bytesLeftInThisDelivery : Nat
  sent : List (QueuedPacket × Nat)
  link : LinkQueue cfg

namespace LinkQueue

variable {cfg : Config}

/-- The link stage as constructed at a clock reading. -/
def init (cfg : Config) (packetQueue : AbstractPacketQueue) (timestamp : Nat) : LinkQueue cfg where
  nextDelivery := ⟨0, cfg.heavyPdoSchedule.length_pos⟩
  linkBaseTimestamp := timestamp
  packetQueue := packetQueue
  packetInTransit := QueuedPacket.ofContents [] 0
  packetInTransitBytesLeft := 0
  outputQueue := []
  currentLinkQueueSize := 0
  finished := false
  opportunities := []
  enqueued := []

/-- A finished schedule answers -1, the largest `uint64_t`. -/
def nextDeliveryTime (l : LinkQueue cfg) : Nat :=
  if l.finished then u64 (-1)
  else u64 (cfg.heavyPdoSchedule.times[l.nextDelivery] + l.linkBaseTimestamp)

/-- `(next_delivery_ + 1) % heavy_pdo_schedule_.size()`. -/
def followingDelivery (l : LinkQueue cfg) : Fin cfg.heavyPdoSchedule.times.length :=
  ⟨(l.nextDelivery + 1) % cfg.heavyPdoSchedule.times.length,
    Nat.mod_lt _ cfg.heavyPdoSchedule.length_pos⟩

def useADeliveryOpportunity (l : LinkQueue cfg) : LinkQueue cfg :=
  if l.followingDelivery.val = 0 then
    if cfg.repeat_ then
      { l with
        nextDelivery := l.followingDelivery
        linkBaseTimestamp := u64 (l.linkBaseTimestamp + cfg.heavyPdoSchedule.last) }
    else { l with nextDelivery := l.followingDelivery, finished := true }
  else { l with nextDelivery := l.followingDelivery }

/-- Take the next packet off `packet_queue_` unless one is still in transit. -/
def loadPacketInTransit (l : LinkQueue cfg) : Except Fault (LinkQueue cfg) :=
  if l.packetInTransitBytesLeft = 0 then do
    let (packet, rest) ← l.packetQueue.dequeue
    return { l with
      packetQueue := rest
      packetInTransit := packet
      packetInTransitBytesLeft := packet.contents.length }
  else .ok l

/-- The four assertions made before any byte is sent. -/
def assertInTransit (thisDeliveryTime : Nat) (l : LinkQueue cfg) : Except Fault Unit := do
  check "packet_in_transit_.arrival_time <= this_delivery_time"
    (l.packetInTransit.arrivalTime ≤ thisDeliveryTime)
  check "packet_in_transit_bytes_left_ <= PACKET_SIZE" (l.packetInTransitBytesLeft ≤ packetSize)
  check "packet_in_transit_bytes_left_ > 0" (0 < l.packetInTransitBytesLeft)
  check "packet_in_transit_bytes_left_ <= packet_in_transit_.contents.size()"
    (l.packetInTransitBytesLeft ≤ l.packetInTransit.contents.length)

/-- Send some bytes of the packet in transit, which is ready to go when none is left. -/
def sendInTransit (l : LinkQueue cfg) (amountToSend : Nat) : LinkQueue cfg :=
  if l.packetInTransitBytesLeft - amountToSend = 0 then
    { l with
      packetInTransitBytesLeft := 0
      outputQueue := l.outputQueue ++ [l.packetInTransit] }
  else { l with packetInTransitBytesLeft := l.packetInTransitBytesLeft - amountToSend }

/-- The inner loop goes on while bytes are left in the delivery. Its `break`, on an
empty queue with nothing in transit, is the second half of the test. -/
def moreToSend (d : Delivery cfg) : Except Fault Bool :=
  .ok (0 < d.bytesLeftInThisDelivery &&
    !(d.link.packetInTransitBytesLeft == 0 && d.link.packetQueue.empty))

/-- One turn of the inner loop of `rationalize`. -/
def sendBytes (thisDeliveryTime : Nat) (d : Delivery cfg) : Except Fault (Delivery cfg) := do
  let link ← d.link.loadPacketInTransit
  link.assertInTransit thisDeliveryTime
  let amountToSend := min d.bytesLeftInThisDelivery link.packetInTransitBytesLeft
  return {
    bytesLeftInThisDelivery := d.bytesLeftInThisDelivery - amountToSend
    sent := d.sent ++ [(link.packetInTransit, amountToSend)]
    link := link.sendInTransit amountToSend }

/-- One turn of the outer loop of `rationalize`: burn an opportunity and fill it. -/
def burnOpportunity (fuel : Nat) (l : LinkQueue cfg) : Except Fault (LinkQueue cfg) := do
  let thisDeliveryTime := l.nextDeliveryTime
  let d ← whileLoop .fuel moreToSend (sendBytes thisDeliveryTime) fuel
    { bytesLeftInThisDelivery := packetSize, sent := [], link := l.useADeliveryOpportunity }
  return { d.link with opportunities := d.link.opportunities ++ [⟨thisDeliveryTime, d.sent⟩] }

/-- Whether the next opportunity is due. -/
def opportunityDue (now : Nat) (l : LinkQueue cfg) : Except Fault Bool :=
  .ok (decide (l.nextDeliveryTime ≤ now))

/-- Emulate the link up to the given timestamp. -/
def rationalize (fuel now : Nat) (l : LinkQueue cfg) : Except Fault (LinkQueue cfg) :=
  whileLoop .fuel (opportunityDue now) (burnOpportunity fuel) fuel l

def putPacketToLinkQueue (fuel now : Nat) (packet : DelayQueuePacket) (l : LinkQueue cfg) :
    Except Fault (LinkQueue cfg) :=
  if packetSize < packet.contents.length then
    .error (.runtimeError "packet size is greater than maximum")
  else do
    let l ← l.rationalize fuel now
    let packetQueue ← l.packetQueue.enqueue (QueuedPacket.ofDelayed packet now)
    return { l with
      packetQueue := packetQueue
      currentLinkQueueSize := l.currentLinkQueueSize + 1
      enqueued := l.enqueued ++ [(l.packetQueue, QueuedPacket.ofDelayed packet now)] }

/-- `wait_time_link_queue`: the truncation to `int` and the clamp at 0 are the source's. -/
def waitTimeLinkQueue (fuel now : Nat) (l : LinkQueue cfg) :
    Except Fault (Nat × LinkQueue cfg) := do
  let l ← l.rationalize fuel now
  let waitTime := i32 (u64 (l.nextDeliveryTime - now))
  return (u32 (if waitTime < 0 then 0 else waitTime), l)

/-- The packets the link stage holds, first to leave first. -/
def held (l : LinkQueue cfg) : List QueuedPacket :=
  l.outputQueue ++
    ((if 0 < l.packetInTransitBytesLeft then [l.packetInTransit] else []) ++ l.packetQueue.packets)

/-- No packet of the link stage waits to be served. -/
def idle (l : LinkQueue cfg) : Bool :=
  l.packetQueue.empty && l.packetInTransitBytesLeft == 0

end LinkQueue

end CellReplay
