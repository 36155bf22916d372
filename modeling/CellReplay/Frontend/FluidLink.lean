import CellReplay.Frontend.ReleaseOrder
import CellReplay.Lib.FluidServer

set_option autoImplicit false

namespace CellReplay

open FueledLoop FluidServer Transition LinkQueue CellularQueue

variable {cfg : Config} {law : ReleaseLaw}

/-- The bytes an opportunity sent. -/
def Opportunity.transferred (o : Opportunity) : Nat := (o.sent.map Prod.snd).sum

/-- The bytes sent so far in an opportunity in progress. -/
def Delivery.amount (d : Delivery cfg) : Nat := (d.sent.map Prod.snd).sum

namespace LinkQueue

/-- The size of a link packet. -/
abbrev sizeOfPacket (p : QueuedPacket) : Nat := p.contents.length

/-- The packets not fully sent, first to be sent first. -/
def backlog (l : LinkQueue cfg) : List QueuedPacket :=
  (if 0 < l.packetInTransitBytesLeft then [l.packetInTransit] else []) ++ l.packetQueue.packets

/-- The bytes not sent: what is left of the packet in transit, and the packets of the queue. -/
def backlogBytes (l : LinkQueue cfg) : Nat :=
  l.packetInTransitBytesLeft + totalBytes l.packetQueue.packets

/-- The bytes sent by all opportunities so far. -/
def transferred (l : LinkQueue cfg) : Nat := (l.opportunities.map Opportunity.transferred).sum

/-- What a link that drops nothing keeps, with some bytes sent in an opportunity in progress:
every packet put in is either out of the link or in the backlog, and every byte put in is either
sent or left. -/
structure Metered (inProgress : Nat) (l : LinkQueue cfg) : Prop where
  infinite : l.packetQueue.isInfinite = true
  queued : ∃ done, l.putPackets = done ++ l.backlog
  sized : ∀ p ∈ l.putPackets, 0 < p.contents.length ∧ p.contents.length ≤ packetSize
  inTransit : l.packetInTransitBytesLeft ≤ l.packetInTransit.contents.length
  conserved : l.transferred + inProgress + l.backlogBytes = totalBytes l.putPackets

/-- The packets out of the link are those whose bytes are sent. -/
theorem Metered.sent {inProgress : Nat} {l : LinkQueue cfg} (metered : Metered inProgress l)
    {done : List QueuedPacket} (split : l.putPackets = done ++ l.backlog) :
    Sent sizeOfPacket done l.backlog (l.transferred + inProgress) := by
  have conserved := metered.conserved
  have inTransit := metered.inTransit
  have sized := metered.sized
  rw [split, totalBytes_append] at conserved
  have same : bytes sizeOfPacket done = totalBytes done := rfl
  by_cases transit : 0 < l.packetInTransitBytesLeft
  · have shape : l.backlog = l.packetInTransit :: l.packetQueue.packets := by
      unfold backlog
      rw [if_pos transit, List.singleton_append]
    have total : totalBytes l.backlog =
        l.packetInTransit.contents.length + totalBytes l.packetQueue.packets := by
      rw [shape]
      exact bytes_cons sizeOfPacket _ _
    unfold backlogBytes at conserved
    constructor
    · omega
    · intro item first
      rw [shape, List.head?_cons, Option.mem_some_iff] at first
      rw [← first]
      show l.transferred + inProgress < totalBytes done + l.packetInTransit.contents.length
      omega
  · have shape : l.backlog = l.packetQueue.packets := by
      unfold backlog
      rw [if_neg transit, List.nil_append]
    unfold backlogBytes at conserved
    rw [shape] at conserved split ⊢
    constructor
    · omega
    · intro item first
      have member : item ∈ l.putPackets := by
        rw [split]
        exact List.mem_append_right _ (List.mem_of_mem_head? first)
      have positive := (sized item member).1
      show l.transferred + inProgress < totalBytes done + item.contents.length
      omega

/-- Loading the next packet moves its bytes from the queue to the transit. -/
theorem Metered.load {inProgress : Nat} {l loaded : LinkQueue cfg} (metered : Metered inProgress l)
    (run : l.loadPacketInTransit = .ok loaded) :
    Metered inProgress loaded ∧ loaded.backlogBytes = l.backlogBytes := by
  rcases loadPacketInTransit_cases run with ⟨_, rfl⟩ | ⟨none, packet, rest, dequeued, rfl⟩
  · exact ⟨metered, rfl⟩
  · have ⟨front, kind⟩ := AbstractPacketQueue.dequeue_eq_ok dequeued
    have ⟨done, split⟩ := metered.queued
    have before : l.backlog = packet :: rest.packets := by
      unfold backlog
      rw [none, front]
      rfl
    have member : packet ∈ l.putPackets := by
      rw [split, before]
      exact List.mem_append_right _ List.mem_cons_self
    have positive := (metered.sized packet member).1
    have bytesLeft : packet.contents.length + totalBytes rest.packets = l.backlogBytes := by
      unfold backlogBytes
      rw [none, front, Nat.zero_add]
      exact (bytes_cons sizeOfPacket packet rest.packets).symm
    refine ⟨⟨?_, ⟨done, ?_⟩, metered.sized, Nat.le_refl _, ?_⟩, bytesLeft⟩
    · exact kind.trans metered.infinite
    · show l.putPackets = _
      rw [split, before]
      simp only [backlog, if_pos positive, List.singleton_append]
    · have conserved := metered.conserved
      rw [← bytesLeft] at conserved
      exact conserved

/-- Sending some bytes of the packet in transit takes as many off the backlog. -/
theorem Metered.send {inProgress amount : Nat} {l : LinkQueue cfg} (metered : Metered inProgress l)
    (positive : 0 < l.packetInTransitBytesLeft) (within : amount ≤ l.packetInTransitBytesLeft) :
    Metered (inProgress + amount) (l.sendInTransit amount) ∧
      (l.sendInTransit amount).backlogBytes + amount = l.backlogBytes := by
  have ⟨done, split⟩ := metered.queued
  have conserved := metered.conserved
  have inTransit := metered.inTransit
  unfold backlog at split
  rw [if_pos positive] at split
  unfold sendInTransit
  by_cases last : l.packetInTransitBytesLeft - amount = 0
  · rw [if_pos last]
    have bytesLeft : 0 + totalBytes l.packetQueue.packets + amount = l.backlogBytes := by
      unfold backlogBytes
      omega
    refine ⟨⟨metered.infinite, ⟨done ++ [l.packetInTransit], ?_⟩, metered.sized, Nat.zero_le _, ?_⟩,
      bytesLeft⟩
    · show l.putPackets = _
      rw [split, List.append_assoc]
      rfl
    · rw [← bytesLeft] at conserved
      show l.transferred + (inProgress + amount) + (0 + totalBytes l.packetQueue.packets) =
        totalBytes l.putPackets
      omega
  · rw [if_neg last]
    have bytesLeft : l.packetInTransitBytesLeft - amount +
        totalBytes l.packetQueue.packets + amount =
        l.backlogBytes := by
      unfold backlogBytes
      omega
    refine ⟨⟨metered.infinite, ⟨done, ?_⟩, metered.sized, ?_, ?_⟩, bytesLeft⟩
    · show l.putPackets = _
      rw [split]
      simp only [backlog, if_pos (Nat.pos_of_ne_zero last)]
    · show l.packetInTransitBytesLeft - amount ≤ l.packetInTransit.contents.length
      omega
    · rw [← bytesLeft] at conserved
      show l.transferred + (inProgress + amount) +
          (l.packetInTransitBytesLeft - amount + totalBytes l.packetQueue.packets) =
        totalBytes l.putPackets
      omega

/-- A queue that drops nothing gives out a packet as long as it holds one. -/
theorem dequeue_infinite {queue : AbstractPacketQueue} (infinite : queue.isInfinite = true)
    (filled : queue.empty = false) : ∃ packet rest, queue.dequeue = .ok (packet, rest) := by
  cases queue with
  | infinite q =>
      cases shape : q.internalQueue with
      | nil => simp [AbstractPacketQueue.empty, AbstractPacketQueue.packets, shape] at filled
      | cons packet rest =>
          obtain ⟨next, dequeued⟩ : ∃ next, q.dequeue = .ok (packet, next) := by
            rw [InfinitePacketQueue.dequeue, shape]
            exact ⟨_, rfl⟩
          refine ⟨packet, .infinite next, ?_⟩
          rw [AbstractPacketQueue.dequeue, dequeued]
          rfl
  | droptail q => cases infinite
  | drophead q => cases infinite

/-- The failure of the assertion that the packet in transit had arrived. -/
def arrivalAssertion : Fault := .assertion "packet_in_transit_.arrival_time <= this_delivery_time"

/-- Of the four assertions only the one on the arrival time can fail. -/
theorem Metered.asserts {inProgress : Nat} {l : LinkQueue cfg} (metered : Metered inProgress l)
    (positive : 0 < l.packetInTransitBytesLeft) (t : Nat) :
    l.assertInTransit t = .error arrivalAssertion ∨ Sendable t l := by
  have ⟨done, split⟩ := metered.queued
  have member : l.packetInTransit ∈ l.putPackets := by
    rw [split, backlog, if_pos positive]
    simp
  have bounded := (metered.sized _ member).2
  have within := metered.inTransit
  by_cases arrived : l.packetInTransit.arrivalTime ≤ t
  · exact Or.inr ⟨arrived, by omega, positive, within⟩
  · refine Or.inl ?_
    simp only [assertInTransit, check, arrived, decide_false]
    rfl

/-- While there is a backlog a packet is in transit, or one can be loaded. -/
theorem Metered.loads {inProgress : Nat} {l : LinkQueue cfg} (metered : Metered inProgress l)
    (more : (l.packetInTransitBytesLeft == 0 && l.packetQueue.empty) = false) :
    ∃ loaded, l.loadPacketInTransit = .ok loaded ∧ 0 < loaded.packetInTransitBytesLeft := by
  unfold loadPacketInTransit
  by_cases none : l.packetInTransitBytesLeft = 0
  · rw [if_pos none]
    have filled : l.packetQueue.empty = false := by simpa [none] using more
    obtain ⟨packet, rest, dequeued⟩ := dequeue_infinite metered.infinite filled
    have ⟨front, _⟩ := AbstractPacketQueue.dequeue_eq_ok dequeued
    have ⟨done, split⟩ := metered.queued
    have member : packet ∈ l.putPackets := by
      rw [split, backlog, front]
      simp
    rw [dequeued]
    exact ⟨_, rfl, (metered.sized packet member).1⟩
  · rw [if_neg none]
    exact ⟨l, rfl, Nat.pos_of_ne_zero none⟩

theorem sendBytes_eq {t : Nat} {d : Delivery cfg} {loaded : LinkQueue cfg}
    (load : d.link.loadPacketInTransit = .ok loaded) (sendable : Sendable t loaded) :
    sendBytes t d = .ok
      { bytesLeftInThisDelivery := d.bytesLeftInThisDelivery -
          min d.bytesLeftInThisDelivery loaded.packetInTransitBytesLeft
        sent := d.sent ++ [(loaded.packetInTransit,
          min d.bytesLeftInThisDelivery loaded.packetInTransitBytesLeft)]
        link := loaded.sendInTransit
          (min d.bytesLeftInThisDelivery loaded.packetInTransitBytesLeft) } := by
  have asserted : loaded.assertInTransit t = .ok () := assertInTransit_eq_ok.mpr sendable
  simp only [sendBytes, load, asserted, bind, Except.bind]
  rfl

theorem amount_append (d : Delivery cfg) (bytesLeft : Nat) (packet : QueuedPacket) (amount : Nat)
    (link : LinkQueue cfg) :
    (Delivery.mk bytesLeft (d.sent ++ [(packet, amount)]) link).amount = d.amount + amount := by
  simp [Delivery.amount]

/-- What the inner loop keeps of an opportunity that found the link at `l`. -/
structure Filling (l : LinkQueue cfg) (d : Delivery cfg) : Prop where
  metered : Metered d.amount d.link
  budget : d.bytesLeftInThisDelivery + d.amount = packetSize
  drained : d.link.backlogBytes + d.amount = l.backlogBytes
  forwards : Forwards l d.link

/-- A turn of the inner loop sends some bytes, unless the assertion on the arrival fails. -/
theorem Filling.turn {t : Nat} {l : LinkQueue cfg} {d : Delivery cfg} (filling : Filling l d)
    (more : moreToSend d = .ok true) :
    (∃ e, sendBytes t d = .error e ∧ e = arrivalAssertion) ∨
      ∃ next, sendBytes t d = .ok next ∧ Filling l next ∧
        next.bytesLeftInThisDelivery < d.bytesLeftInThisDelivery := by
  have ⟨budgetLeft, backlogged⟩ : 0 < d.bytesLeftInThisDelivery ∧
      (d.link.packetInTransitBytesLeft == 0 && d.link.packetQueue.empty) = false := by
    unfold moreToSend at more
    have test := Except.ok.inj more
    rw [Bool.and_eq_true, Bool.not_eq_true', decide_eq_true_eq] at test
    exact test
  obtain ⟨loaded, load, positive⟩ := filling.metered.loads backlogged
  obtain ⟨metered, same⟩ := filling.metered.load load
  have budget := filling.budget
  have drained := filling.drained
  rcases metered.asserts positive t with failed | sendable
  · refine Or.inl ⟨arrivalAssertion, ?_, rfl⟩
    simp only [sendBytes, load, failed, bind, Except.bind]
  · obtain ⟨sent, bytesLeft⟩ := metered.send positive (Nat.min_le_right d.bytesLeftInThisDelivery _)
    refine Or.inr ⟨_, sendBytes_eq load sendable, ⟨?_, ?_, ?_, ?_⟩, ?_⟩
    · rw [amount_append]
      exact sent
    · rw [amount_append]
      dsimp only
      omega
    · rw [amount_append]
      dsimp only
      omega
    · exact (filling.forwards.trans (loadPacketInTransit_forwards load positive)).trans
        (sendInTransit_forwards _ positive)
    · dsimp only
      omega

/-- What one opportunity does to a link that drops nothing, as a server of bytes: it sends
`min(1400, B)` of the `B` bytes left, and puts in `output_queue_` the link packets whose last
byte it sends, in the order in which they were put in. -/
structure SendsFluid (l next : LinkQueue cfg) : Prop where
  burned : ∃ o, next.opportunities = l.opportunities ++ [o] ∧
    o.transferred = min packetSize l.backlogBytes
  drained : next.backlogBytes = l.backlogBytes - min packetSize l.backlogBytes
  served : ∃ n served, next.outputQueue = l.outputQueue ++ served ∧
    served = (l.putPackets.drop n).take served.length ∧
    ∀ k < l.putPackets.length, n ≤ k ∧ k < n + served.length ↔
      l.transferred < bytesUpTo sizeOfPacket l.putPackets k ∧
        bytesUpTo sizeOfPacket l.putPackets k ≤ next.transferred

theorem metered_useADeliveryOpportunity {inProgress : Nat} {l : LinkQueue cfg}
    (metered : Metered inProgress l) : Metered inProgress l.useADeliveryOpportunity := by
  rw [l.useADeliveryOpportunity_frame]
  exact ⟨metered.infinite, metered.queued, metered.sized, metered.inTransit, metered.conserved⟩

/-- With turns enough for its bytes, an opportunity is filled, unless the assertion on the
arrival fails. -/
theorem Metered.fills {fuel : Nat} {l : LinkQueue cfg} (metered : Metered 0 l)
    (enough : packetSize < fuel) (t : Nat) :
    (∃ e, whileLoop .fuel moreToSend (sendBytes t) fuel ⟨packetSize, [], l⟩ = .error e ∧
        e = arrivalAssertion) ∨
      ∃ d, whileLoop .fuel moreToSend (sendBytes t) fuel ⟨packetSize, [], l⟩ = .ok d := by
  apply whileLoop_ends (I := Filling l) Delivery.bytesLeftInThisDelivery
  · intro d _
    exact ⟨_, rfl⟩
  · intro d filling more
    exact filling.turn more
  · exact ⟨metered, rfl, rfl, Forwards.refl l⟩
  · exact enough

/-- An opportunity ends when its bytes are spent, or when nothing is left to send. -/
theorem Metered.filled {fuel t : Nat} {l : LinkQueue cfg} {d : Delivery cfg} (metered : Metered 0 l)
    (run : whileLoop .fuel moreToSend (sendBytes t) fuel ⟨packetSize, [], l⟩ = .ok d) :
    Filling l d ∧ d.amount = min packetSize l.backlogBytes := by
  have ⟨filling, exit⟩ := whileLoop_inv (I := Filling l)
    (by
      intro a b before turn
      rcases before.turn (t := t) turn.1 with ⟨e, failed, _⟩ | ⟨next, returned, kept, _⟩
      · rw [turn.2] at failed
        cases failed
      · rw [turn.2] at returned
        rw [Except.ok.inj returned]
        exact kept)
    run ⟨metered, rfl, rfl, Forwards.refl l⟩
  refine ⟨filling, ?_⟩
  have budget := filling.budget
  have drained := filling.drained
  unfold moreToSend at exit
  have test := Except.ok.inj exit
  rw [Bool.and_eq_false_iff, Bool.not_eq_false', Bool.and_eq_true, decide_eq_false_iff_not,
    beq_iff_eq] at test
  rcases test with spent | ⟨sent, empty⟩
  · omega
  · have nothing : d.link.backlogBytes = 0 := by
      unfold backlogBytes
      rw [sent, List.isEmpty_iff.mp empty]
      rfl
    omega

/-- A burned opportunity serves the bytes of the backlog, first to come first. -/
theorem Metered.burn {fuel : Nat} {l next : LinkQueue cfg} (metered : Metered 0 l)
    (run : burnOpportunity fuel l = .ok next) : Metered 0 next ∧ SendsFluid l next := by
  have ⟨d, loop, same⟩ := bind_eq_ok.mp run
  have shape := (Except.ok.inj same).symm
  have frame := l.useADeliveryOpportunity_frame
  obtain ⟨filling, amount⟩ := (metered_useADeliveryOpportunity metered).filled loop
  have forwards := filling.forwards
  have filled := filling.metered
  have drained := filling.drained
  have bytesLeft : l.useADeliveryOpportunity.backlogBytes = l.backlogBytes := by
    rw [frame]
    rfl
  have opportunities : d.link.opportunities = l.opportunities := by
    rw [forwards.opportunities, frame]
  have puts : d.link.putPackets = l.putPackets := by
    unfold putPackets
    rw [forwards.enqueued, frame]
  have transferred : next.transferred = l.transferred + d.amount := by
    rw [shape]
    simp only [LinkQueue.transferred, opportunities, List.map_append, List.sum_append]
    rfl
  have before : d.link.transferred = l.transferred := by
    unfold LinkQueue.transferred
    rw [opportunities]
  have after : Metered 0 next := by
    rw [shape] at transferred ⊢
    refine ⟨filled.infinite, filled.queued, filled.sized, filled.inTransit, ?_⟩
    rw [transferred, Nat.add_zero, ← before]
    exact filled.conserved
  rw [bytesLeft] at amount drained
  obtain ⟨served, grown⟩ := forwards.output
  have output : d.link.outputQueue = l.outputQueue ++ served := by
    rw [← grown, frame]
  have backlogs : l.backlog = served ++ next.backlog := by
    have held := forwards.held
    rw [l.useADeliveryOpportunity_held] at held
    unfold LinkQueue.held at held
    rw [output, List.append_assoc] at held
    rw [shape]
    exact (List.append_cancel_left held).symm
  obtain ⟨done, split⟩ := metered.queued
  have first := metered.sent split
  have nextPuts : next.putPackets = l.putPackets := by
    rw [← puts, shape]
    rfl
  have split' : l.putPackets = done ++ served ++ next.backlog := by
    rw [split, backlogs, List.append_assoc]
  have second := after.sent (nextPuts.trans split')
  refine ⟨after, ⟨⟨l.nextDeliveryTime, d.sent⟩, ?_, amount⟩, ?_, done.length, served, ?_, ?_, ?_⟩
  · rw [shape]
    exact congrArg (· ++ [_]) opportunities
  · rw [← amount, ← drained, shape]
    exact (Nat.add_sub_cancel _ _).symm
  · rw [shape]
    exact output
  · rw [split', List.append_assoc, List.drop_left, List.take_left]
  · intro k inside
    rw [backlogs] at first
    rw [split'] at inside ⊢
    exact first.between_iff sizeOfPacket second inside

/-- With turns enough an opportunity does so. Only the assertion on the arrival time can keep it
from that. -/
theorem Metered.burns {fuel : Nat} {l : LinkQueue cfg} (metered : Metered 0 l)
    (enough : packetSize < fuel) : burnOpportunity fuel l = .error arrivalAssertion ∨
      ∃ next, burnOpportunity fuel l = .ok next ∧ SendsFluid l next := by
  rcases (metered_useADeliveryOpportunity metered).fills enough l.nextDeliveryTime with
    ⟨e, failed, same⟩ | ⟨d, returned⟩
  · left
    simp only [burnOpportunity, failed, bind, Except.bind, same]
  · obtain ⟨next, burned⟩ : ∃ next, burnOpportunity fuel l = .ok next := by
      simp only [burnOpportunity, returned, bind, Except.bind]
      exact ⟨_, rfl⟩
    exact Or.inr ⟨next, burned, (metered.burn burned).2⟩

theorem Metered.during {fuel now : Nat} {l mid : LinkQueue cfg} (metered : Metered 0 l)
    (during : Relation.ReflTransGen (Turn (opportunityDue now) (burnOpportunity fuel)) l mid) :
    Metered 0 mid := by
  induction during with
  | refl => exact metered
  | tail _ turn ih => exact (ih.burn turn.2).1

theorem Metered.rationalize {fuel now : Nat} {l next : LinkQueue cfg} (metered : Metered 0 l)
    (run : l.rationalize fuel now = .ok next) : Metered 0 next := by
  have kept := whileLoop_inv (I := Metered 0)
    (fun _ _ before turn => (before.burn turn.2).1) run metered
  exact kept.1

/-- A packet put in the queue is behind all the others, with all its bytes. -/
theorem Metered.put {fuel now : Nat} {packet : DelayQueuePacket} {l next : LinkQueue cfg}
    (metered : Metered 0 l) (filled : packet.contents ≠ [])
    (run : l.putPacketToLinkQueue fuel now packet = .ok next) : Metered 0 next := by
  obtain ⟨fits, served, packetQueue, emulated, offered, shape⟩ := putPacketToLinkQueue_cases run
  have before := metered.rationalize emulated
  obtain ⟨done, split⟩ := before.queued
  have behind := AbstractPacketQueue.enqueue_hasRoom offered
    (AbstractPacketQueue.hasRoom_of_isInfinite before.infinite)
  have puts : next.putPackets = served.putPackets ++ [QueuedPacket.ofDelayed packet now] := by
    rw [shape]
    simp only [putPackets, List.map_append, List.map_singleton]
  refine ⟨?_, ⟨done, ?_⟩, ?_, ?_, ?_⟩
  · rw [shape]
    exact (AbstractPacketQueue.enqueue_isInfinite offered).trans before.infinite
  · rw [puts, split, shape]
    simp only [backlog, behind, List.append_assoc]
  · intro p member
    rw [puts] at member
    rcases List.mem_append.mp member with old | new
    · exact before.sized p old
    · rw [List.mem_singleton.mp new]
      exact ⟨List.length_pos_iff.mpr filled, fits⟩
  · rw [shape]
    exact before.inTransit
  · have conserved := before.conserved
    have bytesLeft : next.backlogBytes = served.backlogBytes + packet.contents.length := by
      rw [shape]
      simp only [backlogBytes, behind, totalBytes_append]
      rw [Nat.add_assoc]
      rfl
    have transferred : next.transferred = served.transferred := by
      rw [shape]
      rfl
    have total : totalBytes [QueuedPacket.ofDelayed packet now] = packet.contents.length := rfl
    rw [puts, totalBytes_append, total]
    omega

end LinkQueue

theorem Act.metered {q next : CellularQueue cfg} {a : Action} (act : Act law q a next)
    (filled : Filled q) (metered : Metered 0 q.link) : Metered 0 next.link := by
  cases act with
  | read run =>
      have ⟨_, packet, admits⟩ := readPacket_admits run
      rw [admits.link]
      exact ⟨metered.infinite, metered.queued, metered.sized, metered.inTransit, metered.conserved⟩
  | pass front due run =>
      rcases forwardPacket_cases run with ⟨_, _, shape⟩ | ⟨_, link, put, shape⟩
      · rw [shape]
        exact metered
      · rw [shape]
        exact metered.put (filled _ (by rw [front]; exact List.mem_cons_self)) put
  | write front run =>
      have ⟨_, shape⟩ := writeOutput_cases front run
      rw [shape]
      exact ⟨metered.infinite, metered.queued, metered.sized, metered.inTransit, metered.conserved⟩
  | serve run => exact metered.rationalize run

/-- No byte is lost or sent twice in any run with a queue that drops nothing. -/
theorem Reaches.metered {ops : List Op} {q : CellularQueue cfg} {t : Nat}
    (reaches : Reaches cfg law (.infinite {}) ops q t) : Metered 0 q.link := by
  have kept := reaches.invariant (I := fun q => Filled q ∧ Metered 0 q.link)
    (fun _ _ _ before act => ⟨act.filled before.1, act.metered before.1 before.2⟩)
    (fun _ _ => ⟨construct_filled _ _ _, rfl,
    ⟨[], rfl⟩, by simp [construct, LinkQueue.init, putPackets],
      Nat.le_refl 0, rfl⟩)
  exact kept.1.2

/-- A packet that bypasses the link, then one of half an opportunity and one of a whole one,
which do not. -/
def halfThenFull : List Op :=
  [.readPacket 0 fullPacket, .readPacket 3 (List.replicate 700 0), .readPacket 3 fullPacket,
    .writePackets (fun _ => 3)]

theorem halfThenFull_timed : Op.Timed 3 0 halfThenFull := by
  refine ⟨0, ?_, ?_, 3, ?_, ?_, 3, ?_, ?_, 3, ?_, ?_, rfl⟩
  all_goals simp [Op.Between, monotone_const]

end CellReplay
