import CellReplay.Frontend.LinkQueue

set_option autoImplicit false

namespace CellReplay.LinkQueue

open MachineWord FueledLoop

variable {cfg : Config}

/-- What the four assertions say of the packet in transit. -/
structure Sendable (thisDeliveryTime : Nat) (l : LinkQueue cfg) : Prop where
  arrived : l.packetInTransit.arrivalTime ≤ thisDeliveryTime
  bounded : l.packetInTransitBytesLeft ≤ packetSize
  positive : 0 < l.packetInTransitBytesLeft
  within : l.packetInTransitBytesLeft ≤ l.packetInTransit.contents.length

theorem assertInTransit_eq_ok {t : Nat} {l : LinkQueue cfg} {u : Unit} :
    l.assertInTransit t = .ok u ↔ Sendable t l := by
  simp only [assertInTransit, bind_eq_ok, check_eq_ok, decide_eq_true_eq]
  constructor
  · rintro ⟨_, first, _, second, _, third, fourth⟩
    exact ⟨first, second, third, fourth⟩
  · intro s
    exact ⟨(), s.arrived, (), s.bounded, (), s.positive, s.within⟩

theorem loadPacketInTransit_cases {l loaded : LinkQueue cfg}
    (run : l.loadPacketInTransit = .ok loaded) :
    l.packetInTransitBytesLeft ≠ 0 ∧ loaded = l ∨
      l.packetInTransitBytesLeft = 0 ∧ ∃ packet rest, l.packetQueue.dequeue = .ok (packet, rest) ∧
        loaded = { l with
          packetQueue := rest
          packetInTransit := packet
          packetInTransitBytesLeft := packet.contents.length } := by
  unfold loadPacketInTransit at run
  by_cases none : l.packetInTransitBytesLeft = 0
  · rw [if_pos none] at run
    have ⟨⟨packet, rest⟩, dequeued, same⟩ := bind_eq_ok.mp run
    exact Or.inr ⟨none, packet, rest, dequeued, (Except.ok.inj same).symm⟩
  · rw [if_neg none] at run
    exact Or.inl ⟨none, (Except.ok.inj run).symm⟩

/-- One turn of the inner loop: load, assert, send. -/
theorem sendBytes_cases {t : Nat} {d next : Delivery cfg} (run : sendBytes t d = .ok next) :
    ∃ loaded, d.link.loadPacketInTransit = .ok loaded ∧ Sendable t loaded ∧
      next =
        { bytesLeftInThisDelivery := d.bytesLeftInThisDelivery -
            min d.bytesLeftInThisDelivery loaded.packetInTransitBytesLeft
          sent := d.sent ++ [(loaded.packetInTransit,
            min d.bytesLeftInThisDelivery loaded.packetInTransitBytesLeft)]
          link := loaded.sendInTransit
            (min d.bytesLeftInThisDelivery loaded.packetInTransitBytesLeft) } := by
  have ⟨loaded, load, run⟩ := bind_eq_ok.mp run
  have ⟨_, asserted, run⟩ := bind_eq_ok.mp run
  exact ⟨loaded, load, assertInTransit_eq_ok.mp asserted, (Except.ok.inj run).symm⟩

/-- What sending bytes can do: packets move forward inside the link stage, in order,
and nothing else changes. -/
structure Forwards (l next : LinkQueue cfg) : Prop where
  held : next.held = l.held
  output : l.outputQueue <+: next.outputQueue
  discipline : next.packetQueue.isInfinite = l.packetQueue.isInfinite
  nextDelivery : next.nextDelivery = l.nextDelivery
  linkBaseTimestamp : next.linkBaseTimestamp = l.linkBaseTimestamp
  currentLinkQueueSize : next.currentLinkQueueSize = l.currentLinkQueueSize
  finished : next.finished = l.finished
  opportunities : next.opportunities = l.opportunities
  enqueued : next.enqueued = l.enqueued

theorem Forwards.refl (l : LinkQueue cfg) : Forwards l l :=
  ⟨rfl, List.prefix_refl _, rfl, rfl, rfl, rfl, rfl, rfl, rfl⟩

theorem Forwards.trans {a b c : LinkQueue cfg} (ab : Forwards a b) (bc : Forwards b c) :
    Forwards a c :=
  ⟨bc.held.trans ab.held, ab.output.trans bc.output, bc.discipline.trans ab.discipline,
    bc.nextDelivery.trans ab.nextDelivery, bc.linkBaseTimestamp.trans ab.linkBaseTimestamp,
    bc.currentLinkQueueSize.trans ab.currentLinkQueueSize, bc.finished.trans ab.finished,
    bc.opportunities.trans ab.opportunities, bc.enqueued.trans ab.enqueued⟩

/-- A packet taken off the queue stays in the link stage, as long as it has a byte. -/
theorem loadPacketInTransit_forwards {l loaded : LinkQueue cfg}
    (run : l.loadPacketInTransit = .ok loaded) (positive : 0 < loaded.packetInTransitBytesLeft) :
    Forwards l loaded := by
  rcases loadPacketInTransit_cases run with ⟨-, rfl⟩ | ⟨none, packet, rest, dequeued, rfl⟩
  · exact Forwards.refl loaded
  · have ⟨front, kind⟩ := AbstractPacketQueue.dequeue_eq_ok dequeued
    refine ⟨?_, List.prefix_refl _, kind, rfl, rfl, rfl, rfl, rfl, rfl⟩
    simp only [held, none, front, if_pos positive, Nat.lt_irrefl, ↓reduceIte, List.nil_append,
      List.singleton_append]

theorem sendInTransit_forwards {l : LinkQueue cfg} (amount : Nat)
    (positive : 0 < l.packetInTransitBytesLeft) : Forwards l (l.sendInTransit amount) := by
  unfold sendInTransit
  split
  · refine ⟨?_, List.prefix_append _ _, rfl, rfl, rfl, rfl, rfl, rfl, rfl⟩
    simp only [held, if_pos positive, Nat.lt_irrefl, ↓reduceIte, List.nil_append,
      List.singleton_append, List.append_assoc]
  · rename_i some'
    refine ⟨?_, List.prefix_refl _, rfl, rfl, rfl, rfl, rfl, rfl, rfl⟩
    simp only [held, if_pos positive, if_pos (Nat.pos_of_ne_zero some')]

theorem sendBytes_forwards {t : Nat} {d next : Delivery cfg} (run : sendBytes t d = .ok next) :
    Forwards d.link next.link := by
  obtain ⟨loaded, load, sendable, rfl⟩ := sendBytes_cases run
  exact (loadPacketInTransit_forwards load sendable.positive).trans
    (sendInTransit_forwards _ sendable.positive)

/-- What is sent is sent of a packet of the link stage that had arrived. -/
def SentFrom (t : Nat) (packets : List QueuedPacket) (sent : List (QueuedPacket × Nat)) : Prop :=
  ∀ s ∈ sent, s.1 ∈ packets ∧ s.1.arrivalTime ≤ t

theorem mem_held_of_sendable {t : Nat} {l : LinkQueue cfg} (sendable : Sendable t l) :
    l.packetInTransit ∈ l.held := by
  simp only [held, if_pos sendable.positive, List.mem_append, List.mem_singleton, true_or, or_true]

/-- Burning an opportunity moves the schedule on, and nothing else. -/
theorem useADeliveryOpportunity_frame (l : LinkQueue cfg) :
    l.useADeliveryOpportunity = { l with
      nextDelivery := l.useADeliveryOpportunity.nextDelivery
      linkBaseTimestamp := l.useADeliveryOpportunity.linkBaseTimestamp
      finished := l.useADeliveryOpportunity.finished } := by
  unfold useADeliveryOpportunity
  split
  · split
    · rfl
    · rfl
  · rfl

theorem useADeliveryOpportunity_held (l : LinkQueue cfg) :
    l.useADeliveryOpportunity.held = l.held := by
  rw [l.useADeliveryOpportunity_frame]
  rfl

/-- One burned opportunity: the schedule moves on, packets move forward, and the
opportunity is recorded with what it sent. -/
theorem burnOpportunity_cases {fuel : Nat} {l next : LinkQueue cfg}
    (run : burnOpportunity fuel l = .ok next) :
    ∃ (link : LinkQueue cfg) (sent : List (QueuedPacket × Nat)),
      Forwards l.useADeliveryOpportunity link ∧ SentFrom l.nextDeliveryTime l.held sent ∧
      next = { link with opportunities := link.opportunities ++ [⟨l.nextDeliveryTime, sent⟩] } := by
  have ⟨d, loop, same⟩ := bind_eq_ok.mp run
  have kept := whileLoop_inv
    (I := fun d => Forwards l.useADeliveryOpportunity d.link ∧
      SentFrom l.nextDeliveryTime l.held d.sent)
    (by
      intro a b before turn
      have ⟨loaded, load, sendable, shape⟩ := sendBytes_cases turn.2
      have loads := before.1.trans (loadPacketInTransit_forwards load sendable.positive)
      refine ⟨before.1.trans (sendBytes_forwards turn.2), ?_⟩
      rw [shape]
      intro s member
      rcases List.mem_append.mp member with old | new
      · exact before.2 s old
      · cases List.mem_singleton.mp new
        refine ⟨?_, sendable.arrived⟩
        rw [← l.useADeliveryOpportunity_held, ← loads.held]
        exact mem_held_of_sendable sendable)
    loop ⟨Forwards.refl _, by simp [SentFrom]⟩
  exact ⟨d.link, d.sent, kept.1.1, kept.1.2, (Except.ok.inj same).symm⟩

/-- What emulating the link can do: packets move forward inside the link stage, in order,
and opportunities are burned. -/
structure Serves (l next : LinkQueue cfg) : Prop where
  held : next.held = l.held
  output : l.outputQueue <+: next.outputQueue
  discipline : next.packetQueue.isInfinite = l.packetQueue.isInfinite
  currentLinkQueueSize : next.currentLinkQueueSize = l.currentLinkQueueSize
  opportunities : l.opportunities <+: next.opportunities
  sent : ∀ o ∈ next.opportunities, o ∈ l.opportunities ∨ SentFrom o.deliveryTime l.held o.sent
  enqueued : next.enqueued = l.enqueued

theorem Serves.refl (l : LinkQueue cfg) : Serves l l :=
  ⟨rfl, List.prefix_refl _, rfl, rfl, List.prefix_refl _, fun _ => Or.inl, rfl⟩

theorem Serves.trans {a b c : LinkQueue cfg} (ab : Serves a b) (bc : Serves b c) : Serves a c := by
  refine ⟨bc.held.trans ab.held, ab.output.trans bc.output, bc.discipline.trans ab.discipline,
    bc.currentLinkQueueSize.trans ab.currentLinkQueueSize,
    ab.opportunities.trans bc.opportunities, ?_, bc.enqueued.trans ab.enqueued⟩
  intro o member
  rcases bc.sent o member with old | new
  · exact ab.sent o old
  · rw [ab.held] at new
    exact Or.inr new

theorem burnOpportunity_serves {fuel : Nat} {l next : LinkQueue cfg}
    (run : burnOpportunity fuel l = .ok next) : Serves l next := by
  have ⟨link, sent, forwards, sends, shape⟩ := burnOpportunity_cases run
  have frame := l.useADeliveryOpportunity_frame
  have opportunities : link.opportunities = l.opportunities := by
    rw [forwards.opportunities, frame]
  rw [shape]
  refine ⟨?_, ?_, ?_, ?_, ?_, ?_, ?_⟩
  · exact forwards.held.trans l.useADeliveryOpportunity_held
  · have output := forwards.output
    rw [frame] at output
    exact output
  · rw [forwards.discipline, frame]
  · rw [forwards.currentLinkQueueSize, frame]
  · rw [opportunities]
    exact List.prefix_append _ _
  · intro o member
    rw [opportunities] at member
    rcases List.mem_append.mp member with old | new
    · exact Or.inl old
    · rw [List.mem_singleton.mp new]
      exact Or.inr sends
  · rw [forwards.enqueued, frame]

theorem rationalize_serves {fuel now : Nat} {l next : LinkQueue cfg}
    (run : l.rationalize fuel now = .ok next) : Serves l next :=
  whileLoop_rel Serves.refl (fun _ _ _ => Serves.trans)
    (fun _ _ turn => burnOpportunity_serves turn.2) run

/-- A packet put in the link stage: the link is emulated first, then the queue is offered
the packet, and the packet is counted. -/
theorem putPacketToLinkQueue_cases {fuel now : Nat} {packet : DelayQueuePacket}
    {l next : LinkQueue cfg} (run : l.putPacketToLinkQueue fuel now packet = .ok next) :
    packet.contents.length ≤ packetSize ∧
      ∃ (served : LinkQueue cfg) (packetQueue : AbstractPacketQueue),
        l.rationalize fuel now = .ok served ∧
        served.packetQueue.enqueue (QueuedPacket.ofDelayed packet now) = .ok packetQueue ∧
        next = { served with
          packetQueue := packetQueue
          currentLinkQueueSize := served.currentLinkQueueSize + 1
          enqueued := served.enqueued ++
            [(served.packetQueue, QueuedPacket.ofDelayed packet now)] } := by
  unfold putPacketToLinkQueue at run
  split at run
  · cases run
  · rename_i fits
    have ⟨served, emulated, run⟩ := bind_eq_ok.mp run
    have ⟨packetQueue, offered, run⟩ := bind_eq_ok.mp run
    exact ⟨by omega, served, packetQueue, emulated, offered, (Except.ok.inj run).symm⟩

/-- A queue that takes every packet puts the packet behind all the others of the link stage. -/
theorem putPacketToLinkQueue_infinite {fuel now : Nat} {packet : DelayQueuePacket}
    {l next : LinkQueue cfg} (infinite : l.packetQueue.isInfinite = true)
    (run : l.putPacketToLinkQueue fuel now packet = .ok next) :
    next.held = l.held ++ [QueuedPacket.ofDelayed packet now] ∧
      next.packetQueue.isInfinite = true ∧
      next.currentLinkQueueSize = l.currentLinkQueueSize + 1 := by
  have ⟨_, served, packetQueue, emulated, offered, shape⟩ := putPacketToLinkQueue_cases run
  have serves := rationalize_serves emulated
  have kind : served.packetQueue.isInfinite = true := by rw [serves.discipline, infinite]
  have room := AbstractPacketQueue.hasRoom_of_isInfinite
    (p := QueuedPacket.ofDelayed packet now) kind
  have behind := AbstractPacketQueue.enqueue_hasRoom offered room
  refine ⟨?_, ?_, ?_⟩
  · rw [shape, ← serves.held]
    simp only [held, behind, List.append_assoc]
  · rw [shape]
    exact (AbstractPacketQueue.enqueue_isInfinite offered).trans kind
  · rw [shape, ← serves.currentLinkQueueSize]

/-- The link is emulated up to the given time: the next opportunity is later. -/
theorem rationalize_exit {fuel now : Nat} {l next : LinkQueue cfg}
    (run : l.rationalize fuel now = .ok next) : now < next.nextDeliveryTime := by
  have exit := whileLoop_inv (I := fun _ => True) (fun _ _ _ _ => trivial) run trivial
  have stop : decide (next.nextDeliveryTime ≤ now) = false := Except.ok.inj exit.2
  simpa using stop

/-- Before the next opportunity there is nothing to emulate. -/
theorem rationalize_early (fuel now : Nat) (l : LinkQueue cfg) (early : now < l.nextDeliveryTime) :
    l.rationalize (fuel + 1) now = .ok l := by
  apply whileLoop_exit
  unfold opportunityDue
  congr 1
  simpa using early

/-- A call that has nothing to emulate and returns leaves the state as it was. -/
theorem rationalize_early_eq {fuel now : Nat} {l next : LinkQueue cfg}
    (early : now < l.nextDeliveryTime) (run : l.rationalize fuel now = .ok next) : next = l := by
  cases fuel with
  | zero => cases run
  | succ fuel =>
      rw [rationalize_early fuel now l early] at run
      exact (Except.ok.inj run).symm

end CellReplay.LinkQueue
