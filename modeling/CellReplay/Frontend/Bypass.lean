import CellReplay.Frontend.Delivery

set_option autoImplicit false

namespace CellReplay

open FueledLoop FifoChannel Transition LinkQueue CellularQueue

variable {cfg : Config} {law : ReleaseLaw}

namespace CellularQueue

/-- The loop of `write_packets` pops `packet` and leaves the emulator in state `mid`. -/
def Pops (fuel : Nat) (clock : Nat → Nat) (first : CellularQueue cfg) (packet : DelayQueuePacket)
    (mid : CellularQueue cfg) : Prop :=
  packet.contents ≠ [] ∧ ∃ reading,
    Relation.ReflTransGen (Turn packetPopped (drainTurn fuel clock (clock 1)))
      { first.popDue clock 0 with reading := 2 } ⟨packet, reading, mid⟩

/-- Every head of the loop of `write_packets` is reached by steps. -/
theorem drained_of_reach {fuel : Nat} {clock : Nat → Nat} {first : CellularQueue cfg}
    {d : Draining cfg}
    (reach : Relation.ReflTransGen (Turn packetPopped (drainTurn fuel clock (clock 1)))
      { first.popDue clock 0 with reading := 2 } d) : DrainedFrom law clock first d := by
  induction reach with
  | refl => exact ⟨[], first, Run.nil, by simp, fun p member => member, 0, rfl, rfl⟩
  | tail _ turn ih => exact drainTurn_drained ih turn

/-- A packet popped was the front of the delay queue; it is forwarded, and the rest of the
call goes on from there. -/
theorem Pops.splits {fuel : Nat} {clock : Nat → Nat} {first mid next : CellularQueue cfg}
    {packet : DelayQueuePacket} (filled : Filled first) (pops : Pops fuel clock first packet mid)
    (written : first.writePackets fuel clock = .ok next) :
    ∃ (before forwarded : CellularQueue cfg) (rest : List DelayQueuePacket)
      (earlier later : List Action) (k : Nat),
      Run (Act law) first earlier before ∧ before.delayPacketQueue.items = packet :: rest ∧
      packet.releaseTime ≤ clock k ∧
      mid = { before with delayPacketQueue := before.delayPacketQueue.pop } ∧
      mid.forwardPacket fuel (clock 1) packet = .ok forwarded ∧
      Run (Act law) forwarded later next ∧
      ∀ a ∈ later, (∃ other k, a = .pass other (clock k) (clock 1)) ∨
        ∃ other, a = .write other := by
  have ⟨contents, reading, reach⟩ := pops
  have ⟨last, drain, flushed⟩ := bind_eq_ok.mp written
  have drained : DrainedFrom law clock first _ := drained_of_reach reach
  have ⟨earlier, before, passed, _, inside, k, popped, queue⟩ := drained.acted
  have ⟨left, resumed⟩ := whileLoop_resume drain reach
  rcases before.popDue_cases clock k with ⟨top, rest, front, due, pop⟩ | ⟨_, pop⟩
  · rw [pop] at popped queue
    simp only at popped queue
    rcases whileLoop_ok_cases resumed with ⟨stop, _⟩ | ⟨fewer, next', _, turn, resumed⟩
    · have test : (!packet.contents.isEmpty) = false := Except.ok.inj stop
      simp [contents] at test
    · have ⟨forwarded, forward, same⟩ := bind_eq_ok.mp turn.2
      have shape : forwarded.popDue clock reading = next' := Except.ok.inj same
      have kept : Filled forwarded := by
        intro p member
        rw [forwardPacket_delayPacketQueue forward, queue, PriorityQueue.pop_items] at member
        exact filled p (inside p (List.mem_of_mem_tail member))
      have start : DrainedFrom law clock forwarded next' :=
        ⟨[], forwarded, Run.nil, by simp, fun p member => member, reading, by rw [shape],
          by rw [shape]⟩
      have ⟨later, acts, labels⟩ := drain_acts kept start resumed flushed
      refine ⟨before, forwarded, rest, earlier, later, k, passed, ?_, ?_, queue, forward, acts, ?_⟩
      · rw [popped]
        exact front
      · rw [popped]
        exact due
      · intro a member
        rcases labels a member with ⟨other, k, same, _⟩ | write
        · exact Or.inl ⟨other, k, same⟩
        · exact Or.inr write
  · rw [pop] at popped
    exact absurd (congrArg DelayQueuePacket.contents popped) contents

/-- What becomes of a packet that passes the heavy schedule by: the call writes it, behind
what was served for the link emulated to `link`, and never puts it in `packet_queue_`. -/
structure PassedBy (packet : DelayQueuePacket) (mid : CellularQueue cfg) (link : LinkQueue cfg)
    (next : CellularQueue cfg) : Prop where
  written : ∃ ahead behind, next.fd = mid.fd ++ ahead ++ [packet.datagram] ++ behind ∧
    link.outputQueue.map QueuedPacket.datagram <+: ahead
  notQueued : ∀ e ∈ next.link.enqueued, e.2.datagram ≠ packet.datagram

end CellularQueue

/-- What is written stays written, and what was put in `packet_queue_` stays recorded. -/
theorem Act.grows {q next : CellularQueue cfg} {a : Action} (act : Act law q a next) :
    q.fd <+: next.fd ∧ q.link.enqueued <+: next.link.enqueued := by
  cases act with
  | read run =>
      have ⟨_, packet, admits⟩ := readPacket_admits run
      rw [admits.fd, admits.link]
      exact ⟨List.prefix_refl _, List.prefix_refl _⟩
  | pass front due run =>
      rcases forwardPacket_cases run with ⟨_, _, shape⟩ | ⟨_, link, put, shape⟩
      · rw [shape]
        exact ⟨List.prefix_append _ _, List.prefix_refl _⟩
      · have ⟨_, served, _, emulated, _, queued⟩ := putPacketToLinkQueue_cases put
        rw [shape, queued]
        refine ⟨List.prefix_refl _, ?_⟩
        simp only [(rationalize_serves emulated).enqueued]
        exact List.prefix_append _ _
  | write front run =>
      have ⟨_, shape⟩ := writeOutput_cases front run
      rw [shape]
      exact ⟨List.prefix_append _ _, List.prefix_refl _⟩
  | serve run =>
      have same := (rationalize_serves run).enqueued
      refine ⟨List.prefix_refl _, ?_⟩
      simp only [same]
      exact List.prefix_refl _

theorem acts_grow {q next : CellularQueue cfg} {actions : List Action}
    (run : Run (Act law) q actions next) :
    q.fd <+: next.fd ∧ q.link.enqueued <+: next.link.enqueued :=
  run.invariant (I := fun s => q.fd <+: s.fd ∧ q.link.enqueued <+: s.link.enqueued)
    (fun _ _ _ before act => ⟨before.1.trans act.grows.1, before.2.trans act.grows.2⟩)
    ⟨List.prefix_refl _, List.prefix_refl _⟩

/-- What was put in `packet_queue_` is no longer in the delay stage. -/
def Forwarded (q : CellularQueue cfg) : Prop :=
  ∀ e ∈ q.link.enqueued, e.2.datagram ∈ q.fd ++ q.link.held.map QueuedPacket.datagram

theorem Act.forwarded {q next : CellularQueue cfg} {a : Action} (act : Act law q a next)
    (ordered : Ordered q) (forwarded : Forwarded q) : Forwarded next := by
  intro e member
  cases act with
  | read run =>
      have ⟨_, packet, admits⟩ := readPacket_admits run
      rw [admits.link] at member
      rw [admits.fd, admits.link]
      exact forwarded e member
  | @pass _ fuel timestamp now packet rest front due run =>
      rcases forwardPacket_cases run with ⟨_, _, shape⟩ | ⟨_, link, put, shape⟩
      · rw [shape] at member ⊢
        have old := forwarded e member
        simp only [List.append_assoc, List.mem_append] at old ⊢
        rcases old with written | held
        · exact Or.inl written
        · exact Or.inr (Or.inr held)
      · have ⟨held, _, _⟩ := putPacketToLinkQueue_infinite ordered.infinite put
        have ⟨_, served, _, emulated, _, queued⟩ := putPacketToLinkQueue_cases put
        rw [shape] at member ⊢
        simp only [queued, (rationalize_serves emulated).enqueued] at member
        simp only [held, List.map_append, List.map_singleton]
        rcases List.mem_append.mp member with old | new
        · have before := forwarded e old
          simp only [List.mem_append] at before ⊢
          rcases before with written | inside
          · exact Or.inl written
          · exact Or.inr (Or.inl inside)
        · rw [List.mem_singleton.mp new]
          simp
  | write front run =>
      have ⟨_, shape⟩ := writeOutput_cases front run
      rw [shape] at member ⊢
      have before := forwarded e member
      rw [held, front] at before
      simpa [held] using before
  | serve run =>
      have serves := rationalize_serves run
      simp only [serves.enqueued] at member
      simp only [serves.held]
      exact forwarded e member

/-- What holds of the emulator with a queue that drops nothing. -/
structure Delivering (q : CellularQueue cfg) : Prop where
  ordered : Ordered q
  carries : ∃ c, Carries q c
  forwarded : Forwarded q

theorem Act.delivering {q next : CellularQueue cfg} {a : Action} (act : Act law q a next)
    (delivering : Delivering q) : Delivering next := by
  have ⟨c, carries⟩ := delivering.carries
  have ⟨d, _, carried⟩ := act.refines delivering.ordered carries
  exact ⟨act.ordered delivering.ordered, ⟨d, carried⟩,
    act.forwarded delivering.ordered delivering.forwarded⟩

theorem Reaches.delivering {ops : List Op} {q : CellularQueue cfg} {t : Nat}
    (reaches : Reaches cfg law (.infinite {}) ops q t) : Delivering q ∧ Filled q := by
  apply reaches.invariant (fun _ _ _ before act => act.delivering before)
  intro linkTimestamp delayTimestamp
  refine ⟨construct_ordered _ _, ⟨Channel.empty, construct_carries _ _⟩, ?_⟩
  intro e member
  simp [construct, LinkQueue.init] at member

/-- A packet that was written is not put in `packet_queue_` later. -/
theorem Act.notQueued {q next : CellularQueue cfg} {a : Action} {packet : DelayQueuePacket}
    (act : Act law q a next) (delivering : Delivering q) (written : packet.datagram ∈ q.fd)
    (never : ∀ e ∈ q.link.enqueued, e.2.datagram ≠ packet.datagram) :
    ∀ e ∈ next.link.enqueued, e.2.datagram ≠ packet.datagram := by
  intro e member
  cases act with
  | read run =>
      have ⟨_, other, admits⟩ := readPacket_admits run
      rw [admits.link] at member
      exact never e member
  | @pass _ fuel timestamp now other rest front due run =>
      rcases forwardPacket_cases run with ⟨_, _, shape⟩ | ⟨_, link, put, shape⟩
      · rw [shape] at member
        exact never e member
      · have ⟨_, served, _, emulated, _, queued⟩ := putPacketToLinkQueue_cases put
        rw [shape] at member
        simp only [queued, (rationalize_serves emulated).enqueued] at member
        rcases List.mem_append.mp member with old | new
        · exact never e old
        · rw [List.mem_singleton.mp new]
          intro same
          have ⟨c, carries⟩ := delivering.carries
          have apart := (carries.once delivering.ordered).2.1
          apply apart written
          rw [← same]
          simp [inFlight, front]
  | write front run =>
      have ⟨_, shape⟩ := writeOutput_cases front run
      rw [shape] at member
      exact never e member
  | serve run =>
      simp only [(rationalize_serves run).enqueued] at member
      exact never e member

/-- A packet that waits for an opportunity after `now` waits on while the call passes other
packets on at `now`. -/
theorem Act.waits {q next : CellularQueue cfg} {a : Action} {packet : QueuedPacket} {now : Nat}
    (act : Act law q a next)
    (label : (∃ other k, a = .pass other k now) ∨ ∃ other, a = .write other)
    (infinite : q.link.packetQueue.isInfinite = true)
    (waits : packet ∈ q.link.packetQueue.packets ∧ now < q.link.nextDeliveryTime) :
    packet ∈ next.link.packetQueue.packets ∧ now < next.link.nextDeliveryTime := by
  cases act with
  | read run => simp at label
  | serve run => simp at label
  | write front run =>
      have ⟨_, shape⟩ := writeOutput_cases front run
      rw [shape]
      exact waits
  | @pass _ fuel timestamp now' other rest front due run =>
      have same : now' = now := by simpa using label
      rw [same] at run
      rcases forwardPacket_cases run with ⟨_, _, shape⟩ | ⟨_, link, put, shape⟩
      · rw [shape]
        exact waits
      · have ⟨_, served, packetQueue, emulated, offered, queued⟩ := putPacketToLinkQueue_cases put
        have unmoved := rationalize_early_eq waits.2 emulated
        rw [unmoved] at offered queued
        have behind := AbstractPacketQueue.enqueue_hasRoom offered
          (AbstractPacketQueue.hasRoom_of_isInfinite infinite)
        rw [shape, queued]
        refine ⟨?_, waits.2⟩
        simp only [behind]
        exact List.mem_append_left _ waits.1

section
variable {before forwarded next : CellularQueue cfg} {packet : DelayQueuePacket}
  {rest : List DelayQueuePacket} {fuel now : Nat}
  (front : before.delayPacketQueue.items = packet :: rest)
  (forward : { before with delayPacketQueue := before.delayPacketQueue.pop }.forwardPacket fuel now
    packet = .ok forwarded)
include front forward

/-- With nothing counted, the packet is written at once and not put in `packet_queue_` later. -/
theorem passedBy_of_uncounted {later : List Action} {turns : Nat} {link : LinkQueue cfg}
    (delivering : Delivering before) (due : packet.releaseTime ≤ now)
    (acts : Run (Act law) forwarded later next) (bypass : packet.isBypassLinkQueue = true)
    (none : before.link.currentLinkQueueSize = 0)
    (emulated : before.link.rationalize turns now = .ok link) :
    PassedBy packet { before with delayPacketQueue := before.delayPacketQueue.pop } link next := by
  have step : Act law before (.pass packet now now) forwarded := Act.pass front due forward
  have delivers := step.delivering delivering
  have empty : link.outputQueue = [] := by
    have held : link.held = [] := by
      apply List.eq_nil_of_length_eq_zero
      rw [(rationalize_serves emulated).held, ← delivering.ordered.counted]
      exact none
    unfold LinkQueue.held at held
    exact (List.append_eq_nil_iff.mp held).1
  rcases forwardPacket_cases forward with ⟨_, _, shape⟩ | ⟨heavy, _⟩
  · have wrote : forwarded.fd = before.fd ++ [packet.datagram] := by rw [shape]
    have never : ∀ e ∈ forwarded.link.enqueued, e.2.datagram ≠ packet.datagram := by
      rw [shape]
      intro e member same
      have old := delivering.forwarded e member
      have ⟨c, carries⟩ := delivering.carries
      have ⟨_, apart, distinct⟩ := carries.once delivering.ordered
      have waiting : packet.datagram ∈
          before.delayPacketQueue.items.map DelayQueuePacket.datagram := by
        simp [front]
      rw [same] at old
      rcases List.mem_append.mp old with written | held
      · exact apart written (List.mem_append_right _ waiting)
      · exact (List.nodup_append'.mp distinct).2.2 held waiting
    constructor
    · have ⟨behind, grown⟩ := (acts_grow acts).1
      refine ⟨[], behind, ?_, ?_⟩
      · rw [← grown, wrote, List.append_nil]
      · rw [empty]
        exact List.nil_prefix
    · have kept := acts.invariant
        (I := fun s => Delivering s ∧ packet.datagram ∈ s.fd ∧
          ∀ e ∈ s.link.enqueued, e.2.datagram ≠ packet.datagram)
        (fun _ _ _ kept act => ⟨act.delivering kept.1, act.grows.1.subset kept.2.1,
          act.notQueued kept.1 kept.2.1 kept.2.2⟩)
        ⟨delivers, by rw [wrote]; simp, never⟩
      exact kept.2.2
  · exact absurd ⟨bypass, none⟩ heavy

/-- With something counted, the packet is put in `packet_queue_`, and is there at the end. -/
theorem queued_of_counted {later : List Action} (delivering : Delivering before)
    (due : packet.releaseTime ≤ now) (acts : Run (Act law) forwarded later next)
    (labels : ∀ a ∈ later, (∃ other k, a = .pass other k now) ∨ ∃ other, a = .write other)
    (counted : before.link.currentLinkQueueSize ≠ 0) :
    (∃ e ∈ next.link.enqueued, e.2.datagram = packet.datagram) ∧
      packet.datagram ∈ next.link.packetQueue.packets.map QueuedPacket.datagram := by
  have step : Act law before (.pass packet now now) forwarded := Act.pass front due forward
  have delivers := step.delivering delivering
  rcases forwardPacket_cases forward with ⟨_, none, _⟩ | ⟨_, link, put, shape⟩
  · exact absurd none counted
  · have ⟨_, served, packetQueue, emulated, offered, queued⟩ := putPacketToLinkQueue_cases put
    have infinite : served.packetQueue.isInfinite = true := by
      rw [(rationalize_serves emulated).discipline]
      exact delivering.ordered.infinite
    have behind := AbstractPacketQueue.enqueue_hasRoom offered
      (AbstractPacketQueue.hasRoom_of_isInfinite infinite)
    constructor
    · refine ⟨(served.packetQueue, QueuedPacket.ofDelayed packet now), ?_, rfl⟩
      apply (acts_grow acts).2.subset
      rw [shape, queued]
      simp
    · have exit : now < served.nextDeliveryTime := rationalize_exit emulated
      have start : QueuedPacket.ofDelayed packet now ∈ forwarded.link.packetQueue.packets ∧
          now < forwarded.link.nextDeliveryTime := by
        rw [shape, queued]
        refine ⟨?_, exit⟩
        simp [behind]
      have kept := acts.guarded
        (I := fun s => Delivering s ∧
          QueuedPacket.ofDelayed packet now ∈ s.link.packetQueue.packets ∧
          now < s.link.nextDeliveryTime)
        (P := fun a => (∃ other k, a = .pass other k now) ∨ ∃ other, a = .write other)
        (fun _ _ _ label kept act =>
          ⟨act.delivering kept.1, act.waits label kept.1.ordered.infinite kept.2⟩)
        labels ⟨delivers, start⟩
      exact List.mem_map_of_mem kept.2.1

end

/-- A packet flagged to bypass, popped when the link stage holds nothing unserved, passes the
heavy schedule by exactly when the counter is 0 as it is popped: nothing waits in
`output_queue_` and nothing is only now served. Otherwise it waits for a later opportunity. The
counter is at most the number of packets read. -/
theorem passedBy_iff {ops : List Op} {q mid next : CellularQueue cfg} {t fuel turns now : Nat}
    {packet : DelayQueuePacket} {link : LinkQueue cfg}
    (reaches : Reaches cfg law (.infinite {}) ops q t)
    (written : q.writePackets fuel (fun _ => now) = .ok next)
    (pops : Pops fuel (fun _ => now) q packet mid) (bypass : packet.isBypassLinkQueue = true)
    (emulated : mid.link.rationalize turns now = .ok link) :
    ((link.idle = true → PassedBy packet mid link next) ↔
      (link.idle = true → mid.link.currentLinkQueueSize = 0)) ∧
    (mid.link.currentLinkQueueSize ≠ 0 →
      packet.datagram ∈ next.link.packetQueue.packets.map QueuedPacket.datagram) ∧
    mid.link.currentLinkQueueSize ≤ mid.emplaced.length := by
  have ⟨delivering, filled⟩ := reaches.delivering
  have ⟨before, forwarded, rest, earlier, later, k, passed, front, due, shape,
    forward, acts, labels⟩ :
      ∃ (before forwarded : CellularQueue cfg) (rest : List DelayQueuePacket)
        (earlier later : List Action) (k : Nat), Run (Act law) q earlier before ∧ _ :=
    pops.splits filled written
  have delivers : Delivering before :=
    passed.invariant (fun _ _ _ kept act => act.delivering kept) delivering
  have steady : ∀ a ∈ later,
      (∃ other timestamp, a = .pass other timestamp now) ∨ ∃ other, a = .write other := by
    intro a member
    rcases labels a member with ⟨other, _, pass⟩ | write
    · exact Or.inl ⟨other, now, pass⟩
    · exact Or.inr write
  have balanced : Balanced before :=
    passed.invariant (fun _ _ _ kept act => act.balanced kept) reaches.balanced
  unfold Balanced at balanced
  rw [shape] at forward emulated ⊢
  refine ⟨?_, ?_, show before.link.currentLinkQueueSize ≤ before.emplaced.length by omega⟩
  · constructor
    · intro passedBy idle
      by_contra counted
      have ⟨⟨e, member, same⟩, _⟩ :=
        queued_of_counted front forward delivers due acts steady counted
      exact (passedBy idle).notQueued e member same
    · intro empty idle
      exact passedBy_of_uncounted front forward delivers due acts bypass (empty idle) emulated
  · intro counted
    exact (queued_of_counted front forward delivers due acts steady counted).2

/-- A heavy packet is served by a poll at 10 ms, just before a light packet is read. -/
def servedThenLight : List Op :=
  [.readPacket 0 fullPacket, .readPacket 3 fullPacket, .writePackets (fun _ => 3),
    .waitTime 10 10, .readPacket 10 fullPacket]

theorem servedThenLight_timed : Op.Timed 10 0 servedThenLight := by
  refine ⟨0, ?_, ?_, 3, ?_, ?_, 3, ?_, ?_, 10, ?_, ?_, 10, ?_, ?_, rfl⟩
  all_goals simp [Op.Between, monotone_const]

/-- `write_packets` at 10 ms pops the light packet with nothing unserved in the link stage,
and with the packet served still waiting in `output_queue_`. -/
theorem servedThenLight_reaches :
    ∃ q mid next : CellularQueue undelayed, ∃ packet link,
      Reaches undelayed (LightPdo.getPktReleaseTime undelayed) (.infinite {}) servedThenLight q 10 ∧
      q.writePackets 10 (fun _ => 10) = .ok next ∧ Pops 10 (fun _ => 10) q packet mid ∧
      packet.isBypassLinkQueue = true ∧ mid.link.rationalize 10 10 = .ok link ∧
      link.idle = true ∧ mid.link.currentLinkQueueSize = 1 ∧
      next.link.packetQueue.packets.map QueuedPacket.datagram = [packet.datagram] ∧
      packet.datagram ∈ next.link.enqueued.map (fun e => e.2.datagram) := by
  have observed : (Op.execAll (LightPdo.getPktReleaseTime undelayed) 10 servedThenLight
      (construct undelayed (.infinite {}) 0 0)).toOption.map (fun q =>
        let d := q.popDue (fun _ => 10) 0
        (d.nextPacket.isBypassLinkQueue, d.nextPacket.contents.isEmpty,
          d.queue.link.currentLinkQueueSize,
          (d.queue.link.rationalize 10 10).toOption.map LinkQueue.idle,
          (q.writePackets 10 (fun _ => 10)).toOption.map (fun next => decide
            (next.link.packetQueue.packets.map QueuedPacket.datagram = [d.nextPacket.datagram] ∧
              d.nextPacket.datagram ∈ next.link.enqueued.map (fun e => e.2.datagram))))) =
      some (true, false, 1, some true, some true) := by decide +kernel
  have ⟨q, reaches, seen⟩ := Reaches.of_execAll servedThenLight_timed observed
  have ⟨bypass, rest⟩ := Prod.mk.inj seen
  have ⟨contents, rest⟩ := Prod.mk.inj rest
  have ⟨counter, rest⟩ := Prod.mk.inj rest
  have ⟨emulated, wrote⟩ := Prod.mk.inj rest
  have ⟨link, emulated, idle⟩ := observe_ok emulated
  have ⟨next, wrote, outcome⟩ := observe_ok wrote
  have ⟨waiting, enqueued⟩ := of_decide_eq_true outcome
  refine ⟨q, _, next, _, link, reaches, wrote, ⟨?_, 2, Relation.ReflTransGen.refl⟩,
    bypass, emulated,
    idle, counter, waiting, enqueued⟩
  simpa using contents

/-- The light packet is put in `packet_queue_` although nothing unserved was ahead of it. -/
theorem not_passedBy :
    ∃ q mid next : CellularQueue undelayed, ∃ packet link,
      Reaches undelayed (LightPdo.getPktReleaseTime undelayed) (.infinite {}) servedThenLight q 10 ∧
      q.writePackets 10 (fun _ => 10) = .ok next ∧ Pops 10 (fun _ => 10) q packet mid ∧
      packet.isBypassLinkQueue = true ∧ mid.link.rationalize 10 10 = .ok link ∧
      link.idle = true ∧ ¬ PassedBy packet mid link next := by
  have ⟨q, mid, next, packet, link, reaches, written, pops, bypass, emulated, idle, _, _, queued⟩ :=
    servedThenLight_reaches
  refine ⟨q, mid, next, packet, link, reaches, written, pops, bypass, emulated, idle, ?_⟩
  intro passedBy
  have ⟨e, member, same⟩ := List.mem_map.mp queued
  exact passedBy.notQueued e member same

/-- `write_packets` pops a light packet with nothing at all in the link stage. -/
theorem lightOnly_reaches :
    ∃ q mid next : CellularQueue undelayed, ∃ packet link,
      Reaches undelayed (LightPdo.getPktReleaseTime undelayed) (.infinite {})
        [.readPacket 0 fullPacket] q 0 ∧
      q.writePackets 10 (fun _ => 0) = .ok next ∧ Pops 10 (fun _ => 0) q packet mid ∧
      packet.isBypassLinkQueue = true ∧ mid.link.rationalize 10 0 = .ok link ∧
      link.idle = true ∧ mid.link.currentLinkQueueSize = 0 := by
  have timed : Op.Timed 0 0 [.readPacket 0 fullPacket] := ⟨0, by simp, by simp [Op.Between], rfl⟩
  have observed : (Op.execAll (LightPdo.getPktReleaseTime undelayed) 10 [.readPacket 0 fullPacket]
      (construct undelayed (.infinite {}) 0 0)).toOption.map (fun q =>
        let d := q.popDue (fun _ => 0) 0
        (d.nextPacket.isBypassLinkQueue, d.nextPacket.contents.isEmpty,
          d.queue.link.currentLinkQueueSize,
          (d.queue.link.rationalize 10 0).toOption.map LinkQueue.idle,
          (q.writePackets 10 (fun _ => 0)).toOption.map (fun _ => ()))) =
      some (true, false, 0, some true, some ()) := by decide +kernel
  obtain ⟨q, reaches, seen⟩ := Reaches.of_execAll timed observed
  obtain ⟨bypass, rest⟩ := Prod.mk.inj seen
  obtain ⟨contents, rest⟩ := Prod.mk.inj rest
  obtain ⟨counter, rest⟩ := Prod.mk.inj rest
  obtain ⟨emulated, wrote⟩ := Prod.mk.inj rest
  obtain ⟨link, emulated, idle⟩ := observe_ok emulated
  obtain ⟨next, wrote, _⟩ := observe_ok wrote
  refine ⟨q, _, next, _, link, reaches, wrote, ⟨?_, 2, Relation.ReflTransGen.refl⟩, bypass,
    emulated, idle, counter⟩
  simpa using contents

/-- A light packet passes by an empty link stage, and does not pass by a packet served that waits in
`output_queue_`. -/
theorem passedBy_iff_servedThenLight :
    (∃ q mid next : CellularQueue undelayed, ∃ packet link,
      Reaches undelayed (LightPdo.getPktReleaseTime undelayed) (.infinite {})
        [.readPacket 0 fullPacket] q 0 ∧
      q.writePackets 10 (fun _ => 0) = .ok next ∧ Pops 10 (fun _ => 0) q packet mid ∧
      packet.isBypassLinkQueue = true ∧ mid.link.rationalize 10 0 = .ok link ∧
      link.idle = true ∧ mid.link.currentLinkQueueSize = 0 ∧ PassedBy packet mid link next) ∧
    ∃ q mid next : CellularQueue undelayed, ∃ packet link,
      Reaches undelayed (LightPdo.getPktReleaseTime undelayed) (.infinite {}) servedThenLight q 10 ∧
      q.writePackets 10 (fun _ => 10) = .ok next ∧ Pops 10 (fun _ => 10) q packet mid ∧
      packet.isBypassLinkQueue = true ∧ mid.link.rationalize 10 10 = .ok link ∧
      link.idle = true ∧ mid.link.currentLinkQueueSize = 1 ∧
      ¬ PassedBy packet mid link next := by
  constructor
  · obtain ⟨q, mid, next, packet, link, reaches, written, pops, bypass, emulated, idle, counter⟩ :=
      lightOnly_reaches
    have passes := (passedBy_iff reaches written pops bypass emulated).1.mpr (fun _ => counter) idle
    exact ⟨q, mid, next, packet, link, reaches, written, pops, bypass, emulated, idle, counter,
      passes⟩
  · obtain ⟨q, mid, next, packet, link, reaches, written, pops, bypass, emulated, idle, counter,
      _, _⟩ := servedThenLight_reaches
    refine ⟨q, mid, next, packet, link, reaches, written, pops, bypass, emulated, idle, counter, ?_⟩
    intro passedBy
    have none := (passedBy_iff reaches written pops bypass emulated).1.mp (fun _ => passedBy) idle
    omega

end CellReplay
