import CellReplay.Frontend.Execution
import CellReplay.Frontend.Occupancy
import CellReplay.Lib.FifoChannel

set_option autoImplicit false

namespace CellReplay

open FifoChannel Transition LinkQueue CellularQueue

variable {cfg : Config} {law : ReleaseLaw}

/-- What the emulator is for: a channel of datagrams. A packet read enters it. A packet
popped from the delay queue leaves it or stays inside, and a packet written leaves it. -/
inductive Passage : Channel Datagram → Action → Channel Datagram → Prop
  | read {c d : Channel Datagram} {now number : Nat} {contents : Bytes}
      (move : Move [⟨number, contents⟩] [] c d) : Passage c (.read now contents) d
  | through {c d : Channel Datagram} {packet : DelayQueuePacket} {timestamp now : Nat}
      (move : Move [] [packet.datagram] c d) : Passage c (.pass packet timestamp now) d
  | inside {c d : Channel Datagram} {packet : DelayQueuePacket} {timestamp now : Nat}
      (move : Move [] [] c d) : Passage c (.pass packet timestamp now) d
  | write {c d : Channel Datagram} {packet : QueuedPacket}
      (move : Move [] [packet.datagram] c d) : Passage c (.write packet) d
  | serve {c d : Channel Datagram} {now : Nat} (move : Move [] [] c d) : Passage c (.serve now) d

namespace CellularQueue

/-- The datagrams inside the emulator, first to leave first. -/
def inFlight (q : CellularQueue cfg) : List Datagram :=
  q.link.held.map QueuedPacket.datagram ++ q.delayPacketQueue.items.map DelayQueuePacket.datagram

/-- The channel that the emulator is. -/
structure Carries (q : CellularQueue cfg) (c : Channel Datagram) : Prop where
  entered : c.entered = q.emplaced.map DelayQueuePacket.datagram
  departed : c.departed = q.fd
  held : c.held = q.inFlight

/-- What keeps the two stages in order. -/
structure Ordered (q : CellularQueue cfg) : Prop where
  infinite : q.link.packetQueue.isInfinite = true
  counted : q.link.currentLinkQueueSize = q.link.held.length
  released : ∀ p ∈ q.delayPacketQueue.items, p.releaseTime ≤ q.endReleaseTime
  earlier : ∀ p ∈ q.delayPacketQueue.items, p.sequenceNumber < q.pktCounter
  numbered : q.pktCounter = q.emplaced.length
  datagrams : q.emplaced.map DelayQueuePacket.datagram =
    (q.emplaced.map DelayQueuePacket.contents).mapIdx Datagram.mk

/-- A packet read goes behind all the others: its release time is clamped to the end. -/
theorem Admits.last {now : Nat} {contents : Bytes} {packet : DelayQueuePacket}
    {q next : CellularQueue cfg} (ordered : Ordered q)
    (admits : Admits now contents packet q next) :
    next.delayPacketQueue.items = q.delayPacketQueue.items ++ [packet] := by
  rw [admits.delayPacketQueue]
  apply PriorityQueue.push_last
  intro p member before
  have released := ordered.released p member
  have earlier := ordered.earlier p member
  have clamped := admits.clamped
  have number := admits.sequenceNumber
  have release := admits.releaseTime
  have order := (popsBefore_iff _ _).mp before
  omega

/-- A step whose datagrams go in behind and come out in front is a passage. -/
theorem Carries.passage {q next : CellularQueue cfg} {c : Channel Datagram} {a : Action}
    (carries : Carries q c) (ins outs : List Datagram)
    (build : ∀ d, Move ins outs c d → Passage c a d)
    (entered : next.emplaced.map DelayQueuePacket.datagram =
      q.emplaced.map DelayQueuePacket.datagram ++ ins)
    (departed : next.fd = q.fd ++ outs) (cut : q.inFlight ++ ins = outs ++ next.inFlight) :
    ∃ d, Passage c a d ∧ Carries next d := by
  rw [← carries.held] at cut
  have ⟨d, move, held⟩ := Move.of_held cut
  refine ⟨d, build d move, ?_, ?_, held⟩
  · rw [move.1, carries.entered, entered]
  · rw [move.2, carries.departed, departed]

end CellularQueue

theorem Act.ordered {q next : CellularQueue cfg} {a : Action} (act : Act law q a next)
    (ordered : Ordered q) : Ordered next := by
  cases act with
  | read run =>
      have ⟨_, packet, admits⟩ := readPacket_admits run
      have link := admits.link
      have number := admits.sequenceNumber
      have counter := admits.pktCounter
      refine ⟨?_, ?_, ?_, ?_, ?_, ?_⟩
      · rw [link]
        exact ordered.infinite
      · rw [link]
        exact ordered.counted
      · intro p member
        rw [admits.last ordered] at member
        have clamped := admits.clamped
        rcases List.mem_append.mp member with old | new
        · have released := ordered.released p old
          omega
        · rw [List.mem_singleton.mp new, admits.releaseTime]
      · intro p member
        rw [admits.last ordered] at member
        rcases List.mem_append.mp member with old | new
        · have earlier := ordered.earlier p old
          omega
        · rw [List.mem_singleton.mp new]
          omega
      · rw [admits.emplaced, List.length_append, List.length_singleton, counter, ordered.numbered]
      · rw [admits.emplaced, List.map_append, List.map_append, ordered.datagrams,
          List.map_singleton,
          List.map_singleton, List.mapIdx_concat, List.length_map, ← ordered.numbered, ← number]
        rfl
  | pass front due run =>
      rcases forwardPacket_cases run with ⟨_, _, shape⟩ | ⟨_, link, put, shape⟩
      · rw [shape]
        exact ⟨ordered.infinite, ordered.counted,
          fun p member => ordered.released p (List.mem_of_mem_tail member),
          fun p member => ordered.earlier p (List.mem_of_mem_tail member), ordered.numbered,
          ordered.datagrams⟩
      · have ⟨held, infinite, size⟩ := putPacketToLinkQueue_infinite ordered.infinite put
        rw [shape]
        refine ⟨infinite, ?_, fun p member => ordered.released p (List.mem_of_mem_tail member),
          fun p member => ordered.earlier p (List.mem_of_mem_tail member), ordered.numbered,
          ordered.datagrams⟩
        rw [held, size, List.length_append, List.length_singleton]
        exact congrArg (· + 1) ordered.counted
  | write front run =>
      have ⟨positive, shape⟩ := writeOutput_cases front run
      have counted := ordered.counted
      rw [shape]
      refine ⟨ordered.infinite, ?_, ordered.released, ordered.earlier, ordered.numbered,
        ordered.datagrams⟩
      rw [held_length, front, List.length_cons] at counted
      rw [held_length]
      simp only
      omega
  | serve run =>
      have serves := rationalize_serves run
      refine ⟨?_, ?_, ordered.released, ordered.earlier, ordered.numbered,
        ordered.datagrams⟩
      · rw [serves.discipline]
        exact ordered.infinite
      · rw [serves.held, serves.currentLinkQueueSize]
        exact ordered.counted

/-- Every step of a call is a passage of the channel. -/
theorem Act.refines {q next : CellularQueue cfg} {a : Action} {c : Channel Datagram}
    (act : Act law q a next) (ordered : Ordered q) (carries : Carries q c) :
    ∃ d, Passage c a d ∧ Carries next d := by
  cases act with
  | @read _ fuel now contents run =>
      have ⟨_, packet, admits⟩ := readPacket_admits run
      have held : next.link.held = q.link.held := by
        rw [admits.link]
        rfl
      have datagram : packet.datagram = ⟨packet.sequenceNumber, contents⟩ :=
        congrArg (Datagram.mk packet.sequenceNumber) admits.contents
      apply carries.passage [packet.datagram] [] (fun d move => Passage.read (datagram ▸ move))
      · rw [admits.emplaced, List.map_append, List.map_singleton]
      · rw [admits.fd, List.append_nil]
      · unfold inFlight
        rw [held, admits.last ordered, List.map_append, List.map_singleton, List.nil_append,
          List.append_assoc]
  | @pass _ fuel timestamp now packet rest front due run =>
      rcases forwardPacket_cases run with ⟨_, none, shape⟩ | ⟨_, link, put, shape⟩
      · have empty : q.link.held = [] := by
          apply List.eq_nil_of_length_eq_zero
          rw [← ordered.counted]
          exact none
        apply carries.passage [] [packet.datagram] (fun d => Passage.through)
        · rw [shape, List.append_nil]
        · rw [shape]
        · rw [shape]
          unfold inFlight
          simp only [empty, front, PriorityQueue.pop_items, List.map_nil, List.map_cons,
            List.tail_cons, List.nil_append, List.append_nil, List.singleton_append]
      · have ⟨held, _, _⟩ := putPacketToLinkQueue_infinite ordered.infinite put
        apply carries.passage [] [] (fun d => Passage.inside)
        · rw [shape, List.append_nil]
        · rw [shape, List.append_nil]
        · rw [shape]
          unfold inFlight
          simp only [held, front, PriorityQueue.pop_items, List.map_append, List.map_cons,
            List.map_nil, List.tail_cons, List.nil_append, List.append_nil, List.append_assoc,
            List.singleton_append, QueuedPacket.ofDelayed_datagram]
  | @write _ packet rest front run =>
      have ⟨_, shape⟩ := writeOutput_cases front run
      apply carries.passage [] [packet.datagram] (fun d => Passage.write)
      · rw [shape, List.append_nil]
      · rw [shape]
      · rw [shape]
        unfold inFlight held
        simp only [front, List.map_append, List.map_cons, List.append_nil, List.cons_append,
          List.nil_append]
  | @serve fuel now link run =>
      have serves := rationalize_serves run
      apply carries.passage [] [] (fun d => Passage.serve)
      · rw [List.append_nil]
      · rw [List.append_nil]
      · unfold inFlight
        rw [serves.held, List.append_nil, List.nil_append]

theorem construct_ordered (linkTimestamp delayTimestamp : Nat) :
    Ordered (construct cfg (.infinite {}) linkTimestamp delayTimestamp) := by
  constructor
  · rfl
  · rfl
  · simp [construct]
  · simp [construct]
  · rfl
  · rfl

theorem construct_carries (linkTimestamp delayTimestamp : Nat) :
    Carries (construct cfg (.infinite {}) linkTimestamp delayTimestamp) Channel.empty :=
  ⟨rfl, rfl, rfl⟩

/-- The emulator with a queue that drops nothing refines the channel. -/
theorem Reaches.carries {ops : List Op} {q : CellularQueue cfg} {t : Nat}
    (reaches : Reaches cfg law (.infinite {}) ops q t) :
    Ordered q ∧ ∃ c, Carries q c := by
  have kept := reaches.invariant (I := fun q => Ordered q ∧ ∃ c, Carries q c)
    (by
      intro q a next before act
      have ⟨ordered, c, carries⟩ := before
      have ⟨d, _, carried⟩ := act.refines ordered carries
      exact ⟨act.ordered ordered, d, carried⟩)
    (fun linkTimestamp delayTimestamp =>
      ⟨construct_ordered linkTimestamp delayTimestamp, Channel.empty,
        construct_carries linkTimestamp delayTimestamp⟩)
  exact kept.1

/-- The contents a call admits. -/
def Op.admits : Op → List Bytes
  | .readPacket _ contents => [contents]
  | _ => []

/-- The packets some calls admit, numbered in their order. -/
def admitted (ops : List Op) : List Datagram := (ops.flatMap Op.admits).mapIdx Datagram.mk

/-- A call puts in the delay queue what it admits. -/
theorem exec_emplaced {fuel : Nat} {op : Op} {q next : CellularQueue cfg} (filled : Filled q)
    (run : op.exec law fuel q = .ok next) :
    next.emplaced.map DelayQueuePacket.contents =
      q.emplaced.map DelayQueuePacket.contents ++ op.admits := by
  rcases exec_read_or_unread filled run with ⟨now, contents, same, read⟩ | ⟨passive, unread⟩
  · have ⟨_, packet, admits⟩ := readPacket_admits read
    rw [same, admits.emplaced, List.map_append, List.map_singleton, admits.contents]
    rfl
  · have nothing : op.admits = [] := by
      cases op with
      | readPacket now contents => exact absurd rfl (passive now contents)
      | writePackets clock => rfl
      | waitTime nowDelay nowLink => rfl
      | pendingOutput now => rfl
    rw [unread.emplaced, nothing, List.append_nil]

/-- The packets put in the delay queue are those admitted, numbered in their order. -/
theorem Reaches.emplaced {packetQueue : AbstractPacketQueue} {ops : List Op}
    {q : CellularQueue cfg} {t : Nat} (reaches : Reaches cfg law packetQueue ops q t) :
    q.emplaced.map DelayQueuePacket.contents = ops.flatMap Op.admits := by
  have ⟨linkTimestamp, delayTimestamp, _, run⟩ := reaches
  have kept := run.history
    (I := fun labels s => Filled s.1 ∧
      s.1.emplaced.map DelayQueuePacket.contents = labels.flatMap Op.admits)
    (by
      intro labels s op s' before step
      have ⟨_, _, fuel, returned⟩ := step
      have ⟨actions, acts, _⟩ := exec_acts before.1 returned
      refine ⟨acts.invariant (fun _ _ _ kept act => act.filled kept) before.1, ?_⟩
      rw [exec_emplaced before.1 returned, before.2, List.flatMap_append]
      simp)
    ⟨construct_filled _ _ _, rfl⟩
  exact kept.2

/-- In order and exactly once: what was admitted is what was written, followed by what the
link stage holds and what the delay stage holds. -/
theorem delivered_in_order {ops : List Op} {q : CellularQueue cfg} {t : Nat}
    (reaches : Reaches cfg law (.infinite {}) ops q t) :
    admitted ops = q.fd ++ q.link.outputQueue.map QueuedPacket.datagram ++
      (if 0 < q.link.packetInTransitBytesLeft then [q.link.packetInTransit.datagram] else []) ++
      q.link.packetQueue.packets.map QueuedPacket.datagram ++
      q.delayPacketQueue.items.map DelayQueuePacket.datagram := by
  have ⟨ordered, c, carries⟩ := reaches.carries
  have total := c.departed_append_held
  rw [carries.departed, carries.held, carries.entered, ordered.datagrams, reaches.emplaced] at total
  rw [admitted, ← total]
  unfold inFlight held
  by_cases transit : 0 < q.link.packetInTransitBytesLeft
  · simp only [if_pos transit, List.map_append, List.map_singleton, List.append_assoc]
  · simp only [if_neg transit, List.map_append, List.map_nil, List.append_assoc]

/-- Two packets, the second one too late for the light PDO, and the first one passed on. -/
def twoPackets : List Op :=
  [.readPacket 0 fullPacket, .readPacket 3 fullPacket, .writePackets (fun _ => 3)]

theorem twoPackets_timed : Op.Timed 3 0 twoPackets := by
  refine ⟨0, ?_, ?_, 3, ?_, ?_, 3, ?_, ?_, rfl⟩
  all_goals simp [Op.Between, monotone_const]

/-- There the first packet bypasses the link stage and the second one waits in it. -/
theorem delivered_in_order_twoPackets : ∃ q : CellularQueue undelayed,
    Reaches undelayed (LightPdo.getPktReleaseTime undelayed) (.infinite {}) twoPackets q 3 ∧
      q.fd = [⟨0, fullPacket⟩] ∧
      [⟨0, fullPacket⟩, ⟨1, fullPacket⟩] = q.fd ++ q.link.outputQueue.map QueuedPacket.datagram ++
        (if 0 < q.link.packetInTransitBytesLeft then [q.link.packetInTransit.datagram] else []) ++
        q.link.packetQueue.packets.map QueuedPacket.datagram ++
        q.delayPacketQueue.items.map DelayQueuePacket.datagram := by
  have observed : (Op.execAll (LightPdo.getPktReleaseTime undelayed) 10 twoPackets
      (construct undelayed (.infinite {}) 0 0)).toOption.map CellularQueue.fd =
      some [⟨0, fullPacket⟩] := by decide +kernel
  have ⟨q, reaches, written⟩ := Reaches.of_execAll twoPackets_timed observed
  exact ⟨q, reaches, written, delivered_in_order reaches⟩

/-- The numbers make the packets put in the delay queue distinct. -/
theorem CellularQueue.Ordered.fresh {q : CellularQueue cfg} (ordered : Ordered q) :
    (q.emplaced.map DelayQueuePacket.datagram).Nodup := by
  have numbers : (q.emplaced.map DelayQueuePacket.datagram).map Datagram.sequenceNumber =
      List.range q.emplaced.length := by
    rw [ordered.datagrams]
    apply List.ext_getElem
    · simp
    · intro i inside inside'
      simp
  apply List.Nodup.of_map Datagram.sequenceNumber
  rw [numbers]
  exact List.nodup_range

/-- So none is written twice, and none that was written is still inside. -/
theorem CellularQueue.Carries.once {q : CellularQueue cfg} {c : Channel Datagram}
    (ordered : Ordered q)
    (carries : Carries q c) : q.fd.Nodup ∧ List.Disjoint q.fd q.inFlight ∧ q.inFlight.Nodup := by
  have fresh : c.entered.Nodup := by
    rw [carries.entered]
    exact ordered.fresh
  rw [← carries.departed, ← carries.held]
  exact ⟨c.departed_nodup fresh, c.departed_disjoint_held fresh, c.held_nodup fresh⟩

end CellReplay
