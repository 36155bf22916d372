import CellReplay.Frontend.Delivery
import CellReplay.Lib.LossyChannel

set_option autoImplicit false

namespace CellReplay

open LossyChannel Transition LinkQueue CellularQueue

variable {cfg : Config} {law : ReleaseLaw}

namespace DroppingPacketQueue

theorem enqueueTail_sublist {q next : DroppingPacketQueue} {p : QueuedPacket}
    (run : q.enqueueTail p = .ok next) :
    next.internalQueue.Sublist (q.internalQueue ++ [p]) := by
  rw [enqueueTail_packets run]
  split
  · exact List.Sublist.refl _
  · exact List.sublist_append_left _ _

end DroppingPacketQueue

/-- Every discipline keeps the order of the packets it does not drop. -/
theorem AbstractPacketQueue.enqueue_sublist {q next : AbstractPacketQueue} {p : QueuedPacket}
    (run : q.enqueue p = .ok next) : next.packets.Sublist (q.packets ++ [p]) := by
  rcases enqueue_cases run with ⟨a, rfl, rfl⟩ | ⟨a, b, rfl, rfl, enqueued⟩ |
    ⟨a, b, rfl, rfl, enqueued⟩
  · exact List.Sublist.refl _
  · exact DroppingPacketQueue.enqueueTail_sublist enqueued
  · exact (DroppingPacketQueue.enqueueHead_suffix enqueued).sublist

/-- A packet put in the link stage goes behind the others, unless one of them is dropped. -/
theorem LinkQueue.putPacketToLinkQueue_sublist {fuel now : Nat} {packet : DelayQueuePacket}
    {l next : LinkQueue cfg} (run : l.putPacketToLinkQueue fuel now packet = .ok next) :
    next.held.Sublist (l.held ++ [QueuedPacket.ofDelayed packet now]) ∧
      next.currentLinkQueueSize = l.currentLinkQueueSize + 1 := by
  have ⟨_, served, packetQueue, emulated, offered, shape⟩ := putPacketToLinkQueue_cases run
  have serves := rationalize_serves emulated
  have kept := AbstractPacketQueue.enqueue_sublist offered
  refine ⟨?_, ?_⟩
  · rw [← serves.held, shape]
    unfold held
    simp only [List.append_assoc]
    exact (kept.append_left _).append_left _
  · rw [shape, ← serves.currentLinkQueueSize]

namespace CellularQueue

/-- What keeps the delay stage in order, and what the counters of packets say. -/
structure Sequenced (q : CellularQueue cfg) : Prop where
  covers : q.link.held.length ≤ q.link.currentLinkQueueSize
  released : ∀ p ∈ q.delayPacketQueue.items, p.releaseTime ≤ q.endReleaseTime
  earlier : ∀ p ∈ q.delayPacketQueue.items, p.sequenceNumber < q.pktCounter
  numbered : q.pktCounter = q.emplaced.length
  datagrams : q.emplaced.map DelayQueuePacket.datagram =
    (q.emplaced.map DelayQueuePacket.contents).mapIdx Datagram.mk

/-- The lossy channel that the emulator is. -/
structure Conveys (q : CellularQueue cfg) (c : Channel Datagram) : Prop where
  entered : c.entered = q.emplaced.map DelayQueuePacket.datagram
  departed : c.departed = q.fd
  held : c.held = q.inFlight

section
variable {now : Nat} {contents : Bytes} {packet : DelayQueuePacket} {q next : CellularQueue cfg}

/-- A packet read goes behind all the others of the delay stage. -/
theorem Sequenced.last (sequenced : Sequenced q) (admits : Admits now contents packet q next) :
    next.delayPacketQueue.items = q.delayPacketQueue.items ++ [packet] := by
  rw [admits.delayPacketQueue]
  apply PriorityQueue.push_last
  intro p member before
  have released := sequenced.released p member
  have earlier := sequenced.earlier p member
  have clamped := admits.clamped
  have number := admits.sequenceNumber
  have release := admits.releaseTime
  have order := (popsBefore_iff _ _).mp before
  omega

theorem Sequenced.admits (sequenced : Sequenced q) (admits : Admits now contents packet q next) :
    Sequenced next := by
  have last := sequenced.last admits
  have number := admits.sequenceNumber
  have counter := admits.pktCounter
  have clamped := admits.clamped
  refine ⟨?_, ?_, ?_, ?_, ?_⟩
  · rw [admits.link]
    exact sequenced.covers
  · intro p member
    rw [last] at member
    rcases List.mem_append.mp member with old | new
    · have released := sequenced.released p old
      omega
    · rw [List.mem_singleton.mp new, admits.releaseTime]
  · intro p member
    rw [last] at member
    rcases List.mem_append.mp member with old | new
    · have earlier := sequenced.earlier p old
      omega
    · rw [List.mem_singleton.mp new]
      omega
  · rw [admits.emplaced, List.length_append, List.length_singleton, counter, sequenced.numbered]
  · rw [admits.emplaced, List.map_append, List.map_append, sequenced.datagrams,
      List.map_singleton, List.map_singleton, List.mapIdx_concat, List.length_map,
      ← sequenced.numbered, ← number]
    rfl

/-- A packet popped leaves the delay stage in order. -/
theorem Sequenced.popped (sequenced : Sequenced q) {rest : List DelayQueuePacket}
    (front : q.delayPacketQueue.items = packet :: rest)
    (covers : next.link.held.length ≤ next.link.currentLinkQueueSize)
    (delayPacketQueue : next.delayPacketQueue = q.delayPacketQueue.pop)
    (unread : Unread q next) : Sequenced next := by
  have items : next.delayPacketQueue.items = rest := by
    rw [delayPacketQueue, PriorityQueue.pop_items, front, List.tail_cons]
  have inside : ∀ p ∈ next.delayPacketQueue.items, p ∈ q.delayPacketQueue.items := by
    intro p member
    rw [items] at member
    rw [front]
    exact List.mem_cons_of_mem _ member
  refine ⟨covers, ?_, ?_, ?_, ?_⟩
  · intro p member
    rw [unread.endReleaseTime]
    exact sequenced.released p (inside p member)
  · intro p member
    rw [unread.pktCounter]
    exact sequenced.earlier p (inside p member)
  · rw [unread.pktCounter, unread.emplaced]
    exact sequenced.numbered
  · rw [unread.emplaced]
    exact sequenced.datagrams

end

end CellularQueue

/-- Every step of a call keeps both stages in order, and moves the lossy channel. -/
theorem Act.conveys {q next : CellularQueue cfg} {a : Action} {c : Channel Datagram}
    (act : Act law q a next) (sequenced : Sequenced q) (conveys : Conveys q c) :
    Sequenced next ∧ ∃ d, Conveys next d := by
  -- A step gives the datagrams that go in, those that come out, and the cut of what is inside.
  have build : ∀ ins outs : List Datagram,
      next.emplaced.map DelayQueuePacket.datagram =
        q.emplaced.map DelayQueuePacket.datagram ++ ins → next.fd = q.fd ++ outs →
      (outs ++ next.inFlight).Sublist (q.inFlight ++ ins) → ∃ d, Conveys next d := by
    intro ins outs entered departed cut
    rw [← conveys.held] at cut
    have ⟨d, move, held⟩ := Move.of_held cut
    refine ⟨d, ?_, ?_, held⟩
    · rw [move.1, conveys.entered, entered]
    · rw [move.2.1, conveys.departed, departed]
  cases act with
  | @read _ fuel now contents run =>
      have ⟨_, packet, admits⟩ := readPacket_admits run
      refine ⟨sequenced.admits admits, build [packet.datagram] [] ?_ ?_ ?_⟩
      · rw [admits.emplaced, List.map_append, List.map_singleton]
      · rw [admits.fd, List.append_nil]
      · have held : next.link.held = q.link.held := by
          rw [admits.link]
          rfl
        unfold inFlight
        rw [held, sequenced.last admits, List.map_append, List.map_singleton, List.nil_append,
          List.append_assoc]
  | @pass _ fuel timestamp now packet rest front due run =>
      rcases forwardPacket_cases run with ⟨_, none, shape⟩ | ⟨_, link, put, shape⟩
      · have empty : q.link.held = [] := by
          have covers := sequenced.covers
          have counter : q.link.currentLinkQueueSize = 0 := none
          exact List.eq_nil_of_length_eq_zero (by omega)
        rw [shape]
        refine ⟨sequenced.popped front sequenced.covers rfl ⟨rfl, rfl, rfl, rfl, rfl⟩, ?_⟩
        · rw [shape] at build
          refine build [] [packet.datagram] (List.append_nil _).symm rfl ?_
          unfold inFlight
          simp only [empty, front, PriorityQueue.pop_items, List.map_nil, List.map_cons,
            List.tail_cons, List.nil_append, List.append_nil, List.singleton_append]
          exact List.Sublist.refl _
      · have ⟨held, size⟩ := putPacketToLinkQueue_sublist put
        have length := held.length_le
        have covers := sequenced.covers
        rw [List.length_append, List.length_singleton] at length
        simp only at length size
        rw [shape]
        refine ⟨sequenced.popped front ?_ rfl ⟨rfl, rfl, rfl, rfl, rfl⟩, ?_⟩
        · simp only
          omega
        · rw [shape] at build
          refine build [] [] (List.append_nil _).symm (List.append_nil _).symm ?_
          unfold inFlight
          simp only [front, PriorityQueue.pop_items, List.map_cons, List.tail_cons,
            List.nil_append, List.append_nil]
          have mapped := (held.map QueuedPacket.datagram).append_right
            (rest.map DelayQueuePacket.datagram)
          rwa [List.map_append, List.map_singleton, QueuedPacket.ofDelayed_datagram,
            List.append_assoc, List.singleton_append] at mapped
  | @write _ packet rest front run =>
      have ⟨positive, shape⟩ := writeOutput_cases front run
      have covers := sequenced.covers
      have lengths : next.link.held.length + 1 = q.link.held.length := by
        rw [held_length, held_length, front, shape, List.length_cons]
        simp only
        omega
      refine ⟨?_, build [] [packet.datagram] ?_ ?_ ?_⟩
      · rw [shape] at lengths ⊢
        refine ⟨?_, sequenced.released, sequenced.earlier, sequenced.numbered,
          sequenced.datagrams⟩
        simp only at lengths ⊢
        omega
      · rw [shape, List.append_nil]
      · rw [shape]
      · rw [shape]
        unfold inFlight held
        simp only [front, List.map_append, List.map_cons, List.append_nil, List.cons_append,
          List.nil_append]
        exact List.Sublist.refl _
  | @serve fuel now link run =>
      have serves := rationalize_serves run
      refine ⟨⟨?_, sequenced.released, sequenced.earlier, sequenced.numbered,
        sequenced.datagrams⟩, build [] [] (List.append_nil _).symm (List.append_nil _).symm ?_⟩
      · rw [serves.held, serves.currentLinkQueueSize]
        exact sequenced.covers
      · unfold inFlight
        rw [serves.held, List.append_nil, List.nil_append]

/-- An emulator with an empty queue of any discipline is a lossy channel, in every state reached. -/
theorem Reaches.conveys {packetQueue : AbstractPacketQueue} (empty : packetQueue.packets = [])
    {ops : List Op} {q : CellularQueue cfg} {t : Nat}
    (reaches : Reaches cfg law packetQueue ops q t) : Sequenced q ∧ ∃ c, Conveys q c := by
  have kept := reaches.invariant (I := fun q => Sequenced q ∧ ∃ c, Conveys q c)
    (fun q a next ⟨sequenced, c, conveys⟩ act => act.conveys sequenced conveys)
    (fun linkTimestamp delayTimestamp => by
      have held : (construct cfg packetQueue linkTimestamp delayTimestamp).link.held = [] := by
        simp [construct, LinkQueue.held, LinkQueue.init, empty]
      have inside : (construct cfg packetQueue linkTimestamp delayTimestamp).inFlight = [] := by
        unfold inFlight
        rw [held]
        rfl
      refine ⟨⟨?_, ?_, ?_, rfl, rfl⟩, Channel.empty, rfl, rfl, inside.symm⟩
      · rw [held]
        exact Nat.zero_le _
      · simp [construct]
      · simp [construct])
  exact kept.1

/-- With every queue the shell can build, and however its operations interleave: what has been
written and what is inside are the packets admitted, in order, each at most once, some of them
dropped; and the counters account for every packet admitted: it has been written, it is in the
delay stage, or it is counted in the link stage, which counts those it holds and those it
dropped. -/
theorem delivered_without_reordering {type args : Text} {packetQueue : AbstractPacketQueue}
    (built : AbstractPacketQueue.get type args = .ok packetQueue) {ops : List Op}
    {q : CellularQueue cfg} {t : Nat} (reaches : Reaches cfg law packetQueue ops q t) :
    (q.fd ++ q.link.held.map QueuedPacket.datagram ++
        q.delayPacketQueue.items.map DelayQueuePacket.datagram).Sublist (admitted ops) ∧
      q.link.held.length ≤ q.link.currentLinkQueueSize ∧
      (admitted ops).length =
        q.fd.length + q.link.currentLinkQueueSize + q.delayPacketQueue.items.length := by
  have ⟨sequenced, c, conveys⟩ := reaches.conveys (AbstractPacketQueue.get_packets built)
  have entered : c.entered = admitted ops := by
    rw [conveys.entered, sequenced.datagrams, reaches.emplaced]
    rfl
  have kept := c.kept
  rw [conveys.departed, conveys.held, entered] at kept
  refine ⟨?_, sequenced.covers, ?_⟩
  · rw [List.append_assoc]
    exact kept
  · have length : (admitted ops).length = q.emplaced.length := by
      rw [← entered, conveys.entered, List.length_map]
    rw [length]
    exact reaches.balanced.symm

/-- Of the burst of three, the tail-dropping queue loses the last. -/
theorem delivered_without_reordering_burstOfThree : ∃ q : CellularQueue undelayed,
    Reaches undelayed (LightPdo.getPktReleaseTime undelayed) dropTailOne burstOfThree q 0 ∧
      (q.fd.map Datagram.sequenceNumber, q.link.held.map QueuedPacket.sequenceNumber) =
        ([0], [1]) ∧
      (q.fd ++ q.link.held.map QueuedPacket.datagram ++
        q.delayPacketQueue.items.map DelayQueuePacket.datagram).Sublist (admitted burstOfThree) ∧
      (admitted burstOfThree).length =
        q.fd.length + q.link.currentLinkQueueSize + q.delayPacketQueue.items.length := by
  have observed : (Op.execAll (LightPdo.getPktReleaseTime undelayed) 10 burstOfThree
      (construct undelayed dropTailOne 0 0)).toOption.map
        (fun q => (q.fd.map Datagram.sequenceNumber,
          q.link.held.map QueuedPacket.sequenceNumber)) = some ([0], [1]) := by decide +kernel
  have built : AbstractPacketQueue.get "droptail".toList "packets=1".toList = .ok dropTailOne := rfl
  have ⟨q, reaches, seen⟩ := Reaches.of_execAll burstOfThree_timed observed
  have ⟨order, _, count⟩ := delivered_without_reordering built reaches
  exact ⟨q, reaches, seen, order, count⟩

end CellReplay
