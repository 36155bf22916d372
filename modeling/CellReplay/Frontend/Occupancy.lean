import CellReplay.Frontend.Execution

set_option autoImplicit false

namespace CellReplay

open Transition

variable {cfg : Config} {law : ReleaseLaw}

namespace LinkQueue

/-- Whether `packet_queue_` had room for every packet it was offered. -/
def RoomForAll (l : LinkQueue cfg) : Prop := ∀ e ∈ l.enqueued, e.1.hasRoom e.2 = true

/-- The counter covers what the link stage holds, and is exact until a packet is dropped. -/
structure Counted (l : LinkQueue cfg) : Prop where
  covers : l.held.length ≤ l.currentLinkQueueSize
  exactly : l.currentLinkQueueSize = l.held.length ↔ l.RoomForAll

theorem held_length (l : LinkQueue cfg) :
    l.held.length = l.packetQueue.packets.length +
      (if 0 < l.packetInTransitBytesLeft then 1 else 0) + l.outputQueue.length := by
  unfold held
  by_cases transit : 0 < l.packetInTransitBytesLeft
  · simp only [if_pos transit, List.length_append, List.length_singleton]
    omega
  · simp only [if_neg transit, List.length_append, List.length_nil]
    omega

theorem Counted.serves {l next : LinkQueue cfg} (counted : Counted l) (served : Serves l next) :
    Counted next := by
  constructor
  · rw [served.held, served.currentLinkQueueSize]
    exact counted.covers
  · unfold RoomForAll
    rw [served.held, served.currentLinkQueueSize, served.enqueued]
    exact counted.exactly

/-- A packet that finds room adds one to both sides; one that does not, only to the counter. -/
theorem Counted.put {fuel now : Nat} {packet : DelayQueuePacket} {l next : LinkQueue cfg}
    (counted : Counted l) (run : l.putPacketToLinkQueue fuel now packet = .ok next) :
    Counted next := by
  have ⟨_, served, packetQueue, emulated, offered, shape⟩ := putPacketToLinkQueue_cases run
  have before := counted.serves (rationalize_serves emulated)
  have covers := before.covers
  have size : next.currentLinkQueueSize = served.currentLinkQueueSize + 1 := by rw [shape]
  have queue : next.packetQueue = packetQueue := by rw [shape]
  have enqueued : next.enqueued = served.enqueued ++
      [(served.packetQueue, QueuedPacket.ofDelayed packet now)] := by rw [shape]
  have lengths : next.held.length + served.packetQueue.packets.length =
      served.held.length + packetQueue.packets.length := by
    rw [held_length, held_length, shape]
    simp only
    omega
  by_cases room : served.packetQueue.hasRoom (QueuedPacket.ofDelayed packet now) = true
  · have behind := AbstractPacketQueue.enqueue_hasRoom offered room
    rw [behind, List.length_append, List.length_singleton] at lengths
    constructor
    · omega
    · constructor
      · intro equal e member
        rw [enqueued] at member
        rcases List.mem_append.mp member with old | new
        · exact before.exactly.mp (by omega) e old
        · rw [List.mem_singleton.mp new]
          exact room
      · intro all
        have equal := before.exactly.mpr (fun e member => all e (by simp [enqueued, member]))
        omega
  · have full : served.packetQueue.hasRoom (QueuedPacket.ofDelayed packet now) = false := by
      simpa using room
    have dropped := AbstractPacketQueue.enqueue_full offered full
    constructor
    · omega
    · constructor
      · intro equal
        omega
      · intro all
        have offer := all (served.packetQueue, QueuedPacket.ofDelayed packet now)
        rw [enqueued] at offer
        exact absurd (offer (List.mem_append_right _ (List.mem_singleton_self _))) room

theorem Counted.init (cfg : Config) (packetQueue : AbstractPacketQueue) (timestamp : Nat)
    (empty : packetQueue.packets = []) : Counted (LinkQueue.init cfg packetQueue timestamp) := by
  have none : (LinkQueue.init cfg packetQueue timestamp).held = [] := by
    simp [held, LinkQueue.init, empty]
  constructor
  · rw [none]
    exact Nat.zero_le _
  · rw [none]
    simp [RoomForAll, LinkQueue.init]

end LinkQueue

open LinkQueue CellularQueue

/-- No step of a call loses count, except that a dropped packet stays counted. -/
theorem Act.counted {q next : CellularQueue cfg} {a : Action} (act : Act law q a next)
    (counted : Counted q.link) : Counted next.link := by
  cases act with
  | read run =>
      have ⟨_, packet, admits⟩ := readPacket_admits run
      rw [admits.link]
      exact ⟨counted.covers, counted.exactly⟩
  | pass front due run =>
      rcases forwardPacket_cases run with ⟨_, _, shape⟩ | ⟨_, link, put, shape⟩
      · rw [shape]
        exact counted
      · rw [shape]
        exact Counted.put counted put
  | write front run =>
      have ⟨positive, shape⟩ := writeOutput_cases front run
      have covers := counted.covers
      have size : next.link.currentLinkQueueSize + 1 = q.link.currentLinkQueueSize := by
        rw [shape]
        simp only
        omega
      have lengths : next.link.held.length + 1 = q.link.held.length := by
        rw [held_length, held_length, front, shape, List.length_cons]
        simp only
        omega
      have enqueued : next.link.enqueued = q.link.enqueued := by rw [shape]
      constructor
      · omega
      · unfold RoomForAll
        rw [enqueued]
        have exactly := counted.exactly
        constructor
        · intro equal
          exact exactly.mp (by omega)
        · intro all
          have equal := exactly.mpr all
          omega
  | serve run => exact counted.serves (rationalize_serves run)

/-- Every packet read is out of the emulator, in the delay stage, or counted in the link stage. -/
def Balanced (q : CellularQueue cfg) : Prop :=
  q.fd.length + q.link.currentLinkQueueSize + q.delayPacketQueue.items.length = q.emplaced.length

theorem Act.balanced {q next : CellularQueue cfg} {a : Action} (act : Act law q a next)
    (before : Balanced q) : Balanced next := by
  unfold Balanced at before ⊢
  cases act with
  | read run =>
      obtain ⟨_, packet, admits⟩ := readPacket_admits run
      have pushed := q.delayPacketQueue.length_push packet
      rw [admits.fd, admits.link, admits.delayPacketQueue, admits.emplaced, List.length_append,
        List.length_singleton]
      simp only
      omega
  | pass front due run =>
      rw [front, List.length_cons] at before
      rcases forwardPacket_cases run with ⟨_, _, shape⟩ | ⟨_, link, put, shape⟩
      · rw [shape]
        simp only [PriorityQueue.pop_items, front, List.tail_cons, List.length_append,
          List.length_singleton]
        omega
      · obtain ⟨_, served, packetQueue, emulated, _, put⟩ := putPacketToLinkQueue_cases put
        have counter := (rationalize_serves emulated).currentLinkQueueSize
        rw [shape, put]
        simp only [PriorityQueue.pop_items, front, List.tail_cons] at counter ⊢
        omega
  | write front run =>
      obtain ⟨positive, shape⟩ := writeOutput_cases front run
      rw [shape]
      simp only [List.length_append, List.length_singleton]
      omega
  | serve run =>
      have counter := (rationalize_serves run).currentLinkQueueSize
      simp only
      omega

theorem Reaches.balanced {packetQueue : AbstractPacketQueue} {ops : List Op}
    {q : CellularQueue cfg} {t : Nat} (reaches : Reaches cfg law packetQueue ops q t) :
    Balanced q := by
  have kept := reaches.invariant (I := Balanced)
    (fun _ _ _ before act => act.balanced before) (fun _ _ => rfl)
  exact kept.1

theorem Reaches.counted {packetQueue : AbstractPacketQueue} {ops : List Op} {q : CellularQueue cfg}
    {t : Nat} (empty : packetQueue.packets = []) (reaches : Reaches cfg law packetQueue ops q t) :
    Counted q.link := by
  have kept := reaches.invariant (I := fun q => Counted q.link)
    (fun _ _ _ before act => act.counted before)
    (fun linkTimestamp _ => Counted.init cfg packetQueue linkTimestamp empty)
  exact kept.1

/-- A packet flagged to bypass is written directly exactly when the counter is 0. -/
theorem forwardPacket_direct_iff {packet : DelayQueuePacket} (q : CellularQueue cfg)
    (bypass : packet.isBypassLinkQueue = true) :
    (∀ fuel now, q.forwardPacket fuel now packet =
      .ok { q with fd := q.fd ++ [packet.datagram] }) ↔ q.link.currentLinkQueueSize = 0 := by
  constructor
  · intro direct
    rcases forwardPacket_cases (direct 0 0) with ⟨_, none, _⟩ | ⟨_, link, put, _⟩
    · exact none
    · have ⟨_, served, _, emulated, _⟩ := putPacketToLinkQueue_cases put
      cases emulated
  · intro none fuel now
    unfold forwardPacket
    rw [bypass, none]
    rfl

/-- The link stage of the shell is counted exactly as long as its queue has dropped nothing.
After a drop a drained link stage still counts a packet, and no packet bypasses it again. The
counter, an `unsigned int`, does not wrap around before 2^32 packets are read. -/
theorem currentLinkQueueSize_exact_iff {type args : Text} {packetQueue : AbstractPacketQueue}
    (built : AbstractPacketQueue.get type args = .ok packetQueue) {ops : List Op}
    {q : CellularQueue cfg} {t : Nat} (reaches : Reaches cfg law packetQueue ops q t) :
    (q.link.currentLinkQueueSize = q.link.packetQueue.packets.length +
        (if 0 < q.link.packetInTransitBytesLeft then 1 else 0) + q.link.outputQueue.length ↔
      q.link.RoomForAll) ∧
    (q.link.held = [] →
      ((q.link.currentLinkQueueSize = 0 ∧ ∀ packet : DelayQueuePacket,
          packet.isBypassLinkQueue = true → ∀ fuel now, q.forwardPacket fuel now packet =
            .ok { q with fd := q.fd ++ [packet.datagram] }) ↔
        q.link.RoomForAll)) ∧
    q.link.currentLinkQueueSize ≤ q.emplaced.length := by
  have counted := reaches.counted (AbstractPacketQueue.get_packets built)
  have balanced := reaches.balanced
  unfold Balanced at balanced
  refine ⟨?_, ?_, by omega⟩
  · rw [← held_length]
    exact counted.exactly
  · intro drained
    have exactly := counted.exactly
    rw [drained, List.length_nil] at exactly
    rw [← exactly]
    constructor
    · intro both
      exact both.1
    · intro none
      exact ⟨none, fun packet bypass => (forwardPacket_direct_iff q bypass).mpr none⟩

/-- A tail-dropping queue for one packet. -/
def dropTailOne : AbstractPacketQueue :=
  .droptail { limits := ⟨1, 0, by decide, by decide, by decide⟩ }

/-- Three packets at once: the first one bypasses, the second one is queued, the third dropped. -/
def burstOfThree : List Op :=
  [.readPacket 0 fullPacket, .readPacket 0 fullPacket, .readPacket 0 fullPacket,
    .writePackets (fun _ => 0)]

theorem burstOfThree_timed : Op.Timed 0 0 burstOfThree := by
  refine ⟨0, ?_, ?_, 0, ?_, ?_, 0, ?_, ?_, 0, ?_, ?_, rfl⟩
  all_goals simp [Op.Between, monotone_const]

/-- After the burst the link stage counts two packets and holds one. -/
theorem burstOfThree_reaches : ∃ q : CellularQueue undelayed,
    Reaches undelayed (LightPdo.getPktReleaseTime undelayed) dropTailOne burstOfThree q 0 ∧
      q.link.currentLinkQueueSize = 2 ∧ q.link.packetQueue.packets.length +
        (if 0 < q.link.packetInTransitBytesLeft then 1 else 0) + q.link.outputQueue.length = 1 := by
  have observed : (Op.execAll (LightPdo.getPktReleaseTime undelayed) 10 burstOfThree
      (construct undelayed dropTailOne 0 0)).toOption.map
        (fun q => (q.link.currentLinkQueueSize, q.link.packetQueue.packets.length +
          (if 0 < q.link.packetInTransitBytesLeft then 1 else 0) + q.link.outputQueue.length)) =
      some (2, 1) := by decide +kernel
  have ⟨q, reaches, seen⟩ := Reaches.of_execAll burstOfThree_timed observed
  have ⟨counter, held⟩ := Prod.mk.inj seen
  exact ⟨q, reaches, counter, held⟩

theorem currentLinkQueueSize_inexact :
    AbstractPacketQueue.get "droptail".toList "packets=1".toList = .ok dropTailOne ∧
    ∃ q : CellularQueue undelayed,
      Reaches undelayed (LightPdo.getPktReleaseTime undelayed) dropTailOne burstOfThree q 0 ∧
        q.link.currentLinkQueueSize ≠ q.link.packetQueue.packets.length +
          (if 0 < q.link.packetInTransitBytesLeft then 1 else 0) + q.link.outputQueue.length := by
  have ⟨q, reaches, counter, held⟩ := burstOfThree_reaches
  refine ⟨rfl, q, reaches, ?_⟩
  omega

/-- Two of them, for which the queue has room. -/
def burstOfTwo : List Op :=
  [.readPacket 0 fullPacket, .readPacket 0 fullPacket, .writePackets (fun _ => 0)]

theorem burstOfTwo_timed : Op.Timed 0 0 burstOfTwo := by
  refine ⟨0, ?_, ?_, 0, ?_, ?_, 0, ?_, ?_, rfl⟩
  all_goals simp [Op.Between, monotone_const]

/-- The queue has room for all of a burst of two, and not for all of the burst of three. -/
theorem currentLinkQueueSize_exact_iff_burstOfThree :
    (∃ q : CellularQueue undelayed,
      Reaches undelayed (LightPdo.getPktReleaseTime undelayed) dropTailOne burstOfTwo q 0 ∧
        q.link.currentLinkQueueSize = 1 ∧ q.link.RoomForAll) ∧
    ∃ q : CellularQueue undelayed,
      Reaches undelayed (LightPdo.getPktReleaseTime undelayed) dropTailOne burstOfThree q 0 ∧
        q.link.currentLinkQueueSize = 2 ∧ ¬ q.link.RoomForAll := by
  have built : AbstractPacketQueue.get "droptail".toList "packets=1".toList = .ok dropTailOne := rfl
  constructor
  · have observed : (Op.execAll (LightPdo.getPktReleaseTime undelayed) 10 burstOfTwo
        (construct undelayed dropTailOne 0 0)).toOption.map
          (fun q => (q.link.currentLinkQueueSize, q.link.packetQueue.packets.length +
            (if 0 < q.link.packetInTransitBytesLeft then 1 else 0) + q.link.outputQueue.length)) =
        some (1, 1) := by decide +kernel
    obtain ⟨q, reaches, seen⟩ := Reaches.of_execAll burstOfTwo_timed observed
    obtain ⟨counter, held⟩ := Prod.mk.inj seen
    have room := (currentLinkQueueSize_exact_iff built reaches).1.mp (counter.trans held.symm)
    exact ⟨q, reaches, counter, room⟩
  · obtain ⟨q, reaches, counter, held⟩ := burstOfThree_reaches
    refine ⟨q, reaches, counter, ?_⟩
    intro room
    have equal := (currentLinkQueueSize_exact_iff built reaches).1.mpr room
    omega

end CellReplay
