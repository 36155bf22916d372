import CellReplay.Frontend.Execution

set_option autoImplicit false

namespace CellReplay

open Transition LinkQueue CellularQueue

variable {cfg : Config} {law : ReleaseLaw}

namespace LinkQueue

/-- The packets put in `packet_queue_` so far. -/
def putPackets (l : LinkQueue cfg) : List QueuedPacket := l.enqueued.map Prod.snd

/-- No packet was put in `packet_queue_` at a time before its release from the delay stage. -/
def PutInTime (l : LinkQueue cfg) : Prop :=
  ∀ p ∈ l.putPackets, p.releaseTimeFromDelayQueue ≤ p.arrivalTime

/-- No opportunity sent a byte of a packet before its release from the delay stage. -/
def ServedInTime (l : LinkQueue cfg) : Prop :=
  ∀ o ∈ l.opportunities, ∀ s ∈ o.sent, s.1.releaseTimeFromDelayQueue ≤ o.deliveryTime

/-- What is held was put in the queue, and what was sent had arrived there. -/
structure Accounted (l : LinkQueue cfg) : Prop where
  held : ∀ p ∈ l.held, p ∈ l.putPackets
  sent : ∀ o ∈ l.opportunities, SentFrom o.deliveryTime l.putPackets o.sent

theorem Accounted.servedInTime {l : LinkQueue cfg} (accounted : Accounted l)
    (inTime : l.PutInTime) : l.ServedInTime := by
  intro o burned s sent
  have ⟨put, arrived⟩ := accounted.sent o burned s sent
  have released := inTime s.1 put
  omega

theorem serves_putPackets {l next : LinkQueue cfg} (serves : Serves l next) :
    next.putPackets = l.putPackets := by
  unfold putPackets
  rw [serves.enqueued]

theorem put_putPackets {fuel now : Nat} {packet : DelayQueuePacket} {l next : LinkQueue cfg}
    (run : l.putPacketToLinkQueue fuel now packet = .ok next) :
    next.putPackets = l.putPackets ++ [QueuedPacket.ofDelayed packet now] := by
  have ⟨_, served, packetQueue, emulated, _, shape⟩ := putPacketToLinkQueue_cases run
  rw [← serves_putPackets (rationalize_serves emulated), shape]
  unfold putPackets
  rw [List.map_append, List.map_singleton]

theorem Accounted.serves {l next : LinkQueue cfg} (accounted : Accounted l)
    (serves : Serves l next) : Accounted next := by
  have same := serves_putPackets serves
  constructor
  · intro p member
    rw [serves.held] at member
    rw [same]
    exact accounted.held p member
  · intro o burned
    rw [same]
    rcases serves.sent o burned with old | new
    · exact accounted.sent o old
    · intro s sent
      have ⟨inside, arrived⟩ := new s sent
      exact ⟨accounted.held s.1 inside, arrived⟩

theorem Accounted.put {fuel now : Nat} {packet : DelayQueuePacket} {l next : LinkQueue cfg}
    (accounted : Accounted l) (run : l.putPacketToLinkQueue fuel now packet = .ok next) :
    Accounted next := by
  have ⟨_, served, packetQueue, emulated, offered, shape⟩ := putPacketToLinkQueue_cases run
  have serves := rationalize_serves emulated
  have before := accounted.serves serves
  have puts := put_putPackets run
  rw [← serves_putPackets serves] at puts
  constructor
  · intro p member
    rw [puts]
    have inside : p ∈ served.held ∨ p = QueuedPacket.ofDelayed packet now := by
      rw [shape] at member
      simp only [LinkQueue.held, List.mem_append] at member ⊢
      rcases member with output | transit | queued
      · exact Or.inl (Or.inl output)
      · exact Or.inl (Or.inr (Or.inl transit))
      · rcases AbstractPacketQueue.enqueue_mem offered p queued with old | new
        · exact Or.inl (Or.inr (Or.inr old))
        · exact Or.inr new
    rcases inside with old | new
    · exact List.mem_append_left _ (before.held p old)
    · rw [new]
      simp
  · intro o burned s sent
    rw [puts]
    have burned' : o ∈ served.opportunities := by
      rw [shape] at burned
      exact burned
    obtain ⟨put, arrived⟩ := before.sent o burned' s sent
    exact ⟨List.mem_append_left _ put, arrived⟩

end LinkQueue

theorem Act.accounted {q next : CellularQueue cfg} {a : Action} (act : Act law q a next)
    (accounted : Accounted q.link) : Accounted next.link := by
  cases act with
  | read run =>
      have ⟨_, packet, admits⟩ := readPacket_admits run
      rw [admits.link]
      exact ⟨accounted.held, accounted.sent⟩
  | pass front due run =>
      rcases forwardPacket_cases run with ⟨_, _, shape⟩ | ⟨_, link, put, shape⟩
      · rw [shape]
        exact accounted
      · rw [shape]
        exact accounted.put put
  | @write _ packet rest front run =>
      have ⟨_, shape⟩ := writeOutput_cases front run
      have held : q.link.held = packet :: next.link.held := by
        rw [shape]
        simp only [LinkQueue.held, front, List.cons_append]
      have puts : next.link.putPackets = q.link.putPackets := by
        rw [shape]
        rfl
      constructor
      · intro p member
        rw [puts]
        apply accounted.held p
        rw [held]
        exact List.mem_cons_of_mem _ member
      · rw [puts, shape]
        exact accounted.sent
  | serve run => exact accounted.serves (rationalize_serves run)

/-- A packet is served after its release from the delay stage, in every run in which no packet
is put in `packet_queue_` at a reading of the clock before its release. -/
theorem servedInTime_of_putInTime {packetQueue : AbstractPacketQueue}
    (empty : packetQueue.packets = []) {ops : List Op} {q : CellularQueue cfg} {t : Nat}
    (reaches : Reaches cfg law packetQueue ops q t) (inTime : q.link.PutInTime) :
    q.link.ServedInTime := by
  have kept := reaches.invariant (I := fun q => Accounted q.link)
    (fun _ _ _ before act => act.accounted before)
    (by
      intro linkTimestamp delayTimestamp
      constructor
      · intro p member
        simp [construct, LinkQueue.init, LinkQueue.held, empty] at member
      · intro o burned
        simp [construct, LinkQueue.init] at burned)
  exact kept.1.servedInTime inTime

/-- A schedule with opportunities 11 and 20 ms into every 20 ms. -/
def elevenTwenty : HeavyTrace := ⟨[11, 20], by decide, by decide, by decide, by decide⟩

def delayedEleven : Config := Config.ofTraces elevenTwenty delayedTrain true 5 fiveMs_range

/-- Readings of 10 ms, twice, and of 12 ms from then on. -/
def ticking (k : Nat) : Nat := if k < 2 then 10 else 12

/-- A packet released at 12 ms is popped by a call whose second reading is 10 ms. -/
def tickInside : List Op :=
  [.readPacket 0 fullPacket, .readPacket 2 fullPacket, .writePackets ticking, .waitTime 13 13]

theorem tickInside_timed : Op.Timed 13 0 tickInside := by
  have monotone : Monotone ticking := by
    intro a b ordered
    unfold ticking
    split
    · split
      · omega
      · omega
    · rw [if_neg (by omega)]
  have bounded : ∀ k, ticking k ≤ 12 := by
    intro k
    unfold ticking
    split
    · omega
    · omega
  refine ⟨0, ?_, ?_, 2, ?_, ?_, 12, ?_, ⟨?_, monotone, bounded⟩, 13, ?_, ?_, rfl⟩
  all_goals simp [Op.Between, ticking]

/-- The opportunity at 11 ms serves it. -/
theorem not_servedInTime : ∃ q : CellularQueue delayedEleven,
    Reaches delayedEleven (LightPdo.getPktReleaseTime delayedEleven) (.infinite {})
    tickInside q 13 ∧
      ¬ q.link.ServedInTime := by
  have observed : (Op.execAll (LightPdo.getPktReleaseTime delayedEleven) 10 tickInside
      (construct delayedEleven (.infinite {}) 0 0)).toOption.map (fun q =>
        q.link.opportunities.any (fun o =>
          o.sent.any (fun s => decide (o.deliveryTime < s.1.releaseTimeFromDelayQueue)))) =
      some true := by decide +kernel
  have ⟨q, reaches, seen⟩ := Reaches.of_execAll tickInside_timed observed
  refine ⟨q, reaches, ?_⟩
  intro inTime
  have ⟨o, burned, early⟩ := List.any_eq_true.mp seen
  have ⟨s, sent, before⟩ := List.any_eq_true.mp early
  have released := inTime o burned s sent
  have before := of_decide_eq_true before
  omega

/-- The same packets, the second one popped at its release. -/
def noTick : List Op :=
  [.readPacket 0 fullPacket, .readPacket 2 fullPacket, .writePackets (fun _ => 12),
    .waitTime 20 20]

theorem noTick_timed : Op.Timed 20 0 noTick := by
  refine ⟨0, ?_, ?_, 2, ?_, ?_, 12, ?_, ?_, 20, ?_, ?_, rfl⟩
  all_goals simp [Op.Between, monotone_const]

/-- Then the opportunity at 11 ms is wasted, and the one at 20 ms serves the packet in time. -/
theorem servedInTime_of_putInTime_noTick : ∃ q : CellularQueue delayedEleven,
    Reaches delayedEleven (LightPdo.getPktReleaseTime delayedEleven) (.infinite {}) noTick q 20 ∧
      q.link.opportunities.map (fun o => (o.deliveryTime, o.sent.length)) = [(11, 0), (20, 1)] ∧
      q.link.ServedInTime := by
  have observed : (Op.execAll (LightPdo.getPktReleaseTime delayedEleven) 10 noTick
      (construct delayedEleven (.infinite {}) 0 0)).toOption.map (fun q =>
        (q.link.opportunities.map (fun o => (o.deliveryTime, o.sent.length)),
          q.link.putPackets.all (fun p => p.releaseTimeFromDelayQueue ≤ p.arrivalTime))) =
      some ([(11, 0), (20, 1)], true) := by decide +kernel
  have ⟨q, reaches, seen⟩ := Reaches.of_execAll noTick_timed observed
  have ⟨burned, put⟩ := Prod.mk.inj seen
  refine ⟨q, reaches, burned, servedInTime_of_putInTime rfl reaches ?_⟩
  intro p member
  simpa using List.all_eq_true.mp put p member

end CellReplay
