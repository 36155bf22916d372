import CellReplay.Frontend.LinkSafety

set_option autoImplicit false

namespace CellReplay

open MachineWord FueledLoop Transition LinkQueue CellularQueue

variable {cfg : Config} {law : ReleaseLaw}

namespace LinkQueue

/-- With turns enough for the opportunities and for the bytes of each, the link is emulated. -/
theorem Safe.rationalize_returns {fuel now : Nat} {l : LinkQueue cfg} (safe : Safe now l)
    (small : now + cfg.heavyPdoSchedule.last < 2 ^ 64)
    (enough : turnsLeft now l + packetSize < fuel) :
    ∃ next, l.rationalize fuel now = .ok next := by
  have bytes : packetSize < fuel := by omega
  apply whileLoop_returns (I := Safe now) (turnsLeft now)
  · intro s _
    exact ⟨_, rfl⟩
  · intro s before due
    obtain ⟨next, burned⟩ := before.burns bytes
    have ⟨kept, fewer⟩ := before.burned small due burned
    exact ⟨next, burned, kept, fewer⟩
  · exact safe
  · omega

/-- The link emulated, no more opportunities can be due. -/
theorem Safe.rationalize_turnsLeft {fuel now : Nat} {l next : LinkQueue cfg} (safe : Safe now l)
    (small : now + cfg.heavyPdoSchedule.last < 2 ^ 64)
    (run : l.rationalize fuel now = .ok next) : turnsLeft now next ≤ turnsLeft now l := by
  have kept := whileLoop_inv (I := fun s => Safe now s ∧ turnsLeft now s ≤ turnsLeft now l)
    (by
      intro s next before turn
      have ⟨after, fewer⟩ := before.1.burned small turn.1 turn.2
      exact ⟨after, by omega⟩)
    run ⟨safe, Nat.le_refl _⟩
  exact kept.1.2

/-- A packet that fits is put in a link whose queue takes every packet. -/
theorem Safe.put_returns {fuel now : Nat} {packet : DelayQueuePacket} {l : LinkQueue cfg}
    (safe : Safe now l) (infinite : l.packetQueue.isInfinite = true)
    (fits : packet.contents.length ≤ packetSize)
    (small : now + cfg.heavyPdoSchedule.last < 2 ^ 64)
    (enough : turnsLeft now l + packetSize < fuel) :
    ∃ next, l.putPacketToLinkQueue fuel now packet = .ok next := by
  obtain ⟨served, emulated⟩ := safe.rationalize_returns small enough
  have kind : served.packetQueue.isInfinite = true :=
    (rationalize_serves emulated).discipline.trans infinite
  obtain ⟨packetQueue, offered⟩ : ∃ packetQueue,
      served.packetQueue.enqueue (QueuedPacket.ofDelayed packet now) = .ok packetQueue := by
    cases queue : served.packetQueue with
    | infinite a => exact ⟨_, rfl⟩
    | droptail a =>
        rw [queue] at kind
        cases kind
    | drophead a =>
        rw [queue] at kind
        cases kind
  unfold putPacketToLinkQueue
  rw [if_neg (Nat.not_lt.mpr fits), emulated]
  simp only [bind, Except.bind, offered]
  exact ⟨_, rfl⟩

theorem Safe.put_turnsLeft {fuel now : Nat} {packet : DelayQueuePacket} {l next : LinkQueue cfg}
    (safe : Safe now l) (small : now + cfg.heavyPdoSchedule.last < 2 ^ 64)
    (run : l.putPacketToLinkQueue fuel now packet = .ok next) :
    turnsLeft now next ≤ turnsLeft now l := by
  obtain ⟨_, served, packetQueue, emulated, _, shape⟩ := putPacketToLinkQueue_cases run
  have same : turnsLeft now next = turnsLeft now served := by
    rw [shape]
    exact turnsLeft_congr rfl rfl rfl
  rw [same]
  exact safe.rationalize_turnsLeft small emulated

end LinkQueue

namespace CellularQueue

/-- Why no call gets stuck at a reading: the link is safe and in order, and every packet of the
delay stage fits an opportunity. -/
structure Ready (now : Nat) (q : CellularQueue cfg) : Prop where
  live : Live now q
  ordered : Ordered q
  fitting : ∀ p ∈ q.delayPacketQueue.items, p.contents.length ≤ packetSize

/-- How many packets are inside. -/
def occupancy (q : CellularQueue cfg) : Nat :=
  q.link.held.length + q.delayPacketQueue.items.length

end CellularQueue

theorem Act.fitting {q next : CellularQueue cfg} {a : Action} (act : Act law q a next)
    (fitting : ∀ p ∈ q.delayPacketQueue.items, p.contents.length ≤ packetSize) :
    ∀ p ∈ next.delayPacketQueue.items, p.contents.length ≤ packetSize := by
  cases act with
  | read run =>
      have ⟨_, fits, _⟩ := readPacket_cases run
      have ⟨_, packet, admits⟩ := readPacket_admits run
      intro p member
      rw [admits.delayPacketQueue] at member
      rcases (PriorityQueue.mem_push _ _ _).mp member with same | old
      · rw [same, admits.contents]
        exact fits
      · exact fitting p old
  | pass front due run =>
      intro p member
      rw [forwardPacket_delayPacketQueue run] at member
      exact fitting p (List.mem_of_mem_tail member)
  | write front run =>
      obtain ⟨-, rfl⟩ := writeOutput_cases front run
      exact fitting
  | serve run => exact fitting

theorem Act.ready {q next : CellularQueue cfg} {a : Action} {now : Nat} (act : Act law q a next)
    (reading : a.AtReading now) (small : now + cfg.heavyPdoSchedule.last < 2 ^ 64)
    (ready : Ready now q) : Ready now next :=
  ⟨act.live reading small ready.live, act.ordered ready.ordered, act.fitting ready.fitting⟩

namespace CellularQueue

/-- The packet at the front is passed on. -/
theorem Ready.pass {fuel now : Nat} {q : CellularQueue cfg} (ready : Ready now q)
    (small : now + cfg.heavyPdoSchedule.last < 2 ^ 64)
    (enough : turnsLeft now q.link + packetSize < fuel) {packet : DelayQueuePacket}
    {rest : List DelayQueuePacket} (front : q.delayPacketQueue.items = packet :: rest) :
    ∃ next, { q with delayPacketQueue := q.delayPacketQueue.pop }.forwardPacket fuel now packet =
        .ok next ∧ turnsLeft now next.link ≤ turnsLeft now q.link ∧
      next.delayPacketQueue.items = rest ∧ occupancy next ≤ occupancy q := by
  have fits := ready.fitting packet (by rw [front]; exact List.mem_cons_self)
  obtain ⟨link, put⟩ :=
    ready.live.safe.put_returns ready.ordered.infinite fits small enough
  have turns := ready.live.safe.put_turnsLeft small put
  have ⟨held, _, _⟩ := putPacketToLinkQueue_infinite ready.ordered.infinite put
  have items : q.delayPacketQueue.pop.items = rest := by
    rw [PriorityQueue.pop_items, front, List.tail_cons]
  unfold forwardPacket
  split
  · refine ⟨_, rfl, Nat.le_refl _, items, ?_⟩
    unfold occupancy
    rw [items, front, List.length_cons]
    dsimp only
    omega
  · refine ⟨{ q with delayPacketQueue := q.delayPacketQueue.pop, link := link }, ?_, turns,
      items, ?_⟩
    · dsimp only
      rw [put]
      rfl
    · unfold occupancy
      dsimp only
      rw [items, front, held, List.length_cons, List.length_append, List.length_singleton]
      omega

/-- What the loop of `write_packets` keeps, with `turns` and `many` from its start. -/
structure Drains (clock : Nat → Nat) (turns many : Nat) (d : Draining cfg) : Prop where
  popped : ∃ before k, Ready (clock 1) before ∧ turnsLeft (clock 1) before.link ≤ turns ∧
    occupancy before ≤ many ∧ d.nextPacket = (before.popDue clock k).nextPacket ∧
    d.queue = (before.popDue clock k).queue

/-- The packets not passed on. -/
def Draining.left (d : Draining cfg) : Nat :=
  d.queue.delayPacketQueue.items.length + if d.nextPacket.contents.isEmpty then 0 else 1

theorem popDue_left (clock : Nat → Nat) (reading : Nat) (q : CellularQueue cfg) :
    (q.popDue clock reading).left ≤ q.delayPacketQueue.items.length := by
  rcases q.popDue_cases clock reading with ⟨packet, rest, front, _, pop⟩ | ⟨_, pop⟩
  · rw [pop]
    unfold Draining.left
    dsimp only
    rw [PriorityQueue.pop_items, front, List.tail_cons, List.length_cons]
    split
    · omega
    · omega
  · rw [pop]
    exact Nat.le_refl _

theorem Drains.turn (law : ReleaseLaw) {clock : Nat → Nat} {turns many fuel : Nat}
    {d : Draining cfg} (drains : Drains clock turns many d)
    (small : clock 1 + cfg.heavyPdoSchedule.last < 2 ^ 64)
    (enough : turns + packetSize < fuel) (more : packetPopped d = .ok true) :
    ∃ next, drainTurn fuel clock (clock 1) d = .ok next ∧ Drains clock turns many next ∧
      next.left < d.left := by
  obtain ⟨before, k, ready, fewer, inside, popped, queue⟩ := drains.popped
  have filled : d.nextPacket.contents.isEmpty = false := by
    have test : (!d.nextPacket.contents.isEmpty) = true := Except.ok.inj more
    simpa using test
  rcases before.popDue_cases clock k with ⟨packet, rest, front, due, pop⟩ | ⟨_, pop⟩
  · rw [pop] at popped queue
    have sufficient : turnsLeft (clock 1) before.link + packetSize < fuel := by omega
    obtain ⟨next, forward, turns', items, within⟩ := ready.pass small sufficient front
    have act : Act law before (.pass packet (clock k) (clock 1)) next := Act.pass front due forward
    refine ⟨next.popDue clock d.reading, ?_, ⟨next, d.reading, ?_, ?_, ?_, rfl, rfl⟩, ?_⟩
    · unfold drainTurn
      rw [popped, queue]
      dsimp only
      rw [forward]
      rfl
    · exact act.ready rfl small ready
    · omega
    · omega
    · have least := popDue_left clock d.reading next
      unfold Draining.left at least ⊢
      rw [filled, queue]
      dsimp only
      rw [PriorityQueue.pop_items, front, List.tail_cons, ← items]
      simp only [Bool.false_eq_true, if_false]
      omega
  · rw [pop] at popped
    rw [popped] at filled
    cases filled

/-- The loop that passes the due packets on ends. -/
theorem Ready.drain_returns (law : ReleaseLaw) {fuel : Nat} {clock : Nat → Nat}
    {q : CellularQueue cfg} (ready : Ready (clock 1) q)
    (small : clock 1 + cfg.heavyPdoSchedule.last < 2 ^ 64)
    (enough : turnsLeft (clock 1) q.link + packetSize + occupancy q < fuel) :
    ∃ last, whileLoop .fuel packetPopped (drainTurn fuel clock (clock 1)) fuel
        { q.popDue clock 0 with reading := 2 } = .ok last ∧
      Drains clock (turnsLeft (clock 1) q.link) (occupancy q) last := by
  have sufficient : turnsLeft (clock 1) q.link + packetSize < fuel := by omega
  have start : Drains clock (turnsLeft (clock 1) q.link) (occupancy q)
      { q.popDue clock 0 with reading := 2 } :=
    ⟨q, 0, ready, Nat.le_refl _, Nat.le_refl _, rfl, rfl⟩
  have first : ({ q.popDue clock 0 with reading := 2 } : Draining cfg).left < fuel := by
    have least : ({ q.popDue clock 0 with reading := 2 } : Draining cfg).left ≤
        q.delayPacketQueue.items.length := popDue_left clock 0 q
    unfold occupancy at enough
    omega
  obtain ⟨last, returned⟩ : ∃ last, whileLoop .fuel packetPopped (drainTurn fuel clock (clock 1))
      fuel { q.popDue clock 0 with reading := 2 } = .ok last :=
    whileLoop_returns Draining.left (fun _ _ => ⟨_, rfl⟩)
      (fun d drains more => drains.turn law small sufficient more) start first
  refine ⟨last, returned, ?_⟩
  have kept := whileLoop_inv
    (I := Drains clock (turnsLeft (clock 1) q.link) (occupancy q))
    (by
      intro d next before turn
      obtain ⟨other, ran, after, _⟩ := before.turn law small sufficient turn.1
      rw [turn.2] at ran
      rw [Except.ok.inj ran]
      exact after)
    returned start
  exact kept.1

/-- The output queue is written to its end: the counter covers every packet of it. -/
theorem Ordered.write_returns {fuel : Nat} {q : CellularQueue cfg} (law : ReleaseLaw)
    (ordered : Ordered q) (enough : q.link.held.length < fuel) :
    ∃ next, q.writePacketsFromLinkQueue fuel = .ok next := by
  apply whileLoop_returns (I := Ordered) (fun q : CellularQueue cfg => q.link.outputQueue.length)
  · intro s _
    exact ⟨_, rfl⟩
  · intro s before waiting
    obtain ⟨packet, rest, front⟩ := List.exists_cons_of_ne_nil
      (show s.link.outputQueue ≠ [] by simpa [outputWaiting] using waiting)
    have counted : 0 < s.link.currentLinkQueueSize := by
      rw [before.counted, held_length, front, List.length_cons]
      omega
    obtain ⟨next, written⟩ : ∃ next, s.writeOutput = .ok next := by
      have covered : check "current_link_queue_size_ > 0"
          (0 < s.link.currentLinkQueueSize) = .ok () := check_eq_ok.mpr (decide_eq_true counted)
      unfold writeOutput
      rw [front]
      simp only [covered, bind, Except.bind]
      exact ⟨_, rfl⟩
    have act : Act law s (.write packet) next := Act.write front written
    obtain ⟨_, shape⟩ := writeOutput_cases front written
    refine ⟨next, written, act.ordered before, ?_⟩
    rw [shape, front]
    exact Nat.lt_succ_self _
  · exact ordered
  · rw [held_length] at enough
    omega

theorem Ready.writePackets_returns (law : ReleaseLaw) {clock : Nat → Nat} {q : CellularQueue cfg}
    (ready : Ready (clock 1) q) (small : clock 1 + cfg.heavyPdoSchedule.last < 2 ^ 64) :
    ∃ fuel next, q.writePackets fuel clock = .ok next := by
  obtain ⟨fuel, enough⟩ : ∃ fuel,
      turnsLeft (clock 1) q.link + packetSize + occupancy q < fuel := ⟨_, Nat.lt_succ_self _⟩
  obtain ⟨last, drained, drains⟩ := ready.drain_returns law small enough
  obtain ⟨before, k, ready', _, inside, _, queue⟩ := drains.popped
  have ordered : Ordered last.queue ∧ last.queue.link = before.link := by
    have ordered := ready'.ordered
    rw [queue]
    rcases before.popDue_cases clock k with ⟨packet, rest, front, _, pop⟩ | ⟨_, pop⟩
    · rw [pop]
      exact ⟨⟨ordered.infinite, ordered.counted,
        fun p member => ordered.released p (List.mem_of_mem_tail member),
        fun p member => ordered.earlier p (List.mem_of_mem_tail member), ordered.numbered,
        ordered.datagrams⟩, rfl⟩
    · rw [pop]
      exact ⟨ordered, rfl⟩
  have sufficient : last.queue.link.held.length < fuel := by
    unfold occupancy at inside enough
    rw [ordered.2]
    omega
  obtain ⟨next, written⟩ := ordered.1.write_returns law sufficient
  refine ⟨fuel, next, ?_⟩
  unfold writePackets
  rw [drained]
  exact written

/-- `write_packets` leaves nothing to write. -/
theorem writePackets_outputQueue {fuel : Nat} {clock : Nat → Nat} {q next : CellularQueue cfg}
    (run : q.writePackets fuel clock = .ok next) : next.link.outputQueue = [] := by
  obtain ⟨_, _, written⟩ := bind_eq_ok.mp run
  have ⟨_, stop⟩ := whileLoop_inv (I := fun _ => True) (fun _ _ _ _ => trivial) written trivial
  have test : (!next.link.outputQueue.isEmpty) = false := Except.ok.inj stop
  simpa using test

end CellularQueue

/-- In every state a run reaches with a queue that drops nothing, the emulator is ready. -/
theorem Reaches.ready {ops : List Op} {q : CellularQueue cfg} {t : Nat}
    (reaches : Reaches cfg law (.infinite {}) ops q t)
    (small : t + cfg.heavyPdoSchedule.last < 2 ^ 64) : Ready t q := by
  have fitting := reaches.invariant
    (I := fun q => ∀ p ∈ q.delayPacketQueue.items, p.contents.length ≤ packetSize)
    (fun _ _ _ before act => act.fitting before) (fun _ _ p member => by cases member)
  exact ⟨reaches.live (Or.inl rfl) small, reaches.carries.1, fitting.1⟩

/-- No run with a queue that drops nothing gets stuck: a call that reads no packet returns, at any
later reading, and no assertion fails in it. -/
theorem calls_return {ops : List Op} {q : CellularQueue cfg} {t t' : Nat}
    (reaches : Reaches cfg law (.infinite {}) ops q t) {op : Op}
    (unread : ∀ now contents, op ≠ .readPacket now contents) (between : op.Between t t')
    (small : t' + cfg.heavyPdoSchedule.last < 2 ^ 64) :
    ∃ fuel q', op.exec law fuel q = .ok q' ∧
      Reaches cfg law (.infinite {}) (ops ++ [op]) q' t' := by
  have ⟨first, last⟩ := between.reading
  have ready := reaches.ready (by omega)
  have now : Ready op.reading q := ⟨ready.live.later first, ready.ordered, ready.fitting⟩
  have early : op.reading + cfg.heavyPdoSchedule.last < 2 ^ 64 := by omega
  obtain ⟨fuel, q', returned⟩ : ∃ fuel q', op.exec law fuel q = .ok q' := by
    cases op with
    | readPacket time contents => exact absurd rfl (unread time contents)
    | writePackets clock =>
        exact now.writePackets_returns law early
    | waitTime nowDelay nowLink =>
        obtain ⟨fuel, link, emulated⟩ := now.live.safe.returns early
        have emulated : q.link.rationalize fuel nowLink = .ok link := emulated
        refine ⟨fuel, { q with link := link }, ?_⟩
        unfold Op.exec waitTime waitTimeLinkQueue
        simp only [emulated, bind, Except.bind]
        rfl
    | pendingOutput time => exact ⟨0, q, rfl⟩
  obtain ⟨linkTimestamp, delayTimestamp, ordered, run⟩ := reaches
  exact ⟨fuel, q', returned, linkTimestamp, delayTimestamp, ordered,
    run.snoc ⟨between, by omega, fuel, returned⟩⟩

/-- The poll at the first opportunity returns, and so does the call that writes what it sent. -/
theorem calls_return_halfThenFull :
    ∃ (fuel fuel' : Nat) (q polled written : CellularQueue undelayed),
    Reaches undelayed (LightPdo.getPktReleaseTime undelayed) (.infinite {}) halfThenFull q 3 ∧
    q.link.backlog.map sizeOfPacket = [700, 1400] ∧
    Op.exec (LightPdo.getPktReleaseTime undelayed) fuel (.waitTime 10 10) q = .ok polled ∧
    Op.exec (LightPdo.getPktReleaseTime undelayed) fuel' (.writePackets (fun _ => 10)) polled =
      .ok written := by
  have observed : (Op.execAll (LightPdo.getPktReleaseTime undelayed) 10 halfThenFull
      (construct undelayed (.infinite {}) 0 0)).toOption.map (fun q =>
        q.link.backlog.map sizeOfPacket) = some [700, 1400] := by decide +kernel
  obtain ⟨q, reaches, backlog⟩ := Reaches.of_execAll halfThenFull_timed observed
  have polls : Op.Between 3 10 (.waitTime 10 10) := ⟨by decide, by decide, by decide⟩
  have writes : Op.Between 10 10 (.writePackets (fun _ => 10)) :=
    ⟨by decide, monotone_const, by simp⟩
  obtain ⟨fuel, polled, poll, onward⟩ := calls_return reaches (by simp) polls (by decide)
  obtain ⟨fuel', written, write, _⟩ := calls_return onward (by simp) writes (by decide)
  exact ⟨fuel, fuel', q, polled, written, reaches, backlog, poll, write⟩

end CellReplay
