import CellReplay.Frontend.Progress
import CellReplay.Frontend.WaitTime

set_option autoImplicit false

namespace CellReplay

open FluidServer FueledLoop Transition LinkQueue CellularQueue

variable {cfg : Config} {law : ReleaseLaw}

namespace LinkQueue

/-- What a link that repeats its schedule and drops nothing has done since the first state: it has
burned some opportunities, none of them more than a round behind the one before, and each has sent
all the bytes it can of those that were left in the first state. -/
structure Progress (first l : LinkQueue cfg) : Prop where
  metered : Metered 0 l
  going : l.finished = false
  puts : first.putPackets <+: l.putPackets
  served : ∃ burned,
    l.nextDeliveryTime ≤ first.nextDeliveryTime + burned * cfg.heavyPdoSchedule.last ∧
      first.transferred + min first.backlogBytes (burned * packetSize) ≤ l.transferred

theorem Progress.refl {l : LinkQueue cfg} (metered : Metered 0 l) (going : l.finished = false) :
    Progress l l :=
  ⟨metered, going, List.prefix_refl _, 0, by omega, by omega⟩

/-- The next opportunity of a schedule that repeats is at most a round behind. -/
theorem nextDeliveryTime_burned {now : Nat} {l : LinkQueue cfg} (repeats : cfg.repeat_ = true)
    (going : l.finished = false) (base : l.linkBaseTimestamp ≤ now)
    (small : now + cfg.heavyPdoSchedule.last < 2 ^ 64) (due : l.nextDeliveryTime ≤ now) :
    l.useADeliveryOpportunity.nextDeliveryTime ≤
      l.nextDeliveryTime + cfg.heavyPdoSchedule.last := by
  have kept := useADeliveryOpportunity_repeats going repeats
  have ⟨after, _, _⟩ := useADeliveryOpportunity_due base small due
  have time := nextDeliveryTime_of_going going (by omega)
  have next := nextDeliveryTime_of_going kept (by omega)
  have least := cfg.heavyPdoSchedule.time_le_last l.useADeliveryOpportunity.nextDelivery
  have least : cfg.heavyPdoSchedule.times.get l.useADeliveryOpportunity.nextDelivery ≤
    cfg.heavyPdoSchedule.last := least
  rw [next, time]
  rcases l.useADeliveryOpportunity_cases with ⟨_, use⟩ | ⟨first, _, use⟩ | ⟨_, once, _⟩
  · rw [use] at least ⊢
    dsimp only at least ⊢
    omega
  · have ⟨_, final, _⟩ := l.followingDelivery_cases.resolve_left (by omega)
    have moved : MachineWord.u64 ((l.linkBaseTimestamp : Int) + cfg.heavyPdoSchedule.last) =
        l.linkBaseTimestamp + cfg.heavyPdoSchedule.last := by
      exact_mod_cast MachineWord.toUnsigned_natCast 64 _ (by omega)
    rw [moved] at use
    rw [use] at least ⊢
    dsimp only at least ⊢
    omega
  · rw [repeats] at once
    cases once

/-- A queue that has been put more packets has been put more bytes. -/
theorem totalBytes_of_prefix {few many : List QueuedPacket} (front : few <+: many) :
    totalBytes few ≤ totalBytes many := by
  obtain ⟨rest, rfl⟩ := front
  rw [totalBytes_append]
  omega

theorem Progress.burn {fuel now : Nat} {first l next : LinkQueue cfg}
    (progress : Progress first l) (metered : Metered 0 first) (repeats : cfg.repeat_ = true)
    (base : l.linkBaseTimestamp ≤ now) (small : now + cfg.heavyPdoSchedule.last < 2 ^ 64)
    (due : opportunityDue now l = .ok true) (run : burnOpportunity fuel l = .ok next) :
    Progress first next := by
  have reached : l.nextDeliveryTime ≤ now := of_decide_eq_true (Except.ok.inj due)
  have ⟨kept, fluid⟩ := progress.metered.burn run
  obtain ⟨o, burned, amount⟩ := fluid.burned
  obtain ⟨link, sent, forwards, _, shape⟩ := burnOpportunity_cases run
  have puts := serves_putPackets (burnOpportunity_serves run)
  have finished : next.finished = l.useADeliveryOpportunity.finished := by
    rw [shape]
    exact forwards.finished
  have time : next.nextDeliveryTime = l.useADeliveryOpportunity.nextDeliveryTime := by
    apply nextDeliveryTime_congr _ _ finished
    · rw [shape]
      exact forwards.nextDelivery
    · rw [shape]
      exact forwards.linkBaseTimestamp
  have transferred : next.transferred = l.transferred + o.transferred := by
    unfold LinkQueue.transferred
    rw [burned, List.map_append, List.sum_append, List.map_singleton, List.sum_singleton]
  have later := nextDeliveryTime_burned repeats progress.going base small reached
  have before := metered.conserved
  have after := progress.metered.conserved
  have more := totalBytes_of_prefix progress.puts
  obtain ⟨n, ahead, served⟩ := progress.served
  refine ⟨kept, ?_, ?_, n + 1, ?_, ?_⟩
  · rw [finished]
    exact useADeliveryOpportunity_repeats progress.going repeats
  · rw [puts]
    exact progress.puts
  · rw [time, Nat.succ_mul]
    omega
  · rw [transferred, amount, Nat.succ_mul]
    omega

theorem Progress.rationalize {fuel now : Nat} {first l next : LinkQueue cfg}
    (progress : Progress first l) (metered : Metered 0 first) (repeats : cfg.repeat_ = true)
    (safe : Safe now l) (small : now + cfg.heavyPdoSchedule.last < 2 ^ 64)
    (run : l.rationalize fuel now = .ok next) : Progress first next := by
  have kept := whileLoop_inv (I := fun s => Safe now s ∧ Progress first s)
    (fun _ _ before turn => ⟨(before.1.burned small turn.1 turn.2).1,
      before.2.burn metered repeats before.1.base small turn.1 turn.2⟩)
    run ⟨safe, progress⟩
  exact kept.1.2

theorem Progress.put {fuel now : Nat} {packet : DelayQueuePacket} {first l next : LinkQueue cfg}
    (progress : Progress first l) (metered : Metered 0 first) (repeats : cfg.repeat_ = true)
    (safe : Safe now l) (small : now + cfg.heavyPdoSchedule.last < 2 ^ 64)
    (filled : packet.contents ≠ []) (run : l.putPacketToLinkQueue fuel now packet = .ok next) :
    Progress first next := by
  obtain ⟨_, served, packetQueue, emulated, _, shape⟩ := putPacketToLinkQueue_cases run
  have before := progress.rationalize metered repeats safe small emulated
  have puts := serves_putPackets (rationalize_serves emulated)
  refine ⟨progress.metered.put filled run, ?_, ?_, ?_⟩
  · rw [shape]
    exact before.going
  · rw [put_putPackets run]
    exact progress.puts.trans (List.prefix_append _ _)
  · rw [shape]
    exact before.served

end LinkQueue

/-- No step of a call loses what the link has done since the trace was started. -/
theorem Act.progress {q next : CellularQueue cfg} {a : Action} {now : Nat}
    {first : LinkQueue cfg} (act : Act law q a next) (reading : a.AtReading now)
    (small : now + cfg.heavyPdoSchedule.last < 2 ^ 64) (repeats : cfg.repeat_ = true)
    (live : Live now q) (started : q.startTick = true) (metered : Metered 0 first)
    (progress : LinkQueue.Progress first q.link) : LinkQueue.Progress first next.link := by
  have after := act.metered live.filled progress.metered
  cases act with
  | read run =>
      have ⟨_, packet, admits⟩ := readPacket_admits run
      have link := admits.link
      rw [if_pos started] at link
      rw [link]
      exact progress
  | pass front due run =>
      obtain rfl := reading
      rcases forwardPacket_cases run with ⟨_, _, shape⟩ | ⟨_, link, put, shape⟩
      · rw [shape]
        exact progress
      · have filled := live.filled _ (by rw [front]; exact List.mem_cons_self)
        rw [shape]
        exact progress.put metered repeats live.safe small filled put
  | write front run =>
      have ⟨_, shape⟩ := writeOutput_cases front run
      rw [shape] at after ⊢
      exact ⟨after, progress.going, progress.puts, progress.served⟩
  | serve run =>
      obtain rfl := reading
      exact progress.rationalize metered repeats live.safe small run

/-- A schedule that repeats does not finish. -/
theorem rationalize_going {fuel now : Nat} {l next : LinkQueue cfg} (repeats : cfg.repeat_ = true)
    (going : l.finished = false) (run : l.rationalize fuel now = .ok next) :
    next.finished = false := by
  have kept := whileLoop_inv (I := fun s : LinkQueue cfg => s.finished = false)
    (by
      intro s next before turn
      obtain ⟨link, sent, forwards, _, shape⟩ := burnOpportunity_cases turn.2
      rw [shape]
      exact forwards.finished.trans (useADeliveryOpportunity_repeats before repeats))
    run going
  exact kept.1

theorem Act.going {q next : CellularQueue cfg} {a : Action} (act : Act law q a next)
    (repeats : cfg.repeat_ = true) (going : q.link.finished = false) :
    next.link.finished = false := by
  cases act with
  | read run =>
      have ⟨_, packet, admits⟩ := readPacket_admits run
      rw [admits.link]
      exact going
  | pass front due run =>
      rcases forwardPacket_cases run with ⟨_, _, shape⟩ | ⟨_, link, put, shape⟩
      · rw [shape]
        exact going
      · obtain ⟨_, served, packetQueue, emulated, _, queued⟩ := putPacketToLinkQueue_cases put
        have served : served.finished = false :=
          rationalize_going (l := q.link) repeats going emulated
        rw [shape, queued]
        exact served
  | write front run =>
      have ⟨_, shape⟩ := writeOutput_cases front run
      rw [shape]
      exact going
  | serve run => exact rationalize_going repeats going run

/-- A packet has been put in the delay queue only if the trace is started. -/
theorem Act.started {q next : CellularQueue cfg} {a : Action} (act : Act law q a next)
    (started : q.startTick = true ∨ q.emplaced = []) :
    next.startTick = true ∨ next.emplaced = [] := by
  rcases act.read_or_unread with ⟨fuel, now, contents, _, run⟩ | unread
  · have ⟨_, packet, admits⟩ := readPacket_admits run
    exact Or.inl admits.startTick
  · rw [unread.startTick, unread.emplaced]
    exact started

namespace CellularQueue

/-- What the emulator has done since the first state: it has put some packets in the link, and every
packet that left the link stage, or passed it by, is written. -/
structure Since (first q : CellularQueue cfg) : Prop where
  emplaced : first.emplaced <+: q.emplaced
  puts : first.link.putPackets <+: q.link.putPackets
  passed : first.fd.length + first.link.held.length + q.link.putPackets.length ≤
    q.fd.length + q.link.held.length + first.link.putPackets.length

theorem Since.refl (q : CellularQueue cfg) : Since q q :=
  ⟨List.prefix_refl _, List.prefix_refl _, Nat.le_refl _⟩

theorem Since.trans {a b c : CellularQueue cfg} (ab : Since a b) (bc : Since b c) : Since a c := by
  have first := ab.passed
  have second := bc.passed
  exact ⟨ab.emplaced.trans bc.emplaced, ab.puts.trans bc.puts, by omega⟩

/-- What was written or in the link is still one of these. -/
theorem Since.kept {first q : CellularQueue cfg} (since : Since first q) :
    first.fd.length + first.link.held.length ≤ q.fd.length + q.link.held.length := by
  have passed := since.passed
  have puts := since.puts.length_le
  omega

end CellularQueue

theorem Act.since {q next : CellularQueue cfg} {a : Action} (act : Act law q a next)
    (ordered : Ordered q) : Since q next := by
  cases act with
  | read run =>
      have ⟨_, packet, admits⟩ := readPacket_admits run
      have puts : next.link.putPackets = q.link.putPackets := by
        rw [admits.link]
        rfl
      refine ⟨?_, ?_, ?_⟩
      · simp [admits.emplaced]
      · simp [puts]
      · have held : next.link.held = q.link.held := by
          rw [admits.link]
          rfl
        simp [puts, admits.fd, held]
  | pass front due run =>
      rcases forwardPacket_cases run with ⟨_, _, shape⟩ | ⟨_, link, put, shape⟩
      · rw [shape]
        refine ⟨List.prefix_refl _, List.prefix_refl _, ?_⟩
        simp only [List.length_append, List.length_singleton]
        omega
      · have ⟨held, _, _⟩ := putPacketToLinkQueue_infinite ordered.infinite put
        have puts := put_putPackets put
        rw [shape]
        refine ⟨List.prefix_refl _, ?_, ?_⟩
        · simp [puts]
        · simp only [held, puts, List.length_append, List.length_singleton]
          omega
  | write front run =>
      have ⟨_, shape⟩ := writeOutput_cases front run
      rw [shape]
      refine ⟨List.prefix_refl _, List.prefix_refl _, ?_⟩
      simp only [held, front, putPackets, List.length_append, List.length_cons]
      omega
  | serve run =>
      have serves := rationalize_serves run
      refine ⟨List.prefix_refl _, ?_, ?_⟩
      · simp [serves_putPackets serves]
      · simp [serves.held, serves_putPackets serves]

theorem exec_since {fuel : Nat} {op : Op} {q next : CellularQueue cfg} (filled : Filled q)
    (ordered : Ordered q) (run : op.exec law fuel q = .ok next) :
    Filled next ∧ Ordered next ∧ Since q next := by
  obtain ⟨actions, acts, _⟩ := exec_acts filled run
  apply acts.invariant (I := fun r => Filled r ∧ Ordered r ∧ Since q r)
  · intro s a s' ⟨filled, ordered, since⟩ act
    exact ⟨act.filled filled, act.ordered ordered, since.trans (act.since ordered)⟩
  · exact ⟨filled, ordered, Since.refl q⟩

theorem run_since {ops : List Op} {s s' : CellularQueue cfg × Nat} (run : Run (Step law) s ops s')
    (filled : Filled s.1) (ordered : Ordered s.1) : Since s.1 s'.1 := by
  have kept := run_invariant (I := fun r => Ordered r ∧ Since s.1 r)
    (fun _ _ _ before act => ⟨act.ordered before.1, before.2.trans (act.since before.1)⟩)
    run filled ⟨ordered, Since.refl _⟩
  exact kept.1.2

namespace CellularQueue

/-- What holds of the emulator at a reading while a schedule that repeats is replayed. -/
structure Ongoing (first : LinkQueue cfg) (now : Nat) (q : CellularQueue cfg) : Prop where
  ready : Ready now q
  started : q.startTick = true
  link : LinkQueue.Progress first q.link

theorem Ongoing.later {first : LinkQueue cfg} {t t' : Nat} {q : CellularQueue cfg}
    (ongoing : Ongoing first t q) (later : t ≤ t') : Ongoing first t' q :=
  ⟨⟨ongoing.ready.live.later later, ongoing.ready.ordered, ongoing.ready.fitting⟩,
    ongoing.started, ongoing.link⟩

end CellularQueue

theorem Act.ongoing {first : LinkQueue cfg} {q next : CellularQueue cfg} {a : Action} {now : Nat}
    (act : Act law q a next) (reading : a.AtReading now)
    (small : now + cfg.heavyPdoSchedule.last < 2 ^ 64) (repeats : cfg.repeat_ = true)
    (metered : Metered 0 first) (ongoing : Ongoing first now q) : Ongoing first now next := by
  refine ⟨act.ready reading small ongoing.ready, ?_,
    act.progress reading small repeats ongoing.ready.live ongoing.started metered ongoing.link⟩
  rcases act.read_or_unread with ⟨fuel, now, contents, _, run⟩ | unread
  · have ⟨_, packet, admits⟩ := readPacket_admits run
    exact admits.startTick
  · rw [unread.startTick]
    exact ongoing.started

/-- A call keeps it at its reading, -/
theorem Step.ongoing {first : LinkQueue cfg} {s s' : CellularQueue cfg × Nat} {op : Op}
    (step : Step law s op s') (small : s'.2 + cfg.heavyPdoSchedule.last < 2 ^ 64)
    (repeats : cfg.repeat_ = true) (metered : Metered 0 first)
    (ongoing : Ongoing first s.2 s.1) : Ongoing first op.reading s'.1 := by
  obtain ⟨between, later, fuel, returned⟩ := step
  have ⟨after, before⟩ := between.reading
  obtain ⟨actions, acts, made⟩ := exec_acts ongoing.ready.live.filled returned
  apply acts.guarded (I := Ongoing first op.reading) (P := Action.AtReading op.reading)
  · intro s a s' reading kept act
    exact act.ongoing reading (by omega) repeats metered kept
  · intro a member
    exact (made a member).atReading
  · exact ongoing.later after

/-- and a run of calls at its last one. -/
theorem run_ongoing {first : LinkQueue cfg} {s s' : CellularQueue cfg × Nat} {ops : List Op}
    (run : Run (Step law) s ops s') (small : s'.2 + cfg.heavyPdoSchedule.last < 2 ^ 64)
    (repeats : cfg.repeat_ = true) (metered : Metered 0 first)
    (ongoing : Ongoing first s.2 s.1) : Ongoing first s'.2 s'.1 := by
  have kept := run.invariant
    (I := fun s => s.2 + cfg.heavyPdoSchedule.last < 2 ^ 64 → Ongoing first s.2 s.1)
    (by
      intro s op s' before step small
      have ⟨_, last⟩ := step.1.reading
      have later := step.2.1
      exact (step.ongoing small repeats metered (before (by omega))).later last)
    (fun _ => ongoing)
  exact kept small

/-- It holds of every state a run reaches once the trace is started. -/
theorem Reaches.ongoing {ops : List Op} {q : CellularQueue cfg} {t : Nat}
    (reaches : Reaches cfg law (.infinite {}) ops q t)
    (small : t + cfg.heavyPdoSchedule.last < 2 ^ 64) (repeats : cfg.repeat_ = true)
    (started : q.startTick = true) : Ongoing q.link t q := by
  have going := reaches.invariant (I := fun q => q.link.finished = false)
    (fun _ _ _ before act => act.going repeats before) (fun _ _ => rfl)
  exact ⟨reaches.ready small, started, LinkQueue.Progress.refl reaches.metered going.1⟩

namespace CellularQueue

/-- The bytes of the delay queue. -/
def delayBytes (q : CellularQueue cfg) : Nat :=
  bytes (fun p : DelayQueuePacket => p.contents.length) q.delayPacketQueue.items

/-- The bytes inside: those the link has not sent, and those of the delay queue. -/
def bytesInside (q : CellularQueue cfg) : Nat := q.link.backlogBytes + q.delayBytes

/-- A call that reads no packet takes packets off the front of the delay queue, to the link or past
it, and brings the link no byte that was not there. -/
structure PassesOn (first q : CellularQueue cfg) : Prop where
  ordered : Ordered q
  behind : q.delayPacketQueue.items <:+ first.delayPacketQueue.items
  conserved : q.fd.length + q.link.held.length + q.delayPacketQueue.items.length =
    first.fd.length + first.link.held.length + first.delayPacketQueue.items.length
  brought : totalBytes q.link.putPackets + q.delayBytes ≤
    totalBytes first.link.putPackets + first.delayBytes

theorem PassesOn.refl {q : CellularQueue cfg} (ordered : Ordered q) : PassesOn q q :=
  ⟨ordered, List.suffix_refl _, rfl, Nat.le_refl _⟩

theorem PassesOn.trans {a b c : CellularQueue cfg} (ab : PassesOn a b) (bc : PassesOn b c) :
    PassesOn a c :=
  ⟨bc.ordered, bc.behind.trans ab.behind, bc.conserved.trans ab.conserved,
    bc.brought.trans ab.brought⟩

end CellularQueue

theorem Act.passesOn {q next : CellularQueue cfg} {a : Action} (act : Act law q a next)
    (unread : ∀ now contents, a ≠ .read now contents) (ordered : Ordered q) :
    PassesOn q next := by
  have after := act.ordered ordered
  cases act with
  | @read _ _ now contents run => exact absurd rfl (unread now contents)
  | @pass _ _ _ now packet rest front due run =>
      have items : q.delayPacketQueue.pop.items = rest := by
        rw [PriorityQueue.pop_items, front, List.tail_cons]
      have behind : q.delayPacketQueue.pop.items <:+ q.delayPacketQueue.items := by
        rw [items, front]
        exact List.suffix_cons _ _
      rcases forwardPacket_cases run with ⟨_, _, shape⟩ | ⟨_, link, put, shape⟩
      · rw [shape] at after ⊢
        refine ⟨after, behind, ?_, ?_⟩
        · simp only [items, front, List.length_append, List.length_cons, List.length_nil]
          omega
        · simp only [delayBytes, items, front, bytes_cons]
          omega
      · have ⟨held, _, _⟩ := putPacketToLinkQueue_infinite ordered.infinite put
        have puts := put_putPackets put
        have size : (QueuedPacket.ofDelayed packet now).contents.length = packet.contents.length :=
          rfl
        rw [shape] at after ⊢
        refine ⟨after, behind, ?_, ?_⟩
        · simp only [items, front, held, List.length_append, List.length_cons, List.length_nil]
          omega
        · simp only [delayBytes, items, front, puts, totalBytes_append, totalBytes_cons,
            totalBytes_nil, bytes_cons, size]
          omega
  | write front run =>
      have ⟨_, shape⟩ := writeOutput_cases front run
      rw [shape] at after ⊢
      refine ⟨after, List.suffix_refl _, ?_, Nat.le_refl _⟩
      simp only [held, front, List.length_append, List.length_cons, List.length_nil]
      omega
  | serve run =>
      have serves := rationalize_serves run
      refine ⟨after, List.suffix_refl _, ?_, ?_⟩
      · simp [serves.held]
      · simp [serves_putPackets serves, delayBytes]

namespace CellularQueue

theorem writePackets_passesOn (law : ReleaseLaw) {fuel : Nat} {clock : Nat → Nat}
    {q next : CellularQueue cfg} (filled : Filled q) (ordered : Ordered q)
    (run : q.writePackets fuel clock = .ok next) : PassesOn q next := by
  obtain ⟨actions, acts, labels⟩ : ∃ actions, Run (Act law) q actions next ∧
      ∀ a ∈ actions, (∃ packet k, a = .pass packet (clock k) (clock 1) ∧
        packet ∈ q.delayPacketQueue.items) ∨ ∃ packet, a = .write packet :=
    writePackets_acts filled run
  apply acts.guarded (I := PassesOn q) (P := fun a => ∀ now contents, a ≠ .read now contents)
  · intro s a s' unread before act
    exact before.trans (act.passesOn unread before.ordered)
  · intro a member now contents same
    rcases labels a member with ⟨packet, k, made, _⟩ | ⟨packet, made⟩
    · rw [same] at made
      cases made
    · rw [same] at made
      cases made
  · exact PassesOn.refl ordered

/-- The packet left at the front of the delay queue was not due when `write_packets` was called. -/
theorem writePackets_front (law : ReleaseLaw) {fuel : Nat} {clock : Nat → Nat}
    {q next : CellularQueue cfg} (filled : Filled q) (monotone : Monotone clock)
    (run : q.writePackets fuel clock = .ok next) {packet : DelayQueuePacket}
    {rest : List DelayQueuePacket} (front : next.delayPacketQueue.items = packet :: rest) :
    clock 0 < packet.releaseTime := by
  have ⟨last, drain, written⟩ := bind_eq_ok.mp run
  have start : DrainedFrom law clock q { q.popDue clock 0 with reading := 2 } :=
    ⟨[], q, Run.nil, by simp, fun p member => member, 0, rfl, rfl⟩
  obtain ⟨drained, stop⟩ := whileLoop_inv (I := DrainedFrom law clock q)
    (fun _ _ before turn => drainTurn_drained before turn) drain start
  obtain ⟨_, before, _, _, inside, k, popped, queue⟩ := drained.acted
  have none : last.nextPacket.contents = [] := by
    have test : (!last.nextPacket.contents.isEmpty) = false := Except.ok.inj stop
    simpa using test
  obtain ⟨same, _⟩ := whileLoop_inv
    (I := fun s : CellularQueue cfg => s.delayPacketQueue = last.queue.delayPacketQueue)
    (by
      intro s s' kept turn
      cases shape : s.link.outputQueue with
      | nil =>
          have waiting := turn.1
          simp [outputWaiting, shape] at waiting
      | cons p others =>
          obtain ⟨_, rfl⟩ := writeOutput_cases shape turn.2
          exact kept)
    written rfl
  rcases before.popDue_cases clock k with ⟨p, others, shape, _, pop⟩ | ⟨later, pop⟩
  · rw [pop] at popped
    rw [popped] at none
    exact absurd none (filled p (inside p (by simp [shape])))
  · rw [same, queue, pop] at front
    exact Nat.lt_of_le_of_lt (monotone (Nat.zero_le k)) (later packet rest front)

/-- What a call of `write_packets` has written or left in the link: what was there, and all that
was due when it was called. -/
theorem writePackets_stages (law : ReleaseLaw) {fuel : Nat} {clock : Nat → Nat}
    {q next : CellularQueue cfg} (filled : Filled q) (ordered : Ordered q)
    (monotone : Monotone clock) (run : q.writePackets fuel clock = .ok next) :
    q.fd.length + q.link.held.length +
        (q.delayPacketQueue.items.takeWhile (fun p => p.releaseTime ≤ clock 0)).length ≤
      next.fd.length + next.link.held.length := by
  have passes := writePackets_passesOn law filled ordered run
  have conserved := passes.conserved
  obtain ⟨popped, behind⟩ := passes.behind
  have stop : next.delayPacketQueue.items.takeWhile
      (fun p => decide (p.releaseTime ≤ clock 0)) = [] := by
    cases front : next.delayPacketQueue.items with
    | nil => rfl
    | cons packet rest =>
        have later := writePackets_front law filled monotone run front
        simp [later]
  have due : (q.delayPacketQueue.items.takeWhile (fun p => p.releaseTime ≤ clock 0)).length ≤
      popped.length := by
    rw [← behind, List.takeWhile_append, stop, List.append_nil]
    split
    · exact Nat.le_refl _
    · exact (List.takeWhile_prefix _).length_le
  have total := congrArg List.length behind
  rw [List.length_append] at total
  omega

/-- All that was in the link in the first state has been sent, so it is written when the output
queue is. -/
theorem Since.written {first q : CellularQueue cfg} (since : Since first q)
    (before : Metered 0 first.link) (after : Metered 0 q.link) (empty : q.link.outputQueue = [])
    (sent : first.link.transferred + first.link.backlogBytes ≤ q.link.transferred) :
    first.fd.length + first.link.held.length ≤ q.fd.length := by
  have passed := since.passed
  have conserved := before.conserved
  obtain ⟨done, split⟩ := after.queued
  obtain ⟨more, puts⟩ := since.puts
  have server := after.sent split
  have held : q.link.held = q.link.backlog := by
    unfold LinkQueue.held
    rw [empty, List.nil_append]
    rfl
  have through : first.link.putPackets.length ≤ done.length := by
    cases count : first.link.putPackets.length with
    | zero => exact Nat.zero_le _
    | succ k =>
        have inside : k < (done ++ q.link.backlog).length := by
          rw [← split, ← puts, List.length_append]
          omega
        apply (server.done_iff sizeOfPacket inside).mpr
        unfold bytesUpTo
        rw [← split, ← puts, ← count, List.take_left]
        show totalBytes first.link.putPackets ≤ _
        omega
  have total := congrArg List.length split
  rw [List.length_append] at total
  rw [held] at passed
  omega

/-- Rounds enough for what was left in the first state are past, so all of it is sent. -/
theorem Ongoing.sends {first : LinkQueue cfg} {q : CellularQueue cfg} {now start rounds : Nat}
    (ongoing : Ongoing first now q)
    (begun : first.nextDeliveryTime ≤ start + cfg.heavyPdoSchedule.last)
    (enough : first.backlogBytes ≤ rounds * packetSize)
    (past : start + rounds * cfg.heavyPdoSchedule.last < q.link.nextDeliveryTime) :
    first.transferred + first.backlogBytes ≤ q.link.transferred := by
  obtain ⟨burned, ahead, served⟩ := ongoing.link.served
  have many : rounds ≤ burned := by
    by_contra fewer
    have most : (burned + 1) * cfg.heavyPdoSchedule.last ≤
        rounds * cfg.heavyPdoSchedule.last := Nat.mul_le_mul_right _ (by omega)
    rw [Nat.succ_mul] at most
    omega
  have room : rounds * packetSize ≤ burned * packetSize := Nat.mul_le_mul_right _ many
  omega

/-- The next opportunity is at most a round away. -/
theorem Ongoing.starts {first : LinkQueue cfg} {q : CellularQueue cfg} {now : Nat}
    (ongoing : Ongoing first now q) (small : now + cfg.heavyPdoSchedule.last < 2 ^ 64) :
    q.link.nextDeliveryTime ≤ now + cfg.heavyPdoSchedule.last := by
  have base := ongoing.ready.live.safe.base
  have time := nextDeliveryTime_of_going ongoing.link.going (by omega)
  have least : cfg.heavyPdoSchedule.times.get q.link.nextDelivery ≤
    cfg.heavyPdoSchedule.last := cfg.heavyPdoSchedule.time_le_last _
  omega

/-- A call of `write_packets` leaves the link no more bytes than were inside. -/
theorem Ongoing.backlogBytes_le (law : ReleaseLaw) {q next : CellularQueue cfg} {now fuel : Nat}
    {clock : Nat → Nat} (ongoing : Ongoing q.link now next) (filled : Filled q)
    (ordered : Ordered q) (metered : Metered 0 q.link)
    (run : q.writePackets fuel clock = .ok next) :
    next.link.backlogBytes ≤ q.bytesInside := by
  have brought := (writePackets_passesOn law filled ordered run).brought
  have before := metered.conserved
  have after := ongoing.link.metered.conserved
  obtain ⟨_, _, served⟩ := ongoing.link.served
  unfold bytesInside
  omega

/-- How many opportunities some bytes take. -/
def roundsFor (bytes : Nat) : Nat := (bytes + packetSize - 1) / packetSize

theorem le_roundsFor {few many : Nat} (fits : few ≤ many) : few ≤ roundsFor many * packetSize := by
  unfold roundsFor packetSize
  omega

end CellularQueue

theorem Reaches.append {packetQueue : AbstractPacketQueue} {ops more : List Op}
    {q q' : CellularQueue cfg} {t t' : Nat} (reaches : Reaches cfg law packetQueue ops q t)
    (run : Run (Step law) (q, t) more (q', t')) :
    Reaches cfg law packetQueue (ops ++ more) q' t' := by
  obtain ⟨linkTimestamp, delayTimestamp, ordered, before⟩ := reaches
  exact ⟨linkTimestamp, delayTimestamp, ordered, before.append run⟩

theorem run_later {ops : List Op} {s s' : CellularQueue cfg × Nat} (run : Run (Step law) s ops s') :
    s.2 ≤ s'.2 :=
  run.invariant (I := fun r => s.2 ≤ r.2)
    (fun _ _ _ before step => Nat.le_trans before step.2.1) (Nat.le_refl _)

/-- The poll of the link emulates it up to its reading. -/
theorem waitTime_before {fuel nowDelay nowLink w : Nat} {q next : CellularQueue cfg}
    (run : q.waitTime fuel nowDelay nowLink = .ok (w, next)) :
    nowLink < next.link.nextDeliveryTime := by
  obtain ⟨⟨_, linkQueue⟩, served, same⟩ := bind_eq_ok.mp run
  have last : { q with link := linkQueue } = next := congrArg Prod.snd (Except.ok.inj same)
  rw [← last]
  exact rationalize_exit (waitTimeLinkQueue_cases served).1

/-- What is in the link is written once the link has been emulated for rounds enough and the output
queue is written to its end. -/
theorem written_in_time {ops front back : List Op} {q mid q' : CellularQueue cfg}
    {t u t' start : Nat} (repeats : cfg.repeat_ = true)
    (reaches : Reaches cfg law (.infinite {}) ops q t) (started : q.startTick = true)
    (begun : q.link.nextDeliveryTime ≤ start + cfg.heavyPdoSchedule.last) {rounds : Nat}
    (enough : q.link.backlogBytes ≤ rounds * packetSize)
    (ran : Run (Step law) (q, t) front (mid, u))
    (past : start + rounds * cfg.heavyPdoSchedule.last < mid.link.nextDeliveryTime)
    (rest : Run (Step law) (mid, u) back (q', t')) (empty : q'.link.outputQueue = [])
    (small : t' + cfg.heavyPdoSchedule.last < 2 ^ 64) :
    q.fd.length + q.link.held.length ≤ q'.fd.length := by
  have later : t ≤ u := run_later ran
  have onward : u ≤ t' := run_later rest
  have metered := reaches.metered
  have first := reaches.ongoing (by omega) repeats started
  have middle : Ongoing q.link u mid := run_ongoing ran (by omega) repeats metered first
  have sent := middle.sends begun enough past
  have reaches' := reaches.append ran
  have next := reaches'.ongoing (by omega) repeats middle.started
  have last : Ongoing mid.link t' q' := run_ongoing rest small repeats reaches'.metered next
  have since : Since q q' := run_since (ran.append rest) reaches.filled reaches.carries.1
  obtain ⟨_, _, grown⟩ := last.link.served
  exact since.written metered last.link.metered empty (by omega)

/-- Nothing is lost or out of order in a queue that drops nothing. -/
theorem Reaches.stages {ops : List Op} {q : CellularQueue cfg} {t : Nat}
    (reaches : Reaches cfg law (.infinite {}) ops q t) :
    q.emplaced.map DelayQueuePacket.datagram = q.fd ++ q.inFlight := by
  obtain ⟨_, c, carries⟩ := reaches.carries
  rw [← carries.entered, ← carries.departed, ← carries.held]
  exact c.departed_append_held.symm

/-- So the first packets inside are those written next, if there are as many. -/
theorem prefix_written {ops more : List Op} {q q' : CellularQueue cfg} {t t' : Nat}
    {due : DelayQueuePacket → Bool} (reaches : Reaches cfg law (.infinite {}) ops q t)
    (run : Run (Step law) (q, t) more (q', t'))
    (many : q.startTick = true → q.fd.length + q.link.held.length +
      (q.delayPacketQueue.items.takeWhile due).length ≤ q'.fd.length) :
    q.fd ++ q.link.held.map QueuedPacket.datagram ++
      (q.delayPacketQueue.items.takeWhile due).map DelayQueuePacket.datagram <+: q'.fd := by
  have stages := reaches.stages
  have stages' := (reaches.append run).stages
  have inFront : q.fd ++ q.link.held.map QueuedPacket.datagram ++
      (q.delayPacketQueue.items.takeWhile due).map DelayQueuePacket.datagram <+:
        q.emplaced.map DelayQueuePacket.datagram := by
    rw [stages, List.append_assoc, List.prefix_append_right_inj]
    exact (List.prefix_append_right_inj _).mpr ((List.takeWhile_prefix _).map _)
  have started : q.startTick = true ∨ q.emplaced = [] := (reaches.invariant
    (I := fun q => q.startTick = true ∨ q.emplaced = [])
    (fun _ _ _ before act => act.started before) (fun _ _ => Or.inr rfl)).1
  rcases started with started | none
  · have kept := (run_since run reaches.filled reaches.carries.1).emplaced
    have written : q'.fd <+: q'.emplaced.map DelayQueuePacket.datagram := by simp [stages']
    apply List.prefix_of_prefix_length_le
      (inFront.trans (kept.map DelayQueuePacket.datagram)) written
    simp only [List.length_append, List.length_map]
    exact many started
  · rw [none, List.map_nil, List.prefix_nil] at inFront
    simp [inFront]

/-- Nothing waits for ever. While a schedule that repeats is replayed and the queue drops nothing,
what is in the link or due when `write_packets` is called is written, in order, by the first call
of `write_packets` that comes after a poll of the link that is as many rounds later as the bytes
inside take opportunities. Whatever is read in between does not hold it up. -/
theorem delivered_in_time {ops between behind : List Op} {early late : Nat → Nat}
    {nowDelay nowLink t t' : Nat} {q q' : CellularQueue cfg} (repeats : cfg.repeat_ = true)
    (reaches : Reaches cfg law (.infinite {}) ops q t)
    (run : Run (Step law) (q, t) ([.writePackets early] ++ between ++
      [.waitTime nowDelay nowLink] ++ behind ++ [.writePackets late]) (q', t'))
    (patient : early 1 + roundsFor q.bytesInside * cfg.heavyPdoSchedule.last ≤ nowLink)
    (small : t' + cfg.heavyPdoSchedule.last < 2 ^ 64) :
    q.fd ++ q.link.held.map QueuedPacket.datagram ++
        (q.delayPacketQueue.items.takeWhile (fun p => p.releaseTime ≤ early 0)).map
          DelayQueuePacket.datagram <+: q'.fd := by
  apply prefix_written reaches run
  intro started
  obtain ⟨⟨q₄, t₄⟩, run₄, wrote⟩ := run.snoc_inv
  obtain ⟨⟨q₃, t₃⟩, run₃, others⟩ := run₄.split
  obtain ⟨⟨q₂, t₂⟩, run₂, waited⟩ := run₃.snoc_inv
  obtain ⟨⟨q₁, t₁⟩, run₁, meanwhile⟩ := run₂.split
  have passed := run₁.single_inv
  have front := Run.snoc meanwhile waited
  have back := Run.snoc others wrote
  have later₁ : t ≤ t₁ := run_later run₁
  have later₂ : t₁ ≤ t' := run_later (front.append back)
  have ordered := reaches.carries.1
  -- the first call of `write_packets`
  have first : Ongoing q.link (early 1) q₁ := passed.ongoing (by omega) repeats reaches.metered
    (reaches.ongoing (by omega) repeats started)
  obtain ⟨⟨_, monotone, bounded⟩, _, fuel, written⟩ := passed
  have stages := writePackets_stages law reaches.filled ordered monotone written
  have inside := first.backlogBytes_le law reaches.filled ordered reaches.metered written
  have early₁ : early 1 ≤ t₁ := bounded 1
  have begun := first.starts (by omega)
  -- the poll of the link, and the last call
  obtain ⟨_, _, _, polled⟩ := waited
  obtain ⟨⟨_, polledQueue⟩, waited', returned⟩ := bind_eq_ok.mp polled
  obtain rfl : polledQueue = q₃ := Except.ok.inj returned
  have exit := waitTime_before waited'
  obtain ⟨_, _, _, flushed⟩ := wrote
  have empty : q'.link.outputQueue = [] := writePackets_outputQueue flushed
  have through := written_in_time repeats (reaches.append run₁) first.started begun
    (le_roundsFor inside) front (Nat.lt_of_le_of_lt patient exit) back empty small
  exact Nat.le_trans stages through

/-- A packet of half an opportunity and one of a whole one wait in the link at 3 ms: two rounds
later both are written. -/
theorem delivered_in_time_halfThenFull : ∃ q q' : CellularQueue undelayed,
    Reaches undelayed (LightPdo.getPktReleaseTime undelayed) (.infinite {}) halfThenFull q 3 ∧
      q.link.held.map sizeOfPacket = [700, 1400] ∧
      Run (Step (LightPdo.getPktReleaseTime undelayed)) (q, 3) ([.writePackets (fun _ => 3)] ++
        [] ++ [.waitTime 23 23] ++ [] ++ [.writePackets (fun _ => 23)]) (q', 23) ∧
      q.fd ++ q.link.held.map QueuedPacket.datagram ++
        (q.delayPacketQueue.items.takeWhile (fun p => p.releaseTime ≤ 3)).map
          DelayQueuePacket.datagram <+: q'.fd := by
  have observed : (Op.execAll (LightPdo.getPktReleaseTime undelayed) 10 halfThenFull
      (construct undelayed (.infinite {}) 0 0)).toOption.map (fun q =>
        (q.link.held.map sizeOfPacket, q.bytesInside,
          (Op.execAll (LightPdo.getPktReleaseTime undelayed) 10 [.writePackets (fun _ => 3),
            .waitTime 23 23, .writePackets (fun _ => 23)] q).toOption.map (fun _ => ()))) =
      some ([700, 1400], 2100, some ()) := by decide +kernel
  obtain ⟨q, reaches, seen⟩ := Reaches.of_execAll halfThenFull_timed observed
  obtain ⟨waiting, inside⟩ := Prod.mk.inj seen
  obtain ⟨size, continued⟩ := Prod.mk.inj inside
  obtain ⟨q', returned, _⟩ := observe_ok continued
  have timed : Op.Timed 23 3 [.writePackets (fun _ => 3), .waitTime 23 23,
      .writePackets (fun _ => 23)] := by
    refine ⟨3, ?_, ?_, 23, ?_, ?_, 23, ?_, ?_, rfl⟩
    all_goals simp [Op.Between, monotone_const]
  have run : Run (Step (LightPdo.getPktReleaseTime undelayed)) (q, 3)
      ([.writePackets (fun _ => 3)] ++ [] ++ [.waitTime 23 23] ++ [] ++
        [.writePackets (fun _ => 23)]) (q', 23) := Op.run_of_execAll timed returned
  have patient : 3 + roundsFor q.bytesInside * undelayed.heavyPdoSchedule.last ≤ 23 := by
    rw [size]
    decide
  exact ⟨q, q', reaches, waiting, run, delivered_in_time rfl reaches run patient (by decide)⟩

end CellReplay
