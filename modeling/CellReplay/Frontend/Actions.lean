import CellReplay.Frontend.CellularQueue
import CellReplay.Frontend.LinkService

set_option autoImplicit false

namespace CellReplay

open FueledLoop Transition

variable {cfg : Config} {law : ReleaseLaw}

/-- The steps a call is made of: a packet is read; a packet popped at one clock reading is
forwarded at another; the first packet of the output queue is written; the link is
emulated up to a time. -/
inductive Action where
  | read (now : Nat) (contents : Bytes)
  | pass (packet : DelayQueuePacket) (timestamp now : Nat)
  | write (packet : QueuedPacket)
  | serve (now : Nat)

/-- One step of a call. -/
inductive Act (law : ReleaseLaw) : CellularQueue cfg → Action → CellularQueue cfg → Prop
  | read {q next : CellularQueue cfg} {fuel now : Nat} {contents : Bytes}
      (run : q.readPacket law fuel now contents = .ok next) : Act law q (.read now contents) next
  | pass {q next : CellularQueue cfg} {fuel timestamp now : Nat} {packet : DelayQueuePacket}
      {rest : List DelayQueuePacket} (front : q.delayPacketQueue.items = packet :: rest)
      (due : packet.releaseTime ≤ timestamp)
      (run : { q with delayPacketQueue := q.delayPacketQueue.pop }.forwardPacket fuel now packet =
        .ok next) : Act law q (.pass packet timestamp now) next
  | write {q next : CellularQueue cfg} {packet : QueuedPacket} {rest : List QueuedPacket}
      (front : q.link.outputQueue = packet :: rest) (run : q.writeOutput = .ok next) :
      Act law q (.write packet) next
  | serve {q : CellularQueue cfg} {fuel now : Nat} {link : LinkQueue cfg}
      (run : q.link.rationalize fuel now = .ok link) : Act law q (.serve now)
      { q with link := link }

namespace CellularQueue

theorem readPacket_cases {fuel now : Nat} {contents : Bytes} {q next : CellularQueue cfg}
    (run : q.readPacket law fuel now contents = .ok next) :
    20 ≤ contents.length ∧ contents.length ≤ packetSize ∧
      ∃ (releaseTime : Nat) (light : LightPdo) (offset : Int),
        law fuel now contents (q.startTrace now).light = .ok (releaseTime, light) ∧
        latencyOffset cfg contents.length = .ok offset ∧
        next = { q.startTrace now with light := light }.emplace now contents
          (offsetReleaseTime (q.startTrace now).endReleaseTime releaseTime offset) := by
  unfold readPacket at run
  split at run
  · cases run
  · split at run
    · cases run
    · rename_i large small
      have ⟨⟨releaseTime, light⟩, released, run⟩ := bind_eq_ok.mp run
      have ⟨offset, rounded, run⟩ := bind_eq_ok.mp run
      exact ⟨by omega, by omega, releaseTime, light, offset, released, rounded,
        (Except.ok.inj run).symm⟩

/-- What reading a packet does to the emulator around its light PDO state. -/
structure Admits (now : Nat) (contents : Bytes) (packet : DelayQueuePacket)
    (q next : CellularQueue cfg) : Prop where
  contents : packet.contents = contents
  arrivalTime : packet.arrivalTime = now
  sequenceNumber : packet.sequenceNumber = q.pktCounter
  releaseTime : packet.releaseTime = next.endReleaseTime
  clamped : q.endReleaseTime ≤ next.endReleaseTime
  delayPacketQueue : next.delayPacketQueue = q.delayPacketQueue.push packet
  emplaced : next.emplaced = q.emplaced ++ [packet]
  pktCounter : next.pktCounter = q.pktCounter + 1
  startTick : next.startTick = true
  fd : next.fd = q.fd
  link : next.link = { q.link with
    linkBaseTimestamp := if q.startTick then q.link.linkBaseTimestamp else now }

theorem startTrace_eq (now : Nat) (q : CellularQueue cfg) :
    q.startTrace now = { q with
      startTick := true
      link := { q.link with
        linkBaseTimestamp := if q.startTick then q.link.linkBaseTimestamp else now }
      light := { q.light with
        delayBaseTimestamp := if q.startTick then q.light.delayBaseTimestamp else now } } := by
  unfold startTrace
  by_cases started : q.startTick = true
  · simp only [started, if_true]
    rw [← started]
  · simp only [started, Bool.false_eq_true, if_false]

theorem readPacket_admits {fuel now : Nat} {contents : Bytes} {q next : CellularQueue cfg}
    (run : q.readPacket law fuel now contents = .ok next) :
    20 ≤ contents.length ∧ ∃ packet, Admits now contents packet q next := by
  have ⟨large, _, releaseTime, light, offset, _, _, shape⟩ := readPacket_cases run
  rw [startTrace_eq] at shape
  refine ⟨large, ⟨now, q.pktCounter, next.endReleaseTime, contents, next.light.bypassLinkPdo⟩, ?_⟩
  rw [shape]
  exact ⟨rfl, rfl, rfl, rfl, Nat.le_max_right _ _, rfl, rfl, rfl, rfl, rfl, rfl⟩

theorem forwardPacket_cases {fuel now : Nat} {packet : DelayQueuePacket}
    {q next : CellularQueue cfg} (run : q.forwardPacket fuel now packet = .ok next) :
    packet.isBypassLinkQueue = true ∧ q.link.currentLinkQueueSize = 0 ∧
        next = { q with fd := q.fd ++ [packet.datagram] } ∨
      ¬ (packet.isBypassLinkQueue = true ∧ q.link.currentLinkQueueSize = 0) ∧
        ∃ link, q.link.putPacketToLinkQueue fuel now packet = .ok link ∧
          next = { q with link := link } := by
  unfold forwardPacket at run
  split at run
  · rename_i direct
    have ⟨bypass, idle⟩ : packet.isBypassLinkQueue = true ∧ q.link.currentLinkQueueSize = 0 := by
      simpa using direct
    exact Or.inl ⟨bypass, idle, (Except.ok.inj run).symm⟩
  · rename_i heavy
    have ⟨link, put, same⟩ := bind_eq_ok.mp run
    refine Or.inr ⟨?_, link, put, (Except.ok.inj same).symm⟩
    simpa using heavy

theorem writeOutput_cases {packet : QueuedPacket} {rest : List QueuedPacket}
    {q next : CellularQueue cfg} (front : q.link.outputQueue = packet :: rest)
    (run : q.writeOutput = .ok next) :
    0 < q.link.currentLinkQueueSize ∧
      next = { q with
        fd := q.fd ++ [packet.datagram]
        link := { q.link with
          outputQueue := rest
          currentLinkQueueSize := q.link.currentLinkQueueSize - 1 } } := by
  unfold writeOutput at run
  rw [front] at run
  have ⟨_, counted, same⟩ := bind_eq_ok.mp run
  exact ⟨by simpa using check_eq_ok.mp counted, (Except.ok.inj same).symm⟩

/-- Either the first packet is due and is popped, or nothing changes and the answer is empty. -/
theorem popDue_cases (clock : Nat → Nat) (reading : Nat) (q : CellularQueue cfg) :
    (∃ packet rest, q.delayPacketQueue.items = packet :: rest ∧
        packet.releaseTime ≤ clock reading ∧
        q.popDue clock reading =
          ⟨packet, reading + 1, { q with delayPacketQueue := q.delayPacketQueue.pop }⟩) ∨
      (∀ packet rest, q.delayPacketQueue.items = packet :: rest →
          clock reading < packet.releaseTime) ∧
        q.popDue clock reading = ⟨DelayQueuePacket.ofContents [] 0, reading + 1, q⟩ := by
  unfold popDue getNextFromDelayQueue
  split
  · rename_i shape
    refine Or.inr ⟨?_, rfl⟩
    intro packet rest front
    rw [shape] at front
    cases front
  · rename_i top rest shape
    by_cases due : top.releaseTime ≤ clock reading
    · refine Or.inl ⟨top, rest, shape, due, ?_⟩
      simp only [due, ↓reduceIte]
    · refine Or.inr ⟨?_, ?_⟩
      · intro packet others front
        rw [shape] at front
        obtain ⟨rfl, -⟩ := List.cons.inj front
        omega
      · simp only [due, ↓reduceIte]

/-- Every packet of the delay queue has contents. The loop of `write_packets` would take an
empty packet for the answer that none is due, and lose it. -/
def Filled (q : CellularQueue cfg) : Prop := ∀ p ∈ q.delayPacketQueue.items, p.contents ≠ []

/-- What the loop of `write_packets` is doing at its head: it has made some steps from the
first state, and the packet just popped, if any, was the front of the delay queue. -/
structure DrainedFrom (law : ReleaseLaw) (clock : Nat → Nat) (first : CellularQueue cfg)
    (d : Draining cfg) : Prop where
  acted : ∃ (actions : List Action) (before : CellularQueue cfg),
    Run (Act law) first actions before ∧
    (∀ a ∈ actions, ∃ packet k, a = .pass packet (clock k) (clock 1) ∧
      packet ∈ first.delayPacketQueue.items) ∧
    (∀ p ∈ before.delayPacketQueue.items, p ∈ first.delayPacketQueue.items) ∧
    ∃ k, d.nextPacket = (before.popDue clock k).nextPacket ∧ d.queue = (before.popDue clock k).queue

theorem forwardPacket_delayPacketQueue {fuel now : Nat} {packet : DelayQueuePacket}
    {q next : CellularQueue cfg} (run : q.forwardPacket fuel now packet = .ok next) :
    next.delayPacketQueue = q.delayPacketQueue := by
  rcases forwardPacket_cases run with ⟨-, -, rfl⟩ | ⟨-, link, -, rfl⟩
  · rfl
  · rfl

theorem drainTurn_drained {clock : Nat → Nat} {fuel : Nat} {first : CellularQueue cfg}
    {d next : Draining cfg} (drained : DrainedFrom law clock first d)
    (turn : Turn packetPopped (drainTurn fuel clock (clock 1)) d next) :
    DrainedFrom law clock first next := by
  have ⟨actions, before, run, labels, inside, k, popped, queue⟩ := drained.acted
  have filled : d.nextPacket.contents ≠ [] := by
    have test : (!d.nextPacket.contents.isEmpty) = true := Except.ok.inj turn.1
    simpa using test
  have ⟨forwarded, forward, same⟩ := bind_eq_ok.mp turn.2
  have shape : forwarded.popDue clock d.reading = next := Except.ok.inj same
  rcases before.popDue_cases clock k with ⟨packet, rest, front, due, pop⟩ | ⟨-, pop⟩
  · rw [pop] at popped queue
    have kept := forwardPacket_delayPacketQueue forward
    rw [popped, queue] at forward
    rw [queue] at kept
    have items : forwarded.delayPacketQueue.items = rest := by
      rw [kept, PriorityQueue.pop_items, front, List.tail_cons]
    refine ⟨actions ++ [.pass packet (clock k) (clock 1)], forwarded,
      Run.snoc run (Act.pass front due forward), ?_, ?_, d.reading, ?_, ?_⟩
    · intro a member
      rcases List.mem_append.mp member with old | new
      · exact labels a old
      · exact ⟨packet, k, List.mem_singleton.mp new, inside packet (by simp [front])⟩
    · intro p member
      rw [items] at member
      exact inside p (by simp [front, member])
    · rw [shape]
    · rw [shape]
  · rw [pop] at popped
    exact absurd (congrArg DelayQueuePacket.contents popped) filled

/-- Once the output queue is written, each of its packets has been a step. -/
theorem writePacketsFromLinkQueue_acts {fuel : Nat} {q next : CellularQueue cfg}
    (written : q.writePacketsFromLinkQueue fuel = .ok next) :
    ∃ actions, Run (Act law) q actions next ∧ ∀ a ∈ actions, ∃ packet, a = .write packet := by
  have flushed := whileLoop_inv
    (I := fun s => ∃ actions, Run (Act law) q actions s ∧ ∀ a ∈ actions, ∃ packet,
    a = .write packet)
    (by
      intro s t before turn
      have ⟨writes, ran, labels⟩ := before
      cases shape : s.link.outputQueue with
      | nil =>
          have test := turn.1
          simp [outputWaiting, shape] at test
      | cons packet rest =>
          refine ⟨writes ++ [.write packet], Run.snoc ran (Act.write shape turn.2), ?_⟩
          intro a member
          rcases List.mem_append.mp member with old | new
          · exact labels a old
          · exact ⟨packet, List.mem_singleton.mp new⟩)
    written ⟨[], Run.nil, by simp⟩
  exact flushed.1

/-- What is left of a call of `write_packets` from the head of its loop on. -/
theorem drain_acts {clock : Nat → Nat} {fuel left : Nat} {first next : CellularQueue cfg}
    {d last : Draining cfg} (filled : Filled first) (start : DrainedFrom law clock first d)
    (drain : whileLoop .fuel packetPopped (drainTurn fuel clock (clock 1)) left d = .ok last)
    (written : last.queue.writePacketsFromLinkQueue fuel = .ok next) :
    ∃ actions, Run (Act law) first actions next ∧
      ∀ a ∈ actions, (∃ packet k, a = .pass packet (clock k) (clock 1) ∧
        packet ∈ first.delayPacketQueue.items) ∨ ∃ packet, a = .write packet := by
  have ⟨drained, stop⟩ := whileLoop_inv (I := DrainedFrom law clock first)
    (fun _ _ before turn => drainTurn_drained before turn) drain start
  have ⟨actions, before, passed, labels, inside, k, popped, queue⟩ := drained.acted
  have none : last.nextPacket.contents = [] := by
    have test : (!last.nextPacket.contents.isEmpty) = false := Except.ok.inj stop
    simpa using test
  have same : last.queue = before := by
    rcases before.popDue_cases clock k with ⟨packet, rest, front, _, pop⟩ | ⟨_, pop⟩
    · rw [pop] at popped
      rw [popped] at none
      exact absurd none (filled packet (inside packet (by simp [front])))
    · rw [queue, pop]
  rw [same] at written
  have ⟨writes, wrote, only⟩ : ∃ actions, Run (Act law) before actions next ∧
      ∀ a ∈ actions, ∃ packet, a = .write packet := writePacketsFromLinkQueue_acts written
  refine ⟨actions ++ writes, passed.append wrote, ?_⟩
  intro a member
  rcases List.mem_append.mp member with old | new
  · exact Or.inl (labels a old)
  · exact Or.inr (only a new)

/-- The steps of a call of `write_packets`: packets of the delay queue are passed on, then
the output queue is written. -/
theorem writePackets_acts {clock : Nat → Nat} {fuel : Nat} {q next : CellularQueue cfg}
    (filled : Filled q) (run : q.writePackets fuel clock = .ok next) :
    ∃ actions, Run (Act law) q actions next ∧
      ∀ a ∈ actions, (∃ packet k, a = .pass packet (clock k) (clock 1) ∧
        packet ∈ q.delayPacketQueue.items) ∨ ∃ packet, a = .write packet := by
  have ⟨last, drain, written⟩ := bind_eq_ok.mp run
  have start : DrainedFrom law clock q { q.popDue clock 0 with reading := 2 } :=
    ⟨[], q, Run.nil, by simp, fun p member => member, 0, rfl, rfl⟩
  exact drain_acts filled start drain written

end CellularQueue

open CellularQueue

/-- What changes only when a packet is read. -/
structure Unread (q next : CellularQueue cfg) : Prop where
  light : next.light = q.light
  startTick : next.startTick = q.startTick
  endReleaseTime : next.endReleaseTime = q.endReleaseTime
  pktCounter : next.pktCounter = q.pktCounter
  emplaced : next.emplaced = q.emplaced

/-- A step reads a packet or leaves the reading side of the emulator as it is. -/
theorem Act.read_or_unread {q next : CellularQueue cfg} {a : Action} (act : Act law q a next) :
    (∃ fuel now contents, a = .read now contents ∧
      q.readPacket law fuel now contents = .ok next) ∨ Unread q next := by
  cases act with
  | read run => exact Or.inl ⟨_, _, _, rfl, run⟩
  | pass front due run =>
      rcases forwardPacket_cases run with ⟨_, _, shape⟩ | ⟨_, link, _, shape⟩
      · rw [shape]
        exact Or.inr ⟨rfl, rfl, rfl, rfl, rfl⟩
      · rw [shape]
        exact Or.inr ⟨rfl, rfl, rfl, rfl, rfl⟩
  | write front run =>
      have ⟨_, shape⟩ := writeOutput_cases front run
      rw [shape]
      exact Or.inr ⟨rfl, rfl, rfl, rfl, rfl⟩
  | serve run => exact Or.inr ⟨rfl, rfl, rfl, rfl, rfl⟩

theorem Act.filled {q next : CellularQueue cfg} {a : Action} (act : Act law q a next)
    (filled : Filled q) : Filled next := by
  cases act with
  | read run =>
      have ⟨large, packet, admits⟩ := readPacket_admits run
      intro p member
      rw [admits.delayPacketQueue] at member
      rcases (PriorityQueue.mem_push _ _ _).mp member with same | old
      · intro none
        rw [same, admits.contents] at none
        simp [none] at large
      · exact filled p old
  | pass front due run =>
      intro p member
      rw [forwardPacket_delayPacketQueue run] at member
      exact filled p (List.mem_of_mem_tail member)
  | write front run =>
      obtain ⟨-, rfl⟩ := writeOutput_cases front run
      exact filled
  | serve run => exact filled

/-- Which steps a call can make in a state. -/
def Op.Makes (q : CellularQueue cfg) (a : Action) : Op → Prop
  | .readPacket now contents => a = .read now contents
  | .writePackets clock => (∃ packet k, a = .pass packet (clock k) (clock 1) ∧
      packet ∈ q.delayPacketQueue.items) ∨ ∃ packet, a = .write packet
  | .waitTime _ nowLink => a = .serve nowLink
  | .pendingOutput _ => False

/-- Every call is made of such steps. -/
theorem exec_acts {fuel : Nat} {op : Op} {q next : CellularQueue cfg} (filled : Filled q)
    (run : op.exec law fuel q = .ok next) :
    ∃ actions, Run (Act law) q actions next ∧ ∀ a ∈ actions, op.Makes q a := by
  cases op with
  | readPacket now contents =>
      exact ⟨[.read now contents], Run.single (Act.read run), by simp [Op.Makes]⟩
  | writePackets clock => exact writePackets_acts filled run
  | waitTime nowDelay nowLink =>
      have ⟨⟨_, waitedQueue⟩, waited, returned⟩ := bind_eq_ok.mp run
      have ⟨⟨_, linkQueue⟩, served, waitedSame⟩ := bind_eq_ok.mp waited
      have ⟨rationalized, emulated, servedSame⟩ := bind_eq_ok.mp served
      have last : waitedQueue = next := Except.ok.inj returned
      have middle : { q with link := linkQueue } = waitedQueue :=
        congrArg Prod.snd (Except.ok.inj waitedSame)
      have first : rationalized = linkQueue := congrArg Prod.snd (Except.ok.inj servedSame)
      rw [← last, ← middle, ← first]
      exact ⟨[.serve nowLink], Run.single (Act.serve emulated), by simp [Op.Makes]⟩
  | pendingOutput now =>
      cases run
      exact ⟨[], Run.nil, by simp⟩

theorem Unread.refl (q : CellularQueue cfg) : Unread q q := ⟨rfl, rfl, rfl, rfl, rfl⟩

theorem Unread.trans {a b c : CellularQueue cfg} (ab : Unread a b) (bc : Unread b c) : Unread a c :=
  ⟨bc.light.trans ab.light, bc.startTick.trans ab.startTick,
    bc.endReleaseTime.trans ab.endReleaseTime, bc.pktCounter.trans ab.pktCounter,
    bc.emplaced.trans ab.emplaced⟩

/-- A call reads a packet or leaves the reading side of the emulator as it is. -/
theorem exec_read_or_unread {fuel : Nat} {op : Op} {q next : CellularQueue cfg} (filled : Filled q)
    (run : op.exec law fuel q = .ok next) :
    (∃ now contents, op = .readPacket now contents ∧
      q.readPacket law fuel now contents = .ok next) ∨
    ((∀ now contents, op ≠ .readPacket now contents) ∧ Unread q next) := by
  have ⟨actions, acts, made⟩ := exec_acts filled run
  by_cases reads : ∃ now contents, op = .readPacket now contents
  · have ⟨now, contents, same⟩ := reads
    rw [same] at run
    exact Or.inl ⟨now, contents, same, run⟩
  · have passive : ∀ now contents, op ≠ .readPacket now contents :=
      fun now contents same => reads ⟨now, contents, same⟩
    refine Or.inr ⟨passive, ?_⟩
    apply acts.guarded (I := fun s => Unread q s)
      (P := fun a => ∀ now contents, a ≠ .read now contents)
    · intro s a s' quiet before act
      rcases act.read_or_unread with ⟨_, now, contents, same, _⟩ | unread
      · exact absurd same (quiet now contents)
      · exact before.trans unread
    · intro a member now contents same
      have makes := made a member
      rw [same] at makes
      cases op with
      | readPacket now contents => exact passive now contents rfl
      | writePackets clock => simp [Op.Makes] at makes
      | waitTime nowDelay nowLink => simp [Op.Makes] at makes
      | pendingOutput now => exact makes
    · exact Unread.refl q

theorem construct_filled (packetQueue : AbstractPacketQueue) (linkTimestamp delayTimestamp : Nat) :
    Filled (construct cfg packetQueue linkTimestamp delayTimestamp) := by
  intro p member
  simp [construct] at member

/-- What every step keeps, a run keeps. -/
theorem run_invariant {I : CellularQueue cfg → Prop} {ops : List Op}
    {s s' : CellularQueue cfg × Nat}
    (keep : ∀ (q : CellularQueue cfg) a next, I q → Act law q a next → I next)
    (run : Run (Step law) s ops s') (filled : Filled s.1) (start : I s.1) :
    I s'.1 ∧ Filled s'.1 := by
  apply run.invariant (I := fun s => I s.1 ∧ Filled s.1) ?_ ⟨start, filled⟩
  intro s op s' before step
  have ⟨_, _, fuel, returned⟩ := step
  have ⟨actions, acts, _⟩ := exec_acts before.2 returned
  exact acts.invariant (I := fun q => I q ∧ Filled q)
    (fun _ _ _ kept act => ⟨keep _ _ _ kept.1 act, act.filled kept.2⟩) before

/-- It holds in every state the emulator reaches, if it holds when the emulator is built. -/
theorem Reaches.invariant {I : CellularQueue cfg → Prop} {packetQueue : AbstractPacketQueue}
    {ops : List Op} {q : CellularQueue cfg} {t : Nat}
    (keep : ∀ (q : CellularQueue cfg) a next, I q → Act law q a next → I next)
    (start : ∀ linkTimestamp delayTimestamp,
      I (construct cfg packetQueue linkTimestamp delayTimestamp))
    (reaches : Reaches cfg law packetQueue ops q t) : I q ∧ Filled q := by
  have ⟨linkTimestamp, delayTimestamp, _, run⟩ := reaches
  exact run_invariant keep run (construct_filled _ _ _) (start linkTimestamp delayTimestamp)

/-- In particular every packet of the delay queue has contents there. -/
theorem Reaches.filled {packetQueue : AbstractPacketQueue} {ops : List Op}
    {q : CellularQueue cfg} {t : Nat} (reaches : Reaches cfg law packetQueue ops q t) : Filled q :=
  (reaches.invariant (I := fun _ => True) (fun _ _ _ _ _ => trivial) (fun _ _ => trivial)).2

end CellReplay
