import CellReplay.Frontend.FluidLink
import CellReplay.Frontend.Schedule
import CellReplay.Packet.Representation

set_option autoImplicit false

namespace CellReplay

open MachineWord FueledLoop Transition LinkQueue CellularQueue

variable {cfg : Config} {law : ReleaseLaw}

namespace HeavyTrace

variable (s : HeavyTrace)

theorem last_pos : 0 < s.last := Nat.pos_of_ne_zero s.lasting

/-- No opportunity of a round is later than the last one. -/
theorem time_le_last (i : Fin s.times.length) : s.times[i] ≤ s.last := by
  have positive := s.length_pos
  unfold last
  rw [List.getLast_eq_getElem]
  rcases Nat.lt_or_ge i.val (s.times.length - 1) with earlier | final
  · exact List.pairwise_iff_getElem.mp s.nondecreasing i.val (s.times.length - 1) i.isLt
      (by omega) earlier
  · have place : i.val = s.times.length - 1 := by omega
    simp only [Fin.getElem_fin, place, le_refl]

end HeavyTrace

namespace LinkQueue

theorem mem_backlog {l : LinkQueue cfg} {p : QueuedPacket} : p ∈ l.backlog ↔
    0 < l.packetInTransitBytesLeft ∧ p = l.packetInTransit ∨ p ∈ l.packetQueue.packets := by
  unfold backlog
  by_cases transit : 0 < l.packetInTransitBytesLeft
  · simp [transit]
  · simp [transit]

/-- Why no assertion fails at time `t`: the packets of the backlog had arrived by then, each has
a size the link takes, and no more of the packet in transit is left than it has. -/
structure Sending (t : Nat) (l : LinkQueue cfg) : Prop where
  accepts : l.packetQueue.AcceptsAtTail
  arrived : ∀ p ∈ l.backlog, p.arrivalTime ≤ t
  sized : ∀ p ∈ l.backlog, 0 < p.contents.length ∧ p.contents.length ≤ packetSize
  within : l.packetInTransitBytesLeft ≤ l.packetInTransit.contents.length

theorem Sending.later {t t' : Nat} {l : LinkQueue cfg} (sending : Sending t l) (later : t ≤ t') :
    Sending t' l :=
  ⟨sending.accepts, fun p member => Nat.le_trans (sending.arrived p member) later,
    sending.sized, sending.within⟩

/-- The four assertions hold of a packet in transit. -/
theorem Sending.sendable {t : Nat} {l : LinkQueue cfg} (sending : Sending t l)
    (positive : 0 < l.packetInTransitBytesLeft) : Sendable t l := by
  have member : l.packetInTransit ∈ l.backlog := mem_backlog.mpr (Or.inl ⟨positive, rfl⟩)
  have within := sending.within
  have sized := (sending.sized _ member).2
  exact ⟨sending.arrived _ member, by omega, positive, within⟩

/-- While there is a backlog a packet is in transit, or one can be loaded. -/
theorem Sending.loads {t : Nat} {l : LinkQueue cfg} (sending : Sending t l)
    (more : (l.packetInTransitBytesLeft == 0 && l.packetQueue.empty) = false) :
    ∃ loaded, l.loadPacketInTransit = .ok loaded ∧ Sending t loaded ∧ Sendable t loaded := by
  by_cases none : l.packetInTransitBytesLeft = 0
  · have filled : l.packetQueue.empty = false := by simpa [none] using more
    obtain ⟨packet, rest, front⟩ : ∃ packet rest, l.packetQueue.packets = packet :: rest :=
      List.exists_cons_of_ne_nil (by simpa [AbstractPacketQueue.empty] using filled)
    obtain ⟨next, dequeued, left, accepts⟩ := sending.accepts.dequeue front
    have first : packet ∈ l.backlog := mem_backlog.mpr (Or.inr (by rw [front]; simp))
    have kept : ∀ p, p = packet ∨ p ∈ rest → p ∈ l.backlog := by
      intro p member
      rw [mem_backlog, front, List.mem_cons]
      exact Or.inr member
    have loaded : Sending t { l with
        packetQueue := next
        packetInTransit := packet
        packetInTransitBytesLeft := packet.contents.length } := by
      refine ⟨accepts, ?_, ?_, Nat.le_refl _⟩
      · intro p member
        rw [mem_backlog, left] at member
        exact sending.arrived p (kept p (member.imp And.right id))
      · intro p member
        rw [mem_backlog, left] at member
        exact sending.sized p (kept p (member.imp And.right id))
    refine ⟨_, ?_, loaded, loaded.sendable (sending.sized packet first).1⟩
    rw [loadPacketInTransit, if_pos none, dequeued]
    rfl
  · refine ⟨l, ?_, sending, sending.sendable (Nat.pos_of_ne_zero none)⟩
    rw [loadPacketInTransit, if_neg none]

/-- Sending some bytes leaves no more behind. -/
theorem Sending.send {t : Nat} {l : LinkQueue cfg} (sending : Sending t l) (amount : Nat) :
    Sending t (l.sendInTransit amount) := by
  have within := sending.within
  have fewer : ∀ p ∈ (l.sendInTransit amount).backlog, p ∈ l.backlog := by
    intro p member
    rw [mem_backlog] at member ⊢
    unfold sendInTransit at member
    by_cases last : l.packetInTransitBytesLeft - amount = 0
    · rw [if_pos last] at member
      exact Or.inr (member.resolve_left (fun both => absurd both.1 (Nat.lt_irrefl 0)))
    · rw [if_neg last] at member
      exact member.imp_left (fun both => ⟨by omega, both.2⟩)
  refine ⟨?_, fun p member => sending.arrived p (fewer p member),
    fun p member => sending.sized p (fewer p member), ?_⟩
  · unfold sendInTransit
    split
    · exact sending.accepts
    · exact sending.accepts
  · unfold sendInTransit
    split
    · exact Nat.zero_le _
    · exact Nat.le_trans (Nat.sub_le _ _) within

/-- A turn of the inner loop loads a packet if it must, and sends bytes of it. -/
theorem Sending.turn {t : Nat} {d : Delivery cfg} (sending : Sending t d.link)
    (more : moreToSend d = .ok true) :
    (∃ loaded, d.link.loadPacketInTransit = .ok loaded ∧ Sendable t loaded) ∧
      ∃ next, sendBytes t d = .ok next ∧ Sending t next.link ∧
        next.bytesLeftInThisDelivery < d.bytesLeftInThisDelivery := by
  have ⟨budget, backlogged⟩ : 0 < d.bytesLeftInThisDelivery ∧
      (d.link.packetInTransitBytesLeft == 0 && d.link.packetQueue.empty) = false := by
    have test := Except.ok.inj more
    rw [Bool.and_eq_true, Bool.not_eq_true', decide_eq_true_eq] at test
    exact test
  obtain ⟨loaded, load, kept, sendable⟩ := sending.loads backlogged
  have positive := sendable.positive
  refine ⟨⟨loaded, load, sendable⟩, _, sendBytes_eq load sendable, kept.send _, ?_⟩
  dsimp only
  omega

theorem sending_turn {t : Nat} {d next : Delivery cfg} (sending : Sending t d.link)
    (turn : Turn moreToSend (sendBytes t) d next) : Sending t next.link := by
  obtain ⟨_, other, sent, kept, _⟩ := sending.turn turn.1
  rw [turn.2] at sent
  rw [Except.ok.inj sent]
  exact kept

/-- With turns enough for its bytes, an opportunity is filled. -/
theorem Sending.fills {fuel t : Nat} {l : LinkQueue cfg} (sending : Sending t l)
    (enough : packetSize < fuel) :
    ∃ d, whileLoop .fuel moreToSend (sendBytes t) fuel ⟨packetSize, [], l⟩ = .ok d := by
  apply whileLoop_returns (I := fun d : Delivery cfg => Sending t d.link)
    Delivery.bytesLeftInThisDelivery
  · intro d _
    exact ⟨_, rfl⟩
  · intro d before more
    exact (before.turn more).2
  · exact sending
  · exact enough

/-- An opportunity of a schedule that has not wrapped around the 64 bits is at its time. -/
theorem nextDeliveryTime_of_going {l : LinkQueue cfg} (going : l.finished = false)
    (exactly : l.linkBaseTimestamp + cfg.heavyPdoSchedule.last < 2 ^ 64) :
    l.nextDeliveryTime = cfg.heavyPdoSchedule.times.get l.nextDelivery + l.linkBaseTimestamp := by
  have least := cfg.heavyPdoSchedule.time_le_last l.nextDelivery
  unfold nextDeliveryTime
  rw [if_neg (by simp [going])]
  exact_mod_cast toUnsigned_natCast 64 _ (by omega)

theorem nextDeliveryTime_of_finished {l : LinkQueue cfg} (finished : l.finished = true) :
    l.nextDeliveryTime = 2 ^ 64 - 1 := by
  unfold nextDeliveryTime
  rw [if_pos finished]
  decide

/-- How many opportunities can be due at a reading: as many rounds as there are milliseconds to
it, since a round takes one at least, and what is left of the round begun. -/
def turnsLeft (now : Nat) (l : LinkQueue cfg) : Nat :=
  if l.finished then 0
  else 1 + (now - l.linkBaseTimestamp) * cfg.heavyPdoSchedule.times.length +
    (cfg.heavyPdoSchedule.times.length - l.nextDelivery)

/-- The row behind the one at the cursor, unless that is the last row. -/
theorem followingDelivery_cases (l : LinkQueue cfg) :
    l.followingDelivery.val = l.nextDelivery.val + 1 ∨
      l.followingDelivery.val = 0 ∧
        cfg.heavyPdoSchedule.times.get l.nextDelivery = cfg.heavyPdoSchedule.last ∧
        l.nextDelivery.val + 1 = cfg.heavyPdoSchedule.times.length := by
  have inside := l.nextDelivery.isLt
  unfold followingDelivery
  rcases Nat.lt_or_ge (l.nextDelivery.val + 1) cfg.heavyPdoSchedule.times.length with more | all
  · exact Or.inl (Nat.mod_eq_of_lt more)
  · have wraps : l.nextDelivery.val + 1 = cfg.heavyPdoSchedule.times.length := by omega
    refine Or.inr ⟨?_, ?_, wraps⟩
    · show (l.nextDelivery.val + 1) % cfg.heavyPdoSchedule.times.length = 0
      rw [wraps, Nat.mod_self]
    · have place : l.nextDelivery.val = cfg.heavyPdoSchedule.times.length - 1 := by omega
      unfold HeavyTrace.last
      rw [List.getLast_eq_getElem]
      simp only [List.get_eq_getElem, place]

/-- Past an opportunity that is due, the schedule is not ahead of the reading, the next opportunity
is not earlier, and fewer can be due. -/
theorem useADeliveryOpportunity_due {now : Nat} {l : LinkQueue cfg}
    (base : l.linkBaseTimestamp ≤ now) (small : now + cfg.heavyPdoSchedule.last < 2 ^ 64)
    (due : l.nextDeliveryTime ≤ now) :
    l.useADeliveryOpportunity.linkBaseTimestamp ≤ now ∧
      l.nextDeliveryTime ≤ l.useADeliveryOpportunity.nextDeliveryTime ∧
      turnsLeft now l.useADeliveryOpportunity < turnsLeft now l := by
  have lasting := cfg.heavyPdoSchedule.last_pos
  have inside := l.nextDelivery.isLt
  have going : l.finished = false := by
    by_contra finished
    have never := nextDeliveryTime_of_finished (by simpa using finished : l.finished = true)
    omega
  have time := nextDeliveryTime_of_going going (by omega)
  rcases l.useADeliveryOpportunity_cases with ⟨inner, use⟩ | ⟨first, _, use⟩ | ⟨_, _, use⟩
  · have next := l.followingDelivery_cases.resolve_right (fun both => inner both.1)
    have bound := l.followingDelivery.isLt
    have ordered : cfg.heavyPdoSchedule.times.get l.nextDelivery ≤
        cfg.heavyPdoSchedule.times.get l.followingDelivery :=
      List.pairwise_iff_getElem.mp cfg.heavyPdoSchedule.nondecreasing _ _ inside bound (by omega)
    have after := nextDeliveryTime_of_going (l := l.useADeliveryOpportunity)
      (by rw [use]; exact going) (by rw [use]; dsimp only; omega)
    simp only [use] at after ⊢
    refine ⟨base, by omega, ?_⟩
    unfold turnsLeft
    simp only [going, Bool.false_eq_true, if_false]
    omega
  · obtain ⟨_, final, wraps⟩ := l.followingDelivery_cases.resolve_left (by omega)
    rw [final] at time
    have moved : u64 ((l.linkBaseTimestamp : Int) + cfg.heavyPdoSchedule.last) =
        l.linkBaseTimestamp + cfg.heavyPdoSchedule.last := by
      exact_mod_cast toUnsigned_natCast 64 _ (by omega)
    rw [moved] at use
    have after := nextDeliveryTime_of_going (l := l.useADeliveryOpportunity)
      (by rw [use]; exact going) (by rw [use]; dsimp only; omega)
    simp only [use] at after ⊢
    refine ⟨by omega, by omega, ?_⟩
    -- a round takes at least one of the milliseconds to the reading
    have round : (now - (l.linkBaseTimestamp + cfg.heavyPdoSchedule.last)) *
        cfg.heavyPdoSchedule.times.length + cfg.heavyPdoSchedule.times.length ≤
        (now - l.linkBaseTimestamp) * cfg.heavyPdoSchedule.times.length := by
      rw [← Nat.succ_mul]
      exact Nat.mul_le_mul_right _ (by omega)
    unfold turnsLeft
    simp only [going, Bool.false_eq_true, if_false, first]
    omega
  · have never := nextDeliveryTime_of_finished (l := l.useADeliveryOpportunity) (by rw [use])
    refine ⟨by rw [use]; exact base, by omega, ?_⟩
    rw [use]
    unfold turnsLeft
    simp only [going, Bool.false_eq_true, if_false, if_true]
    omega

/-- What keeps the assertions from failing at any reading from `now` on. -/
structure Safe (now : Nat) (l : LinkQueue cfg) : Prop where
  base : l.linkBaseTimestamp ≤ now
  sending : Sending l.nextDeliveryTime l

theorem Safe.later {t t' : Nat} {l : LinkQueue cfg} (safe : Safe t l) (later : t ≤ t') :
    Safe t' l := ⟨Nat.le_trans safe.base later, safe.sending⟩

theorem sending_useADeliveryOpportunity {t : Nat} {l : LinkQueue cfg} (sending : Sending t l) :
    Sending t l.useADeliveryOpportunity := by
  rw [l.useADeliveryOpportunity_frame]
  exact ⟨sending.accepts, sending.arrived, sending.sized, sending.within⟩

theorem nextDeliveryTime_congr {l next : LinkQueue cfg}
    (cursor : next.nextDelivery = l.nextDelivery)
    (base : next.linkBaseTimestamp = l.linkBaseTimestamp) (finished : next.finished = l.finished) :
    next.nextDeliveryTime = l.nextDeliveryTime := by
  unfold nextDeliveryTime
  rw [finished, base]
  simp only [cursor]

theorem turnsLeft_congr {now : Nat} {l next : LinkQueue cfg}
    (cursor : next.nextDelivery = l.nextDelivery)
    (base : next.linkBaseTimestamp = l.linkBaseTimestamp) (finished : next.finished = l.finished) :
    turnsLeft now next = turnsLeft now l := by
  unfold turnsLeft
  rw [finished, base]
  simp only [cursor]

/-- What an opportunity that is due leaves, whatever number of turns it is given. -/
theorem Safe.burned {fuel now : Nat} {l next : LinkQueue cfg} (safe : Safe now l)
    (small : now + cfg.heavyPdoSchedule.last < 2 ^ 64) (due : opportunityDue now l = .ok true)
    (run : burnOpportunity fuel l = .ok next) :
    Safe now next ∧ turnsLeft now next < turnsLeft now l := by
  have reached : l.nextDeliveryTime ≤ now := of_decide_eq_true (Except.ok.inj due)
  obtain ⟨base, later, fewer⟩ := useADeliveryOpportunity_due safe.base small reached
  obtain ⟨d, loop, same⟩ := bind_eq_ok.mp run
  have shape := (Except.ok.inj same).symm
  have kept := whileLoop_inv
    (I := fun d : Delivery cfg => Forwards l.useADeliveryOpportunity d.link ∧
      Sending l.nextDeliveryTime d.link)
    (fun _ _ before turn =>
      ⟨before.1.trans (sendBytes_forwards turn.2), sending_turn before.2 turn⟩)
    loop ⟨Forwards.refl _, sending_useADeliveryOpportunity safe.sending⟩
  obtain ⟨⟨forwards, sending⟩, _⟩ := kept
  have cursor : next.nextDelivery = l.useADeliveryOpportunity.nextDelivery := by
    rw [shape]
    exact forwards.nextDelivery
  have anchor : next.linkBaseTimestamp = l.useADeliveryOpportunity.linkBaseTimestamp := by
    rw [shape]
    exact forwards.linkBaseTimestamp
  have ended : next.finished = l.useADeliveryOpportunity.finished := by
    rw [shape]
    exact forwards.finished
  have time := nextDeliveryTime_congr cursor anchor ended
  have turns : turnsLeft now next = turnsLeft now l.useADeliveryOpportunity :=
    turnsLeft_congr cursor anchor ended
  refine ⟨⟨by omega, ?_⟩, by omega⟩
  have behind : Sending next.nextDeliveryTime d.link := sending.later (by omega)
  rw [shape] at behind ⊢
  exact ⟨behind.accepts, behind.arrived, behind.sized, behind.within⟩

/-- With turns enough for its bytes, an opportunity is burned. -/
theorem Safe.burns {fuel now : Nat} {l : LinkQueue cfg} (safe : Safe now l)
    (enough : packetSize < fuel) : ∃ next, burnOpportunity fuel l = .ok next := by
  obtain ⟨d, filled⟩ := (sending_useADeliveryOpportunity safe.sending).fills enough
  simp only [burnOpportunity, filled, bind, Except.bind]
  exact ⟨_, rfl⟩

/-- Emulating the link up to a reading returns. -/
theorem Safe.returns {now : Nat} {l : LinkQueue cfg} (safe : Safe now l)
    (small : now + cfg.heavyPdoSchedule.last < 2 ^ 64) :
    ∃ fuel next, l.rationalize fuel now = .ok next := by
  refine ⟨turnsLeft now l + packetSize + 1, ?_⟩
  apply whileLoop_returns (I := Safe now) (turnsLeft now)
  · intro s _
    exact ⟨_, rfl⟩
  · intro s before due
    have enough : packetSize < turnsLeft now l + packetSize + 1 := by omega
    obtain ⟨next, burned⟩ := before.burns enough
    have ⟨kept, fewer⟩ := before.burned small due burned
    exact ⟨next, burned, kept, fewer⟩
  · exact safe
  · omega

theorem Safe.during {fuel now : Nat} {l mid : LinkQueue cfg} (safe : Safe now l)
    (small : now + cfg.heavyPdoSchedule.last < 2 ^ 64)
    (during : Relation.ReflTransGen (Turn (opportunityDue now) (burnOpportunity fuel)) l mid) :
    Safe now mid := by
  induction during with
  | refl => exact safe
  | tail _ turn ih => exact (ih.burned small turn.1 turn.2).1

theorem Safe.rationalize {fuel now : Nat} {l next : LinkQueue cfg} (safe : Safe now l)
    (small : now + cfg.heavyPdoSchedule.last < 2 ^ 64)
    (run : l.rationalize fuel now = .ok next) : Safe now next := by
  have kept := whileLoop_inv (I := Safe now)
    (fun _ _ before turn => (before.burned small turn.1 turn.2).1) run safe
  exact kept.1

/-- A packet put in the link arrives before the next opportunity. -/
theorem Safe.put {fuel now : Nat} {packet : DelayQueuePacket} {l next : LinkQueue cfg}
    (safe : Safe now l) (small : now + cfg.heavyPdoSchedule.last < 2 ^ 64)
    (filled : packet.contents ≠ []) (run : l.putPacketToLinkQueue fuel now packet = .ok next) :
    Safe now next := by
  obtain ⟨fits, served, packetQueue, emulated, offered, shape⟩ := putPacketToLinkQueue_cases run
  have ahead := rationalize_exit emulated
  have before := safe.rationalize small emulated
  have positive := List.length_pos_iff.mpr filled
  have members := AbstractPacketQueue.enqueue_mem offered
  have sized : (QueuedPacket.ofDelayed packet now).contents.length < 2 ^ 31 :=
    Nat.lt_of_le_of_lt fits (by decide)
  have kept : ∀ p ∈ next.backlog, p ∈ served.backlog ∨ p = QueuedPacket.ofDelayed packet now := by
    intro p member
    rw [shape, mem_backlog] at member
    rw [mem_backlog]
    rcases member with transit | queued
    · exact Or.inl (Or.inl transit)
    · exact (members p queued).imp_left Or.inr
  have time : next.nextDeliveryTime = served.nextDeliveryTime := by
    rw [shape]
    rfl
  refine ⟨by rw [shape]; exact before.base, ?_, ?_, ?_, by rw [shape]; exact before.sending.within⟩
  · rw [shape]
    exact before.sending.accepts.enqueue sized offered
  · intro p member
    rw [time]
    rcases kept p member with old | new
    · exact before.sending.arrived p old
    · rw [new]
      exact Nat.le_of_lt ahead
  · intro p member
    rcases kept p member with old | new
    · exact before.sending.sized p old
    · rw [new]
      exact ⟨positive, fits⟩

/-- Emulating a link without a backlog finds nothing to send. -/
theorem rationalize_backlog {fuel now : Nat} {l next : LinkQueue cfg} (nothing : l.backlog = [])
    (run : l.rationalize fuel now = .ok next) : next.backlog = [] := by
  have serves := rationalize_serves run
  have held : next.outputQueue ++ next.backlog = l.outputQueue ++ l.backlog := serves.held
  have longer := serves.output.length_le
  have lengths := congrArg List.length held
  rw [nothing] at lengths
  simp only [List.length_append, List.length_nil] at lengths
  exact List.length_eq_zero_iff.mp (by omega)

end LinkQueue

namespace CellularQueue

/-- What holds of the emulator at a reading: the link is safe, and until the first packet starts
the trace there is no packet. -/
structure Live (now : Nat) (q : CellularQueue cfg) : Prop where
  filled : Filled q
  safe : Safe now q.link
  unstarted : q.startTick = false → q.delayPacketQueue.items = [] ∧ q.link.backlog = []

theorem Live.later {t t' : Nat} {q : CellularQueue cfg} (live : Live t q) (later : t ≤ t') :
    Live t' q := ⟨live.filled, live.safe.later later, live.unstarted⟩

/-- The first packet moves the schedule to its arrival, which no packet of the link is behind. -/
theorem Live.read {fuel now : Nat} {contents : Bytes} {q next : CellularQueue cfg}
    (live : Live now q) (run : q.readPacket law fuel now contents = .ok next) : Live now next := by
  obtain ⟨_, packet, admits⟩ := readPacket_admits run
  have act : Act law q (.read now contents) next := Act.read run
  refine ⟨act.filled live.filled, ?_, ?_⟩
  · rw [admits.link]
    cases started : q.startTick with
    | true => exact live.safe
    | false =>
        have nothing := (live.unstarted started).2
        refine ⟨Nat.le_refl now, live.safe.sending.accepts, ?_, ?_, live.safe.sending.within⟩
        · intro p member
          have old : p ∈ q.link.backlog := member
          rw [nothing] at old
          cases old
        · exact live.safe.sending.sized
  · intro unstarted
    rw [admits.startTick] at unstarted
    cases unstarted

end CellularQueue

/-- The steps that read the clock read it at a given time. -/
def Action.AtReading (now : Nat) : Action → Prop
  | .read t _ | .pass _ _ t | .serve t => t = now
  | .write _ => True

/-- No step at a reading takes the link out of a safe state. -/
theorem Act.live {q next : CellularQueue cfg} {a : Action} {now : Nat} (act : Act law q a next)
    (reading : a.AtReading now) (small : now + cfg.heavyPdoSchedule.last < 2 ^ 64)
    (live : Live now q) : Live now next := by
  have filled := act.filled live.filled
  cases act with
  | read run =>
      obtain rfl := reading
      exact live.read run
  | pass front due run =>
      obtain rfl := reading
      have started : q.startTick ≠ false := by
        intro unstarted
        rw [(live.unstarted unstarted).1] at front
        cases front
      rcases forwardPacket_cases run with ⟨_, _, shape⟩ | ⟨_, link, put, shape⟩
      · rw [shape] at filled ⊢
        exact ⟨filled, live.safe, fun unstarted => absurd unstarted started⟩
      · have contents := live.filled _ (by rw [front]; exact List.mem_cons_self)
        rw [shape] at filled ⊢
        exact ⟨filled, live.safe.put small contents put,
          fun unstarted => absurd unstarted started⟩
  | write front run =>
      have ⟨_, shape⟩ := writeOutput_cases front run
      have sending := live.safe.sending
      rw [shape] at filled ⊢
      exact ⟨filled, ⟨live.safe.base, sending.accepts, sending.arrived, sending.sized,
        sending.within⟩, live.unstarted⟩
  | serve run =>
      obtain rfl := reading
      exact ⟨filled, live.safe.rationalize small run, fun unstarted =>
        ⟨(live.unstarted unstarted).1, rationalize_backlog (live.unstarted unstarted).2 run⟩⟩

/-- The reading at which a call reads a packet or emulates the link. -/
def Op.reading : Op → Nat
  | .readPacket now _ | .waitTime _ now | .pendingOutput now => now
  | .writePackets clock => clock 1

theorem Op.Makes.atReading {q : CellularQueue cfg} {a : Action} {op : Op} (makes : op.Makes q a) :
    a.AtReading op.reading := by
  cases op with
  | readPacket now contents =>
      obtain rfl := makes
      rfl
  | writePackets clock =>
      rcases makes with ⟨packet, k, rfl, _⟩ | ⟨packet, rfl⟩
      · rfl
      · trivial
  | waitTime nowDelay nowLink =>
      obtain rfl := makes
      rfl
  | pendingOutput now => exact makes.elim

theorem Op.Between.reading {t t' : Nat} {op : Op} (between : op.Between t t') :
    t ≤ op.reading ∧ op.reading ≤ t' := by
  cases op with
  | readPacket now contents => exact between
  | writePackets clock =>
      obtain ⟨first, monotone, last⟩ := between
      exact ⟨Nat.le_trans first (monotone (Nat.zero_le 1)), last 1⟩
  | waitTime nowDelay nowLink =>
      obtain ⟨first, second, last⟩ := between
      exact ⟨Nat.le_trans first second, last⟩
  | pendingOutput now => exact between

/-- The queues that accept packets at the tail, as they are built. -/
def TailQueue (packetQueue : AbstractPacketQueue) : Prop :=
  packetQueue = .infinite {} ∨ ∃ limits, packetQueue = .droptail { limits := limits }

theorem TailQueue.accepts {packetQueue : AbstractPacketQueue} (tail : TailQueue packetQueue) :
    packetQueue.AcceptsAtTail ∧ packetQueue.packets = [] := by
  rcases tail with rfl | ⟨limits, rfl⟩
  · exact ⟨trivial, rfl⟩
  · refine ⟨⟨⟨rfl, rfl, Nat.two_pow_pos 31, Nat.two_pow_pos 31⟩, ?_⟩, rfl⟩
    simp [DroppingPacketQueue.within, DroppingPacketQueue.goodWith]

theorem construct_live {packetQueue : AbstractPacketQueue} (tail : TailQueue packetQueue)
    {linkTimestamp delayTimestamp : Nat} (ordered : linkTimestamp ≤ delayTimestamp) :
    Live delayTimestamp (construct cfg packetQueue linkTimestamp delayTimestamp) := by
  obtain ⟨accepts, empty⟩ := tail.accepts
  have nothing : (construct cfg packetQueue linkTimestamp delayTimestamp).link.backlog = [] := by
    simp [backlog, construct, LinkQueue.init, empty]
  refine ⟨construct_filled _ _ _, ⟨ordered, accepts, ?_, ?_, Nat.le_refl 0⟩,
    fun _ => ⟨rfl, nothing⟩⟩
  · intro p member
    rw [nothing] at member
    cases member
  · intro p member
    rw [nothing] at member
    cases member

/-- In every state a run reaches, the link is safe. -/
theorem Reaches.live {packetQueue : AbstractPacketQueue} (tail : TailQueue packetQueue)
    {ops : List Op} {q : CellularQueue cfg} {t : Nat}
    (reaches : Reaches cfg law packetQueue ops q t)
    (small : t + cfg.heavyPdoSchedule.last < 2 ^ 64) : Live t q := by
  obtain ⟨linkTimestamp, delayTimestamp, ordered, run⟩ := reaches
  have kept := run.invariant
    (I := fun s => s.2 + cfg.heavyPdoSchedule.last < 2 ^ 64 → Live s.2 s.1)
    (by
      intro s op s' before step small
      obtain ⟨between, later, fuel, returned⟩ := step
      obtain ⟨first, last⟩ := between.reading
      have live := (before (by omega)).later first
      obtain ⟨actions, acts, made⟩ := exec_acts live.filled returned
      have after := acts.guarded (I := Live op.reading) (P := Action.AtReading op.reading)
        (fun _ _ _ reading kept act => act.live reading (by omega) kept)
        (fun a member => (made a member).atReading) live
      exact after.later last)
    (fun _ => construct_live tail ordered)
  exact kept small

/-- The calls of `rationalize` in the runs of the emulator, with the reading they are given:
`wait_time` polls the link at any later reading, and `write_packets` puts in it the packets it pops,
at its second reading. -/
inductive RationalizeCalled (law : ReleaseLaw) (packetQueue : AbstractPacketQueue) :
    LinkQueue cfg → Nat → Prop
  | poll {ops : List Op} {q : CellularQueue cfg} {t now : Nat}
      (reaches : Reaches cfg law packetQueue ops q t) (later : t ≤ now) :
      RationalizeCalled law packetQueue q.link now
  | put {ops : List Op} {q : CellularQueue cfg} {t fuel : Nat} {clock : Nat → Nat}
      {d : Draining cfg} (reaches : Reaches cfg law packetQueue ops q t) (later : t ≤ clock 0)
      (monotone : Monotone clock)
      (during : Relation.ReflTransGen (Turn packetPopped (drainTurn fuel clock (clock 1)))
        { q.popDue clock 0 with reading := 2 } d) :
      RationalizeCalled law packetQueue d.queue.link (clock 1)

/-- Popping a packet of the delay queue does not concern the link. -/
theorem popDue_link (clock : Nat → Nat) (reading : Nat) (q : CellularQueue cfg) :
    (q.popDue clock reading).queue.link = q.link := by
  rcases q.popDue_cases clock reading with ⟨_, _, _, _, pop⟩ | ⟨_, pop⟩
  · rw [pop]
  · rw [pop]

/-- A call is made in a state that a run reaches, or behind steps made at its reading. -/
theorem RationalizeCalled.acted {packetQueue : AbstractPacketQueue} {l : LinkQueue cfg} {now : Nat}
    (called : RationalizeCalled law packetQueue l now) :
    ∃ (ops : List Op) (q before : CellularQueue cfg) (t : Nat) (actions : List Action),
      Reaches cfg law packetQueue ops q t ∧ t ≤ now ∧ Run (Act law) q actions before ∧
        (∀ a ∈ actions, a.AtReading now) ∧ before.link = l := by
  cases called with
  | @poll ops q t _ reaches later =>
      exact ⟨ops, q, q, t, [], reaches, later, Run.nil, by simp, rfl⟩
  | @put ops q t fuel clock d reaches later monotone during =>
      have drained : DrainedFrom law clock q d := by
        induction during with
        | refl => exact ⟨[], q, Run.nil, by simp, fun p member => member, 0, rfl, rfl⟩
        | tail _ turn ih => exact drainTurn_drained ih turn
      obtain ⟨actions, before, acts, labels, _, k, _, same⟩ := drained.acted
      refine ⟨ops, q, before, t, actions, reaches,
        Nat.le_trans later (monotone (Nat.zero_le 1)), acts, ?_, ?_⟩
      · intro a member
        obtain ⟨packet, k, rfl, _⟩ := labels a member
        rfl
      · rw [same, popDue_link]

theorem RationalizeCalled.safe {packetQueue : AbstractPacketQueue} (tail : TailQueue packetQueue)
    {l : LinkQueue cfg} {now : Nat} (called : RationalizeCalled law packetQueue l now)
    (small : now + cfg.heavyPdoSchedule.last < 2 ^ 64) : Safe now l := by
  obtain ⟨_, q, before, t, actions, reaches, later, acts, reading, same⟩ := called.acted
  have kept := acts.guarded (I := Live now) (P := Action.AtReading now)
    (fun _ _ _ reading kept act => act.live reading small kept) reading
    ((reaches.live tail (by omega)).later later)
  rw [← same]
  exact kept.safe

theorem RationalizeCalled.metered {l : LinkQueue cfg} {now : Nat}
    (called : RationalizeCalled law (.infinite {}) l now) : Metered 0 l := by
  obtain ⟨_, q, before, _, actions, reaches, _, acts, _, same⟩ := called.acted
  have kept := acts.invariant (I := fun q => Filled q ∧ Metered 0 q.link)
    (fun _ _ _ kept act => ⟨act.filled kept.1, act.metered kept.1 kept.2⟩)
    ⟨reaches.filled, reaches.metered⟩
  rw [← same]
  exact kept.2

/-- Every call of `rationalize` returns, and in each turn of its loops the packet in transit, loaded
if it must be, meets the four assertions. -/
theorem rationalize_safe {packetQueue : AbstractPacketQueue} (tail : TailQueue packetQueue)
    {l : LinkQueue cfg} {now : Nat} (called : RationalizeCalled law packetQueue l now)
    (small : now + cfg.heavyPdoSchedule.last < 2 ^ 64) :
    (∃ fuel next, l.rationalize fuel now = .ok next) ∧
      ∀ fuel mid, Relation.ReflTransGen (Turn (opportunityDue now) (burnOpportunity fuel)) l mid →
        opportunityDue now mid = .ok true →
        ∀ d, Relation.ReflTransGen (Turn moreToSend (sendBytes mid.nextDeliveryTime))
            ⟨packetSize, [], mid.useADeliveryOpportunity⟩ d →
          moreToSend d = .ok true →
          ∃ loaded, d.link.loadPacketInTransit = .ok loaded ∧
            Sendable mid.nextDeliveryTime loaded := by
  have safe := called.safe tail small
  refine ⟨safe.returns small, ?_⟩
  intro fuel mid outer _ d inner more
  have before := (safe.during small outer).sending
  have sending : Sending mid.nextDeliveryTime d.link := by
    induction inner with
    | refl => exact sending_useADeliveryOpportunity before
    | tail _ turn ih => exact sending_turn (ih turn.1) turn
  exact (sending.turn more).1

/-- In every call of `rationalize`, each opportunity serves the link as a server of bytes: it sends
as many as it can, and the packets leave in order, each one in the opportunity that sends its last
byte. While the schedule does not wrap around the 64 bits nothing keeps it from that, and otherwise
only the assertion on the arrival time. -/
theorem rationalize_sendsFluid {l mid : LinkQueue cfg} {now fuel : Nat}
    (called : RationalizeCalled law (.infinite {}) l now)
    (during : Relation.ReflTransGen (Turn (opportunityDue now) (burnOpportunity fuel)) l mid)
    (enough : packetSize < fuel) :
    (now + cfg.heavyPdoSchedule.last < 2 ^ 64 →
      ∃ next, burnOpportunity fuel mid = .ok next ∧ SendsFluid mid next) ∧
    (burnOpportunity fuel mid = .error arrivalAssertion ∨
      ∃ next, burnOpportunity fuel mid = .ok next ∧ SendsFluid mid next) := by
  have metered := called.metered.during during
  refine ⟨?_, metered.burns enough⟩
  intro small
  have safe := (called.safe (Or.inl rfl) small).during small during
  obtain ⟨next, burned⟩ := safe.burns enough
  exact ⟨next, burned, (metered.burn burned).2⟩

/-- The opportunity at 10 ms sends all of the first packet and half of the second one. -/
theorem rationalize_sendsFluid_halfThenFull : ∃ (q : CellularQueue undelayed)
    (next : LinkQueue undelayed),
    Reaches undelayed (LightPdo.getPktReleaseTime undelayed) (.infinite {}) halfThenFull q 3 ∧
      opportunityDue 10 q.link = .ok true ∧
      burnOpportunity 1500 q.link = .ok next ∧ SendsFluid q.link next ∧
      q.link.backlog.map sizeOfPacket = [700, 1400] ∧
      next.outputQueue.map sizeOfPacket = [700] ∧ next.backlogBytes = 700 := by
  have observed : (Op.execAll (LightPdo.getPktReleaseTime undelayed) 10 halfThenFull
      (construct undelayed (.infinite {}) 0 0)).toOption.map (fun q =>
        (q.link.backlog.map sizeOfPacket, (opportunityDue 10 q.link).toOption,
          (burnOpportunity 1500 q.link).toOption.map (fun next =>
            (next.outputQueue.map sizeOfPacket, next.backlogBytes)))) =
      some ([700, 1400], some true, some ([700], 700)) := by decide +kernel
  obtain ⟨q, reaches, seen⟩ := Reaches.of_execAll halfThenFull_timed observed
  obtain ⟨backlog, seen⟩ := Prod.mk.inj seen
  obtain ⟨isDue, seen⟩ := Prod.mk.inj seen
  obtain ⟨next, burned, outcome⟩ := observe_ok seen
  obtain ⟨output, bytesLeft⟩ := Prod.mk.inj outcome
  have due := ok_of_toOption isDue
  have called : RationalizeCalled (LightPdo.getPktReleaseTime undelayed) (.infinite {}) q.link 10 :=
    RationalizeCalled.poll reaches (by decide)
  obtain ⟨other, same, fluid⟩ :=
    (rationalize_sendsFluid called Relation.ReflTransGen.refl
      (show packetSize < 1500 by decide)).1 (by decide)
  rw [burned] at same
  rw [← Except.ok.inj same] at fluid
  exact ⟨q, next, reaches, due, burned, fluid, backlog, output, bytesLeft⟩

/-- A queue of at most two packets. -/
def roomForTwo : AbstractPacketQueue :=
  .droptail { limits := ⟨2, 0, by decide, QueueLimits.unset_lt, Or.inl (by decide)⟩ }

/-- With two packets in such a queue, the poll at the first opportunity returns. -/
theorem rationalize_safe_halfThenFull : ∃ q : CellularQueue undelayed,
    Reaches undelayed (LightPdo.getPktReleaseTime undelayed) roomForTwo halfThenFull q 3 ∧
      q.link.backlog.map sizeOfPacket = [700, 1400] ∧
      ∃ fuel next, q.link.rationalize fuel 10 = .ok next := by
  have observed : (Op.execAll (LightPdo.getPktReleaseTime undelayed) 10 halfThenFull
      (construct undelayed roomForTwo 0 0)).toOption.map (fun q =>
        q.link.backlog.map sizeOfPacket) = some [700, 1400] := by decide +kernel
  obtain ⟨q, reaches, seen⟩ := Reaches.of_execAll halfThenFull_timed observed
  have called : RationalizeCalled (LightPdo.getPktReleaseTime undelayed) roomForTwo q.link 10 :=
    RationalizeCalled.poll reaches (by decide)
  exact ⟨q, reaches, seen, (rationalize_safe (Or.inr ⟨_, rfl⟩) called (by decide)).1⟩

end CellReplay
