import CellReplay.Frontend.Latency
import CellReplay.Packet.PacketShell

set_option autoImplicit false

namespace CellReplay

open FueledLoop Transition Poller LinkQueue CellularQueue

/-- The longer list has at the front what the shorter one has. -/
theorem takeWhile_length_le {α : Type} {few many : α → Bool} (imp : ∀ a, few a → many a)
    {short long : List α} (front : short <+: long) :
    (short.takeWhile few).length ≤ (long.takeWhile many).length := by
  obtain ⟨rest, rfl⟩ := front
  induction short with
  | nil => simp
  | cons a short ih =>
      by_cases first : few a = true
      · simp [first, imp a first, ih]
      · simp [first]

namespace Ferry

variable {cfg : Config} {law : ReleaseLaw} {fuel : Nat} {nameserver : Bool}

/-- A turn in which the poll returns in time, no descriptor fails and the sibling's is writable, for
both of the actions polled on it. -/
def Turn.Serves (cfg : Config) (nameserver : Bool) (r : Turn) : Prop :=
  ∃ revents, r.revents = some revents ∧ (∀ place, (revents place).failed = false) ∧
    ∀ place, (handlers nameserver (Q := CellularQueue cfg)).length < place →
      place ≤ (handlers nameserver (Q := CellularQueue cfg)).length + 2 →
      (revents place).writable = true

/-- The calls of a ferry's queue are calls of the emulator. -/
theorem calls_step {s s' : CellularQueue cfg × Nat} {ops : List Op}
    (run : Run (Calls (cellular law fuel)) s ops s') : Run (Step law) s ops s' := by
  apply run.mono
  intro s op s' ⟨between, onward, returned⟩
  rw [exec_cellular] at returned
  exact ⟨between, onward, fuel, returned⟩

/-- So turns, too, are a run of the emulator. -/
theorem turns_step {turns : List Turn}
    {x y : (List (Entry (Ferry (CellularQueue cfg)) World) × Ferry (CellularQueue cfg)) × Nat}
    (ran : Run (Turns (cellular law fuel)) x turns y)
    (inv : Contract.Inv (fun a _ => a.direction = .in) (fun _ => True)
      (actions (cellular law fuel) nameserver) x.1.1 x.1.2) {u : Nat} (since : u ≤ x.2) :
    ∃ ops u', u' ≤ y.2 ∧ Run (Step law) (x.1.2.queue, u) ops (y.1.2.queue, u') := by
  have kept := ran.invariant (I := fun y => Contract.Inv (fun a _ => a.direction = .in)
      (fun _ => True) (actions (cellular law fuel) nameserver) y.1.1 y.1.2 ∧
    ∃ ops u', u' ≤ y.2 ∧ Run (Step law) (x.1.2.queue, u) ops (y.1.2.queue, u'))
    (by
      intro y r z ⟨inv, ops, u', since, made⟩ ⟨between, outcome, returned⟩
      have ⟨kept, ops', u'', _, since', made'⟩ := turn_calls between since inv returned
      exact ⟨kept, ops ++ ops', u'', since', made.append (calls_step made')⟩)
    ⟨inv, [], u, since, Run.nil⟩
  exact kept.2

/-- The packets out of the delay stage at a reading, and those that may leave it. -/
def ahead (now : Nat) (q : CellularQueue cfg) : Nat :=
  q.fd.length + q.link.held.length +
    (q.delayPacketQueue.items.takeWhile (fun p => p.releaseTime ≤ now)).length

/-- What the callbacks of a turn keep: as many packets as were ahead are out of the delay stage, or
nothing has been taken from it yet. -/
structure Passing (first : CellularQueue cfg) (now : Nat) (f : Ferry (CellularQueue cfg)) :
    Prop where
  filled : Filled f.queue
  ordered : Ordered f.queue
  passed : ahead now first ≤ f.queue.fd.length + f.queue.link.held.length ∨
    first.fd.length + first.link.held.length ≤ f.queue.fd.length + f.queue.link.held.length ∧
      first.delayPacketQueue.items <+: f.queue.delayPacketQueue.items

/-- The sibling's callback passes on all that is due. -/
theorem Passing.writes {first : CellularQueue cfg} {now : Nat} {w : World}
    {f f' : Ferry (CellularQueue cfg)} (law : ReleaseLaw) (passing : Passing first now f)
    (monotone : Monotone w.clock) (later : now ≤ w.clock 0)
    (run : f.queue.writePackets fuel w.clock = .ok f'.queue) :
    Passing first now f' ∧ ahead now first ≤ f'.queue.fd.length + f'.queue.link.held.length := by
  have exec : (Op.writePackets w.clock).exec law fuel f.queue = .ok f'.queue := run
  have ⟨filled, ordered, since⟩ := exec_since passing.filled passing.ordered exec
  have kept := since.kept
  have stages := writePackets_stages law passing.filled passing.ordered monotone run
  have settled : ahead now first ≤ f'.queue.fd.length + f'.queue.link.held.length := by
    rcases passing.passed with passed | ⟨most, front⟩
    · omega
    · have due : (first.delayPacketQueue.items.takeWhile (fun p => p.releaseTime ≤ now)).length ≤
          (f.queue.delayPacketQueue.items.takeWhile (fun p => p.releaseTime ≤ w.clock 0)).length :=
        takeWhile_length_le (by simp; omega) front
      unfold ahead
      omega
  exact ⟨⟨filled, ordered, Or.inl settled⟩, settled⟩

/-- Every callback keeps it. -/
theorem Passing.called {first : CellularQueue cfg} {now : Nat} {w : World}
    {f f' : Ferry (CellularQueue cfg)} {call : Call (Ferry (CellularQueue cfg)) World}
    (monotone : Monotone w.clock) (later : now ≤ w.clock 0)
    (member : call.action ∈ actions (cellular law fuel) nameserver)
    (called : Called (· = w) (fun _ _ => True) f call f') (passing : Passing first now f) :
    Passing first now f' ∧
      (ahead now first ≤ f.queue.fd.length + f.queue.link.held.length ∨
          call.action = siblingOut (cellular law fuel) →
        ahead now first ≤ f'.queue.fd.length + f'.queue.link.held.length) := by
  have out : call.action = siblingOut (cellular law fuel) →
      ahead now first ≤ f'.queue.fd.length + f'.queue.link.held.length :=
    fun sibling => (passing.writes law monotone later (called_siblingOut called sibling)).2
  rcases called_queue member called with same | read | wrote
  · refine ⟨⟨?_, ?_, ?_⟩, ?_⟩
    · rw [same]
      exact passing.filled
    · rw [same]
      exact passing.ordered
    · rw [same]
      exact passing.passed
    · rw [same] at out ⊢
      exact fun before => before.elim id out
  · have exec : (Op.readPacket w.now w.contents).exec law fuel f.queue = .ok f'.queue := read
    have ⟨filled, ordered, since⟩ := exec_since passing.filled passing.ordered exec
    have ⟨_, packet, admits⟩ := readPacket_admits read
    have kept := since.kept
    refine ⟨⟨filled, ordered, ?_⟩, fun before => before.elim (fun passed => by omega) out⟩
    rcases passing.passed with passed | ⟨most, front⟩
    · exact Or.inl (by omega)
    · refine Or.inr ⟨by omega, ?_⟩
      rw [admits.last passing.ordered]
      exact front.trans (List.prefix_append _ _)
  · have ⟨kept, settled⟩ := passing.writes law monotone later wrote
    exact ⟨kept, fun _ => settled⟩

theorem waitTime_delayPacketQueue {nowDelay nowLink w : Nat} {q next : CellularQueue cfg}
    (run : q.waitTime fuel nowDelay nowLink = .ok (w, next)) :
    next.delayPacketQueue = q.delayPacketQueue := by
  obtain ⟨⟨_, linkQueue⟩, _, same⟩ := bind_eq_ok.mp run
  have last : { q with link := linkQueue } = next := congrArg Prod.snd (Except.ok.inj same)
  rw [← last]

/-- A turn that serves the sibling leaves nothing that was due in the delay stage, -/
theorem turn_passes {r : Turn} {es after : List (Entry (Ferry (CellularQueue cfg)) World)}
    {f f' : Ferry (CellularQueue cfg)} {outcome : PollResult} {t t' : Nat}
    (between : r.Between t t') (serves : r.Serves cfg nameserver)
    (inv : Contract.Inv (fun a _ => a.direction = .in) (fun _ => True)
      (actions (cellular law fuel) nameserver) es f)
    (filled : Filled f.queue) (ordered : Ordered f.queue)
    (returned : turn (cellular law fuel) r es f = .ok (outcome, after, f')) :
    ahead r.world.pendingNow f.queue ≤ f'.queue.fd.length + f'.queue.link.held.length := by
  obtain ⟨revents, answered, sound, writable⟩ := serves
  obtain ⟨⟨timeout, queue⟩, waited, _⟩ := bind_eq_ok.mp returned
  have waits := waitTime_calls between (Nat.le_refl _) waited
  have exec := waits.2.2
  rw [exec_cellular] at exec
  have ⟨filled', ordered', since⟩ := exec_since filled ordered exec
  have kept := since.kept
  have delay := waitTime_delayPacketQueue waited
  have later : r.world.pendingNow ≤ r.world.clock 0 := Nat.le_trans between.reading between.writing
  have start : Passing f.queue r.world.pendingNow { f with queue := queue } :=
    ⟨filled', ordered', Or.inr ⟨kept, by simp [delay]⟩⟩
  have settled := turn_settles (I := Passing f.queue r.world.pendingNow)
    (P := fun g => ahead r.world.pendingNow f.queue ≤ g.queue.fd.length + g.queue.link.held.length)
    (fun g call g' member called passing => passing.called between.onward later member called)
    inv answered sound writable waited returned start
  apply (settled _).1
  intro quiet
  have none : (!queue.link.outputQueue.isEmpty ||
      queue.waitTimeDelayQueue r.world.pendingNow == 0) = false := quiet
  have asleep : queue.waitTimeDelayQueue r.world.pendingNow ≠ 0 := by
    simpa using (Bool.or_eq_false_iff.mp none).2
  have nothing : f.queue.delayPacketQueue.items.takeWhile
      (fun p => decide (p.releaseTime ≤ r.world.pendingNow)) = [] := by
    rw [← delay]
    cases front : queue.delayPacketQueue.items with
    | nil => rfl
    | cons packet rest =>
        unfold waitTimeDelayQueue at asleep
        rw [front] at asleep
        simp only [ne_eq, ite_eq_left_iff, Classical.not_imp] at asleep
        simp [asleep.1]
  unfold ahead
  rw [nothing]
  exact kept

/-- and nothing in its output queue. -/
theorem turn_outputQueue {r : Turn} {es after : List (Entry (Ferry (CellularQueue cfg)) World)}
    {f f' : Ferry (CellularQueue cfg)} {outcome : PollResult} (serves : r.Serves cfg nameserver)
    (inv : Contract.Inv (fun a _ => a.direction = .in) (fun _ => True)
      (actions (cellular law fuel) nameserver) es f)
    (returned : turn (cellular law fuel) r es f = .ok (outcome, after, f')) :
    f'.queue.link.outputQueue = [] := by
  obtain ⟨revents, answered, sound, writable⟩ := serves
  obtain ⟨⟨timeout, queue⟩, waited, _⟩ := bind_eq_ok.mp returned
  have settled := turn_settles (I := fun _ => True) (P := fun f => f.queue.link.outputQueue = [])
    (fun f call f' member called _ => ⟨trivial, called_outputQueue member called⟩)
    inv answered sound writable waited returned trivial
  apply (settled _).1
  intro quiet
  have none : (!queue.link.outputQueue.isEmpty ||
      queue.waitTimeDelayQueue r.world.pendingNow == 0) = false := quiet
  simpa using (Bool.or_eq_false_iff.mp none).1

/-- The ferry delivers in time. While a schedule that repeats is replayed and the queue drops
nothing, what is in the link or due at a turn that serves the sibling is written to it, in order,
by any later turn that serves the sibling, if its wait time is asked for as many rounds after the
first of these turns as the bytes it leaves in the link take opportunities. What the turns in
between do, and what is read in them, does not hold it up. -/
theorem loop_delivers_in_time {loop : EventLoop} {linkTimestamp delayTimestamp : Nat}
    {turns between : List Turn} {early late : Turn}
    {es es₁ es₂ es' : List (Entry (Ferry (CellularQueue cfg)) World)}
    {f f₁ f₂ f' : Ferry (CellularQueue cfg)} {t t₁ t₂ t' : Nat} (repeats : cfg.repeat_ = true)
    (built : linkTimestamp ≤ delayTimestamp)
    (ran : Run (Turns (cellular law fuel))
      ((entries (cellular law fuel) nameserver,
        start cfg (.infinite {}) loop linkTimestamp delayTimestamp), delayTimestamp)
      turns ((es, f), t))
    (first : Turns (cellular law fuel) ((es, f), t) early ((es₁, f₁), t₁))
    (firstServes : early.Serves cfg nameserver)
    (meanwhile : Run (Turns (cellular law fuel)) ((es₁, f₁), t₁) between ((es₂, f₂), t₂))
    (last : Turns (cellular law fuel) ((es₂, f₂), t₂) late ((es', f'), t'))
    (lastServes : late.Serves cfg nameserver)
    (patient : t₁ + roundsFor f₁.queue.link.backlogBytes * cfg.heavyPdoSchedule.last ≤
      late.nowLink)
    (small : t' + cfg.heavyPdoSchedule.last < 2 ^ 64) :
    f.queue.fd ++ f.queue.link.held.map QueuedPacket.datagram ++
        (f.queue.delayPacketQueue.items.takeWhile
          (fun p => p.releaseTime ≤ early.world.pendingNow)).map DelayQueuePacket.datagram <+:
      f'.queue.fd := by
  -- the turns as calls of the emulator
  have inv := turns_inv ran (start_inv _)
  obtain ⟨ops, u, since, made⟩ := turns_step ran (start_inv _) (Nat.le_refl _)
  obtain ⟨between₁, outcome₁, returned₁⟩ := first
  obtain ⟨inv₁, ops₁, u₁, _, since₁, made₁⟩ := turn_calls between₁ since inv returned₁
  obtain ⟨ops₂, u₂, since₂, made₂⟩ := turns_step meanwhile inv₁ since₁
  have inv₂ := turns_inv meanwhile inv₁
  obtain ⟨between₃, outcome₃, returned₃⟩ := last
  obtain ⟨⟨timeout, queue⟩, waited, polled⟩ := bind_eq_ok.mp returned₃
  have inv₃ : Contract.Inv (fun a _ => a.direction = .in) (fun _ => True)
      (actions (cellular law fuel) nameserver) es₂ { f₂ with queue := queue } :=
    ⟨trivial, inv₂.kept, inv₂.past⟩
  obtain ⟨_, ops₃, u₃, _, since₃, made₃⟩ := poll_calls between₃ inv₃ polled
  have waits := Run.single (waitTime_calls between₃ since₂ waited)
  have front : Run (Step law) (f.queue, u) ops₁ (f₁.queue, u₁) := calls_step made₁
  have middle := made₂.append (calls_step waits)
  have rest : Run (Step law) (queue, late.nowLink) ops₃ (f'.queue, u₃) := calls_step made₃
  have reaches : Reaches cfg law (.infinite {}) ops f.queue u :=
    ⟨linkTimestamp, delayTimestamp, built, made⟩
  apply prefix_written reaches (front.append (middle.append rest))
  intro started
  -- what was due is in the link or written after the first turn, and written after the last one
  have passed := turn_passes between₁ firstServes inv reaches.filled reaches.carries.1 returned₁
  have onward : u ≤ u₁ := run_later front
  have later : u₁ ≤ u₃ := run_later (middle.append rest)
  have ongoing : Ongoing f.queue.link u₁ f₁.queue := run_ongoing front (by omega) repeats
    reaches.metered (reaches.ongoing (by omega) repeats started)
  have begun := ongoing.starts (by omega)
  have written := written_in_time repeats (reaches.append front) ongoing.started
    (show f₁.queue.link.nextDeliveryTime ≤ t₁ + _ by omega) (le_roundsFor (Nat.le_refl _)) middle
    (Nat.lt_of_le_of_lt patient (waitTime_before waited)) rest
    (turn_outputQueue lastServes inv₂ returned₃) (by omega)
  exact Nat.le_trans passed written

abbrev undelayedQueue : FerryQueueType (CellularQueue undelayed) :=
  cellular (LightPdo.getPktReleaseTime undelayed) 10

abbrev undelayedStart : Ferry (CellularQueue undelayed) :=
  start undelayed (.infinite {}) .construct 0 0

theorem turnAt_serves (now : Nat) : (turnAt now 2).Serves undelayed false :=
  ⟨_, rfl, fun _ => rfl, fun _ _ within => decide_eq_true within⟩

/-- Packets are read at 0 and at 3, passed on at 4, and a third one is read at 9. -/
def threeRead : Except Fault (List Datagram × Nat) := do
  let (_, es, f) ← turn undelayedQueue (turnAt 0 0) (entries undelayedQueue false) undelayedStart
  let (_, es, f) ← turn undelayedQueue (turnAt 3 0) es f
  let (_, es₁, f₁) ← turn undelayedQueue (turnAt 4 2) es f
  let (_, es₂, f₂) ← turn undelayedQueue (turnAt 9 0) es₁ f₁
  let _ ← turn undelayedQueue (turnAt 20 2) es₂ f₂
  return (f.queue.delayPacketQueue.items.map DelayQueuePacket.datagram,
    f₁.queue.link.backlogBytes)

/-- The second packet takes one opportunity, so it is written at 14 or later. -/
theorem loop_delivers_in_time_threeRead :
    ∃ (es es₁ es₂ es' : List (Entry (Ferry (CellularQueue undelayed)) World))
      (f f₁ f₂ f' : Ferry (CellularQueue undelayed)),
    Run (Turns undelayedQueue) ((entries undelayedQueue false, undelayedStart), 0)
      [turnAt 0 0, turnAt 3 0] ((es, f), 3) ∧
    Turns undelayedQueue ((es, f), 3) (turnAt 4 2) ((es₁, f₁), 4) ∧
    Run (Turns undelayedQueue) ((es₁, f₁), 4) [turnAt 9 0] ((es₂, f₂), 9) ∧
    Turns undelayedQueue ((es₂, f₂), 9) (turnAt 20 2) ((es', f'), 20) ∧
    f.queue.delayPacketQueue.items.map DelayQueuePacket.datagram =
      [⟨0, fullPacket⟩, ⟨1, fullPacket⟩] ∧
    f₁.queue.link.backlogBytes = 1400 ∧
    f.queue.fd ++ f.queue.link.held.map QueuedPacket.datagram ++
        (f.queue.delayPacketQueue.items.takeWhile (fun p => p.releaseTime ≤ 4)).map
          DelayQueuePacket.datagram <+: f'.queue.fd := by
  have observed : threeRead.toOption.map id =
      some ([⟨0, fullPacket⟩, ⟨1, fullPacket⟩], 1400) := by decide +kernel
  obtain ⟨seen, returned, same⟩ := observe_ok observed
  obtain ⟨⟨first, es₁, f₁⟩, turn₁, returned⟩ := bind_eq_ok.mp returned
  obtain ⟨⟨second, es₂, f₂⟩, turn₂, returned⟩ := bind_eq_ok.mp returned
  obtain ⟨⟨third, es₃, f₃⟩, turn₃, returned⟩ := bind_eq_ok.mp returned
  obtain ⟨⟨fourth, es₄, f₄⟩, turn₄, returned⟩ := bind_eq_ok.mp returned
  obtain ⟨⟨fifth, es₅, f₅⟩, turn₅, returned⟩ := bind_eq_ok.mp returned
  rw [← Except.ok.inj returned] at same
  obtain ⟨inside, backlog⟩ : f₂.queue.delayPacketQueue.items.map DelayQueuePacket.datagram =
    [⟨0, fullPacket⟩, ⟨1, fullPacket⟩] ∧ f₃.queue.link.backlogBytes = 1400 := Prod.mk.inj same
  have run₁ : Run (Turns undelayedQueue) ((entries undelayedQueue false, undelayedStart), 0)
      [turnAt 0 0] ((es₁, f₁), 0) := Run.single ⟨turnAt_between (Nat.zero_le _), first, turn₁⟩
  have run₂ : Run (Turns undelayedQueue) ((entries undelayedQueue false, undelayedStart), 0)
      [turnAt 0 0, turnAt 3 0] ((es₂, f₂), 3) :=
    Run.snoc run₁ ⟨turnAt_between (show 0 ≤ 3 by decide), second, turn₂⟩
  have passes : Turns undelayedQueue ((es₂, f₂), 3) (turnAt 4 2) ((es₃, f₃), 4) :=
    ⟨turnAt_between (show 3 ≤ 4 by decide), third, turn₃⟩
  have reads : Run (Turns undelayedQueue) ((es₃, f₃), 4) [turnAt 9 0] ((es₄, f₄), 9) :=
    Run.single ⟨turnAt_between (show 4 ≤ 9 by decide), fourth, turn₄⟩
  have writes : Turns undelayedQueue ((es₄, f₄), 9) (turnAt 20 2) ((es₅, f₅), 20) :=
    ⟨turnAt_between (show 9 ≤ 20 by decide), fifth, turn₅⟩
  have patient : 4 + roundsFor f₃.queue.link.backlogBytes * undelayed.heavyPdoSchedule.last ≤
      20 := by
    rw [backlog]
    decide
  exact ⟨es₂, es₃, es₄, es₅, f₂, f₃, f₄, f₅, run₂, passes, reads, writes, inside, backlog,
    loop_delivers_in_time rfl (Nat.le_refl 0) run₂ passes (turnAt_serves 4) reads writes
      (turnAt_serves 20) patient (by decide)⟩

end Ferry

end CellReplay
