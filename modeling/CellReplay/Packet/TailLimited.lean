import CellReplay.Lib.Transition
import CellReplay.Packet.CodelPacketQueue

set_option autoImplicit false

namespace CellReplay

open FueledLoop Transition

/-- The queues that accept a packet at the tail only if it fits. -/
inductive TailLimitedQueue where
  | droptail (q : DroppingPacketQueue)
  | codel (q : CODELPacketQueue)
  deriving DecidableEq, Repr

namespace TailLimitedQueue

/-- The base class of either queue. -/
def base : TailLimitedQueue → DroppingPacketQueue
  | droptail q => q
  | codel q => q.toDroppingPacketQueue

def enqueue : TailLimitedQueue → QueuedPacket → Except Fault TailLimitedQueue
  | droptail q, p => do return droptail (← q.enqueueTail p)
  | codel q, p => do return codel (← q.enqueue p)

/-- The packet a call of `dequeue` returns. The clock is read by the CoDel queue only. -/
def dequeue (controlLaw : Nat → Nat → Nat) (now : Nat) :
    TailLimitedQueue → Except Fault (QueuedPacket × TailLimitedQueue)
  | droptail q => do
      let (p, q) ← q.dequeue
      return (p, droptail q)
  | codel q => do
      let (r, q) ← q.dequeue controlLaw now
      return (r.p, codel q)

/-- The queues as constructed: nothing is held or counted. -/
def Fresh (q : TailLimitedQueue) : Prop :=
  q.base.internalQueue = [] ∧ q.base.queueSizeInBytes = 0 ∧ q.base.queueSizeInPackets = 0

end TailLimitedQueue

/-- A queue with what has happened to it: the packets it accepted and those it gave out. -/
structure QueueHistory where
  queue : TailLimitedQueue
  accepted : List QueuedPacket
  departed : List QueuedPacket

/-- The calls made on a queue. -/
inductive QueueCall where
  | enqueue (p : QueuedPacket)
  | dequeue (now : Nat)

/-- The calls that are made, and return: a packet is offered as long as an `int` can hold the
totals, and taken out only of a queue that is not empty. -/
inductive QueueStep (controlLaw : Nat → Nat → Nat) :
    QueueHistory → QueueCall → QueueHistory → Prop
  | enqueue {s : QueueHistory} {p : QueuedPacket} {next : TailLimitedQueue} :
      s.queue.base.Countable p → s.queue.enqueue p = .ok next →
      QueueStep controlLaw s (.enqueue p)
        { s with
          queue := next
          accepted := s.accepted ++
            next.base.internalQueue.drop s.queue.base.internalQueue.length }
  | dequeue {s : QueueHistory} {now : Nat} {p : QueuedPacket} {next : TailLimitedQueue} :
      s.queue.base.internalQueue ≠ [] → s.queue.dequeue controlLaw now = .ok (p, next) →
      QueueStep controlLaw s (.dequeue now)
        { s with queue := next, departed := s.departed ++ [p] }

namespace QueueHistory

/-- Make a call, if it returns. -/
def exec (controlLaw : Nat → Nat → Nat) (s : QueueHistory) : QueueCall → Option QueueHistory
  | .enqueue p => (s.queue.enqueue p).toOption.map fun next =>
      { s with
        queue := next
        accepted := s.accepted ++ next.base.internalQueue.drop s.queue.base.internalQueue.length }
  | .dequeue now => (s.queue.dequeue controlLaw now).toOption.map fun result =>
      { s with queue := result.2, departed := s.departed ++ [result.1] }

/-- When a call is made. -/
def Allowed (s : QueueHistory) : QueueCall → Prop
  | .enqueue p => s.queue.base.Countable p
  | .dequeue _ => s.queue.base.internalQueue ≠ []

instance (s : QueueHistory) (call : QueueCall) : Decidable (s.Allowed call) :=
  match call with
  | .enqueue p => inferInstanceAs (Decidable (s.queue.base.Countable p))
  | .dequeue _ => inferInstanceAs (Decidable (s.queue.base.internalQueue ≠ []))

theorem step_of_exec {controlLaw : Nat → Nat → Nat} {s t : QueueHistory} {call : QueueCall}
    (returned : s.exec controlLaw call = some t) (allowed : s.Allowed call) :
    QueueStep controlLaw s call t := by
  cases call with
  | enqueue p =>
      obtain ⟨next, run, same⟩ := Option.map_eq_some_iff.mp returned
      rw [← same]
      exact QueueStep.enqueue allowed (ok_of_toOption run)
  | dequeue now =>
      obtain ⟨result, run, same⟩ := Option.map_eq_some_iff.mp returned
      rw [← same]
      exact QueueStep.dequeue allowed (ok_of_toOption run)

end QueueHistory

namespace TailLimitedQueue

variable {q next : TailLimitedQueue} {p : QueuedPacket} {controlLaw : Nat → Nat → Nat}

/-- Either queue accepts a packet exactly when the limits hold with it. -/
theorem enqueue_returns (represents : q.base.Represents) (countable : q.base.Countable p) :
    ∃ next, q.enqueue p = .ok next ∧ next.base = q.base.offered p := by
  cases q with
  | droptail q =>
      have returned := DroppingPacketQueue.Represents.enqueueTail represents countable
      refine ⟨.droptail (q.offered p), ?_, rfl⟩
      simp only [enqueue, base] at returned ⊢
      rw [returned]
      rfl
  | codel q =>
      have returned := DroppingPacketQueue.Represents.enqueueTail represents countable
      refine ⟨.codel { q with toDroppingPacketQueue := q.toDroppingPacketQueue.offered p }, ?_, rfl⟩
      simp only [enqueue, CODELPacketQueue.enqueue, base] at returned ⊢
      rw [returned]
      rfl

/-- Either queue gives out its first packet, and may drop some of those behind it. -/
theorem dequeue_returns (represents : q.base.Represents) (filled : q.base.internalQueue ≠ [])
    (controlLaw : Nat → Nat → Nat) (now : Nat) :
    ∃ p next, q.dequeue controlLaw now = .ok (p, next) ∧ next.base.Represents ∧
      next.base.limits = q.base.limits ∧
      ∃ dropped, q.base.internalQueue = p :: dropped ++ next.base.internalQueue := by
  cases q with
  | droptail q =>
      obtain ⟨p, rest, front⟩ := List.exists_cons_of_ne_nil filled
      have returned := DroppingPacketQueue.Represents.dequeue represents front
      refine ⟨p, .droptail (q.popFront p rest), ?_, represents.tail front, rfl, [], front⟩
      simp only [dequeue, base] at returned ⊢
      rw [returned]
      rfl
  | codel q =>
      obtain ⟨r, next, returned, dequeues⟩ :=
        CODELPacketQueue.dequeue_dequeues represents filled controlLaw now
      obtain ⟨others, _, front, _⟩ := dequeues.first
      refine ⟨r.p, .codel next, ?_, dequeues.represents, dequeues.limits,
        others.map DodequeueResult.p, front⟩
      simp only [dequeue, returned]
      rfl

theorem fresh_represents (fresh : q.Fresh) : q.base.Represents := by
  have ⟨empty, bytes, packets⟩ := fresh
  refine ⟨⟨?_, ?_, ?_, ?_⟩, ?_⟩
  · simp [empty, bytes]
  · simp [empty, packets]
  · simp [empty]
  · simp [empty]
  · simp [empty, DroppingPacketQueue.within, DroppingPacketQueue.goodWith]

end TailLimitedQueue

/-- The constructors build fresh queues. -/
theorem DroppingPacketQueue.new_fresh {args : Text} {q : DroppingPacketQueue}
    (built : DroppingPacketQueue.new args = .ok q) :
    q.internalQueue = [] ∧ q.queueSizeInBytes = 0 ∧ q.queueSizeInPackets = 0 := by
  unfold DroppingPacketQueue.new at built
  split at built
  · cases built
  · split at built
    · cases built
    · unfold ofLimits at built
      split at built
      · cases built
      · cases built
        exact ⟨rfl, rfl, rfl⟩

theorem CODELPacketQueue.new_fresh {args : Text} {q : CODELPacketQueue}
    (built : CODELPacketQueue.new args = .ok q) : (TailLimitedQueue.codel q).Fresh := by
  obtain ⟨base, first, built⟩ := bind_eq_ok.mp built
  obtain ⟨target, _, built⟩ := bind_eq_ok.mp built
  obtain ⟨interval, _, built⟩ := bind_eq_ok.mp built
  split at built
  · cases built
  · cases built
    exact DroppingPacketQueue.new_fresh first

/-- What every step keeps: the queue represents its packets, and what was accepted is what was
taken out, in the same order, and what is held; only what was taken out has departed. -/
structure Orderly (limits : QueueLimits) (s : QueueHistory) : Prop where
  represents : s.queue.base.Represents
  limits : s.queue.base.limits = limits
  order : ∃ taken, s.accepted = taken ++ s.queue.base.internalQueue ∧ s.departed.Sublist taken

theorem QueueStep.orderly {controlLaw : Nat → Nat → Nat} {limits : QueueLimits}
    {s t : QueueHistory} {call : QueueCall} (orderly : Orderly limits s)
    (step : QueueStep controlLaw s call t) : Orderly limits t := by
  obtain ⟨taken, accepted, departed⟩ := orderly.order
  cases step with
  | @enqueue p next countable run =>
      obtain ⟨other, returned, base⟩ := s.queue.enqueue_returns orderly.represents countable
      rw [run] at returned
      rw [← Except.ok.inj returned] at base
      refine ⟨base ▸ orderly.represents.offered countable, ?_, taken, ?_, departed⟩
      · rw [base, DroppingPacketQueue.offered, ← orderly.limits]
        split
        · rfl
        · rfl
      · simp only [accepted, base, DroppingPacketQueue.offered]
        split
        · simp [DroppingPacketQueue.accept]
        · simp
  | @dequeue now p next filled run =>
      obtain ⟨other, left, returned, represents, same, dropped, front⟩ :=
        s.queue.dequeue_returns orderly.represents filled controlLaw now
      rw [run] at returned
      obtain ⟨first, after⟩ := Prod.mk.inj (Except.ok.inj returned)
      rw [← after] at represents same front
      rw [← first] at front
      refine ⟨represents, same.trans orderly.limits, taken ++ p :: dropped, ?_, ?_⟩
      · simp only [accepted, front, List.append_assoc]
      · exact departed.append (List.singleton_sublist.mpr List.mem_cons_self)

/-- In every reachable state the counters are those of the packets held and the limits hold, the
packets leave in the order in which they were accepted, and no assertion of the next call fails: a
packet is accepted exactly when the limits hold with it, and a queue that holds a packet gives one
out. -/
theorem tailLimited_represents {controlLaw : Nat → Nat → Nat} {queue : TailLimitedQueue}
    (fresh : queue.Fresh) {calls : List QueueCall} {s : QueueHistory}
    (run : Run (QueueStep controlLaw) ⟨queue, [], []⟩ calls s) :
    (s.queue.base.Represents ∧ s.queue.base.limits = queue.base.limits) ∧
      (∃ taken, s.accepted = taken ++ s.queue.base.internalQueue ∧ s.departed.Sublist taken) ∧
      (∀ p, s.queue.base.Countable p → ∃ next, s.queue.enqueue p = .ok next ∧
        next.base.internalQueue =
          if s.queue.base.within (s.queue.base.internalQueue ++ [p]) then
            s.queue.base.internalQueue ++ [p]
          else s.queue.base.internalQueue) ∧
      (s.queue.base.internalQueue ≠ [] → ∀ now, ∃ p next,
        s.queue.dequeue controlLaw now = .ok (p, next)) := by
  have orderly : Orderly queue.base.limits s :=
    run.invariant (fun _ _ _ before step => step.orderly before)
      ⟨TailLimitedQueue.fresh_represents fresh, rfl, [], by simp [fresh.1], List.Sublist.refl _⟩
  refine ⟨⟨orderly.represents, orderly.limits⟩, orderly.order, ?_, ?_⟩
  · intro p countable
    obtain ⟨next, returned, base⟩ := s.queue.enqueue_returns orderly.represents countable
    refine ⟨next, returned, ?_⟩
    rw [base, DroppingPacketQueue.offered]
    split
    · rfl
    · rfl
  · intro filled now
    obtain ⟨p, next, returned, _⟩ :=
      s.queue.dequeue_returns orderly.represents filled controlLaw now
    exact ⟨p, next, returned⟩

/-- A CoDel queue as constructed. -/
def freshCodel : CODELPacketQueue where
  limits := CODELPacketQueue.tenPackets
  target := 5
  interval := 100

/-- Four packets are put in, and the second call takes two packets out. -/
def fourIn : List QueueCall :=
  List.replicate 4 (.enqueue CODELPacketQueue.startPacket) ++ [.dequeue 10, .dequeue 120]

theorem tailLimited_represents_fourIn : ∃ s,
    Run (QueueStep CODELPacketQueue.everyHundred) ⟨.codel freshCodel, [], []⟩ fourIn s ∧
      (s.accepted.length = 4 ∧ s.departed.length = 2 ∧ s.queue.base.internalQueue.length = 1) ∧
      s.queue.base.Represents ∧ ∀ now, ∃ p next,
        s.queue.dequeue CODELPacketQueue.everyHundred now = .ok (p, next) := by
  have observed : (execAll (fun call s => s.exec CODELPacketQueue.everyHundred call)
      QueueHistory.Allowed fourIn ⟨.codel freshCodel, [], []⟩).map (fun s =>
        (s.accepted.length, s.departed.length, s.queue.base.internalQueue.length)) =
      some (4, 2, 1) := by decide +kernel
  obtain ⟨s, returned, seen⟩ := Option.map_eq_some_iff.mp observed
  have ⟨accepted, others⟩ := Prod.mk.inj seen
  have ⟨departed, held⟩ := Prod.mk.inj others
  have run : Run (QueueStep CODELPacketQueue.everyHundred) ⟨.codel freshCodel, [], []⟩ fourIn s :=
    (run_of_execAll returned).mono (fun _ _ _ both => QueueHistory.step_of_exec both.1 both.2)
  have fresh : (TailLimitedQueue.codel freshCodel).Fresh := ⟨rfl, rfl, rfl⟩
  have ⟨represents, _, _, gives⟩ := tailLimited_represents fresh run
  have filled : s.queue.base.internalQueue ≠ [] := by
    intro empty
    simp [empty] at held
  exact ⟨s, run, ⟨accepted, departed, held⟩, represents.1, gives filled⟩

end CellReplay
