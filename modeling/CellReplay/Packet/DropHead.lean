import CellReplay.Lib.Transition
import CellReplay.Packet.Representation

set_option autoImplicit false

namespace CellReplay.DroppingPacketQueue

open FueledLoop Transition

/-- The calls made on a queue that drops at the head. -/
inductive HeadCall where
  | enqueue (p : QueuedPacket)
  | dequeue

/-- The calls that return: a packet whose size is an `int` is put in, or one is taken out. -/
inductive HeadStep : DroppingPacketQueue → HeadCall → DroppingPacketQueue → Prop
  | enqueue {q next : DroppingPacketQueue} {p : QueuedPacket} : p.contents.length < 2 ^ 31 →
      q.enqueueHead p = .ok next → HeadStep q (.enqueue p) next
  | dequeue {q next : DroppingPacketQueue} {p : QueuedPacket} :
      q.dequeue = .ok (p, next) → HeadStep q .dequeue next

/-- The states of a queue built with some limits and used in any way. -/
def ReachableHead (q : DroppingPacketQueue) : Prop :=
  ∃ limits calls, Run HeadStep { limits := limits } calls q

/-- The longest suffix of some packets within the limits. -/
structure LongestWithin (q : DroppingPacketQueue) (packets kept : List QueuedPacket) : Prop where
  suffix : kept <:+ packets
  fits : q.within kept = true
  longest : ∀ other, other <:+ packets → q.within other = true → other.length ≤ kept.length

/-- What a call of `enqueue` should leave: the longest suffix of the packets that fits, counted. -/
structure KeepsLongest (q : DroppingPacketQueue) (p : QueuedPacket)
    (next : DroppingPacketQueue) : Prop where
  kept : LongestWithin q (q.internalQueue ++ [p]) next.internalQueue
  bytes : next.queueSizeInBytes = totalBytes next.internalQueue
  packets : next.queueSizeInPackets = next.internalQueue.length

/-- An `int` can count the packets, and all of them or all but the first are within the limits. -/
structure EvictsAtMostOne (q : DroppingPacketQueue) (p : QueuedPacket) : Prop where
  bytes : totalBytes (q.internalQueue ++ [p]) < 2 ^ 31
  packets : (q.internalQueue ++ [p]).length < 2 ^ 31
  fits : q.within (q.internalQueue ++ [p]) = true ∨ q.within (q.internalQueue ++ [p]).tail = true

variable {q next : DroppingPacketQueue} {p : QueuedPacket}

/-- The loop of `enqueue` stops at a queue within its limits. -/
theorem evict_stops (fuel : Nat) (counted : Counted q)
    (fits : q.within q.internalQueue = true) :
    whileLoop .fuel (fun q : DroppingPacketQueue => do return !(← q.good))
      (fun q : DroppingPacketQueue => do return (← q.dequeue).2) (fuel + 1) q = .ok q := by
  apply whileLoop_exit
  simp only [counted.good, fits]
  rfl

/-- What `enqueue` comes to when an `int` can count the packets: nothing is evicted, or one packet
is, or the assertion of `dequeue` fails because more have to go. -/
theorem Counted.enqueueHead (counted : Counted (q.accept p)) {first : QueuedPacket}
    {rest : List QueuedPacket} (packets : q.internalQueue ++ [p] = first :: rest) :
    q.enqueueHead p =
      if q.within (first :: rest) then .ok (q.accept p)
      else if q.within rest then .ok ((q.accept p).popFront first rest)
      else .error (.assertion "good()") := by
  have front : (q.accept p).internalQueue = first :: rest := packets
  have limits : ∀ packets, (q.accept p).within packets = q.within packets := fun _ => rfl
  dsimp only [DroppingPacketQueue.enqueueHead]
  rw [front, List.length_cons]
  by_cases all : q.within (first :: rest) = true
  · rw [if_pos all]
    exact evict_stops (rest.length + 1) counted (by rw [front, limits, all])
  · rw [if_neg all, whileLoop, counted.good, front, limits, Bool.eq_false_of_not_eq_true all]
    simp only [bind, Except.bind, pure, Except.pure, Bool.not_false, counted.dequeue front, limits]
    by_cases others : q.within rest = true
    · simp only [others, ↓reduceIte]
      exact evict_stops rest.length (counted.popFront front) others
    · simp only [others]
      rfl

/-- A call that returns finds that an `int` can count the packets. -/
theorem Counted.accept_of_enqueueHead (counted : Counted q) (sized : p.contents.length < 2 ^ 31)
    (run : q.enqueueHead p = .ok next) : Counted (q.accept p) := by
  rcases whileLoop_ok_cases run with ⟨stop, _⟩ | ⟨_, _, _, turn, _⟩
  · obtain ⟨b, good, _⟩ := bind_eq_ok.mp stop
    exact counted.accept_of_good sized good
  · obtain ⟨b, good, _⟩ := bind_eq_ok.mp turn.1
    exact counted.accept_of_good sized good

/-- What a call of `enqueue` that returns leaves: all the packets, or all but the first. -/
theorem Represents.enqueueHead_cases (represents : Represents q)
    (sized : p.contents.length < 2 ^ 31) (run : q.enqueueHead p = .ok next) :
    EvictsAtMostOne q p ∧ Represents next ∧ KeepsLongest q p next := by
  have counted := represents.toCounted.accept_of_enqueueHead sized run
  obtain ⟨first, rest, packets⟩ :=
    List.exists_cons_of_ne_nil (show q.internalQueue ++ [p] ≠ [] by simp)
  have front : (q.accept p).internalQueue = first :: rest := packets
  rw [counted.enqueueHead packets] at run
  by_cases all : q.within (first :: rest) = true
  · rw [if_pos all] at run
    rw [← Except.ok.inj run]
    refine ⟨⟨counted.bytes_lt, counted.packets_lt, Or.inl (by rw [packets, all])⟩,
      ⟨counted, by rw [front]; exact all⟩, ⟨?_, ?_, ?_⟩, counted.bytes, counted.packets⟩
    · exact List.suffix_refl _
    · rw [front, all]
    · intro other suffix _
      exact suffix.length_le
  · rw [if_neg all] at run
    by_cases others : q.within rest = true
    · rw [if_pos others] at run
      rw [← Except.ok.inj run]
      have popped := counted.popFront front
      refine ⟨⟨counted.bytes_lt, counted.packets_lt, Or.inr (by rw [packets]; exact others)⟩,
        ⟨popped, others⟩, ⟨?_, others, ?_⟩, popped.bytes, popped.packets⟩
      · rw [packets]
        exact List.suffix_cons first rest
      · intro other suffix fits
        rw [packets] at suffix
        rcases List.suffix_cons_iff.mp suffix with same | shorter
        · rw [same] at fits
          exact absurd fits all
        · exact shorter.length_le
    · rw [if_neg others] at run
      cases run

theorem HeadStep.represents {call : HeadCall} (before : Represents q)
    (step : HeadStep q call next) : Represents next := by
  cases step with
  | enqueue sized run => exact (before.enqueueHead_cases sized run).2.1
  | @dequeue _ p run =>
      have front := dequeue_packets run
      have popped := before.dequeue front
      rw [run] at popped
      rw [(Prod.mk.inj (Except.ok.inj popped)).2]
      exact before.tail front

theorem ReachableHead.represents (reachable : ReachableHead q) : Represents q := by
  obtain ⟨limits, calls, run⟩ := reachable
  exact run.invariant (fun _ _ _ before step => step.represents before)
    ⟨⟨rfl, rfl, by simp, by simp⟩, by simp [within, goodWith]⟩

/-- A packet put in a queue in any reachable state leaves the longest suffix that fits exactly when
at most one packet has to go. When a second one has to, the loop does not get to it: `dequeue`
asserts that the limits hold as soon as the first one is gone. -/
theorem keepsLongest_iff (reachable : ReachableHead q) (sized : p.contents.length < 2 ^ 31) :
    (∃ next, q.enqueueHead p = .ok next ∧ KeepsLongest q p next) ↔ EvictsAtMostOne q p := by
  have represents := reachable.represents
  constructor
  · rintro ⟨next, run, _⟩
    exact (represents.enqueueHead_cases sized run).1
  · intro evicts
    have counted := represents.toCounted.accept evicts.bytes evicts.packets
    obtain ⟨first, rest, packets⟩ :=
      List.exists_cons_of_ne_nil (show q.internalQueue ++ [p] ≠ [] by simp)
    have fits := evicts.fits
    rw [packets, List.tail_cons] at fits
    obtain ⟨next, run⟩ : ∃ next, q.enqueueHead p = .ok next := by
      rw [counted.enqueueHead packets]
      by_cases all : q.within (first :: rest) = true
      · exact ⟨_, if_pos all⟩
      · have others := fits.resolve_left all
        exact ⟨_, by rw [if_neg all, if_pos others]⟩
    exact ⟨next, run, (represents.enqueueHead_cases sized run).2.2⟩

/-- A queue of 1400 bytes at most that holds two packets of 700. -/
def twoHalves : DroppingPacketQueue where
  limits := ⟨0, 1400, QueueLimits.unset_lt, by decide, by decide⟩
  internalQueue := [.ofContents (List.replicate 700 0) 0, .ofContents (List.replicate 700 0) 0]
  queueSizeInBytes := 1400
  queueSizeInPackets := 2

theorem twoHalves_reachable : ReachableHead twoHalves := by
  let half : QueuedPacket := .ofContents (List.replicate 700 0) 0
  let one : DroppingPacketQueue :=
    { limits := twoHalves.limits
      internalQueue := [half]
      queueSizeInBytes := 700
      queueSizeInPackets := 1 }
  have first : HeadStep { limits := twoHalves.limits } (.enqueue half) one :=
    HeadStep.enqueue (by decide +kernel) (by decide +kernel)
  have second : HeadStep one (.enqueue half) twoHalves :=
    HeadStep.enqueue (by decide +kernel) (by decide +kernel)
  exact ⟨twoHalves.limits, _, (Run.single first).append (Run.single second)⟩

/-- A packet of 1400 bytes has to push out both, and the assertion fails after the first one. -/
theorem not_keepsLongest : ReachableHead twoHalves ∧
    twoHalves.enqueueHead (.ofContents (List.replicate 1400 0) 0) = .error (.assertion "good()") ∧
    ¬ ∃ next, twoHalves.enqueueHead (.ofContents (List.replicate 1400 0) 0) = .ok next ∧
      KeepsLongest twoHalves (.ofContents (List.replicate 1400 0) 0) next := by
  have failed : twoHalves.enqueueHead (.ofContents (List.replicate 1400 0) 0) =
      .error (.assertion "good()") := by decide +kernel
  refine ⟨twoHalves_reachable, failed, ?_⟩
  rintro ⟨next, returned, _⟩
  rw [failed] at returned
  cases returned

/-- A packet of 600 bytes pushes out one of them. -/
theorem keepsLongest_iff_oneOut : ∃ next,
    twoHalves.enqueueHead (.ofContents (List.replicate 600 0) 0) = .ok next ∧
      KeepsLongest twoHalves (.ofContents (List.replicate 600 0) 0) next :=
  (keepsLongest_iff twoHalves_reachable (by decide +kernel)).mpr
    ⟨by decide +kernel, by decide, Or.inr (by decide +kernel)⟩

end CellReplay.DroppingPacketQueue
