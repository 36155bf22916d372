import CellReplay.Packet.PacketQueue

set_option autoImplicit false

namespace CellReplay

open MachineWord FueledLoop

namespace DroppingPacketQueue

/-- Whether some packets are within the limits that are set. -/
def within (q : DroppingPacketQueue) (packets : List QueuedPacket) : Bool :=
  q.goodWith (totalBytes packets) packets.length

/-- The counters are those of the packets held, whose totals an `int` can hold. -/
structure Counted (q : DroppingPacketQueue) : Prop where
  bytes : q.queueSizeInBytes = totalBytes q.internalQueue
  packets : q.queueSizeInPackets = q.internalQueue.length
  bytes_lt : totalBytes q.internalQueue < 2 ^ 31
  packets_lt : q.internalQueue.length < 2 ^ 31

/-- The representation invariant: the counters are those of the packets held, and the limits
that are set hold. -/
structure Represents (q : DroppingPacketQueue) : Prop extends Counted q where
  limited : q.within q.internalQueue = true

variable {q next : DroppingPacketQueue} {p : QueuedPacket} {rest : List QueuedPacket}

theorem within_mono {few many : List QueuedPacket} (bytes : totalBytes few ≤ totalBytes many)
    (packets : few.length ≤ many.length) (fits : q.within many = true) : q.within few = true := by
  simp only [within, goodWith, Bool.and_eq_true, Bool.or_eq_true, beq_iff_eq,
    decide_eq_true_eq] at fits ⊢
  omega

/-- What is left of packets within the limits is within the limits. -/
theorem within_of_suffix {few many : List QueuedPacket} (suffix : few <:+ many)
    (fits : q.within many = true) : q.within few = true := by
  obtain ⟨front, rfl⟩ := suffix
  exact within_mono (by simp) (by simp) fits

theorem Counted.sizeBytes (counted : Counted q) :
    q.sizeBytes = .ok (totalBytes q.internalQueue) := by
  have small := counted.bytes_lt
  rw [sizeBytes_eq_ok, counted.bytes]
  exact ⟨by omega, toUnsigned_natCast 32 _ (by omega)⟩

theorem Counted.sizePackets (counted : Counted q) :
    q.sizePackets = .ok q.internalQueue.length := by
  have small := counted.packets_lt
  rw [sizePackets_eq_ok, counted.packets]
  exact ⟨by omega, toUnsigned_natCast 32 _ (by omega)⟩

theorem Counted.good (counted : Counted q) : q.good = .ok (q.within q.internalQueue) := by
  simp only [DroppingPacketQueue.good, counted.sizeBytes, counted.sizePackets]
  rfl

/-- An accepted packet is counted, as long as the totals stay below `2^31`. -/
theorem Counted.accept (counted : Counted q)
    (bytes : totalBytes (q.internalQueue ++ [p]) < 2 ^ 31)
    (packets : (q.internalQueue ++ [p]).length < 2 ^ 31) : Counted (q.accept p) := by
  refine ⟨?_, ?_, bytes, packets⟩
  · simp only [DroppingPacketQueue.accept, counted.bytes, totalBytes_append, totalBytes_cons,
      totalBytes_nil, Nat.add_zero] at bytes ⊢
    rw [i32, toSigned_of_range 32 _ (by decide) (by omega) (by omega)]
    omega
  · simp only [DroppingPacketQueue.accept, counted.packets, List.length_append,
      List.length_singleton] at packets ⊢
    rw [i32, toSigned_of_range 32 _ (by decide) (by omega) (by omega)]
    omega

/-- A packet taken off the front is counted. -/
theorem Counted.popFront (counted : Counted q) (front : q.internalQueue = p :: rest) :
    Counted (q.popFront p rest) := by
  have bytes := counted.bytes_lt
  have packets := counted.packets_lt
  have sameBytes := counted.bytes
  have samePackets := counted.packets
  rw [front, totalBytes_cons] at bytes sameBytes
  rw [front, List.length_cons] at packets samePackets
  refine ⟨?_, ?_, ?_, ?_⟩
  · simp only [DroppingPacketQueue.popFront, sameBytes]
    rw [i32, toSigned_of_range 32 _ (by decide) (by omega) (by omega)]
    omega
  · simp only [DroppingPacketQueue.popFront, samePackets]
    rw [i32, toSigned_of_range 32 _ (by decide) (by omega) (by omega)]
    omega
  · simp only [DroppingPacketQueue.popFront]
    omega
  · simp only [DroppingPacketQueue.popFront]
    omega

/-- What `dequeue` comes to: its assertion on the limits is about the packets left. -/
theorem Counted.dequeue (counted : Counted q) (front : q.internalQueue = p :: rest) :
    q.dequeue =
      if q.within rest then .ok (p, q.popFront p rest) else .error (.assertion "good()") := by
  have good := (counted.popFront front).good
  have same : (q.popFront p rest).within (q.popFront p rest).internalQueue = q.within rest := rfl
  rw [same] at good
  unfold DroppingPacketQueue.dequeue
  rw [front]
  simp only [good]
  cases q.within rest with
  | false => rfl
  | true => rfl

theorem Represents.tail (represents : Represents q) (front : q.internalQueue = p :: rest) :
    Represents (q.popFront p rest) := by
  refine ⟨represents.toCounted.popFront front, ?_⟩
  have limited := represents.limited
  rw [front] at limited
  exact within_of_suffix (List.suffix_cons p rest) limited

/-- A queue within its limits gives out its first packet, and stays within them. -/
theorem Represents.dequeue (represents : Represents q) (front : q.internalQueue = p :: rest) :
    q.dequeue = .ok (p, q.popFront p rest) := by
  have limited : q.within rest = true := (represents.tail front).limited
  rw [represents.toCounted.dequeue front, if_pos limited]

/-- The test made before a packet is put on the back of the queue. -/
theorem Counted.fits (counted : Counted q) (sized : p.contents.length < 2 ^ 31) :
    q.goodWith (u32 ((totalBytes q.internalQueue : Nat) + p.contents.length))
      (u32 ((q.internalQueue.length : Nat) + 1)) = q.within (q.internalQueue ++ [p]) := by
  have bytes := counted.bytes_lt
  have packets := counted.packets_lt
  have bytesWord : u32 ((totalBytes q.internalQueue : Nat) + p.contents.length) =
      totalBytes q.internalQueue + p.contents.length := by
    exact_mod_cast toUnsigned_natCast 32 _ (by omega)
  have packetsWord : u32 ((q.internalQueue.length : Nat) + 1) = q.internalQueue.length + 1 := by
    exact_mod_cast toUnsigned_natCast 32 _ (by omega)
  rw [bytesWord, packetsWord]
  simp only [within, totalBytes_append, totalBytes_cons, totalBytes_nil, Nat.add_zero,
    List.length_append, List.length_singleton]

/-- What the queue is after a packet is offered to its back. -/
def offered (q : DroppingPacketQueue) (p : QueuedPacket) : DroppingPacketQueue :=
  if q.within (q.internalQueue ++ [p]) then q.accept p else q

/-- A packet offered changes the totals of the queue to something an `int` can hold. -/
structure Countable (q : DroppingPacketQueue) (p : QueuedPacket) : Prop where
  sized : p.contents.length < 2 ^ 31
  totals : q.within (q.internalQueue ++ [p]) = true →
    totalBytes (q.internalQueue ++ [p]) < 2 ^ 31 ∧ (q.internalQueue ++ [p]).length < 2 ^ 31

instance (q : DroppingPacketQueue) (p : QueuedPacket) : Decidable (Countable q p) :=
  decidable_of_iff (p.contents.length < 2 ^ 31 ∧ (q.within (q.internalQueue ++ [p]) = true →
      totalBytes (q.internalQueue ++ [p]) < 2 ^ 31 ∧ (q.internalQueue ++ [p]).length < 2 ^ 31))
    ⟨fun both => ⟨both.1, both.2⟩, fun countable => ⟨countable.sized, countable.totals⟩⟩

theorem Represents.offered (represents : Represents q) (countable : Countable q p) :
    Represents (q.offered p) := by
  unfold DroppingPacketQueue.offered
  by_cases fits : q.within (q.internalQueue ++ [p]) = true
  · have ⟨bytes, packets⟩ := countable.totals fits
    rw [if_pos fits]
    exact ⟨represents.toCounted.accept bytes packets, fits⟩
  · rw [if_neg fits]
    exact represents

theorem Counted.enqueueTail (counted : Counted q) (sized : p.contents.length < 2 ^ 31) :
    q.enqueueTail p = (do
      check "good()" (← (q.offered p).good)
      return q.offered p) := by
  unfold DroppingPacketQueue.enqueueTail DroppingPacketQueue.offered
  rw [counted.sizeBytes, counted.sizePackets]
  simp only [bind, Except.bind, counted.fits sized]

/-- A packet is accepted at the tail exactly when the limits hold with it. No assertion fails. -/
theorem Represents.enqueueTail (represents : Represents q) (countable : Countable q p) :
    q.enqueueTail p = .ok (q.offered p) := by
  have after := represents.offered countable
  rw [represents.toCounted.enqueueTail countable.sized, after.toCounted.good, after.limited]
  rfl

/-- The assertions on the counters of a queue that has accepted a packet find an overflow. -/
theorem Counted.accept_of_good (counted : Counted q) (sized : p.contents.length < 2 ^ 31) {b : Bool}
    (good : (q.accept p).good = .ok b) : Counted (q.accept p) := by
  obtain ⟨bytes, first, good⟩ := bind_eq_ok.mp good
  obtain ⟨packets, second, _⟩ := bind_eq_ok.mp good
  have bytesNonneg := (sizeBytes_eq_ok.mp first).1
  have packetsNonneg := (sizePackets_eq_ok.mp second).1
  have bytesLt := counted.bytes_lt
  have packetsLt := counted.packets_lt
  simp only [DroppingPacketQueue.accept, counted.bytes, counted.packets, i32]
    at bytesNonneg packetsNonneg
  have bytesExact := toSigned_eq_of_nonneg 32 _ (by omega) bytesNonneg
  have packetsExact := toSigned_eq_of_nonneg 32 _ (by omega) packetsNonneg
  have bytesRange := toSigned_lt 31 ((totalBytes q.internalQueue : Nat) + p.contents.length : Int)
  have packetsRange := toSigned_lt 31 ((q.internalQueue.length : Nat) + 1 : Int)
  rw [bytesExact] at bytesRange
  rw [packetsExact] at packetsRange
  apply counted.accept
  · simp only [totalBytes_append, totalBytes_cons, totalBytes_nil]
    omega
  · simp only [List.length_append, List.length_singleton]
    omega

/-- A call of `enqueue` that returns has kept the representation. -/
theorem Represents.enqueueTail_returned (represents : Represents q)
    (sized : p.contents.length < 2 ^ 31) (run : q.enqueueTail p = .ok next) :
    Represents next ∧ next = q.offered p := by
  rw [represents.toCounted.enqueueTail sized] at run
  obtain ⟨b, good, run⟩ := bind_eq_ok.mp run
  obtain ⟨_, _, same⟩ := bind_eq_ok.mp run
  refine ⟨?_, (Except.ok.inj same).symm⟩
  rw [← Except.ok.inj same]
  by_cases fits : q.within (q.internalQueue ++ [p]) = true
  · simp only [DroppingPacketQueue.offered, fits, ↓reduceIte] at good ⊢
    exact ⟨represents.toCounted.accept_of_good sized good, fits⟩
  · simp only [DroppingPacketQueue.offered, fits]
    exact represents

end DroppingPacketQueue

namespace AbstractPacketQueue

/-- The queues that accept a packet at the tail or drop it, with their counters right. -/
def AcceptsAtTail : AbstractPacketQueue → Prop
  | infinite _ => True
  | droptail q => q.Represents
  | drophead _ => False

variable {q next : AbstractPacketQueue} {p : QueuedPacket} {rest : List QueuedPacket}

/-- Such a queue gives out its first packet, and no assertion fails. -/
theorem AcceptsAtTail.dequeue (accepts : q.AcceptsAtTail) (front : q.packets = p :: rest) :
    ∃ next, q.dequeue = .ok (p, next) ∧ next.packets = rest ∧ next.AcceptsAtTail := by
  cases q with
  | infinite q =>
      obtain ⟨next, dequeued, left⟩ :
          ∃ next, q.dequeue = .ok (p, next) ∧ next.internalQueue = rest := by
        rw [InfinitePacketQueue.dequeue, show q.internalQueue = p :: rest from front]
        exact ⟨_, rfl, rfl⟩
      refine ⟨.infinite next, ?_, left, trivial⟩
      rw [AbstractPacketQueue.dequeue, dequeued]
      rfl
  | droptail q =>
      have dequeued := DroppingPacketQueue.Represents.dequeue accepts front
      refine ⟨.droptail (q.popFront p rest), ?_, rfl, ?_⟩
      · rw [AbstractPacketQueue.dequeue, dequeued]
        rfl
      · exact DroppingPacketQueue.Represents.tail accepts front
  | drophead q => exact accepts.elim

theorem AcceptsAtTail.enqueue (accepts : q.AcceptsAtTail) (sized : p.contents.length < 2 ^ 31)
    (run : q.enqueue p = .ok next) : next.AcceptsAtTail := by
  rcases enqueue_cases run with ⟨a, rfl, rfl⟩ | ⟨a, b, rfl, rfl, enqueued⟩ |
    ⟨a, b, rfl, rfl, enqueued⟩
  · trivial
  · exact (DroppingPacketQueue.Represents.enqueueTail_returned accepts sized enqueued).1
  · exact accepts.elim

end AbstractPacketQueue

end CellReplay
