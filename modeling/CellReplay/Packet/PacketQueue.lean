import CellReplay.Util.Ezio

set_option autoImplicit false

namespace CellReplay

open MachineWord FueledLoop

/-- A queue that takes every packet. Nothing the emulator does reads its counters. -/
structure InfinitePacketQueue where
  internalQueue : List QueuedPacket := []
  queueSizeInBytes : Int := 0
  queueSizeInPackets : Int := 0
  deriving DecidableEq, Repr

namespace InfinitePacketQueue

def enqueue (q : InfinitePacketQueue) (p : QueuedPacket) : InfinitePacketQueue :=
  { internalQueue := q.internalQueue ++ [p]
    queueSizeInBytes := i32 (q.queueSizeInBytes + p.contents.length)
    queueSizeInPackets := i32 (q.queueSizeInPackets + 1) }

def dequeue (q : InfinitePacketQueue) : Except Fault (QueuedPacket × InfinitePacketQueue) :=
  match q.internalQueue with
  | [] => .error (.assertion "not internal_queue_.empty()")
  | p :: rest =>
      .ok (p,
        { internalQueue := rest
          queueSizeInBytes := i32 (q.queueSizeInBytes - p.contents.length)
          queueSizeInPackets := i32 (q.queueSizeInPackets - 1) })

end InfinitePacketQueue

/-- The limits of a dropping queue, both `unsigned int`; 0 is no limit. A queue
with neither limit is refused by the constructor, and cannot be written here. -/
structure QueueLimits where
  packetLimit : Nat
  byteLimit : Nat
  packetLimit_lt : packetLimit < 2 ^ 32
  byteLimit_lt : byteLimit < 2 ^ 32
  limited : packetLimit ≠ 0 ∨ byteLimit ≠ 0
  deriving DecidableEq, Repr

/-- A limit that is not set is in range. -/
theorem QueueLimits.unset_lt : 0 < 2 ^ 32 := by decide

/-- The base class of the queues that drop packets. -/
structure DroppingPacketQueue where
  limits : QueueLimits
  internalQueue : List QueuedPacket := []
  queueSizeInBytes : Int := 0
  queueSizeInPackets : Int := 0
  deriving DecidableEq, Repr

namespace DroppingPacketQueue

/-- What follows the first place where `name` occurs in `args`. -/
def afterName (name : Text) : Text → Option Text
  | [] => if name.isPrefixOf [] then some [] else none
  | c :: args =>
      if name.isPrefixOf (c :: args) then some ((c :: args).drop name.length)
      else afterName name args

/-- The value given for a name, an `unsigned int`; 0 when the name does not occur. -/
def getArg (args name : Text) : Except Fault Nat :=
  match afterName name args with
  | none => .ok 0
  | some ('=' :: value) =>
      let digitString := value.takeWhile Char.isDigit
      if digitString.isEmpty then
        .error (.runtimeError ("could not parse queue arguments: " ++ String.ofList args))
      else do return u32 (← myatoi digitString)
  | some _ => .error (.runtimeError ("could not parse queue arguments: " ++ String.ofList args))

theorem getArg_lt {args name : Text} {n : Nat} (read : getArg args name = .ok n) : n < 2 ^ 32 := by
  unfold getArg at read
  split at read
  · cases read
    decide
  · dsimp only at read
    split at read
    · cases read
    · have ⟨value, _, same⟩ := bind_eq_ok.mp read
      cases same
      exact toUnsigned_lt 32 value
  · cases read

/-- The constructor's check, on limits that are `unsigned int`s. -/
def ofLimits (packetLimit byteLimit : Nat) (packetLimit_lt : packetLimit < 2 ^ 32)
    (byteLimit_lt : byteLimit < 2 ^ 32) : Except Fault DroppingPacketQueue :=
  if h : packetLimit = 0 ∧ byteLimit = 0 then
    .error (.runtimeError "Dropping queue must have a byte or packet limit.")
  else .ok { limits := ⟨packetLimit, byteLimit, packetLimit_lt, byteLimit_lt, by omega⟩ }

/-- The constructor. -/
def new (args : Text) : Except Fault DroppingPacketQueue :=
  match packets : getArg args "packets".toList with
  | .error fault => .error fault
  | .ok packetLimit =>
      match bytes : getArg args "bytes".toList with
      | .error fault => .error fault
      | .ok byteLimit => ofLimits packetLimit byteLimit (getArg_lt packets) (getArg_lt bytes)

def sizeBytes (q : DroppingPacketQueue) : Except Fault Nat := do
  check "queue_size_in_bytes_ >= 0" (0 ≤ q.queueSizeInBytes)
  return u32 q.queueSizeInBytes

def sizePackets (q : DroppingPacketQueue) : Except Fault Nat := do
  check "queue_size_in_packets_ >= 0" (0 ≤ q.queueSizeInPackets)
  return u32 q.queueSizeInPackets

def goodWith (q : DroppingPacketQueue) (sizeInBytes sizeInPackets : Nat) : Bool :=
  (q.limits.byteLimit == 0 || sizeInBytes ≤ q.limits.byteLimit) &&
    (q.limits.packetLimit == 0 || sizeInPackets ≤ q.limits.packetLimit)

def good (q : DroppingPacketQueue) : Except Fault Bool := do
  return q.goodWith (← q.sizeBytes) (← q.sizePackets)

/-- Put a packet on the back of the queue. -/
def accept (q : DroppingPacketQueue) (p : QueuedPacket) : DroppingPacketQueue :=
  { q with
    internalQueue := q.internalQueue ++ [p]
    queueSizeInBytes := i32 (q.queueSizeInBytes + p.contents.length)
    queueSizeInPackets := i32 (q.queueSizeInPackets + 1) }

/-- The queue without its first packet, the counters updated; no assertion yet. -/
def popFront (q : DroppingPacketQueue) (p : QueuedPacket) (rest : List QueuedPacket) :
    DroppingPacketQueue :=
  { q with
    internalQueue := rest
    queueSizeInBytes := i32 (q.queueSizeInBytes - p.contents.length)
    queueSizeInPackets := i32 (q.queueSizeInPackets - 1) }

def dequeue (q : DroppingPacketQueue) : Except Fault (QueuedPacket × DroppingPacketQueue) :=
  match q.internalQueue with
  | [] => .error (.assertion "not internal_queue_.empty()")
  | p :: rest => do
      check "good()" (← (q.popFront p rest).good)
      return (p, q.popFront p rest)

/-- `DropTailPacketQueue::enqueue`. -/
def enqueueTail (q : DroppingPacketQueue) (p : QueuedPacket) :
    Except Fault DroppingPacketQueue := do
  let fits := q.goodWith (u32 ((← q.sizeBytes) + p.contents.length)) (u32 ((← q.sizePackets) + 1))
  let q := if fits then q.accept p else q
  check "good()" (← q.good)
  return q

/-- `DropHeadPacketQueue::enqueue`. Every turn shortens the queue, so one turn
for each packet and one more test are enough. -/
def enqueueHead (q : DroppingPacketQueue) (p : QueuedPacket) : Except Fault DroppingPacketQueue :=
  let q := q.accept p
  whileLoop .fuel (fun q => do return !(← q.good)) (fun q => do return (← q.dequeue).2)
    (q.internalQueue.length + 1) q

end DroppingPacketQueue

/-- The disciplines `get_packet_queue` can build, behind the interface of `AbstractPacketQueue`. -/
inductive AbstractPacketQueue where
  | infinite (q : InfinitePacketQueue)
  | droptail (q : DroppingPacketQueue)
  | drophead (q : DroppingPacketQueue)
  deriving DecidableEq, Repr

namespace AbstractPacketQueue

/-- `get_packet_queue`. -/
def get (type args : Text) : Except Fault AbstractPacketQueue :=
  if type = "infinite".toList then
    if args.isEmpty then .ok (infinite {})
    else .error (.runtimeError "InfinitePacketQueue does not take arguments.")
  else if type = "droptail".toList then do return droptail (← DroppingPacketQueue.new args)
  else if type = "drophead".toList then do return drophead (← DroppingPacketQueue.new args)
  else .error (.runtimeError "invalid arguments")

def enqueue : AbstractPacketQueue → QueuedPacket → Except Fault AbstractPacketQueue
  | infinite q, p => .ok (infinite (q.enqueue p))
  | droptail q, p => do return droptail (← q.enqueueTail p)
  | drophead q, p => do return drophead (← q.enqueueHead p)

def dequeue : AbstractPacketQueue → Except Fault (QueuedPacket × AbstractPacketQueue)
  | infinite q => do
      let (p, q) ← q.dequeue
      return (p, infinite q)
  | droptail q => do
      let (p, q) ← q.dequeue
      return (p, droptail q)
  | drophead q => do
      let (p, q) ← q.dequeue
      return (p, drophead q)

/-- The packets held, first to leave first. -/
def packets : AbstractPacketQueue → List QueuedPacket
  | infinite q => q.internalQueue
  | droptail q => q.internalQueue
  | drophead q => q.internalQueue

def empty (q : AbstractPacketQueue) : Bool := q.packets.isEmpty

/-- Whether this is the queue that takes every packet. -/
def isInfinite : AbstractPacketQueue → Bool
  | infinite _ => true
  | _ => false

/-- Whether the limits still hold with one more packet. -/
def hasRoom : AbstractPacketQueue → QueuedPacket → Bool
  | infinite _, _ => true
  | droptail q, p | drophead q, p =>
      q.goodWith (u32 (q.queueSizeInBytes + p.contents.length)) (u32 (q.queueSizeInPackets + 1))

end AbstractPacketQueue

namespace DroppingPacketQueue

variable {q next : DroppingPacketQueue} {p : QueuedPacket}

theorem sizeBytes_eq_ok {n : Nat} : q.sizeBytes = .ok n ↔
    0 ≤ q.queueSizeInBytes ∧ u32 q.queueSizeInBytes = n := by
  unfold sizeBytes
  rw [bind_eq_ok]
  constructor
  · rintro ⟨_, checked, same⟩
    exact ⟨by simpa using check_eq_ok.mp checked, Except.ok.inj same⟩
  · rintro ⟨nonneg, rfl⟩
    exact ⟨(), check_eq_ok.mpr (by simpa using nonneg), rfl⟩

theorem sizePackets_eq_ok {n : Nat} : q.sizePackets = .ok n ↔
    0 ≤ q.queueSizeInPackets ∧ u32 q.queueSizeInPackets = n := by
  unfold sizePackets
  rw [bind_eq_ok]
  constructor
  · rintro ⟨_, checked, same⟩
    exact ⟨by simpa using check_eq_ok.mp checked, Except.ok.inj same⟩
  · rintro ⟨nonneg, rfl⟩
    exact ⟨(), check_eq_ok.mpr (by simpa using nonneg), rfl⟩

theorem good_eq_ok {b : Bool} (run : q.good = .ok b) :
    q.goodWith (u32 q.queueSizeInBytes) (u32 q.queueSizeInPackets) = b := by
  have ⟨bytes, first, run⟩ := bind_eq_ok.mp run
  have ⟨packets, second, run⟩ := bind_eq_ok.mp run
  rw [(sizeBytes_eq_ok.mp first).2, (sizePackets_eq_ok.mp second).2]
  exact Except.ok.inj run

theorem dequeue_packets (run : q.dequeue = .ok (p, next)) :
    q.internalQueue = p :: next.internalQueue := by
  unfold dequeue at run
  split at run
  · cases run
  · rename_i first rest shape
    have ⟨_, _, run⟩ := bind_eq_ok.mp run
    have ⟨_, _, run⟩ := bind_eq_ok.mp run
    have same := Prod.mk.inj (Except.ok.inj run)
    rw [shape, same.1, ← same.2]
    rfl

/-- Whether a packet accepted leaves the limits kept, in terms of the queue before. -/
theorem accept_good (q : DroppingPacketQueue) (p : QueuedPacket) {b : Bool}
    (run : (q.accept p).good = .ok b) :
    q.goodWith (u32 (q.queueSizeInBytes + p.contents.length))
    (u32 (q.queueSizeInPackets + 1)) = b := by
  have same := good_eq_ok run
  simpa only [accept, u32, i32, toUnsigned_toSigned, goodWith] using same

theorem enqueueTail_packets (run : q.enqueueTail p = .ok next) :
    next.internalQueue =
      if q.goodWith (u32 (q.queueSizeInBytes + p.contents.length)) (u32 (q.queueSizeInPackets + 1))
      then q.internalQueue ++ [p] else q.internalQueue := by
  have ⟨bytes, first, run⟩ := bind_eq_ok.mp run
  have ⟨packets, second, run⟩ := bind_eq_ok.mp run
  have ⟨_, _, run⟩ := bind_eq_ok.mp run
  have ⟨_, _, run⟩ := bind_eq_ok.mp run
  cases run
  rw [← (sizeBytes_eq_ok.mp first).2, ← (sizePackets_eq_ok.mp second).2]
  simp only [u32, toUnsigned_add]
  split
  · rfl
  · rfl

/-- A turn of the eviction loop takes one packet off the front. -/
theorem evict_length {a b : DroppingPacketQueue}
    (turn : Turn (fun q : DroppingPacketQueue => do return !(← q.good))
      (fun q : DroppingPacketQueue => do return (← q.dequeue).2) a b) :
    b.internalQueue.length + 1 = a.internalQueue.length := by
  have ⟨⟨first, rest⟩, dequeued, same⟩ := bind_eq_ok.mp turn.2
  cases same
  rw [dequeue_packets dequeued, List.length_cons]

/-- What is left after a drop at the head is the end of the queue with the packet behind it. -/
theorem enqueueHead_suffix (run : q.enqueueHead p = .ok next) :
    next.internalQueue <:+ q.internalQueue ++ [p] := by
  have kept := whileLoop_rel
    (R := fun a b : DroppingPacketQueue => b.internalQueue <:+ a.internalQueue)
    (fun _ => List.suffix_refl _) (fun _ _ _ ab bc => List.IsSuffix.trans bc ab)
    (by
      intro a b turn
      have ⟨⟨first, rest⟩, dequeued, same⟩ := bind_eq_ok.mp turn.2
      have shape : rest = b := Except.ok.inj same
      rw [dequeue_packets dequeued, shape]
      exact List.suffix_cons _ _)
    run
  exact kept

theorem enqueueHead_fits (run : q.enqueueHead p = .ok next)
    (fits : q.goodWith (u32 (q.queueSizeInBytes + p.contents.length))
      (u32 (q.queueSizeInPackets + 1)) = true) :
    next.internalQueue = q.internalQueue ++ [p] := by
  rcases whileLoop_ok_cases run with ⟨_, rfl⟩ | ⟨_, _, _, turn, _⟩
  · rfl
  · have ⟨b, good, tested⟩ := bind_eq_ok.mp turn.1
    have same := accept_good q p good
    rw [fits] at same
    rw [← same] at tested
    cases tested

theorem enqueueHead_evicts (run : q.enqueueHead p = .ok next)
    (full : q.goodWith (u32 (q.queueSizeInBytes + p.contents.length))
      (u32 (q.queueSizeInPackets + 1)) = false) :
    next.internalQueue.length ≤ q.internalQueue.length := by
  rcases whileLoop_ok_cases run with ⟨stop, _⟩ | ⟨left, mid, _, turn, rest⟩
  · have ⟨b, good, tested⟩ := bind_eq_ok.mp stop
    have same := accept_good q p good
    rw [full] at same
    rw [← same] at tested
    cases tested
  · have shorter := evict_length turn
    have rest := whileLoop_rel (R := fun a b => b.internalQueue.length ≤ a.internalQueue.length)
      (fun _ => Nat.le_refl _) (fun _ _ _ ab bc => Nat.le_trans bc ab)
      (fun a b turn => by have := evict_length turn; omega) rest
    simp only [accept, List.length_append, List.length_singleton] at shorter
    omega

theorem new_internalQueue {args : Text} {q : DroppingPacketQueue} (built : new args = .ok q) :
    q.internalQueue = [] := by
  unfold new at built
  split at built
  · cases built
  · split at built
    · cases built
    · unfold ofLimits at built
      split at built
      · cases built
      · cases built
        rfl

end DroppingPacketQueue

namespace AbstractPacketQueue

variable {q next : AbstractPacketQueue} {p : QueuedPacket}

/-- Every discipline gives out its first packet, and keeps its kind. -/
theorem dequeue_eq_ok (run : q.dequeue = .ok (p, next)) :
    q.packets = p :: next.packets ∧ next.isInfinite = q.isInfinite := by
  cases q with
  | infinite q =>
      have ⟨⟨first, rest⟩, dequeued, same⟩ := bind_eq_ok.mp run
      cases same
      refine ⟨?_, rfl⟩
      unfold InfinitePacketQueue.dequeue at dequeued
      split at dequeued
      · cases dequeued
      · rename_i head tail shape
        have same := Prod.mk.inj (Except.ok.inj dequeued)
        rw [packets, shape, same.1, ← same.2]
        rfl
  | droptail q =>
      have ⟨⟨first, rest⟩, dequeued, same⟩ := bind_eq_ok.mp run
      cases same
      exact ⟨DroppingPacketQueue.dequeue_packets dequeued, rfl⟩
  | drophead q =>
      have ⟨⟨first, rest⟩, dequeued, same⟩ := bind_eq_ok.mp run
      cases same
      exact ⟨DroppingPacketQueue.dequeue_packets dequeued, rfl⟩

/-- What each discipline does with a packet offered. -/
theorem enqueue_cases (run : q.enqueue p = .ok next) :
    (∃ a, q = .infinite a ∧ next = .infinite (a.enqueue p)) ∨
      (∃ a b, q = .droptail a ∧ next = .droptail b ∧ a.enqueueTail p = .ok b) ∨
      ∃ a b, q = .drophead a ∧ next = .drophead b ∧ a.enqueueHead p = .ok b := by
  cases q with
  | infinite a => exact Or.inl ⟨a, rfl, (Except.ok.inj run).symm⟩
  | droptail a =>
      have ⟨b, enqueued, same⟩ := bind_eq_ok.mp run
      exact Or.inr (Or.inl ⟨a, b, rfl, (Except.ok.inj same).symm, enqueued⟩)
  | drophead a =>
      have ⟨b, enqueued, same⟩ := bind_eq_ok.mp run
      exact Or.inr (Or.inr ⟨a, b, rfl, (Except.ok.inj same).symm, enqueued⟩)

theorem enqueue_isInfinite (run : q.enqueue p = .ok next) : next.isInfinite = q.isInfinite := by
  rcases enqueue_cases run with ⟨a, rfl, rfl⟩ | ⟨a, b, rfl, rfl, _⟩ | ⟨a, b, rfl, rfl, _⟩
  all_goals rfl

/-- With room, every discipline puts the packet behind the others and drops none. -/
theorem enqueue_hasRoom (run : q.enqueue p = .ok next) (room : q.hasRoom p = true) :
    next.packets = q.packets ++ [p] := by
  rcases enqueue_cases run with ⟨a, rfl, rfl⟩ | ⟨a, b, rfl, rfl, enqueued⟩ |
    ⟨a, b, rfl, rfl, enqueued⟩
  · rfl
  · have kept := DroppingPacketQueue.enqueueTail_packets enqueued
    simp only [hasRoom] at room
    rw [if_pos room] at kept
    exact kept
  · exact DroppingPacketQueue.enqueueHead_fits enqueued room

/-- Without room, some packet is dropped. -/
theorem enqueue_full (run : q.enqueue p = .ok next) (full : q.hasRoom p = false) :
    next.packets.length ≤ q.packets.length := by
  rcases enqueue_cases run with ⟨a, rfl, rfl⟩ | ⟨a, b, rfl, rfl, enqueued⟩ |
    ⟨a, b, rfl, rfl, enqueued⟩
  · cases full
  · have kept := DroppingPacketQueue.enqueueTail_packets enqueued
    simp only [hasRoom] at full
    rw [full, if_neg Bool.false_ne_true] at kept
    exact Nat.le_of_eq (congrArg List.length kept)
  · exact DroppingPacketQueue.enqueueHead_evicts enqueued full

/-- No discipline makes up packets. -/
theorem enqueue_mem (run : q.enqueue p = .ok next) : ∀ x ∈ next.packets, x ∈ q.packets ∨ x = p := by
  rcases enqueue_cases run with ⟨a, rfl, rfl⟩ | ⟨a, b, rfl, rfl, enqueued⟩ |
    ⟨a, b, rfl, rfl, enqueued⟩
  · intro x member
    simpa [packets, InfinitePacketQueue.enqueue] using member
  · have kept := DroppingPacketQueue.enqueueTail_packets enqueued
    intro x member
    simp only [packets] at member ⊢
    rw [kept] at member
    split at member
    · simpa using member
    · exact Or.inl member
  · have suffix := DroppingPacketQueue.enqueueHead_suffix enqueued
    intro x member
    simpa [packets] using suffix.subset member

theorem hasRoom_of_isInfinite (infinite : q.isInfinite = true) : q.hasRoom p = true := by
  cases q with
  | infinite q => rfl
  | droptail q => cases infinite
  | drophead q => cases infinite

/-- The shell builds its queues empty. -/
theorem get_packets {type args : Text} (built : get type args = .ok q) : q.packets = [] := by
  unfold get at built
  split at built
  · split at built
    · cases built
      rfl
    · cases built
  · split at built
    · have ⟨queue, new, same⟩ := bind_eq_ok.mp built
      cases same
      exact DroppingPacketQueue.new_internalQueue new
    · split at built
      · have ⟨queue, new, same⟩ := bind_eq_ok.mp built
        cases same
        exact DroppingPacketQueue.new_internalQueue new
      · cases built

end AbstractPacketQueue

end CellReplay
