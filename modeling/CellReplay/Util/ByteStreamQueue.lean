import CellReplay.Lib.FifoChannel
import CellReplay.Lib.RingWindow
import CellReplay.Lib.Transition
import CellReplay.Packet.QueuedPacket

set_option autoImplicit false

namespace CellReplay

open MachineWord FueledLoop FifoChannel RingWindow Transition

/-- No `std::string` is longer than the largest difference of its iterators. -/
def maxStringSize : Nat := 2 ^ 63 - 1

/-- A circular buffer between two file descriptors; one byte of the buffer stays unused. -/
structure ByteStreamQueue where
  buffer : Bytes
  nextByteToPush : Nat
  nextByteToPop : Nat
  deriving DecidableEq, Repr

namespace ByteStreamQueue

/-- The constructor. -/
def construct (size : Nat) : Except Fault ByteStreamQueue :=
  if maxStringSize < size then .error (.runtimeError "length_error")
  else do
    check "size > 1" (1 < size)
    return ⟨List.replicate size 0, 0, 0⟩

/-- `size_t available_to_pop( void )`. -/
def availableToPop (q : ByteStreamQueue) : Nat :=
  u64 (q.nextByteToPush - q.nextByteToPop +
    if q.nextByteToPush < q.nextByteToPop then (q.buffer.length : Int) else 0)

/-- `size_t available_to_push( void )`. -/
def availableToPush (q : ByteStreamQueue) : Nat :=
  u64 (q.nextByteToPop - q.nextByteToPush - 1 +
    if q.nextByteToPush < q.nextByteToPop then (0 : Int) else q.buffer.length)

def spaceAvailable (q : ByteStreamQueue) : Bool := 0 < q.availableToPush

def nonEmpty (q : ByteStreamQueue) : Bool := 0 < q.availableToPop

/-- An amount available from a cursor on, cut at the end of the buffer. -/
def contiguousSpace (size nextByte available : Nat) : Nat :=
  if size ≤ u64 (nextByte + available) then u64 (size - nextByte) else available

def contiguousSpaceToPush (q : ByteStreamQueue) : Nat :=
  contiguousSpace q.buffer.length q.nextByteToPush q.availableToPush

def contiguousSpaceToPop (q : ByteStreamQueue) : Nat :=
  contiguousSpace q.buffer.length q.nextByteToPop q.availableToPop

inductive Result where
  | success
  | endOfFile
  deriving DecidableEq, Repr

/-- The place in the buffer that `at` refuses when it is past the end. -/
def placeToPush (q : ByteStreamQueue) : Except Fault Nat :=
  if q.nextByteToPush < q.buffer.length then .ok q.nextByteToPush else .error .outOfRange

/-- A chunk copied to a place, with the push cursor behind it. -/
def store (place : Nat) (newChunk : Bytes) (q : ByteStreamQueue) : ByteStreamQueue :=
  { q with
    buffer := overwrite q.buffer place newChunk
    nextByteToPush := wrap q.buffer.length (place + newChunk.length) }

/-- The end of `push`, once a chunk has been read. -/
def storeChunk (newChunk : Bytes) (q : ByteStreamQueue) :
    Except Fault (Result × ByteStreamQueue) :=
  if newChunk.isEmpty then .ok (.endOfFile, q)
  else do
    check "new_chunk.size() <= buffer_.size() - next_byte_to_push"
      (newChunk.length ≤ u64 (q.buffer.length - q.nextByteToPush))
    let place ← q.placeToPush
    check "next_byte_to_push <= buffer_.size()" (place + newChunk.length ≤ q.buffer.length)
    check "non_empty()" (q.store place newChunk).nonEmpty
    return (.success, q.store place newChunk)

/-- `push`, from a descriptor whose `read` answers a limit with a chunk, empty at end of file. -/
def push (read : Nat → Bytes) (q : ByteStreamQueue) : Except Fault (Result × ByteStreamQueue) := do
  check "space_available()" q.spaceAvailable
  check "contiguous_space_to_push > 0" (0 < q.contiguousSpaceToPush)
  q.storeChunk (read q.contiguousSpaceToPush)

/-- The bytes `pop` offers to the descriptor. -/
def offered (q : ByteStreamQueue) : Bytes :=
  (q.buffer.drop q.nextByteToPop).take q.contiguousSpaceToPop

/-- `FileDescriptor::write` of part of a string, for a descriptor that takes `accepted` bytes. -/
def writePart (offered : Bytes) (accepted : Nat) : Except Fault Nat :=
  if offered.isEmpty then .error (.runtimeError "nothing to write")
  else if accepted = 0 then .error (.runtimeError "write returned 0")
  else .ok accepted

/-- `pop`, to a descriptor that answers what it is offered with the number of bytes it takes. -/
def pop (write : Bytes → Nat) (q : ByteStreamQueue) : Except Fault ByteStreamQueue := do
  check "non_empty()" q.nonEmpty
  check "end_of_pop >= pop_iterator" (0 ≤ i64 q.contiguousSpaceToPop)
  let written ← writePart q.offered (write q.offered)
  check "next_byte_to_pop <= buffer_.size()" (q.nextByteToPop + written ≤ q.buffer.length)
  return { q with nextByteToPop := wrap q.buffer.length (q.nextByteToPop + written) }

/-- The bytes held, first to pop first. -/
def held (q : ByteStreamQueue) : Bytes := window q.buffer q.nextByteToPop q.nextByteToPush

/-- What keeps the two cursors apart from each other and inside the buffer. -/
structure Valid (q : ByteStreamQueue) : Prop where
  sized : 1 < q.buffer.length
  bounded : q.buffer.length ≤ maxStringSize
  pushInside : q.nextByteToPush < q.buffer.length
  popInside : q.nextByteToPop < q.buffer.length

section
variable {q : ByteStreamQueue}

theorem Valid.held_length (valid : Valid q) : q.held.length =
    if q.nextByteToPop ≤ q.nextByteToPush then q.nextByteToPush - q.nextByteToPop
    else q.buffer.length - q.nextByteToPop + q.nextByteToPush :=
  window_length valid.popInside valid.pushInside

/-- One byte of the buffer stays unused. -/
theorem Valid.held_lt (valid : Valid q) : q.held.length < q.buffer.length := by
  have length := valid.held_length
  have push := valid.pushInside
  have pop := valid.popInside
  split at length
  · omega
  · omega

/-- The wrapping difference of the cursors is exact. -/
theorem Valid.availableToPop_eq (valid : Valid q) : q.availableToPop = q.held.length := by
  have length := valid.held_length
  have bounded := valid.bounded
  have below := valid.held_lt
  have push := valid.pushInside
  have pop := valid.popInside
  have value : (q.nextByteToPush - q.nextByteToPop +
      if q.nextByteToPush < q.nextByteToPop then (q.buffer.length : Int) else 0) =
      (q.held.length : Int) := by
    rw [length]
    by_cases wrapped : q.nextByteToPush < q.nextByteToPop
    · rw [if_pos wrapped, if_neg (by omega)]
      omega
    · rw [if_neg wrapped, if_pos (by omega)]
      omega
  unfold availableToPop
  unfold maxStringSize at bounded
  rw [value]
  exact toUnsigned_natCast 64 _ (by omega)

theorem Valid.availableToPush_eq (valid : Valid q) :
    q.availableToPush = q.buffer.length - 1 - q.held.length := by
  have length := valid.held_length
  have bounded := valid.bounded
  have below := valid.held_lt
  have push := valid.pushInside
  have pop := valid.popInside
  have value : (q.nextByteToPop - q.nextByteToPush - 1 +
      if q.nextByteToPush < q.nextByteToPop then (0 : Int) else q.buffer.length) =
      ((q.buffer.length - 1 - q.held.length : Nat) : Int) := by
    rw [length]
    by_cases wrapped : q.nextByteToPush < q.nextByteToPop
    · rw [if_pos wrapped, if_neg (by omega)]
      omega
    · rw [if_neg wrapped, if_pos (by omega)]
      omega
  unfold availableToPush
  unfold maxStringSize at bounded
  rw [value]
  exact toUnsigned_natCast 64 _ (by omega)

/-- The room from a cursor to the end of the buffer is exact. -/
theorem toEnd_exact {size nextByte : Nat} (bounded : size ≤ maxStringSize)
    (inside : nextByte < size) : u64 ((size : Int) - nextByte) = size - nextByte := by
  unfold maxStringSize at bounded
  rw [← Int.ofNat_sub (Nat.le_of_lt inside)]
  exact toUnsigned_natCast 64 _ (by omega)

theorem contiguousSpace_eq {size nextByte available : Nat} (bounded : size ≤ maxStringSize)
    (inside : nextByte < size) (within : available < size) :
    contiguousSpace size nextByte available = min available (size - nextByte) := by
  have toEnd := toEnd_exact bounded inside
  unfold maxStringSize at bounded
  have sum : u64 ((nextByte : Int) + available) = nextByte + available :=
    toUnsigned_natCast 64 (nextByte + available) (by omega)
  unfold contiguousSpace
  rw [sum, toEnd]
  split
  · omega
  · omega

theorem Valid.contiguousSpaceToPush_eq (valid : Valid q) : q.contiguousSpaceToPush =
    min q.availableToPush (q.buffer.length - q.nextByteToPush) := by
  have available := valid.availableToPush_eq
  have push := valid.pushInside
  exact contiguousSpace_eq valid.bounded push (by omega)

theorem Valid.contiguousSpaceToPop_eq (valid : Valid q) : q.contiguousSpaceToPop =
    min q.held.length (q.buffer.length - q.nextByteToPop) := by
  have below := valid.held_lt
  rw [← valid.availableToPop_eq] at below ⊢
  exact contiguousSpace_eq valid.bounded valid.popInside below

theorem Valid.offered_length (valid : Valid q) : q.offered.length = q.contiguousSpaceToPop := by
  have contiguous := valid.contiguousSpaceToPop_eq
  unfold offered
  rw [List.length_take, List.length_drop]
  omega

theorem offered_take {count : Nat} (within : count ≤ q.contiguousSpaceToPop) :
    q.offered.take count = (q.buffer.drop q.nextByteToPop).take count := by
  unfold offered
  rw [List.take_take, Nat.min_eq_left within]

/-- A valid buffer before the call, the same buffer with other contents held after it. -/
structure Keeps (q next : ByteStreamQueue) (inside : Bytes) : Prop where
  valid : Valid next
  size : next.buffer.length = q.buffer.length
  held : next.held = inside

/-- A chunk that fits the contiguous stretch is copied behind what is held. -/
theorem Valid.store (valid : Valid q) {newChunk : Bytes}
    (fits : newChunk.length ≤ q.contiguousSpaceToPush) :
    Keeps q (q.store q.nextByteToPush newChunk) (q.held ++ newChunk) := by
  have contiguous := valid.contiguousSpaceToPush_eq
  have available := valid.availableToPush_eq
  have below := valid.held_lt
  have push := valid.pushInside
  have inside : q.nextByteToPush + newChunk.length ≤ q.buffer.length := by omega
  have size : (q.store q.nextByteToPush newChunk).buffer.length = q.buffer.length :=
    overwrite_length inside
  refine ⟨⟨?_, ?_, ?_, ?_⟩, size, ?_⟩
  · rw [size]
    exact valid.sized
  · rw [size]
    exact valid.bounded
  · rw [size]
    exact wrap_lt (by omega) inside
  · rw [size]
    exact valid.popInside
  · exact window_push valid.popInside push inside (show q.held.length + _ < _ by omega)

theorem Valid.storeChunk_spec (valid : Valid q) {newChunk : Bytes}
    (fits : newChunk.length ≤ q.contiguousSpaceToPush) : ∃ result next,
      q.storeChunk newChunk = .ok (result, next) ∧ Keeps q next (q.held ++ newChunk) := by
  have contiguous := valid.contiguousSpaceToPush_eq
  have push := valid.pushInside
  by_cases empty : newChunk = []
  · refine ⟨.endOfFile, q, ?_, valid, rfl, ?_⟩
    · rw [empty]
      rfl
    · rw [empty, List.append_nil]
  · have keeps := valid.store fits
    have some' : (q.store q.nextByteToPush newChunk).nonEmpty = true := by
      have positive := List.length_pos_iff.mpr empty
      unfold nonEmpty
      rw [keeps.valid.availableToPop_eq, keeps.held, List.length_append]
      exact decide_eq_true (by omega)
    have notEmpty : newChunk.isEmpty = false := List.isEmpty_eq_false_iff.mpr empty
    have short : decide (newChunk.length ≤ q.buffer.length - q.nextByteToPush) = true :=
      decide_eq_true (by omega)
    have inside : decide (q.nextByteToPush + newChunk.length ≤ q.buffer.length) = true :=
      decide_eq_true (by omega)
    refine ⟨.success, q.store q.nextByteToPush newChunk, ?_, keeps⟩
    unfold storeChunk placeToPush
    rw [notEmpty, toEnd_exact valid.bounded push, check_pass short, if_pos push]
    show (do
      check _ (decide (q.nextByteToPush + newChunk.length ≤ q.buffer.length))
      check _ (q.store q.nextByteToPush newChunk).nonEmpty
      return (Result.success, q.store q.nextByteToPush newChunk)) = _
    rw [check_pass inside, check_pass some']
    rfl

/-- `push` with space available reads a chunk behind what is held, and no assertion fires. -/
theorem Valid.push_spec (valid : Valid q) {read : Nat → Bytes} (space : q.spaceAvailable = true)
    (limited : ∀ limit, (read limit).length ≤ limit) : ∃ result next,
      q.push read = .ok (result, next) ∧
        Keeps q next (q.held ++ read q.contiguousSpaceToPush) := by
  have contiguous := valid.contiguousSpaceToPush_eq
  have push := valid.pushInside
  have available := of_decide_eq_true space
  have stretch : decide (0 < q.contiguousSpaceToPush) = true := decide_eq_true (by omega)
  unfold ByteStreamQueue.push
  rw [check_pass space, check_pass stretch]
  exact valid.storeChunk_spec (limited _)

/-- `push` reports the end of file for an empty chunk. -/
theorem push_endOfFile {read : Nat → Bytes} {next : ByteStreamQueue}
    (ended : q.push read = .ok (.endOfFile, next)) :
    (read q.contiguousSpaceToPush).isEmpty = true := by
  unfold ByteStreamQueue.push storeChunk at ended
  have ⟨_, _, ended⟩ := bind_eq_ok.mp ended
  have ⟨_, _, ended⟩ := bind_eq_ok.mp ended
  by_contra some'
  rw [if_neg some'] at ended
  have ⟨_, _, ended⟩ := bind_eq_ok.mp ended
  have ⟨_, _, ended⟩ := bind_eq_ok.mp ended
  have ⟨_, _, ended⟩ := bind_eq_ok.mp ended
  have ⟨_, _, ended⟩ := bind_eq_ok.mp ended
  cases ended

/-- `pop` of something writes what the descriptor takes off the front, and no assertion fires. -/
theorem Valid.pop_spec (valid : Valid q) {write : Bytes → Nat} (some' : q.nonEmpty = true)
    (takes : ∀ given, given ≠ [] → 1 ≤ write given ∧ write given ≤ given.length) : ∃ next,
      q.pop write = .ok next ∧ ∃ inside, Keeps q next inside ∧
        q.held = q.offered.take (write q.offered) ++ inside := by
  have contiguous := valid.contiguousSpaceToPop_eq
  have length := valid.offered_length
  have bounded := valid.bounded
  have pop := valid.popInside
  have available := of_decide_eq_true some'
  rw [valid.availableToPop_eq] at available
  unfold maxStringSize at bounded
  have something : q.offered ≠ [] := List.length_pos_iff.mp (by omega)
  have ⟨positive, within⟩ := takes q.offered something
  have inside : q.nextByteToPop + write q.offered ≤ q.buffer.length := by omega
  have forward : i64 q.contiguousSpaceToPop = q.contiguousSpaceToPop :=
    toSigned_of_range 64 _ (by decide) (by omega) (by omega)
  have written : writePart q.offered (write q.offered) = .ok (write q.offered) := by
    unfold writePart
    rw [List.isEmpty_eq_false_iff.mpr something, if_neg Bool.false_ne_true]
    exact if_neg (by omega)
  let next : ByteStreamQueue :=
    { q with nextByteToPop := wrap q.buffer.length (q.nextByteToPop + write q.offered) }
  have kept : Valid next :=
    ⟨valid.sized, valid.bounded, valid.pushInside, wrap_lt (by omega) inside⟩
  have cut : (q.buffer.drop q.nextByteToPop).take (write q.offered) ++ next.held = q.held :=
    window_pop pop valid.pushInside inside (show _ ≤ q.held.length by omega)
  have front := offered_take (show write q.offered ≤ q.contiguousSpaceToPop by omega)
  refine ⟨next, ?_, next.held, ⟨kept, rfl, rfl⟩, ?_⟩
  · unfold ByteStreamQueue.pop
    rw [check_pass some', forward, check_pass (decide_eq_true (Int.natCast_nonneg _)), written]
    show (do
      check _ (decide (q.nextByteToPop + write q.offered ≤ q.buffer.length))
      return next) = _
    rw [check_pass (decide_eq_true inside)]
    rfl
  · rw [front, cut]

/-- A buffer can be made of every size a string can have, from two bytes on. -/
theorem construct_eq_ok {size : Nat} : construct size = .ok q ↔
    1 < size ∧ size ≤ maxStringSize ∧ q = ⟨List.replicate size 0, 0, 0⟩ := by
  unfold construct
  constructor
  · intro made
    by_cases large : maxStringSize < size
    · rw [if_pos large] at made
      cases made
    · rw [if_neg large] at made
      by_cases sized : 1 < size
      · rw [check_pass (decide_eq_true sized)] at made
        exact ⟨sized, by omega, (Except.ok.inj made).symm⟩
      · unfold check at made
        rw [if_neg (by simpa using sized)] at made
        cases made
  · intro ⟨sized, bounded, same⟩
    rw [if_neg (by omega), check_pass (decide_eq_true sized), same]
    rfl

theorem construct_valid {size : Nat} (made : construct size = .ok q) :
    Valid q ∧ q.buffer.length = size ∧ q.held = [] := by
  have ⟨sized, bounded, same⟩ := construct_eq_ok.mp made
  have length : (List.replicate size (0 : UInt8)).length = size := List.length_replicate
  rw [same]
  refine ⟨⟨?_, ?_, ?_, ?_⟩, length, rfl⟩
  all_goals
    dsimp only
    omega

end

/-- A call with the descriptor it is given: how that answers a read or a write. -/
inductive Call where
  | push (read : Nat → Bytes)
  | pop (write : Bytes → Nat)

/-- When a poller makes the call, and what its descriptor answers: a chunk no longer than the
limit, or a number of bytes taken, at least one and at most those given. -/
def Call.Allowed (q : ByteStreamQueue) : Call → Prop
  | push read => q.spaceAvailable = true ∧ ∀ limit, (read limit).length ≤ limit
  | pop write => q.nonEmpty = true ∧
      ∀ given, given ≠ [] → 1 ≤ write given ∧ write given ≤ given.length

/-- A buffer with all the bytes pushed and popped so far. -/
structure Transfer where
  queue : ByteStreamQueue
  pushed : Bytes
  popped : Bytes

def Call.exec : Call → Transfer → Except Fault Transfer
  | push read, t => do
      let (_, queue) ← t.queue.push read
      return ⟨queue, t.pushed ++ read t.queue.contiguousSpaceToPush, t.popped⟩
  | pop write, t => do
      let queue ← t.queue.pop write
      return ⟨queue, t.pushed, t.popped ++ t.queue.offered.take (write t.queue.offered)⟩

def Call.Step (t : Transfer) (call : Call) (next : Transfer) : Prop :=
  call.Allowed t.queue ∧ call.exec t = .ok next

/-- What the buffer is for: a channel of bytes that holds so many at most. A push lets a chunk
in when there is room for it, and a pop lets one out. -/
inductive Flow (capacity : Nat) : Channel UInt8 → Call → Channel UInt8 → Prop
  | push {c d : Channel UInt8} {chunk : Bytes} {read : Nat → Bytes} (move : Move chunk [] c d)
      (room : d.held.length ≤ capacity) : Flow capacity c (.push read) d
  | pop {c d : Channel UInt8} {chunk : Bytes} {write : Bytes → Nat} (some' : chunk ≠ [])
      (move : Move [] chunk c d) : Flow capacity c (.pop write) d

/-- The channel that a buffer of some size is. -/
structure Transfer.Carries (size : Nat) (t : Transfer) (c : Channel UInt8) : Prop where
  valid : Valid t.queue
  size : t.queue.buffer.length = size
  entered : c.entered = t.pushed
  departed : c.departed = t.popped
  held : c.held = t.queue.held

/-- An allowed call returns, and what it does to the buffer is a move of the channel. -/
theorem Transfer.Carries.exec {size : Nat} {t : Transfer} {c : Channel UInt8} {call : Call}
    (carries : t.Carries size c) (allowed : call.Allowed t.queue) :
    ∃ next d, call.exec t = .ok next ∧ Flow (size - 1) c call d ∧ next.Carries size d := by
  have valid := carries.valid
  cases call with
  | push read =>
      have ⟨space, limited⟩ := allowed
      have ⟨result, queue, run, keeps⟩ := valid.push_spec space limited
      have cut : c.held ++ read t.queue.contiguousSpaceToPush = [] ++ queue.held := by
        rw [carries.held, keeps.held, List.nil_append]
      have ⟨d, move, held⟩ := Move.of_held cut
      have length : queue.buffer.length = size := by rw [keeps.size, carries.size]
      have room : d.held.length ≤ size - 1 := by
        have below := keeps.valid.held_lt
        rw [held]
        omega
      refine ⟨⟨queue, t.pushed ++ read t.queue.contiguousSpaceToPush, t.popped⟩, d, ?_,
        Flow.push move room, keeps.valid, length, ?_, ?_, held⟩
      · rw [Call.exec, run]
        rfl
      · rw [move.1, carries.entered]
      · rw [move.2, carries.departed, List.append_nil]
  | pop write =>
      have ⟨something, takes⟩ := allowed
      have ⟨queue, run, inside, keeps, front⟩ := valid.pop_spec something takes
      have cut : c.held ++ [] = t.queue.offered.take (write t.queue.offered) ++ inside := by
        rw [carries.held, front, List.append_nil]
      have ⟨d, move, held⟩ := Move.of_held cut
      have length : queue.buffer.length = size := by rw [keeps.size, carries.size]
      have some' : t.queue.offered.take (write t.queue.offered) ≠ [] := by
        have available := of_decide_eq_true something
        have offered := valid.offered_length
        have contiguous := valid.contiguousSpaceToPop_eq
        have pop := valid.popInside
        rw [valid.availableToPop_eq] at available
        have positive := (takes t.queue.offered (List.length_pos_iff.mp (by omega))).1
        apply List.length_pos_iff.mp
        rw [List.length_take]
        omega
      refine ⟨⟨queue, t.pushed, t.popped ++ t.queue.offered.take (write t.queue.offered)⟩, d, ?_,
        Flow.pop some' move, keeps.valid, length, ?_, ?_, ?_⟩
      · rw [Call.exec, run]
        rfl
      · rw [move.1, carries.entered, List.append_nil]
      · rw [move.2, carries.departed]
      · rw [held, keeps.held]

/-- Every run of calls is a run of the bounded channel. -/
theorem Transfer.refines {size : Nat} {q₀ : ByteStreamQueue} (made : construct size = .ok q₀)
    {calls : List Call} {t : Transfer} (run : Run Call.Step ⟨q₀, [], []⟩ calls t) :
    ∃ c, Run (Flow (size - 1)) Channel.empty calls c ∧ t.Carries size c := by
  have ⟨valid, length, nothing⟩ := construct_valid made
  apply run.simulates (R := Transfer.Carries size)
  · exact ⟨valid, length, rfl, rfl, nothing.symm⟩
  · intro s call s' c carries step
    have ⟨next, d, returned, flow, after⟩ := carries.exec step.1
    rw [Except.ok.inj (step.2.symm.trans returned)]
    exact ⟨d, flow, after⟩

/-- A buffer of any size carries the bytes in order: those popped are the first of those pushed,
the others are available to pop, the two amounts available make up the size but one, the cursors
stay inside the buffer, and no call that is allowed fails an assertion. -/
theorem refines_boundedFifo {size : Nat} {q₀ : ByteStreamQueue} (made : construct size = .ok q₀)
    {calls : List Call} {t : Transfer} (run : Run Call.Step ⟨q₀, [], []⟩ calls t) :
    (∃ rest, t.pushed = t.popped ++ rest ∧ rest.length = t.queue.availableToPop) ∧
      u64 (t.queue.availableToPop + t.queue.availableToPush) = size - 1 ∧
      t.queue.nextByteToPush < size ∧ t.queue.nextByteToPop < size ∧
      ∀ call : Call, call.Allowed t.queue → ∃ next, call.exec t = .ok next := by
  have ⟨c, _, carries⟩ := Transfer.refines made run
  have valid := carries.valid
  have length := carries.size
  have bounded := valid.bounded
  have below := valid.held_lt
  have pop := valid.availableToPop_eq
  have push := valid.availableToPush_eq
  have total := c.departed_append_held
  rw [carries.departed, carries.entered, carries.held] at total
  unfold maxStringSize at bounded
  refine ⟨⟨t.queue.held, total.symm, pop.symm⟩, ?_, ?_, ?_, ?_⟩
  · have sum : u64 (t.queue.availableToPop + t.queue.availableToPush) =
        t.queue.availableToPop + t.queue.availableToPush :=
      toUnsigned_natCast 64 (t.queue.availableToPop + t.queue.availableToPush) (by omega)
    rw [sum]
    omega
  · rw [← length]
    exact valid.pushInside
  · rw [← length]
    exact valid.popInside
  · intro call allowed
    have ⟨next, _, returned, _⟩ := carries.exec allowed
    exact ⟨next, returned⟩

/-- A descriptor that has three bytes to read, and one that takes one byte at a time. -/
def threeBytes : Call := .push (fun limit => [1, 2, 3].take limit)

def oneByte : Call := .pop (fun _ => 1)

theorem threeBytes_allowed {q : ByteStreamQueue} (space : q.spaceAvailable = true) :
    threeBytes.Allowed q := ⟨space, fun _ => List.length_take_le _ _⟩

theorem oneByte_allowed {q : ByteStreamQueue} (something : q.nonEmpty = true) :
    oneByte.Allowed q :=
  ⟨something, fun _ some' => ⟨Nat.le_refl 1, List.length_pos_iff.mpr some'⟩⟩

/-- In a buffer of three bytes the second push stops at the end of the buffer, before the cursor
goes around. -/
theorem refines_boundedFifo_wraps :
    ∃ q₀ t, construct 3 = .ok q₀ ∧
      Run Call.Step ⟨q₀, [], []⟩ [threeBytes, oneByte, threeBytes] t ∧
      t.queue.nextByteToPush = 0 ∧ t.pushed = [1, 2, 1] ∧ t.popped = [1] ∧
      ∃ rest, t.pushed = t.popped ++ rest ∧ rest.length = t.queue.availableToPop := by
  have made : construct 3 = .ok ⟨[0, 0, 0], 0, 0⟩ := rfl
  have first : Run Call.Step ⟨⟨[0, 0, 0], 0, 0⟩, [], []⟩ [threeBytes]
      ⟨⟨[1, 2, 0], 2, 0⟩, [1, 2], []⟩ := Run.single ⟨threeBytes_allowed rfl, rfl⟩
  have second : Run Call.Step ⟨⟨[0, 0, 0], 0, 0⟩, [], []⟩ [threeBytes, oneByte]
      ⟨⟨[1, 2, 0], 2, 1⟩, [1, 2], [1]⟩ := Run.snoc first ⟨oneByte_allowed rfl, rfl⟩
  have third : Run Call.Step ⟨⟨[0, 0, 0], 0, 0⟩, [], []⟩ [threeBytes, oneByte, threeBytes]
      ⟨⟨[1, 2, 1], 0, 1⟩, [1, 2, 1], [1]⟩ := Run.snoc second ⟨threeBytes_allowed rfl, rfl⟩
  exact ⟨_, _, made, third, rfl, rfl, rfl, (refines_boundedFifo made third).1⟩

end ByteStreamQueue

end CellReplay
