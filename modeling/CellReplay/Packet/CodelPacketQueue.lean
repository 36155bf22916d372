import CellReplay.Packet.Representation

set_option autoImplicit false

namespace CellReplay

open MachineWord FueledLoop

/-- What `dodequeue` returns. `serial` is a history variable: the place of the packet among all
those taken out of the queue. -/
structure DodequeueResult where
  p : QueuedPacket
  okToDrop : Bool
  serial : Nat
  deriving DecidableEq, Repr

/-- The Controlled Delay queue. Times are `uint64_t`, the other numbers `uint32_t`. The last field
is a history variable, which nothing reads: what `dodequeue` has returned so far. -/
structure CODELPacketQueue extends DroppingPacketQueue where
  target : Nat
  interval : Nat
  firstAboveTime : Nat := 0
  dropNext : Nat := 0
  count : Nat := 0
  lastcount : Nat := 0
  dropping : Bool := false
  taken : List DodequeueResult := []
  deriving DecidableEq, Repr

namespace CODELPacketQueue

/-- The constructor. -/
def new (args : Text) : Except Fault CODELPacketQueue := do
  let base ← DroppingPacketQueue.new args
  let target ← DroppingPacketQueue.getArg args "target".toList
  let interval ← DroppingPacketQueue.getArg args "interval".toList
  if target = 0 ∨ interval = 0 then
    .error (.runtimeError "CoDel queue must have target and interval arguments.")
  else .ok { base with target := target, interval := interval }

/-- `PACKET_SIZE`. -/
def maxTunPayload : Nat := 1504

/-- The packet waited for less than the target, or less than a packet's bytes are left. -/
def delayLow (now : Nat) (p : QueuedPacket) (rest : DroppingPacketQueue) (q : CODELPacketQueue) :
    Except Fault Bool :=
  if u64 (now - p.arrivalTime) < q.target then .ok true
  else do return decide ((← rest.sizeBytes) ≤ maxTunPayload)

/-- The queue a packet was taken from, and what `dodequeue` says of the packet. -/
def takeOut (q : CODELPacketQueue) (p : QueuedPacket) (rest : DroppingPacketQueue)
    (firstAboveTime : Nat) (okToDrop : Bool) : DodequeueResult × CODELPacketQueue :=
  (⟨p, okToDrop, q.taken.length⟩,
    { q with
      toDroppingPacketQueue := rest
      firstAboveTime := firstAboveTime
      taken := q.taken ++ [⟨p, okToDrop, q.taken.length⟩] })

/-- The drop decision is ignored for a packet that is the only one in the queue. -/
def dodequeue (now : Nat) (q : CODELPacketQueue) :
    Except Fault (DodequeueResult × CODELPacketQueue) := do
  let (p, rest) ← q.toDroppingPacketQueue.dequeue
  if rest.internalQueue.isEmpty then return q.takeOut p rest 0 false
  else if ← q.delayLow now p rest then return q.takeOut p rest 0 false
  else if q.firstAboveTime = 0 then return q.takeOut p rest (u64 (now + q.interval)) false
  else return q.takeOut p rest q.firstAboveTime (q.firstAboveTime ≤ now)

section
-- `control_law`, whose square root is floating-point arithmetic
variable (controlLaw : Nat → Nat → Nat)

/-- The loop of `dequeue` goes on while the next drop is due. -/
def dropDue (now : Nat) (q : CODELPacketQueue) : Except Fault Bool :=
  .ok (decide (q.dropNext ≤ now) && q.dropping)

/-- What the loop does with the decision on the packet just taken out. -/
def countDrop (okToDrop : Bool) (q : CODELPacketQueue) : CODELPacketQueue :=
  let q := { q with count := u32 (q.count + 1) }
  if okToDrop then { q with dropNext := controlLaw q.dropNext q.count }
  else { q with dropping := false }

/-- A turn of the loop of `dequeue`. Its own `r` hides the outer one, and the packet in it is lost
when the turn ends. -/
def dropTurn (now : Nat) (q : CODELPacketQueue) : Except Fault CODELPacketQueue := do
  let (r, q) ← q.dodequeue now
  return q.countDrop controlLaw r.okToDrop

/-- The start of a dropping state. -/
def startDropping (now : Nat) (q : CODELPacketQueue) : CODELPacketQueue :=
  let delta := u32 (q.count - q.lastcount)
  let count := if 1 < delta ∧ u64 (now - q.dropNext) < u32 (16 * q.interval) then delta else 1
  { q with
    dropping := true
    count := count
    dropNext := controlLaw now count
    lastcount := count }

/-- The result whose packet is returned is that of the first `dodequeue`. Every turn of the loop
takes out a packet, so one turn for each packet and one more test are enough. -/
def dequeue (now : Nat) (q : CODELPacketQueue) :
    Except Fault (DodequeueResult × CODELPacketQueue) := do
  let (r, q) ← q.dodequeue now
  if q.dropping then
    let q := { q with dropping := r.okToDrop }
    let q ← whileLoop .fuel (dropDue now) (dropTurn controlLaw now) (q.internalQueue.length + 1) q
    return (r, q)
  else if r.okToDrop then
    let (_, q) ← q.dodequeue now
    return (r, q.startDropping controlLaw now)
  else return (r, q)

end

/-- `CODELPacketQueue::enqueue`, which is that of the queue that drops at the tail. -/
def enqueue (q : CODELPacketQueue) (p : QueuedPacket) : Except Fault CODELPacketQueue := do
  return { q with toDroppingPacketQueue := ← q.toDroppingPacketQueue.enqueueTail p }

/-- Whether `dodequeue` allows to drop the packet it takes out. -/
def droppable (now : Nat) (q : CODELPacketQueue) : Bool :=
  match q.internalQueue with
  | [] => false
  | p :: rest =>
      !rest.isEmpty && decide (q.target ≤ u64 (now - p.arrivalTime)) &&
        decide (maxTunPayload < totalBytes rest) && decide (q.firstAboveTime ≠ 0) &&
        decide (q.firstAboveTime ≤ now)

/-- What one `dodequeue` does: it takes the first packet out, and judges it. -/
structure TakesOut (now : Nat) (q : CODELPacketQueue) (r : DodequeueResult)
    (next : CODELPacketQueue) : Prop where
  front : q.internalQueue = r.p :: next.internalQueue
  decision : r.okToDrop = q.droppable now
  serial : r.serial = q.taken.length
  taken : next.taken = q.taken ++ [r]
  limits : next.limits = q.limits
  represents : next.toDroppingPacketQueue.Represents
  dropping : next.dropping = q.dropping
  dropNext : next.dropNext = q.dropNext

variable {q next : CODELPacketQueue} {now : Nat} {r : DodequeueResult}

theorem droppable_rest {p : QueuedPacket} {rest : List QueuedPacket}
    (front : q.internalQueue = p :: rest) (droppable : q.droppable now = true) : rest ≠ [] := by
  unfold CODELPacketQueue.droppable at droppable
  rw [front] at droppable
  intro empty
  simp [empty] at droppable

/-- A packet that is judged droppable leaves another one behind. -/
theorem TakesOut.nonempty (takes : TakesOut now q r next) (ok : r.okToDrop = true) :
    next.internalQueue ≠ [] :=
  droppable_rest takes.front (takes.decision ▸ ok)

/-- A queue that holds a packet gives it out, and no assertion fails. -/
theorem dodequeue_takesOut (represents : q.toDroppingPacketQueue.Represents)
    (filled : q.internalQueue ≠ []) (now : Nat) :
    ∃ r next, q.dodequeue now = .ok (r, next) ∧ TakesOut now q r next := by
  obtain ⟨p, rest, front⟩ := List.exists_cons_of_ne_nil filled
  have popped := represents.dequeue front
  have after := represents.tail front
  have left : (q.popFront p rest).internalQueue = rest := rfl
  have size := after.toCounted.sizeBytes
  rw [left] at size
  have takes : ∀ firstAboveTime okToDrop, okToDrop = q.droppable now →
      TakesOut now q (q.takeOut p (q.popFront p rest) firstAboveTime okToDrop).1
        (q.takeOut p (q.popFront p rest) firstAboveTime okToDrop).2 :=
    fun _ _ decision => ⟨front, decision, rfl, rfl, rfl, after, rfl, rfl⟩
  unfold dodequeue delayLow
  simp only [popped, left, size, bind, Except.bind]
  unfold droppable at takes
  rw [front] at takes
  by_cases empty : rest.isEmpty = true
  · simp only [empty, ↓reduceIte]
    exact ⟨_, _, rfl, takes 0 false (by simp [empty])⟩
  · by_cases early : u64 (now - p.arrivalTime) < q.target
    · simp only [empty, early, ↓reduceIte]
      exact ⟨_, _, rfl, takes 0 false (by simp [early])⟩
    · by_cases few : totalBytes rest ≤ maxTunPayload
      · simp only [empty, early, few, ↓reduceIte]
        exact ⟨_, _, rfl, takes 0 false (by simp [few])⟩
      · simp only [empty, early, few, ↓reduceIte]
        by_cases first : q.firstAboveTime = 0
        · simp only [first, ↓reduceIte]
          exact ⟨_, _, rfl, takes _ false (by simp [first])⟩
        · simp only [first, ↓reduceIte]
          refine ⟨_, _, rfl, takes _ _ ?_⟩
          simp [empty, first, Nat.not_lt.mp early, Nat.not_le.mp few]

/-- What some calls of `dodequeue` do: the packets leave the front of the queue in order, and the
limits hold of what is left. -/
structure Removes (q next : CODELPacketQueue) : Prop where
  removed : ∃ results, next.taken = q.taken ++ results ∧
    q.internalQueue = results.map DodequeueResult.p ++ next.internalQueue ∧
    ∀ r ∈ results, q.taken.length ≤ r.serial
  limits : next.limits = q.limits
  represents : next.toDroppingPacketQueue.Represents

theorem Removes.refl (represents : q.toDroppingPacketQueue.Represents) : Removes q q :=
  ⟨⟨[], by simp⟩, rfl, represents⟩

theorem Removes.trans {a b c : CODELPacketQueue} (ab : Removes a b) (bc : Removes b c) :
    Removes a c := by
  obtain ⟨first, takenFirst, frontFirst, serialFirst⟩ := ab.removed
  obtain ⟨second, takenSecond, frontSecond, serialSecond⟩ := bc.removed
  refine ⟨⟨first ++ second, ?_, ?_, ?_⟩, bc.limits.trans ab.limits, bc.represents⟩
  · rw [takenSecond, takenFirst, List.append_assoc]
  · rw [frontFirst, frontSecond, List.map_append, List.append_assoc]
  · intro r member
    rcases List.mem_append.mp member with old | new
    · exact serialFirst r old
    · have later := serialSecond r new
      rw [takenFirst, List.length_append] at later
      omega

theorem TakesOut.removes (takes : TakesOut now q r next) : Removes q next := by
  refine ⟨⟨[r], takes.taken, takes.front, ?_⟩, takes.limits, takes.represents⟩
  intro other member
  rw [List.mem_singleton.mp member, takes.serial]

variable {controlLaw : Nat → Nat → Nat}

theorem countDrop_frame (controlLaw : Nat → Nat → Nat) (okToDrop : Bool) (q : CODELPacketQueue) :
    (q.countDrop controlLaw okToDrop).toDroppingPacketQueue = q.toDroppingPacketQueue ∧
      (q.countDrop controlLaw okToDrop).taken = q.taken ∧
      (q.countDrop controlLaw okToDrop).dropping = (okToDrop && q.dropping) := by
  cases okToDrop with
  | false => exact ⟨rfl, rfl, rfl⟩
  | true => exact ⟨rfl, rfl, rfl⟩

/-- What holds at the head of the loop of `dequeue`: in a dropping state a packet is left. -/
structure Droppable (q : CODELPacketQueue) : Prop where
  represents : q.toDroppingPacketQueue.Represents
  filled : q.dropping = true → q.internalQueue ≠ []

/-- A turn of the loop takes out a packet, and goes on only if it may be dropped. -/
theorem Droppable.turn (droppable : Droppable q) (due : dropDue now q = .ok true)
    (controlLaw : Nat → Nat → Nat) :
    ∃ r mid, TakesOut now q r mid ∧
      dropTurn controlLaw now q = .ok (mid.countDrop controlLaw r.okToDrop) ∧
      Droppable (mid.countDrop controlLaw r.okToDrop) ∧
      Removes q (mid.countDrop controlLaw r.okToDrop) ∧
      (mid.countDrop controlLaw r.okToDrop).internalQueue.length < q.internalQueue.length := by
  have dropping : q.dropping = true := by
    have test : (decide (q.dropNext ≤ now) && q.dropping) = true := Except.ok.inj due
    rw [Bool.and_eq_true] at test
    exact test.2
  obtain ⟨r, mid, returned, takes⟩ :=
    dodequeue_takesOut droppable.represents (droppable.filled dropping) now
  obtain ⟨base, taken, drops⟩ := countDrop_frame controlLaw r.okToDrop mid
  have removes := takes.removes
  refine ⟨r, mid, takes, ?_, ⟨?_, ?_⟩, ⟨?_, ?_, ?_⟩, ?_⟩
  · simp only [dropTurn, returned, bind, Except.bind]
    rfl
  · rw [base]
    exact takes.represents
  · rw [base, drops, Bool.and_eq_true]
    intro both
    exact takes.nonempty both.1
  · rw [base, taken]
    exact removes.removed
  · rw [base]
    exact removes.limits
  · rw [base]
    exact removes.represents
  · rw [base, takes.front, List.length_cons]
    omega

/-- The loop only takes packets off the front. -/
theorem Droppable.loop {fuel : Nat} (droppable : Droppable q)
    (run : whileLoop .fuel (dropDue now) (dropTurn controlLaw now) fuel q = .ok next) :
    Removes q next := by
  have kept := whileLoop_inv (I := fun other => Droppable other ∧ Removes q other)
    (by
      intro a b before turn
      obtain ⟨r, mid, _, stepped, still, removes, _⟩ := before.1.turn turn.1 controlLaw
      have same := turn.2
      rw [stepped] at same
      rw [← Except.ok.inj same]
      exact ⟨still, before.2.trans removes⟩)
    run ⟨droppable, Removes.refl droppable.represents⟩
  exact kept.1.2

theorem Droppable.ends (droppable : Droppable q) (controlLaw : Nat → Nat → Nat) (now : Nat) :
    ∃ next, whileLoop .fuel (dropDue now) (dropTurn controlLaw now)
      (q.internalQueue.length + 1) q = .ok next := by
  apply whileLoop_returns (I := Droppable) (fun q => q.internalQueue.length)
  · intro q _
    exact ⟨_, rfl⟩
  · intro q kept due
    obtain ⟨r, mid, _, returned, still, _, shorter⟩ := kept.turn due controlLaw
    exact ⟨_, returned, still, shorter⟩
  · exact droppable
  · exact Nat.lt_succ_self _

/-- The loop takes out a packet if a drop is due when it begins. -/
theorem Droppable.takes {fuel : Nat} (droppable : Droppable q)
    (run : whileLoop .fuel (dropDue now) (dropTurn controlLaw now) fuel q = .ok next) :
    next.taken ≠ q.taken ↔ dropDue now q = .ok true := by
  rcases whileLoop_ok_cases run with ⟨stop, rfl⟩ | ⟨left, after, _, turn, rest⟩
  · simp [stop]
  · obtain ⟨r, mid, takes, stepped, still, _, _⟩ := droppable.turn turn.1 controlLaw
    have same := turn.2
    rw [stepped] at same
    rw [← Except.ok.inj same] at rest
    obtain ⟨others, taken, _⟩ := (still.loop rest).removed
    rw [(countDrop_frame controlLaw r.okToDrop mid).2.1, takes.taken] at taken
    rw [taken]
    simp [turn.1]

/-- Whether a call of `dequeue` takes out another packet after the first one: the first one may be
dropped and, in a dropping state, the next drop is due. -/
def takesMore (now : Nat) (q : CODELPacketQueue) : Bool :=
  q.droppable now && (!q.dropping || decide (q.dropNext ≤ now))

/-- What a call of `dequeue` does: it returns the first packet it takes out, and takes out others
behind it, or none. -/
structure Dequeues (now : Nat) (q : CODELPacketQueue) (r : DodequeueResult)
    (next : CODELPacketQueue) : Prop where
  first : ∃ others, next.taken = q.taken ++ r :: others ∧
    q.internalQueue = (r :: others).map DodequeueResult.p ++ next.internalQueue ∧
    (∀ other ∈ others, r.serial < other.serial) ∧ (others ≠ [] ↔ q.takesMore now = true)
  limits : next.limits = q.limits
  represents : next.toDroppingPacketQueue.Represents

/-- The first packet and the ones removed after it. -/
theorem TakesOut.dequeues {mid : CODELPacketQueue} (takes : TakesOut now q r mid)
    (removes : Removes mid next)
    (more : next.taken ≠ mid.taken ↔ q.takesMore now = true) : Dequeues now q r next := by
  obtain ⟨others, taken, front, later⟩ := removes.removed
  refine ⟨⟨others, ?_, ?_, ?_, ?_⟩, removes.limits.trans takes.limits, removes.represents⟩
  · rw [taken, takes.taken, List.append_assoc]
    rfl
  · rw [takes.front, front]
    rfl
  · intro other member
    have behind := later other member
    rw [takes.taken, List.length_append, List.length_singleton] at behind
    rw [takes.serial]
    omega
  · rw [← more, taken]
    simp

/-- A queue that holds a packet returns one, and no assertion fails. -/
theorem dequeue_dequeues (represents : q.toDroppingPacketQueue.Represents)
    (filled : q.internalQueue ≠ []) (controlLaw : Nat → Nat → Nat) (now : Nat) :
    ∃ r next, q.dequeue controlLaw now = .ok (r, next) ∧ Dequeues now q r next := by
  obtain ⟨r, mid, returned, takes⟩ := dodequeue_takesOut represents filled now
  unfold CODELPacketQueue.dequeue
  simp only [returned, bind, Except.bind, takes.dropping]
  cases dropping : q.dropping with
  | true =>
      have droppable : Droppable { mid with dropping := r.okToDrop } :=
        ⟨takes.represents, takes.nonempty⟩
      obtain ⟨next, ran⟩ := droppable.ends controlLaw now
      have removes := droppable.loop ran
      have drops := droppable.takes ran
      refine ⟨r, next, ?_, takes.dequeues ⟨removes.removed, removes.limits, removes.represents⟩ ?_⟩
      · simp only [↓reduceIte, ran]
        rfl
      · rw [drops, dropDue, takesMore, dropping, takes.dropNext, takes.decision]
        simp [and_comm]
  | false =>
      cases ok : r.okToDrop with
      | true =>
          obtain ⟨r', last, again, takes'⟩ :=
            dodequeue_takesOut takes.represents (takes.nonempty ok) now
          have removes := takes'.removes
          refine ⟨r, last.startDropping controlLaw now, ?_,
            takes.dequeues ⟨removes.removed, removes.limits, removes.represents⟩ ?_⟩
          · simp only [again, Bool.false_eq_true, ↓reduceIte]
            rfl
          · have taken : (last.startDropping controlLaw now).taken = mid.taken ++ [r'] :=
              takes'.taken
            rw [taken, takesMore, ← takes.decision, ok, dropping]
            simp
      | false =>
          refine ⟨r, mid, rfl, takes.dequeues (Removes.refl takes.represents) ?_⟩
          rw [takesMore, ← takes.decision, ok]
          simp

/-- The packet returned is the last one taken out, and the others were droppable. -/
def ReturnsLast (q : CODELPacketQueue) (r : DodequeueResult) (next : CODELPacketQueue) : Prop :=
  ∃ dropped, next.taken = q.taken ++ dropped ++ [r] ∧ ∀ d ∈ dropped, d.okToDrop = true

/-- A call returns the last packet it takes out exactly when it takes out only one. The packets
taken out after the first one are lost, whatever was decided about them. -/
theorem returnsLast_iff (represents : q.toDroppingPacketQueue.Represents)
    (filled : q.internalQueue ≠ []) (controlLaw : Nat → Nat → Nat) (now : Nat) :
    (∃ r next, q.dequeue controlLaw now = .ok (r, next) ∧ ReturnsLast q r next) ↔
      q.takesMore now = false := by
  obtain ⟨r, next, returned, dequeues⟩ := dequeue_dequeues represents filled controlLaw now
  obtain ⟨others, taken, _, later, more⟩ := dequeues.first
  rw [← Bool.not_eq_true, ← more, not_not]
  constructor
  · rintro ⟨r', next', returned', dropped, last, _⟩
    rw [returned] at returned'
    have same := Prod.mk.inj (Except.ok.inj returned')
    rw [← same.1, ← same.2, taken, List.append_assoc, List.append_cancel_left_eq] at last
    by_contra some'
    have final : (r :: others).getLast? = some r := by rw [last, List.getLast?_concat]
    rw [List.getLast?_cons_of_ne_nil some'] at final
    have behind := later r (List.mem_of_getLast? final)
    omega
  · intro none
    rw [none] at taken
    exact ⟨r, next, returned, [], by simpa using taken, by simp⟩

/-- A packet of 1400 bytes that arrives at the start. -/
def startPacket : QueuedPacket := .ofContents (List.replicate 1400 0) 0

/-- The law of control that drops a packet every 100 ms. -/
def everyHundred (t _ : Nat) : Nat := t + 100

/-- A limit of 10 packets, and none of bytes. -/
def tenPackets : QueueLimits := ⟨10, 0, by decide, QueueLimits.unset_lt, by decide⟩

/-- A queue of three packets that has had a standing queue since 10 ms. -/
def threeLeft : CODELPacketQueue where
  limits := tenPackets
  internalQueue := [startPacket, startPacket, startPacket]
  queueSizeInBytes := 4200
  queueSizeInPackets := 3
  target := 5
  interval := 100
  firstAboveTime := 110
  taken := [⟨startPacket, false, 0⟩]

theorem threeLeft_represents : threeLeft.toDroppingPacketQueue.Represents :=
  ⟨⟨by decide +kernel, by decide, by decide +kernel, by decide⟩, by decide +kernel⟩

/-- Four packets are put in at the start and one is taken out at 10 ms. At 120 ms the first packet
left may be dropped and the second one, with one packet of 1400 bytes behind it, may not; the second
one is lost, and the first one is returned. -/
theorem not_returnsLast :
    (do
      let q ← new "packets=10, target=5, interval=100".toList
      let q ← [startPacket, startPacket, startPacket, startPacket].foldlM enqueue q
      q.dequeue everyHundred 10) = .ok (⟨startPacket, false, 0⟩, threeLeft) ∧
    ∃ r next, threeLeft.dequeue everyHundred 120 = .ok (r, next) ∧
      ¬ ReturnsLast threeLeft r next := by
  refine ⟨by decide +kernel, ?_⟩
  have observed : (threeLeft.dequeue everyHundred 120).toOption.map (fun result =>
      (result.1.serial, result.2.taken.map (fun r => (r.serial, r.okToDrop)))) =
      some (1, [(0, false), (1, true), (2, false)]) := by decide +kernel
  have ⟨⟨r, next⟩, returned, seen⟩ := observe_ok observed
  have ⟨returnedSerial, taken⟩ := Prod.mk.inj seen
  have serial : r.serial = 1 := returnedSerial
  refine ⟨r, next, returned, ?_⟩
  rintro ⟨dropped, last, _⟩
  rw [last, List.map_append, List.map_singleton] at taken
  have final := congrArg List.getLast? taken
  rw [List.getLast?_concat, serial] at final
  simp at final

/-- At 109 ms the standing queue is not yet one interval old. -/
theorem returnsLast_iff_beforeInterval :
    ∃ r next, threeLeft.dequeue everyHundred 109 = .ok (r, next) ∧ ReturnsLast threeLeft r next :=
  (returnsLast_iff threeLeft_represents (by decide) everyHundred 109).mpr (by decide +kernel)

end CODELPacketQueue

end CellReplay
