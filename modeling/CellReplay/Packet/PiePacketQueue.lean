import CellReplay.Packet.PacketQueue
import Mathlib.Data.Rat.Init
import Mathlib.Algebra.Order.Field.Rat

set_option autoImplicit false

namespace CellReplay

open MachineWord FueledLoop

/-- `DQ_COUNT_INVALID`. -/
def dqCountInvalid : Nat := 2 ^ 32 - 1

/-- The Proportional Integral controller Enhanced queue. `dropProb` is exact, `lastUpdate` is a
`uint64_t` and the other numbers are `uint32_t`. The last field counts the random numbers used. -/
structure PIEPacketQueue extends DroppingPacketQueue where
  qdelayRef : Nat
  maxBurst : Nat
  dropProb : ℚ := 0
  burstAllowance : Nat := 0
  qdelayOld : Nat := 0
  currentQdelay : Nat := 0
  dqCount : Nat := dqCountInvalid
  dqTstamp : Nat := 0
  avgDqRate : Nat := 0
  lastUpdate : Nat
  drawn : Nat := 0
  deriving DecidableEq

namespace PIEPacketQueue

/-- The constructor, at its clock reading. -/
def new (args : Text) (timestamp : Nat) : Except Fault PIEPacketQueue := do
  let base ← DroppingPacketQueue.new args
  let qdelayRef ← DroppingPacketQueue.getArg args "qdelay_ref".toList
  let maxBurst ← DroppingPacketQueue.getArg args "max_burst".toList
  if qdelayRef = 0 ∨ maxBurst = 0 then
    .error (.runtimeError "PIE AQM queue must have qdelay_ref and max_burst parameters")
  else .ok { base with qdelayRef := qdelayRef, maxBurst := maxBurst, lastUpdate := timestamp }

/-- `alpha_`, `beta_`, `t_update_` in milliseconds, `dq_threshold_` in bytes, `PACKET_SIZE`. -/
def alpha : ℚ := 1 / 8
def beta : ℚ := 5 / 4
def tUpdate : Nat := 30
def dqThreshold : Nat := 16384
def maxTunPayload : Nat := 1504

/-- The test of the loop of `calculate_drop_prob`: a period was missed. -/
def periodMissed (now : Nat) (q : PIEPacketQueue) : Except Fault Bool :=
  .ok (decide (tUpdate < u64 (now - q.lastUpdate)))

/-- The change of the drop probability, scaled down while that is small. -/
def probabilityStep (currentQdelay qdelayOld : Nat) (q : PIEPacketQueue) : ℚ :=
  let p := alpha * i32 (currentQdelay - q.qdelayRef) + beta * i32 (currentQdelay - qdelayOld)
  if q.dropProb < 1 / 100 then p / 128
  else if q.dropProb < 1 / 10 then p / 32
  else p / 16

/-- Keep the drop probability between 0 and 1, and let it decay while there is no delay. -/
def boundProbability (raised : ℚ) (noDelay updateProb : Bool) : ℚ :=
  let dropProb := if raised < 0 then 0 else if 1 < raised then 1 else raised
  if noDelay && updateProb && !decide (1 < raised) then dropProb * (98 / 100) else dropProb

/-- The end of a turn: when the link is idle again, a burst is allowed. -/
def allowBurst (q : PIEPacketQueue) : PIEPacketQueue :=
  if q.dropProb = 0 ∧ q.currentQdelay < q.qdelayRef / 2 ∧ q.qdelayOld < q.qdelayRef / 2 ∧
      0 < q.avgDqRate then
    { q with dqCount := dqCountInvalid, avgDqRate := 0, burstAllowance := q.maxBurst }
  else q

/-- A turn of the loop of `calculate_drop_prob`: the update of one period. -/
def updatePeriod (q : PIEPacketQueue) : Except Fault PIEPacketQueue := do
  let bytes ← q.sizeBytes
  let qdelayOld := q.currentQdelay
  let currentQdelay := if 0 < q.avgDqRate then bytes / q.avgDqRate else 0
  let updateProb := !(currentQdelay == 0 && bytes != 0)
  let raised := q.dropProb + q.probabilityStep currentQdelay qdelayOld
  return allowBurst
    { q with
      qdelayOld := qdelayOld
      currentQdelay := currentQdelay
      dropProb := boundProbability raised (currentQdelay == 0 && qdelayOld == 0) updateProb
      burstAllowance := (i32 q.burstAllowance - tUpdate).toNat
      lastUpdate := u64 (q.lastUpdate + tUpdate) }

/-- `calculate_drop_prob` at its clock reading. A period takes a millisecond at least, so one turn
for each of them and one more test are enough. -/
def calculateDropProb (now : Nat) (q : PIEPacketQueue) : Except Fault PIEPacketQueue :=
  whileLoop .fuel (periodMissed now) updatePeriod (u64 (now - q.lastUpdate) + 1) q

/-- Whether a packet should be dropped, for the random numbers drawn. -/
def dropEarly (draw : Nat → ℚ) (q : PIEPacketQueue) : Except Fault (Bool × PIEPacketQueue) :=
  if 0 < q.burstAllowance then .ok (false, q)
  else if q.qdelayOld < q.qdelayRef / 2 ∧ q.dropProb < 1 / 5 then .ok (false, q)
  else do
    if (← q.sizeBytes) < 2 * maxTunPayload then return (false, q)
    else return (decide (draw q.drawn < q.dropProb), { q with drawn := q.drawn + 1 })

/-- What `enqueue` does once the drop probability is up to date. -/
def offer (draw : Nat → ℚ) (p : QueuedPacket) (q : PIEPacketQueue) :
    Except Fault PIEPacketQueue := do
  let bytes ← q.sizeBytes
  let packets ← q.sizePackets
  if q.goodWith (u32 (bytes + p.contents.length)) (u32 (packets + 1)) then
    let (dropped, q) ← q.dropEarly draw
    let q := if dropped then q
      else { q with toDroppingPacketQueue := q.toDroppingPacketQueue.accept p }
    check "good()" (← q.good)
    return q
  else return q

def enqueue (draw : Nat → ℚ) (now : Nat) (p : QueuedPacket) (q : PIEPacketQueue) :
    Except Fault PIEPacketQueue := do
  let q ← q.calculateDropProb now
  q.offer draw p

/-- A sample of the rate at which packets leave, and a new measurement if enough are left. -/
def sampleRate (now dtime bytes : Nat) (q : PIEPacketQueue) : PIEPacketQueue :=
  let rateSample := q.dqCount / dtime
  { q with
    avgDqRate := if q.avgDqRate = 0 then rateSample
      else u32 (u32 (q.avgDqRate - q.avgDqRate / 8) + rateSample / 8)
    dqCount := if bytes < dqThreshold then dqCountInvalid else 0
    dqTstamp := if bytes < dqThreshold then q.dqTstamp else now
    burstAllowance := if dtime < q.burstAllowance then q.burstAllowance - dtime else 0 }

/-- What `dequeue` measures when a packet has left, at a clock reading cut to 32 bits. -/
def measureRate (now size : Nat) (q : PIEPacketQueue) : Except Fault PIEPacketQueue := do
  let bytes ← q.sizeBytes
  let q := if dqThreshold ≤ bytes ∧ q.dqCount = dqCountInvalid then
      { q with dqTstamp := now, dqCount := 0 }
    else q
  if q.dqCount = dqCountInvalid then return q
  else
    let q := { q with dqCount := u32 (q.dqCount + size) }
    let dtime := u32 (now - q.dqTstamp)
    if dqThreshold < q.dqCount ∧ 0 < dtime then return q.sampleRate now dtime bytes
    else return q

/-- `dequeue`, with its own clock reading and that of `calculate_drop_prob`. -/
def dequeue (now later : Nat) (q : PIEPacketQueue) :
    Except Fault (QueuedPacket × PIEPacketQueue) := do
  let (ret, rest) ← q.toDroppingPacketQueue.dequeue
  let q ← { q with toDroppingPacketQueue := rest }.measureRate (u32 now) ret.contents.length
  let q ← q.calculateDropProb later
  return (ret, q)

theorem periodMissed_eq {now : Nat} {q : PIEPacketQueue} (started : q.lastUpdate ≤ now)
    (word : now < 2 ^ 64) : periodMissed now q = .ok (decide (q.lastUpdate + tUpdate < now)) := by
  have exactly := toUnsigned_of_range 64 ((now : Int) - q.lastUpdate) (by omega) (by omega)
  have same : tUpdate < u64 ((now : Int) - q.lastUpdate) ↔ q.lastUpdate + tUpdate < now := by
    unfold u64
    omega
  unfold periodMissed
  simp only [same]

theorem allowBurst_lastUpdate (q : PIEPacketQueue) : q.allowBurst.lastUpdate = q.lastUpdate := by
  unfold allowBurst
  split
  · rfl
  · rfl

/-- A turn fails by the assertion on the size of the queue, or moves on by one period. -/
theorem updatePeriod_cases (q : PIEPacketQueue) :
    (∃ e, q.updatePeriod = .error e ∧ e ≠ .fuel) ∨
      ∃ next, q.updatePeriod = .ok next ∧ next.lastUpdate = u64 (q.lastUpdate + tUpdate) := by
  unfold updatePeriod
  cases size : q.sizeBytes with
  | error e =>
      refine Or.inl ⟨e, rfl, ?_⟩
      intro same
      unfold DroppingPacketQueue.sizeBytes check at size
      rw [same] at size
      split at size
      · cases size
      · cases size
  | ok bytes => exact Or.inr ⟨_, rfl, allowBurst_lastUpdate _⟩

/-- After a missed period the update is at most the clock reading. -/
theorem updatePeriod_due {now : Nat} {q next : PIEPacketQueue} (word : now < 2 ^ 64)
    (due : q.lastUpdate + tUpdate < now) (run : q.updatePeriod = .ok next) :
    next.lastUpdate = q.lastUpdate + tUpdate := by
  rcases q.updatePeriod_cases with ⟨e, failed, _⟩ | ⟨other, returned, moved⟩
  · rw [run] at failed
    cases failed
  · rw [run] at returned
    rw [Except.ok.inj returned, moved]
    exact_mod_cast toUnsigned_natCast 64 (q.lastUpdate + tUpdate) (by omega)

/-- What keeps the loop going down: the last update is not ahead of the clock. -/
theorem updatePeriod_lowers {now : Nat} (word : now < 2 ^ 64) (q : PIEPacketQueue)
    (started : q.lastUpdate ≤ now) (missed : periodMissed now q = .ok true) :
    (∃ e, q.updatePeriod = .error e ∧ e ≠ Fault.fuel) ∨
      ∃ next, q.updatePeriod = .ok next ∧ next.lastUpdate ≤ now ∧
        now - next.lastUpdate < now - q.lastUpdate := by
  rw [periodMissed_eq started word] at missed
  have due : q.lastUpdate + tUpdate < now := of_decide_eq_true (Except.ok.inj missed)
  rcases q.updatePeriod_cases with failed | ⟨next, run, _⟩
  · exact Or.inl failed
  · have moved := updatePeriod_due word due run
    have positive : 0 < tUpdate := by decide
    exact Or.inr ⟨next, run, by omega, by omega⟩

/-- Without a missed period nothing is updated. -/
theorem calculateDropProb_current {now : Nat} {q : PIEPacketQueue} (started : q.lastUpdate ≤ now)
    (word : now < 2 ^ 64) (current : now ≤ q.lastUpdate + tUpdate) :
    q.calculateDropProb now = .ok q := by
  apply whileLoop_exit
  rw [periodMissed_eq started word]
  simpa using current

/-- A missed period is updated first. -/
theorem calculateDropProb_missed {now : Nat} {q : PIEPacketQueue} (started : q.lastUpdate ≤ now)
    (word : now < 2 ^ 64) (missed : q.lastUpdate + tUpdate < now) :
    q.calculateDropProb now = q.updatePeriod >>= calculateDropProb now := by
  have test : periodMissed now q = .ok true := by
    rw [periodMissed_eq started word, decide_eq_true missed]
  unfold calculateDropProb
  rw [whileLoop, test]
  simp only
  cases run : q.updatePeriod with
  | error e => rfl
  | ok next =>
      have moved := updatePeriod_due word missed run
      have before := toUnsigned_of_range 64 ((now : Int) - q.lastUpdate) (by omega) (by omega)
      have after := toUnsigned_of_range 64 ((now : Int) - next.lastUpdate) (by omega) (by omega)
      have positive : 0 < tUpdate := by decide
      refine whileLoop_enough (I := fun q => q.lastUpdate ≤ now) (fun q => now - q.lastUpdate)
        ?_ (updatePeriod_lowers word) (by omega) ?_ ?_
      · intro s _
        exact ⟨_, rfl⟩
      · show now - next.lastUpdate < toUnsigned 64 ((now : Int) - next.lastUpdate) + 1
        omega
      · show toUnsigned 64 ((now : Int) - next.lastUpdate) + 1 ≤
          toUnsigned 64 ((now : Int) - q.lastUpdate)
        omega

/-- An update leaves the last update between the one before and the clock. -/
theorem calculateDropProb_lastUpdate {now : Nat} {q next : PIEPacketQueue}
    (started : q.lastUpdate ≤ now) (word : now < 2 ^ 64)
    (run : q.calculateDropProb now = .ok next) : next.lastUpdate ≤ now := by
  have kept := whileLoop_inv (I := fun q : PIEPacketQueue => q.lastUpdate ≤ now)
    (by
      intro a b before turn
      rcases updatePeriod_lowers word a before turn.1 with ⟨e, failed, _⟩ | ⟨other, step, later, _⟩
      · rw [turn.2] at failed
        cases failed
      · rw [turn.2] at step
        rw [Except.ok.inj step]
        exact later)
    run started
  exact kept.1

/-- Updating up to one reading and then up to a later one is updating up to the later one, failures
included. -/
theorem calculateDropProb_twice {a b : Nat} {q : PIEPacketQueue} (started : q.lastUpdate ≤ a)
    (ordered : a ≤ b) (word : b < 2 ^ 64) :
    (q.calculateDropProb a >>= calculateDropProb b) = q.calculateDropProb b := by
  induction left : a - q.lastUpdate using Nat.strongRecOn generalizing q with
  | ind left ih =>
      by_cases missed : q.lastUpdate + tUpdate < a
      · rw [calculateDropProb_missed started (by omega) missed,
          calculateDropProb_missed (by omega) word (by omega), bind_assoc]
        cases run : q.updatePeriod with
        | error e => rfl
        | ok next =>
            have moved := updatePeriod_due (show a < 2 ^ 64 by omega) missed run
            have positive : 0 < tUpdate := by decide
            exact ih (a - next.lastUpdate) (by omega) (by omega) rfl
      · rw [calculateDropProb_current started (by omega) (by omega)]
        rfl

theorem dropEarly_lastUpdate {draw : Nat → ℚ} {q next : PIEPacketQueue} {dropped : Bool}
    (run : q.dropEarly draw = .ok (dropped, next)) : next.lastUpdate = q.lastUpdate := by
  unfold dropEarly at run
  split at run
  · cases run
    rfl
  · split at run
    · cases run
      rfl
    · obtain ⟨bytes, _, run⟩ := bind_eq_ok.mp run
      split at run
      · cases run
        rfl
      · cases run
        rfl

theorem offer_lastUpdate {draw : Nat → ℚ} {p : QueuedPacket} {q next : PIEPacketQueue}
    (run : q.offer draw p = .ok next) : next.lastUpdate = q.lastUpdate := by
  obtain ⟨bytes, _, run⟩ := bind_eq_ok.mp run
  obtain ⟨packets, _, run⟩ := bind_eq_ok.mp run
  split at run
  · obtain ⟨⟨dropped, drawn⟩, early, run⟩ := bind_eq_ok.mp run
    obtain ⟨good, _, run⟩ := bind_eq_ok.mp run
    obtain ⟨_, _, same⟩ := bind_eq_ok.mp run
    rw [← dropEarly_lastUpdate early, ← Except.ok.inj same]
    cases dropped with
    | true => rfl
    | false => rfl
  · rw [← Except.ok.inj run]

theorem measureRate_lastUpdate {now size : Nat} {q next : PIEPacketQueue}
    (run : q.measureRate now size = .ok next) : next.lastUpdate = q.lastUpdate := by
  obtain ⟨bytes, _, run⟩ := bind_eq_ok.mp run
  extract_lets started at run
  have same : started.lastUpdate = q.lastUpdate := by
    unfold started
    split
    · rfl
    · rfl
  rw [← same]
  split at run
  · rw [← Except.ok.inj run]
  · split at run
    · rw [← Except.ok.inj run]
      rfl
    · rw [← Except.ok.inj run]

end PIEPacketQueue

/-- A queue with the packets it gave out. -/
structure PIEHistory where
  queue : PIEPacketQueue
  departed : List QueuedPacket
  deriving DecidableEq

/-- The calls of `enqueue` and `dequeue`, with their clock readings, and further ones of
`calculate_drop_prob`. -/
inductive PIEEvent where
  | enqueue (now : Nat) (p : QueuedPacket)
  | dequeue (now later : Nat)
  | update (now : Nat)

namespace PIEEvent

def exec (draw : Nat → ℚ) (s : PIEHistory) : PIEEvent → Except Fault PIEHistory
  | enqueue now p => do return { s with queue := ← s.queue.enqueue draw now p }
  | dequeue now later => do
      let (ret, queue) ← s.queue.dequeue now later
      return ⟨queue, s.departed ++ [ret]⟩
  | update now => do return { s with queue := ← s.queue.calculateDropProb now }

/-- One event after the other. -/
def execAll (draw : Nat → ℚ) (events : List PIEEvent) (s : PIEHistory) : Except Fault PIEHistory :=
  events.foldlM (fun s e => e.exec draw s) s

/-- Whether an event is a call that the emulator makes. -/
def isCall : PIEEvent → Bool
  | update _ => false
  | _ => true

/-- The first and the last clock reading. -/
def first : PIEEvent → Nat
  | enqueue now _ | dequeue now _ | update now => now

def last : PIEEvent → Nat
  | enqueue now _ | update now => now
  | dequeue _ later => later

/-- The readings of the clock are nondecreasing from `t` on, and words of 64 bits. -/
def Timed : Nat → List PIEEvent → Prop
  | t, [] => t < 2 ^ 64
  | t, e :: events => t ≤ e.first ∧ e.first ≤ e.last ∧ Timed e.last events

instance decidableTimed : ∀ (t : Nat) (events : List PIEEvent), Decidable (Timed t events)
  | t, [] => inferInstanceAs (Decidable (t < 2 ^ 64))
  | t, e :: events =>
      have := decidableTimed e.last events
      inferInstanceAs (Decidable (t ≤ e.first ∧ e.first ≤ e.last ∧ Timed e.last events))

/-- A packet is taken out before the period in which it left is over. -/
def prompt (q : PIEPacketQueue) : PIEEvent → Bool
  | dequeue _ later => later ≤ q.lastUpdate + PIEPacketQueue.tUpdate
  | _ => true

/-- Every packet of a run is. -/
def promptAll (draw : Nat → ℚ) : List PIEEvent → PIEHistory → Bool
  | [], _ => true
  | e :: events, s => e.prompt s.queue &&
      match e.exec draw s with
      | .error _ => true
      | .ok next => promptAll draw events next

variable {draw : Nat → ℚ} {s next : PIEHistory}

theorem Timed.word {t : Nat} {events : List PIEEvent} (timed : Timed t events) : t < 2 ^ 64 := by
  induction events generalizing t with
  | nil => exact timed
  | cons e events ih =>
      obtain ⟨first, last, rest⟩ := timed
      have word := ih rest
      omega

/-- No event leaves the last update ahead of the clock. -/
theorem exec_lastUpdate {e : PIEEvent} (started : s.queue.lastUpdate ≤ e.first)
    (ordered : e.first ≤ e.last) (word : e.last < 2 ^ 64) (run : e.exec draw s = .ok next) :
    next.queue.lastUpdate ≤ e.last := by
  cases e with
  | enqueue now p =>
      obtain ⟨queue, enqueued, same⟩ := bind_eq_ok.mp run
      obtain ⟨updated, update, offered⟩ := bind_eq_ok.mp enqueued
      have before := PIEPacketQueue.calculateDropProb_lastUpdate started word update
      rw [← Except.ok.inj same]
      exact (PIEPacketQueue.offer_lastUpdate offered).trans_le before
  | dequeue now later =>
      obtain ⟨⟨ret, queue⟩, dequeued, same⟩ := bind_eq_ok.mp run
      obtain ⟨⟨packet, rest⟩, _, dequeued⟩ := bind_eq_ok.mp dequeued
      obtain ⟨measured, measure, dequeued⟩ := bind_eq_ok.mp dequeued
      obtain ⟨updated, update, result⟩ := bind_eq_ok.mp dequeued
      have before := PIEPacketQueue.measureRate_lastUpdate measure
      have current : measured.lastUpdate ≤ later := by
        rw [before]
        exact Nat.le_trans started ordered
      have after := PIEPacketQueue.calculateDropProb_lastUpdate current word update
      have left : updated = queue := congrArg Prod.snd (Except.ok.inj result)
      rw [← Except.ok.inj same, ← left]
      exact after
  | update now =>
      obtain ⟨queue, updated, same⟩ := bind_eq_ok.mp run
      rw [← Except.ok.inj same]
      exact PIEPacketQueue.calculateDropProb_lastUpdate started word updated

/-- An update followed by an event that would make it, or by one that finds nothing to update, is
not observed. -/
theorem exec_update {a : Nat} {e : PIEEvent} (started : s.queue.lastUpdate ≤ a)
    (ordered : a ≤ e.first) (later : e.first ≤ e.last) (word : e.last < 2 ^ 64)
    (prompt : e.prompt s.queue = true) :
    ((update a).exec draw s >>= fun s => e.exec draw s) = e.exec draw s := by
  have twice : ∀ b, a ≤ b → b < 2 ^ 64 →
      (s.queue.calculateDropProb a >>= PIEPacketQueue.calculateDropProb b) =
        s.queue.calculateDropProb b :=
    fun b ordered word => PIEPacketQueue.calculateDropProb_twice started ordered word
  cases e with
  | enqueue now p =>
      simp only [exec, PIEPacketQueue.enqueue, bind_assoc, pure_bind]
      rw [← twice now ordered word, bind_assoc]
  | dequeue now late =>
      have current : late ≤ s.queue.lastUpdate + PIEPacketQueue.tUpdate :=
        of_decide_eq_true prompt
      have ends : a ≤ late := Nat.le_trans ordered later
      have word : late < 2 ^ 64 := word
      have none : s.queue.calculateDropProb a = .ok s.queue :=
        PIEPacketQueue.calculateDropProb_current started (by omega) (by omega)
      simp only [exec, none]
      rfl
  | update now =>
      simp only [exec, bind_assoc, pure_bind]
      rw [← twice now ordered word, bind_assoc]

/-- The events that are not further updates. -/
def calls (events : List PIEEvent) : List PIEEvent := events.filter isCall

theorem execAll_cons (draw : Nat → ℚ) (e : PIEEvent) (events : List PIEEvent) (s : PIEHistory) :
    execAll draw (e :: events) s = e.exec draw s >>= execAll draw events := by
  rw [execAll, List.foldlM_cons]
  rfl

/-- A run whose calls are prompt begins with a prompt event. -/
theorem prompt_of_calls {e : PIEEvent} {events : List PIEEvent}
    (prompts : promptAll draw (calls (e :: events)) s = true) : e.prompt s.queue = true := by
  cases e with
  | enqueue now p => rfl
  | dequeue now later =>
      unfold calls at prompts
      rw [List.filter_cons_of_pos rfl, promptAll, Bool.and_eq_true] at prompts
      exact prompts.1
  | update now => rfl

/-- A further update before some events is not observed after them. -/
theorem execAll_update {a : Nat} {events : List PIEEvent} (nonempty : events ≠ [])
    (started : s.queue.lastUpdate ≤ a) (timed : Timed a events)
    (prompts : promptAll draw (calls events) s = true) :
    execAll draw (update a :: events) s = execAll draw events s := by
  obtain ⟨e, events, rfl⟩ := List.exists_cons_of_ne_nil nonempty
  obtain ⟨first, last, rest⟩ := timed
  have absorbed : ((update a).exec draw s >>= fun s => e.exec draw s) = e.exec draw s :=
    exec_update started first last rest.word (prompt_of_calls prompts)
  have behind : execAll draw (e :: events) =
      fun s => e.exec draw s >>= execAll draw events :=
    funext (execAll_cons draw e events)
  calc execAll draw (update a :: e :: events) s
      = (update a).exec draw s >>= fun s => e.exec draw s >>= execAll draw events := by
        rw [execAll_cons, behind]
    _ = ((update a).exec draw s >>= fun s => e.exec draw s) >>= execAll draw events :=
        (bind_assoc _ _ _).symm
    _ = execAll draw (e :: events) s := by rw [absorbed, behind]

end PIEEvent

open PIEEvent

/-- In a run in which every packet is taken out before the period in which it left is over, further
updates at any times are not observed after the next call, whether that returns or fails: the state
of the queue, the random numbers drawn and the packets given out are the same. -/
theorem updates_unobservable (draw : Nat → ℚ) {s : PIEHistory} {t : Nat} {events : List PIEEvent}
    {call : PIEEvent} (isCall : call.isCall = true) (started : s.queue.lastUpdate ≤ t)
    (timed : Timed t (events ++ [call]))
    (prompts : promptAll draw (calls (events ++ [call])) s = true) :
    execAll draw (events ++ [call]) s = execAll draw (calls (events ++ [call])) s := by
  induction events generalizing s t with
  | nil =>
      unfold calls
      rw [List.nil_append, List.filter_cons_of_pos isCall, List.filter_nil]
  | cons e events ih =>
      obtain ⟨first, last, rest⟩ := timed
      cases kind : e.isCall with
      | true =>
          have shape : calls (e :: events ++ [call]) = e :: calls (events ++ [call]) :=
            List.filter_cons_of_pos kind
          rw [shape, promptAll, Bool.and_eq_true] at prompts
          rw [shape, execAll_cons, List.cons_append, execAll_cons]
          cases run : e.exec draw s with
          | error fault => rfl
          | ok next =>
              rw [run] at prompts
              have after := exec_lastUpdate (Nat.le_trans started first) last rest.word run
              exact ih after rest prompts.2
      | false =>
          have shape : calls (e :: events ++ [call]) = calls (events ++ [call]) :=
            List.filter_cons_of_neg (by simp [kind])
          rw [shape] at prompts ⊢
          cases e with
          | update a =>
              have before : s.queue.lastUpdate ≤ a := Nat.le_trans started first
              have rest : Timed a (events ++ [call]) := rest
              rw [List.cons_append, execAll_update (by simp) before rest prompts]
              exact ih before rest prompts
          | enqueue now p => cases kind
          | dequeue now later => cases kind

/-- A queue of at most 100 packets, built at the start. -/
def hundredPackets : PIEPacketQueue :=
  { limits := ⟨100, 0, by decide, QueueLimits.unset_lt, Or.inl (by decide)⟩
    qdelayRef := 20
    maxBurst := 100
    lastUpdate := 0 }

/-- A packet of 1400 bytes that arrives at the start. -/
def fullAtStart : QueuedPacket := QueuedPacket.ofContents (List.replicate 1400 0) 0

/-- 25 packets arrive, and 12 leave between 1 and 17 ms, at 1050 bytes for each millisecond. -/
def rateMeasured : List PIEEvent :=
  List.replicate 25 (.enqueue 0 fullAtStart) ++ .dequeue 1 1 :: List.replicate 10 (.dequeue 2 2) ++
    [.dequeue 17 17]

/-- The delay of the period missed when a packet leaves at 50 ms is 17 ms for the 18200 bytes held
in it, but the loop comes to 16 ms for the 16800 bytes that are left. -/
theorem not_updates_unobservable :
    let delay := fun s : PIEHistory => s.queue.currentQdelay
    let events := rateMeasured ++ [.update 49, .dequeue 50 50]
    PIEPacketQueue.new "packets=100, qdelay_ref=20, max_burst=100".toList 0 = .ok hundredPackets ∧
      Timed 0 events ∧
      (execAll (fun _ => 0) events ⟨hundredPackets, []⟩).toOption.map delay = some 17 ∧
      (execAll (fun _ => 0) (calls events) ⟨hundredPackets, []⟩).toOption.map delay = some 16 := by
  decide +kernel

/-- Updates around a packet that leaves at 30 ms and before one that arrives at 100 ms. -/
def furtherUpdates : List PIEEvent :=
  rateMeasured ++ [.update 29, .dequeue 30 30, .update 40, .update 70]

/-- The three periods missed at 100 ms are those of a queue of 16800 bytes in either run. -/
theorem updates_unobservable_furtherUpdates :
    let seen := fun s : PIEHistory => (s.queue.currentQdelay, s.queue.dropProb, s.queue.lastUpdate)
    let events := furtherUpdates ++ [.enqueue 100 fullAtStart]
    (execAll (fun _ => 0) (calls events) ⟨hundredPackets, []⟩).toOption.map seen =
        some (16, 23 / 256, 90) ∧
      execAll (fun _ => 0) events ⟨hundredPackets, []⟩ =
        execAll (fun _ => 0) (calls events) ⟨hundredPackets, []⟩ := by
  intro seen events
  have started : (PIEHistory.mk hundredPackets []).queue.lastUpdate ≤ 0 := Nat.le_refl 0
  exact ⟨by decide +kernel, updates_unobservable (fun _ => 0) rfl started (by decide +kernel)
    (by decide +kernel)⟩

end CellReplay
