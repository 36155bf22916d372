import CellReplay.Frontend.SlotSafety

set_option autoImplicit false

namespace CellReplay

open MachineWord FueledLoop Transition CellularQueue LightPdo

variable {cfg : Config}

/-- Where the search for an instance ends at a relative time: before the next row, and at a row
reached or at the first one. -/
structure PacketTrainTrace.FoundAt (trace : PacketTrainTrace) (x i : Nat) : Prop where
  inside : i + 1 < trace.instances.length
  reached : i = 0 ∨ trace.time i ≤ x
  before : x < trace.time (i + 1)

/-- The base delay of an instance that starts at a relative time. -/
def Config.GivesAt (cfg : Config) (x : Nat) (delay : Int) : Prop :=
  ∃ (i : Nat) (row next : DelayPDOInstance), cfg.delayPdoTraces.FoundAt x i ∧
    cfg.delayPdoTraces.row i = .ok row ∧ cfg.delayPdoTraces.row (i + 1) = .ok next ∧
    cfg.interpolate x row next = .ok delay

/-- A base delay that instances of the trace can have. -/
def Config.Gives (cfg : Config) (delay : Int) : Prop := ∃ x, cfg.GivesAt x delay

/-- A base delay is an `int`. -/
def Config.Ints (cfg : Config) : Prop :=
  ∀ x a b delay, cfg.interpolate x a b = .ok delay → -2 ^ 31 ≤ delay ∧ delay < 2 ^ 31

/-- The slot that a packet past the last one is released by. -/
def DelayPDOInstance.backSlot (row : DelayPDOInstance) : Except Fault Int :=
  row.slot (u32 (row.pdo.length - 1))

namespace LightPdo

/-- An `int` is kept as it is in `current_base_delay_`. -/
theorem narrow_delay {delay : Int} (range : -2 ^ 31 ≤ delay ∧ delay < 2 ^ 31) :
    i32 (u64 delay) = delay := by
  rw [i32, u64, toSigned_toUnsigned (by decide)]
  exact toSigned_of_range 32 delay (by decide) (by omega) (by omega)

section
variable {fuel time size r T : Nat} {s s' : LightPdo} (clock : time < 2 ^ 63) (ints : cfg.Ints)
include clock ints

/-- The packet that starts an instance is released when the base delay has passed. -/
theorem startInstance_release
    (cursor : Cursor cfg.delayPdoTraces T time s.currentDelayPdoIdx s.delayBaseTimestamp)
    (run : startInstance fuel cfg time size s = .ok (r, s')) :
    cfg.GivesAt ((time - T) % cfg.delayPdoTraces.last) s'.currentBaseDelay ∧
      r = u64 (time + s'.currentBaseDelay) := by
  obtain ⟨found, row, next, delay, search, current, following, interpolated, release, state⟩ :=
    startInstance_cases run
  obtain ⟨kept, -, remainder, before⟩ :=
    searchInstance_found (by omega) (searching_start cursor) search
  have relative := kept.relative.trans (relative_exact clock kept.cursor.started)
  have base : s'.currentBaseDelay = delay := by
    rw [state, beginInstance_currentBaseDelay, narrow_delay (ints _ _ _ _ interpolated)]
  have reached := kept.cursor.reached
  rw [relative, remainder] at interpolated
  rw [remainder] at reached
  rw [base]
  refine ⟨⟨_, row, next, ⟨kept.cursor.inside, reached, before⟩, current, following,
    interpolated⟩, ?_⟩
  · rw [release, Int.add_comm, u64, u64, toUnsigned_add, Int.add_comm]

end

section
variable {row : DelayPDOInstance} {time r : Nat} {elapsed : Int} {s : LightPdo} {bypass : Bool}

/-- Past the last slot, a packet is released by the later of the base delay and that slot. -/
theorem releaseOnSlot_past (past : s.currentPdoSize ≤ s.currentPdoIdx)
    (sized : s.currentPdoSize = row.pdo.length)
    (run : releaseOnSlot row elapsed time s = .ok (r, bypass)) :
    ∃ back, row.backSlot = .ok back ∧
      r = max (u64 (time + s.currentBaseDelay)) (u64 (time + back)) := by
  unfold releaseOnSlot at run
  rw [if_pos past, sized] at run
  obtain ⟨back, looked, released⟩ := bind_eq_ok.mp run
  exact ⟨back, looked, (Prod.mk.inj (Except.ok.inj released)).1.symm⟩

/-- What the release time of a packet is at least, and at most: it is behind the clock readings of
this model only if the slot read past the last one is as far before zero as the clock is after. -/
structure ReleasedAt (row : DelayPDOInstance) (time : Nat) (delay : Int) (r : Nat) : Prop where
  floor : time + delay ≤ r
  ceiling : (r : Int) < 2 ^ 63 + 2 ^ 33 ∨
    ∃ back, row.backSlot = .ok back ∧ time + back < 0 ∧ (r : Int) = 2 ^ 64 + (time + back)

theorem releaseOnSlot_releasedAt {start : Nat} (started : start ≤ time) (clock : time < 2 ^ 63)
    (range : ∀ slot ∈ row.pdo, -2 ^ 31 ≤ slot ∧ slot < 2 ^ 31)
    (sized : s.currentPdoSize = row.pdo.length)
    (delayed : 0 ≤ s.currentBaseDelay) (small : s.currentBaseDelay < 2 ^ 31)
    (run : releaseOnSlot row ((time : Int) - start) time s = .ok (r, bypass)) :
    ReleasedAt row time s.currentBaseDelay r := by
  have soon : (u64 ((time : Int) + s.currentBaseDelay) : Int) = time + s.currentBaseDelay :=
    toUnsigned_of_range 64 _ (by omega) (by omega)
  rcases releaseOnSlot_cases run with ⟨past, _⟩ | ⟨_, _, slot, looked, due, release⟩
  · obtain ⟨back, read, release⟩ := releaseOnSlot_past past sized run
    have bounds := range back (List.mem_of_getElem? (slot_eq_ok.mp read))
    by_cases early : (time : Int) + back < 0
    · have wraps : (u64 ((time : Int) + back) : Int) = 2 ^ 64 + (time + back) := by
        have same : u64 ((time : Int) + back) = u64 (2 ^ 64 + ((time : Int) + back)) := by
          unfold u64 toUnsigned
          rw [Int.add_emod_left]
        rw [same]
        exact toUnsigned_of_range 64 _ (by omega) (by omega)
      constructor
      · omega
      · exact Or.inr ⟨back, read, early, by omega⟩
    · have late : (u64 ((time : Int) + back) : Int) = time + back :=
        toUnsigned_of_range 64 _ (by omega) (by omega)
      constructor
      · omega
      · left
        omega
  · have bounds := range slot (List.mem_of_getElem? looked)
    have word : (u64 ((time : Int) + s.currentBaseDelay + (slot - ((time : Int) - start))) : Int) =
        time + s.currentBaseDelay + (slot - ((time : Int) - start)) :=
      toUnsigned_of_range 64 _ (by omega) (by omega)
    rw [← release] at word
    constructor
    · omega
    · left
      omega

end

end LightPdo

/-- An instance in use, up to the clock reading `t`, is located, and its base delay is one that the
trace gives. -/
structure Delayed (q : CellularQueue cfg) (t : Nat) : Prop where
  located : ∃ log, Located q t log
  given : cfg.Gives q.light.currentBaseDelay

/-- What a packet read at `now` is released by: the base delay of its instance has passed, and the
branch test of the next packet goes by its release time. -/
structure ReleasesAt (now : Nat) (next : CellularQueue cfg) (releaseTime : Nat) : Prop where
  last : next.light.lastDelayQueueReleaseTime = releaseTime
  floor : now + next.light.currentBaseDelay ≤ releaseTime
  ceiling : 0 ≤ next.light.currentBaseDelay → (releaseTime : Int) < 2 ^ 63 + 2 ^ 33 ∨
    ∃ row ∈ cfg.delayPdoTraces.instances, ∃ back, row.backSlot = .ok back ∧ now + back < 0 ∧
      (releaseTime : Int) = 2 ^ 64 + (now + back)

theorem Delayed.later {q : CellularQueue cfg} {t t' : Nat} (delayed : Delayed q t)
    (ordered : t ≤ t') : Delayed q t' := by
  obtain ⟨log, located⟩ := delayed.located
  exact ⟨⟨log, located.later ordered⟩, delayed.given⟩

section
variable {fuel now releaseTime t : Nat} {contents : Bytes} {q next : CellularQueue cfg}
  {light : LightPdo} {offset : Int}

theorem Reading.lastRelease (reading : Reading fuel now contents q next releaseTime light offset) :
    next.light.lastDelayQueueReleaseTime = light.lastDelayQueueReleaseTime := by
  rw [reading.next_eq]
  rfl

section
variable (clock : now < 2 ^ 63)
  (reading : Reading fuel now contents q next releaseTime light offset)
include clock reading

/-- A packet that starts an instance is released when its base delay has passed. -/
theorem Reading.starts (ints : cfg.Ints) (tracked : Tracked q t) (later : t ≤ now)
    (starts : (q.startTrace now).light.startNewShortPdoTrace cfg now = true) :
    Delayed next now ∧ ReleasesAt now next releaseTime := by
  have cursor := tracked.cursor later
  have located := located_start clock reading cursor starts []
  have released := reading.released
  unfold getPktReleaseTimeFromTrace at released
  rw [if_pos starts] at released
  obtain ⟨gives, release⟩ := startInstance_release clock ints cursor released
  obtain ⟨_, _, _, _, _, _, _, _, same, state⟩ := startInstance_cases released
  have base := reading.keeps.1.currentBaseDelay
  rw [← base] at gives release
  have small := located.small
  have last : light.lastDelayQueueReleaseTime = releaseTime := by
    rw [state, same]
    rfl
  refine ⟨⟨⟨_, located⟩, _, gives⟩, reading.lastRelease.trans last, ?_, ?_⟩
  · by_cases early : (now : Int) + next.light.currentBaseDelay < 0
    · omega
    · have word : (u64 ((now : Int) + next.light.currentBaseDelay) : Int) =
          now + next.light.currentBaseDelay := toUnsigned_of_range 64 _ (by omega) (by omega)
      omega
  · intro delayed
    left
    have word : (u64 ((now : Int) + next.light.currentBaseDelay) : Int) =
        now + next.light.currentBaseDelay := toUnsigned_of_range 64 _ (by omega) (by omega)
    omega

/-- A packet that uses an instance waits for its base delay too. -/
theorem Reading.continues (indexed : Indexed cfg.delayPdoTraces q.light) (delayed : Delayed q now)
    (continues : (q.startTrace now).light.startNewShortPdoTrace cfg now = false) :
    Delayed next now ∧ ReleasesAt now next releaseTime := by
  obtain ⟨log, located⟩ := delayed.located
  have gives := delayed.given
  obtain ⟨kept, keeps⟩ := located_continue reading located continues log.slots
  have base := keeps.currentBaseDelay
  have started := located.started
  have small := located.small
  have released := reading.released
  rw [located.startTrace] at released continues
  have positive := delayed_of_continues continues
  unfold getPktReleaseTimeFromTrace at released
  rw [if_neg (by rw [continues]; exact Bool.false_ne_true)] at released
  obtain ⟨row, taken, bypass, looked, took, onSlot, state⟩ := useCurrentPdo_cases released
  obtain ⟨used, found, sized⟩ := indexed.sized positive
  rw [looked] at found
  rw [← Except.ok.inj found] at sized
  rw [located.elapsed clock] at took onSlot
  have taking := takeSlot_keeps took
  have member := cfg.delayPdoTraces.row_mem looked
  have delay := taking.currentBaseDelay
  have at' := releaseOnSlot_releasedAt started clock (cfg.delayPdoTraces.pdoRange row member)
    (taking.currentPdoSize.trans sized) (by omega) (by omega) onSlot
  have last : light.lastDelayQueueReleaseTime = releaseTime := by rw [state]
  rw [delay, ← base] at at'
  refine ⟨⟨⟨_, kept⟩, ?_⟩, reading.lastRelease.trans last, at'.floor, ?_⟩
  · rw [base]
    exact gives
  · intro _
    rcases at'.ceiling with below | ⟨back, read, early, wraps⟩
    · exact Or.inl below
    · exact Or.inr ⟨row, member, back, read, early, wraps⟩

theorem Reading.releases (ints : cfg.Ints) (tracked : Tracked q t)
    (indexed : Indexed cfg.delayPdoTraces q.light)
    (delayed : 0 ≤ q.light.currentBaseDelay → Delayed q t) (later : t ≤ now) :
    Delayed next now ∧ ReleasesAt now next releaseTime := by
  cases starts : (q.startTrace now).light.startNewShortPdoTrace cfg now with
  | true => exact reading.starts clock ints tracked later starts
  | false =>
      have used : 0 ≤ q.light.currentBaseDelay := by
        have positive := delayed_of_continues starts
        rw [startTrace_eq] at positive
        exact positive
      exact reading.continues clock indexed ((delayed used).later later) starts

end

section
variable {packetQueue : AbstractPacketQueue} {ops : List Op}
  (reaches : Reaches cfg (getPktReleaseTime cfg) packetQueue ops q t) (ints : cfg.Ints)
include reaches ints

/-- In every reachable state an instance in use is located, with a base delay of the trace. -/
theorem Reaches.delayed (clock : t < 2 ^ 63) (used : 0 ≤ q.light.currentBaseDelay) :
    Delayed q t := by
  obtain ⟨_, recorded⟩ := reaches.recorded (fun _ _ _ none => none) ()
  apply recorded.invariant (I := fun q t _ => t < 2 ^ 63 → 0 ≤ q.light.currentBaseDelay →
    Delayed q t) _ _ _ _ clock used
  · intros
    rfl
  · intro linkTimestamp delayTimestamp _ used
    exact absurd (show (0 : Int) ≤ -1 from used) (by decide)
  · intro q next ops fuel t now t' contents _ recorded before later last reads clock _
    obtain ⟨releaseTime, light, offset, reading⟩ := readPacket_reading reads
    have reaches := recorded.reaches
    exact (reading.releases (by omega) ints (reaches.tracked (by omega)) reaches.indexed
      (before (by omega)) later).1.later last
  · intro q next t t' _ before later unread clock used
    rw [unread.light] at used
    obtain ⟨⟨log, located⟩, given⟩ := (before (by omega) used).later later
    have based := located.based
    have pdoBase := located.pdoBase
    have small := located.small
    have startTick := located.startTick
    rw [← unread.light] at based pdoBase small given
    rw [← unread.startTick] at startTick
    exact ⟨⟨log, startTick, based, located.started, pdoBase, small⟩, given⟩

/-- So every packet read is released when its base delay has passed. -/
theorem Reaches.releases (later : t ≤ now) (clock : now < 2 ^ 63)
    (reading : Reading fuel now contents q next releaseTime light offset) :
    Delayed next now ∧ ReleasesAt now next releaseTime :=
  reading.releases clock ints (reaches.tracked (by omega)) reaches.indexed
    (reaches.delayed ints (by omega)) later

end

end

end CellReplay
