import CellReplay.Frontend.SlotCapacity
import CellReplay.Frontend.SlotSafety

set_option autoImplicit false

namespace CellReplay

open MachineWord FueledLoop Transition CellularQueue LightPdo

variable {cfg : Config}

namespace LightPdo

/-- The delay stage ends at or behind the time of the current slot, if some of its bytes are used,
and behind the time of the last slot, once the cursor is past it. -/
structure SlotPaid (row : DelayPDOInstance) (start endRelease : Nat) (s : LightPdo) : Prop where
  current : s.currentPdoIdx < s.currentPdoSize → s.currDeliveryOpportunity = packetSize ∨
    ∃ slot, row.pdo[s.currentPdoIdx]? = some slot ∧ start + s.currentBaseDelay + slot ≤ endRelease
  behind : s.currentPdoSize ≤ s.currentPdoIdx → ∀ back, row.pdo.getLast? = some back →
    start + s.currentBaseDelay + back ≤ endRelease

/-- The cursor gets past the last slot only when the time of that slot has passed, or when some of
its bytes were used before. -/
theorem SlotPaid.exhausted {fuel size now start endRelease : Nat} {row : DelayPDOInstance}
    {s taken : LightPdo} (paid : SlotPaid row start endRelease s) (small : size ≤ packetSize)
    (sized : s.currentPdoSize = row.pdo.length)
    (run : takeSlot fuel row ((now : Int) - start) size s = .ok taken)
    (past : taken.currentPdoSize ≤ taken.currentPdoIdx) {back : Int}
    (last : row.pdo.getLast? = some back) :
    start + s.currentBaseDelay + back ≤ endRelease ∨ start + back < now := by
  obtain ⟨passed, passes, _, moved⟩ := takeSlot_idx run
  have size' := (takeSlot_keeps run).currentPdoSize
  by_cases inside : s.currentPdoIdx < s.currentPdoSize
  · rw [List.getLast?_eq_getElem?] at last
    by_cases through : s.currentPdoSize ≤ passed.currentPdoIdx
    · obtain ⟨_, slot, looked, before⟩ := passes.late (s.currentPdoSize - 1) (by omega) (by omega)
      rw [sized, last] at looked
      rw [← Option.some.inj looked] at before
      exact Or.inr (by omega)
    · rcases moved with ⟨full, idx⟩ | ⟨_, idx⟩
      · have same := passes.unmoved small full
        rw [same] at idx full
        have final : s.currentPdoIdx = row.pdo.length - 1 := by omega
        rcases paid.current inside with whole | ⟨slot, looked, before⟩
        · have word : u32 (packetSize : Int) = packetSize := by decide
          rw [whole, word] at full
          omega
        · rw [final, last] at looked
          rw [Option.some.inj looked]
          exact Or.inl before
      · omega
  · exact Or.inl (paid.behind (by omega) back last)

/-- A packet on a slot is released at the time of the slot, one past the last slot not before the
delay from now on. -/
theorem releaseOnSlot_time {row : DelayPDOInstance} {start now r : Nat} {taken : LightPdo}
    {bypass : Bool} (range : ∀ slot ∈ row.pdo, -2 ^ 31 ≤ slot ∧ slot < 2 ^ 31)
    (started : start ≤ now) (clock : now < 2 ^ 63) (delayed : 0 ≤ taken.currentBaseDelay)
    (small : taken.currentBaseDelay < 2 ^ 31)
    (run : releaseOnSlot row ((now : Int) - start) now taken = .ok (r, bypass)) :
    taken.currentPdoSize ≤ taken.currentPdoIdx ∧ bypass = false ∧
        now + taken.currentBaseDelay ≤ r ∨
      taken.currentPdoIdx < taken.currentPdoSize ∧ ∃ slot,
        row.pdo[taken.currentPdoIdx]? = some slot ∧
        (r : Int) = start + taken.currentBaseDelay + slot := by
  rcases releaseOnSlot_cases run with ⟨past, heavy, above, _⟩ |
    ⟨inside, _, slot, looked, due, release⟩
  · have exactly : (u64 ((now : Int) + taken.currentBaseDelay) : Int) =
        now + taken.currentBaseDelay := toUnsigned_of_range 64 _ (by omega) (by omega)
    exact Or.inl ⟨past, heavy, by omega⟩
  · have bounds := range slot (List.mem_of_getElem? looked)
    have natural : (now : Int) + taken.currentBaseDelay + (slot - ((now : Int) - start)) =
        start + taken.currentBaseDelay + slot := by omega
    rw [natural] at release
    refine Or.inr ⟨inside, slot, looked, ?_⟩
    rw [release]
    exact toUnsigned_of_range 64 _ (by omega) (by omega)

end LightPdo

/-- Without an offset table the offset is 0. -/
theorem latencyOffset_none (none : cfg.psizeLatencyOffset = []) (size : Nat) :
    latencyOffset cfg size = .ok 0 := by
  have zero : getPsizeLatencyOffsetDouble cfg.psizeLatencyOffset size = 0 := by
    unfold getPsizeLatencyOffsetDouble psizeLatencyOffsetIn
    rw [none]
    rfl
  unfold latencyOffset
  rw [zero]
  decide +kernel

/-- An offset of 0 leaves a release time as it is. -/
theorem offsetReleaseTime_zero (endRelease : Nat) {releaseTime : Nat}
    (word : releaseTime < 2 ^ 64) :
    offsetReleaseTime endRelease releaseTime 0 = releaseTime := by
  have same : u64 ((releaseTime : Int) + 0) = releaseTime := by
    rw [Int.add_zero]
    exact toUnsigned_natCast 64 releaseTime word
  unfold offsetReleaseTime
  rw [same]
  split
  · rfl
  · rfl

/-- What a packet read without an offset table leaves, besides the packet itself. -/
structure Stores (releaseTime : Nat) (light : LightPdo) (q next : CellularQueue cfg) : Prop where
  currentPdoIdx : next.light.currentPdoIdx = light.currentPdoIdx
  bypass : light.bypassLinkPdo = false → next.light.bypassLinkPdo = false
  endReleaseTime : next.endReleaseTime = max releaseTime q.endReleaseTime

theorem Reading.stores {fuel now releaseTime : Nat} {contents : Bytes} {q next : CellularQueue cfg}
    {light : LightPdo} {offset : Int}
    (reading : Reading fuel now contents q next releaseTime light offset)
    (none : cfg.psizeLatencyOffset = []) : Stores releaseTime light q next := by
  have word := getPktReleaseTimeFromTrace_word reading.released
  have rounded := reading.rounded
  rw [latencyOffset_none none] at rounded
  have shape := reading.next_eq
  rw [← Except.ok.inj rounded, offsetReleaseTime_zero _ word, startTrace_eq] at shape
  rw [shape]
  refine ⟨rfl, ?_, rfl⟩
  intro heavy
  unfold emplace
  dsimp only
  rw [heavy, ite_self]

/-- The slots of the instance in use are paid. -/
def Paid (q : CellularQueue cfg) (log : InstanceLog) : Prop :=
  ∃ row, cfg.delayPdoTraces.row q.light.currentDelayPdoIdx = .ok row ∧
    q.light.currentPdoSize = row.pdo.length ∧ SlotPaid row log.start q.endReleaseTime q.light

section
variable (none : cfg.psizeLatencyOffset = [])
  (fromStart : ∀ row ∈ cfg.delayPdoTraces.instances, row.pdo.head? = some 0)
  (ints : ∀ x a b delay, cfg.interpolate x a b = .ok delay → -2 ^ 31 ≤ delay ∧ delay < 2 ^ 31)
  {q next : CellularQueue cfg} {fuel now releaseTime : Nat} {contents : Bytes} {light : LightPdo}
  {offset : Int} {log : InstanceLog} (clock : now < 2 ^ 63)
  (reading : Reading fuel now contents q next releaseTime light offset)
include none clock reading

include fromStart ints in
/-- An instance starts with slot 0 paid by its first packet. -/
theorem paid_start (starts : (q.startTrace now).light.startNewShortPdoTrace cfg now = true)
    (delayed : 0 ≤ next.light.currentBaseDelay) (slots : NextFit.Placed) :
    Paid next ⟨now, slots⟩ := by
  have released := reading.released
  unfold getPktReleaseTimeFromTrace at released
  rw [if_pos starts] at released
  obtain ⟨found, row, following, delay, search, current, _, interpolated, release, state⟩ :=
    startInstance_cases released
  obtain ⟨low, high⟩ := ints _ _ _ _ interpolated
  have narrow : i32 (u64 delay) = delay := by
    rw [i32, u64, toSigned_toUnsigned (by decide)]
    exact toSigned_of_range 32 delay (by decide) (by omega) (by omega)
  have stores := reading.stores none
  have keeps := reading.keeps.1
  have base : next.light.currentBaseDelay = delay := by
    rw [keeps.currentBaseDelay, state, beginInstance_currentBaseDelay, narrow]
  rw [base] at delayed
  have exactly : (releaseTime : Int) = now + delay := by
    have wide : (u64 delay : Int) = delay := toUnsigned_of_range 64 delay delayed (by omega)
    rw [release, wide]
    exact toUnsigned_of_range 64 _ (by omega) (by omega)
  have ends := stores.endReleaseTime
  have first := fromStart row (cfg.delayPdoTraces.row_mem current)
  have filled : 0 < row.pdo.length := List.length_pos_of_mem (List.mem_of_mem_head? first)
  have idx : next.light.currentPdoIdx = 0 := by
    rw [stores.currentPdoIdx, state]
    rfl
  have size : next.light.currentPdoSize = row.pdo.length := by
    rw [keeps.currentPdoSize, state]
    rfl
  refine ⟨row, ?_, size, ?_, ?_⟩
  · rw [keeps.currentDelayPdoIdx, state]
    exact current
  · intro _
    refine Or.inr ⟨0, ?_, ?_⟩
    · rw [idx, ← List.head?_eq_getElem?]
      exact first
    · rw [base]
      show (now : Int) + delay + 0 ≤ next.endReleaseTime
      omega
  · intro past
    rw [idx, size] at past
    omega

/-- A packet that uses the instance pays for its slot, and is not ahead of the last slot when it
finds the instance exhausted. -/
theorem paid_continue (located : Located q now log) (delayed : 0 ≤ q.light.currentBaseDelay)
    (paid : Paid q log)
    (continues : (q.startTrace now).light.startNewShortPdoTrace cfg now = false)
    (slots : NextFit.Placed) : Paid next ⟨log.start, slots⟩ ∧
      (next.light.currentPdoSize ≤ next.light.currentPdoIdx →
      next.light.bypassLinkPdo = false) := by
  obtain ⟨row, current, sized, paid⟩ := paid
  have started := located.started
  have delaySmall := located.small
  have keeps := (located_continue reading located continues slots).2
  have released := reading.released
  rw [located.startTrace] at released continues
  unfold getPktReleaseTimeFromTrace at released
  rw [if_neg (by rw [continues]; exact Bool.false_ne_true)] at released
  obtain ⟨used, taken, bypass, looked, took, onSlot, state⟩ := useCurrentPdo_cases released
  rw [current] at looked
  rw [← Except.ok.inj looked, located.elapsed clock] at took onSlot
  have taking := takeSlot_keeps took
  have stores := reading.stores none
  have ends := stores.endReleaseTime
  have idx : next.light.currentPdoIdx = taken.currentPdoIdx := by
    rw [stores.currentPdoIdx, state]
  have size : next.light.currentPdoSize = taken.currentPdoSize :=
    keeps.currentPdoSize.trans taking.currentPdoSize.symm
  have base := keeps.currentBaseDelay
  have taken' := taking.currentBaseDelay
  have range := cfg.delayPdoTraces.pdoRange row (cfg.delayPdoTraces.row_mem current)
  have time := releaseOnSlot_time range started clock (by omega) (by omega) onSlot
  refine ⟨⟨row, ?_, keeps.currentPdoSize.trans sized, ?_, ?_⟩, ?_⟩
  · rw [keeps.currentDelayPdoIdx]
    exact current
  · intro inside
    rw [idx, size] at inside
    rw [idx, base]
    rcases time with ⟨past, _⟩ | ⟨_, slot, looked, release⟩
    · omega
    · refine Or.inr ⟨slot, looked, ?_⟩
      show (log.start : Int) + q.light.currentBaseDelay + slot ≤ next.endReleaseTime
      omega
  · intro past back last
    rw [idx, size] at past
    rw [base]
    rcases time with ⟨_, _, above⟩ | ⟨inside, _⟩
    · have late := paid.exhausted reading.small sized took past last
      show (log.start : Int) + q.light.currentBaseDelay + back ≤ next.endReleaseTime
      omega
    · omega
  · intro past
    rw [idx, size] at past
    apply stores.bypass
    rcases time with ⟨_, heavy, _⟩ | ⟨inside, _⟩
    · rw [state]
      exact heavy
    · omega

end

/-- The slots of every instance in use are paid. -/
theorem Logged.paid {packetQueue : AbstractPacketQueue} {ops : List Op} {q : CellularQueue cfg}
    {t : Nat} {log : InstanceLog} (logged : Logged cfg packetQueue ops q t log)
    (none : cfg.psizeLatencyOffset = [])
    (fromStart : ∀ row ∈ cfg.delayPdoTraces.instances, row.pdo.head? = some 0)
    (ints : ∀ x a b delay, cfg.interpolate x a b = .ok delay → -2 ^ 31 ≤ delay ∧ delay < 2 ^ 31) :
    t < 2 ^ 63 → 0 ≤ q.light.currentBaseDelay → Paid q log := by
  apply logged.invariant
    (I := fun q t log => t < 2 ^ 63 → 0 ≤ q.light.currentBaseDelay → Paid q log)
  · intro linkTimestamp delayTimestamp _ delayed
    exact absurd (show (0 : Int) ≤ -1 from delayed) (by decide)
  · intro q next ops fuel t now t' contents log releaseTime light offset logged before later last
      reading clock delayed
    unfold InstanceLog.record
    cases starts : (q.startTrace now).light.startNewShortPdoTrace cfg now with
    | true =>
        rw [if_pos rfl]
        exact paid_start none fromStart ints (by omega) reading starts delayed _
    | false =>
        rw [if_neg Bool.false_ne_true]
        have used : 0 ≤ q.light.currentBaseDelay := by
          have delayed := delayed_of_continues starts
          rw [startTrace_eq] at delayed
          exact delayed
        have located := (logged.located (by omega) used).later later
        have kept := fun slots =>
          (paid_continue none (show now < 2 ^ 63 by omega) reading located used
          (before (by omega) used) starts slots).1
        split
        · exact kept _
        · exact kept _
  · intro q next t t' log before later unread clock delayed
    rw [unread.light] at delayed
    have paid := before (by omega) delayed
    unfold Paid at paid ⊢
    rw [unread.light, unread.endReleaseTime]
    exact paid

/-- On the slot taken nothing else can fail than the last access and the assertion. -/
theorem releaseOnSlot_returns {row : DelayPDOInstance} {elapsed : Int} {time : Nat} {s : LightPdo}
    (sound : Sound (releaseOnSlot row elapsed time s)) :
    ∃ r bypass, releaseOnSlot row elapsed time s = .ok (r, bypass) := by
  have slotFault : ∀ i fault, row.slot i = .error fault → fault = .outOfRange := by
    intro i fault failed
    unfold DelayPDOInstance.slot at failed
    split at failed
    · cases failed
    · exact (Except.error.inj failed).symm
  cases result : releaseOnSlot row elapsed time s with
  | ok r => exact ⟨r.1, r.2, rfl⟩
  | error fault =>
      rw [result] at sound
      unfold releaseOnSlot at result
      split at result
      · cases looked : row.slot (u32 (s.currentPdoSize - 1)) with
        | error other =>
            rw [looked] at result
            have same := Except.error.inj result
            rw [← same, slotFault _ _ looked] at sound
            exact absurd rfl sound.inRange
        | ok back =>
            rw [looked] at result
            cases result
      · cases looked : row.slot s.currentPdoIdx with
        | error other =>
            rw [looked] at result
            have same := Except.error.inj result
            rw [← same, slotFault _ _ looked] at sound
            exact absurd rfl sound.inRange
        | ok slot =>
            rw [looked] at result
            by_cases due : elapsed ≤ slot
            · simp only [bind, Except.bind, check, decide_eq_true due] at result
              cases result
            · simp only [bind, Except.bind, check, decide_eq_false due] at result
              have same := Except.error.inj result
              rw [← same] at sound
              exact absurd rfl (sound.asserted _)

/-- A packet that uses an instance with slots in order is stored. -/
theorem readPacket_returns {now : Nat} {contents : Bytes} {q : CellularQueue cfg}
    (indexed : Indexed cfg.delayPdoTraces (q.startTrace now).light)
    (large : 20 ≤ contents.length) (small : contents.length ≤ packetSize)
    (none : cfg.psizeLatencyOffset = [])
    (filled : ∀ row ∈ cfg.delayPdoTraces.instances, row.pdo ≠ [])
    (sorted : ∀ row ∈ cfg.delayPdoTraces.instances, row.pdo.Pairwise (· ≤ ·))
    (continues : (q.startTrace now).light.startNewShortPdoTrace cfg now = false) :
    ∃ fuel next, q.readPacket (getPktReleaseTime cfg) fuel now contents = .ok next := by
  obtain ⟨row, looked, sized⟩ := indexed.sized (delayed_of_continues continues)
  have member := cfg.delayPdoTraces.row_mem looked
  have safe := slotSafe_of_sorted (filled row member) (sorted row member)
    ((q.startTrace now).light.timestampFromPdoBase now) contents.length (q.startTrace now).light
  obtain ⟨fuel, taken, took⟩ :=
    takeSlot_returns ((q.startTrace now).light.timestampFromPdoBase now) contents.length sized
  have keeps := takeSlot_keeps took
  have onSlot : Sound
      (releaseOnSlot row ((q.startTrace now).light.timestampFromPdoBase now) now taken) := by
    rw [releaseOnSlot_sound_iff (keeps.currentPdoSize.trans sized), taken_due_iff small sized took]
    exact safe
  obtain ⟨r, bypass, released⟩ := releaseOnSlot_returns onSlot
  have result : getPktReleaseTime cfg fuel now contents (q.startTrace now).light =
      .ok (r, { taken with
      bypassLinkPdo := bypass
      lastDelayQueueReleaseTime := r }) := by
    unfold getPktReleaseTime getPktReleaseTimeFromTrace
    rw [if_neg (by rw [continues]; exact Bool.false_ne_true)]
    unfold timestampFromPdoBase at took released
    unfold useCurrentPdo
    simp only [looked, took, released, bind, Except.bind]
    rfl
  refine ⟨fuel, ?_⟩
  unfold readPacket
  rw [if_neg (by omega), if_neg (by omega)]
  unfold takePacket
  simp only [result, latencyOffset_none none, bind, Except.bind]
  exact ⟨_, rfl⟩

/-- The hand-over to the link is never early: a packet that finds the light PDO exhausted is
stored for the link, and with a release time at or after that of the last slot of its instance. -/
theorem handover_not_early {packetQueue : AbstractPacketQueue} {ops : List Op}
    {q : CellularQueue cfg} {t now : Nat} {contents : Bytes} {log : InstanceLog}
    (logged : Logged cfg packetQueue ops q t log) (later : t ≤ now) (clock : now < 2 ^ 63)
    (large : 20 ≤ contents.length) (small : contents.length ≤ packetSize)
    (none : cfg.psizeLatencyOffset = [])
    (fromStart : ∀ row ∈ cfg.delayPdoTraces.instances, row.pdo.head? = some 0)
    (sorted : ∀ row ∈ cfg.delayPdoTraces.instances, row.pdo.Pairwise (· ≤ ·))
    (ints : ∀ x a b delay, cfg.interpolate x a b = .ok delay → -2 ^ 31 ≤ delay ∧ delay < 2 ^ 31)
    (continues : (q.startTrace now).light.startNewShortPdoTrace cfg now = false) :
    (∃ fuel next, q.readPacket (getPktReleaseTime cfg) fuel now contents = .ok next) ∧
      ∀ fuel next, q.readPacket (getPktReleaseTime cfg) fuel now contents = .ok next →
        next.light.currentPdoSize ≤ next.light.currentPdoIdx →
        ∃ packet row back, next.emplaced = q.emplaced ++ [packet] ∧ packet.arrivalTime = now ∧
          cfg.delayPdoTraces.row next.light.currentDelayPdoIdx = .ok row ∧
          row.pdo.getLast? = some back ∧ packet.isBypassLinkQueue = false ∧
          log.start + next.light.currentBaseDelay + back ≤ packet.releaseTime := by
  have filled : ∀ row ∈ cfg.delayPdoTraces.instances, row.pdo ≠ [] := by
    intro row member empty
    have first := fromStart row member
    rw [empty] at first
    cases first
  have used : 0 ≤ q.light.currentBaseDelay := by
    have delayed := delayed_of_continues continues
    rw [startTrace_eq] at delayed
    exact delayed
  have located := (logged.located (by omega) used).later later
  have paid := logged.paid none fromStart ints (by omega) used
  constructor
  · have indexed := logged.reaches.indexed
    apply readPacket_returns ?_ large small none filled sorted continues
    rw [startTrace_eq]
    exact ⟨indexed.inside, indexed.sized⟩
  · intro fuel next run exhausted
    obtain ⟨releaseTime, light, offset, reading⟩ := readPacket_reading run
    obtain ⟨after, heavy⟩ := paid_continue none clock reading located used paid continues log.slots
    obtain ⟨row, current, _, slots⟩ := after
    have last := List.getLast?_eq_getLast_of_ne_nil
      (filled row (cfg.delayPdoTraces.row_mem current))
    exact ⟨_, row, _, reading.emplaced, rfl, current, last, heavy exhausted,
      slots.behind exhausted _ last⟩

/-- A packet of a whole opportunity at 0 ms, and one of 700 bytes at 3 ms. -/
def fullThenHalf : List Op := [.readPacket 0 fullPacket, .readPacket 3 (List.replicate 700 0)]

theorem fullThenHalf_timed : Op.Timed 3 0 fullThenHalf := by
  refine ⟨0, ?_, ?_, 3, ?_, ?_, rfl⟩
  all_goals simp [Op.Between]

/-- The slot at 10 ms has 700 bytes left at 4 ms, too few for 800: the packet is stored for the
link, to be released at 30 ms, and not at 24 ms. -/
theorem handover_not_early_twoSlots : ∃ (q next : CellularQueue twoSlotsTenMs) (log : InstanceLog),
    Logged twoSlotsTenMs (.infinite {}) fullThenHalf q 3 log ∧
      q.readPacket (getPktReleaseTime twoSlotsTenMs) 10 4 (List.replicate 800 0) = .ok next ∧
      next.light.currentPdoIdx = 2 ∧ next.endReleaseTime = 30 ∧
      ∃ packet row back, next.emplaced = q.emplaced ++ [packet] ∧ packet.arrivalTime = 4 ∧
        twoSlotsApart.row next.light.currentDelayPdoIdx = .ok row ∧ row.pdo.getLast? = some back ∧
        packet.isBypassLinkQueue = false ∧
        log.start + next.light.currentBaseDelay + back ≤ packet.releaseTime := by
  have observed : (Op.execRecorded (getPktReleaseTime twoSlotsTenMs) Op.log 10 fullThenHalf
      (construct twoSlotsTenMs (.infinite {}) 0 0, ⟨0, []⟩)).toOption.map (fun s =>
        ((s.1.startTrace 4).light.startNewShortPdoTrace twoSlotsTenMs 4,
          (s.1.readPacket (getPktReleaseTime twoSlotsTenMs) 10 4
            (List.replicate 800 0)).toOption.map (fun next =>
              (next.light.currentPdoIdx, next.light.currentPdoSize, next.endReleaseTime)))) =
      some (false, some (2, 2, 30)) := by decide +kernel
  obtain ⟨q, log, logged, seen⟩ := Recorded.of_execRecorded fullThenHalf_timed observed
  obtain ⟨continues, result⟩ := Prod.mk.inj seen
  obtain ⟨next, run, after⟩ := observe_ok result
  obtain ⟨idx, rest⟩ := Prod.mk.inj after
  obtain ⟨size, released⟩ := Prod.mk.inj rest
  refine ⟨q, next, log, logged, run, idx, released, ?_⟩
  have ints : ∀ x a b delay, twoSlotsTenMs.interpolate x a b = .ok delay →
      -2 ^ 31 ≤ delay ∧ delay < 2 ^ 31 := fun _ _ _ _ => exactInterpolate_int
  have length : (List.replicate 800 (0 : UInt8)).length = 800 := List.length_replicate
  exact (handover_not_early logged (by decide) (by decide) (by omega) (by rw [length]; decide) rfl
    (by decide) (by decide) ints continues).2 10 next run (by omega)

end CellReplay
