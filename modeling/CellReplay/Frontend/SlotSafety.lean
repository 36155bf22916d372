import CellReplay.Frontend.LightSlots

set_option autoImplicit false

namespace CellReplay

open MachineWord FueledLoop Transition CellularQueue LightPdo

variable {cfg : Config}

/-- No index went out of range and no assertion failed. -/
structure Sound {α : Type} (x : Except Fault α) : Prop where
  inRange : x ≠ .error .outOfRange
  asserted : ∀ text, x ≠ .error (.assertion text)

theorem Sound.ok {α : Type} (a : α) : Sound (.ok a : Except Fault α) :=
  ⟨by simp, by simp⟩

theorem Sound.fuel {α : Type} : Sound (.error .fuel : Except Fault α) :=
  ⟨by simp, by simp⟩

theorem Sound.conversion {α : Type} : Sound (.error .conversion : Except Fault α) :=
  ⟨by simp, by simp⟩

/-- A sequence is sound if its first part is, and the second one after each result of the first. -/
theorem Sound.bind {α β : Type} {x : Except Fault α} {f : α → Except Fault β} (first : Sound x)
    (second : ∀ a, x = .ok a → Sound (f a)) : Sound (x >>= f) := by
  cases x with
  | error fault => exact ⟨fun same => first.inRange (by cases same; rfl),
      fun text same => first.asserted text (by cases same; rfl)⟩
  | ok a => exact second a rfl

namespace LightPdo

section
variable {trace : PacketTrainTrace}

/-- The search for the instance never leaves the trace. -/
theorem searchInstance_inside {fuel time : Nat} {s : LightPdo}
    (inside : s.currentDelayPdoIdx + 1 < trace.instances.length) :
    Sound (searchInstance fuel trace time s) ∧ ∀ found,
    searchInstance fuel trace time s = .ok found →
      found.currentDelayPdoIdx + 1 < trace.instances.length := by
  have tested : ∀ a : InstanceSearch, a.currentDelayPdoIdx + 1 < trace.instances.length →
      ∃ b, nextRowReached trace a = .ok b := by
    intro a inside
    unfold nextRowReached
    rw [trace.row_eq_ok inside]
    exact ⟨_, rfl⟩
  have stepped : ∀ a : InstanceSearch, a.currentDelayPdoIdx + 1 < trace.instances.length →
      ∃ next, advanceRow trace time a = .ok next ∧
        next.currentDelayPdoIdx + 1 < trace.instances.length := by
    intro a inside
    unfold advanceRow
    by_cases final : trace.lastIdx ≤ a.currentDelayPdoIdx + 1
    · simp only [if_pos final, trace.row_eq_ok inside]
      have lines := trace.threeLines
      exact ⟨_, rfl, by simp only; omega⟩
    · simp only [if_neg final]
      unfold PacketTrainTrace.lastIdx at final
      exact ⟨_, rfl, by simp only; omega⟩
  constructor
  · cases result : searchInstance fuel trace time s with
    | ok found => exact Sound.ok found
    | error fault =>
        have same := whileLoop_error (I := fun a =>
          a.currentDelayPdoIdx + 1 < trace.instances.length)
          tested (fun a kept _ => stepped a kept) inside result
        rw [same]
        exact Sound.fuel
  · intro found result
    have kept := whileLoop_inv (I := fun a => a.currentDelayPdoIdx + 1 < trace.instances.length)
      (by
        intro a b before turn
        obtain ⟨next, advanced, within⟩ := stepped a before
        rw [turn.2] at advanced
        rw [Except.ok.inj advanced]
        exact within)
      result inside
    exact kept.1

end

/-- What is kept of the cursor in the trace: it is in range, and an instance in use knows how many
slots its row has. -/
structure Indexed (trace : PacketTrainTrace) (s : LightPdo) : Prop where
  inside : s.currentDelayPdoIdx + 1 < trace.instances.length
  sized : 0 ≤ s.currentBaseDelay → ∃ row, trace.row s.currentDelayPdoIdx = .ok row ∧
    s.currentPdoSize = row.pdo.length

theorem Indexed.release {fuel time size r : Nat} {s s' : LightPdo}
    (indexed : Indexed cfg.delayPdoTraces s)
    (run : getPktReleaseTimeFromTrace fuel cfg time size s = .ok (r, s')) :
    Indexed cfg.delayPdoTraces s' := by
  unfold getPktReleaseTimeFromTrace at run
  by_cases starts : s.startNewShortPdoTrace cfg time = true
  · rw [if_pos starts] at run
    obtain ⟨found, row, next, delay, search, current, _, _, _, state⟩ := startInstance_cases run
    rw [state]
    exact ⟨(searchInstance_inside indexed.inside).2 found search, fun _ => ⟨row, current, rfl⟩⟩
  · rw [if_neg starts] at run
    obtain ⟨row, taken, bypass, current, took, _, state⟩ := useCurrentPdo_cases run
    have keeps := takeSlot_keeps took
    rw [state]
    constructor
    · show taken.currentDelayPdoIdx + 1 < _
      rw [keeps.currentDelayPdoIdx]
      exact indexed.inside
    · intro started
      have before : 0 ≤ s.currentBaseDelay := by
        rw [← keeps.currentBaseDelay]
        exact started
      obtain ⟨used, looked, sized⟩ := indexed.sized before
      refine ⟨used, ?_, keeps.currentPdoSize.trans sized⟩
      show cfg.delayPdoTraces.row taken.currentDelayPdoIdx = _
      rw [keeps.currentDelayPdoIdx]
      exact looked

theorem slotPassed_sized {row : DelayPDOInstance} (elapsed : Int) {s : LightPdo}
    (sized : s.currentPdoSize = row.pdo.length) : ∃ b, slotPassed row elapsed s = .ok b := by
  unfold slotPassed
  by_cases inside : s.currentPdoIdx < s.currentPdoSize
  · rw [if_pos inside, slot_eq_ok.mpr (List.getElem?_eq_getElem (by omega))]
    exact ⟨_, rfl⟩
  · rw [if_neg inside]
    exact ⟨false, rfl⟩

theorem takeSlot_sound {fuel size : Nat} {row : DelayPDOInstance} {elapsed : Int} {s : LightPdo}
    (sized : s.currentPdoSize = row.pdo.length) : Sound (takeSlot fuel row elapsed size s) := by
  apply Sound.bind
  · cases result : whileLoop Fault.fuel (slotPassed row elapsed)
      (fun s => .ok s.nextSlot) fuel s with
    | ok found => exact Sound.ok found
    | error fault =>
        have same := whileLoop_error (I := fun a : LightPdo => a.currentPdoSize = row.pdo.length)
          (fun _ sized => slotPassed_sized elapsed sized)
          (fun a sized _ => ⟨a.nextSlot, rfl, sized⟩)
          sized result
        rw [same]
        exact Sound.fuel
  · intro a _
    exact Sound.ok _

/-- Within a row the loop that finds the slot ends. -/
theorem takeSlot_returns {row : DelayPDOInstance} (elapsed : Int) {s : LightPdo} (size : Nat)
    (sized : s.currentPdoSize = row.pdo.length) :
    ∃ fuel taken, takeSlot fuel row elapsed size s = .ok taken := by
  have returned : ∃ passed, whileLoop Fault.fuel (slotPassed row elapsed) (fun s => .ok s.nextSlot)
      (row.pdo.length - s.currentPdoIdx + 1) s = .ok passed := by
    apply whileLoop_returns (I := fun a : LightPdo => a.currentPdoSize = row.pdo.length)
      (fun a => row.pdo.length - a.currentPdoIdx)
    · intro a sized
      exact slotPassed_sized elapsed sized
    · intro a sized test
      obtain ⟨inside, _⟩ := slotPassed_true test
      refine ⟨a.nextSlot, rfl, sized, ?_⟩
      show row.pdo.length - (a.currentPdoIdx + 1) < row.pdo.length - a.currentPdoIdx
      omega
    · exact sized
    · exact Nat.lt_succ_self _
  obtain ⟨passed, returned⟩ := returned
  refine ⟨row.pdo.length - s.currentPdoIdx + 1, ?_⟩
  unfold takeSlot
  rw [returned]
  exact ⟨_, rfl⟩

/-- What the current slot and the one behind it must be for a packet that uses the instance: the
row has a slot, and where the current slot has not passed but has too few bytes left, the next one
has not passed either. -/
def SlotSafe (row : DelayPDOInstance) (elapsed : Int) (size : Nat) (s : LightPdo) : Prop :=
  row.pdo ≠ [] ∧ ∀ slot next, row.pdo[s.currentPdoIdx]? = some slot →
    row.pdo[s.currentPdoIdx + 1]? = some next → elapsed ≤ slot →
    u32 s.currDeliveryOpportunity < size →
    elapsed ≤ next

/-- In a row of slots in order every slot is safe. -/
theorem slotSafe_of_sorted {row : DelayPDOInstance} (filled : row.pdo ≠ [])
    (sorted : row.pdo.Pairwise (· ≤ ·)) (elapsed : Int) (size : Nat) (s : LightPdo) :
    SlotSafe row elapsed size s := by
  refine ⟨filled, ?_⟩
  intro slot next looked follows notPassed _
  obtain ⟨inside, here⟩ := List.getElem?_eq_some_iff.mp looked
  obtain ⟨behind, there⟩ := List.getElem?_eq_some_iff.mp follows
  have ordered := List.pairwise_iff_getElem.mp sorted _ _ inside behind (Nat.lt_succ_self _)
  omega

/-- The slot taken has not passed, or is behind the last one. -/
theorem taken_due_iff {fuel size : Nat} {row : DelayPDOInstance} {elapsed : Int}
    {s taken : LightPdo} (small : size ≤ packetSize) (sized : s.currentPdoSize = row.pdo.length)
    (run : takeSlot fuel row elapsed size s = .ok taken) :
    (∀ slot, row.pdo[taken.currentPdoIdx]? = some slot → elapsed ≤ slot) ↔
      ∀ slot next, row.pdo[s.currentPdoIdx]? = some slot →
      row.pdo[s.currentPdoIdx + 1]? = some next →
        elapsed ≤ slot → u32 s.currDeliveryOpportunity < size → elapsed ≤ next := by
  obtain ⟨passed, passes, stops, moved⟩ := takeSlot_idx run
  have due : ∀ slot, row.pdo[passed.currentPdoIdx]? = some slot → elapsed ≤ slot := by
    intro slot looked
    rcases stops.due with past | ⟨other, found, after⟩
    · rw [passes.keeps.currentPdoSize, sized] at past
      rw [List.getElem?_eq_none past] at looked
      cases looked
    · rw [looked] at found
      rw [Option.some.inj found]
      exact after
  rcases moved with ⟨full, idx⟩ | ⟨room, idx⟩
  · have same := passes.unmoved small full
    rw [same] at due idx full
    rw [idx]
    constructor
    · intro next' slot next _ follows _ _
      exact next' next follows
    · intro next' next follows
      have inside : s.currentPdoIdx + 1 < row.pdo.length := (List.getElem?_eq_some_iff.mp follows).1
      have looked := List.getElem?_eq_getElem (l := row.pdo) (i := s.currentPdoIdx) (by omega)
      exact next' _ next looked follows (due _ looked) full
  · rw [idx]
    constructor
    · intro _ slot next looked _ notPassed full
      rcases passes.fresh with same | ⟨later, _⟩
      · rw [same] at room
        exact absurd full room
      · obtain ⟨_, other, found, before⟩ := passes.late s.currentPdoIdx (Nat.le_refl _) later
        rw [looked] at found
        rw [Option.some.inj found] at notPassed
        omega
    · intro _
      exact due

/-- On the slot taken, the last access is in range and the assertion holds exactly when the row
has a slot and the slot taken has not passed. -/
theorem releaseOnSlot_sound_iff {row : DelayPDOInstance} {elapsed : Int} {time : Nat} {s : LightPdo}
    (sized : s.currentPdoSize = row.pdo.length) : Sound (releaseOnSlot row elapsed time s) ↔
      row.pdo ≠ [] ∧ ∀ slot, row.pdo[s.currentPdoIdx]? = some slot → elapsed ≤ slot := by
  unfold releaseOnSlot
  by_cases past : s.currentPdoSize ≤ s.currentPdoIdx
  · rw [if_pos past, List.getElem?_eq_none (by omega)]
    by_cases empty : row.pdo = []
    · have none : row.slot (u32 (s.currentPdoSize - 1)) = .error .outOfRange := by
        unfold DelayPDOInstance.slot
        rw [empty]
        rfl
      rw [none]
      constructor
      · intro sound
        exact absurd rfl sound.inRange
      · intro filled
        exact absurd empty filled.1
    · have positive := List.length_pos_iff.mpr empty
      have natural : ((s.currentPdoSize : Int) - 1) = ((row.pdo.length - 1 : Nat) : Int) := by omega
      have inside : u32 ((s.currentPdoSize : Int) - 1) < row.pdo.length := by
        rw [natural]
        have below : u32 ((row.pdo.length - 1 : Nat) : Int) ≤ row.pdo.length - 1 :=
          toUnsigned_le 32 _
        omega
      rw [slot_eq_ok.mpr (List.getElem?_eq_getElem inside)]
      constructor
      · intro _
        exact ⟨empty, by simp⟩
      · intro _
        exact Sound.ok _
  · rw [if_neg past]
    have inside : s.currentPdoIdx < row.pdo.length := by omega
    have looked := List.getElem?_eq_getElem inside
    have filled : row.pdo ≠ [] := List.ne_nil_of_length_pos (by omega)
    rw [looked, slot_eq_ok.mpr looked]
    by_cases due : elapsed ≤ row.pdo[s.currentPdoIdx]
    · constructor
      · intro _
        refine ⟨filled, ?_⟩
        intro slot same
        rw [← Option.some.inj same]
        exact due
      · intro _
        simp only [bind, Except.bind, check, decide_eq_true due]
        exact Sound.ok _
    · constructor
      · intro sound
        refine absurd ?_ (sound.asserted "pdo[current_pdo_idx_] >= timestamp_from_pdo_base")
        simp only [bind, Except.bind, check, decide_eq_false due]
        rfl
      · intro safe
        exact absurd (safe.2 _ rfl) due

theorem useCurrentPdo_sound_iff {time size : Nat} {s : LightPdo} {row : DelayPDOInstance}
    (small : size ≤ packetSize) (looked : cfg.delayPdoTraces.row s.currentDelayPdoIdx = .ok row)
    (sized : s.currentPdoSize = row.pdo.length) :
    (∀ fuel, Sound (useCurrentPdo fuel cfg time size s)) ↔
      SlotSafe row (s.timestampFromPdoBase time) size s := by
  have released : ∀ fuel taken, takeSlot fuel row (s.timestampFromPdoBase time) size s = .ok taken →
      (Sound (releaseOnSlot row (s.timestampFromPdoBase time) time taken) ↔
        SlotSafe row (s.timestampFromPdoBase time) size s) := by
    intro fuel taken took
    have keeps := takeSlot_keeps took
    rw [releaseOnSlot_sound_iff (keeps.currentPdoSize.trans sized), SlotSafe,
      taken_due_iff small sized took]
  constructor
  · intro sound
    obtain ⟨fuel, taken, took⟩ := takeSlot_returns (s.timestampFromPdoBase time) size sized
    apply (released fuel taken took).mp
    have whole := sound fuel
    have same : useCurrentPdo fuel cfg time size s =
        releaseOnSlot row (s.timestampFromPdoBase time) time taken >>= fun r =>
          .ok (r.1, { taken with bypassLinkPdo := r.2, lastDelayQueueReleaseTime := r.1 }) := by
      unfold useCurrentPdo
      rw [looked]
      show (do let s ← takeSlot fuel row (s.timestampFromPdoBase time) size s; _) = _
      rw [took]
      rfl
    rw [same] at whole
    cases result : releaseOnSlot row (s.timestampFromPdoBase time) time taken with
    | ok r => exact Sound.ok r
    | error fault =>
        rw [result] at whole
        exact ⟨fun other => whole.inRange (by cases other; rfl),
          fun text other => whole.asserted text (by cases other; rfl)⟩
  · intro safe fuel
    unfold useCurrentPdo
    apply Sound.bind
    · rw [looked]
      exact Sound.ok row
    · intro found same
      rw [looked] at same
      rw [← Except.ok.inj same]
      apply Sound.bind
      · exact takeSlot_sound sized
      · intro taken took
        apply Sound.bind
        · exact (released fuel taken took).mpr safe
        · intro r _
          exact Sound.ok _

/-- An instance that starts never leaves the trace. -/
theorem startInstance_sound {fuel time size : Nat} {s : LightPdo}
    (inside : s.currentDelayPdoIdx + 1 < cfg.delayPdoTraces.instances.length)
    (conversions : ∀ x a b fault, cfg.interpolate x a b = .error fault → fault = .conversion) :
    Sound (startInstance fuel cfg time size s) := by
  unfold startInstance
  apply Sound.bind (searchInstance_inside inside).1
  intro found result
  have within := (searchInstance_inside inside).2 found result
  rw [PacketTrainTrace.row_eq_ok _ within, PacketTrainTrace.row_eq_ok _ (by omega)]
  apply Sound.bind (Sound.ok _)
  intro row _
  apply Sound.bind (Sound.ok _)
  intro next _
  apply Sound.bind
  · cases interpolated : cfg.interpolate found.relativeTimestampMs row next with
    | ok delay => exact Sound.ok delay
    | error fault =>
        rw [conversions _ _ _ fault interpolated]
        exact Sound.conversion
  · intro delay _
    exact Sound.ok _

/-- In exact arithmetic the interpolation fails only where no `int` holds its value. -/
theorem exactInterpolate_conversion (x : Int) (a b : DelayPDOInstance) (fault : Fault)
    (failed : exactInterpolate x a b = .error fault) : fault = .conversion := by
  unfold exactInterpolate at failed
  split at failed
  · exact (Except.error.inj failed).symm
  · unfold toInt at failed
    extract_lets adjustedDelay truncated at failed
    by_cases range : -2 ^ 31 ≤ truncated ∧ truncated < 2 ^ 31
    · rw [if_pos range] at failed
      cases failed
    · rw [if_neg range] at failed
      exact (Except.error.inj failed).symm

end LightPdo

theorem Reaches.indexed {packetQueue : AbstractPacketQueue} {ops : List Op} {q : CellularQueue cfg}
    {t : Nat} (reaches : Reaches cfg (getPktReleaseTime cfg) packetQueue ops q t) :
    Indexed cfg.delayPdoTraces q.light := by
  have kept := reaches.invariant (I := fun q => Indexed cfg.delayPdoTraces q.light)
    (by
      intro q a next before act
      rcases act.read_or_unread with ⟨fuel, now, contents, _, read⟩ | unread
      · obtain ⟨releaseTime, light, offset, reading⟩ := readPacket_reading read
        have started : Indexed cfg.delayPdoTraces (q.startTrace now).light := by
          rw [startTrace_eq]
          exact ⟨before.inside, before.sized⟩
        have after := started.release reading.released
        rw [reading.next_eq]
        exact ⟨after.inside, after.sized⟩
      · rw [unread.light]
        exact before)
    (by
      intro linkTimestamp delayTimestamp
      have lines := cfg.delayPdoTraces.threeLines
      constructor
      · show 0 + 1 < _
        omega
      · intro started
        exact absurd (show (0 : Int) ≤ -1 from started) (by decide))
  exact kept.1

/-- In every reachable state, the accesses made for a packet are in range and the assertion holds
exactly when the packet starts an instance or finds a slot that is safe. -/
theorem release_sound_iff {packetQueue : AbstractPacketQueue} {ops : List Op}
    {q : CellularQueue cfg}
    {t now size : Nat} (reaches : Reaches cfg (getPktReleaseTime cfg) packetQueue ops q t)
    (small : size ≤ packetSize)
    (conversions : ∀ x a b fault, cfg.interpolate x a b = .error fault → fault = .conversion) :
    (∀ fuel, Sound (getPktReleaseTimeFromTrace fuel cfg now size (q.startTrace now).light)) ↔
      ((q.startTrace now).light.startNewShortPdoTrace cfg now = false →
        ∃ row, cfg.delayPdoTraces.row (q.startTrace now).light.currentDelayPdoIdx = .ok row ∧
          SlotSafe row ((q.startTrace now).light.timestampFromPdoBase now) size
            (q.startTrace now).light) := by
  have indexed : Indexed cfg.delayPdoTraces (q.startTrace now).light := by
    have kept := reaches.indexed
    rw [startTrace_eq]
    exact ⟨kept.inside, kept.sized⟩
  generalize (q.startTrace now).light = light at indexed
  unfold getPktReleaseTimeFromTrace
  cases starts : light.startNewShortPdoTrace cfg now with
  | true =>
      constructor
      · intro _ continues
        cases continues
      · intro _ fuel
        exact startInstance_sound indexed.inside conversions
  | false =>
      obtain ⟨row, looked, sized⟩ := indexed.sized (delayed_of_continues starts)
      have exact' : (∀ fuel, Sound (useCurrentPdo fuel cfg now size light)) ↔
          SlotSafe row (light.timestampFromPdoBase now) size light :=
        useCurrentPdo_sound_iff small looked sized
      constructor
      · intro sound _
        exact ⟨row, looked, exact'.mp sound⟩
      · intro safe
        obtain ⟨other, found, slot⟩ := safe rfl
        rw [looked] at found
        rw [← Except.ok.inj found] at slot
        exact exact'.mpr slot

/-- A train whose rows have a base delay and no slots. -/
def slotlessTrain : PacketTrainTrace :=
  ⟨[⟨0, 10, []⟩, ⟨100, 10, []⟩, ⟨200, 10, []⟩],
    by decide, by decide, by decide, by decide, by decide⟩

def slotless : Config := Config.ofTraces everyTenMs slotlessTrain true 5 fiveMs_range

/-- A train whose second slot is before the first one. -/
def backwardTrain : PacketTrainTrace :=
  ⟨[⟨0, 10, [10, 0]⟩, ⟨100, 10, [10, 0]⟩, ⟨200, 10, [10, 0]⟩], by decide, by decide, by decide,
    by decide, by decide⟩

def backward : Config := Config.ofTraces everyTenMs backwardTrain true 5 fiveMs_range

theorem firstPacket_timed : Op.Timed 0 0 [.readPacket 0 fullPacket] :=
    ⟨0, by simp, by simp [Op.Between], rfl⟩

/-- The constructor accepts both trains. With the first one the second packet reads a slot that is
not there; with the second one a packet at 5 ms finds the first slot full, moves to the slot at
0 ms, and fails the assertion. -/
theorem not_release_sound :
    (PacketTrainTrace.load "train" 0 ["0 10".toList, "100 10".toList, "200 10".toList] =
        .ok slotlessTrain ∧
      ∃ q : CellularQueue slotless,
        Reaches slotless (getPktReleaseTime slotless) (.infinite {})
        [.readPacket 0 fullPacket] q 0 ∧
        getPktReleaseTimeFromTrace 10 slotless 0 1400 (q.startTrace 0).light = .error .outOfRange) ∧
    (PacketTrainTrace.load "train" 0 ["0 10 10 0".toList, "100 10 10 0".toList,
    "200 10 10 0".toList] =
        .ok backwardTrain ∧
      ∃ q : CellularQueue backward,
        Reaches backward (getPktReleaseTime backward) (.infinite {})
        [.readPacket 0 fullPacket] q 0 ∧
        getPktReleaseTimeFromTrace 10 backward 5 1400 (q.startTrace 5).light =
          .error (.assertion "pdo[current_pdo_idx_] >= timestamp_from_pdo_base")) := by
  have slotlessRun : (Op.execAll (getPktReleaseTime slotless) 10 [.readPacket 0 fullPacket]
      (construct slotless (.infinite {}) 0 0)).toOption.map (fun q =>
        decide (getPktReleaseTimeFromTrace 10 slotless 0 1400 (q.startTrace 0).light =
          .error .outOfRange)) = some true := by decide +kernel
  have backwardRun : (Op.execAll (getPktReleaseTime backward) 10 [.readPacket 0 fullPacket]
      (construct backward (.infinite {}) 0 0)).toOption.map (fun q =>
        decide (getPktReleaseTimeFromTrace 10 backward 5 1400 (q.startTrace 5).light =
          .error (.assertion "pdo[current_pdo_idx_] >= timestamp_from_pdo_base"))) = some true := by
    decide +kernel
  obtain ⟨q, reaches, failed⟩ := Reaches.of_execAll firstPacket_timed slotlessRun
  obtain ⟨q', reaches', failed'⟩ := Reaches.of_execAll firstPacket_timed backwardRun
  exact ⟨⟨by decide +kernel, q, reaches, of_decide_eq_true failed⟩,
    ⟨by decide +kernel, q', reaches', of_decide_eq_true failed'⟩⟩

/-- In a row of two slots in order, with the first one full, a packet at 5 ms is given the second
one. -/
theorem release_sound_iff_inOrder : ∃ q : CellularQueue twoSlotsTenMs,
    Reaches twoSlotsTenMs (getPktReleaseTime twoSlotsTenMs) (.infinite {})
        [.readPacket 0 fullPacket] q 0 ∧
      (∃ after, getPktReleaseTimeFromTrace 10 twoSlotsTenMs 5 1400 (q.startTrace 5).light =
        .ok (30, after)) ∧
      ∀ fuel,
        Sound (getPktReleaseTimeFromTrace fuel twoSlotsTenMs 5 1400 (q.startTrace 5).light) := by
  have observed : (Op.execAll (getPktReleaseTime twoSlotsTenMs) 10 [.readPacket 0 fullPacket]
      (construct twoSlotsTenMs (.infinite {}) 0 0)).toOption.map (fun q =>
        ((getPktReleaseTimeFromTrace 10 twoSlotsTenMs 5 1400 (q.startTrace 5).light).map Prod.fst,
          (q.startTrace 5).light.currentDelayPdoIdx)) = some (.ok 30, 0) := by decide +kernel
  obtain ⟨q, reaches, seen⟩ := Reaches.of_execAll firstPacket_timed observed
  obtain ⟨release, first⟩ := Prod.mk.inj seen
  refine ⟨q, reaches, ?_, (release_sound_iff reaches (by decide) ?_).mpr ?_⟩
  · generalize getPktReleaseTimeFromTrace 10 twoSlotsTenMs 5 1400 (q.startTrace 5).light = returned
      at release
    match returned, release with
    | .ok (_, after), rfl => exact ⟨after, rfl⟩
  · exact exactInterpolate_conversion
  · intro _
    refine ⟨⟨0, 20, [0, 10]⟩, ?_, slotSafe_of_sorted (by decide) (by decide) _ _ _⟩
    rw [first]
    rfl

end CellReplay
