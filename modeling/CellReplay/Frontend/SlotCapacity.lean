import CellReplay.Frontend.LightSlots

set_option autoImplicit false

namespace CellReplay

open MachineWord NextFit Transition CellularQueue LightPdo

variable {cfg : Config}

namespace LightPdo

/-- What is scheduled fits its slots, and the bytes left of the current slot are not more than
are left. -/
structure Slotted (s : LightPdo) (slots : Placed) : Prop where
  nonneg : 0 ≤ s.currDeliveryOpportunity
  fits : Fits packetSize s.currentPdoIdx s.currDeliveryOpportunity.toNat slots

variable {s : LightPdo} {slots : Placed}

theorem Slotted.bounded (slotted : Slotted s slots) : s.currDeliveryOpportunity ≤ packetSize := by
  have nonneg := slotted.nonneg
  have room := slotted.fits.room
  omega

/-- So the comparison with a packet size, an unsigned one, is exact. -/
theorem Slotted.word (slotted : Slotted s slots) :
    u32 s.currDeliveryOpportunity = s.currDeliveryOpportunity.toNat := by
  have nonneg := slotted.nonneg
  have bounded := slotted.bounded
  have small : (packetSize : Int) < 2 ^ 32 := by decide
  have word : (u32 s.currDeliveryOpportunity : Int) = s.currDeliveryOpportunity :=
    toUnsigned_of_range 32 _ nonneg (by omega)
  omega

theorem Slotted.skip (slotted : Slotted s slots) {further : LightPdo}
    (later : s.currentPdoIdx < further.currentPdoIdx)
    (whole : further.currDeliveryOpportunity = packetSize) : Slotted further slots := by
  constructor
  · rw [whole]
    exact Int.natCast_nonneg packetSize
  · rw [whole, Int.toNat_natCast]
    exact slotted.fits.skip later

theorem Slotted.passes {row : DelayPDOInstance} {elapsed : Int} {passed : LightPdo}
    (slotted : Slotted s slots) (passes : Passes row elapsed s passed) : Slotted passed slots := by
  rcases passes.fresh with same | ⟨later, whole⟩
  · rw [same]
    exact slotted
  · exact slotted.skip later whole

/-- The slot chosen for a packet has room for it. -/
theorem Slotted.choose {size : Nat} (slotted : Slotted s slots) (small : size ≤ packetSize) :
    Slotted (chooseSlot size s) slots ∧
      (size : Int) ≤ (chooseSlot size s).currDeliveryOpportunity := by
  have nonneg := slotted.nonneg
  have word := slotted.word
  unfold chooseSlot
  by_cases full : u32 s.currDeliveryOpportunity < size
  · rw [if_pos full]
    exact ⟨slotted.skip (Nat.lt_succ_self _) rfl, Int.ofNat_le.mpr small⟩
  · rw [if_neg full]
    exact ⟨slotted, by omega⟩

/-- The bytes left are an `int` again after a packet is burned. -/
theorem burned_exact {room : Int} {size : Nat} (enough : (size : Int) ≤ room)
    (bounded : room ≤ packetSize) : i32 (u32 (room - size)) = room - size := by
  have small : (packetSize : Int) < 2 ^ 31 := by decide
  have word : (u32 (room - size) : Int) = room - size :=
    toUnsigned_of_range 32 _ (by omega) (by omega)
  rw [word]
  exact toSigned_of_range 32 _ (by decide) (by omega) (by omega)

/-- A packet that takes a slot fits there, whether it is counted or not. -/
theorem Slotted.take {fuel size : Nat} {row : DelayPDOInstance} {elapsed : Int} {taken : LightPdo}
    (slotted : Slotted s slots) (small : size ≤ packetSize)
    (run : takeSlot fuel row elapsed size s = .ok taken) :
    Slotted taken slots ∧ Slotted taken (slots ++ [(taken.currentPdoIdx, size)]) := by
  obtain ⟨passed, passes, _, shape⟩ := takeSlot_cases run
  obtain ⟨chosen, room⟩ := (slotted.passes passes).choose small
  have exact' := burned_exact room chosen.bounded
  have nonneg : 0 ≤ (chooseSlot size passed).currDeliveryOpportunity - size := by omega
  have less : ((chooseSlot size passed).currDeliveryOpportunity - size).toNat =
      (chooseSlot size passed).currDeliveryOpportunity.toNat - size := by omega
  rw [shape, exact']
  constructor
  · refine ⟨nonneg, ?_⟩
    dsimp only
    rw [less]
    exact chosen.fits.shrink (Nat.sub_le _ _)
  · refine ⟨nonneg, ?_⟩
    dsimp only
    rw [less]
    exact chosen.fits.put (by omega)

/-- An instance starts with its first packet on slot 0. -/
theorem slotted_begin {time size : Nat} (small : size ≤ packetSize) (found : InstanceSearch)
    (row : DelayPDOInstance) (delay : Int) :
    Slotted (beginInstance time size found row delay s) [(0, size)] := by
  have exact' : i32 (u32 ((packetSize : Int) - size)) = packetSize - size :=
    burned_exact (Int.ofNat_le.mpr small) (Int.le_refl _)
  have less : ((packetSize : Int) - size).toNat = packetSize - size := by omega
  unfold beginInstance
  rw [exact']
  constructor
  · dsimp only
    omega
  · dsimp only
    rw [less]
    exact (Fits.empty packetSize 0).put small

/-- Every packet keeps the slots of its instance within their capacity. -/
theorem Slotted.record {fuel now size r : Nat} {s' : LightPdo} {log : InstanceLog}
    (slotted : Slotted s log.slots) (small : size ≤ packetSize)
    (run : getPktReleaseTimeFromTrace fuel cfg now size s = .ok (r, s')) :
    Slotted s' (log.record cfg now size s s').slots := by
  unfold getPktReleaseTimeFromTrace at run
  unfold InstanceLog.record
  by_cases starts : s.startNewShortPdoTrace cfg now = true
  · rw [if_pos starts] at run ⊢
    obtain ⟨found, row, next, delay, _, _, _, _, _, state⟩ := startInstance_cases run
    rw [state]
    exact slotted_begin small found row delay
  · rw [if_neg starts] at run ⊢
    obtain ⟨row, taken, bypass, _, took, _, state⟩ := useCurrentPdo_cases run
    obtain ⟨uncounted, counted⟩ := slotted.take small took
    rw [state]
    cases bypass with
    | true => exact ⟨counted.nonneg, counted.fits⟩
    | false => exact ⟨uncounted.nonneg, uncounted.fits⟩

end LightPdo

theorem Logged.slotted {packetQueue : AbstractPacketQueue} {ops : List Op} {q : CellularQueue cfg}
    {t : Nat} {log : InstanceLog} (logged : Logged cfg packetQueue ops q t log) :
    Slotted q.light log.slots := by
  apply logged.invariant (I := fun q _ log => Slotted q.light log.slots)
  · intro linkTimestamp delayTimestamp
    exact ⟨Int.natCast_nonneg packetSize, Fits.empty packetSize 0⟩
  · intro q next ops fuel t now t' contents log releaseTime light offset _ slotted _ _ reading
    have before : Slotted (q.startTrace now).light log.slots := by
      rw [startTrace_eq]
      exact ⟨slotted.nonneg, slotted.fits⟩
    have after := before.record reading.small reading.released
    rw [reading.next_eq]
    exact ⟨after.nonneg, after.fits⟩
  · intro q next t t' log slotted _ unread
    rw [unread.light]
    exact slotted

/-- A packet moves the cursor past the slots of its instance by one at most. -/
theorem getPktReleaseTimeFromTrace_idx {fuel now size r : Nat} {s s' : LightPdo}
    (small : size ≤ packetSize)
    (run : getPktReleaseTimeFromTrace fuel cfg now size s = .ok (r, s')) :
    s'.currentPdoIdx ≤ s'.currentPdoSize ∨
      s'.currentPdoSize = s.currentPdoSize ∧ s'.currentPdoIdx ≤ s.currentPdoIdx + 1 := by
  unfold getPktReleaseTimeFromTrace at run
  split at run
  · obtain ⟨found, row, next, delay, _, _, _, _, _, state⟩ := startInstance_cases run
    left
    rw [state]
    exact Nat.zero_le _
  · obtain ⟨row, taken, bypass, _, took, _, state⟩ := useCurrentPdo_cases run
    obtain ⟨passed, passes, _, moved⟩ := takeSlot_idx took
    have kept := (takeSlot_keeps took).currentPdoSize
    have forward := passes.forward
    rw [state]
    show taken.currentPdoIdx ≤ taken.currentPdoSize ∨ taken.currentPdoSize = s.currentPdoSize ∧
      taken.currentPdoIdx ≤ s.currentPdoIdx + 1
    by_cases stays : passed.currentPdoIdx = s.currentPdoIdx
    · omega
    · have inside := (passes.late (passed.currentPdoIdx - 1) (by omega) (by omega)).1
      have room : ¬ u32 passed.currDeliveryOpportunity < size := by
        intro full
        exact stays (by rw [passes.unmoved small full])
      omega

/-- So it is not ahead of them by more than the packets read. -/
theorem Logged.currentPdoIdx_le {packetQueue : AbstractPacketQueue} {ops : List Op}
    {q : CellularQueue cfg} {t : Nat} {log : InstanceLog}
    (logged : Logged cfg packetQueue ops q t log) :
    q.light.currentPdoIdx ≤ q.light.currentPdoSize + q.emplaced.length := by
  apply logged.invariant
    (I := fun q _ _ => q.light.currentPdoIdx ≤ q.light.currentPdoSize + q.emplaced.length)
  · intro linkTimestamp delayTimestamp
    exact Nat.zero_le _
  · intro q next ops fuel t now t' contents log releaseTime light offset _ before _ _ reading
    have moved := getPktReleaseTimeFromTrace_idx reading.small reading.released
    have size := reading.keeps.1.currentPdoSize
    have idx : next.light.currentPdoIdx = light.currentPdoIdx := by
      rw [reading.next_eq]
      rfl
    rw [startTrace_eq] at moved
    rw [reading.emplaced, List.length_append, List.length_singleton, idx, size]
    dsimp only at moved
    omega
  · intro q next t t' log before _ unread
    rw [unread.light, unread.emplaced]
    exact before

/-- Between two starts of an instance each slot carries at most one opportunity's worth of bytes,
the slots are taken in order, and the bytes left are an `int` from 0 to 1400, which compares as an
unsigned one. The cursor, an `unsigned int`, does not wrap around before 2^32 packets and slots. -/
theorem slots_within_capacity {packetQueue : AbstractPacketQueue} {ops : List Op}
    {q : CellularQueue cfg} {t : Nat} {log : InstanceLog}
    (logged : Logged cfg packetQueue ops q t log) :
    (∀ i, load log.slots i ≤ packetSize) ∧ log.slots.Pairwise (fun a b => a.1 ≤ b.1) ∧
      0 ≤ q.light.currDeliveryOpportunity ∧ q.light.currDeliveryOpportunity ≤ packetSize ∧
      (u32 q.light.currDeliveryOpportunity : Int) = q.light.currDeliveryOpportunity ∧
      q.light.currentPdoIdx ≤ q.light.currentPdoSize + q.emplaced.length := by
  have slotted := logged.slotted
  have nonneg := slotted.nonneg
  refine ⟨slotted.fits.bounded, slotted.fits.ordered, nonneg, slotted.bounded, ?_,
    logged.currentPdoIdx_le⟩
  rw [slotted.word]
  exact Int.toNat_of_nonneg nonneg

/-- Packets of 700, 700, 800 and 700 bytes at once, for two opportunities of 1400 bytes. -/
def fourAtOnce : List Op :=
  [.readPacket 0 (List.replicate 700 0), .readPacket 0 (List.replicate 700 0),
    .readPacket 0 (List.replicate 800 0), .readPacket 0 (List.replicate 700 0)]

theorem fourAtOnce_timed : Op.Timed 0 0 fourAtOnce := by
  refine ⟨0, ?_, ?_, 0, ?_, ?_, 0, ?_, ?_, 0, ?_, ?_, rfl⟩
  all_goals simp [Op.Between]

/-- The first two share slot 0, the third one is on slot 1, and the last one is on neither. -/
theorem slots_within_capacity_fourAtOnce : ∃ (q : CellularQueue twoSlotsTenMs) (log : InstanceLog),
    Logged twoSlotsTenMs (.infinite {}) fourAtOnce q 0 log ∧
      log.slots = [(0, 700), (0, 700), (1, 800)] ∧ ∀ i, load log.slots i ≤ packetSize := by
  have observed : (Op.execRecorded (getPktReleaseTime twoSlotsTenMs) Op.log 10 fourAtOnce
      (construct twoSlotsTenMs (.infinite {}) 0 0, ⟨0, []⟩)).toOption.map (fun s => s.2.slots) =
      some [(0, 700), (0, 700), (1, 800)] := by decide +kernel
  obtain ⟨q, log, logged, slots⟩ := Recorded.of_execRecorded fourAtOnce_timed observed
  exact ⟨q, log, logged, slots, (slots_within_capacity logged).1⟩

end CellReplay
