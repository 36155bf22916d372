import CellReplay.Frontend.Lookup
import CellReplay.Lib.NextFit

set_option autoImplicit false

namespace CellReplay

open MachineWord FueledLoop NextFit Transition CellularQueue

variable {cfg : Config}

theorem toInt_range {x : ℚ} {z : Int} (converted : toInt x = .ok z) : -2 ^ 31 ≤ z ∧ z < 2 ^ 31 := by
  unfold toInt at converted
  extract_lets truncated at converted
  by_cases range : -2 ^ 31 ≤ truncated ∧ truncated < 2 ^ 31
  · rw [if_pos range] at converted
    rw [← Except.ok.inj converted]
    exact range
  · rw [if_neg range] at converted
    cases converted

theorem exactInterpolate_int {x : Int} {a b : DelayPDOInstance} {delay : Int}
    (interpolated : exactInterpolate x a b = .ok delay) : -2 ^ 31 ≤ delay ∧ delay < 2 ^ 31 := by
  unfold exactInterpolate at interpolated
  split at interpolated
  · cases interpolated
  · exact toInt_range interpolated

theorem PacketTrainTrace.row_mem (trace : PacketTrainTrace) {i : Nat} {row : DelayPDOInstance}
    (looked : trace.row i = .ok row) : row ∈ trace.instances := by
  unfold PacketTrainTrace.row at looked
  split at looked
  · rename_i other found
    rw [← Except.ok.inj looked]
    exact List.mem_of_getElem? found
  · cases looked

namespace LightPdo

/-- `timestamp_from_pdo_base`: the time since the instance started. -/
def timestampFromPdoBase (time : Nat) (s : LightPdo) : Int :=
  i64 (s.relativeTimestampMs time - s.pdoBaseTimestamp)

/-- An instance in use has a base delay that is not negative. -/
theorem delayed_of_continues {time : Nat} {s : LightPdo}
    (continues : s.startNewShortPdoTrace cfg time = false) : 0 ≤ s.currentBaseDelay := by
  unfold startNewShortPdoTrace at continues
  have first := (Bool.or_eq_false_iff.mp continues).1
  simpa using first

/-- The members that describe the instance in use, the slot cursor aside, are the same. -/
structure KeepsInstance (s s' : LightPdo) : Prop where
  delayBaseTimestamp : s'.delayBaseTimestamp = s.delayBaseTimestamp
  currentDelayPdoIdx : s'.currentDelayPdoIdx = s.currentDelayPdoIdx
  currentPdoSize : s'.currentPdoSize = s.currentPdoSize
  pdoBaseTimestamp : s'.pdoBaseTimestamp = s.pdoBaseTimestamp
  currentBaseDelay : s'.currentBaseDelay = s.currentBaseDelay

theorem KeepsInstance.refl (s : LightPdo) : KeepsInstance s s := ⟨rfl, rfl, rfl, rfl, rfl⟩

theorem KeepsInstance.trans {a b c : LightPdo} (ab : KeepsInstance a b) (bc : KeepsInstance b c) :
    KeepsInstance a c :=
  ⟨bc.delayBaseTimestamp.trans ab.delayBaseTimestamp,
    bc.currentDelayPdoIdx.trans ab.currentDelayPdoIdx, bc.currentPdoSize.trans ab.currentPdoSize,
    bc.pdoBaseTimestamp.trans ab.pdoBaseTimestamp, bc.currentBaseDelay.trans ab.currentBaseDelay⟩

theorem nextSlot_keeps (s : LightPdo) : KeepsInstance s s.nextSlot := ⟨rfl, rfl, rfl, rfl, rfl⟩

/-- What the loop that finds the slot does: it passes some slots whose time has passed, and
finds the slot it stops at as it was, or with a whole opportunity left. -/
structure Passes (row : DelayPDOInstance) (elapsed : Int) (s passed : LightPdo) : Prop where
  keeps : KeepsInstance s passed
  forward : s.currentPdoIdx ≤ passed.currentPdoIdx
  late : ∀ i, s.currentPdoIdx ≤ i → i < passed.currentPdoIdx →
    i < s.currentPdoSize ∧ ∃ slot, row.pdo[i]? = some slot ∧ slot < elapsed
  fresh : passed = s ∨
    s.currentPdoIdx < passed.currentPdoIdx ∧ passed.currDeliveryOpportunity = packetSize

theorem slot_eq_ok {row : DelayPDOInstance} {i : Nat} {slot : Int} :
    row.slot i = .ok slot ↔ row.pdo[i]? = some slot := by
  unfold DelayPDOInstance.slot
  cases row.pdo[i]? with
  | none => simp
  | some other => simp

theorem Passes.refl (row : DelayPDOInstance) (elapsed : Int) (s : LightPdo) :
    Passes row elapsed s s := by
  refine ⟨KeepsInstance.refl s, Nat.le_refl _, ?_, Or.inl rfl⟩
  intro i from' below
  omega

theorem slotPassed_true {row : DelayPDOInstance} {elapsed : Int} {s : LightPdo}
    (test : slotPassed row elapsed s = .ok true) : s.currentPdoIdx < s.currentPdoSize ∧
      ∃ slot, row.pdo[s.currentPdoIdx]? = some slot ∧ slot < elapsed := by
  unfold slotPassed at test
  split at test
  · rename_i inside
    have ⟨slot, looked, compared⟩ := bind_eq_ok.mp test
    exact ⟨inside, slot, slot_eq_ok.mp looked, of_decide_eq_true (Except.ok.inj compared)⟩
  · cases test

theorem slotPassed_false {row : DelayPDOInstance} {elapsed : Int} {s : LightPdo}
    (test : slotPassed row elapsed s = .ok false) : s.currentPdoSize ≤ s.currentPdoIdx ∨
      ∃ slot, row.pdo[s.currentPdoIdx]? = some slot ∧ elapsed ≤ slot := by
  unfold slotPassed at test
  split at test
  · have ⟨slot, looked, compared⟩ := bind_eq_ok.mp test
    have before := of_decide_eq_false (Except.ok.inj compared)
    exact Or.inr ⟨slot, slot_eq_ok.mp looked, by omega⟩
  · exact Or.inl (by omega)

theorem Passes.turn {row : DelayPDOInstance} {elapsed : Int} {s a b : LightPdo}
    (passes : Passes row elapsed s a)
    (turn : Turn (slotPassed row elapsed) (fun s => .ok s.nextSlot) a b) :
    Passes row elapsed s b := by
  have forward := passes.forward
  have size := passes.keeps.currentPdoSize
  have ⟨inside, passed⟩ := slotPassed_true turn.1
  rw [← Except.ok.inj turn.2]
  refine ⟨passes.keeps.trans a.nextSlot_keeps, ?_, ?_, Or.inr ⟨?_, rfl⟩⟩
  · exact Nat.le_succ_of_le forward
  · intro i from' below
    have below : i < a.currentPdoIdx + 1 := below
    by_cases earlier : i < a.currentPdoIdx
    · exact passes.late i from' earlier
    · have same : i = a.currentPdoIdx := by omega
      rw [same, ← size]
      exact ⟨inside, passed⟩
  · exact Nat.lt_succ_of_le forward

/-- A slot found without room for a packet was not reached by passing others. -/
theorem Passes.unmoved {row : DelayPDOInstance} {elapsed : Int} {s passed : LightPdo} {size : Nat}
    (passes : Passes row elapsed s passed) (small : size ≤ packetSize)
    (full : u32 passed.currDeliveryOpportunity < size) : passed = s := by
  rcases passes.fresh with same | ⟨_, whole⟩
  · exact same
  · have word : u32 (packetSize : Int) = packetSize := by decide
    rw [whole, word] at full
    omega

/-- Where the loop that finds the slot stops: past the last slot, or at one not passed. -/
structure Stops (row : DelayPDOInstance) (elapsed : Int) (s : LightPdo) : Prop where
  due : s.currentPdoSize ≤ s.currentPdoIdx ∨
    ∃ slot, row.pdo[s.currentPdoIdx]? = some slot ∧ elapsed ≤ slot

/-- The slot for a packet, among those not passed: the next one if too few bytes are left. -/
def chooseSlot (size : Nat) (s : LightPdo) : LightPdo :=
  if u32 s.currDeliveryOpportunity < size then s.nextSlot else s

theorem takeSlot_cases {fuel size : Nat} {row : DelayPDOInstance} {elapsed : Int}
    {s taken : LightPdo} (run : takeSlot fuel row elapsed size s = .ok taken) :
    ∃ passed, Passes row elapsed s passed ∧ Stops row elapsed passed ∧
      taken = { chooseSlot size passed with
        currDeliveryOpportunity :=
          i32 (u32 ((chooseSlot size passed).currDeliveryOpportunity - size)) } := by
  have ⟨passed, looked, took⟩ := bind_eq_ok.mp run
  have ⟨passes, exit⟩ := whileLoop_inv (I := Passes row elapsed s)
    (fun _ _ before turn => before.turn turn) looked (Passes.refl row elapsed s)
  exact ⟨passed, passes, ⟨slotPassed_false exit⟩, (Except.ok.inj took).symm⟩

theorem chooseSlot_keeps (size : Nat) (s : LightPdo) : KeepsInstance s (chooseSlot size s) := by
  unfold chooseSlot
  split
  · exact s.nextSlot_keeps
  · exact KeepsInstance.refl s

/-- Taking a slot moves the cursor to the slot chosen. -/
theorem takeSlot_idx {fuel size : Nat} {row : DelayPDOInstance} {elapsed : Int} {s taken : LightPdo}
    (run : takeSlot fuel row elapsed size s = .ok taken) :
    ∃ passed, Passes row elapsed s passed ∧ Stops row elapsed passed ∧
      (u32 passed.currDeliveryOpportunity < size ∧ taken.currentPdoIdx = passed.currentPdoIdx + 1 ∨
        ¬ u32 passed.currDeliveryOpportunity < size ∧
        taken.currentPdoIdx = passed.currentPdoIdx) := by
  obtain ⟨passed, passes, stops, shape⟩ := takeSlot_cases run
  refine ⟨passed, passes, stops, ?_⟩
  by_cases full : u32 passed.currDeliveryOpportunity < size
  · rw [shape, chooseSlot, if_pos full]
    exact Or.inl ⟨full, rfl⟩
  · rw [shape, chooseSlot, if_neg full]
    exact Or.inr ⟨full, rfl⟩

/-- Taking a slot only moves the slot cursor. -/
theorem takeSlot_keeps {fuel size : Nat} {row : DelayPDOInstance} {elapsed : Int}
    {s taken : LightPdo}
    (run : takeSlot fuel row elapsed size s = .ok taken) : KeepsInstance s taken := by
  obtain ⟨passed, passes, _, shape⟩ := takeSlot_cases run
  have chosen := passes.keeps.trans (chooseSlot_keeps size passed)
  rw [shape]
  exact ⟨chosen.delayBaseTimestamp, chosen.currentDelayPdoIdx, chosen.currentPdoSize,
    chosen.pdoBaseTimestamp, chosen.currentBaseDelay⟩

theorem useCurrentPdo_cases {fuel time size r : Nat} {s s' : LightPdo}
    (run : useCurrentPdo fuel cfg time size s = .ok (r, s')) :
    ∃ row taken bypass, cfg.delayPdoTraces.row s.currentDelayPdoIdx = .ok row ∧
      takeSlot fuel row (s.timestampFromPdoBase time) size s = .ok taken ∧
      releaseOnSlot row (s.timestampFromPdoBase time) time taken = .ok (r, bypass) ∧
      s' = { taken with bypassLinkPdo := bypass, lastDelayQueueReleaseTime := r } := by
  have ⟨row, looked, run⟩ := bind_eq_ok.mp run
  have ⟨taken, took, run⟩ := bind_eq_ok.mp run
  have ⟨⟨release, bypass⟩, released, run⟩ := bind_eq_ok.mp run
  have ⟨same, state⟩ := Prod.mk.inj (Except.ok.inj run)
  rw [← same]
  exact ⟨row, taken, bypass, looked, took, released, state.symm⟩

theorem releaseOnSlot_cases {row : DelayPDOInstance} {elapsed : Int} {time r : Nat} {s : LightPdo}
    {bypass : Bool} (run : releaseOnSlot row elapsed time s = .ok (r, bypass)) :
    s.currentPdoSize ≤ s.currentPdoIdx ∧ bypass = false ∧ u64 (time + s.currentBaseDelay) ≤ r ∧
        r < 2 ^ 64 ∨
      s.currentPdoIdx < s.currentPdoSize ∧ bypass = true ∧ ∃ slot,
        row.pdo[s.currentPdoIdx]? = some slot ∧ elapsed ≤ slot ∧
        r = u64 (time + s.currentBaseDelay + (slot - elapsed)) := by
  unfold releaseOnSlot at run
  split at run
  · rename_i past
    have ⟨back, _, released⟩ := bind_eq_ok.mp run
    obtain ⟨release, flag⟩ := Prod.mk.inj (Except.ok.inj released)
    rw [← release]
    refine Or.inl ⟨past, flag.symm, Nat.le_max_left _ _, ?_⟩
    exact Nat.max_lt.mpr ⟨toUnsigned_lt 64 _, toUnsigned_lt 64 _⟩
  · rename_i inside
    have ⟨slot, looked, checked⟩ := bind_eq_ok.mp run
    have ⟨_, asserted, released⟩ := bind_eq_ok.mp checked
    obtain ⟨release, flag⟩ := Prod.mk.inj (Except.ok.inj released)
    have due : elapsed ≤ slot := by simpa using check_eq_ok.mp asserted
    exact Or.inr ⟨by omega, flag.symm, slot, slot_eq_ok.mp looked, due, release.symm⟩

/-- A release time is a `uint64_t`. -/
theorem getPktReleaseTimeFromTrace_word {fuel time size r : Nat} {s s' : LightPdo}
    (run : getPktReleaseTimeFromTrace fuel cfg time size s = .ok (r, s')) : r < 2 ^ 64 := by
  unfold getPktReleaseTimeFromTrace at run
  split at run
  · obtain ⟨_, _, _, delay, _, _, _, _, release, _⟩ := startInstance_cases run
    rw [release]
    exact toUnsigned_lt 64 _
  · obtain ⟨_, _, _, _, _, onSlot, _⟩ := useCurrentPdo_cases run
    rcases releaseOnSlot_cases onSlot with ⟨_, _, _, below⟩ | ⟨_, _, slot, _, _, same⟩
    · exact below
    · rw [same]
      exact toUnsigned_lt 64 _

end LightPdo

open LightPdo

/-- What happened in the light PDO instance in use: when it started, and the slot and size of each
packet scheduled on it. A history variable, which nothing reads. -/
structure InstanceLog where
  start : Nat
  slots : Placed
  deriving DecidableEq, Repr

/-- A packet that starts an instance is on its slot 0; a later one that may bypass the link is on
the slot it was scheduled with. -/
def InstanceLog.record (cfg : Config) (now size : Nat) (before after : LightPdo)
    (log : InstanceLog) :
    InstanceLog :=
  if before.startNewShortPdoTrace cfg now then ⟨now, [(0, size)]⟩
  else if after.bypassLinkPdo then { log with slots := log.slots ++ [(after.currentPdoIdx, size)] }
  else log

/-- The log a call leaves. -/
def Op.log (fuel : Nat) : Op → CellularQueue cfg → InstanceLog → InstanceLog
  | .readPacket now contents, q, log =>
      match getPktReleaseTime cfg fuel now contents (q.startTrace now).light with
      | .ok (_, light) => log.record cfg now contents.length (q.startTrace now).light light
      | .error _ => log
  | _, _, log => log

/-- The emulator with the release law of the source makes some calls, and they are logged. -/
def Logged (cfg : Config) (packetQueue : AbstractPacketQueue) (ops : List Op)
    (q : CellularQueue cfg) (t : Nat) (log : InstanceLog) : Prop :=
  Recorded cfg (getPktReleaseTime cfg) Op.log ⟨0, []⟩ packetQueue ops q t log

theorem Logged.reaches {packetQueue : AbstractPacketQueue} {ops : List Op} {q : CellularQueue cfg}
    {t : Nat} {log : InstanceLog} (logged : Logged cfg packetQueue ops q t log) :
    Reaches cfg (getPktReleaseTime cfg) packetQueue ops q t := Recorded.reaches logged

/-- What reading a packet does with the release law of the source. -/
structure Reading (fuel now : Nat) (contents : Bytes) (q next : CellularQueue cfg)
    (releaseTime : Nat) (light : LightPdo) (offset : Int) : Prop where
  large : 20 ≤ contents.length
  small : contents.length ≤ packetSize
  released : getPktReleaseTimeFromTrace fuel cfg now contents.length (q.startTrace now).light =
    .ok (releaseTime, light)
  rounded : latencyOffset cfg contents.length = .ok offset
  next_eq : next = { q.startTrace now with light := light }.emplace now contents
    (offsetReleaseTime (q.startTrace now).endReleaseTime releaseTime offset)

/-- The packet stored: at the end of the delay stage, with the flag left in the light PDO state. -/
theorem Reading.emplaced {fuel now releaseTime : Nat} {contents : Bytes}
    {q next : CellularQueue cfg} {light : LightPdo} {offset : Int}
    (reading : Reading fuel now contents q next releaseTime light offset) :
    next.emplaced = q.emplaced ++
      [⟨now, q.pktCounter, next.endReleaseTime, contents, next.light.bypassLinkPdo⟩] := by
  have shape := reading.next_eq
  rw [startTrace_eq] at shape
  rw [shape]
  rfl

theorem readPacket_reading {fuel now : Nat} {contents : Bytes} {q next : CellularQueue cfg}
    (run : q.readPacket (getPktReleaseTime cfg) fuel now contents = .ok next) :
    ∃ releaseTime light offset, Reading fuel now contents q next releaseTime light offset := by
  obtain ⟨large, small, releaseTime, light, offset, released, rounded, shape⟩ :=
    readPacket_cases run
  exact ⟨releaseTime, light, offset, large, small, released, rounded, shape⟩

/-- The invariant rule of logged runs: only reading a packet concerns the delay stage. -/
theorem Logged.invariant {I : CellularQueue cfg → Nat → InstanceLog → Prop}
    {packetQueue : AbstractPacketQueue} {ops : List Op} {q : CellularQueue cfg} {t : Nat}
    {log : InstanceLog} (logged : Logged cfg packetQueue ops q t log)
    (start : ∀ linkTimestamp delayTimestamp,
      I (construct cfg packetQueue linkTimestamp delayTimestamp) delayTimestamp ⟨0, []⟩)
    (read : ∀ (q next : CellularQueue cfg) ops fuel t now t' contents log releaseTime light offset,
      Logged cfg packetQueue ops q t log → I q t log → t ≤ now → now ≤ t' →
      Reading fuel now contents q next releaseTime light offset →
      I next t' (log.record cfg now contents.length (q.startTrace now).light light))
    (quiet : ∀ (q next : CellularQueue cfg) t t' log,
      I q t log → t ≤ t' → Unread q next → I next t' log) : I q t log := by
  apply Recorded.invariant logged
  · intro fuel op q log other
    cases op with
    | readPacket now contents => exact absurd rfl (other now contents)
    | writePackets clock => rfl
    | waitTime nowDelay nowLink => rfl
    | pendingOutput now => rfl
  · exact start
  · intro q next ops fuel t now t' contents log logged before later last reads
    obtain ⟨releaseTime, light, offset, reading⟩ := readPacket_reading reads
    have released : getPktReleaseTime cfg fuel now contents (q.startTrace now).light =
      .ok (releaseTime, light) := reading.released
    simp only [Op.log, released]
    exact read _ _ ops fuel _ now _ contents _ _ _ offset logged before later last reading
  · exact quiet

theorem Reading.keeps {fuel now releaseTime : Nat} {contents : Bytes} {q next : CellularQueue cfg}
    {light : LightPdo} {offset : Int}
    (reading : Reading fuel now contents q next releaseTime light offset) :
    KeepsInstance light next.light ∧ next.startTick = true := by
  have shape := reading.next_eq
  rw [startTrace_eq] at shape
  rw [shape]
  exact ⟨⟨rfl, rfl, rfl, rfl, rfl⟩, rfl⟩

/-- What locates the instance in use, up to the clock reading `t`: when it started. -/
structure Located (q : CellularQueue cfg) (t : Nat) (log : InstanceLog) : Prop where
  startTick : q.startTick = true
  based : q.light.delayBaseTimestamp ≤ log.start
  started : log.start ≤ t
  pdoBase : q.light.pdoBaseTimestamp = log.start - q.light.delayBaseTimestamp
  small : q.light.currentBaseDelay < 2 ^ 31

theorem Located.later {q : CellularQueue cfg} {t t' : Nat} {log : InstanceLog}
    (located : Located q t log) (ordered : t ≤ t') : Located q t' log := by
  have started := located.started
  exact ⟨located.startTick, located.based, by omega, located.pdoBase, located.small⟩

theorem Located.startTrace {q : CellularQueue cfg} {t : Nat} {log : InstanceLog}
    (located : Located q t log) (now : Nat) : (q.startTrace now).light = q.light := by
  unfold CellularQueue.startTrace
  rw [if_pos located.startTick]

/-- In an instance that is located the time since its start is exact. -/
theorem Located.elapsed {q : CellularQueue cfg} {now : Nat} {log : InstanceLog}
    (located : Located q now log) (clock : now < 2 ^ 63) :
    q.light.timestampFromPdoBase now = (now : Int) - log.start := by
  have based := located.based
  have started := located.started
  have relative : q.light.relativeTimestampMs now =
      ((now - q.light.delayBaseTimestamp : Nat) : Int) :=
    relative_exact clock (by omega)
  have natural : ((now - q.light.delayBaseTimestamp : Nat) : Int) -
      (log.start - q.light.delayBaseTimestamp : Nat) = (now : Int) - log.start := by omega
  have exact' := relative_exact clock started
  unfold timestampFromPdoBase
  rw [relative, located.pdoBase, natural, exact']
  omega

/-- The packet that starts an instance locates it. -/
theorem located_start {fuel now releaseTime T : Nat} {contents : Bytes} {q next : CellularQueue cfg}
    {light : LightPdo} {offset : Int} (clock : now < 2 ^ 63)
    (reading : Reading fuel now contents q next releaseTime light offset)
    (cursor : Cursor cfg.delayPdoTraces T now (q.startTrace now).light.currentDelayPdoIdx
      (q.startTrace now).light.delayBaseTimestamp)
    (starts : (q.startTrace now).light.startNewShortPdoTrace cfg now = true) (slots : Placed) :
    Located next now ⟨now, slots⟩ := by
  have released := reading.released
  unfold getPktReleaseTimeFromTrace at released
  rw [if_pos starts] at released
  obtain ⟨found, row, following, delay, search, _, _, _, _, state⟩ := startInstance_cases released
  obtain ⟨kept, -⟩ := searchInstance_found (by omega) (searching_start cursor) search
  obtain ⟨keeps, startTick⟩ := reading.keeps
  refine ⟨startTick, ?_, Nat.le_refl now, ?_, ?_⟩
  · rw [keeps.delayBaseTimestamp, state]
    exact kept.cursor.started
  · rw [keeps.pdoBaseTimestamp, keeps.delayBaseTimestamp, state]
    exact kept.word (show now < 2 ^ 64 by omega)
  · rw [keeps.currentBaseDelay, state, beginInstance_currentBaseDelay]
    exact toSigned_lt 31 _

/-- A packet that uses the instance leaves it located. -/
theorem located_continue {fuel now releaseTime : Nat} {contents : Bytes}
    {q next : CellularQueue cfg} {light : LightPdo} {offset : Int} {log : InstanceLog}
    (reading : Reading fuel now contents q next releaseTime light offset)
    (located : Located q now log)
    (continues : (q.startTrace now).light.startNewShortPdoTrace cfg now = false) (slots : Placed) :
    Located next now ⟨log.start, slots⟩ ∧ KeepsInstance q.light next.light := by
  have released := reading.released
  rw [located.startTrace] at released continues
  unfold getPktReleaseTimeFromTrace at released
  rw [if_neg (by rw [continues]; exact Bool.false_ne_true)] at released
  obtain ⟨row, taken, bypass, _, took, _, state⟩ := useCurrentPdo_cases released
  obtain ⟨stored, startTick⟩ := reading.keeps
  rw [state] at stored
  have keeps : KeepsInstance q.light next.light := by
    apply (takeSlot_keeps took).trans
    exact ⟨stored.delayBaseTimestamp, stored.currentDelayPdoIdx, stored.currentPdoSize,
      stored.pdoBaseTimestamp, stored.currentBaseDelay⟩
  refine ⟨⟨startTick, ?_, located.started, ?_, ?_⟩, keeps⟩
  · rw [keeps.delayBaseTimestamp]
    exact located.based
  · rw [keeps.pdoBaseTimestamp, keeps.delayBaseTimestamp]
    exact located.pdoBase
  · rw [keeps.currentBaseDelay]
    exact located.small

/-- A base delay that is not negative is that of an instance in use, and that one is located. -/
theorem Logged.located {packetQueue : AbstractPacketQueue} {ops : List Op} {q : CellularQueue cfg}
    {t : Nat} {log : InstanceLog} (logged : Logged cfg packetQueue ops q t log) :
    t < 2 ^ 63 → 0 ≤ q.light.currentBaseDelay → Located q t log := by
  apply logged.invariant
    (I := fun q t log => t < 2 ^ 63 → 0 ≤ q.light.currentBaseDelay → Located q t log)
  · intro linkTimestamp delayTimestamp _ delayed
    exact absurd (show (0 : Int) ≤ -1 from delayed) (by decide)
  · intro q next ops fuel t now t' contents log releaseTime light offset logged before later last
      reading clock delayed
    have cursor := (logged.reaches.tracked (by omega)).cursor later
    unfold InstanceLog.record
    cases starts : (q.startTrace now).light.startNewShortPdoTrace cfg now with
    | true =>
        rw [if_pos rfl]
        exact (located_start (by omega) reading cursor starts _).later last
    | false =>
        rw [if_neg Bool.false_ne_true]
        have used : 0 ≤ q.light.currentBaseDelay := by
          have delayed := delayed_of_continues starts
          rw [startTrace_eq] at delayed
          exact delayed
        have located := (before (by omega) used).later later
        have kept := fun slots => (located_continue reading located starts slots).1.later last
        split
        · exact kept _
        · exact kept _
  · intro q next t t' log before later unread clock delayed
    rw [unread.light] at delayed
    have located := (before (by omega) delayed).later later
    refine ⟨?_, ?_, located.started, ?_, ?_⟩
    · rw [unread.startTick]
      exact located.startTick
    all_goals rw [unread.light]
    · exact located.based
    · exact located.pdoBase
    · exact located.small

end CellReplay
