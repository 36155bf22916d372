import CellReplay.Frontend.Execution

set_option autoImplicit false

namespace CellReplay

open MachineWord FueledLoop Transition CellularQueue

variable {cfg : Config}

namespace PacketTrainTrace

variable (trace : PacketTrainTrace)

theorem row_eq_ok {i : Nat} (inside : i < trace.instances.length) :
    trace.row i = .ok trace.instances[i] := by
  unfold row
  rw [List.getElem?_eq_getElem inside]

/-- Where a relative time is in the recorded trace: between row `i` and the next one. -/
structure LiesAt (x i : Nat) : Prop where
  inside : i + 1 < trace.instances.length
  reached : trace.time i ≤ x
  before : x < trace.time (i + 1)

end PacketTrainTrace

/-- What the persistent cursor keeps up to time `t`, for a trace started at `T`: it is at a row
already reached, in some round of the trace, or at the first row. -/
structure Cursor (trace : PacketTrainTrace) (T t idx base : Nat) : Prop where
  inside : idx + 1 < trace.instances.length
  round : ∃ c, base = T + c * trace.last
  started : base ≤ t
  reached : idx = 0 ∨ trace.time idx ≤ t - base

theorem Cursor.later {trace : PacketTrainTrace} {T t t' idx base : Nat}
    (cursor : Cursor trace T t idx base) (ordered : t ≤ t') : Cursor trace T t' idx base := by
  have started := cursor.started
  refine ⟨cursor.inside, cursor.round, by omega, ?_⟩
  rcases cursor.reached with first | reached
  · exact Or.inl first
  · exact Or.inr (by omega)

/-- The cursor at a packet that is the first one. -/
theorem Cursor.start (trace : PacketTrainTrace) (T : Nat) : Cursor trace T T 0 T := by
  have lines := trace.threeLines
  exact ⟨by omega, ⟨0, by omega⟩, Nat.le_refl T, Or.inl rfl⟩

namespace LightPdo

/-- A difference of clock readings is exact as an `int64_t`. -/
theorem relative_exact {t base : Nat} (clock : t < 2 ^ 63) (ordered : base ≤ t) :
    i64 ((t : Int) - base) = ((t - base : Nat) : Int) := by
  have natural : ((t : Int) - base) = ((t - base : Nat) : Int) := by omega
  rw [natural]
  apply toSigned_of_range 64 _ (by decide)
  · omega
  · omega

/-- The search loop looks from a cursor at the relative time of `t`. -/
structure Searching (trace : PacketTrainTrace) (T t : Nat) (s : InstanceSearch) : Prop where
  cursor : Cursor trace T t s.currentDelayPdoIdx s.delayBaseTimestamp
  relative : s.relativeTimestampMs = i64 ((t : Int) - s.delayBaseTimestamp)

section
variable {trace : PacketTrainTrace} {T t : Nat} {s : InstanceSearch} (clock : t < 2 ^ 64)
include clock

/-- As an unsigned word the relative time is exact for every reading of the clock. -/
theorem Searching.word (searching : Searching trace T t s) :
    u64 s.relativeTimestampMs = t - s.delayBaseTimestamp := by
  have started := searching.cursor.started
  have natural : ((t : Int) - s.delayBaseTimestamp) = ((t - s.delayBaseTimestamp : Nat) : Int) := by
    omega
  rw [searching.relative, u64, i64, toUnsigned_toSigned, natural]
  exact toUnsigned_natCast 64 _ (by omega)

/-- The test of the search loop compares the next row with the relative time. -/
theorem nextRowReached_eq (searching : Searching trace T t s) :
    nextRowReached trace s = .ok (decide
      (trace.time (s.currentDelayPdoIdx + 1) ≤ t - s.delayBaseTimestamp)) := by
  have inside := searching.cursor.inside
  unfold nextRowReached
  rw [trace.row_eq_ok inside, searching.word clock, trace.time_eq _ inside]
  rfl

/-- One turn of the search loop goes to the next row, or to the first one of the next round. -/
theorem advanceRow_eq (searching : Searching trace T t s)
    (due : trace.time (s.currentDelayPdoIdx + 1) ≤ t - s.delayBaseTimestamp) :
    ∃ next, advanceRow trace t s = .ok next ∧ Searching trace T t next ∧
      (next.currentDelayPdoIdx = s.currentDelayPdoIdx + 1 ∧
          next.delayBaseTimestamp = s.delayBaseTimestamp ∨
        next.currentDelayPdoIdx = 0 ∧
          next.delayBaseTimestamp = s.delayBaseTimestamp + trace.last) := by
  have inside := searching.cursor.inside
  have started := searching.cursor.started
  have ⟨c, round⟩ := searching.cursor.round
  by_cases final : trace.lastIdx ≤ s.currentDelayPdoIdx + 1
  · have index : s.currentDelayPdoIdx + 1 = trace.lastIdx := by
      unfold PacketTrainTrace.lastIdx at final ⊢
      omega
    have last : trace.time (s.currentDelayPdoIdx + 1) = trace.last := by
      rw [index]
      rfl
    have word : u64 ((s.delayBaseTimestamp : Int) + trace.last) =
        s.delayBaseTimestamp + trace.last :=
      toUnsigned_natCast 64 (s.delayBaseTimestamp + trace.last) (by omega)
    refine ⟨⟨0, s.delayBaseTimestamp + trace.last,
      i64 (t - (s.delayBaseTimestamp + trace.last : Nat))⟩,
      ?_, ?_, Or.inr ⟨rfl, rfl⟩⟩
    · unfold advanceRow
      have time := trace.time_eq _ inside
      rw [last] at time
      simp only [if_pos final, trace.row_eq_ok inside, bind, Except.bind]
      rw [← time, word]
    · have lines := trace.threeLines
      refine ⟨⟨by simp only; omega, ⟨c + 1, ?_⟩, ?_, Or.inl rfl⟩, ?_⟩
      · rw [round, Nat.add_mul, Nat.one_mul, Nat.add_assoc]
      · simp only
        omega
      · rfl
  · refine ⟨{ s with currentDelayPdoIdx := s.currentDelayPdoIdx + 1 }, ?_, ?_, Or.inl ⟨rfl, rfl⟩⟩
    · unfold advanceRow
      simp only [if_neg final]
    · refine ⟨⟨?_, ⟨c, round⟩, started, Or.inr due⟩, searching.relative⟩
      unfold PacketTrainTrace.lastIdx at final
      simp only
      omega

/-- The search returns, at the first row not passed in the round of `t`. -/
theorem searchInstance_returns (lasting : 0 < trace.last) (searching : Searching trace T t s) :
    ∃ fuel found,
      whileLoop Fault.fuel (nextRowReached trace) (advanceRow trace t) fuel s = .ok found := by
  let measure (s : InstanceSearch) : Nat :=
    (t - s.delayBaseTimestamp) * trace.instances.length +
      (trace.instances.length - s.currentDelayPdoIdx)
  refine ⟨measure s + 1, ?_⟩
  apply whileLoop_returns (I := Searching trace T t) measure
  · intro s searching
    exact ⟨_, nextRowReached_eq clock searching⟩
  · intro s searching test
    rw [nextRowReached_eq clock searching] at test
    have due := of_decide_eq_true (Except.ok.inj test)
    have ⟨next, turn, kept, moved⟩ := advanceRow_eq clock searching due
    refine ⟨next, turn, kept, ?_⟩
    have inside := searching.cursor.inside
    have started := kept.cursor.started
    show (t - next.delayBaseTimestamp) * trace.instances.length +
        (trace.instances.length - next.currentDelayPdoIdx) <
      (t - s.delayBaseTimestamp) * trace.instances.length +
        (trace.instances.length - s.currentDelayPdoIdx)
    rcases moved with ⟨idx, base⟩ | ⟨idx, base⟩
    · rw [idx, base]
      omega
    · rw [idx]
      have earlier : t - next.delayBaseTimestamp + 1 ≤ t - s.delayBaseTimestamp := by omega
      have product := Nat.mul_le_mul_right trace.instances.length earlier
      rw [Nat.add_mul, Nat.one_mul] at product
      omega
  · exact searching
  · omega

/-- Where the search stops: in the round of `t`, before the next row. -/
theorem searchInstance_found {fuel : Nat} {found : InstanceSearch}
    (searching : Searching trace T t s)
    (run : whileLoop Fault.fuel (nextRowReached trace) (advanceRow trace t) fuel s = .ok found) :
    Searching trace T t found ∧
      found.delayBaseTimestamp = T + (t - T) / trace.last * trace.last ∧
      t - found.delayBaseTimestamp = (t - T) % trace.last ∧
      (t - T) % trace.last < trace.time (found.currentDelayPdoIdx + 1) := by
  have ⟨kept, exit⟩ := whileLoop_inv (I := Searching trace T t)
    (by
      intro a b before turn
      have test := turn.1
      rw [nextRowReached_eq clock before] at test
      have ⟨next, advanced, kept, _⟩ :=
        advanceRow_eq clock before (of_decide_eq_true (Except.ok.inj test))
      have step := turn.2
      rw [advanced] at step
      rw [← Except.ok.inj step]
      exact kept)
    run searching
  rw [nextRowReached_eq clock kept] at exit
  have before := of_decide_eq_false (Except.ok.inj exit)
  have inside := kept.cursor.inside
  have started := kept.cursor.started
  have ⟨c, round⟩ := kept.cursor.round
  have within : trace.time (found.currentDelayPdoIdx + 1) ≤ trace.last := by
    apply trace.time_mono _ _ _ trace.lastIdx_lt
    unfold PacketTrainTrace.lastIdx
    omega
  have parts : (t - T) / trace.last = c ∧ (t - T) % trace.last = t - found.delayBaseTimestamp := by
    rw [Nat.div_mod_unique (by omega)]
    constructor
    · rw [Nat.mul_comm]
      omega
    · omega
  rw [parts.1, parts.2]
  exact ⟨kept, round, rfl, by omega⟩

end

/-- The place found is that of the recorded trace exactly when the first row is reached there. -/
theorem liesAt_iff {trace : PacketTrainTrace} {T t idx base : Nat}
    (cursor : Cursor trace T t idx base) (before : t - base < trace.time (idx + 1)) :
    trace.LiesAt (t - base) idx ↔ trace.time 0 ≤ t - base := by
  have inside := cursor.inside
  constructor
  · intro lies
    have ordered := trace.time_mono 0 idx (Nat.zero_le _) (by omega)
    have reached := lies.reached
    omega
  · intro first
    rcases cursor.reached with zero | reached
    · rw [zero] at inside before ⊢
      exact ⟨inside, first, before⟩
    · exact ⟨inside, reached, before⟩

/-- A value between two `int`s that are not negative is truncated between them. -/
theorem toInt_between {x : ℚ} {low high : Int} (nonneg : 0 ≤ low) (small : high < 2 ^ 31)
    (above : (low : ℚ) ≤ x) (below : x ≤ (high : ℚ)) :
    ∃ z, toInt x = .ok z ∧ low ≤ z ∧ z ≤ high := by
  have positive : (0 : ℚ) ≤ x := le_trans (by exact_mod_cast nonneg) above
  have floorAbove : low ≤ ⌊x⌋ := Int.le_floor.mpr above
  have floorBelow : ⌊x⌋ ≤ high := by
    have cast : ((⌊x⌋ : Int) : ℚ) ≤ (high : ℚ) := le_trans (Int.floor_le x) below
    exact_mod_cast cast
  refine ⟨⌊x⌋, ?_, floorAbove, floorBelow⟩
  unfold toInt
  rw [if_pos positive, if_pos ⟨by omega, by omega⟩]

/-- Between two rows the ratio is a proper one. -/
theorem interpolationRatio_proper {x : Nat} {current next : DelayPDOInstance}
    (reached : current.time ≤ x) (before : x < next.time) (word : next.time < 2 ^ 64) :
    0 ≤ interpolationRatio x current next ∧ interpolationRatio x current next < 1 ∧
      u64 ((next.time : Int) - current.time) ≠ 0 := by
  have above : u64 ((x : Int) - current.time) = x - current.time := by
    have natural : ((x : Int) - current.time) = ((x - current.time : Nat) : Int) := by omega
    rw [natural]
    exact toUnsigned_natCast 64 _ (by omega)
  have width : u64 ((next.time : Int) - current.time) = next.time - current.time := by
    have natural :
      ((next.time : Int) - current.time) = ((next.time - current.time : Nat) : Int) := by
      omega
    rw [natural]
    exact toUnsigned_natCast 64 _ (by omega)
  unfold interpolationRatio
  rw [above, width]
  have positive : (0 : ℚ) < ((next.time - current.time : Nat) : ℚ) := by
    exact_mod_cast (by omega : 0 < next.time - current.time)
  refine ⟨by positivity, ?_, by omega⟩
  rw [div_lt_one positive]
  exact_mod_cast (by omega : x - current.time < next.time - current.time)

/-- Linear interpolation at a proper ratio stays between its ends. -/
theorem interpolation_between {a b r : ℚ} (nonneg : 0 ≤ r) (below : r < 1) :
    min a b ≤ a + r * (b - a) ∧ a + r * (b - a) ≤ max a b := by
  rcases le_total a b with rising | falling
  · rw [min_eq_left rising, max_eq_right rising]
    have step : 0 ≤ b - a := by linarith
    have product := mul_nonneg nonneg step
    have bounded := mul_le_of_le_one_left step (le_of_lt below)
    constructor
    · linarith
    · linarith
  · rw [min_eq_right falling, max_eq_left falling]
    have step : 0 ≤ a - b := by linarith
    have product := mul_nonneg nonneg step
    have bounded := mul_le_of_le_one_left step (le_of_lt below)
    constructor
    · linarith
    · linarith

/-- Between two rows the base delay is between theirs. -/
theorem exactInterpolate_between {x : Nat} {current next : DelayPDOInstance}
    (reached : current.time ≤ x) (before : x < next.time) (word : next.time < 2 ^ 64)
    (delays : 0 ≤ current.delay ∧ current.delay < 2 ^ 31)
    (delays' : 0 ≤ next.delay ∧ next.delay < 2 ^ 31) :
    ∃ delay, exactInterpolate x current next = .ok delay ∧
      min current.delay next.delay ≤ delay ∧ delay ≤ max current.delay next.delay := by
  have ⟨nonneg, below, apart⟩ := interpolationRatio_proper reached before word
  have ⟨low, high⟩ := interpolation_between (a := current.delay) (b := next.delay) nonneg below
  unfold exactInterpolate
  rw [if_neg apart]
  apply toInt_between
  · omega
  · omega
  · push_cast at low ⊢
    exact low
  · push_cast at high ⊢
    exact high

/-- The search starts at the persistent cursor. -/
theorem searching_start {trace : PacketTrainTrace} {T t : Nat} {s : LightPdo}
    (cursor : Cursor trace T t s.currentDelayPdoIdx s.delayBaseTimestamp) :
    Searching trace T t
      ⟨s.currentDelayPdoIdx, s.delayBaseTimestamp, s.relativeTimestampMs t⟩ :=
  ⟨cursor, rfl⟩

theorem startInstance_cases {fuel time size r : Nat} {s s' : LightPdo}
    (run : startInstance fuel cfg time size s = .ok (r, s')) :
    ∃ found row next delay, searchInstance fuel cfg.delayPdoTraces time s = .ok found ∧
      cfg.delayPdoTraces.row found.currentDelayPdoIdx = .ok row ∧
      cfg.delayPdoTraces.row (found.currentDelayPdoIdx + 1) = .ok next ∧
      cfg.interpolate found.relativeTimestampMs row next = .ok delay ∧
      r = u64 (time + u64 delay) ∧ s' = beginInstance time size found row delay s := by
  have ⟨found, search, run⟩ := bind_eq_ok.mp run
  have ⟨row, current, run⟩ := bind_eq_ok.mp run
  have ⟨next, following, run⟩ := bind_eq_ok.mp run
  have ⟨delay, interpolated, run⟩ := bind_eq_ok.mp run
  have ⟨release, state⟩ := Prod.mk.inj (Except.ok.inj run)
  exact ⟨found, row, next, delay, search, current, following, interpolated,
    release.symm, state.symm⟩

theorem beginInstance_currentBaseDelay (time size : Nat) (found : InstanceSearch)
    (row : DelayPDOInstance) (delay : Int) (s : LightPdo) :
    (beginInstance time size found row delay s).currentBaseDelay = i32 (u64 delay) := by
  unfold beginInstance
  dsimp only

/-- What the members that locate the instance are. -/
def SameInstance (s s' : LightPdo) : Prop :=
  s'.currentDelayPdoIdx = s.currentDelayPdoIdx ∧ s'.delayBaseTimestamp = s.delayBaseTimestamp

/-- A packet that uses the current light PDO leaves the cursor where it is. -/
theorem useCurrentPdo_sameInstance {fuel time size r : Nat} {s s' : LightPdo}
    (run : useCurrentPdo fuel cfg time size s = .ok (r, s')) : SameInstance s s' := by
  have ⟨row, _, run⟩ := bind_eq_ok.mp run
  have ⟨taken, took, run⟩ := bind_eq_ok.mp run
  have ⟨⟨release, bypass⟩, _, run⟩ := bind_eq_ok.mp run
  have ⟨_, state⟩ := Prod.mk.inj (Except.ok.inj run)
  have ⟨slot, looked, took⟩ := bind_eq_ok.mp took
  have passed := whileLoop_inv (I := SameInstance s)
    (by
      intro a b before turn
      rw [← Except.ok.inj turn.2]
      exact before)
    looked ⟨rfl, rfl⟩
  have kept : SameInstance s taken := by
    rw [← Except.ok.inj took]
    by_cases full : u32 slot.currDeliveryOpportunity < size
    · simp only [if_pos full]
      exact ⟨passed.1.1, passed.1.2⟩
    · simp only [if_neg full]
      exact ⟨passed.1.1, passed.1.2⟩
  rw [← state]
  exact kept

/-- Every packet keeps the cursor. -/
theorem getPktReleaseTimeFromTrace_cursor {fuel time size r T : Nat} {s s' : LightPdo}
    (clock : time < 2 ^ 64)
    (cursor : Cursor cfg.delayPdoTraces T time s.currentDelayPdoIdx s.delayBaseTimestamp)
    (run : getPktReleaseTimeFromTrace fuel cfg time size s = .ok (r, s')) :
    Cursor cfg.delayPdoTraces T time s'.currentDelayPdoIdx s'.delayBaseTimestamp := by
  unfold getPktReleaseTimeFromTrace at run
  by_cases starts : s.startNewShortPdoTrace cfg time = true
  · rw [if_pos starts] at run
    have ⟨found, row, next, delay, search, _, _, _, _, state⟩ := startInstance_cases run
    have ⟨kept, _⟩ := searchInstance_found clock (searching_start cursor) search
    rw [state]
    exact kept.cursor
  · rw [if_neg starts] at run
    have ⟨idx, base⟩ := useCurrentPdo_sameInstance run
    rw [idx, base]
    exact cursor

/-- A new instance at `t`, of a trace started at `T`: its row is that of the time elapsed in the
round of `t`, and its base delay is between those of its row and the next one. -/
structure StartsAt (trace : PacketTrainTrace) (T t : Nat) (s : LightPdo) : Prop where
  round : s.delayBaseTimestamp = T + (t - T) / trace.last * trace.last
  lies : trace.LiesAt (t - s.delayBaseTimestamp) s.currentDelayPdoIdx
  between : ∀ row next, trace.row s.currentDelayPdoIdx = .ok row →
    trace.row (s.currentDelayPdoIdx + 1) = .ok next →
    0 ≤ interpolationRatio (t - s.delayBaseTimestamp : Nat) row next ∧
    interpolationRatio (t - s.delayBaseTimestamp : Nat) row next < 1 ∧
    min row.delay next.delay ≤ s.currentBaseDelay ∧ s.currentBaseDelay ≤ max row.delay next.delay

/-- The start of an instance returns as it should exactly when the elapsed time in the round is
not before the first row. -/
theorem startInstance_iff {T t size : Nat} {s : LightPdo} (clock : t < 2 ^ 63)
    (lasting : 0 < cfg.delayPdoTraces.last) (exact' : cfg.interpolate = exactInterpolate)
    (cursor : Cursor cfg.delayPdoTraces T t s.currentDelayPdoIdx s.delayBaseTimestamp) :
    (∃ fuel r s', startInstance fuel cfg t size s = .ok (r, s') ∧
      StartsAt cfg.delayPdoTraces T t s') ↔
      cfg.delayPdoTraces.time 0 ≤ (t - T) % cfg.delayPdoTraces.last := by
  have searching := searching_start cursor
  constructor
  · intro started
    have ⟨fuel, r, s', run, starts⟩ := started
    have ⟨found, row, next, delay, search, _, _, _, _, state⟩ := startInstance_cases run
    have ⟨kept, _, remainder, before⟩ := searchInstance_found (by omega) searching search
    rw [← remainder] at before ⊢
    apply (liesAt_iff kept.cursor before).mp
    have lies := starts.lies
    rw [state] at lies
    exact lies
  · intro first
    have ⟨fuel, found, search⟩ := searchInstance_returns (by omega) lasting searching
    have ⟨kept, round, remainder, before⟩ := searchInstance_found (by omega) searching search
    rw [← remainder] at before first
    have lies := (liesAt_iff kept.cursor before).mpr first
    have inside := lies.inside
    have current := cfg.delayPdoTraces.row_eq_ok (i := found.currentDelayPdoIdx) (by omega)
    have following := cfg.delayPdoTraces.row_eq_ok inside
    have reached := lies.reached
    rw [PacketTrainTrace.time_eq _ _ (by omega)] at reached
    have within := lies.before
    rw [PacketTrainTrace.time_eq _ _ inside] at within
    have ⟨delay, interpolated, low, high⟩ := exactInterpolate_between reached within
      (cfg.delayPdoTraces.representable _ (List.getElem_mem _))
      (cfg.delayPdoTraces.delayed _ (List.getElem_mem _))
      (cfg.delayPdoTraces.delayed _ (List.getElem_mem _))
    have run : startInstance fuel cfg t size s = .ok (u64 (t + u64 delay),
        beginInstance t size found
        cfg.delayPdoTraces.instances[found.currentDelayPdoIdx] delay s) := by
      have relative := kept.relative.trans (relative_exact clock kept.cursor.started)
      unfold startInstance searchInstance
      simp only [search, current, following, relative, exact', interpolated, bind, Except.bind]
      rfl
    refine ⟨fuel, _, _, run, round, lies, ?_⟩
    intro row next rowAt nextAt
    have sameRow : cfg.delayPdoTraces.instances[found.currentDelayPdoIdx] = row :=
      Except.ok.inj (current.symm.trans rowAt)
    have sameNext : cfg.delayPdoTraces.instances[found.currentDelayPdoIdx + 1] = next :=
      Except.ok.inj (following.symm.trans nextAt)
    rw [sameRow] at reached low high
    rw [sameNext] at within low high
    have ⟨nonneg, below, _⟩ := interpolationRatio_proper reached within
      (sameNext ▸ cfg.delayPdoTraces.representable _ (List.getElem_mem _))
    have bounds := sameRow ▸ cfg.delayPdoTraces.delayed _
      (List.getElem_mem (n := found.currentDelayPdoIdx) (by omega))
    have bounds' := sameNext ▸ cfg.delayPdoTraces.delayed _ (List.getElem_mem inside)
    have same : i32 (u64 delay) = delay := by
      have word : (u64 delay : Int) = delay := toUnsigned_of_range 64 delay (by omega) (by omega)
      rw [word]
      exact toSigned_of_range 32 delay (by decide) (by omega) (by omega)
    rw [beginInstance_currentBaseDelay, same]
    exact ⟨nonneg, below, low, high⟩

end LightPdo

open LightPdo

/-- The time of the first packet; a packet read at `now` is the first one if there was none. -/
def CellularQueue.firstArrival (q : CellularQueue cfg) (now : Nat) : Nat :=
  (q.emplaced.head?.map DelayQueuePacket.arrivalTime).getD now

/-- The cursor of the emulator up to the clock reading `t`. -/
structure Tracked (q : CellularQueue cfg) (t : Nat) : Prop where
  unstarted : q.startTick = false → q.emplaced = [] ∧ q.light.currentDelayPdoIdx = 0
  started : q.startTick = true → q.emplaced ≠ [] ∧
    Cursor cfg.delayPdoTraces (q.firstArrival t) t q.light.currentDelayPdoIdx
      q.light.delayBaseTimestamp

theorem firstArrival_eq {q : CellularQueue cfg} (read : q.emplaced ≠ []) (t t' : Nat) :
    q.firstArrival t = q.firstArrival t' := by
  unfold CellularQueue.firstArrival
  cases shape : q.emplaced with
  | nil => exact absurd shape read
  | cons first rest => rfl

/-- The cursor from which a packet read at `now` is placed. -/
theorem Tracked.cursor {q : CellularQueue cfg} {t now : Nat} (tracked : Tracked q t)
    (later : t ≤ now) : Cursor cfg.delayPdoTraces (q.firstArrival now) now
      (q.startTrace now).light.currentDelayPdoIdx (q.startTrace now).light.delayBaseTimestamp := by
  rw [startTrace_eq]
  by_cases started : q.startTick = true
  · have ⟨read, cursor⟩ := tracked.started started
    rw [firstArrival_eq read now t]
    simp only [started, if_true]
    exact cursor.later later
  · have ⟨empty, first⟩ := tracked.unstarted (by simpa using started)
    unfold CellularQueue.firstArrival
    simp only [started, empty, first, Bool.false_eq_true, if_false, List.head?_nil, Option.map_none,
      Option.getD_none]
    exact Cursor.start cfg.delayPdoTraces now

theorem readPacket_tracked {fuel now t t' : Nat} {contents : Bytes} {q next : CellularQueue cfg}
    (tracked : Tracked q t) (later : t ≤ now) (last : now ≤ t') (clock : now < 2 ^ 64)
    (run : q.readPacket (getPktReleaseTime cfg) fuel now contents = .ok next) :
    Tracked next t' := by
  have ⟨_, packet, admits⟩ := readPacket_admits run
  have ⟨_, _, releaseTime, light, offset, released, _, shape⟩ := readPacket_cases run
  have cursor := getPktReleaseTimeFromTrace_cursor clock (tracked.cursor later) released
  have placed : SameInstance light next.light := by
    rw [shape]
    exact ⟨rfl, rfl⟩
  have arrival : next.firstArrival t' = q.firstArrival now := by
    unfold CellularQueue.firstArrival
    rw [admits.emplaced]
    cases q.emplaced with
    | nil =>
        show packet.arrivalTime = now
        exact admits.arrivalTime
    | cons first rest => rfl
  constructor
  · intro unstarted
    rw [admits.startTick] at unstarted
    cases unstarted
  · intro _
    constructor
    · rw [admits.emplaced]
      simp
    · rw [arrival, placed.1, placed.2]
      exact cursor.later last

/-- The cursor is kept over every run with the release law of the source. -/
theorem Reaches.tracked {packetQueue : AbstractPacketQueue} {ops : List Op} {q : CellularQueue cfg}
    {t : Nat} (reaches : Reaches cfg (getPktReleaseTime cfg) packetQueue ops q t)
    (clock : t < 2 ^ 64) : Tracked q t := by
  have ⟨linkTimestamp, delayTimestamp, _, run⟩ := reaches
  have kept := run.invariant (I := fun s => Filled s.1 ∧ (s.2 < 2 ^ 64 → Tracked s.1 s.2))
    (by
      intro s op s' before step
      have ⟨between, later, fuel, returned⟩ := step
      have ⟨actions, acts, _⟩ := exec_acts before.1 returned
      refine ⟨acts.invariant (fun _ _ _ kept act => act.filled kept) before.1, ?_⟩
      intro clock
      have tracked := before.2 (by omega)
      rcases exec_read_or_unread before.1 returned with ⟨now, contents, same, read⟩ | ⟨_, unread⟩
      · rw [same] at between
        have last : now ≤ s'.2 := between.2
        exact readPacket_tracked tracked between.1 last (by omega) read
      · constructor
        · rw [unread.startTick, unread.emplaced, unread.light]
          exact tracked.unstarted
        · intro started
          rw [unread.startTick] at started
          have ⟨read, cursor⟩ := tracked.started started
          have arrival : s'.1.firstArrival s'.2 = s.1.firstArrival s.2 := by
            rw [← firstArrival_eq read s'.2]
            unfold CellularQueue.firstArrival
            rw [unread.emplaced]
          rw [unread.emplaced, unread.light, arrival]
          exact ⟨read, cursor.later later⟩)
    ⟨construct_filled _ _ _, by
      intro _
      constructor
      · intro _
        exact ⟨rfl, rfl⟩
      · intro started
        cases started⟩
  exact kept.2 clock

/-- Each time `read_packet` starts a new instance, the lookup returns and follows the recorded
trace exactly when the time elapsed in the round is not before the first row of the trace. -/
theorem startsAt_iff {packetQueue : AbstractPacketQueue} {ops : List Op} {q : CellularQueue cfg}
    {t now size : Nat} (reaches : Reaches cfg (getPktReleaseTime cfg) packetQueue ops q t)
    (later : t ≤ now) (clock : now < 2 ^ 63) (lasting : 0 < cfg.delayPdoTraces.last)
    (exact' : cfg.interpolate = exactInterpolate)
    (starts : (q.startTrace now).light.startNewShortPdoTrace cfg now = true) :
    (∃ fuel releaseTime light, getPktReleaseTimeFromTrace fuel cfg now size
        (q.startTrace now).light = .ok (releaseTime, light) ∧
      StartsAt cfg.delayPdoTraces (q.firstArrival now) now light) ↔
      cfg.delayPdoTraces.time 0 ≤ (now - q.firstArrival now) % cfg.delayPdoTraces.last := by
  have tracked := reaches.tracked (by omega)
  simp only [getPktReleaseTimeFromTrace, if_pos starts]
  exact startInstance_iff clock lasting exact' (tracked.cursor later)

/-- A train whose first row is at 5 ms, with a base delay of 10 ms throughout. -/
def lateTrain : PacketTrainTrace :=
  ⟨[⟨5, 10, [0]⟩, ⟨10, 10, [0]⟩, ⟨20, 10, [0]⟩],
    by decide, by decide, by decide, by decide, by decide⟩

def lateStart : Config := Config.ofTraces everyTenMs lateTrain true 5 fiveMs_range

/-- The first packet is placed at row 0, 5 ms before the time of that row. -/
theorem not_startsAt :
    PacketTrainTrace.load "train" 0 ["5 10 0".toList, "10 10 0".toList, "20 10 0".toList] =
      .ok lateTrain ∧
    Reaches lateStart (getPktReleaseTime lateStart) (.infinite {}) []
      (construct lateStart (.infinite {}) 0 0) 0 ∧
    ∃ releaseTime light, getPktReleaseTimeFromTrace 10 lateStart 0 1400
        ((construct lateStart (.infinite {}) 0 0).startTrace 0).light = .ok (releaseTime, light) ∧
      ¬ StartsAt lateTrain 0 0 light := by
  have observed : (getPktReleaseTimeFromTrace 10 lateStart 0 1400
      ((construct lateStart (.infinite {}) 0 0).startTrace 0).light).toOption.map
        (fun r => (r.2.currentDelayPdoIdx, r.2.delayBaseTimestamp)) = some (0, 0) := by
    decide +kernel
  have ⟨⟨releaseTime, light⟩, returned, seen⟩ := observe_ok observed
  refine ⟨by decide +kernel, ⟨0, 0, Nat.le_refl 0, Run.nil⟩, releaseTime, light, returned, ?_⟩
  intro starts
  have reached := starts.lies.reached
  have ⟨idx, base⟩ := Prod.mk.inj seen
  simp only at idx base
  rw [idx, base] at reached
  exact absurd reached (by decide)

/-- An instance started at 250 ms, in the second round of a train of 200 ms. -/
theorem startsAt_iff_secondRound : ∃ q : CellularQueue undelayed,
    Reaches undelayed (getPktReleaseTime undelayed) (.infinite {}) [.readPacket 0 fullPacket] q 0 ∧
    ∃ fuel releaseTime light, getPktReleaseTimeFromTrace fuel undelayed 250 1400
        (q.startTrace 250).light = .ok (releaseTime, light) ∧
      StartsAt undelayedTrain 0 250 light := by
  have observed : (Op.execAll (getPktReleaseTime undelayed) 10 [.readPacket 0 fullPacket]
      (construct undelayed (.infinite {}) 0 0)).toOption.map (fun q =>
        ((q.startTrace 250).light.startNewShortPdoTrace undelayed 250, q.firstArrival 250)) =
      some (true, 0) := by decide +kernel
  have ⟨q, reaches, seen⟩ := Reaches.of_execAll
    (show Op.Timed 0 0 [.readPacket 0 fullPacket] from
    ⟨0, by simp, by simp [Op.Between], rfl⟩) observed
  have ⟨starts, arrival⟩ := Prod.mk.inj seen
  have placed : ∃ fuel releaseTime light, getPktReleaseTimeFromTrace fuel undelayed 250 1400
        (q.startTrace 250).light = .ok (releaseTime, light) ∧
      StartsAt undelayed.delayPdoTraces (q.firstArrival 250) 250 light := by
    apply (startsAt_iff reaches (by decide) (by decide) (by decide) rfl starts).mpr
    rw [arrival]
    decide
  rw [arrival] at placed
  exact ⟨q, reaches, placed⟩

end CellReplay
