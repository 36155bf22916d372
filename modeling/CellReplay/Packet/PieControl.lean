import CellReplay.Lib.Transition
import CellReplay.Packet.PiePacketQueue
import CellReplay.Packet.TailLimited
import Mathlib.Tactic.Linarith
import Mathlib.Tactic.NormNum

set_option autoImplicit false

namespace CellReplay

open MachineWord FueledLoop Transition

namespace PIEPacketQueue

/-- What the updates leave alone. -/
structure Retuned (q next : PIEPacketQueue) : Prop where
  base : next.toDroppingPacketQueue = q.toDroppingPacketQueue
  qdelayRef : next.qdelayRef = q.qdelayRef
  maxBurst : next.maxBurst = q.maxBurst

/-- The drop probability is one, and no burst longer than the longest is allowed. -/
structure InRange (q : PIEPacketQueue) : Prop where
  nonneg : 0 ≤ q.dropProb
  le_one : q.dropProb ≤ 1
  burst : q.burstAllowance ≤ q.maxBurst

/-- Nothing has been measured: there is no rate, no delay and no drop probability. -/
structure Unmeasured (q : PIEPacketQueue) : Prop where
  dropProb : q.dropProb = 0
  currentQdelay : q.currentQdelay = 0
  qdelayOld : q.qdelayOld = 0
  avgDqRate : q.avgDqRate = 0
  dqCount : q.dqCount = dqCountInvalid

section
variable {q next : PIEPacketQueue} {draw : Nat → ℚ} {now later : Nat} {p : QueuedPacket}

theorem Retuned.refl (q : PIEPacketQueue) : Retuned q q := ⟨rfl, rfl, rfl⟩

theorem Retuned.trans {a b c : PIEPacketQueue} (ab : Retuned a b) (bc : Retuned b c) :
    Retuned a c :=
  ⟨bc.base.trans ab.base, bc.qdelayRef.trans ab.qdelayRef, bc.maxBurst.trans ab.maxBurst⟩

theorem boundProbability_nonneg (raised : ℚ) (noDelay updateProb : Bool) :
    0 ≤ boundProbability raised noDelay updateProb := by
  have clamped : (0 : ℚ) ≤ if raised < 0 then 0 else if 1 < raised then 1 else raised := by
    split
    · exact le_refl 0
    · split
      · norm_num
      · linarith
  unfold boundProbability
  dsimp only
  split
  · linarith
  · exact clamped

theorem boundProbability_le_one (raised : ℚ) (noDelay updateProb : Bool) :
    boundProbability raised noDelay updateProb ≤ 1 := by
  have clamped : (if raised < 0 then 0 else if 1 < raised then 1 else raised) ≤ (1 : ℚ) := by
    split
    · norm_num
    · split
      · exact le_refl 1
      · linarith
  unfold boundProbability
  dsimp only
  split
  · linarith
  · exact clamped

theorem boundProbability_of_le {raised : ℚ} (low : raised ≤ 0) (noDelay updateProb : Bool) :
    boundProbability raised noDelay updateProb = 0 := by
  have zero : (if raised < 0 then 0 else if 1 < raised then 1 else raised) = (0 : ℚ) := by
    split
    · rfl
    · split
      · linarith
      · linarith
  unfold boundProbability
  dsimp only
  rw [zero]
  simp

/-- A burst allowance is only lowered, whatever an `int` makes of it. -/
theorem lowered_le (burst : Nat) : (i32 burst - tUpdate).toNat ≤ burst := by
  have cut := toSigned_le 32 (burst : Int) (Int.natCast_nonneg burst)
  have positive : 0 < tUpdate := by decide
  unfold i32
  omega

theorem Retuned.allowBurst (retuned : Retuned q next) : Retuned q next.allowBurst := by
  unfold PIEPacketQueue.allowBurst
  split
  · exact ⟨retuned.base, retuned.qdelayRef, retuned.maxBurst⟩
  · exact retuned

theorem InRange.allowBurst (inRange : InRange q) : InRange q.allowBurst := by
  unfold PIEPacketQueue.allowBurst
  split
  · exact ⟨inRange.nonneg, inRange.le_one, Nat.le_refl _⟩
  · exact inRange

/-- A period is updated whatever was measured. -/
theorem updatePeriod_inRange (counted : q.toDroppingPacketQueue.Counted) (inRange : InRange q) :
    ∃ next, q.updatePeriod = .ok next ∧ Retuned q next ∧ InRange next := by
  have burst := Nat.le_trans (lowered_le q.burstAllowance) inRange.burst
  unfold updatePeriod
  rw [counted.sizeBytes]
  refine ⟨_, rfl, ?_, ?_⟩
  · apply Retuned.allowBurst
    exact ⟨rfl, rfl, rfl⟩
  · apply InRange.allowBurst
    refine ⟨boundProbability_nonneg _ _ _, boundProbability_le_one _ _ _, ?_⟩
    dsimp only
    exact burst

/-- Where nothing has been measured, the reference delay lowers the drop probability, as long as an
`int` can hold it. -/
theorem probabilityStep_nonpos (fits : q.qdelayRef ≤ 2 ^ 31) : q.probabilityStep 0 0 ≤ 0 := by
  have ref : i32 ((0 : Nat) - (q.qdelayRef : Int)) = -(q.qdelayRef : Int) := by
    rw [i32, toSigned_of_range 32 _ (by decide) (by omega) (by omega)]
    omega
  have old : i32 (((0 : Nat) : Int) - (0 : Nat)) = 0 := by decide
  have positive : (0 : ℚ) ≤ q.qdelayRef := Nat.cast_nonneg _
  have low : alpha * (i32 ((0 : Nat) - (q.qdelayRef : Int)) : ℚ) +
      beta * (i32 (((0 : Nat) : Int) - (0 : Nat)) : ℚ) ≤ 0 := by
    rw [ref, old]
    unfold alpha
    push_cast
    linarith
  unfold probabilityStep
  dsimp only
  split
  · exact div_nonpos_of_nonpos_of_nonneg low (by norm_num)
  · split
    · exact div_nonpos_of_nonpos_of_nonneg low (by norm_num)
    · exact div_nonpos_of_nonpos_of_nonneg low (by norm_num)

/-- Such a period measures nothing. -/
theorem updatePeriod_unmeasured (counted : q.toDroppingPacketQueue.Counted)
    (fits : q.qdelayRef ≤ 2 ^ 31) (unmeasured : Unmeasured q) :
    ∃ next, q.updatePeriod = .ok next ∧ Retuned q next ∧ Unmeasured next := by
  have low : (0 : ℚ) + q.probabilityStep 0 0 ≤ 0 := by
    have step := probabilityStep_nonpos fits
    linarith
  unfold updatePeriod
  rw [counted.sizeBytes, unmeasured.avgDqRate, unmeasured.currentQdelay, unmeasured.dropProb]
  refine ⟨_, rfl, ?_, ?_⟩
  · apply Retuned.allowBurst
    exact ⟨rfl, rfl, rfl⟩
  · unfold allowBurst
    rw [if_neg (by simp)]
    exact ⟨boundProbability_of_le low _ _, rfl, rfl, rfl, unmeasured.dqCount⟩

/-- What one update keeps, bringing the queue up to date keeps; it does return, and no period is
missed then. -/
theorem calculateDropProb_keeps {I : PIEPacketQueue → Prop} {now : Nat}
    (keep : ∀ q, I q → ∃ next, q.updatePeriod = .ok next ∧ I next)
    (started : q.lastUpdate ≤ now) (word : now < 2 ^ 64) (start : I q) :
    ∃ next, q.calculateDropProb now = .ok next ∧ I next ∧ next.lastUpdate ≤ now ∧
      now ≤ next.lastUpdate + tUpdate := by
  have turn : ∀ q, I q ∧ q.lastUpdate ≤ now → periodMissed now q = .ok true →
      ∃ next, q.updatePeriod = .ok next ∧ (I next ∧ next.lastUpdate ≤ now) ∧
        now - next.lastUpdate < now - q.lastUpdate := by
    intro q ⟨kept, started⟩ missed
    have ⟨next, run, after⟩ := keep q kept
    rcases updatePeriod_lowers word q started missed with ⟨e, failed, _⟩ | ⟨other, step, low, less⟩
    · rw [run] at failed
      cases failed
    · rw [run] at step
      rw [Except.ok.inj step] at after
      exact ⟨other, run.trans step, ⟨after, low⟩, less⟩
  have elapsed := toUnsigned_of_range 64 ((now : Int) - q.lastUpdate) (by omega) (by omega)
  obtain ⟨next, returned⟩ : ∃ next, whileLoop .fuel (periodMissed now) updatePeriod
      (u64 (now - q.lastUpdate) + 1) q = .ok next :=
    whileLoop_returns (fun q : PIEPacketQueue => now - q.lastUpdate) (fun q _ => ⟨_, rfl⟩) turn
      ⟨start, started⟩
      (show now - q.lastUpdate < u64 (now - q.lastUpdate) + 1 by unfold u64; omega)
  have ⟨⟨kept, low⟩, stop⟩ := whileLoop_inv (I := fun q => I q ∧ q.lastUpdate ≤ now)
    (by
      intro a b before step
      have ⟨other, run, after, _⟩ := turn a before step.1
      rw [step.2] at run
      rw [Except.ok.inj run]
      exact after)
    returned ⟨start, started⟩
  rw [periodMissed_eq low word] at stop
  have caught := of_decide_eq_false (Except.ok.inj stop)
  exact ⟨next, returned, kept, low, by omega⟩

/-- A packet is dropped early only for a random number below the drop probability. -/
theorem dropEarly_returns (counted : q.toDroppingPacketQueue.Counted) (draw : Nat → ℚ) :
    ∃ dropped drawn, q.dropEarly draw = .ok (dropped, { q with drawn := drawn }) ∧
      (dropped = true → ∃ i, draw i < q.dropProb) := by
  unfold dropEarly
  rw [counted.sizeBytes]
  split
  · exact ⟨false, q.drawn, rfl, by simp⟩
  · split
    · exact ⟨false, q.drawn, rfl, by simp⟩
    · simp only [bind, Except.bind]
      split
      · exact ⟨false, q.drawn, rfl, by simp⟩
      · refine ⟨_, q.drawn + 1, rfl, ?_⟩
        intro dropped
        exact ⟨q.drawn, of_decide_eq_true dropped⟩

/-- A packet is dropped early, or it is offered to the back of the queue. -/
theorem offer_cases {p : QueuedPacket} (represents : q.toDroppingPacketQueue.Represents)
    (sized : p.contents.length < 2 ^ 31) (draw : Nat → ℚ) : ∃ drawn,
    (q.offer draw p = .ok { q with drawn := drawn } ∧ ∃ i, draw i < q.dropProb) ∨
      q.offer draw p = (do
        let base ← q.toDroppingPacketQueue.enqueueTail p
        return { q with toDroppingPacketQueue := base, drawn := drawn }) := by
  have counted := represents.toCounted
  have ⟨dropped, drawn, early, why⟩ := dropEarly_returns counted draw
  have still := counted.good
  rw [represents.limited] at still
  unfold offer
  rw [counted.sizeBytes, counted.sizePackets, counted.enqueueTail sized,
    DroppingPacketQueue.offered]
  simp only [bind, Except.bind, counted.fits sized]
  by_cases fits : q.within (q.internalQueue ++ [p]) = true
  · simp only [fits, ↓reduceIte, early]
    cases dropped with
    | true =>
        refine ⟨drawn, Or.inl ⟨?_, why rfl⟩⟩
        simp only [↓reduceIte, still]
        rfl
    | false =>
        refine ⟨drawn, Or.inr ?_⟩
        simp only [Bool.false_eq_true, ↓reduceIte]
        cases (q.toDroppingPacketQueue.accept p).good with
        | error e => rfl
        | ok b =>
            cases b with
            | true => rfl
            | false => rfl
  · refine ⟨q.drawn, Or.inr ?_⟩
    simp only [fits, Bool.false_eq_true, ↓reduceIte, still]
    rfl

/-- What `dequeue` measures is within its range, -/
theorem measureRate_inRange (counted : q.toDroppingPacketQueue.Counted) (inRange : InRange q)
    (now size : Nat) :
    ∃ next, q.measureRate now size = .ok next ∧ Retuned q next ∧ InRange next := by
  have started : ∀ b : Prop, [Decidable b] →
      Retuned q (if b then { q with dqTstamp := now, dqCount := 0 } else q) ∧
        InRange (if b then { q with dqTstamp := now, dqCount := 0 } else q) := by
    intro b _
    split
    · exact ⟨⟨rfl, rfl, rfl⟩, inRange.nonneg, inRange.le_one, inRange.burst⟩
    · exact ⟨Retuned.refl q, inRange⟩
  unfold measureRate
  rw [counted.sizeBytes]
  simp only [bind, Except.bind]
  have ⟨retuned, ranged⟩ :=
    started (dqThreshold ≤ totalBytes q.internalQueue ∧ q.dqCount = dqCountInvalid)
  generalize (if dqThreshold ≤ totalBytes q.internalQueue ∧ q.dqCount = dqCountInvalid then
    { q with dqTstamp := now, dqCount := 0 } else q) = begun at retuned ranged ⊢
  split
  · exact ⟨_, rfl, retuned, ranged⟩
  · split
    · refine ⟨_, rfl, ⟨retuned.base, retuned.qdelayRef, retuned.maxBurst⟩,
        ranged.nonneg, ranged.le_one, ?_⟩
      have allowed := ranged.burst
      unfold sampleRate
      dsimp only
      split
      · omega
      · exact Nat.zero_le _
    · exact ⟨_, rfl, ⟨retuned.base, retuned.qdelayRef, retuned.maxBurst⟩,
        ranged.nonneg, ranged.le_one, ranged.burst⟩

/-- and it measures nothing as long as few bytes are left. -/
theorem measureRate_unmeasured (counted : q.toDroppingPacketQueue.Counted)
    (unmeasured : Unmeasured q) (few : totalBytes q.internalQueue < dqThreshold) (now size : Nat) :
    q.measureRate now size = .ok q := by
  have small : ¬ (dqThreshold ≤ totalBytes q.internalQueue ∧ q.dqCount = dqCountInvalid) := by
    omega
  unfold measureRate
  rw [counted.sizeBytes]
  simp only [bind, Except.bind, if_neg small]
  exact if_pos unmeasured.dqCount

/-- Bringing the queue up to date keeps it within its range. -/
theorem calculateDropProb_inRange (inRange : InRange q)
    (represents : q.toDroppingPacketQueue.Represents) (started : q.lastUpdate ≤ now)
    (word : now < 2 ^ 64) :
    ∃ next, q.calculateDropProb now = .ok next ∧ Retuned q next ∧ InRange next ∧
      next.lastUpdate ≤ now ∧ now ≤ next.lastUpdate + tUpdate := by
  have ⟨next, returned, ⟨retuned, ranged⟩, low, caught⟩ :=
    calculateDropProb_keeps (I := fun next => Retuned q next ∧ InRange next)
      (by
        intro other ⟨retuned, ranged⟩
        have counted : other.toDroppingPacketQueue.Counted := by
          rw [retuned.base]
          exact represents.toCounted
        have ⟨next, run, further, after⟩ := updatePeriod_inRange counted ranged
        exact ⟨next, run, retuned.trans further, after⟩)
      started word ⟨Retuned.refl q, inRange⟩
  exact ⟨next, returned, retuned, ranged, low, caught⟩

/-- So it does where nothing has been measured. -/
theorem calculateDropProb_unmeasured (unmeasured : Unmeasured q) (fits : q.qdelayRef ≤ 2 ^ 31)
    (represents : q.toDroppingPacketQueue.Represents) (started : q.lastUpdate ≤ now)
    (word : now < 2 ^ 64) :
    ∃ next, q.calculateDropProb now = .ok next ∧ Retuned q next ∧ Unmeasured next ∧
      next.lastUpdate ≤ now := by
  have ⟨next, returned, ⟨retuned, after⟩, low, _⟩ :=
    calculateDropProb_keeps (I := fun next => Retuned q next ∧ Unmeasured next)
      (by
        intro other ⟨retuned, unmeasured⟩
        have counted : other.toDroppingPacketQueue.Counted := by
          rw [retuned.base]
          exact represents.toCounted
        have ref : other.qdelayRef ≤ 2 ^ 31 := by
          rw [retuned.qdelayRef]
          exact fits
        have ⟨next, run, further, after⟩ := updatePeriod_unmeasured counted ref unmeasured
        exact ⟨next, run, retuned.trans further, after⟩)
      started word ⟨Retuned.refl q, unmeasured⟩
  exact ⟨next, returned, retuned, after, low⟩

/-- What a call at a clock reading leaves. -/
structure Kept (now : Nat) (q next : PIEPacketQueue) : Prop where
  inRange : InRange next
  represents : next.toDroppingPacketQueue.Represents
  limits : next.limits = q.limits
  maxBurst : next.maxBurst = q.maxBurst
  started : next.lastUpdate ≤ now
  current : now ≤ next.lastUpdate + tUpdate

theorem Retuned.represents (retuned : Retuned q next)
    (represents : q.toDroppingPacketQueue.Represents) :
    next.toDroppingPacketQueue.Represents := by
  rw [retuned.base]
  exact represents

/-- A packet that is enqueued is put on the back, or dropped. -/
theorem enqueue_kept (inRange : InRange q) (represents : q.toDroppingPacketQueue.Represents)
    (started : q.lastUpdate ≤ now) (word : now < 2 ^ 64) (sized : p.contents.length < 2 ^ 31)
    (run : q.enqueue draw now p = .ok next) : Kept now q next ∧
      (next.internalQueue = q.internalQueue ∨ next.internalQueue = q.internalQueue ++ [p]) := by
  have ⟨mid, updated, retuned, ranged, low, current⟩ :=
    calculateDropProb_inRange inRange represents started word
  have still := retuned.represents represents
  have limits : mid.limits = q.limits := congrArg DroppingPacketQueue.limits retuned.base
  have held : mid.internalQueue = q.internalQueue :=
    congrArg DroppingPacketQueue.internalQueue retuned.base
  unfold PIEPacketQueue.enqueue at run
  rw [updated] at run
  obtain ⟨drawn, ⟨dropped, _⟩ | offered⟩ := offer_cases still sized draw
  · have same := run.symm.trans dropped
    rw [Except.ok.inj same]
    exact ⟨⟨⟨ranged.nonneg, ranged.le_one, ranged.burst⟩, still, limits, retuned.maxBurst, low,
      current⟩, Or.inl held⟩
  · obtain ⟨base, accepted, same⟩ := bind_eq_ok.mp (offered.symm.trans run)
    have ⟨after, shape⟩ := still.enqueueTail_returned sized accepted
    rw [← Except.ok.inj same]
    refine ⟨⟨⟨ranged.nonneg, ranged.le_one, ranged.burst⟩, after, ?_, retuned.maxBurst, low,
      current⟩, ?_⟩
    · show base.limits = q.limits
      rw [shape, ← limits, DroppingPacketQueue.offered]
      split
      · rfl
      · rfl
    · show base.internalQueue = q.internalQueue ∨ base.internalQueue = q.internalQueue ++ [p]
      rw [shape, ← held, DroppingPacketQueue.offered]
      split
      · exact Or.inr rfl
      · exact Or.inl rfl

/-- A packet that an `int` can count is enqueued, and no assertion fails. -/
theorem enqueue_returns (inRange : InRange q) (represents : q.toDroppingPacketQueue.Represents)
    (started : q.lastUpdate ≤ now) (word : now < 2 ^ 64)
    (countable : q.toDroppingPacketQueue.Countable p) (draw : Nat → ℚ) :
    ∃ next, q.enqueue draw now p = .ok next := by
  have ⟨mid, updated, retuned, _⟩ := calculateDropProb_inRange inRange represents started word
  have fits : mid.toDroppingPacketQueue.Countable p := by
    rw [retuned.base]
    exact countable
  unfold PIEPacketQueue.enqueue
  rw [updated]
  obtain ⟨drawn, ⟨dropped, _⟩ | offered⟩ :=
    offer_cases (retuned.represents represents) countable.sized draw
  · exact ⟨_, dropped⟩
  · rw [(retuned.represents represents).enqueueTail fits] at offered
    exact ⟨_, offered⟩

/-- A queue that holds a packet gives out the first one. -/
theorem dequeue_kept {rest : List QueuedPacket} (inRange : InRange q)
    (represents : q.toDroppingPacketQueue.Represents) (front : q.internalQueue = p :: rest)
    (started : q.lastUpdate ≤ now) (ordered : now ≤ later) (word : later < 2 ^ 64) :
    ∃ next, q.dequeue now later = .ok (p, next) ∧ Kept later q next ∧
      next.internalQueue = rest := by
  have popped := represents.dequeue front
  have after := represents.tail front
  have tail : InRange { q with toDroppingPacketQueue := q.popFront p rest } :=
    ⟨inRange.nonneg, inRange.le_one, inRange.burst⟩
  have ⟨mid, measured, retuned, ranged⟩ :=
    measureRate_inRange after.toCounted tail (u32 now) p.contents.length
  have low : mid.lastUpdate ≤ later := by
    rw [measureRate_lastUpdate measured]
    exact Nat.le_trans started ordered
  have ⟨next, updated, further, ranged', started', current⟩ :=
    calculateDropProb_inRange ranged (retuned.represents after) low word
  have both := retuned.trans further
  refine ⟨next, ?_, ⟨ranged', both.represents after, ?_, both.maxBurst, started', current⟩, ?_⟩
  · unfold PIEPacketQueue.dequeue
    simp only [popped, bind, Except.bind, measured, updated]
    rfl
  · show next.toDroppingPacketQueue.limits = (q.popFront p rest).limits
    rw [both.base]
  · rw [both.base]
    rfl

/-- What a call at a clock reading leaves where nothing has been measured. -/
structure Plain (now : Nat) (q next : PIEPacketQueue) (base : DroppingPacketQueue) : Prop where
  base : next.toDroppingPacketQueue = base
  unmeasured : Unmeasured next
  qdelayRef : next.qdelayRef = q.qdelayRef
  started : next.lastUpdate ≤ now

/-- A packet that is enqueued where nothing has been measured is not dropped early. -/
theorem enqueue_unmeasured (positive : ∀ i, 0 ≤ draw i) (unmeasured : Unmeasured q)
    (fits : q.qdelayRef ≤ 2 ^ 31) (represents : q.toDroppingPacketQueue.Represents)
    (started : q.lastUpdate ≤ now) (word : now < 2 ^ 64) (sized : p.contents.length < 2 ^ 31)
    {base : DroppingPacketQueue} (accepted : q.toDroppingPacketQueue.enqueueTail p = .ok base) :
    ∃ next, q.enqueue draw now p = .ok next ∧ Plain now q next base := by
  have ⟨mid, updated, retuned, after, low⟩ :=
    calculateDropProb_unmeasured unmeasured fits represents started word
  rw [← retuned.base] at accepted
  obtain ⟨drawn, ⟨_, i, below⟩ | offered⟩ :=
    offer_cases (retuned.represents represents) sized draw
  · rw [after.dropProb] at below
    exact absurd (positive i) (not_le.mpr below)
  · rw [accepted] at offered
    refine ⟨{ mid with toDroppingPacketQueue := base, drawn := drawn }, ?_, rfl, ?_,
      retuned.qdelayRef, low⟩
    · unfold PIEPacketQueue.enqueue
      rw [updated]
      exact offered
    · exact ⟨after.dropProb, after.currentQdelay, after.qdelayOld, after.avgDqRate,
        after.dqCount⟩

/-- A packet that is taken out is not measured as long as few bytes are left. -/
theorem dequeue_unmeasured {rest : List QueuedPacket} (unmeasured : Unmeasured q)
    (fits : q.qdelayRef ≤ 2 ^ 31) (represents : q.toDroppingPacketQueue.Represents)
    (front : q.internalQueue = p :: rest) (few : totalBytes rest < dqThreshold)
    (started : q.lastUpdate ≤ now) (ordered : now ≤ later) (word : later < 2 ^ 64) :
    ∃ next, q.dequeue now later = .ok (p, next) ∧ Plain later q next (q.popFront p rest) := by
  have popped := represents.dequeue front
  have after := represents.tail front
  have tail : Unmeasured { q with toDroppingPacketQueue := q.popFront p rest } :=
    ⟨unmeasured.dropProb, unmeasured.currentQdelay, unmeasured.qdelayOld, unmeasured.avgDqRate,
      unmeasured.dqCount⟩
  have measured := measureRate_unmeasured after.toCounted tail few (u32 now) p.contents.length
  have ⟨next, updated, retuned, unmeasured', low⟩ :=
    calculateDropProb_unmeasured tail fits after (Nat.le_trans started ordered) word
  refine ⟨next, ?_, retuned.base, unmeasured', retuned.qdelayRef, low⟩
  unfold PIEPacketQueue.dequeue
  simp only [popped, bind, Except.bind, measured, updated]
  rfl

end

end PIEPacketQueue

open PIEPacketQueue

namespace PIEEvent

/-- The packet offered. -/
def offered : PIEEvent → List QueuedPacket
  | enqueue _ p => [p]
  | _ => []

/-- The clock does not run backwards, and the size of a packet is an `int`. -/
structure Due (t : Nat) (e : PIEEvent) : Prop where
  later : t ≤ e.first
  ordered : e.first ≤ e.last
  word : e.last < 2 ^ 64
  sized : ∀ p ∈ e.offered, p.contents.length < 2 ^ 31

instance (t : Nat) (e : PIEEvent) : Decidable (Due t e) :=
  decidable_of_iff (t ≤ e.first ∧ e.first ≤ e.last ∧ e.last < 2 ^ 64 ∧
      ∀ p ∈ e.offered, p.contents.length < 2 ^ 31)
    ⟨fun ⟨later, ordered, word, sized⟩ => ⟨later, ordered, word, sized⟩,
      fun due => ⟨due.later, due.ordered, due.word, due.sized⟩⟩

/-- An event that returns, from the latest clock reading to the next. -/
def Step (draw : Nat → ℚ) (s : PIEHistory × Nat) (e : PIEEvent) (t : PIEHistory × Nat) : Prop :=
  Due s.2 e ∧ e.exec draw s.1 = .ok t.1 ∧ t.2 = e.last

/-- What the event is to a drop-tail queue and the packets it gave out. -/
def tailExec (s : DroppingPacketQueue × List QueuedPacket) :
    PIEEvent → Except Fault (DroppingPacketQueue × List QueuedPacket)
  | enqueue _ p => do return (← s.1.enqueueTail p, s.2)
  | dequeue _ _ => do
      let (ret, queue) ← s.1.dequeue
      return (queue, s.2 ++ [ret])
  | update _ => .ok s

/-- Such an event, after which fewer bytes are held than a rate is measured with. -/
def TailStep (s : (DroppingPacketQueue × List QueuedPacket) × Nat) (e : PIEEvent)
    (t : (DroppingPacketQueue × List QueuedPacket) × Nat) : Prop :=
  Due s.2 e ∧ e.tailExec s.1 = .ok t.1 ∧ totalBytes t.1.1.internalQueue < dqThreshold ∧
    t.2 = e.last

end PIEEvent

open PIEEvent

/-- What every event keeps. -/
structure PIESound (limits : QueueLimits) (maxBurst : Nat) (events : List PIEEvent)
    (s : PIEHistory × Nat) : Prop where
  inRange : InRange s.1.queue
  represents : s.1.queue.toDroppingPacketQueue.Represents
  sameLimits : s.1.queue.limits = limits
  sameBurst : s.1.queue.maxBurst = maxBurst
  order : (s.1.departed ++ s.1.queue.internalQueue).Sublist (events.flatMap offered)
  started : s.1.queue.lastUpdate ≤ s.2
  current : s.2 ≤ s.1.queue.lastUpdate + tUpdate

theorem PIEEvent.Step.sound {draw : Nat → ℚ} {limits : QueueLimits} {maxBurst : Nat}
    {events : List PIEEvent} {e : PIEEvent} {s t : PIEHistory × Nat}
    (sound : PIESound limits maxBurst events s) (step : PIEEvent.Step draw s e t) :
    PIESound limits maxBurst (events ++ [e]) t := by
  obtain ⟨due, run, clock⟩ := step
  obtain ⟨next, reading⟩ := t
  obtain rfl : reading = e.last := clock
  have started := Nat.le_trans sound.started due.later
  have keeps : ∀ {queue : PIEPacketQueue}, Kept e.last s.1.queue queue → next.queue = queue →
      (next.departed ++ queue.internalQueue).Sublist ((events ++ [e]).flatMap offered) →
      PIESound limits maxBurst (events ++ [e]) (next, e.last) := by
    intro queue kept same order
    rw [← same] at kept order
    exact ⟨kept.inRange, kept.represents, kept.limits.trans sound.sameLimits,
      kept.maxBurst.trans sound.sameBurst, order, kept.started, kept.current⟩
  have order := sound.order
  cases e with
  | enqueue now p =>
      obtain ⟨queue, enqueued, same⟩ := bind_eq_ok.mp run
      have ⟨kept, held⟩ := enqueue_kept sound.inRange sound.represents started due.word
        (due.sized p (List.mem_singleton_self p)) enqueued
      cases same
      apply keeps kept rfl
      rw [List.flatMap_append]
      rcases held with dropped | accepted
      · rw [dropped]
        exact order.trans (List.sublist_append_left _ _)
      · rw [accepted, ← List.append_assoc]
        exact order.append (List.Sublist.refl [p])
  | dequeue now later =>
      obtain ⟨⟨ret, queue⟩, taken, same⟩ := bind_eq_ok.mp run
      cases front : s.1.queue.internalQueue with
      | nil =>
          obtain ⟨_, none, _⟩ := bind_eq_ok.mp taken
          rw [DroppingPacketQueue.dequeue, front] at none
          cases none
      | cons p rest =>
          have ⟨queue', taken', kept, left⟩ :=
            dequeue_kept sound.inRange sound.represents front started due.ordered due.word
          obtain ⟨rfl, rfl⟩ := Prod.mk.inj (Except.ok.inj (taken.symm.trans taken'))
          cases same
          apply keeps kept rfl
          rw [left, List.flatMap_append, List.append_assoc]
          rw [front] at order
          exact order.trans (List.sublist_append_left _ _)
  | update now =>
      obtain ⟨queue, updated, same⟩ := bind_eq_ok.mp run
      have ⟨queue', updated', retuned, ranged, low, current⟩ :=
        calculateDropProb_inRange sound.inRange sound.represents started due.word
      obtain rfl := Except.ok.inj (updated.symm.trans updated')
      cases same
      refine keeps ⟨ranged, retuned.represents sound.represents, ?_, retuned.maxBurst, low, current⟩
        rfl ?_
      · exact congrArg DroppingPacketQueue.limits retuned.base
      · rw [List.flatMap_append, congrArg DroppingPacketQueue.internalQueue retuned.base]
        exact order.trans (List.sublist_append_left _ _)

theorem PIEPacketQueue.new_sound {args : Text} {timestamp : Nat} {queue : PIEPacketQueue}
    (built : PIEPacketQueue.new args timestamp = .ok queue) :
    PIESound queue.limits queue.maxBurst [] (⟨queue, []⟩, timestamp) ∧ Unmeasured queue := by
  obtain ⟨base, first, built⟩ := bind_eq_ok.mp built
  obtain ⟨qdelayRef, _, built⟩ := bind_eq_ok.mp built
  obtain ⟨maxBurst, _, built⟩ := bind_eq_ok.mp built
  split at built
  · cases built
  · have fresh : (TailLimitedQueue.droptail base).Fresh := DroppingPacketQueue.new_fresh first
    have represents := TailLimitedQueue.fresh_represents fresh
    cases built
    have empty : base.internalQueue = [] := fresh.1
    refine ⟨⟨⟨le_refl 0, zero_le_one, Nat.zero_le _⟩, represents, rfl, rfl, ?_, Nat.le_refl _,
      Nat.le_add_right _ _⟩, ⟨rfl, rfl, rfl, rfl, rfl⟩⟩
    simp [empty]

/-- In every run on a PIE queue, whatever the random numbers: the drop probability is one, and not
older than a period; no burst longer than the longest is allowed; the counters are those of the
packets held and the limits hold; what was given out and what is held are packets offered, in order.
The next call fails no assertion, and a queue that holds a packet gives out the first one. -/
theorem pie_in_range {draw : Nat → ℚ} {args : Text} {timestamp : Nat} {queue : PIEPacketQueue}
    (built : PIEPacketQueue.new args timestamp = .ok queue) {events : List PIEEvent}
    {s : PIEHistory} {t : Nat}
    (run : Run (PIEEvent.Step draw) (⟨queue, []⟩, timestamp) events (s, t)) :
    ((0 ≤ s.queue.dropProb ∧ s.queue.dropProb ≤ 1) ∧ s.queue.burstAllowance ≤ queue.maxBurst) ∧
      (s.queue.lastUpdate ≤ t ∧ t ≤ s.queue.lastUpdate + tUpdate) ∧
      (s.queue.toDroppingPacketQueue.Represents ∧ s.queue.limits = queue.limits) ∧
      (s.departed ++ s.queue.internalQueue).Sublist (events.flatMap offered) ∧
      ∀ now later, t ≤ now → now ≤ later → later < 2 ^ 64 →
        (∀ p, s.queue.toDroppingPacketQueue.Countable p →
          ∃ next, s.queue.enqueue draw now p = .ok next) ∧
        ∀ p rest, s.queue.internalQueue = p :: rest →
          ∃ next, s.queue.dequeue now later = .ok (p, next) ∧ next.internalQueue = rest := by
  have sound : PIESound queue.limits queue.maxBurst events (s, t) :=
    run.history (fun _ _ _ _ sound step => step.sound sound) (PIEPacketQueue.new_sound built).1
  refine ⟨⟨⟨sound.inRange.nonneg, sound.inRange.le_one⟩, sound.sameBurst ▸ sound.inRange.burst⟩,
    ⟨sound.started, sound.current⟩, ⟨sound.represents, sound.sameLimits⟩, sound.order, ?_⟩
  intro now later due ordered word
  have started := Nat.le_trans sound.started due
  constructor
  · intro p countable
    exact enqueue_returns sound.inRange sound.represents started (by omega) countable draw
  · intro p rest front
    have ⟨next, taken, _, left⟩ :=
      dequeue_kept sound.inRange sound.represents front started ordered word
    exact ⟨next, taken, left⟩

/-- Make an event, if it returns. -/
def PIEEvent.execAt (draw : Nat → ℚ) (e : PIEEvent) (s : PIEHistory × Nat) :
    Option (PIEHistory × Nat) :=
  (e.exec draw s.1).toOption.map fun next => (next, e.last)

theorem PIEEvent.step_of_execAt {draw : Nat → ℚ} {e : PIEEvent} {s t : PIEHistory × Nat}
    (returned : e.execAt draw s = some t) (due : Due s.2 e) : PIEEvent.Step draw s e t := by
  obtain ⟨next, run, same⟩ := Option.map_eq_some_iff.mp returned
  rw [← same]
  exact ⟨due, ok_of_toOption run, rfl⟩

/-- The run in which the rate is measured: 13 packets are left, and the next one may be enqueued. -/
theorem pie_in_range_rateMeasured : ∃ s,
    Run (PIEEvent.Step fun _ => 0) (⟨hundredPackets, []⟩, 0) rateMeasured (s, 17) ∧
      (s.departed.length = 12 ∧ s.queue.internalQueue.length = 13 ∧ s.queue.avgDqRate = 1050) ∧
      (0 ≤ s.queue.dropProb ∧ s.queue.dropProb ≤ 1) ∧
      ∃ next, s.queue.enqueue (fun _ => 0) 17 fullAtStart = .ok next := by
  have built : PIEPacketQueue.new "packets=100, qdelay_ref=20, max_burst=100".toList 0 =
      .ok hundredPackets := by decide +kernel
  have observed : (execAll (PIEEvent.execAt fun _ => 0) (fun s e => Due s.2 e) rateMeasured
      (⟨hundredPackets, []⟩, 0)).map (fun s => (s.2, s.1.departed.length,
        s.1.queue.internalQueue.length, s.1.queue.avgDqRate,
        decide (s.1.queue.toDroppingPacketQueue.Countable fullAtStart))) =
      some (17, 12, 13, 1050, true) := by decide +kernel
  obtain ⟨⟨s, t⟩, returned, seen⟩ := Option.map_eq_some_iff.mp observed
  simp only [Prod.mk.injEq, decide_eq_true_eq] at seen
  obtain ⟨rfl, departed, held, rate, countable⟩ := seen
  have run : Run (PIEEvent.Step fun _ => 0) (⟨hundredPackets, []⟩, 0) rateMeasured (s, 17) :=
    (run_of_execAll returned).mono (fun _ _ _ both => PIEEvent.step_of_execAt both.1 both.2)
  have ⟨ranged, _, _, _, next⟩ := pie_in_range built run
  exact ⟨s, run, ⟨departed, held, rate⟩, ranged.1,
    (next 17 17 (Nat.le_refl _) (Nat.le_refl _) (by decide)).1 fullAtStart countable⟩

/-- A queue in which nothing was measured is to the drop-tail queue as it is. -/
structure Behaves (tail : (DroppingPacketQueue × List QueuedPacket) × Nat)
    (s : PIEHistory × Nat) : Prop where
  queue : s.1.queue.toDroppingPacketQueue = tail.1.1
  departed : s.1.departed = tail.1.2
  clock : s.2 = tail.2
  represents : s.1.queue.toDroppingPacketQueue.Represents
  unmeasured : Unmeasured s.1.queue
  started : s.1.queue.lastUpdate ≤ s.2
  fits : s.1.queue.qdelayRef ≤ 2 ^ 31

section
variable {draw : Nat → ℚ} {e : PIEEvent} {s : PIEHistory × Nat}
  {tail next : (DroppingPacketQueue × List QueuedPacket) × Nat}

/-- As long as few bytes are held, whatever a drop-tail queue does, this one does. -/
theorem Behaves.step (positive : ∀ i, 0 ≤ draw i) (behaves : Behaves tail s)
    (step : TailStep tail e next) : ∃ t, PIEEvent.Step draw s e t ∧ Behaves next t := by
  obtain ⟨due, run, few, clock⟩ := step
  obtain ⟨next, reading⟩ := next
  obtain rfl : reading = e.last := clock
  rw [← behaves.clock] at due
  have started := Nat.le_trans behaves.started due.later
  cases e with
  | enqueue now p =>
      obtain ⟨base, accepted, same⟩ := bind_eq_ok.mp run
      cases same
      rw [← behaves.queue] at accepted
      have sized := due.sized p (List.mem_singleton_self p)
      have ⟨queue, enqueued, plain⟩ := enqueue_unmeasured positive behaves.unmeasured behaves.fits
        behaves.represents started due.word sized accepted
      have ⟨kept, _⟩ := behaves.represents.enqueueTail_returned sized accepted
      refine ⟨(⟨queue, s.1.departed⟩, now), ⟨due, ?_, rfl⟩, plain.base, behaves.departed, rfl, ?_,
        plain.unmeasured, plain.started, ?_⟩
      · exact bind_eq_ok.mpr ⟨queue, enqueued, rfl⟩
      · rw [plain.base]
        exact kept
      · rw [plain.qdelayRef]
        exact behaves.fits
  | dequeue now later =>
      obtain ⟨⟨ret, base⟩, taken, same⟩ := bind_eq_ok.mp run
      cases same
      rw [← behaves.queue] at taken
      cases front : s.1.queue.internalQueue with
      | nil =>
          rw [DroppingPacketQueue.dequeue, front] at taken
          cases taken
      | cons p rest =>
          have popped := behaves.represents.dequeue front
          obtain ⟨rfl, rfl⟩ := Prod.mk.inj (Except.ok.inj (taken.symm.trans popped))
          have ⟨queue, dequeued, plain⟩ := dequeue_unmeasured behaves.unmeasured behaves.fits
            behaves.represents front few started due.ordered due.word
          refine ⟨(⟨queue, s.1.departed ++ [ret]⟩, later), ⟨due, ?_, rfl⟩, plain.base, ?_, rfl, ?_,
            plain.unmeasured, plain.started, ?_⟩
          · exact bind_eq_ok.mpr ⟨(ret, queue), dequeued, rfl⟩
          · rw [behaves.departed]
          · rw [plain.base]
            exact behaves.represents.tail front
          · rw [plain.qdelayRef]
            exact behaves.fits
  | update now =>
      cases run
      have ⟨queue, updated, retuned, unmeasured, low⟩ := calculateDropProb_unmeasured
        behaves.unmeasured behaves.fits behaves.represents started due.word
      refine ⟨(⟨queue, s.1.departed⟩, now), ⟨due, ?_, rfl⟩, retuned.base.trans behaves.queue,
        behaves.departed, rfl, retuned.represents behaves.represents, unmeasured, low, ?_⟩
      · exact bind_eq_ok.mpr ⟨queue, updated, rfl⟩
      · rw [retuned.qdelayRef]
        exact behaves.fits

end

/-- As long as fewer bytes are held than a rate is measured with, a PIE queue is a drop-tail queue:
whatever a drop-tail queue with its limits does in a run in which it never holds that many, the PIE
queue does too, with the same packets held and given out, and no packet is dropped early. -/
theorem pie_refines_droptail {draw : Nat → ℚ} (positive : ∀ i, 0 ≤ draw i) {args : Text}
    {timestamp : Nat} {queue : PIEPacketQueue}
    (built : PIEPacketQueue.new args timestamp = .ok queue) (fits : queue.qdelayRef ≤ 2 ^ 31)
    {events : List PIEEvent} {base : DroppingPacketQueue} {departed : List QueuedPacket} {t : Nat}
    (run : Run TailStep ((queue.toDroppingPacketQueue, []), timestamp) events
      ((base, departed), t)) :
    ∃ s : PIEHistory, Run (PIEEvent.Step draw) (⟨queue, []⟩, timestamp) events (s, t) ∧
      s.queue.toDroppingPacketQueue = base ∧ s.departed = departed := by
  have ⟨sound, unmeasured⟩ := PIEPacketQueue.new_sound built
  have starts : Behaves ((queue.toDroppingPacketQueue, []), timestamp)
      (⟨queue, []⟩, timestamp) :=
    ⟨rfl, rfl, rfl, sound.represents, unmeasured, sound.started, fits⟩
  have ⟨⟨s, reading⟩, ran, behaves⟩ :=
    run.simulates (fun _ _ _ _ behaves step => behaves.step positive step) starts
  obtain rfl : reading = t := behaves.clock
  exact ⟨s, ran, behaves.queue, behaves.departed⟩

/-- Make an event on a drop-tail queue, if it returns. -/
def PIEEvent.tailExecAt (e : PIEEvent) (s : (DroppingPacketQueue × List QueuedPacket) × Nat) :
    Option ((DroppingPacketQueue × List QueuedPacket) × Nat) :=
  (e.tailExec s.1).toOption.bind fun next =>
    if totalBytes next.1.internalQueue < dqThreshold then some (next, e.last) else none

theorem PIEEvent.tailStep_of_execAt {e : PIEEvent}
    {s t : (DroppingPacketQueue × List QueuedPacket) × Nat} (returned : e.tailExecAt s = some t)
    (due : Due s.2 e) : TailStep s e t := by
  obtain ⟨next, run, returned⟩ := Option.bind_eq_some_iff.mp returned
  split at returned
  · rename_i few
    rw [← Option.some.inj returned]
    exact ⟨due, ok_of_toOption run, few, rfl⟩
  · cases returned

/-- Eleven packets arrive, and nine leave after a second. -/
def elevenIn : List PIEEvent :=
  List.replicate 11 (.enqueue 0 fullAtStart) ++ List.replicate 9 (.dequeue 1000 1000)

theorem pie_refines_droptail_elevenIn : ∃ s : PIEHistory,
    Run (PIEEvent.Step fun _ => 0) (⟨hundredPackets, []⟩, 0) elevenIn (s, 1000) ∧
      s.queue.internalQueue.length = 2 ∧ s.departed.length = 9 := by
  have built : PIEPacketQueue.new "packets=100, qdelay_ref=20, max_burst=100".toList 0 =
      .ok hundredPackets := by decide +kernel
  have observed : (execAll PIEEvent.tailExecAt (fun s e => Due s.2 e) elevenIn
      ((hundredPackets.toDroppingPacketQueue, []), 0)).map (fun s =>
        (s.2, s.1.1.internalQueue.length, s.1.2.length)) = some (1000, 2, 9) := by
    decide +kernel
  obtain ⟨⟨⟨base, departed⟩, t⟩, returned, seen⟩ := Option.map_eq_some_iff.mp observed
  simp only [Prod.mk.injEq] at seen
  obtain ⟨rfl, held, gone⟩ := seen
  have run : Run TailStep ((hundredPackets.toDroppingPacketQueue, []), 0) elevenIn
      ((base, departed), 1000) :=
    (run_of_execAll returned).mono (fun _ _ _ both => PIEEvent.tailStep_of_execAt both.1 both.2)
  have ⟨s, ran, queue, same⟩ :=
    pie_refines_droptail (fun _ => le_refl (0 : ℚ)) built (by decide) run
  exact ⟨s, ran, queue ▸ held, same ▸ gone⟩

end CellReplay
