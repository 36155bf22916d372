import CellReplay.Frontend.Handover
import CellReplay.Frontend.ReleaseFloor

set_option autoImplicit false

namespace CellReplay

open MachineWord Transition CellularQueue LightPdo

variable {cfg : Config} {law : ReleaseLaw}

namespace CellularQueue

/-- The end of the delay stage is the latest release time stored there. -/
structure EndsLatest (q : CellularQueue cfg) : Prop where
  bounds : ∀ p ∈ q.emplaced, p.releaseTime ≤ q.endReleaseTime
  attained : q.emplaced ≠ [] → ∃ p ∈ q.emplaced, p.releaseTime = q.endReleaseTime

/-- A packet read at `now`, not the first one, starts a new light PDO instance. -/
def Restarts (now : Nat) (q : CellularQueue cfg) : Prop :=
  q.emplaced ≠ [] ∧ q.light.startNewShortPdoTrace cfg now = true

/-- The delay stage has been idle for the timer when a packet read at `now` would be released. -/
def IdleForTimer (now : Nat) (q : CellularQueue cfg) : Prop :=
  ∀ p ∈ q.emplaced, (p.releaseTime : Int) + cfg.longToShortTimer < now + q.light.currentBaseDelay

end CellularQueue

theorem Act.endsLatest {q next : CellularQueue cfg} {a : Action} (act : Act law q a next)
    (latest : EndsLatest q) : EndsLatest next := by
  rcases act.read_or_unread with ⟨fuel, now, contents, _, run⟩ | unread
  · have ⟨_, packet, admits⟩ := readPacket_admits run
    have clamped := admits.clamped
    have release := admits.releaseTime
    constructor
    · intro p member
      rw [admits.emplaced] at member
      rcases List.mem_append.mp member with old | new
      · have bound := latest.bounds p old
        omega
      · rw [List.mem_singleton.mp new]
        omega
    · intro _
      refine ⟨packet, ?_, release⟩
      rw [admits.emplaced]
      simp
  · constructor
    · rw [unread.emplaced, unread.endReleaseTime]
      exact latest.bounds
    · rw [unread.emplaced, unread.endReleaseTime]
      exact latest.attained

theorem Reaches.endsLatest {packetQueue : AbstractPacketQueue} {ops : List Op}
    {q : CellularQueue cfg} {t : Nat} (reaches : Reaches cfg law packetQueue ops q t) :
    EndsLatest q := by
  have kept := reaches.invariant (I := fun q => EndsLatest q)
    (fun _ _ _ before act => act.endsLatest before)
    (by
      intro linkTimestamp delayTimestamp
      constructor
      · simp [construct]
      · simp [construct])
  exact kept.1

/-- What a packet read at `a` leaves, if it is the last one. Without an offset table the delay stage
ends no earlier than its release time from the trace. -/
structure LastRead (q : CellularQueue cfg) (a : Nat) : Prop where
  arrived : ∀ p ∈ q.emplaced, p.arrivalTime ≤ a
  floor : a + q.light.currentBaseDelay ≤ q.light.lastDelayQueueReleaseTime
  ends : q.light.lastDelayQueueReleaseTime ≤ q.endReleaseTime

/-- The delay stage up to the clock reading `t`. -/
structure ReadUpTo (q : CellularQueue cfg) (t : Nat) : Prop where
  arrived : ∀ p ∈ q.emplaced, p.arrivalTime ≤ t
  word : q.endReleaseTime < 2 ^ 64
  last : q.emplaced ≠ [] → ∃ a ≤ t, LastRead q a

theorem Reaches.readUpTo {packetQueue : AbstractPacketQueue} {ops : List Op}
    {q : CellularQueue cfg} {t : Nat}
    (reaches : Reaches cfg (getPktReleaseTime cfg) packetQueue ops q t) (ints : cfg.Ints)
    (none : cfg.psizeLatencyOffset = []) (clock : t < 2 ^ 63) : ReadUpTo q t := by
  obtain ⟨_, recorded⟩ := reaches.recorded (fun _ _ _ none => none) ()
  apply recorded.invariant (I := fun q t _ => t < 2 ^ 63 → ReadUpTo q t) _ _ _ _ clock
  · intros
    rfl
  · intro linkTimestamp delayTimestamp _
    exact ⟨by simp [construct], by simp [construct], by simp [construct]⟩
  · intro q next ops fuel t now t' contents _ recorded before later last reads clock
    obtain ⟨releaseTime, light, offset, reading⟩ := readPacket_reading reads
    have before := before (by omega)
    have ends := (reading.stores none).endReleaseTime
    have word := getPktReleaseTimeFromTrace_word reading.released
    have endWord := before.word
    obtain ⟨_, releases⟩ := recorded.reaches.releases ints later (by omega) reading
    have arrived : ∀ p ∈ next.emplaced, p.arrivalTime ≤ now := by
      intro p member
      rw [reading.emplaced] at member
      rcases List.mem_append.mp member with old | new
      · exact Nat.le_trans (before.arrived p old) later
      · rw [List.mem_singleton.mp new]
    refine ⟨fun p member => Nat.le_trans (arrived p member) last, by omega, ?_⟩
    intro _
    refine ⟨now, last, arrived, ?_, ?_⟩
    · rw [releases.last]
      exact releases.floor
    · rw [releases.last]
      omega
  · intro q next t t' _ before later unread clock
    have before := before (by omega)
    constructor
    · rw [unread.emplaced]
      exact fun p member => Nat.le_trans (before.arrived p member) later
    · rw [unread.endReleaseTime]
      exact before.word
    · intro filled
      rw [unread.emplaced] at filled
      obtain ⟨a, within, lastRead⟩ := before.last filled
      refine ⟨a, Nat.le_trans within later, ?_, ?_, ?_⟩
      · rw [unread.emplaced]
        exact lastRead.arrived
      · rw [unread.light]
        exact lastRead.floor
      · rw [unread.light, unread.endReleaseTime]
        exact lastRead.ends

/-- The branch test goes by the end of the delay stage: the last packet was not raised to it. It
cannot be passed at all when the sum it compares with is the largest `uint64_t`. -/
structure TestsEnd (q : CellularQueue cfg) : Prop where
  delayed : 0 ≤ q.light.currentBaseDelay
  unraised : q.light.lastDelayQueueReleaseTime = q.endReleaseTime ∧
      (q.endReleaseTime : Int) + cfg.longToShortTimer < 2 ^ 64 ∨
    (q.light.lastDelayQueueReleaseTime : Int) + cfg.longToShortTimer = 2 ^ 64 - 1

/-- With an instance in use the test compares two sums. -/
theorem restarts_iff {q : CellularQueue cfg} (read : q.emplaced ≠ [])
    (delayed : 0 ≤ q.light.currentBaseDelay) (now : Nat) :
    Restarts now q ↔ u64 (q.light.lastDelayQueueReleaseTime + cfg.longToShortTimer) <
      u64 (now + q.light.currentBaseDelay) := by
  unfold Restarts LightPdo.startNewShortPdoTrace
  simp [read, delayed]

/-- When the test goes by the end, a restart finds the delay stage idle for the timer. -/
theorem TestsEnd.idle {q : CellularQueue cfg} (tests : TestsEnd q) (latest : EndsLatest q)
    (timer : 0 ≤ cfg.longToShortTimer) {now : Nat} (restarts : Restarts now q) :
    IdleForTimer now q := by
  have delayed := tests.delayed
  have later := (restarts_iff restarts.1 delayed now).mp restarts
  have natural : (now + q.light.currentBaseDelay) =
      ((now + q.light.currentBaseDelay.toNat : Nat) : Int) := by omega
  have below : u64 (now + q.light.currentBaseDelay) ≤ now + q.light.currentBaseDelay.toNat := by
    rw [natural]
    exact toUnsigned_le 64 _
  have small : u64 (now + q.light.currentBaseDelay) < 2 ^ 64 := toUnsigned_lt 64 _
  intro p member
  have bound := latest.bounds p member
  have word : (q.light.lastDelayQueueReleaseTime : Int) + cfg.longToShortTimer < 2 ^ 64 →
      (u64 (q.light.lastDelayQueueReleaseTime + cfg.longToShortTimer) : Int) =
        q.light.lastDelayQueueReleaseTime + cfg.longToShortTimer := by
    intro short
    exact toUnsigned_of_range 64 _ (by omega) short
  rcases tests.unraised with ⟨same, short⟩ | never
  · have sum := word (by omega)
    omega
  · have sum := word (by omega)
    omega

/-- Otherwise some arrival restarts before that. -/
theorem LastRead.restarts_early {q : CellularQueue cfg} {a : Nat} (lastRead : LastRead q a)
    (read : q.emplaced ≠ []) (word : q.endReleaseTime < 2 ^ 64) (clock : a < 2 ^ 63)
    (small : q.light.currentBaseDelay < 2 ^ 31) (timer : 0 ≤ cfg.longToShortTimer)
    (fails : ¬ TestsEnd q) :
    ∃ now, a ≤ now ∧ now < 2 ^ 64 ∧ Restarts now q ∧
      (now : Int) + q.light.currentBaseDelay ≤ q.endReleaseTime + cfg.longToShortTimer := by
  have floor := lastRead.floor
  have ends := lastRead.ends
  have range := cfg.longToShortTimer_range
  by_cases delayed : 0 ≤ q.light.currentBaseDelay
  · have raised : ¬ (q.light.lastDelayQueueReleaseTime = q.endReleaseTime ∧
        (q.endReleaseTime : Int) + cfg.longToShortTimer < 2 ^ 64 ∨
      (q.light.lastDelayQueueReleaseTime : Int) + cfg.longToShortTimer = 2 ^ 64 - 1) :=
      fun tests => fails ⟨delayed, tests⟩
    -- The latest sum that a clock reading makes and the end does not pass.
    obtain ⟨sum, sum_eq⟩ : ∃ sum : Int,
        sum = min (q.endReleaseTime + cfg.longToShortTimer) (2 ^ 64 - 1) := ⟨_, rfl⟩
    have behind : (a : Int) + q.light.currentBaseDelay ≤ sum := by omega
    refine ⟨(sum - q.light.currentBaseDelay).toNat, by omega, by omega, ?_, by omega⟩
    rw [restarts_iff read delayed]
    have cast : (((sum - q.light.currentBaseDelay).toNat : Nat) : Int) +
        q.light.currentBaseDelay = sum := by omega
    have later : (u64 sum : Int) = sum := toUnsigned_of_range 64 _ (by omega) (by omega)
    rw [cast]
    by_cases short : (q.light.lastDelayQueueReleaseTime : Int) + cfg.longToShortTimer < 2 ^ 64
    · have tested : (u64 (q.light.lastDelayQueueReleaseTime + cfg.longToShortTimer) : Int) =
          q.light.lastDelayQueueReleaseTime + cfg.longToShortTimer :=
        toUnsigned_of_range 64 _ (by omega) short
      omega
    · have wraps : u64 ((q.light.lastDelayQueueReleaseTime : Int) + cfg.longToShortTimer) =
          u64 ((q.light.lastDelayQueueReleaseTime : Int) + cfg.longToShortTimer - 2 ^ 64) := by
        unfold u64 toUnsigned
        rw [Int.sub_emod_right]
      have tested : (u64 ((q.light.lastDelayQueueReleaseTime : Int) + cfg.longToShortTimer -
          2 ^ 64) : Int) = q.light.lastDelayQueueReleaseTime + cfg.longToShortTimer - 2 ^ 64 :=
        toUnsigned_of_range 64 _ (by omega) (by omega)
      rw [wraps]
      omega
  · refine ⟨a, Nat.le_refl a, by omega, ⟨read, ?_⟩, by omega⟩
    unfold LightPdo.startNewShortPdoTrace
    simp [not_le.mp delayed]

/-- At every restart that may come next, the delay stage has been idle for the timer, exactly when
the branch test goes by its end: when the last packet was not raised to it by `read_packet`. -/
theorem idleForTimer_iff {packetQueue : AbstractPacketQueue} {ops : List Op}
    {q : CellularQueue cfg} {t : Nat}
    (reaches : Reaches cfg (getPktReleaseTime cfg) packetQueue ops q t) (clock : t < 2 ^ 63)
    (none : cfg.psizeLatencyOffset = []) (timer : 0 ≤ cfg.longToShortTimer) (ints : cfg.Ints)
    (read : q.emplaced ≠ []) :
    (∀ now, (∀ p ∈ q.emplaced, p.arrivalTime ≤ now) → now < 2 ^ 64 → Restarts now q →
      IdleForTimer now q) ↔ TestsEnd q := by
  have latest := reaches.endsLatest
  have upTo := reaches.readUpTo ints none clock
  constructor
  · intro idle
    by_contra fails
    obtain ⟨a, within, lastRead⟩ := upTo.last read
    have small : q.light.currentBaseDelay < 2 ^ 31 := by
      by_cases used : 0 ≤ q.light.currentBaseDelay
      · obtain ⟨log, located⟩ := (reaches.delayed ints clock used).located
        exact located.small
      · omega
    obtain ⟨now, since, range, restarts, busy⟩ :=
      lastRead.restarts_early read upTo.word (by omega) small timer fails
    obtain ⟨p, member, release⟩ := latest.attained read
    have early := idle now (fun p member => Nat.le_trans (lastRead.arrived p member) since) range
      restarts p member
    rw [release] at early
    omega
  · intro tests now _ _ restarts
    exact tests.idle latest timer restarts

/-- A train whose instances have room at once and 100 ms later, with a base delay of 10 ms. -/
def twoSlotTrain : PacketTrainTrace :=
  ⟨[⟨0, 10, [0, 100]⟩, ⟨1000, 10, [0, 100]⟩, ⟨2000, 10, [0, 100]⟩], by decide, by decide, by decide,
    by decide, by decide⟩

def twoSlots : Config := Config.ofTraces everyTenMs twoSlotTrain true 0 (by decide)

/-- A third packet at once is released by its slot at 100 ms, and raised to the 110 ms of the
second. -/
def raisedThird : List Op :=
  [.readPacket 0 fullPacket, .readPacket 0 fullPacket, .readPacket 0 fullPacket]

theorem raisedThird_timed : Op.Timed 0 0 raisedThird := by
  refine ⟨0, ?_, ?_, 0, ?_, ?_, 0, ?_, ?_, rfl⟩
  all_goals simp [Op.Between]

/-- At 95 ms a new instance starts, for a packet that would be released at 105 ms, while two
packets are stored for 110 ms. -/
theorem raisedThird_reaches : ∃ q next : CellularQueue twoSlots,
    Reaches twoSlots (LightPdo.getPktReleaseTime twoSlots) (.infinite {}) raisedThird q 0 ∧
      q.readPacket (LightPdo.getPktReleaseTime twoSlots) 10 95 fullPacket = .ok next ∧
      Restarts 95 q ∧ q.emplaced.map DelayQueuePacket.releaseTime = [10, 110, 110] ∧
      q.light.currentBaseDelay = 10 := by
  have observed : (Op.execAll (LightPdo.getPktReleaseTime twoSlots) 10 raisedThird
      (construct twoSlots (.infinite {}) 0 0)).toOption.map (fun q =>
        ((q.readPacket (LightPdo.getPktReleaseTime twoSlots) 10 95 fullPacket).toOption.map
            CellularQueue.pktCounter,
          q.light.startNewShortPdoTrace twoSlots 95,
          q.emplaced.map DelayQueuePacket.releaseTime, q.light.currentBaseDelay)) =
      some (some 4, true, [10, 110, 110], 10) := by decide +kernel
  have ⟨q, reaches, seen⟩ := Reaches.of_execAll raisedThird_timed observed
  have ⟨read, seen⟩ := Prod.mk.inj seen
  have ⟨starts, seen⟩ := Prod.mk.inj seen
  have ⟨releases, delay⟩ := Prod.mk.inj seen
  have ⟨next, returned, _⟩ := observe_ok read
  refine ⟨q, next, reaches, returned, ⟨?_, starts⟩, releases, delay⟩
  intro none
  rw [none] at releases
  cases releases

theorem not_idleForTimer : ∃ q next : CellularQueue twoSlots,
    Reaches twoSlots (LightPdo.getPktReleaseTime twoSlots) (.infinite {}) raisedThird q 0 ∧
      q.readPacket (LightPdo.getPktReleaseTime twoSlots) 10 95 fullPacket = .ok next ∧
      Restarts 95 q ∧ ¬ IdleForTimer 95 q := by
  have ⟨q, next, reaches, returned, restarts, releases, delay⟩ := raisedThird_reaches
  refine ⟨q, next, reaches, returned, restarts, ?_⟩
  intro idle
  have stored : 110 ∈ q.emplaced.map DelayQueuePacket.releaseTime := by
    rw [releases]
    decide
  have ⟨p, member, release⟩ := List.mem_map.mp stored
  have earlier := idle p member
  rw [release, delay] at earlier
  exact absurd earlier (by decide)

/-- With only two packets at once the second one is released by its slot, at the end of the delay
stage, and the next restart comes when both have been released for the timer. -/
theorem idleForTimer_iff_unraised : ∃ q : CellularQueue twoSlots,
    Reaches twoSlots (LightPdo.getPktReleaseTime twoSlots) (.infinite {})
      [.readPacket 0 fullPacket, .readPacket 0 fullPacket] q 0 ∧
      q.emplaced.map DelayQueuePacket.releaseTime = [10, 110] ∧ Restarts 111 q ∧
      ∀ now, (∀ p ∈ q.emplaced, p.arrivalTime ≤ now) → now < 2 ^ 64 → Restarts now q →
        IdleForTimer now q := by
  have timed : Op.Timed 0 0 [.readPacket 0 fullPacket, .readPacket 0 fullPacket] := by
    refine ⟨0, ?_, ?_, 0, ?_, ?_, rfl⟩
    all_goals simp [Op.Between]
  have observed : (Op.execAll (LightPdo.getPktReleaseTime twoSlots) 10
      [.readPacket 0 fullPacket, .readPacket 0 fullPacket]
      (construct twoSlots (.infinite {}) 0 0)).toOption.map (fun q =>
        (q.emplaced.map DelayQueuePacket.releaseTime, q.light.startNewShortPdoTrace twoSlots 111,
          q.light.currentBaseDelay, q.light.lastDelayQueueReleaseTime, q.endReleaseTime)) =
      some ([10, 110], true, 10, 110, 110) := by decide +kernel
  obtain ⟨q, reaches, seen⟩ := Reaches.of_execAll timed observed
  obtain ⟨releases, seen⟩ := Prod.mk.inj seen
  obtain ⟨starts, seen⟩ := Prod.mk.inj seen
  obtain ⟨delay, seen⟩ := Prod.mk.inj seen
  obtain ⟨last, ends⟩ := Prod.mk.inj seen
  have read : q.emplaced ≠ [] := by
    intro none
    rw [none] at releases
    cases releases
  refine ⟨q, reaches, releases, ⟨read, starts⟩, ?_⟩
  apply (idleForTimer_iff reaches (by decide) rfl (by decide) ?_ read).mpr
  · constructor
    · omega
    · left
      rw [last, ends]
      decide
  · intro x row next delay interpolated
    exact exactInterpolate_int interpolated

end CellReplay
