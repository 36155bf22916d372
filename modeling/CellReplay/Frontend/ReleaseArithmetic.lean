import CellReplay.Frontend.ReleaseFloor
import CellReplay.Frontend.ReleaseOrder

set_option autoImplicit false

namespace CellReplay

open MachineWord FueledLoop Transition CellularQueue LightPdo

variable {cfg : Config}

/-- The release time to store for a packet, in integers without bounds: the offset is added where
the sum is not before the end of the delay stage, and the result is raised to that end. -/
def unboundedRelease (endReleaseTime releaseTime offset : Int) : Int :=
  max (if endReleaseTime ≤ releaseTime + offset then releaseTime + offset else releaseTime)
    endReleaseTime

/-- What the release time of a packet is computed from: its arrival, the end of the delay stage
before it, its release time from the trace, and its rounded offset. -/
structure Release where
  now : Nat
  endReleaseTime : Nat
  releaseTime : Nat
  offset : Int
  deriving DecidableEq, Repr

namespace Release

/-- The release time stored. -/
def stored (r : Release) : Nat :=
  max (offsetReleaseTime r.endReleaseTime r.releaseTime r.offset) r.endReleaseTime

/-- The members are of the types of the source. -/
structure Typed (r : Release) : Prop where
  endReleaseTime : r.endReleaseTime < 2 ^ 64
  releaseTime : r.releaseTime < 2 ^ 64
  offset : -2 ^ 31 ≤ r.offset ∧ r.offset < 2 ^ 31

/-- The sum of release time and offset is a `uint64_t`, or is negative and wraps to a value that
is not behind the end of the delay stage; and the arrival is not behind that end or the sum, or the
sum is before that end and the release time from the trace not before the arrival. -/
structure InRange (r : Release) : Prop where
  word : 0 ≤ r.releaseTime + r.offset ∧ r.releaseTime + r.offset < 2 ^ 64 ∨
    r.releaseTime + r.offset < 0 ∧ 2 ^ 64 + (r.releaseTime + r.offset) ≤ r.endReleaseTime
  arrived : r.now ≤ r.endReleaseTime ∨ r.now ≤ r.releaseTime + r.offset ∨
    r.releaseTime + r.offset < r.endReleaseTime ∧ r.now ≤ r.releaseTime

/-- The release times to store for some packets, in integers without bounds throughout: each one
is raised to the one before it. -/
def unbounded (releases : List Release) : List Int :=
  releases.foldl (fun times r =>
    times ++ [unboundedRelease (times.getLastD 0) r.releaseTime r.offset]) []

/-- The end of the delay stage that some packets leave. -/
def endAfter (releases : List Release) : Nat := (releases.map stored).getLastD 0

theorem endAfter_snoc (releases : List Release) (r : Release) :
    endAfter (releases ++ [r]) = r.stored := by
  unfold endAfter
  rw [List.map_append]
  exact List.getLastD_concat

/-- Each packet finds the end of the delay stage as the one before it left it. -/
inductive Linked : List Release → Prop
  | nil : Linked []
  | snoc {releases : List Release} {r : Release} (before : Linked releases) (typed : r.Typed)
      (ends : r.endReleaseTime = endAfter releases) : Linked (releases ++ [r])

theorem endAfter_lt {releases : List Release} (linked : Linked releases) :
    endAfter releases < 2 ^ 64 := by
  cases linked with
  | nil => decide
  | @snoc before r _ typed _ =>
      have adjusted : offsetReleaseTime r.endReleaseTime r.releaseTime r.offset < 2 ^ 64 := by
        unfold offsetReleaseTime
        split
        · exact toUnsigned_lt 64 _
        · exact typed.releaseTime
      rw [endAfter_snoc]
      exact Nat.max_lt.mpr ⟨adjusted, typed.endReleaseTime⟩

/-- The release times stored for some packets are those of unbounded arithmetic, and none is before
its arrival. -/
def AllExact (releases : List Release) : Prop :=
  releases.map (fun r => (r.stored : Int)) = unbounded releases ∧
    ∀ r ∈ releases, r.now ≤ r.stored

/-- While the release times are exact, so is the end of the delay stage. -/
theorem AllExact.endAfter {releases : List Release} (exact' : AllExact releases) :
    (unbounded releases).getLastD 0 = endAfter releases := by
  rw [← exact'.1]
  unfold Release.endAfter
  cases List.eq_nil_or_concat releases with
  | inl empty =>
      rw [empty]
      rfl
  | inr behind =>
      obtain ⟨front, r, shape⟩ := behind
      rw [shape]
      simp

end Release

/-- What a call that reads a packet computes its release time from. -/
def Op.releases (fuel : Nat) (op : Op) (q : CellularQueue cfg) (releases : List Release) :
    List Release :=
  match op with
  | .readPacket now contents =>
      match getPktReleaseTime cfg fuel now contents (q.startTrace now).light,
        latencyOffset cfg contents.length with
      | .ok (releaseTime, _), .ok offset =>
          releases ++ [⟨now, q.endReleaseTime, releaseTime, offset⟩]
      | _, _ => releases
  | _ => releases

/-- The emulator with the release law of the source makes some calls, and what the release times
are computed from is recorded. -/
def Released (cfg : Config) (packetQueue : AbstractPacketQueue) (ops : List Op)
    (q : CellularQueue cfg) (t : Nat) (releases : List Release) : Prop :=
  Recorded cfg (getPktReleaseTime cfg) Op.releases [] packetQueue ops q t releases

theorem Reading.record {fuel now releaseTime : Nat} {contents : Bytes}
    {q next : CellularQueue cfg} {light : LightPdo} {offset : Int}
    (reading : Reading fuel now contents q next releaseTime light offset)
    (releases : List Release) : Op.releases fuel (.readPacket now contents) q releases =
      releases ++ [⟨now, q.endReleaseTime, releaseTime, offset⟩] := by
  have law : getPktReleaseTime cfg fuel now contents (q.startTrace now).light =
    .ok (releaseTime, light) := reading.released
  simp only [Op.releases, law, reading.rounded]

theorem Op.releases_other (fuel : Nat) {op : Op} (q : CellularQueue cfg) (releases : List Release)
    (other : ∀ now contents, op ≠ .readPacket now contents) :
    op.releases fuel q releases = releases := by
  cases op with
  | readPacket now contents => exact absurd rfl (other now contents)
  | writePackets clock => rfl
  | waitTime nowDelay nowLink => rfl
  | pendingOutput now => rfl

/-- The packets stored are those recorded. -/
structure Stored (q : CellularQueue cfg) (releases : List Release) : Prop where
  emplaced : q.emplaced.map (fun p => (p.arrivalTime, p.releaseTime)) =
    releases.map (fun r => (r.now, r.stored))
  endReleaseTime : q.endReleaseTime = Release.endAfter releases
  linked : Release.Linked releases

theorem Released.stored {packetQueue : AbstractPacketQueue} {ops : List Op} {q : CellularQueue cfg}
    {t : Nat} {releases : List Release} (released : Released cfg packetQueue ops q t releases) :
    Stored q releases := by
  apply Recorded.invariant (I := fun q _ releases => Stored q releases) released
  · intro fuel op q releases other
    exact Op.releases_other fuel q releases other
  · intro linkTimestamp delayTimestamp
    exact ⟨rfl, rfl, Release.Linked.nil⟩
  · intro q next ops fuel t now t' contents releases _ before _ _ reads
    obtain ⟨releaseTime, light, offset, reading⟩ := readPacket_reading reads
    have emplaced := reading.emplaced
    have shape := reading.next_eq
    rw [startTrace_eq] at shape
    have ends : next.endReleaseTime =
        Release.stored ⟨now, q.endReleaseTime, releaseTime, offset⟩ := by
      rw [shape]
      rfl
    have typed : Release.Typed ⟨now, q.endReleaseTime, releaseTime, offset⟩ := by
      refine ⟨?_, getPktReleaseTimeFromTrace_word reading.released, toInt_range reading.rounded⟩
      show q.endReleaseTime < 2 ^ 64
      rw [before.endReleaseTime]
      exact Release.endAfter_lt before.linked
    rw [reading.record]
    refine ⟨?_, ?_, before.linked.snoc typed before.endReleaseTime⟩
    · rw [emplaced, List.map_append, List.map_append, before.emplaced, ends]
      rfl
    · rw [Release.endAfter_snoc]
      exact ends
  · intro q next t t' releases before _ unread
    refine ⟨?_, ?_, before.linked⟩
    · rw [unread.emplaced]
      exact before.emplaced
    · rw [unread.endReleaseTime]
      exact before.endReleaseTime

namespace Config

/-- No base delay of the trace is exceeded by what the offset of a packet size takes off. -/
def CoversOffset (cfg : Config) (size : Nat) : Prop :=
  ∀ delay offset, cfg.Gives delay → latencyOffset cfg size = .ok offset → 0 ≤ delay + offset

/-- The slot that releases packets past the last one is not before the zero of the clock, at an
arrival, or not brought back behind it by the offset. -/
def ClearOfZero (cfg : Config) (size now : Nat) : Prop :=
  ∀ row ∈ cfg.delayPdoTraces.instances, ∀ back offset, row.backSlot = .ok back →
    latencyOffset cfg size = .ok offset → now + back < 0 → now + back + offset < 0

end Config

/-- What is computed for a packet that is covered is in range. -/
theorem ReleasesAt.inRange {fuel now releaseTime : Nat} {contents : Bytes}
    {q next : CellularQueue cfg} {light : LightPdo} {offset : Int}
    (reading : Reading fuel now contents q next releaseTime light offset)
    (releases : ReleasesAt now next releaseTime) (gives : cfg.Gives next.light.currentBaseDelay)
    (delayed : 0 ≤ next.light.currentBaseDelay) (covers : cfg.CoversOffset contents.length)
    (clear : cfg.ClearOfZero contents.length now) :
    Release.InRange ⟨now, q.endReleaseTime, releaseTime, offset⟩ := by
  have covered := covers _ _ gives reading.rounded
  have range := toInt_range reading.rounded
  have floor := releases.floor
  constructor
  · left
    constructor
    · show (0 : Int) ≤ releaseTime + offset
      omega
    · show (releaseTime : Int) + offset < 2 ^ 64
      rcases releases.ceiling delayed with below | ⟨row, member, back, read, early, wraps⟩
      · omega
      · have behind := clear row member back offset read reading.rounded early
        omega
  · right
    left
    show (now : Int) ≤ releaseTime + offset
    omega

/-- So in a run whose packets are all covered every sum is in range. -/
theorem Released.inRange {packetQueue : AbstractPacketQueue} {ops : List Op}
    {q : CellularQueue cfg} {t : Nat} {releases : List Release} (ints : cfg.Ints)
    (delays : ∀ delay, cfg.Gives delay → 0 ≤ delay)
    (released : Released cfg packetQueue ops q t releases) (clock : t < 2 ^ 63)
    (covered : ∀ p ∈ q.emplaced, cfg.CoversOffset p.contents.length ∧
      cfg.ClearOfZero p.contents.length p.arrivalTime) : ∀ r ∈ releases, r.InRange := by
  apply Recorded.invariant (I := fun q t releases => t < 2 ^ 63 →
    (∀ p ∈ q.emplaced, cfg.CoversOffset p.contents.length ∧
      cfg.ClearOfZero p.contents.length p.arrivalTime) → ∀ r ∈ releases, r.InRange) released
    _ _ _ _ clock covered
  · intro fuel op q releases other
    exact Op.releases_other fuel q releases other
  · intro linkTimestamp delayTimestamp _ _ r member
    cases member
  · intro q next ops fuel t now t' contents releases recorded before later last reads clock covered
    obtain ⟨releaseTime, light, offset, reading⟩ := readPacket_reading reads
    obtain ⟨delayed, releasesAt⟩ :=
      recorded.reaches.releases ints later (by omega) reading
    rw [reading.emplaced] at covered
    rw [reading.record]
    intro r member
    rcases List.mem_append.mp member with old | new
    · exact before (by omega) (fun p stored => covered p (List.mem_append_left _ stored)) r old
    · obtain ⟨covers, clear⟩ := covered _ (List.mem_append_right _ (List.mem_singleton.mpr rfl))
      rw [List.mem_singleton.mp new]
      exact releasesAt.inRange reading delayed.given (delays _ delayed.given) covers clear
  · intro q next t t' releases before later unread clock covered
    rw [unread.emplaced] at covered
    exact before (by omega) covered

/-- A trace that gives a base delay at some time lasts. -/
theorem Config.GivesAt.lasting {x : Nat} {delay : Int} (gives : cfg.GivesAt x delay) :
    x < cfg.delayPdoTraces.last := by
  obtain ⟨i, _, _, found, _⟩ := gives
  have inside := found.inside
  have before := found.before
  have within := cfg.delayPdoTraces.time_mono (i + 1) cfg.delayPdoTraces.lastIdx
    (by unfold PacketTrainTrace.lastIdx; omega) cfg.delayPdoTraces.lastIdx_lt
  exact Nat.lt_of_lt_of_le before within

theorem Config.GivesAt.small {x : Nat} {delay : Int} (gives : cfg.GivesAt x delay)
    (ints : cfg.Ints) : delay < 2 ^ 31 := by
  obtain ⟨_, _, _, _, _, _, interpolated⟩ := gives
  exact (ints _ _ _ _ interpolated).2

namespace LightPdo

end LightPdo

/-- A packet that starts an instance at `now` is stored with the offset added. -/
structure Applied (now : Nat) (delay offset : Int) (contents : Bytes)
    (q next : CellularQueue cfg) : Prop where
  startTick : next.startTick = true
  base : next.light.currentBaseDelay = delay
  last : (next.light.lastDelayQueueReleaseTime : Int) = now + delay
  ends : (next.endReleaseTime : Int) = now + delay + offset
  emplaced : ∃ p, next.emplaced = q.emplaced ++ [p] ∧ p.contents = contents ∧
    p.arrivalTime = now ∧ p.releaseTime = next.endReleaseTime

/-- A packet behind it by more than any timer starts an instance again. -/
theorem Applied.starts {now since : Nat} {delay offset : Int} {contents : Bytes}
    {q next : CellularQueue cfg} (applied : Applied now delay offset contents q next)
    (delayed : 0 ≤ delay) (late : 2 ^ 31 ≤ now) (behind : 2 ^ 31 < since)
    (word : now + since + delay < 2 ^ 64) :
    (next.startTrace (now + since)).light.startNewShortPdoTrace cfg (now + since) = true := by
  have last := applied.last
  have base := applied.base
  have timer := cfg.longToShortTimer_range
  have tested : (u64 (next.light.lastDelayQueueReleaseTime + cfg.longToShortTimer) : Int) =
      next.light.lastDelayQueueReleaseTime + cfg.longToShortTimer :=
    toUnsigned_of_range 64 _ (by omega) (by omega)
  have due : (u64 ((now + since : Nat) + next.light.currentBaseDelay) : Int) =
      (now + since : Nat) + next.light.currentBaseDelay :=
    toUnsigned_of_range 64 _ (by omega) (by omega)
  unfold startTrace
  rw [if_pos applied.startTick]
  unfold startNewShortPdoTrace
  simp only [Bool.or_eq_true, decide_eq_true_eq]
  right
  omega

section
variable (ints : cfg.Ints) (delays : ∀ delay, cfg.Gives delay → 0 ≤ delay)
include ints delays

end

/-- Exact interpolation in a trace from 0 ms stays above the least base delay of its rows. -/
theorem Config.Gives.le {low delay : Int} (gives : cfg.Gives delay)
    (exact' : cfg.interpolate = exactInterpolate) (fromZero : cfg.delayPdoTraces.time 0 = 0)
    (rows : ∀ row ∈ cfg.delayPdoTraces.instances, low ≤ row.delay) : low ≤ delay := by
  obtain ⟨x, i, row, next, found, current, following, interpolated⟩ := gives
  have inside := found.inside
  have before := found.before
  have reached : cfg.delayPdoTraces.time i ≤ x := by
    rcases found.reached with first | reached
    · rw [first]
      omega
    · exact reached
  have rowMember := cfg.delayPdoTraces.row_mem current
  have nextMember := cfg.delayPdoTraces.row_mem following
  rw [PacketTrainTrace.row_eq_ok _ (by omega)] at current
  rw [PacketTrainTrace.row_eq_ok _ inside] at following
  rw [PacketTrainTrace.time_eq _ _ (by omega), Except.ok.inj current] at reached
  rw [PacketTrainTrace.time_eq _ _ inside, Except.ok.inj following] at before
  obtain ⟨between, value, above, _⟩ := exactInterpolate_between reached before
    (cfg.delayPdoTraces.representable next nextMember) (cfg.delayPdoTraces.delayed row rowMember)
    (cfg.delayPdoTraces.delayed next nextMember)
  rw [exact', value] at interpolated
  have same := Except.ok.inj interpolated
  have rowDelay := rows row rowMember
  have nextDelay := rows next nextMember
  omega

end CellReplay
