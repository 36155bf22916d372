import CellReplay.Frontend.Handover
import CellReplay.Lib.Lockstep

set_option autoImplicit false

namespace CellReplay

open MachineWord FueledLoop CellularQueue

variable {cfg : Config} {d : Nat}

/-- A packet as it is stored in a run `d` milliseconds later. -/
def delayedBy (d : Nat) (p : DelayQueuePacket) : DelayQueuePacket :=
  { p with arrivalTime := p.arrivalTime + d, releaseTime := p.releaseTime + d }

namespace LightPdo

/-- Change the two members that are points in time. -/
def restamp (delayBaseTimestamp lastDelayQueueReleaseTime : Nat) (s : LightPdo) : LightPdo :=
  { s with
    delayBaseTimestamp := delayBaseTimestamp
    lastDelayQueueReleaseTime := lastDelayQueueReleaseTime }

/-- The state of a run `d` milliseconds later. Only the points in time differ; before the first
instance starts, the last release time is not read. -/
structure Shifted (d : Nat) (s s' : LightPdo) : Prop where
  base : (s'.delayBaseTimestamp : Int) ≡ s.delayBaseTimestamp + d [ZMOD 2 ^ 64]
  last : 0 ≤ s.currentBaseDelay →
    s'.lastDelayQueueReleaseTime = s.lastDelayQueueReleaseTime + d ∧
      s.lastDelayQueueReleaseTime + d < 2 ^ 63
  delay : s.currentBaseDelay < 2 ^ 31
  rest : s' = s.restamp s'.delayBaseTimestamp s'.lastDelayQueueReleaseTime

/-- The release times of two runs, the states they leave. -/
structure Releases (d : Nat) (out out' : Nat × LightPdo) : Prop where
  exactly : out.1 + d < 2 ^ 64 → out'.1 = out.1 + d
  word : out.1 < 2 ^ 64 ∧ out'.1 < 2 ^ 64
  last : out.2.lastDelayQueueReleaseTime = out.1 ∧ out'.2.lastDelayQueueReleaseTime = out'.1
  base : (out'.2.delayBaseTimestamp : Int) ≡ out.2.delayBaseTimestamp + d [ZMOD 2 ^ 64]
  delay : out.2.currentBaseDelay < 2 ^ 31
  rest : out'.2 = out.2.restamp out'.2.delayBaseTimestamp out'.2.lastDelayQueueReleaseTime

/-- The time since a base that is `d` later is the same `d` later. -/
theorem relative_shifted {t base base' : Nat} (later : (base' : Int) ≡ base + d [ZMOD 2 ^ 64]) :
    i64 ((t + d : Nat) - (base' : Int)) = i64 ((t : Int) - base) := by
  apply toSigned_eq_of_modEq
  have both := (Int.ModEq.refl ((t + d : Nat) : Int)).sub later
  have same : ((t + d : Nat) : Int) - (base + d) = (t : Int) - base := by
    push_cast
    omega
  rwa [same] at both

theorem Shifted.relativeTimestampMs {s s' : LightPdo} (shifted : Shifted d s s') (t : Nat) :
    s'.relativeTimestampMs (t + d) = s.relativeTimestampMs t := relative_shifted shifted.base

/-- The timer expires for the same packets. -/
theorem Shifted.startNewShortPdoTrace {s s' : LightPdo} {t : Nat} (shifted : Shifted d s s')
    (timer : 0 ≤ cfg.longToShortTimer) (clock : t + d < 2 ^ 63) :
    s'.startNewShortPdoTrace cfg (t + d) = s.startNewShortPdoTrace cfg t := by
  have delay : s'.currentBaseDelay = s.currentBaseDelay := by
    rw [shifted.rest]
    rfl
  have range := cfg.longToShortTimer_range
  have small := shifted.delay
  unfold LightPdo.startNewShortPdoTrace
  rw [delay]
  by_cases none : s.currentBaseDelay < 0
  · simp [none]
  · obtain ⟨last, below⟩ := shifted.last (by omega)
    have first : u64 ((s'.lastDelayQueueReleaseTime : Int) + cfg.longToShortTimer) =
        u64 ((s.lastDelayQueueReleaseTime : Int) + cfg.longToShortTimer) + d := by
      have here := toUnsigned_of_range 64 ((s.lastDelayQueueReleaseTime : Int) +
        cfg.longToShortTimer) (by omega) (by omega)
      have there := toUnsigned_of_range 64 ((s'.lastDelayQueueReleaseTime : Int) +
        cfg.longToShortTimer) (by omega) (by omega)
      unfold u64
      omega
    have second : u64 (((t + d : Nat) : Int) + s.currentBaseDelay) =
        u64 ((t : Int) + s.currentBaseDelay) + d := by
      have here := toUnsigned_of_range 64 ((t : Int) + s.currentBaseDelay) (by omega) (by omega)
      have there := toUnsigned_of_range 64 (((t + d : Nat) : Int) + s.currentBaseDelay)
        (by omega) (by omega)
      unfold u64
      omega
    rw [first, second]
    simp only [Nat.add_lt_add_iff_right]

/-- Two searches that differ in the base timestamp only. -/
structure SearchShifted (d : Nat) (f f' : InstanceSearch) : Prop where
  currentDelayPdoIdx : f'.currentDelayPdoIdx = f.currentDelayPdoIdx
  relativeTimestampMs : f'.relativeTimestampMs = f.relativeTimestampMs
  base : (f'.delayBaseTimestamp : Int) ≡ f.delayBaseTimestamp + d [ZMOD 2 ^ 64]

/-- A repetition of the trace moves both base timestamps on by the same. -/
theorem advanceRow_shifted {trace : PacketTrainTrace} {t : Nat} {f f' : InstanceSearch}
    (shifted : SearchShifted d f f') :
    Lockstep (SearchShifted d) (advanceRow trace t f) (advanceRow trace (t + d) f') := by
  unfold advanceRow
  rw [shifted.currentDelayPdoIdx]
  dsimp only
  by_cases ends : trace.lastIdx ≤ f.currentDelayPdoIdx + 1
  · rw [if_pos ends, if_pos ends]
    apply Lockstep.bind_same
    intro row
    have base : ((u64 ((f'.delayBaseTimestamp : Int) + row.time) : Nat) : Int) ≡
        (u64 ((f.delayBaseTimestamp : Int) + row.time) : Nat) + d [ZMOD 2 ^ 64] := by
      have there := toUnsigned_modEq 64 ((f'.delayBaseTimestamp : Int) + row.time)
      have here := toUnsigned_modEq 64 ((f.delayBaseTimestamp : Int) + row.time)
      have moved := shifted.base.add_right (row.time : Int)
      have swap : (f.delayBaseTimestamp : Int) + d + row.time =
          (f.delayBaseTimestamp : Int) + row.time + d := by omega
      rw [swap] at moved
      exact there.trans (moved.trans (here.symm.add_right (d : Int)))
    exact Lockstep.ok ⟨rfl, relative_shifted base, base⟩
  · rw [if_neg ends, if_neg ends]
    exact Lockstep.ok ⟨rfl, shifted.relativeTimestampMs, shifted.base⟩

theorem searchInstance_shifted (fuel : Nat) (trace : PacketTrainTrace) {t : Nat} {s s' : LightPdo}
    (shifted : Shifted d s s') : Lockstep (SearchShifted d)
      (searchInstance fuel trace t s) (searchInstance fuel trace (t + d) s') := by
  apply whileLoop_lockstep
  · intro f f' related
    unfold nextRowReached
    rw [related.currentDelayPdoIdx, related.relativeTimestampMs]
  · intro f f' related
    exact advanceRow_shifted related
  · refine ⟨?_, shifted.relativeTimestampMs t, shifted.base⟩
    rw [shifted.rest]
    rfl

/-- A new instance starts `d` milliseconds later in the same way. -/
theorem startInstance_shifted (fuel size : Nat) {t : Nat} {s s' : LightPdo}
    (shifted : Shifted d s s') : Lockstep (Releases d)
      (startInstance fuel cfg t size s) (startInstance fuel cfg (t + d) size s') := by
  unfold startInstance
  apply (searchInstance_shifted fuel cfg.delayPdoTraces shifted).bind
  intro found found' related
  rw [related.currentDelayPdoIdx, related.relativeTimestampMs]
  apply Lockstep.bind_same
  intro row
  apply Lockstep.bind_same
  intro next
  apply Lockstep.bind_same
  intro delay
  have swap : ((t + d : Nat) : Int) + u64 delay = (t : Int) + u64 delay + d := by
    push_cast
    omega
  have here : u64 ((t : Int) + u64 delay) < 2 ^ 64 := toUnsigned_lt 64 _
  have there : u64 (((t + d : Nat) : Int) + u64 delay) < 2 ^ 64 := toUnsigned_lt 64 _
  apply Lockstep.ok
  refine ⟨?_, ⟨here, there⟩, ⟨rfl, rfl⟩, related.base, ?_, ?_⟩
  · intro below
    dsimp only at below ⊢
    rw [swap]
    exact toUnsigned_shift below
  · dsimp only
    rw [beginInstance_currentBaseDelay]
    exact toSigned_lt 31 _
  · rw [shifted.rest]
    simp only [beginInstance, restamp, related.currentDelayPdoIdx, related.relativeTimestampMs]

/-- What the search for a slot keeps of the two states. -/
structure Restamped (d base last : Nat) (s s' : LightPdo) : Prop where
  rest : s' = s.restamp base last
  based : (base : Int) ≡ s.delayBaseTimestamp + d [ZMOD 2 ^ 64]
  delay : s.currentBaseDelay < 2 ^ 31

theorem Restamped.currDeliveryOpportunity {base last : Nat} {s s' : LightPdo}
    (related : Restamped d base last s s') :
    s'.currDeliveryOpportunity = s.currDeliveryOpportunity := by
  rw [related.rest]
  rfl

theorem Restamped.nextSlot {base last : Nat} {s s' : LightPdo}
    (related : Restamped d base last s s') :
    Restamped d base last s.nextSlot s'.nextSlot := by
  rw [related.rest]
  exact ⟨rfl, related.based, related.delay⟩

/-- The slots are those of the time since the instance started. -/
theorem takeSlot_restamped (fuel : Nat) (row : DelayPDOInstance) (elapsed : Int) (size : Nat)
    {base last : Nat} {s s' : LightPdo} (related : Restamped d base last s s') :
    Lockstep (Restamped d base last) (takeSlot fuel row elapsed size s)
      (takeSlot fuel row elapsed size s') := by
  unfold takeSlot
  have loops : Lockstep (Restamped d base last)
      (whileLoop Fault.fuel (slotPassed row elapsed) (fun s => .ok s.nextSlot) fuel s)
      (whileLoop Fault.fuel (slotPassed row elapsed) (fun s => .ok s.nextSlot) fuel s') := by
    apply whileLoop_lockstep
    · intro a b related
      rw [related.rest]
      rfl
    · intro a b related
      exact Lockstep.ok related.nextSlot
    · exact related
  apply loops.bind
  intro a b related
  have chosen : Restamped d base last
      (if u32 a.currDeliveryOpportunity < size then a.nextSlot else a)
      (if u32 b.currDeliveryOpportunity < size then b.nextSlot else b) := by
    rw [related.currDeliveryOpportunity]
    split
    · exact related.nextSlot
    · exact related
  apply Lockstep.ok
  rw [chosen.currDeliveryOpportunity]
  generalize i32 _ = left
  generalize (if u32 b.currDeliveryOpportunity < size then b.nextSlot else b) = taken' at chosen ⊢
  rw [chosen.rest]
  exact ⟨rfl, chosen.based, chosen.delay⟩

/-- The release times on a slot of two runs, and whether the heavy PDOs are bypassed. -/
structure OnSlot (d : Nat) (out out' : Nat × Bool) : Prop where
  exactly : out.1 + d < 2 ^ 64 → out'.1 = out.1 + d
  word : out.1 < 2 ^ 64 ∧ out'.1 < 2 ^ 64
  bypass : out'.2 = out.2

theorem releaseOnSlot_shifted {row : DelayPDOInstance} {elapsed : Int} {t base last : Nat}
    {s s' : LightPdo} (related : Restamped d base last s s') :
    Lockstep (OnSlot d) (releaseOnSlot row elapsed t s) (releaseOnSlot row elapsed (t + d) s') := by
  have later : ∀ x : Int, u64 ((t + d : Nat) + x) = u64 ((t : Int) + x + d) := by
    intro x
    congr 1
    push_cast
    omega
  have words : ∀ x : Int, u64 x < 2 ^ 64 := toUnsigned_lt 64
  have index : s'.currentPdoIdx = s.currentPdoIdx := by
    rw [related.rest]
    rfl
  have slots : s'.currentPdoSize = s.currentPdoSize := by
    rw [related.rest]
    rfl
  have delay : s'.currentBaseDelay = s.currentBaseDelay := by
    rw [related.rest]
    rfl
  unfold releaseOnSlot
  rw [index, slots, delay]
  by_cases past : s.currentPdoSize ≤ s.currentPdoIdx
  · rw [if_pos past, if_pos past]
    apply Lockstep.bind_same
    intro back
    refine Lockstep.ok ⟨?_, ⟨?_, ?_⟩, rfl⟩
    · intro below
      rw [later, later]
      have first : u64 ((t : Int) + s.currentBaseDelay) + d < 2 ^ 64 := by
        have := Nat.le_max_left (u64 ((t : Int) + s.currentBaseDelay)) (u64 ((t : Int) + back))
        omega
      have second : u64 ((t : Int) + back) + d < 2 ^ 64 := by
        have := Nat.le_max_right (u64 ((t : Int) + s.currentBaseDelay)) (u64 ((t : Int) + back))
        omega
      rw [u64, u64, toUnsigned_shift first, toUnsigned_shift second]
      exact (Nat.add_max_add_right _ _ _)
    · exact max_lt (words _) (words _)
    · exact max_lt (words _) (words _)
  · rw [if_neg past, if_neg past]
    apply Lockstep.bind_same
    intro slot
    apply Lockstep.bind_same
    intro _
    refine Lockstep.ok ⟨?_, ⟨words _, words _⟩, rfl⟩
    intro below
    have same : ((t + d : Nat) : Int) + s.currentBaseDelay + (slot - elapsed) =
        (t : Int) + s.currentBaseDelay + (slot - elapsed) + d := by
      push_cast
      omega
    dsimp only at below ⊢
    rw [same]
    exact toUnsigned_shift below

/-- The instance in use is used `d` milliseconds later in the same way. -/
theorem useCurrentPdo_shifted (fuel size : Nat) {t : Nat} {s s' : LightPdo}
    (shifted : Shifted d s s') : Lockstep (Releases d)
      (useCurrentPdo fuel cfg t size s) (useCurrentPdo fuel cfg (t + d) size s') := by
  have related : Restamped d s'.delayBaseTimestamp s'.lastDelayQueueReleaseTime s s' :=
    ⟨shifted.rest, shifted.base, shifted.delay⟩
  have elapsed : i64 (s'.relativeTimestampMs (t + d) - s'.pdoBaseTimestamp) =
      i64 (s.relativeTimestampMs t - s.pdoBaseTimestamp) := by
    rw [shifted.relativeTimestampMs t, shifted.rest]
    rfl
  have index : s'.currentDelayPdoIdx = s.currentDelayPdoIdx := by
    rw [shifted.rest]
    rfl
  unfold useCurrentPdo
  rw [elapsed, index]
  apply Lockstep.bind_same
  intro row
  apply (takeSlot_restamped fuel row _ size related).bind
  intro taken taken' kept
  apply (releaseOnSlot_shifted kept).bind
  rintro ⟨release, bypass⟩ ⟨release', bypass'⟩ onSlot
  obtain rfl : bypass' = bypass := onSlot.bypass
  refine Lockstep.ok ⟨onSlot.exactly, onSlot.word, ⟨rfl, rfl⟩, ?_, kept.delay, ?_⟩
  · rw [kept.rest]
    exact kept.based
  · rw [kept.rest]
    rfl

/-- The release time of a packet read `d` milliseconds later is `d` milliseconds later. -/
theorem getPktReleaseTime_shifted (fuel : Nat) (contents : Bytes) {t : Nat} {s s' : LightPdo}
    (shifted : Shifted d s s') (timer : 0 ≤ cfg.longToShortTimer) (clock : t + d < 2 ^ 63) :
    Lockstep (Releases d) (getPktReleaseTime cfg fuel t contents s)
      (getPktReleaseTime cfg fuel (t + d) contents s') := by
  unfold getPktReleaseTime getPktReleaseTimeFromTrace
  rw [shifted.startNewShortPdoTrace timer clock]
  split
  · exact startInstance_shifted fuel contents.length shifted
  · exact useCurrentPdo_shifted fuel contents.length shifted

end LightPdo

namespace CellularQueue

/-- The delay stages of two runs, the second one `d` milliseconds later. Before the first packet
the two are as they were built, at any two readings. -/
structure Shifted (d : Nat) (q q' : CellularQueue cfg) : Prop where
  startTick : q'.startTick = q.startTick
  started : q.startTick = true → LightPdo.Shifted d q.light q'.light
  unstarted : q.startTick = false → q.light.currentBaseDelay < 0 ∧
    q'.light = q.light.restamp q'.light.delayBaseTimestamp q'.light.lastDelayQueueReleaseTime
  ends : q'.endReleaseTime = q.endReleaseTime + d ∨ q.endReleaseTime = 0 ∧ q'.endReleaseTime = 0
  pktCounter : q'.pktCounter = q.pktCounter
  emplaced : q'.emplaced = q.emplaced.map (delayedBy d)

/-- The first packet anchors both runs at its arrival. -/
theorem Shifted.startTrace {q q' : CellularQueue cfg} (shifted : Shifted d q q') (t : Nat) :
    LightPdo.Shifted d (q.startTrace t).light (q'.startTrace (t + d)).light := by
  have ticks' := shifted.startTick
  cases ticks : q.startTick with
  | true =>
      rw [ticks] at ticks'
      unfold CellularQueue.startTrace
      rw [if_pos ticks, if_pos ticks']
      exact shifted.started ticks
  | false =>
      rw [ticks] at ticks'
      obtain ⟨fresh, rest⟩ := shifted.unstarted ticks
      have here : (q.startTrace t).light = { q.light with delayBaseTimestamp := t } := by
        simp [CellularQueue.startTrace, ticks]
      have there : (q'.startTrace (t + d)).light =
          { q'.light with delayBaseTimestamp := t + d } := by
        simp [CellularQueue.startTrace, ticks']
      rw [here, there]
      refine ⟨?_, ?_, lt_trans fresh (by decide), ?_⟩
      · show ((t + d : Nat) : Int) ≡ (t : Int) + d [ZMOD 2 ^ 64]
        rw [Int.natCast_add]
      · intro used
        exact absurd used (not_le.mpr fresh)
      · rw [rest]
        rfl

/-- Starting the trace leaves the packets stored as they are. -/
theorem startTrace_frame (t : Nat) (q : CellularQueue cfg) :
    (q.startTrace t).startTick = true ∧ (q.startTrace t).endReleaseTime = q.endReleaseTime ∧
      (q.startTrace t).pktCounter = q.pktCounter ∧ (q.startTrace t).emplaced = q.emplaced := by
  rw [startTrace_eq]
  exact ⟨rfl, rfl, rfl, rfl⟩

/-- A packet stored in both runs keeps them `d` milliseconds apart. -/
theorem emplace_shifted (q q' : CellularQueue cfg) {t release release' : Nat} {contents : Bytes}
    (ticks : q.startTick = true ∧ q'.startTick = true)
    (ends : q'.endReleaseTime = q.endReleaseTime + d ∨ q.endReleaseTime = 0 ∧ q'.endReleaseTime = 0)
    (pktCounter : q'.pktCounter = q.pktCounter)
    (emplaced : q'.emplaced = q.emplaced.map (delayedBy d))
    (releases : LightPdo.Releases d (release, q.light) (release', q'.light))
    (below : (q.emplace t contents release).endReleaseTime + d < 2 ^ 63) :
    Shifted d (q.emplace t contents release) (q'.emplace (t + d) contents release') := by
  have most : max release q.endReleaseTime + d < 2 ^ 63 := below
  have exactly : release' = release + d := releases.exactly (by dsimp only; omega)
  have last : q.light.lastDelayQueueReleaseTime = release := releases.last.1
  have last' : q'.light.lastDelayQueueReleaseTime = release' := releases.last.2
  have later : max release' q'.endReleaseTime = max release q.endReleaseTime + d := by omega
  have raised : release' < q'.endReleaseTime ↔ release < q.endReleaseTime := by omega
  have flag : q'.light.bypassLinkPdo = q.light.bypassLinkPdo := by
    have rest : q'.light = _ := releases.rest
    rw [rest]
    rfl
  have bypass : (if release' < q'.endReleaseTime then false else q'.light.bypassLinkPdo) =
      if release < q.endReleaseTime then false else q.light.bypassLinkPdo := by
    simp only [raised, flag]
  unfold emplace
  simp only [bypass, later, pktCounter, emplaced]
  refine ⟨ticks.2.trans ticks.1.symm, ?_, ?_, Or.inl rfl, rfl, ?_⟩
  · intro _
    refine ⟨releases.base, ?_, releases.delay, ?_⟩
    · intro _
      dsimp only
      omega
    · have rest : q'.light = _ := releases.rest
      dsimp only
      rw [rest]
      rfl
  · intro unstarted
    rw [show q.startTick = false from unstarted] at ticks
    cases ticks.1
  · rw [List.map_append]
    rfl

/-- A packet read in both runs is stored in both with the same flag, the release time of the later
run being `d` later. -/
theorem readPacket_shifted (fuel : Nat) (contents : Bytes) {t : Nat} {q q' : CellularQueue cfg}
    (shifted : Shifted d q q') (timer : 0 ≤ cfg.longToShortTimer)
    (none : cfg.psizeLatencyOffset = []) (clock : t + d < 2 ^ 63) :
    Lockstep (fun next next' => next.endReleaseTime + d < 2 ^ 63 → Shifted d next next')
      (q.readPacket (LightPdo.getPktReleaseTime cfg) fuel t contents)
      (q'.readPacket (LightPdo.getPktReleaseTime cfg) fuel (t + d) contents) := by
  have light := shifted.startTrace t
  have ends := shifted.ends
  unfold readPacket takePacket
  rw [latencyOffset_none none]
  by_cases small : contents.length < 20
  · rw [if_pos small, if_pos small]
    exact Lockstep.error _
  · rw [if_neg small, if_neg small]
    by_cases large : packetSize < contents.length
    · rw [if_pos large, if_pos large]
      exact Lockstep.error _
    · rw [if_neg large, if_neg large]
      apply (LightPdo.getPktReleaseTime_shifted fuel contents light timer clock).bind
      rintro ⟨release, after⟩ ⟨release', after'⟩ releases
      apply Lockstep.ok
      intro below
      rw [offsetReleaseTime_zero _ releases.word.1] at below ⊢
      rw [offsetReleaseTime_zero _ releases.word.2]
      have ⟨ticks, ended, counted, stored⟩ := startTrace_frame t q
      have ⟨ticks', ended', counted', stored'⟩ := startTrace_frame (t + d) q'
      refine emplace_shifted { q.startTrace t with light := after }
        { q'.startTrace (t + d) with light := after' } ⟨ticks, ticks'⟩ ?_ ?_ ?_ releases below
      · dsimp only
        rw [ended, ended']
        exact shifted.ends
      · exact counted'.trans (shifted.pktCounter.trans counted.symm)
      · dsimp only
        rw [stored, stored']
        exact shifted.emplaced

/-- Read some packets, each one at a clock reading. -/
def readAll (fuel : Nat) (arrivals : List (Nat × Bytes)) (q : CellularQueue cfg) :
    Except Fault (CellularQueue cfg) :=
  arrivals.foldlM (fun q a => q.readPacket (LightPdo.getPktReleaseTime cfg) fuel a.1 a.2) q

/-- Whether all release times stored by the packets read are below a bound. -/
def storesBelow (bound fuel : Nat) : List (Nat × Bytes) → CellularQueue cfg → Bool
  | [], _ => true
  | a :: arrivals, q =>
      match q.readPacket (LightPdo.getPktReleaseTime cfg) fuel a.1 a.2 with
      | .error _ => true
      | .ok next => next.endReleaseTime < bound && storesBelow bound fuel arrivals next

theorem readAll_lockstep (fuel : Nat) {arrivals : List (Nat × Bytes)} {q q' : CellularQueue cfg}
    (shifted : Shifted d q q') (timer : 0 ≤ cfg.longToShortTimer)
    (none : cfg.psizeLatencyOffset = []) (clock : ∀ a ∈ arrivals, a.1 + d < 2 ^ 63)
    (below : storesBelow (2 ^ 63 - d) fuel arrivals q = true) :
    Lockstep (Shifted d) (readAll fuel arrivals q)
      (readAll fuel (arrivals.map (fun a => (a.1 + d, a.2))) q') := by
  induction arrivals generalizing q q' with
  | nil => exact Lockstep.ok shifted
  | cons a arrivals ih =>
      have both := readPacket_shifted fuel a.2 shifted timer none (clock a List.mem_cons_self)
      unfold readAll at ih ⊢
      rw [List.map_cons, List.foldlM_cons, List.foldlM_cons]
      unfold storesBelow at below
      revert both below
      generalize q.readPacket (LightPdo.getPktReleaseTime cfg) fuel a.1 a.2 = outcome
      generalize q'.readPacket (LightPdo.getPktReleaseTime cfg) fuel (a.1 + d) a.2 = outcome'
      intro both below
      cases both with
      | error e => exact Lockstep.error e
      | ok related =>
          simp only [Bool.and_eq_true, decide_eq_true_eq] at below
          exact ih (related (by omega))
            (fun a member => clock a (List.mem_cons_of_mem _ member)) below.2

end CellularQueue

/-- A run of `read_packet` on arrivals `d` milliseconds later, in an emulator constructed at any
other time, stores each packet with the same flag and the release time of the first run plus `d`,
and fails where that one fails. -/
theorem readAll_delayed (timer : 0 ≤ cfg.longToShortTimer) (none : cfg.psizeLatencyOffset = [])
    (packetQueue : AbstractPacketQueue) (fuel linkTimestamp delayTimestamp d linkTimestamp'
      delayTimestamp' : Nat) {arrivals : List (Nat × Bytes)}
    (clock : ∀ a ∈ arrivals, a.1 + d < 2 ^ 63)
    (below : storesBelow (2 ^ 63 - d) fuel arrivals
      (construct cfg packetQueue linkTimestamp delayTimestamp) = true) :
    (readAll fuel (arrivals.map (fun a => (a.1 + d, a.2)))
        (construct cfg packetQueue linkTimestamp' delayTimestamp')).map CellularQueue.emplaced =
      (readAll fuel arrivals (construct cfg packetQueue linkTimestamp delayTimestamp)).map
        (fun q => q.emplaced.map (delayedBy d)) := by
  have start : CellularQueue.Shifted d (construct cfg packetQueue linkTimestamp delayTimestamp)
      (construct cfg packetQueue linkTimestamp' delayTimestamp') := by
    refine ⟨rfl, ?_, ?_, Or.inr ⟨rfl, rfl⟩, rfl, rfl⟩
    · intro started
      cases started
    · intro _
      exact ⟨show (-1 : Int) < 0 by decide, rfl⟩
  have both := CellularQueue.readAll_lockstep fuel start timer none clock below
  exact (both.map_eq (fun _ _ related => related.emplaced.symm)).symm

/-- A packet that starts an instance, one past its only slot, and one that starts another instance
when the trace has been repeated. -/
def threeArrivals : List (Nat × Bytes) :=
  [(3, fullPacket), (4, fullPacket), (250, List.replicate 700 0)]

/-- Read 1000 ms later in an emulator constructed at 7 ms, they are released 1000 ms later. -/
theorem readAll_delayed_threeArrivals :
    let stored := fun q : CellularQueue undelayed =>
      q.emplaced.map (fun p => (p.releaseTime, p.isBypassLinkQueue))
    (readAll 10 threeArrivals (construct undelayed (.infinite {}) 0 0)).toOption.map stored =
        some [(3, true), (4, false), (250, true)] ∧
      (readAll 10 (threeArrivals.map (fun a => (a.1 + 1000, a.2)))
          (construct undelayed (.infinite {}) 7 7)).map CellularQueue.emplaced =
        (readAll 10 threeArrivals (construct undelayed (.infinite {}) 0 0)).map
          (fun q => q.emplaced.map (delayedBy 1000)) := by
  intro stored
  exact ⟨by decide +kernel, readAll_delayed (by decide) rfl (.infinite {}) 10 0 0 1000 7 7
    (by decide +kernel) (by decide +kernel)⟩

end CellReplay
