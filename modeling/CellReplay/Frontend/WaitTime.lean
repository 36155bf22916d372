import CellReplay.Frontend.Execution

set_option autoImplicit false

namespace CellReplay

open MachineWord FueledLoop LinkQueue CellularQueue

variable {cfg : Config}

/-- Truncating to `int` and clamping at 0 gives an `int`, never above the value truncated. -/
theorem clamp_bounds (n : Nat) :
    u32 (if i32 n < 0 then 0 else i32 n) < 2 ^ 31 ∧ u32 (if i32 n < 0 then 0 else i32 n) ≤ n := by
  have truncated : i32 n ≤ n := toSigned_le 32 n (Int.natCast_nonneg n)
  have bounded : i32 n < 2 ^ 31 := toSigned_lt 31 n
  by_cases negative : i32 n < 0
  · rw [if_pos negative]
    have zero : u32 0 = 0 := by decide
    omega
  · rw [if_neg negative]
    have unsigned : (u32 (i32 n) : Int) = i32 n :=
      toUnsigned_of_range 32 (i32 n) (by omega) (by omega)
    omega

/-- The sleep computed for the link stage fits an `int` and ends before the next opportunity. -/
theorem waitTimeLinkQueue_cases {fuel now w : Nat} {l next : LinkQueue cfg}
    (returned : l.waitTimeLinkQueue fuel now = .ok (w, next)) :
    l.rationalize fuel now = .ok next ∧ w < 2 ^ 31 ∧ now + w ≤ next.nextDeliveryTime := by
  have ⟨served, emulated, same⟩ := bind_eq_ok.mp returned
  have ⟨value, state⟩ := Prod.mk.inj (Except.ok.inj same)
  rw [state] at emulated value
  have later := rationalize_exit emulated
  have natural :
    ((next.nextDeliveryTime : Int) - now) = ((next.nextDeliveryTime - now : Nat) : Int) := by
    omega
  have word : u64 (next.nextDeliveryTime - now : Nat) ≤ next.nextDeliveryTime - now :=
    toUnsigned_le 64 _
  have bounds := clamp_bounds (u64 (next.nextDeliveryTime - now : Nat))
  rw [natural] at value
  refine ⟨emulated, ?_, ?_⟩
  · omega
  · omega

/-- The sleep computed for the delay stage ends before any release. -/
theorem waitTimeDelayQueue_before {now t : Nat} {q : CellularQueue cfg} (early : now ≤ t)
    (asleep : t < now + q.waitTimeDelayQueue now) :
    ∀ p ∈ q.delayPacketQueue.items, t < p.releaseTime := by
  unfold waitTimeDelayQueue at asleep
  intro p member
  cases shape : q.delayPacketQueue.items with
  | nil =>
      rw [shape] at member
      cases member
  | cons top rest =>
      rw [shape] at asleep member
      simp only at asleep
      have first : t < top.releaseTime := by
        by_cases due : top.releaseTime ≤ now
        · rw [if_pos due] at asleep
          omega
        · rw [if_neg due] at asleep
          have natural :
            ((top.releaseTime : Int) - now) = ((top.releaseTime - now : Nat) : Int) := by
            omega
          have word : u32 (top.releaseTime - now : Nat) ≤ top.releaseTime - now :=
            toUnsigned_le 32 _
          rw [natural] at asleep
          omega
      rcases List.mem_cons.mp member with same | behind
      · rw [same]
        exact first
      · have order := q.delayPacketQueue.top_before top rest shape p behind
        rw [popsBefore_iff] at order
        omega

/-- The event loop may sleep for the whole of `wait_time` when no output is pending: until
then no packet is released, and emulating the link changes nothing. -/
theorem waitTime_sound {fuel c w : Nat} {q next : CellularQueue cfg}
    (returned : q.waitTime fuel c c = .ok (w, next)) :
    0 ≤ i32 w ∧ (next.pendingOutput c = false → ∀ t, c ≤ t → (t : Int) < c + i32 w →
      (∀ p ∈ next.delayPacketQueue.items, t < p.releaseTime) ∧
      ∀ turns, next.link.rationalize (turns + 1) t = .ok next.link) := by
  have ⟨⟨waitTimeLink, link⟩, waited, same⟩ := bind_eq_ok.mp returned
  have ⟨value, state⟩ := Prod.mk.inj (Except.ok.inj same)
  have ⟨emulated, bounded, before⟩ := waitTimeLinkQueue_cases waited
  have least : w ≤ q.waitTimeDelayQueue c ∧ w ≤ waitTimeLink := by
    rw [← value]
    exact ⟨Nat.min_le_left _ _, Nat.min_le_right _ _⟩
  have int : i32 w = w := by
    apply toSigned_of_range 32 w (by decide)
    · omega
    · omega
  have untouched : next.waitTimeDelayQueue c = q.waitTimeDelayQueue c := by
    rw [← state]
    rfl
  have linked : next.link = link := by rw [← state]
  rw [int]
  refine ⟨Int.natCast_nonneg w, ?_⟩
  intro _ t later asleep
  constructor
  · apply waitTimeDelayQueue_before later
    rw [untouched]
    omega
  · intro turns
    apply rationalize_early
    rw [linked]
    omega

def delayedTenMs : Config := Config.ofTraces everyTenMs delayedTrain true 5 fiveMs_range

/-- Two packets at once are released at 10 ms, the second one to the link, and another one is read
at 12 ms. -/
def oneInEach : List Op :=
  [.readPacket 0 fullPacket, .readPacket 0 fullPacket, .writePackets (fun _ => 10),
    .readPacket 12 fullPacket]

theorem oneInEach_timed : Op.Timed 12 0 oneInEach := by
  refine ⟨0, ?_, ?_, 0, ?_, ?_, 10, ?_, ?_, 12, ?_, ?_, rfl⟩
  all_goals simp [Op.Between, monotone_const]

/-- With a packet in the link and one in the delay queue that is released at 22 ms, a poll at 12 ms
sleeps until the opportunity at 20 ms. -/
theorem waitTime_sound_poll : ∃ q next : CellularQueue delayedTenMs,
    Reaches delayedTenMs (LightPdo.getPktReleaseTime delayedTenMs) (.infinite {}) oneInEach q 12 ∧
      (q.link.packetQueue.packets.length = 1 ∧
        q.delayPacketQueue.items.map DelayQueuePacket.releaseTime = [22]) ∧
      q.waitTime 10 12 12 = .ok (8, next) ∧ next.pendingOutput 12 = false ∧
      ∀ t, 12 ≤ t → t < 20 → (∀ p ∈ next.delayPacketQueue.items, t < p.releaseTime) ∧
        ∀ turns, next.link.rationalize (turns + 1) t = .ok next.link := by
  have observed : (Op.execAll (LightPdo.getPktReleaseTime delayedTenMs) 10 oneInEach
      (construct delayedTenMs (.infinite {}) 0 0)).toOption.map (fun q =>
        (q.link.packetQueue.packets.length,
          q.delayPacketQueue.items.map DelayQueuePacket.releaseTime,
          (q.waitTime 10 12 12).toOption.map (fun r => (r.1, r.2.pendingOutput 12)))) =
      some (1, [22], some (8, false)) := by decide +kernel
  obtain ⟨q, reaches, seen⟩ := Reaches.of_execAll oneInEach_timed observed
  obtain ⟨held, seen⟩ := Prod.mk.inj seen
  obtain ⟨inside, seen⟩ := Prod.mk.inj seen
  obtain ⟨⟨w, next⟩, returned, seen⟩ := observe_ok seen
  obtain ⟨value, quiet⟩ := Prod.mk.inj seen
  simp only at value quiet
  rw [value] at returned
  refine ⟨q, next, reaches, ⟨held, inside⟩, returned, quiet, ?_⟩
  intro t later asleep
  have word : i32 (8 : Nat) = 8 := by decide
  exact (waitTime_sound returned).2 quiet t later (by rw [word]; omega)

end CellReplay
