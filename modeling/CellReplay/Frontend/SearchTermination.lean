import CellReplay.Frontend.Lookup

set_option autoImplicit false

namespace CellReplay

open Transition CellularQueue LightPdo

variable {cfg : Config}

/-- A search that ends has found a row later than some time, so the trace lasts. -/
theorem last_pos_of_found {trace : PacketTrainTrace} {T t fuel : Nat} {s : LightPdo}
    {found : InstanceSearch} (clock : t < 2 ^ 64)
    (cursor : Cursor trace T t s.currentDelayPdoIdx s.delayBaseTimestamp)
    (search : searchInstance fuel trace t s = .ok found) : 0 < trace.last := by
  obtain ⟨kept, _, _, before⟩ := searchInstance_found clock (searching_start cursor) search
  have inside := kept.cursor.inside
  have within : trace.time (found.currentDelayPdoIdx + 1) ≤ trace.last := by
    apply trace.time_mono _ _ _ trace.lastIdx_lt
    unfold PacketTrainTrace.lastIdx
    omega
  omega

/-- The search for the instance ends, for an arrival at any reading of the clock, exactly when the
last kept time is not 0. The constructor does not ask for that. -/
theorem searchInstance_ends_iff {packetQueue : AbstractPacketQueue} {ops : List Op}
    {q : CellularQueue cfg} {t now : Nat}
    (reaches : Reaches cfg (getPktReleaseTime cfg) packetQueue ops q t) (later : t ≤ now)
    (clock : now < 2 ^ 64) :
    (∃ fuel found, searchInstance fuel cfg.delayPdoTraces now
    (q.startTrace now).light = .ok found) ↔
      0 < cfg.delayPdoTraces.last := by
  have tracked := reaches.tracked (by omega)
  have cursor := tracked.cursor later
  constructor
  · rintro ⟨fuel, found, search⟩
    exact last_pos_of_found clock cursor search
  · intro lasting
    exact searchInstance_returns clock lasting (searching_start cursor)

/-- A train whose rows are all at 0 ms. -/
def stillTrain : PacketTrainTrace :=
  ⟨[⟨0, 10, [0]⟩, ⟨0, 10, [0]⟩, ⟨0, 10, [0]⟩],
    by decide, by decide, by decide, by decide, by decide⟩

def still : Config := Config.ofTraces everyTenMs stillTrain true 5 fiveMs_range

/-- The constructor accepts it, and the first packet is never placed. -/
theorem not_searchInstance_ends :
    PacketTrainTrace.load "train" 0 ["0 10 0".toList, "0 10 0".toList, "0 10 0".toList] =
      .ok stillTrain ∧
    Reaches still (getPktReleaseTime still) (.infinite {}) []
    (construct still (.infinite {}) 0 0) 0 ∧
    ¬ ∃ fuel found, searchInstance fuel stillTrain 0
      ((construct still (.infinite {}) 0 0).startTrace 0).light = .ok found := by
  refine ⟨by decide +kernel, ⟨0, 0, Nat.le_refl 0, Run.nil⟩, ?_⟩
  rintro ⟨fuel, found, search⟩
  have lasting := last_pos_of_found (T := 0) (by decide) (Cursor.start stillTrain 0) search
  exact absurd lasting (by decide)

/-- Half of all readings later than the first packet, the search still ends. -/
theorem searchInstance_ends_iff_late : ∃ q : CellularQueue undelayed,
    Reaches undelayed (getPktReleaseTime undelayed) (.infinite {}) [.readPacket 0 fullPacket] q 0 ∧
    ∃ fuel found, searchInstance fuel undelayedTrain (2 ^ 63) (q.startTrace (2 ^ 63)).light =
      .ok found := by
  have observed : (Op.execAll (getPktReleaseTime undelayed) 10 [.readPacket 0 fullPacket]
      (construct undelayed (.infinite {}) 0 0)).toOption.map
      (fun q => q.startTick) = some true := by
    decide +kernel
  obtain ⟨q, reaches, _⟩ := Reaches.of_execAll
    (show Op.Timed 0 0 [.readPacket 0 fullPacket] from
    ⟨0, by simp, by simp [Op.Between], rfl⟩) observed
  exact ⟨q, reaches, (searchInstance_ends_iff reaches (by decide) (by decide)).mpr (by decide)⟩

end CellReplay
