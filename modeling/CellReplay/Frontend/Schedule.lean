import CellReplay.Frontend.Delivery

set_option autoImplicit false

namespace CellReplay

open MachineWord FueledLoop Transition LinkQueue CellularQueue

variable {cfg : Config} {law : ReleaseLaw}

namespace HeavyTrace

variable (s : HeavyTrace)

/-- The row that opportunity `j` of an endless replay is made of. -/
def row (j : Nat) : Fin s.times.length :=
  ⟨j % s.times.length, Nat.mod_lt j s.length_pos⟩

/-- The time of opportunity `j` of an endless replay that starts at 0. -/
def replay (j : Nat) : Nat := j / s.times.length * s.last + s.times[s.row j]

theorem row_succ (j : Nat) : (s.row (j + 1)).val = ((s.row j).val + 1) % s.times.length := by
  show (j + 1) % s.times.length = (j % s.times.length + 1) % s.times.length
  rw [Nat.mod_add_mod]

theorem row_of_lt {j : Nat} (inside : j < s.times.length) : (s.row j).val = j :=
  Nat.mod_eq_of_lt inside

/-- The round of an opportunity goes up exactly when its row is the first one again. -/
theorem round_succ (j : Nat) : (j + 1) / s.times.length =
    j / s.times.length + if (s.row (j + 1)).val = 0 then 1 else 0 := by
  rw [Nat.succ_div]
  congr 1
  have divides : s.times.length ∣ j + 1 ↔ (s.row (j + 1)).val = 0 := Nat.dvd_iff_mod_eq_zero
  by_cases first : (s.row (j + 1)).val = 0
  · rw [if_pos first, if_pos (divides.mpr first)]
  · rw [if_neg first, if_neg (fun d => first (divides.mp d))]

end HeavyTrace

namespace LinkQueue

/-- The link stage has burned some opportunities of a replay anchored at `T`: those from the
`start`-th one on are opportunities `k`, `k + 1` and so on of the replay. -/
structure OnSchedule (T k start : Nat) (l : LinkQueue cfg) : Prop where
  counted : start ≤ l.opportunities.length
  burned : ∀ j (inside : start + j < l.opportunities.length),
    l.opportunities[start + j].deliveryTime = u64 (T + cfg.heavyPdoSchedule.replay (k + j) : Nat)
  cursor : l.finished = false → l.nextDelivery =
    cfg.heavyPdoSchedule.row (k + (l.opportunities.length - start))
  anchor : l.finished = false → u64 l.linkBaseTimestamp =
    u64 (T + (k + (l.opportunities.length - start)) / cfg.heavyPdoSchedule.times.length *
      cfg.heavyPdoSchedule.last : Nat)
  repeats : cfg.repeat_ = true → l.finished = false
  ends : cfg.repeat_ = false →
    k + (l.opportunities.length - start) ≤ cfg.heavyPdoSchedule.times.length ∧
      (l.finished = true ↔
        k + (l.opportunities.length - start) = cfg.heavyPdoSchedule.times.length)

/-- The next opportunity is the next one of the replay. -/
theorem OnSchedule.nextDeliveryTime {T k start : Nat} {l : LinkQueue cfg}
    (schedule : OnSchedule T k start l) (going : l.finished = false) :
    l.nextDeliveryTime =
      u64 (T + cfg.heavyPdoSchedule.replay (k + (l.opportunities.length - start)) : Nat) := by
  have cursor := schedule.cursor going
  have anchor := schedule.anchor going
  have row : cfg.heavyPdoSchedule.times[l.nextDelivery] = cfg.heavyPdoSchedule.times[
      cfg.heavyPdoSchedule.row (k + (l.opportunities.length - start))] := by
    simp only [cursor]
  unfold LinkQueue.nextDeliveryTime HeavyTrace.replay
  rw [going, if_neg Bool.false_ne_true, row, Int.add_comm, u64, toUnsigned_add_congr anchor]
  congr 1
  push_cast
  omega

theorem useADeliveryOpportunity_cases (l : LinkQueue cfg) :
    (l.followingDelivery.val ≠ 0 ∧
        l.useADeliveryOpportunity = { l with nextDelivery := l.followingDelivery }) ∨
      (l.followingDelivery.val = 0 ∧ cfg.repeat_ = true ∧ l.useADeliveryOpportunity =
        { l with
          nextDelivery := l.followingDelivery
          linkBaseTimestamp := u64 (l.linkBaseTimestamp + cfg.heavyPdoSchedule.last) }) ∨
      (l.followingDelivery.val = 0 ∧ cfg.repeat_ = false ∧ l.useADeliveryOpportunity =
        { l with nextDelivery := l.followingDelivery, finished := true }) := by
  unfold useADeliveryOpportunity
  by_cases first : l.followingDelivery.val = 0
  · rw [if_pos first]
    cases repeats : cfg.repeat_ with
    | true => exact Or.inr (Or.inl ⟨first, rfl, rfl⟩)
    | false => exact Or.inr (Or.inr ⟨first, rfl, rfl⟩)
  · rw [if_neg first]
    exact Or.inl ⟨first, rfl⟩

/-- After the burn of opportunity `j` of a replay the cursor is at the next row. -/
theorem followingDelivery_row {l : LinkQueue cfg} {j : Nat}
    (cursor : l.nextDelivery = cfg.heavyPdoSchedule.row j) :
    l.followingDelivery = cfg.heavyPdoSchedule.row (j + 1) := by
  apply Fin.ext
  rw [HeavyTrace.row_succ, ← cursor]
  rfl

theorem useADeliveryOpportunity_cursor {l : LinkQueue cfg} {j : Nat}
    (cursor : l.nextDelivery = cfg.heavyPdoSchedule.row j) :
    l.useADeliveryOpportunity.nextDelivery = cfg.heavyPdoSchedule.row (j + 1) := by
  rw [← followingDelivery_row cursor]
  rcases l.useADeliveryOpportunity_cases with ⟨_, use⟩ | ⟨_, _, use⟩ | ⟨_, _, use⟩
  all_goals rw [use]

/-- The base of the schedule moves on by the length of the trace at the end of a round. -/
theorem useADeliveryOpportunity_anchor {l : LinkQueue cfg} {T j : Nat}
    (cursor : l.nextDelivery = cfg.heavyPdoSchedule.row j)
    (anchor : u64 l.linkBaseTimestamp =
      u64 (T + j / cfg.heavyPdoSchedule.times.length * cfg.heavyPdoSchedule.last : Nat))
    (going : l.useADeliveryOpportunity.finished = false) :
    u64 l.useADeliveryOpportunity.linkBaseTimestamp =
      u64 (T + (j + 1) / cfg.heavyPdoSchedule.times.length * cfg.heavyPdoSchedule.last : Nat) := by
  rw [cfg.heavyPdoSchedule.round_succ, ← followingDelivery_row cursor]
  rcases l.useADeliveryOpportunity_cases with ⟨later, use⟩ | ⟨first, _, use⟩ | ⟨_, _, use⟩
  · rw [use, if_neg later, Nat.add_zero]
    exact anchor
  · rw [use, if_pos first]
    have wrapped := toUnsigned_add_congr anchor cfg.heavyPdoSchedule.last
    rw [show u64 (u64 (l.linkBaseTimestamp + cfg.heavyPdoSchedule.last) : Int) =
      u64 (l.linkBaseTimestamp + cfg.heavyPdoSchedule.last) from toUnsigned_toUnsigned 64 _]
    rw [u64, wrapped, Nat.add_mul, Nat.one_mul]
    congr 1
    push_cast
    omega
  · rw [use] at going
    cases going

theorem useADeliveryOpportunity_repeats {l : LinkQueue cfg} (going : l.finished = false)
    (repeats : cfg.repeat_ = true) : l.useADeliveryOpportunity.finished = false := by
  rcases l.useADeliveryOpportunity_cases with ⟨_, use⟩ | ⟨_, _, use⟩ | ⟨_, once, _⟩
  · rw [use]
    exact going
  · rw [use]
    exact going
  · rw [repeats] at once
    cases once

/-- Without repeat the schedule ends with the last row of the trace. -/
theorem useADeliveryOpportunity_ends {l : LinkQueue cfg} {j : Nat}
    (cursor : l.nextDelivery = cfg.heavyPdoSchedule.row j) (going : l.finished = false)
    (once : cfg.repeat_ = false) (within : j < cfg.heavyPdoSchedule.times.length) :
    l.useADeliveryOpportunity.finished = true ↔ j + 1 = cfg.heavyPdoSchedule.times.length := by
  have following := followingDelivery_row cursor
  rcases l.useADeliveryOpportunity_cases with ⟨later, use⟩ | ⟨_, repeats, _⟩ | ⟨first, _, use⟩
  · rw [use, going]
    constructor
    · intro ended
      cases ended
    · intro all
      rw [following, all] at later
      exact absurd (Nat.mod_self _) later
  · rw [once] at repeats
    cases repeats
  · rw [use]
    constructor
    · intro _
      rw [following] at first
      have divides := Nat.dvd_of_mod_eq_zero first
      have most := Nat.le_of_dvd (Nat.succ_pos _) divides
      omega
    · intro _
      rfl

/-- The opportunity recorded last is the next one of the replay too. -/
theorem OnSchedule.burned_concat {T k start : Nat} {l : LinkQueue cfg}
    (schedule : OnSchedule T k start l) (going : l.finished = false)
    {opportunities : List Opportunity} {sent : List (QueuedPacket × Nat)}
    (recorded : opportunities = l.opportunities ++ [⟨l.nextDeliveryTime, sent⟩]) :
    ∀ j (inside : start + j < opportunities.length), opportunities[start + j].deliveryTime =
      u64 (T + cfg.heavyPdoSchedule.replay (k + j) : Nat) := by
  intro j inside
  have counted := schedule.counted
  by_cases old : start + j < l.opportunities.length
  · have same := schedule.burned j old
    simp only [recorded, List.getElem_append_left old]
    exact same
  · have last : start + j = l.opportunities.length := by
      rw [recorded, List.length_append, List.length_singleton] at inside
      omega
    have index : j = l.opportunities.length - start := by omega
    simp only [recorded, last, List.getElem_concat_length]
    rw [schedule.nextDeliveryTime going, index]

/-- A burned opportunity is the next one of the replay, and the replay goes on. -/
theorem OnSchedule.burn {T k start fuel : Nat} {l next : LinkQueue cfg}
    (schedule : OnSchedule T k start l) (going : l.finished = false)
    (run : burnOpportunity fuel l = .ok next) : OnSchedule T k start next := by
  have ⟨link, sent, forwards, _, shape⟩ := burnOpportunity_cases run
  have counted := schedule.counted
  have cursor := schedule.cursor going
  have recorded : next.opportunities = l.opportunities ++ [⟨l.nextDeliveryTime, sent⟩] := by
    rw [shape, forwards.opportunities, l.useADeliveryOpportunity_frame]
  have finished : next.finished = l.useADeliveryOpportunity.finished := by
    rw [shape, forwards.finished]
  have length : k + (next.opportunities.length - start) =
      k + (l.opportunities.length - start) + 1 := by
    rw [recorded, List.length_append, List.length_singleton]
    omega
  refine ⟨?_, schedule.burned_concat going recorded, ?_, ?_, ?_, ?_⟩
  · rw [recorded, List.length_append]
    omega
  · intro _
    rw [length, shape]
    exact forwards.nextDelivery.trans (useADeliveryOpportunity_cursor cursor)
  · intro going'
    rw [finished] at going'
    have moved := useADeliveryOpportunity_anchor cursor (schedule.anchor going) going'
    rw [length, shape]
    dsimp only
    rw [forwards.linkBaseTimestamp]
    exact moved
  · intro repeats
    rw [finished]
    exact useADeliveryOpportunity_repeats going repeats
  · intro once
    have ⟨within, ended⟩ := schedule.ends once
    have unfinished : k + (l.opportunities.length - start) ≠ cfg.heavyPdoSchedule.times.length := by
      intro all
      rw [going] at ended
      exact Bool.false_ne_true (ended.mpr all)
    rw [length, finished]
    exact ⟨by omega, useADeliveryOpportunity_ends cursor going once (by omega)⟩

theorem nextDeliveryTime_lt (l : LinkQueue cfg) : l.nextDeliveryTime < 2 ^ 64 := by
  unfold LinkQueue.nextDeliveryTime
  split
  · exact toUnsigned_lt 64 _
  · exact toUnsigned_lt 64 _

/-- No opportunity of a finished schedule is due at a reading at which the loop ends. -/
theorem going_of_due {now : Nat} {l next : LinkQueue cfg} (exit : now < next.nextDeliveryTime)
    (due : opportunityDue now l = .ok true) : l.finished = false := by
  have reached : l.nextDeliveryTime ≤ now := of_decide_eq_true (Except.ok.inj due)
  have word := next.nextDeliveryTime_lt
  by_contra finished
  have last : l.nextDeliveryTime = 2 ^ 64 - 1 := by
    unfold LinkQueue.nextDeliveryTime
    rw [if_pos (by simpa using finished)]
    decide
  omega

theorem OnSchedule.rationalize {T k start fuel now : Nat} {l next : LinkQueue cfg}
    (schedule : OnSchedule T k start l) (run : l.rationalize fuel now = .ok next) :
    OnSchedule T k start next := by
  have exit := rationalize_exit run
  have kept := whileLoop_inv (I := OnSchedule T k start)
    (fun _ _ before turn => before.burn (going_of_due exit turn.1) turn.2) run schedule
  exact kept.1

end LinkQueue

/-- Once the trace is started, no step of a call anchors the replay again. -/
theorem Act.onSchedule {q next : CellularQueue cfg} {a : Action} {T k start : Nat}
    (act : Act law q a next) (started : q.startTick = true)
    (schedule : OnSchedule T k start q.link) :
    next.startTick = true ∧ OnSchedule T k start next.link := by
  cases act with
  | read run =>
      have ⟨_, packet, admits⟩ := readPacket_admits run
      have link := admits.link
      rw [if_pos started] at link
      rw [link]
      exact ⟨admits.startTick, schedule⟩
  | pass front due run =>
      rcases forwardPacket_cases run with ⟨_, _, shape⟩ | ⟨_, link, put, shape⟩
      · rw [shape]
        exact ⟨started, schedule⟩
      · have ⟨_, served, packetQueue, emulated, _, queued⟩ := putPacketToLinkQueue_cases put
        have kept := schedule.rationalize emulated
        rw [shape, queued]
        exact ⟨started, kept.counted, kept.burned, kept.cursor, kept.anchor,
          kept.repeats, kept.ends⟩
  | write front run =>
      have ⟨_, shape⟩ := writeOutput_cases front run
      rw [shape]
      exact ⟨started, schedule.counted, schedule.burned, schedule.cursor, schedule.anchor,
        schedule.repeats, schedule.ends⟩
  | serve run => exact ⟨started, schedule.rationalize run⟩

/-- The trace is started only when a packet has been read. -/
theorem Act.startTick {q next : CellularQueue cfg} {a : Action} (act : Act law q a next)
    (read : q.startTick = true → q.emplaced ≠ []) : next.startTick = true → next.emplaced ≠ [] := by
  rcases act.read_or_unread with ⟨fuel, now, contents, _, run⟩ | unread
  · have ⟨_, packet, admits⟩ := readPacket_admits run
    rw [admits.emplaced]
    simp
  · rw [unread.startTick, unread.emplaced]
    exact read

theorem Reaches.unstarted {packetQueue : AbstractPacketQueue} {ops : List Op}
    {q : CellularQueue cfg} {t : Nat} (reaches : Reaches cfg law packetQueue ops q t)
    (unread : ∀ op ∈ ops, op.admits = []) : q.startTick = false := by
  have kept := reaches.invariant (I := fun q => q.startTick = true → q.emplaced ≠ [])
    (fun _ _ _ before act => act.startTick before)
    (by
      intro linkTimestamp delayTimestamp started
      cases started)
  by_contra started
  have contents := reaches.emplaced
  rw [List.flatMap_eq_nil_iff.mpr unread] at contents
  exact kept.1 (by simpa using started) (List.map_eq_nil_iff.mp contents)

/-- The first packet anchors the replay at its arrival, wherever the polls before it have
moved the cursor. -/
theorem readPacket_onSchedule {fuel T : Nat} {contents : Bytes} {q next : CellularQueue cfg}
    (run : q.readPacket law fuel T contents = .ok next) (unstarted : q.startTick = false)
    (going : q.link.finished = false) :
    next.startTick = true ∧
      OnSchedule T q.link.nextDelivery next.link.opportunities.length next.link := by
  have ⟨_, packet, admits⟩ := readPacket_admits run
  have link := admits.link
  rw [unstarted, if_neg Bool.false_ne_true] at link
  have inside := q.link.nextDelivery.isLt
  refine ⟨admits.startTick, Nat.le_refl _, ?_, ?_, ?_, ?_, ?_⟩
  · intro j inside
    omega
  · intro _
    rw [link, Nat.sub_self, Nat.add_zero]
    apply Fin.ext
    rw [HeavyTrace.row_of_lt _ inside]
  · intro _
    rw [link, Nat.sub_self, Nat.add_zero, Nat.div_eq_of_lt inside, Nat.zero_mul, Nat.add_zero]
  · intro _
    rw [link]
    exact going
  · intro _
    rw [Nat.sub_self, Nat.add_zero, link]
    refine ⟨Nat.le_of_lt inside, ?_⟩
    simp only [going, Bool.false_eq_true, false_iff]
    omega

/-- The opportunities burned since the first packet are those of the replay anchored at its
arrival, and without repetition the schedule ends behind the last of them. -/
structure Replays (cfg : Config) (T : Nat) (burned : List Opportunity)
    (finished : Bool) : Prop where
  times : ∀ j (inside : j < burned.length),
    burned[j].deliveryTime = u64 (T + cfg.heavyPdoSchedule.replay j : Nat)
  offered : cfg.repeat_ = false → burned.length ≤ cfg.heavyPdoSchedule.times.length ∧
    (finished = true → burned.length = cfg.heavyPdoSchedule.times.length)

/-- The replay starts at the beginning of the trace if the polls before the first packet
have left the cursor there. -/
theorem replays_of_aligned {packetQueue : AbstractPacketQueue} {polls ops : List Op}
    {q₀ q₁ q₂ : CellularQueue cfg} {t₀ t₁ t₂ T : Nat} {contents : Bytes}
    (polled : Reaches cfg law packetQueue polls q₀ t₀) (unread : ∀ op ∈ polls, op.admits = [])
    (first : Step law (q₀, t₀) (.readPacket T contents) (q₁, t₁))
    (run : Run (Step law) (q₁, t₁) ops (q₂, t₂))
    (aligned : q₀.link.nextDelivery.val = 0 ∧ q₀.link.finished = false) :
    Replays cfg T (q₂.link.opportunities.drop q₁.link.opportunities.length) q₂.link.finished := by
  have ⟨_, _, fuel, read⟩ := first
  have started := readPacket_onSchedule read (polled.unstarted unread) aligned.2
  have filled : Filled q₁ := (Act.read read : Act law q₀ _ q₁).filled polled.filled
  have kept : OnSchedule T q₀.link.nextDelivery q₁.link.opportunities.length q₂.link :=
    (run_invariant (I := fun q => q.startTick = true ∧
        OnSchedule T q₀.link.nextDelivery q₁.link.opportunities.length q.link)
      (fun _ _ _ before act => act.onSchedule before.1 before.2) run filled started).1.2
  rw [aligned.1] at kept
  have ends := kept.ends
  rw [Nat.zero_add] at ends
  constructor
  · intro j inside
    rw [List.length_drop] at inside
    have burned := kept.burned j (by omega)
    rw [Nat.zero_add] at burned
    rw [List.getElem_drop]
    exact burned
  · intro once
    have ⟨within, ended⟩ := ends once
    rw [List.length_drop]
    exact ⟨within, ended.mp⟩

/-- A schedule with opportunities 5 and 10 ms into every 10 ms. -/
def fiveTen : HeavyTrace := ⟨[5, 10], by decide, by decide, by decide, by decide⟩

def undelayedFive : Config := Config.ofTraces fiveTen undelayedTrain true 5 fiveMs_range

/-- What is observed of the link before the first packet at 8 ms, and of the opportunities
burned after it, when the link is polled once `before` it and once `after` it. -/
def pollsAround (before after : Nat) : Option ((Nat × Bool) × List Nat) :=
  (Op.execAll (LightPdo.getPktReleaseTime undelayedFive) 10 [.waitTime before before]
    (construct undelayedFive (.infinite {}) 0 0)).toOption.bind fun q₀ =>
  (q₀.readPacket (LightPdo.getPktReleaseTime undelayedFive) 10 8 fullPacket).toOption.bind fun q₁ =>
  (Op.execAll (LightPdo.getPktReleaseTime undelayedFive) 10 [.waitTime after after] q₁).toOption.map
    fun q₂ => ((q₀.link.nextDelivery.val, q₀.link.finished), (q₂.link.opportunities.drop
      q₁.link.opportunities.length).map Opportunity.deliveryTime)

theorem pollsAround_run {before after cursor : Nat} {finished : Bool} {times : List Nat}
    (early : before ≤ 8) (late : 8 ≤ after)
    (observed : pollsAround before after = some ((cursor, finished), times)) :
    ∃ q₀ q₁ q₂ : CellularQueue undelayedFive,
      Reaches undelayedFive (LightPdo.getPktReleaseTime undelayedFive) (.infinite {})
        [.waitTime before before] q₀ before ∧
      Step (LightPdo.getPktReleaseTime undelayedFive) (q₀, before)
      (.readPacket 8 fullPacket) (q₁, 8) ∧
      Run (Step (LightPdo.getPktReleaseTime undelayedFive)) (q₁, 8) [.waitTime after after]
        (q₂, after) ∧
      (q₀.link.nextDelivery.val = cursor ∧ q₀.link.finished = finished) ∧
      (q₂.link.opportunities.drop q₁.link.opportunities.length).map Opportunity.deliveryTime =
        times := by
  have ⟨q₀, ran₀, observed⟩ := Option.bind_eq_some_iff.mp observed
  have ⟨q₁, ran₁, observed⟩ := Option.bind_eq_some_iff.mp observed
  have ⟨q₂, ran₂, seen⟩ := observe_ok observed
  have ⟨aligned, burned⟩ := Prod.mk.inj seen
  have ok₀ := ok_of_toOption ran₀
  have ok₁ := ok_of_toOption ran₁
  refine ⟨q₀, q₁, q₂, ⟨0, 0, Nat.le_refl 0, ?_⟩, ⟨⟨early, Nat.le_refl 8⟩, early, 10, ok₁⟩, ?_,
    Prod.mk.inj aligned, burned⟩
  · exact Op.run_of_execAll ⟨before, by simp, by simp [Op.Between], rfl⟩ ok₀
  · exact Op.run_of_execAll ⟨after, late, by simp [Op.Between, late], rfl⟩ ran₂

/-- A poll at 7 ms burns the opportunity at 5 ms, so the replay starts with the second row: the
first opportunity after the packet is at 18 ms, not at 13 ms. -/
theorem not_replays : ∃ q₀ q₁ q₂ : CellularQueue undelayedFive,
    Reaches undelayedFive (LightPdo.getPktReleaseTime undelayedFive) (.infinite {})
      [.waitTime 7 7] q₀ 7 ∧
    Step (LightPdo.getPktReleaseTime undelayedFive) (q₀, 7) (.readPacket 8 fullPacket) (q₁, 8) ∧
    Run (Step (LightPdo.getPktReleaseTime undelayedFive)) (q₁, 8) [.waitTime 18 18] (q₂, 18) ∧
    ¬ Replays undelayedFive 8 (q₂.link.opportunities.drop q₁.link.opportunities.length)
      q₂.link.finished := by
  have ⟨q₀, q₁, q₂, polled, first, run, _, burned⟩ :=
    pollsAround_run (by decide) (by decide)
      (show pollsAround 7 18 = some ((1, false), [18]) by decide +kernel)
  refine ⟨q₀, q₁, q₂, polled, first, run, ?_⟩
  intro replays
  have ⟨o, rest, shape⟩ := List.map_eq_cons_iff.mp burned
  have time := replays.times 0 (by rw [shape.1]; simp)
  simp only [shape.1, List.getElem_cons_zero, shape.2.1] at time
  exact absurd time (by decide)

/-- A poll at 3 ms burns nothing, and the replay starts with the first row. -/
theorem replays_of_aligned_early : ∃ q₁ q₂ : CellularQueue undelayedFive,
    (q₂.link.opportunities.drop q₁.link.opportunities.length).map Opportunity.deliveryTime =
      [13, 18] ∧
    Replays undelayedFive 8 (q₂.link.opportunities.drop q₁.link.opportunities.length)
      q₂.link.finished := by
  have ⟨_, q₁, q₂, polled, first, run, aligned, burned⟩ := pollsAround_run (by decide) (by decide)
    (show pollsAround 3 18 = some ((0, false), [13, 18]) by decide +kernel)
  exact ⟨q₁, q₂, burned, replays_of_aligned polled (by simp [Op.admits]) first run aligned⟩

end CellReplay
