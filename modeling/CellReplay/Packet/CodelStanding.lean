import CellReplay.Lib.PastTime
import CellReplay.Packet.TailLimited

set_option autoImplicit false

namespace CellReplay

open MachineWord FueledLoop PastTime Transition

namespace CODELPacketQueue

/-- A packet taken out: the reading of the clock, what `dodequeue` returned, and the packets left
behind it. -/
structure Judgement where
  now : Nat
  result : DodequeueResult
  left : List QueuedPacket
  deriving DecidableEq, Repr

/-- The packets that calls at `now` took out between two states of the queue. -/
def judgements (now : Nat) (q next : CODELPacketQueue) : List Judgement :=
  (next.taken.drop q.taken.length).zipIdx.map
    fun (result, i) => ⟨now, result, q.internalQueue.drop (i + 1)⟩

/-- The packet has waited for the target at least, and more than a packet's bytes are left behind
it. -/
def Above (target now : Nat) (r : DodequeueResult) (left : List QueuedPacket) : Prop :=
  left ≠ [] ∧ target ≤ u64 (now - r.p.arrivalTime) ∧ maxTunPayload < totalBytes left

instance (target now : Nat) (r : DodequeueResult) (left : List QueuedPacket) :
    Decidable (Above target now r left) :=
  inferInstanceAs (Decidable (_ ∧ _ ∧ _))

/-- Such a packet is taken out at `t` at the latest, -/
def AboveBy (target t : Nat) (_ : List Judgement) (j : Judgement) : Prop :=
  Above target j.now j.result j.left ∧ j.now ≤ t

/-- and one of the others. -/
def Below (target : Nat) (j : Judgement) : Prop :=
  ¬ Above target j.now j.result j.left

/-- There is a standing queue since `t`: at `t` or before a packet was above, and every packet
taken out since then was above too. -/
def StandingSince (target t : Nat) (past : List Judgement) : Prop :=
  Since (AboveBy target t) (Below target) past

section
variable {q next : CODELPacketQueue} {now : Nat} {r : DodequeueResult}

/-- What `dodequeue` decides, and what it remembers. -/
structure Judges (now : Nat) (q : CODELPacketQueue) (r : DodequeueResult)
    (next : CODELPacketQueue) : Prop where
  represents : next.toDroppingPacketQueue.Represents
  taken : next.taken = q.taken ++ [r]
  target : next.target = q.target
  interval : next.interval = q.interval
  decision : r.okToDrop = true ↔ Above q.target now r next.internalQueue ∧
    q.firstAboveTime ≠ 0 ∧ q.firstAboveTime ≤ now
  firstAboveTime : next.firstAboveTime =
    if Above q.target now r next.internalQueue then
      if q.firstAboveTime = 0 then u64 (now + q.interval) else q.firstAboveTime
    else 0

theorem dodequeue_judges (represents : q.toDroppingPacketQueue.Represents)
    (filled : q.internalQueue ≠ []) (run : q.dodequeue now = .ok (r, next)) :
    Judges now q r next := by
  obtain ⟨p, rest, front⟩ := List.exists_cons_of_ne_nil filled
  have popped := represents.dequeue front
  have after := represents.tail front
  have left : (q.popFront p rest).internalQueue = rest := rfl
  have size := after.toCounted.sizeBytes
  rw [left] at size
  unfold dodequeue delayLow at run
  simp only [popped, left, size, bind, Except.bind] at run
  by_cases empty : rest.isEmpty = true
  · simp only [empty, ↓reduceIte] at run
    cases run
    have low : ¬ Above q.target now ⟨p, false, q.taken.length⟩ rest :=
      fun above => above.1 (List.isEmpty_iff.mp empty)
    exact ⟨after, rfl, rfl, rfl, ⟨fun other => (by cases other), fun both => absurd both.1 low⟩,
      (if_neg low).symm⟩
  by_cases early : u64 (now - p.arrivalTime) < q.target
  · simp only [empty, early, ↓reduceIte] at run
    cases run
    have low : ¬ Above q.target now ⟨p, false, q.taken.length⟩ rest :=
      fun above => absurd above.2.1 (Nat.not_le.mpr early)
    exact ⟨after, rfl, rfl, rfl, ⟨fun other => (by cases other), fun both => absurd both.1 low⟩,
      (if_neg low).symm⟩
  by_cases few : totalBytes rest ≤ maxTunPayload
  · simp only [empty, early, few, ↓reduceIte] at run
    cases run
    have low : ¬ Above q.target now ⟨p, false, q.taken.length⟩ rest :=
      fun above => absurd above.2.2 (Nat.not_lt.mpr few)
    exact ⟨after, rfl, rfl, rfl, ⟨fun other => (by cases other), fun both => absurd both.1 low⟩,
      (if_neg low).symm⟩
  have above : ∀ ok, Above q.target now ⟨p, ok, q.taken.length⟩ rest := fun _ =>
    ⟨fun none => empty (List.isEmpty_iff.mpr none), Nat.not_lt.mp early, Nat.not_le.mp few⟩
  by_cases first : q.firstAboveTime = 0
  · simp only [empty, early, few, first, ↓reduceIte] at run
    cases run
    refine ⟨after, rfl, rfl, rfl, ?_, ?_⟩
    · exact ⟨fun other => (by cases other), fun both => absurd first both.2.1⟩
    · rw [if_pos first]
      exact (if_pos (above false)).symm
  · simp only [empty, early, few, first, ↓reduceIte] at run
    cases run
    refine ⟨after, rfl, rfl, rfl, ?_, ?_⟩
    · show decide (q.firstAboveTime ≤ now) = true ↔ _
      rw [decide_eq_true_iff]
      exact ⟨fun due => ⟨above _, first, due⟩, fun both => both.2.2⟩
    · rw [if_neg first]
      exact (if_pos (above _)).symm

/-- The packet taken out last is the last of the judgements. -/
theorem judgements_snoc {mid : CODELPacketQueue} (removes : Removes q mid)
    (takes : TakesOut now mid r next) :
    judgements now q next = judgements now q mid ++ [⟨now, r, next.internalQueue⟩] := by
  obtain ⟨results, taken, front, _⟩ := removes.removed
  have left : q.internalQueue.drop (results.length + 1) = next.internalQueue := by
    rw [front, takes.front, ← List.length_map DodequeueResult.p, List.drop_length_add_append]
    rfl
  unfold judgements
  rw [takes.taken, taken, List.append_assoc, List.drop_left, List.drop_left, List.zipIdx_append,
    List.map_append]
  simp [left]

end

/-- What the packets taken out so far leave: `first_above_time_` is an interval behind the start of
the standing queue, if there is one. -/
structure Standing (target interval clock : Nat) (past : List Judgement) (q : CODELPacketQueue) :
    Prop where
  represents : q.toDroppingPacketQueue.Represents
  sameTarget : q.target = target
  sameInterval : q.interval = interval
  early : q.firstAboveTime ≠ 0 → interval ≤ q.firstAboveTime ∧ q.firstAboveTime ≤ clock + interval
  since : ∀ t, StandingSince target t past ↔
    q.firstAboveTime ≠ 0 ∧ q.firstAboveTime ≤ t + interval

/-- A packet may be dropped exactly when it is above the target and there was a standing queue for
an interval before. -/
def Rightly (target interval : Nat) (past : List Judgement) (j : Judgement) : Prop :=
  j.result.okToDrop = true ↔ Above target j.now j.result j.left ∧
    ∃ t, t + interval ≤ j.now ∧ StandingSince target t past

section
variable {target interval clock : Nat} {past : List Judgement} {q next : CODELPacketQueue}

/-- The decision on the next packet taken out. -/
theorem Standing.decision (standing : Standing target interval clock past q) {now : Nat}
    {r : DodequeueResult} (judges : Judges now q r next) :
    Rightly target interval past ⟨now, r, next.internalQueue⟩ := by
  show r.okToDrop = true ↔ Above target now r next.internalQueue ∧
    ∃ t, t + interval ≤ now ∧ StandingSince target t past
  rw [judges.decision, standing.sameTarget]
  refine and_congr_right fun _ => ⟨?_, ?_⟩
  · intro ⟨set, due⟩
    have ⟨late, _⟩ := standing.early set
    exact ⟨now - interval, by omega, (standing.since _).mpr ⟨set, by omega⟩⟩
  · intro ⟨t, long, since⟩
    have ⟨set, due⟩ := (standing.since t).mp since
    exact ⟨set, by omega⟩

/-- A packet taken out at `now` starts a standing queue, prolongs it or ends it. -/
theorem Standing.judge (standing : Standing target interval clock past q) (positive : 0 < interval)
    {now : Nat} (later : clock ≤ now) (bounded : now + interval < 2 ^ 64) {r : DodequeueResult}
    (judges : Judges now q r next) :
    Standing target interval now (past ++ [⟨now, r, next.internalQueue⟩]) next := by
  have first := judges.firstAboveTime
  have word : u64 (now + q.interval) = now + interval := by
    rw [standing.sameInterval]
    exact_mod_cast toUnsigned_natCast 64 (now + interval) bounded
  rw [standing.sameTarget, word] at first
  have split : ∀ t, StandingSince target t (past ++ [⟨now, r, next.internalQueue⟩]) ↔
      (Above target now r next.internalQueue ∧ now ≤ t) ∨
        StandingSince target t past ∧ Above target now r next.internalQueue := by
    intro t
    unfold StandingSince
    rw [since_snoc]
    show _ ∨ _ ∧ ¬ ¬ Above _ _ _ _ ↔ _
    rw [not_not]
    rfl
  refine ⟨judges.represents, judges.target.trans standing.sameTarget,
    judges.interval.trans standing.sameInterval, ?_, ?_⟩
  · intro set
    rw [first] at set ⊢
    by_cases above : Above target now r next.internalQueue
    · rw [if_pos above] at set ⊢
      by_cases none : q.firstAboveTime = 0
      · rw [if_pos none]
        omega
      · rw [if_neg none]
        have ⟨low, high⟩ := standing.early none
        omega
    · rw [if_neg above] at set
      exact absurd rfl set
  · intro t
    rw [split, standing.since, first]
    by_cases above : Above target now r next.internalQueue
    · rw [if_pos above]
      simp only [above, true_and, and_true]
      by_cases none : q.firstAboveTime = 0
      · rw [if_pos none]
        omega
      · rw [if_neg none]
        have ⟨low, high⟩ := standing.early none
        omega
    · rw [if_neg above]
      simp only [above, false_and, and_false, or_self, ne_eq, not_true_eq_false]

/-- The control variables that are updated between two packets change nothing of it. -/
theorem Standing.frame (standing : Standing target interval clock past q)
    (represents : next.toDroppingPacketQueue.Represents) (sameTarget : next.target = q.target)
    (sameInterval : next.interval = q.interval)
    (first : next.firstAboveTime = q.firstAboveTime) :
    Standing target interval clock past next :=
  ⟨represents, sameTarget.trans standing.sameTarget, sameInterval.trans standing.sameInterval,
    first ▸ standing.early, fun t => first ▸ standing.since t⟩

/-- Time that passes changes nothing of it either. -/
theorem Standing.later (standing : Standing target interval clock past q) {now : Nat}
    (later : clock ≤ now) : Standing target interval now past q := by
  refine ⟨standing.represents, standing.sameTarget, standing.sameInterval, ?_, standing.since⟩
  intro set
  have ⟨low, high⟩ := standing.early set
  exact ⟨low, by omega⟩

end

/-- Every packet was judged by what had been taken out before it. -/
def AllRightly (target interval : Nat) (log : List Judgement) : Prop :=
  ∀ before j after, log = before ++ j :: after → Rightly target interval before j

theorem AllRightly.snoc {target interval : Nat} {log : List Judgement} {j : Judgement}
    (rightly : AllRightly target interval log) (last : Rightly target interval log j) :
    AllRightly target interval (log ++ [j]) := by
  intro before other after split
  rcases snoc_eq_append_cons split with ⟨same, this⟩ | ⟨rest, earlier, _⟩
  · rw [← same, ← this]
    exact last
  · exact rightly before other rest earlier

/-- What holds while a call at `now` takes packets out: every packet taken out so far, by this call
or before it, was judged rightly. -/
structure Judged (target interval now : Nat) (past : List Judgement) (q mid : CODELPacketQueue) :
    Prop where
  removes : Removes q mid
  standing : Standing target interval now (past ++ judgements now q mid) mid
  rightly : AllRightly target interval (past ++ judgements now q mid)

section
variable {target interval now : Nat} {past : List Judgement} {q mid next : CODELPacketQueue}
  {r : DodequeueResult} {controlLaw : Nat → Nat → Nat}

theorem Judged.start (standing : Standing target interval now past q)
    (rightly : AllRightly target interval past) : Judged target interval now past q q := by
  have none : past ++ judgements now q q = past := by simp [judgements]
  refine ⟨Removes.refl standing.represents, ?_, ?_⟩
  · rw [none]
    exact standing
  · rw [none]
    exact rightly

/-- Another packet is taken out. -/
theorem Judged.dodequeue (judged : Judged target interval now past q mid) (positive : 0 < interval)
    (bounded : now + interval < 2 ^ 64) (filled : mid.internalQueue ≠ [])
    (run : mid.dodequeue now = .ok (r, next)) :
    TakesOut now mid r next ∧ Judged target interval now past q next := by
  obtain ⟨other, after, returned, takes⟩ :=
    dodequeue_takesOut judged.standing.represents filled now
  obtain ⟨rfl, rfl⟩ := Prod.mk.inj (Except.ok.inj (returned.symm.trans run))
  have judges := dodequeue_judges judged.standing.represents filled run
  have log := judgements_snoc judged.removes takes
  refine ⟨takes, judged.removes.trans takes.removes, ?_, ?_⟩
  · rw [log, ← List.append_assoc]
    exact judged.standing.judge positive (Nat.le_refl now) bounded judges
  · rw [log, ← List.append_assoc]
    exact judged.rightly.snoc (judged.standing.decision judges)

/-- The control variables are updated. -/
theorem Judged.frame (judged : Judged target interval now past q mid)
    (base : next.toDroppingPacketQueue = mid.toDroppingPacketQueue)
    (taken : next.taken = mid.taken) (sameTarget : next.target = mid.target)
    (sameInterval : next.interval = mid.interval)
    (first : next.firstAboveTime = mid.firstAboveTime) :
    Judged target interval now past q next := by
  have log : judgements now q next = judgements now q mid := by
    unfold judgements
    rw [taken]
  have represents : next.toDroppingPacketQueue.Represents := by
    rw [base]
    exact judged.standing.represents
  refine ⟨⟨?_, ?_, represents⟩, ?_, ?_⟩
  · rw [taken, base]
    exact judged.removes.removed
  · rw [base]
    exact judged.removes.limits
  · rw [log]
    exact judged.standing.frame represents sameTarget sameInterval first
  · rw [log]
    exact judged.rightly

theorem Judged.countDrop (judged : Judged target interval now past q mid) (okToDrop : Bool) :
    Judged target interval now past q (mid.countDrop controlLaw okToDrop) := by
  cases okToDrop with
  | false => exact judged.frame rfl rfl rfl rfl rfl
  | true => exact judged.frame rfl rfl rfl rfl rfl

/-- The loop of `dequeue` takes packets out one after the other. -/
theorem Judged.loop {fuel : Nat} (judged : Judged target interval now past q mid)
    (positive : 0 < interval) (bounded : now + interval < 2 ^ 64) (droppable : Droppable mid)
    (run : whileLoop .fuel (dropDue now) (dropTurn controlLaw now) fuel mid = .ok next) :
    Judged target interval now past q next := by
  have kept := whileLoop_inv
    (I := fun other => Droppable other ∧ Judged target interval now past q other)
    (by
      intro a b ⟨droppable, judged⟩ turn
      have still := droppable.turn turn.1 controlLaw
      have dropping : a.dropping = true := by
        have due : (decide (a.dropNext ≤ now) && a.dropping) = true := Except.ok.inj turn.1
        exact (Bool.and_eq_true _ _ ▸ due).2
      obtain ⟨⟨r, after⟩, taken, rest⟩ := bind_eq_ok.mp turn.2
      have ⟨_, judged⟩ := judged.dodequeue positive bounded (droppable.filled dropping) taken
      obtain ⟨_, _, _, stepped, droppable, _⟩ := still
      rw [turn.2] at stepped
      rw [← Except.ok.inj stepped] at droppable
      rw [← Except.ok.inj rest] at droppable ⊢
      exact ⟨droppable, judged.countDrop r.okToDrop⟩)
    run ⟨droppable, judged⟩
  exact kept.1.2

/-- So does the call. -/
theorem Judged.dequeue (judged : Judged target interval now past q q) (positive : 0 < interval)
    (bounded : now + interval < 2 ^ 64) (filled : q.internalQueue ≠ [])
    (run : q.dequeue controlLaw now = .ok (r, next)) : Judged target interval now past q next := by
  obtain ⟨⟨first, mid⟩, taken, run⟩ := bind_eq_ok.mp run
  have ⟨takes, after⟩ := judged.dodequeue positive bounded filled taken
  dsimp only at run
  split at run
  · obtain ⟨last, looped, same⟩ := bind_eq_ok.mp run
    have droppable : Droppable { mid with dropping := first.okToDrop } :=
      ⟨takes.represents, takes.nonempty⟩
    have starts : Judged target interval now past q { mid with dropping := first.okToDrop } :=
      after.frame rfl rfl rfl rfl rfl
    have ended := starts.loop positive bounded droppable looped
    rw [← (Prod.mk.inj (Except.ok.inj same)).2]
    exact ended
  · split at run
    · rename_i ok
      obtain ⟨⟨second, last⟩, again, same⟩ := bind_eq_ok.mp run
      have ⟨_, ended⟩ := after.dodequeue positive bounded (takes.nonempty ok) again
      rw [← (Prod.mk.inj (Except.ok.inj same)).2]
      exact ended.frame rfl rfl rfl rfl rfl
    · rw [← (Prod.mk.inj (Except.ok.inj run)).2]
      exact after

/-- The packets judged in a call are those it took out. -/
theorem Removes.judgements (removes : Removes q next) (now : Nat) :
    q.taken ++ (judgements now q next).map Judgement.result = next.taken := by
  obtain ⟨results, taken, _⟩ := removes.removed
  unfold CODELPacketQueue.judgements
  rw [taken, List.drop_left, List.map_map]
  show _ ++ results.zipIdx.map Prod.fst = _
  rw [List.zipIdx_map_fst]

end

end CODELPacketQueue

open CODELPacketQueue

/-- A CoDel queue, the latest reading of the clock, and the packets taken out. -/
structure CodelHistory where
  queue : CODELPacketQueue
  clock : Nat
  log : List Judgement

/-- The calls that are made, and return: the clock does not run backwards, its readings are within
an interval of the end of a word at the latest, and packets are taken out only of a queue that is
not empty. -/
inductive CodelStep (controlLaw : Nat → Nat → Nat) :
    CodelHistory → QueueCall → CodelHistory → Prop
  | enqueue {s : CodelHistory} {p : QueuedPacket} {next : CODELPacketQueue} :
      p.contents.length < 2 ^ 31 → s.queue.enqueue p = .ok next →
      CodelStep controlLaw s (.enqueue p) { s with queue := next }
  | dequeue {s : CodelHistory} {now : Nat} {r : DodequeueResult} {next : CODELPacketQueue} :
      s.clock ≤ now → now + s.queue.interval < 2 ^ 64 → s.queue.internalQueue ≠ [] →
      s.queue.dequeue controlLaw now = .ok (r, next) →
      CodelStep controlLaw s (.dequeue now) ⟨next, now, s.log ++ judgements now s.queue next⟩

namespace CodelHistory

/-- Make a call, if it returns. -/
def exec (controlLaw : Nat → Nat → Nat) (s : CodelHistory) : QueueCall → Option CodelHistory
  | .enqueue p => (s.queue.enqueue p).toOption.map fun next => { s with queue := next }
  | .dequeue now => (s.queue.dequeue controlLaw now).toOption.map fun result =>
      ⟨result.2, now, s.log ++ judgements now s.queue result.2⟩

/-- When a call is made. -/
def Allowed (s : CodelHistory) : QueueCall → Prop
  | .enqueue p => p.contents.length < 2 ^ 31
  | .dequeue now =>
      s.clock ≤ now ∧ now + s.queue.interval < 2 ^ 64 ∧ s.queue.internalQueue ≠ []

instance (s : CodelHistory) (call : QueueCall) : Decidable (s.Allowed call) :=
  match call with
  | .enqueue p => inferInstanceAs (Decidable (p.contents.length < 2 ^ 31))
  | .dequeue _ => inferInstanceAs (Decidable (_ ∧ _ ∧ _))

theorem step_of_exec {controlLaw : Nat → Nat → Nat} {s t : CodelHistory} {call : QueueCall}
    (returned : s.exec controlLaw call = some t) (allowed : s.Allowed call) :
    CodelStep controlLaw s call t := by
  cases call with
  | enqueue p =>
      obtain ⟨next, run, same⟩ := Option.map_eq_some_iff.mp returned
      rw [← same]
      exact CodelStep.enqueue allowed (ok_of_toOption run)
  | dequeue now =>
      obtain ⟨result, run, same⟩ := Option.map_eq_some_iff.mp returned
      rw [← same]
      exact CodelStep.dequeue allowed.1 allowed.2.1 allowed.2.2 (ok_of_toOption run)

/-- What every call keeps. -/
structure Sound (target interval : Nat) (s : CodelHistory) : Prop where
  standing : Standing target interval s.clock s.log s.queue
  rightly : AllRightly target interval s.log
  complete : s.log.map Judgement.result = s.queue.taken

end CodelHistory

theorem CodelStep.sound {controlLaw : Nat → Nat → Nat} {target interval : Nat}
    {s t : CodelHistory} {call : QueueCall} (positive : 0 < interval)
    (sound : CodelHistory.Sound target interval s) (step : CodelStep controlLaw s call t) :
    CodelHistory.Sound target interval t := by
  cases step with
  | @enqueue p next sized run =>
      obtain ⟨base, accepted, same⟩ := bind_eq_ok.mp run
      have ⟨represents, _⟩ := sound.standing.represents.enqueueTail_returned sized accepted
      rw [← Except.ok.inj same]
      exact ⟨sound.standing.frame represents rfl rfl rfl, sound.rightly, sound.complete⟩
  | @dequeue now r next later bounded filled run =>
      rw [sound.standing.sameInterval] at bounded
      have start := Judged.start (sound.standing.later later) sound.rightly
      have judged := start.dequeue positive bounded filled run
      refine ⟨judged.standing, judged.rightly, ?_⟩
      rw [List.map_append, sound.complete]
      exact judged.removes.judgements now

theorem CODELPacketQueue.new_positive {args : Text} {q : CODELPacketQueue}
    (built : CODELPacketQueue.new args = .ok q) :
    0 < q.interval ∧ q.firstAboveTime = 0 ∧ q.taken = [] := by
  obtain ⟨base, first, built⟩ := bind_eq_ok.mp built
  obtain ⟨target, _, built⟩ := bind_eq_ok.mp built
  obtain ⟨interval, _, built⟩ := bind_eq_ok.mp built
  split at built
  · cases built
  · rename_i set
    cases built
    exact ⟨Nat.pos_of_ne_zero fun none => set (Or.inr none), rfl, rfl⟩

/-- In every run on a CoDel queue, `dodequeue` allows to drop a packet exactly when the packet
waited for the target at least with more than a packet's bytes behind it, and there has been a
standing queue for an interval: the same was so of every packet taken out since some time that is
an interval ago or more, and of one taken out by then. Every packet taken out is judged. -/
theorem codel_drops_from_standing_queue {controlLaw : Nat → Nat → Nat} {args : Text}
    {queue : CODELPacketQueue} (built : CODELPacketQueue.new args = .ok queue)
    {calls : List QueueCall} {s : CodelHistory}
    (run : Run (CodelStep controlLaw) ⟨queue, 0, []⟩ calls s) :
    s.log.map Judgement.result = s.queue.taken ∧
      ∀ before j after, s.log = before ++ j :: after →
        (j.result.okToDrop = true ↔ Above queue.target j.now j.result j.left ∧
          ∃ t, t + queue.interval ≤ j.now ∧ StandingSince queue.target t before) := by
  have ⟨positive, unset, empty⟩ := CODELPacketQueue.new_positive built
  have starts : CodelHistory.Sound queue.target queue.interval ⟨queue, 0, []⟩ := by
    refine ⟨⟨TailLimitedQueue.fresh_represents (CODELPacketQueue.new_fresh built), rfl, rfl,
      fun set => absurd unset set, ?_⟩, ?_, empty.symm⟩
    · exact fun t => ⟨fun since => absurd since not_since_nil, fun set => absurd unset set.1⟩
    · intro before j after split
      exact absurd split.symm (List.append_ne_nil_of_right_ne_nil before (List.cons_ne_nil j after))
  have sound := run.invariant (fun _ _ _ sound step => step.sound positive sound) starts
  exact ⟨sound.complete, sound.rightly⟩

theorem codel_drops_from_standing_queue_fourIn : ∃ s,
    Run (CodelStep everyHundred) ⟨freshCodel, 0, []⟩ fourIn s ∧
      s.log.map (fun j => (j.now, j.result.okToDrop)) = [(10, false), (120, true), (120, false)] ∧
      ∀ before j after, s.log = before ++ j :: after →
        (j.result.okToDrop = true ↔ Above 5 j.now j.result j.left ∧
          ∃ t, t + 100 ≤ j.now ∧ StandingSince 5 t before) := by
  have built : CODELPacketQueue.new "packets=10, target=5, interval=100".toList =
      .ok freshCodel := by decide +kernel
  have observed : (execAll (fun call s => s.exec everyHundred call) CodelHistory.Allowed fourIn
      ⟨freshCodel, 0, []⟩).map (fun s => s.log.map (fun j => (j.now, j.result.okToDrop))) =
      some [(10, false), (120, true), (120, false)] := by decide +kernel
  obtain ⟨s, returned, seen⟩ := Option.map_eq_some_iff.mp observed
  have run : Run (CodelStep everyHundred) ⟨freshCodel, 0, []⟩ fourIn s :=
    (run_of_execAll returned).mono (fun _ _ _ both => CodelHistory.step_of_exec both.1 both.2)
  exact ⟨s, run, seen, (codel_drops_from_standing_queue built run).2⟩

end CellReplay
