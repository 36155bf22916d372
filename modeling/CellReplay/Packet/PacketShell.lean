import CellReplay.Frontend.Progress
import CellReplay.Util.EventLoop

set_option autoImplicit false

namespace CellReplay

open FueledLoop Transition Poller

/-- The template parameter of a ferry: a queue with the operations its event loop calls. Those that
read the clock are given the readings. -/
structure FerryQueueType (Q : Type) where
  readPacket : Nat → Bytes → Q → Except Fault Q
  writePackets : (Nat → Nat) → Q → Except Fault Q
  waitTime : Nat → Nat → Q → Except Fault (Nat × Q)
  pendingOutput : Nat → Q → Bool
  finished : Q → Bool

/-- What the world answers in one turn: the reading of `pending_output`, the datagram of the TUN
device with the reading of `read_packet`, those of `write_packets`, and the signal delivered. -/
structure World where
  pendingNow : Nat
  contents : Bytes
  now : Nat
  clock : Nat → Nat
  delivered : Delivered

/-- The event loop of a ferry, with its queue and whether the TUN device is at its end of file. -/
structure Ferry (Q : Type) where
  loop : EventLoop
  queue : Q
  eof : Bool

namespace Ferry

variable {Q : Type}

/-- The handlers `DNSProxy::register_handlers` adds: they start a thread. -/
def listener : Poller.Action (Ferry Q) World where
  direction := .in
  callback _ f := .ok (.continue, f)
  whenInterested _ _ := true
  eof _ := false

/-- tun device gets datagram -> read it -> give to ferry -/
def tunIn (F : FerryQueueType Q) : Poller.Action (Ferry Q) World where
  direction := .in
  callback w f := do
    let queue ← F.readPacket w.now w.contents f.queue
    return (.continue, { f with queue := queue, eof := f.eof || w.contents.isEmpty })
  whenInterested _ _ := true
  eof f := f.eof

/-- ferry ready to write datagram -> send to sibling's tun device -/
def siblingOut (F : FerryQueueType Q) : Poller.Action (Ferry Q) World where
  direction := .out
  callback w f := do
    let queue ← F.writePackets w.clock f.queue
    return (.continue, { f with queue := queue })
  whenInterested w f := F.pendingOutput w.pendingNow f.queue
  eof _ := false

/-- exit if finished -/
def siblingFinished (F : FerryQueueType Q) : Poller.Action (Ferry Q) World where
  direction := .out
  callback _ f := .ok (.exit, f)
  whenInterested _ f := F.finished f.queue
  eof _ := false

def signalIn : Poller.Action (Ferry Q) World where
  direction := .in
  callback w f := do
    let (result, loop) ← f.loop.handleSignal w.delivered
    return (result, { f with loop := loop })
  whenInterested _ _ := true
  eof _ := false

/-- The handlers of a downlink that has a nameserver. -/
def handlers (nameserver : Bool) : List (Poller.Action (Ferry Q) World) :=
  if nameserver then [listener, listener] else []

/-- The actions in the order they are added: by `register_handlers`, by `Ferry::loop` and by
`internal_loop`. -/
def actions (F : FerryQueueType Q) (nameserver : Bool) : List (Poller.Action (Ferry Q) World) :=
  handlers nameserver ++ [tunIn F, siblingOut F, siblingFinished F, signalIn]

def entries (F : FerryQueueType Q) (nameserver : Bool) : List (Entry (Ferry Q) World) :=
  (actions F nameserver).foldl (fun entries action => addAction action entries) []

/-- One turn of `internal_loop`: the two readings of `wait_time`, and what the world answers. -/
structure Turn where
  nowDelay : Nat
  nowLink : Nat
  world : World
  revents : Option (Nat → Revents)

def Turn.round (r : Turn) : Round World := ⟨fun _ => r.world, r.revents⟩

/-- The body of the loop: `poller_.poll( wait_time() )`. How long the system call takes at most is
the world's affair. -/
def turn (F : FerryQueueType Q) (r : Turn) (entries : List (Entry (Ferry Q) World))
    (f : Ferry Q) : Except Fault (PollResult × List (Entry (Ferry Q) World) × Ferry Q) := do
  let (_, queue) ← F.waitTime r.nowDelay r.nowLink f.queue
  poll r.round entries { f with queue := queue }

/-- The calls of a turn behind that of `wait_time`, if everything happens. -/
def Turn.polled (r : Turn) : List Op :=
  [.pendingOutput r.world.pendingNow, .readPacket r.world.now r.world.contents,
    .writePackets r.world.clock]

/-- The calls that a turn can make: the wait time is asked for first, then some of the others are
made in their order. -/
def Turn.Makes (r : Turn) (ops : List Op) : Prop :=
  ∃ others, ops = .waitTime r.nowDelay r.nowLink :: others ∧ others.Sublist r.polled

/-- The clock readings of a turn are nondecreasing, from `t` to at most `t'`. -/
structure Turn.Between (t t' : Nat) (r : Turn) : Prop where
  start : t ≤ r.nowDelay
  waiting : r.nowDelay ≤ r.nowLink
  pending : r.nowLink ≤ r.world.pendingNow
  reading : r.world.pendingNow ≤ r.world.now
  writing : r.world.now ≤ r.world.clock 0
  onward : Monotone r.world.clock
  ended : ∀ k, r.world.clock k ≤ t'

/-- A turn of the loop, from one clock reading to another. The loop stops after a turn that comes
to `exit`; the turns that could follow are included here. -/
def Turns (F : FerryQueueType Q) (x : (List (Entry (Ferry Q) World) × Ferry Q) × Nat) (r : Turn)
    (y : (List (Entry (Ferry Q) World) × Ferry Q) × Nat) : Prop :=
  r.Between x.2 y.2 ∧ ∃ outcome, turn F r x.1.1 x.1.2 = .ok (outcome, y.1)

section
variable {F : FerryQueueType Q} {nameserver : Bool} {w : World}

theorem entries_eq : entries F nameserver = (actions F nameserver).map (⟨·, true⟩) := by
  unfold entries actions handlers
  cases nameserver
  · rfl
  · rfl

/-- No action of a ferry asks anything of the others; only one that reads may be cancelled. -/
theorem contract (F : FerryQueueType Q) (nameserver : Bool) (w : World) :
    Contract (· = w) (fun _ _ => True) (fun a _ => a.direction = .in) (fun _ => True)
      (actions F nameserver) where
  interested _ _ _ _ _ _ _ _ := trivial
  apart := List.pairwise_of_forall fun _ _ _ _ _ _ _ _ _ _ => trivial
  keeps a member answer f result t _ _ returned := by
    refine ⟨trivial, fun cancel => ?_, fun _ _ past => past⟩
    unfold actions at member
    rcases List.mem_append.mp member with early | member
    · unfold handlers at early
      split at early
      · simp only [List.mem_cons, List.not_mem_nil, or_false, or_self] at early
        rw [early]
        rfl
      · cases early
    simp only [List.mem_cons, List.not_mem_nil, or_false] at member
    rcases member with rfl | rfl | rfl | rfl
    · rfl
    · obtain ⟨queue, _, same⟩ := bind_eq_ok.mp returned
      cases same
      cases cancel
    · cases returned
      cases cancel
    · rfl

theorem start_inv (f : Ferry Q) : Contract.Inv (fun a _ => a.direction = .in) (fun _ => True)
    (actions F nameserver) (entries F nameserver) f := by
  refine ⟨trivial, ?_, ?_⟩
  · rw [entries_eq, List.map_map]
    exact List.map_id _
  · intro entry member off
    rw [entries_eq] at member
    obtain ⟨_, _, rfl⟩ := List.mem_map.mp member
    cases off

/-- Where each action stands among the others. -/
theorem actions_cut {front back : List (Poller.Action (Ferry Q) World)}
    {a : Poller.Action (Ferry Q) World} (cut : actions F nameserver = front ++ a :: back) :
    (a = listener ∧ 4 ≤ back.length) ∨ (a = tunIn F ∧ back.length = 3) ∨
      (a = siblingOut F ∧ back.length = 2) ∨ (a = siblingFinished F ∧ back.length = 1) ∨
      (a = signalIn ∧ back.length = 0) := by
  have here : (actions F nameserver)[front.length]? = some a := by
    rw [cut, List.getElem?_append_right (Nat.le_refl _), Nat.sub_self]
    rfl
  have length := congrArg List.length cut
  rw [List.length_append, List.length_cons] at length
  generalize front.length = place at here length
  cases nameserver with
  | false =>
      replace length : 4 = place + (back.length + 1) := length
      rcases place with _ | _ | _ | _ | place
      · exact Or.inr (Or.inl ⟨(Option.some.inj here).symm, by omega⟩)
      · exact Or.inr (Or.inr (Or.inl ⟨(Option.some.inj here).symm, by omega⟩))
      · exact Or.inr (Or.inr (Or.inr (Or.inl ⟨(Option.some.inj here).symm, by omega⟩)))
      · exact Or.inr (Or.inr (Or.inr (Or.inr ⟨(Option.some.inj here).symm, by omega⟩)))
      · omega
  | true =>
      replace length : 6 = place + (back.length + 1) := length
      rcases place with _ | _ | _ | _ | _ | _ | place
      · exact Or.inl ⟨(Option.some.inj here).symm, by omega⟩
      · exact Or.inl ⟨(Option.some.inj here).symm, by omega⟩
      · exact Or.inr (Or.inl ⟨(Option.some.inj here).symm, by omega⟩)
      · exact Or.inr (Or.inr (Or.inl ⟨(Option.some.inj here).symm, by omega⟩))
      · exact Or.inr (Or.inr (Or.inr (Or.inl ⟨(Option.some.inj here).symm, by omega⟩)))
      · exact Or.inr (Or.inr (Or.inr (Or.inr ⟨(Option.some.inj here).symm, by omega⟩)))
      · omega

/-- The state a call of the queue leaves. -/
def exec (F : FerryQueueType Q) : Op → Q → Except Fault Q
  | .readPacket now contents, q => F.readPacket now contents q
  | .writePackets clock, q => F.writePackets clock q
  | .waitTime nowDelay nowLink, q => do return (← F.waitTime nowDelay nowLink q).2
  | .pendingOutput _, q => .ok q

/-- One call of the queue, from the latest clock reading to the next. -/
def Calls (F : FerryQueueType Q) (s : Q × Nat) (op : Op) (s' : Q × Nat) : Prop :=
  op.Between s.2 s'.2 ∧ s.2 ≤ s'.2 ∧ exec F op s.1 = .ok s'.1

/-- What the callbacks of a turn have done to the queue with some actions still to come: the
datagram is read before the packets are written. -/
def Progress (F : FerryQueueType Q) (w : World) (q₀ : Q) (t t' left : Nat) (f : Ferry Q) : Prop :=
  ∃ ops u, Run (Calls F) (q₀, t) ops (f.queue, u) ∧ u ≤ t' ∧
    ops.Sublist [.readPacket w.now w.contents, .writePackets w.clock] ∧
    (3 ≤ left → u ≤ w.clock 0 ∧ ops.Sublist [.readPacket w.now w.contents]) ∧
    (4 ≤ left → u ≤ w.now ∧ ops = [])

theorem Progress.call {front back : List (Poller.Action (Ferry Q) World)} {q₀ : Q} {t t' : Nat}
    {call : Call (Ferry Q) World} {f f' : Ferry Q} (onward : Monotone w.clock)
    (writing : w.now ≤ w.clock 0) (ended : ∀ k, w.clock k ≤ t')
    (cut : actions F nameserver = front ++ call.action :: back)
    (called : Called (· = w) (fun _ _ => True) f call f')
    (progress : Progress F w q₀ t t' (back.length + 1) f) :
    Progress F w q₀ t t' back.length f' := by
  obtain ⟨ops, u, ran, within, all, unwritten, unread⟩ := progress
  obtain ⟨made, answered, result⟩ := call
  obtain ⟨answer, -, returned⟩ := called
  dsimp only at cut answer returned
  have quiet : f'.queue = f.queue → Progress F w q₀ t t' back.length f' := by
    intro same
    rw [← same] at ran
    exact ⟨ops, u, ran, within, all, fun more => unwritten (by omega),
      fun more => unread (by omega)⟩
  rcases actions_cut cut with ⟨action, _⟩ | ⟨action, three⟩ | ⟨action, two⟩ | ⟨action, one⟩ |
    ⟨action, zero⟩
  · rw [action] at returned
    cases returned
    exact quiet rfl
  · rw [action, answer] at returned
    obtain ⟨queue, read, same⟩ := bind_eq_ok.mp returned
    cases same
    have ⟨early, untouched⟩ := unread (by omega)
    rw [untouched] at ran
    have first : Run (Calls F) (q₀, t) [.readPacket w.now w.contents] (queue, w.now) :=
      Run.snoc ran ⟨⟨early, Nat.le_refl _⟩, early, read⟩
    refine ⟨_, w.now, first, Nat.le_trans writing (ended 0), ?_, ?_, fun more => by omega⟩
    · exact (List.Sublist.refl [_]).trans (List.sublist_append_left [_] [_])
    · exact fun _ => ⟨writing, List.Sublist.refl _⟩
  · rw [action, answer] at returned
    obtain ⟨queue, wrote, same⟩ := bind_eq_ok.mp returned
    cases same
    have ⟨before, some'⟩ := unwritten (by omega)
    have last : Run (Calls F) (q₀, t) (ops ++ [.writePackets w.clock]) (queue, t') :=
      Run.snoc ran ⟨⟨before, onward, ended⟩, within, wrote⟩
    exact ⟨_, t', last, Nat.le_refl _, some'.append (List.Sublist.refl [_]),
      fun more => by omega, fun more => by omega⟩
  · rw [action] at returned
    cases returned
    exact quiet rfl
  · rw [action] at returned
    obtain ⟨handled, _, same⟩ := bind_eq_ok.mp returned
    cases same
    exact quiet rfl

/-- A turn begins by asking the queue for its wait time. -/
theorem waitTime_calls {r : Turn} {q queue : Q} {u t t' timeout : Nat} (between : r.Between t t')
    (since : u ≤ t) (waited : F.waitTime r.nowDelay r.nowLink q = .ok (timeout, queue)) :
    Calls F (q, u) (.waitTime r.nowDelay r.nowLink) (queue, r.nowLink) := by
  have first : u ≤ r.nowDelay := Nat.le_trans since between.start
  refine ⟨⟨first, between.waiting, Nat.le_refl _⟩, Nat.le_trans first between.waiting, ?_⟩
  unfold exec
  dsimp only
  rw [waited]
  rfl

/-- What it polls for then is some of the other calls of a turn in which everything happens. -/
theorem poll_calls {r : Turn} {entries after : List (Entry (Ferry Q) World)} {f f' : Ferry Q}
    {outcome : PollResult} {t t' : Nat} (between : r.Between t t')
    (inv : Contract.Inv (fun a _ => a.direction = .in) (fun _ => True)
      (actions F nameserver) entries f)
    (polled : poll r.round entries f = .ok (outcome, after, f')) :
    Contract.Inv (fun a _ => a.direction = .in) (fun _ => True) (actions F nameserver) after f' ∧
      ∃ ops u', ops.Sublist r.polled ∧ u' ≤ t' ∧
        Run (Calls F) (f.queue, r.nowLink) ops (f'.queue, u') := by
  have ⟨calls, ran, order, kept⟩ :=
    (contract F nameserver r.world).served inv (fun _ => rfl) polled
  refine ⟨kept, ?_⟩
  have ordered : (calls.map Call.action).Sublist (actions F nameserver) := by
    have within := (order.sublist.map Prod.fst).trans dues_sublist
    rwa [List.map_map, inv.kept] at within
  have last : r.world.clock 0 ≤ t' := between.ended 0
  have early : r.world.pendingNow ≤ r.world.clock 0 :=
    Nat.le_trans between.reading between.writing
  have asks : Run (Calls F) (f.queue, r.nowLink) [.pendingOutput r.world.pendingNow]
      (f.queue, r.world.pendingNow) :=
    Run.single ⟨⟨between.pending, Nat.le_refl _⟩, between.pending, rfl⟩
  have start : Progress F r.world f.queue r.world.pendingNow t' (actions F nameserver).length f :=
    ⟨[], _, Run.nil, Nat.le_trans early last, List.nil_sublist _,
      fun _ => ⟨early, List.nil_sublist _⟩, fun _ => ⟨between.reading, rfl⟩⟩
  have ⟨ops, u', made, within, some', _⟩ := calls_through
    (J := Progress F r.world f.queue r.world.pendingNow t')
    (fun left f ⟨ops, u, ran, within, all, unwritten, unread⟩ =>
      ⟨ops, u, ran, within, all, fun more => unwritten (by omega), fun more => unread (by omega)⟩)
    (fun front back call s t cut called progress =>
      progress.call between.onward between.writing between.ended cut called)
    ran ordered start
  exact ⟨_, u', (List.Sublist.refl [_]).append some', within, asks.append made⟩

/-- So each turn makes such calls. -/
theorem turn_calls {r : Turn} {entries after : List (Entry (Ferry Q) World)} {f f' : Ferry Q}
    {outcome : PollResult} {u t t' : Nat} (between : r.Between t t') (since : u ≤ t)
    (inv : Contract.Inv (fun a _ => a.direction = .in) (fun _ => True)
      (actions F nameserver) entries f)
    (returned : turn F r entries f = .ok (outcome, after, f')) :
    Contract.Inv (fun a _ => a.direction = .in) (fun _ => True) (actions F nameserver) after f' ∧
      ∃ ops u', r.Makes ops ∧ u' ≤ t' ∧ Run (Calls F) (f.queue, u) ops (f'.queue, u') := by
  obtain ⟨⟨timeout, queue⟩, waited, polled⟩ := bind_eq_ok.mp returned
  have inv' : Contract.Inv (fun a _ => a.direction = .in) (fun _ => True) (actions F nameserver)
      entries { f with queue := queue } := ⟨trivial, inv.kept, inv.past⟩
  have ⟨kept, ops, u', some', within, made⟩ := poll_calls between inv' polled
  exact ⟨kept, _, u', ⟨ops, rfl, some'⟩, within,
    (Run.single (waitTime_calls between since waited)).append made⟩

end

section
variable {cfg : Config} {law : ReleaseLaw} {fuel : Nat} {nameserver : Bool} {w : World}

/-- The queue of the emulator's ferries. -/
def cellular (law : ReleaseLaw) (fuel : Nat) : FerryQueueType (CellularQueue cfg) where
  readPacket now contents q := q.readPacket law fuel now contents
  writePackets clock q := q.writePackets fuel clock
  waitTime nowDelay nowLink q := q.waitTime fuel nowDelay nowLink
  pendingOutput now q := q.pendingOutput now
  finished q := q.link.finished

theorem exec_cellular (op : Op) (q : CellularQueue cfg) :
    exec (cellular law fuel) op q = op.exec law fuel q := by
  cases op
  · rfl
  · rfl
  · rfl
  · rfl

/-- A ferry before its first turn, its queue constructed at two clock readings. -/
def start (cfg : Config) (packetQueue : AbstractPacketQueue) (loop : EventLoop)
    (linkTimestamp delayTimestamp : Nat) : Ferry (CellularQueue cfg) :=
  ⟨loop, CellularQueue.construct cfg packetQueue linkTimestamp delayTimestamp, false⟩

/-- Whatever a ferry's event loop is told to poll for and in whatever combination its descriptors
are ready, its turns are a run of the emulator's operations: in every turn the wait time is asked
for first, then at most one datagram is read, then the packets due are written at most once. -/
theorem loop_reaches {packetQueue : AbstractPacketQueue} {loop : EventLoop}
    {linkTimestamp delayTimestamp : Nat} (built : linkTimestamp ≤ delayTimestamp)
    {turns : List Turn} {es : List (Entry (Ferry (CellularQueue cfg)) World)}
    {f : Ferry (CellularQueue cfg)} {t : Nat}
    (ran : Run (Turns (cellular law fuel))
      ((entries (cellular law fuel) nameserver,
        start cfg packetQueue loop linkTimestamp delayTimestamp), delayTimestamp)
      turns ((es, f), t)) :
    ∃ calls u, List.Forall₂ Turn.Makes turns calls ∧ u ≤ t ∧
      Reaches cfg law packetQueue calls.flatten f.queue u := by
  obtain ⟨_, calls, u, makes, since, made⟩ := ran.history (I := fun turns x =>
    Contract.Inv (fun a _ => a.direction = .in) (fun _ => True)
      (actions (cellular law fuel) nameserver) x.1.1 x.1.2 ∧
    ∃ calls u, List.Forall₂ Turn.Makes turns calls ∧ u ≤ x.2 ∧
      Run (Calls (cellular law fuel))
        (CellularQueue.construct cfg packetQueue linkTimestamp delayTimestamp, delayTimestamp)
        calls.flatten (x.1.2.queue, u))
    (by
      rintro turns x r y ⟨inv, calls, u, makes, since, made⟩ ⟨between, outcome, returned⟩
      obtain ⟨kept, ops, u', one, since', made'⟩ := turn_calls between since inv returned
      refine ⟨kept, calls ++ [ops], u', ?_, since', ?_⟩
      · exact List.rel_append makes (List.Forall₂.cons one List.Forall₂.nil)
      · rw [List.flatten_append, List.flatten_singleton]
        exact made.append made')
    ⟨start_inv _, [], delayTimestamp, List.Forall₂.nil, Nat.le_refl _, Run.nil⟩
  refine ⟨calls, u, makes, since, linkTimestamp, delayTimestamp, built, ?_⟩
  refine made.mono fun s op s' ⟨between, onward, returned⟩ => ⟨between, onward, fuel, ?_⟩
  rwa [exec_cellular] at returned

/-- The sibling's action writes packets, -/
theorem called_siblingOut {call : Call (Ferry (CellularQueue cfg)) World}
    {f f' : Ferry (CellularQueue cfg)} (called : Called (· = w) (fun _ _ => True) f call f')
    (out : call.action = siblingOut (cellular law fuel)) :
    f.queue.writePackets fuel w.clock = .ok f'.queue := by
  obtain ⟨made, answered, result⟩ := call
  obtain ⟨answer, -, returned⟩ := called
  dsimp only at out answer returned
  rw [out, answer] at returned
  obtain ⟨queue, wrote, same⟩ := bind_eq_ok.mp returned
  cases same
  exact wrote

/-- and any action that is not the sibling's or the TUN device's leaves the queue alone. -/
theorem called_queue {call : Call (Ferry (CellularQueue cfg)) World}
    {f f' : Ferry (CellularQueue cfg)}
    (member : call.action ∈ actions (cellular law fuel) nameserver)
    (called : Called (· = w) (fun _ _ => True) f call f') :
    f'.queue = f.queue ∨ f.queue.readPacket law fuel w.now w.contents = .ok f'.queue ∨
      f.queue.writePackets fuel w.clock = .ok f'.queue := by
  obtain ⟨front, back, cut⟩ := List.append_of_mem member
  have wrote : call.action = siblingOut (cellular law fuel) →
      f.queue.writePackets fuel w.clock = .ok f'.queue := called_siblingOut called
  obtain ⟨made, answered, result⟩ := call
  obtain ⟨answer, -, returned⟩ := called
  dsimp only at cut answer returned wrote
  rcases actions_cut cut with ⟨action, _⟩ | ⟨action, _⟩ | ⟨action, _⟩ | ⟨action, _⟩ | ⟨action, _⟩
  · rw [action] at returned
    cases returned
    exact Or.inl rfl
  · rw [action, answer] at returned
    obtain ⟨queue, read, same⟩ := bind_eq_ok.mp returned
    cases same
    exact Or.inr (Or.inl read)
  · exact Or.inr (Or.inr (wrote action))
  · rw [action] at returned
    cases returned
    exact Or.inl rfl
  · rw [action] at returned
    obtain ⟨handled, _, same⟩ := bind_eq_ok.mp returned
    cases same
    exact Or.inl rfl

/-- A callback of the sibling empties the output queue, and no other fills it. -/
theorem called_outputQueue {call : Call (Ferry (CellularQueue cfg)) World}
    {f f' : Ferry (CellularQueue cfg)}
    (member : call.action ∈ actions (cellular law fuel) nameserver)
    (called : Called (· = w) (fun _ _ => True) f call f')
    (before : f.queue.link.outputQueue = [] ∨ call.action = siblingOut (cellular law fuel)) :
    f'.queue.link.outputQueue = [] := by
  rcases before with empty | out
  · rcases called_queue member called with same | read | wrote
    · rw [same]
      exact empty
    · have ⟨_, _, admits⟩ := CellularQueue.readPacket_admits read
      rw [admits.link]
      exact empty
    · exact CellularQueue.writePackets_outputQueue wrote
  · exact CellularQueue.writePackets_outputQueue (called_siblingOut called out)

/-- What the sibling's callback settles, and no callback unsettles, is settled after calls one of
which is the sibling's. -/
theorem calls_settle {I P : Ferry (CellularQueue cfg) → Prop}
    (keeps : ∀ f (call : Call (Ferry (CellularQueue cfg)) World) f',
      call.action ∈ actions (cellular law fuel) nameserver →
      Called (· = w) (fun _ _ => True) f call f' → I f →
      I f' ∧ (P f ∨ call.action = siblingOut (cellular law fuel) → P f'))
    {calls : List (Call (Ferry (CellularQueue cfg)) World)} {f f' : Ferry (CellularQueue cfg)}
    (ran : Run (Called (· = w) (fun _ _ => True)) f calls f')
    (member : ∀ call ∈ calls, call.action ∈ actions (cellular law fuel) nameserver) (start : I f)
    (before : P f ∨ ∃ call ∈ calls, call.action = siblingOut (cellular law fuel)) :
    I f' ∧ P f' := by
  have inside : I f' := ran.guarded
    (P := fun call => call.action ∈ actions (cellular law fuel) nameserver)
    (fun f call f' allowed kept called => (keeps f call f' allowed called kept).1) member start
  refine ⟨inside, ?_⟩
  clear inside
  induction ran with
  | nil => simpa using before
  | @snoc labels u v call ran move ih =>
      have last := member call (List.mem_append_right _ (List.mem_singleton_self _))
      have others : ∀ c ∈ labels, c.action ∈ actions (cellular law fuel) nameserver :=
        fun c inside => member c (List.mem_append_left _ inside)
      have kept : I u := ran.guarded
        (P := fun call => call.action ∈ actions (cellular law fuel) nameserver)
        (fun f call f' allowed kept called => (keeps f call f' allowed called kept).1) others start
      apply (keeps u call v last move kept).2
      rcases before with settled | ⟨c, made, out⟩
      · exact Or.inl (ih others (Or.inl settled))
      · rcases List.mem_append.mp made with old | new
        · exact Or.inl (ih others (Or.inr ⟨c, old, out⟩))
        · rw [← List.mem_singleton.mp new]
          exact Or.inr out

/-- Only the last two actions exit, and with `EXIT_SUCCESS`. -/
theorem called_exit {call : Call (Ferry (CellularQueue cfg)) World}
    {f f' : Ferry (CellularQueue cfg)} {front back : List (Poller.Action _ World)}
    (cut : actions (cellular law fuel) nameserver = front ++ call.action :: back)
    (called : Called (· = w) (fun _ _ => True) f call f')
    (exits : call.result.result = .exit) : call.result = .exit ∧ back.length < 2 := by
  obtain ⟨made, answered, result⟩ := call
  obtain ⟨-, -, returned⟩ := called
  dsimp only at cut returned exits ⊢
  rcases actions_cut cut with ⟨action, _⟩ | ⟨action, _⟩ | ⟨action, _⟩ | ⟨action, one⟩ |
    ⟨action, zero⟩
  · rw [action] at returned
    cases returned
    cases exits
  · rw [action] at returned
    obtain ⟨_, _, same⟩ := bind_eq_ok.mp returned
    cases same
    cases exits
  · rw [action] at returned
    obtain ⟨_, _, same⟩ := bind_eq_ok.mp returned
    cases same
    cases exits
  · rw [action] at returned
    cases returned
    exact ⟨rfl, by omega⟩
  · rw [action] at returned
    obtain ⟨handled, signalled, same⟩ := bind_eq_ok.mp returned
    cases same
    refine ⟨?_, by omega⟩
    rcases EventLoop.handleSignal_result signalled with goesOn | ended
    · rw [goesOn] at exits
      cases exits
    · exact ended

/-- The entries of the sibling's descriptor, among those of a ferry that keeps its contract. -/
theorem inv_cut {F : FerryQueueType (CellularQueue cfg)}
    {es : List (Entry (Ferry (CellularQueue cfg)) World)} {f : Ferry (CellularQueue cfg)}
    (inv : Contract.Inv (fun a _ => a.direction = .in) (fun _ => True)
      (actions F nameserver) es f) :
    ∃ front back, es = front ++ ⟨siblingOut F, true⟩ :: ⟨siblingFinished F, true⟩ :: back ∧
      front.map Entry.action = handlers nameserver ++ [tunIn F] := by
  have kept : es.map Entry.action =
      (handlers nameserver ++ [tunIn F]) ++ [siblingOut F, siblingFinished F, signalIn] := by
    rw [inv.kept]
    unfold actions
    rw [List.append_assoc]
    rfl
  obtain ⟨front, rest, rfl, early, late⟩ := List.map_eq_append_iff.mp kept
  obtain ⟨out, rest, rfl, outs, late⟩ := List.map_eq_cons_iff.mp late
  obtain ⟨fin, back, rfl, fins, _⟩ := List.map_eq_cons_iff.mp late
  have active : ∀ entry ∈ front ++ out :: fin :: back, entry.action.direction = .out →
      entry.active = true := by
    intro entry member direction
    by_contra off
    have input := inv.past entry member (Bool.eq_false_iff.mpr off)
    rw [input] at direction
    cases direction
  have outOn := active out (by simp) (by rw [outs]; rfl)
  have finOn := active fin (by simp) (by rw [fins]; rfl)
  have outSame : out = ⟨siblingOut F, true⟩ := by rw [← outs, ← outOn]
  have finSame : fin = ⟨siblingFinished F, true⟩ := by rw [← fins, ← finOn]
  exact ⟨front, back, by rw [outSame, finSame], early⟩

/-- The calls of a turn in which no descriptor failed and the sibling's descriptor is due include
what is due of it up to the place where the loop exits. -/
theorem turn_due {es after : List (Entry (Ferry (CellularQueue cfg)) World)}
    {f f' : Ferry (CellularQueue cfg)} {outcome : PollResult} {round : Round World}
    {calls : List (Call (Ferry (CellularQueue cfg)) World)}
    {early : List (Poller.Action (Ferry (CellularQueue cfg)) World × World)}
    {made : Poller.Action (Ferry (CellularQueue cfg)) World × World}
    {late : List (Poller.Action (Ferry (CellularQueue cfg)) World × World)}
    (served : Served (· = w) (fun _ _ => True) (dues round es f) (Breaks round) es f outcome after
      f' calls)
    (sound : ¬ Breaks round) (due : dues round es f = early ++ made :: late)
    (goesOn : ∀ call f f', Called (· = w) (fun _ _ => True) f call f' →
      call.made ∈ early → call.result.result ≠ .exit) :
    ∃ call ∈ calls, call.made = made := by
  have before : ∀ {calls : List (Call (Ferry (CellularQueue cfg)) World)} {f f'},
      Run (Called (· = w) (fun _ _ => True)) f calls f' → calls.map Call.made <+: early →
      ∀ call ∈ calls, call.result.result ≠ .exit := by
    intro calls f f' ran order call member
    have ⟨s, t, called⟩ := ran.step_of_mem member
    exact goesOn call s t called (order.subset (List.mem_map_of_mem member))
  rw [due] at served
  rcases served.stops with all | breaks | ⟨c, inside, exits⟩
  · have member : made ∈ calls.map Call.made := by
      rw [all]
      exact List.mem_append_right _ List.mem_cons_self
    exact List.mem_map.mp member
  · exact absurd breaks sound
  · obtain ⟨rest, same⟩ := served.order
    rcases List.append_eq_append_iff.mp same with ⟨more, short, _⟩ | ⟨more, long, tail⟩
    · exact absurd exits (before served.ran ⟨more, short.symm⟩ c inside)
    · cases more with
      | nil =>
          rw [List.append_nil] at long
          exact absurd exits (before served.ran ⟨[], by rw [long, List.append_nil]⟩ c inside)
      | cons next more =>
          have first := (List.cons.inj tail).1
          have member : made ∈ calls.map Call.made := by
            rw [long, first]
            exact List.mem_append_right _ List.mem_cons_self
          exact List.mem_map.mp member

/-- A descriptor that is polled for output asks for it exactly when its action is interested. -/
theorem out_events {σ : Type} {a : Poller.Action σ World} {s : σ} (out : a.direction = .out) :
    Entry.events ⟨a, true⟩ w s = a.whenInterested w s := by
  unfold Entry.events
  rw [if_neg (by rw [out]; exact fun other => by cases other.1), Bool.true_and]

/-- What is due in a turn in which the sibling's descriptor is writable. -/
theorem dues_cut (F : FerryQueueType (CellularQueue cfg))
    (front back : List (Entry (Ferry (CellularQueue cfg)) World)) (f : Ferry (CellularQueue cfg))
    {round : Round World} {revents : Nat → Revents} (answered : round.revents = some revents)
    (constant : round.answers = fun _ => w)
    (writable : (revents front.length).writable = true ∧
      (revents (front.length + 1)).writable = true) : ∃ late,
    dues round (front ++ ⟨siblingOut F, true⟩ :: ⟨siblingFinished F, true⟩ :: back) f =
      due round.answers revents 0 (asked round.answers f 0 front) ++
        ((if F.pendingOutput w.pendingNow f.queue then [(siblingOut F, w)] else []) ++
          ((if F.finished f.queue then [(siblingFinished F, w)] else []) ++ late)) := by
  refine ⟨due (fun _ => w) revents (front.length + 1 + 1)
    (asked (fun _ => w) f (front.length + 1 + 1) back), ?_⟩
  unfold dues
  rw [answered]
  dsimp only
  rw [asked_append, due_append, asked_length, Nat.zero_add, asked, asked, due, due, constant,
    out_events rfl, out_events rfl]
  have first : (revents front.length).includes (siblingOut F).direction = true := writable.1
  have second : (revents (front.length + 1)).includes (siblingFinished F).direction = true :=
    writable.2
  dsimp only
  rw [first, second, Bool.and_true, Bool.and_true]
  congr 1
  have out : (siblingOut F).whenInterested w f = F.pendingOutput w.pendingNow f.queue := rfl
  have fin : (siblingFinished F).whenInterested w f = F.finished f.queue := rfl
  rw [out, fin]
  split
  · split
    · rfl
    · rfl
  · split
    · rfl
    · rfl

section
variable {r : Turn} {revents : Nat → Revents} {f f' : Ferry (CellularQueue cfg)}
  {es after : List (Entry (Ferry (CellularQueue cfg)) World)} {outcome : PollResult}
  {calls : List (Call (Ferry (CellularQueue cfg)) World)}

/-- When nothing is asked for, nothing is pending, -/
theorem quiet_pending
    (inv : Contract.Inv (fun a _ => a.direction = .in) (fun _ => True)
      (actions (cellular law fuel) nameserver) es f)
    (quiet : Quiet r.round es f) : f.queue.pendingOutput r.world.pendingNow = false := by
  obtain ⟨front, back, shape, _⟩ := inv_cut inv
  have member : (⟨siblingOut (cellular law fuel), true⟩ : Entry _ World) ∈ es := by
    rw [shape]
    simp
  have ⟨i, inside⟩ := asked_of_mem r.round.answers f member 0
  have events := quiet _ inside
  rw [show r.round.answers i = r.world from rfl, out_events rfl] at events
  exact events

/-- and otherwise the calls are of the ferry's actions. -/
theorem served_action
    (inv : Contract.Inv (fun a _ => a.direction = .in) (fun _ => True)
      (actions (cellular law fuel) nameserver) es f)
    (served : Served (· = r.world) (fun _ _ => True) (dues r.round es f) (Breaks r.round) es f
      outcome after f' calls)
    {call : Call (Ferry (CellularQueue cfg)) World} (member : call ∈ calls) :
    call.action ∈ actions (cellular law fuel) nameserver := by
  rw [← inv.kept]
  exact dues_mem (served.order.subset (List.mem_map_of_mem member))

/-- A loop that exits on a call does so with `EXIT_SUCCESS`. -/
theorem served_exit
    (inv : Contract.Inv (fun a _ => a.direction = .in) (fun _ => True)
      (actions (cellular law fuel) nameserver) es f)
    (served : Served (· = r.world) (fun _ _ => True) (dues r.round es f) (Breaks r.round) es f
      outcome after f' calls)
    {call : Call (Ferry (CellularQueue cfg)) World} (member : call ∈ calls)
    (exits : call.result.result = .exit) : outcome = .exit 0 := by
  obtain ⟨s, s', called⟩ := served.ran.step_of_mem member
  obtain ⟨before, behind, split⟩ := List.append_of_mem (served_action inv served member)
  have ⟨same, _⟩ := called_exit split called exits
  rw [served.exits call member exits, same]
  rfl

/-- What is due before the sibling's descriptor does not exit. -/
theorem early_goesOn {front : List (Entry (Ferry (CellularQueue cfg)) World)}
    {answers : Nat → World}
    (early : front.map Entry.action = handlers nameserver ++ [tunIn (cellular law fuel)])
    {call : Call (Ferry (CellularQueue cfg)) World} {g g' : Ferry (CellularQueue cfg)}
    (called : Called (· = w) (fun _ _ => True) g call g')
    (inside : call.made ∈ due answers revents 0 (asked answers f 0 front)) :
    call.result.result ≠ .exit := by
  intro exits
  have action := due_mem inside
  rw [asked_action, early] at action
  obtain ⟨before, behind, split⟩ := List.append_of_mem action
  have place : actions (cellular law fuel) nameserver = before ++ call.action ::
      (behind ++ [siblingOut (cellular law fuel), siblingFinished (cellular law fuel),
        signalIn]) := by
    have whole := congrArg
      (· ++ [siblingOut (cellular law fuel), siblingFinished (cellular law fuel), signalIn]) split
    simp only [List.append_assoc, List.cons_append] at whole
    exact whole
  have ⟨_, last⟩ := called_exit place called exits
  rw [List.length_append] at last
  exact absurd last (by simp)

/-- What is due in a turn in which no descriptor fails and the sibling's is writable. -/
theorem writable_dues
    (inv : Contract.Inv (fun a _ => a.direction = .in) (fun _ => True)
      (actions (cellular law fuel) nameserver) es f)
    (answered : r.revents = some revents)
    (writable : ∀ place, (handlers nameserver (Q := CellularQueue cfg)).length < place →
      place ≤ (handlers nameserver (Q := CellularQueue cfg)).length + 2 →
      (revents place).writable = true) :
    ∃ early late, dues r.round es f = early ++
        ((if f.queue.pendingOutput r.world.pendingNow then
          [(siblingOut (cellular law fuel), r.world)] else []) ++
        ((if f.queue.link.finished then
          [(siblingFinished (cellular law fuel), r.world)] else []) ++ late)) ∧
      ∀ call g g', Called (· = r.world) (fun _ _ => True) g call g' →
        call.made ∈ early → call.result.result ≠ .exit := by
  obtain ⟨front, back, shape, early⟩ := inv_cut inv
  have length : front.length = (handlers nameserver (Q := CellularQueue cfg)).length + 1 := by
    rw [← List.length_map (f := Entry.action), early, List.length_append]
    rfl
  have answered' : r.round.revents = some revents := answered
  have ⟨late, cut⟩ := dues_cut (cellular law fuel) front back f answered' rfl
    ⟨writable _ (by omega) (by omega), writable _ (by omega) (by omega)⟩
  rw [← shape] at cut
  exact ⟨_, late, cut, fun call g g' called inside => early_goesOn early called inside⟩

theorem not_breaks (answered : r.revents = some revents)
    (sound : ∀ place, (revents place).failed = false) : ¬ Breaks r.round := by
  rintro ⟨revents', place, same, failed⟩
  rw [Turn.round, answered] at same
  rw [← Option.some.inj same, sound place] at failed
  cases failed

/-- What the sibling's callback settles, and no callback unsettles, is settled after such a turn
unless nothing was pending. -/
theorem served_settles {I P : Ferry (CellularQueue cfg) → Prop}
    (keeps : ∀ f (call : Call (Ferry (CellularQueue cfg)) World) f',
      call.action ∈ actions (cellular law fuel) nameserver →
      Called (· = r.world) (fun _ _ => True) f call f' → I f →
      I f' ∧ (P f ∨ call.action = siblingOut (cellular law fuel) → P f'))
    (inv : Contract.Inv (fun a _ => a.direction = .in) (fun _ => True)
      (actions (cellular law fuel) nameserver) es f)
    (answered : r.revents = some revents) (sound : ∀ place, (revents place).failed = false)
    (writable : ∀ place, (handlers nameserver (Q := CellularQueue cfg)).length < place →
      place ≤ (handlers nameserver (Q := CellularQueue cfg)).length + 2 →
      (revents place).writable = true)
    (served : Served (· = r.world) (fun _ _ => True) (dues r.round es f) (Breaks r.round) es f
      outcome after f' calls)
    (start : I f) (quiet : f.queue.pendingOutput r.world.pendingNow = false → P f) : P f' := by
  obtain ⟨early, late, cut, goesOn⟩ := writable_dues inv answered writable
  have settled := calls_settle keeps served.ran (fun call => served_action inv served) start
  apply (settled _).2
  by_cases pending : f.queue.pendingOutput r.world.pendingNow = true
  · right
    rw [if_pos pending] at cut
    have ⟨call, member, made⟩ := turn_due served (not_breaks answered sound) cut goesOn
    exact ⟨call, member, congrArg Prod.fst made⟩
  · exact Or.inl (quiet (Bool.eq_false_iff.mpr pending))

/-- A turn in which the trace is finished exits. -/
theorem served_finished
    (inv : Contract.Inv (fun a _ => a.direction = .in) (fun _ => True)
      (actions (cellular law fuel) nameserver) es f)
    (answered : r.revents = some revents) (sound : ∀ place, (revents place).failed = false)
    (writable : ∀ place, (handlers nameserver (Q := CellularQueue cfg)).length < place →
      place ≤ (handlers nameserver (Q := CellularQueue cfg)).length + 2 →
      (revents place).writable = true)
    (served : Served (· = r.world) (fun _ _ => True) (dues r.round es f) (Breaks r.round) es f
      outcome after f' calls)
    (finished : f.queue.link.finished = true) : outcome = .exit 0 := by
  obtain ⟨early, late, cut, _⟩ := writable_dues inv answered writable
  rw [if_pos finished] at cut
  rcases served.stops with all | breaks | ⟨call, member, exits⟩
  · have member : (siblingFinished (cellular law fuel), r.world) ∈ calls.map Call.made := by
      rw [all, cut]
      simp
    obtain ⟨call, inside, made⟩ := List.mem_map.mp member
    obtain ⟨s, s', called⟩ := served.ran.step_of_mem inside
    have action : call.action = siblingFinished (cellular law fuel) := congrArg Prod.fst made
    refine served_exit inv served inside ?_
    have reply := called.2.2
    rw [action] at reply
    rw [← (Prod.mk.inj (Except.ok.inj reply)).1]
    rfl
  · exact absurd breaks (not_breaks answered sound)
  · exact served_exit inv served member exits

/-- The same of a whole turn, which begins by asking the queue for its wait time. -/
theorem turn_settles {I P : Ferry (CellularQueue cfg) → Prop}
    (keeps : ∀ f (call : Call (Ferry (CellularQueue cfg)) World) f',
      call.action ∈ actions (cellular law fuel) nameserver →
      Called (· = r.world) (fun _ _ => True) f call f' → I f →
      I f' ∧ (P f ∨ call.action = siblingOut (cellular law fuel) → P f'))
    (inv : Contract.Inv (fun a _ => a.direction = .in) (fun _ => True)
      (actions (cellular law fuel) nameserver) es f)
    (answered : r.revents = some revents) (sound : ∀ place, (revents place).failed = false)
    (writable : ∀ place, (handlers nameserver (Q := CellularQueue cfg)).length < place →
      place ≤ (handlers nameserver (Q := CellularQueue cfg)).length + 2 →
      (revents place).writable = true)
    {queue : CellularQueue cfg} {timeout : Nat}
    (waited : f.queue.waitTime fuel r.nowDelay r.nowLink = .ok (timeout, queue))
    (returned : turn (cellular law fuel) r es f = .ok (outcome, after, f'))
    (start : I { f with queue := queue })
    (quiet : queue.pendingOutput r.world.pendingNow = false → P { f with queue := queue }) :
    P f' ∧ (queue.link.finished = true → outcome = .exit 0) := by
  have polled : poll r.round es { f with queue := queue } = .ok (outcome, after, f') := by
    unfold turn at returned
    have same : (cellular law fuel).waitTime r.nowDelay r.nowLink f.queue =
        .ok (timeout, queue) := waited
    rw [same] at returned
    exact returned
  have inv' : Contract.Inv (fun a _ => a.direction = .in) (fun _ => True)
      (actions (cellular law fuel) nameserver) es { f with queue := queue } :=
    ⟨trivial, inv.kept, inv.past⟩
  rcases (contract (cellular law fuel) nameserver r.world).poll_cases inv'
      (fun _ => rfl : ∀ i, r.round.answers i = r.world) with nothing | ⟨timedOut, _⟩ | serves
  · have settled := quiet (quiet_pending inv' nothing)
    rw [poll_quiet nothing] at polled
    cases polled
    exact ⟨settled, fun _ => rfl⟩
  · rw [Turn.round, answered] at timedOut
    cases timedOut
  · rw [polled] at serves
    obtain ⟨calls, served⟩ := serves
    exact ⟨served_settles keeps inv' answered sound writable served start quiet,
      served_finished inv' answered sound writable served⟩

end

/-- A loop that has run keeps its contract. -/
theorem turns_inv {turns : List Turn}
    {x y : (List (Entry (Ferry (CellularQueue cfg)) World) × Ferry (CellularQueue cfg)) × Nat}
    (ran : Run (Turns (cellular law fuel)) x turns y)
    (inv : Contract.Inv (fun a _ => a.direction = .in) (fun _ => True)
      (actions (cellular law fuel) nameserver) x.1.1 x.1.2) :
    Contract.Inv (fun a _ => a.direction = .in) (fun _ => True)
      (actions (cellular law fuel) nameserver) y.1.1 y.1.2 := by
  apply ran.invariant (I := fun x => Contract.Inv (fun a _ => a.direction = .in) (fun _ => True)
    (actions (cellular law fuel) nameserver) x.1.1 x.1.2)
  · intro x r y inv ⟨between, outcome, returned⟩
    exact (turn_calls between (Nat.le_refl _) inv returned).1
  · exact inv

/-- A turn in which no descriptor fails and the sibling's is writable, for both of the actions
polled on it, leaves no packet in the output queue, whether the loop goes on, exits because the
trace is finished, or exits on a signal; and if the trace is finished it does exit, with status 0.
So a loop that ends with its trace has written every packet the link completed. -/
theorem loop_drains {packetQueue : AbstractPacketQueue} {loop : EventLoop}
    {linkTimestamp delayTimestamp : Nat} {turns : List Turn}
    {es after : List (Entry (Ferry (CellularQueue cfg)) World)}
    {f f' : Ferry (CellularQueue cfg)} {t : Nat}
    (ran : Run (Turns (cellular law fuel))
      ((entries (cellular law fuel) nameserver,
        start cfg packetQueue loop linkTimestamp delayTimestamp), delayTimestamp)
      turns ((es, f), t))
    {r : Turn} {revents : Nat → Revents} (answered : r.revents = some revents)
    (sound : ∀ place, (revents place).failed = false)
    (writable : ∀ place, (handlers nameserver (Q := CellularQueue cfg)).length < place →
      place ≤ (handlers nameserver (Q := CellularQueue cfg)).length + 2 →
      (revents place).writable = true)
    {outcome : PollResult} {queue : CellularQueue cfg} {timeout : Nat}
    (waited : f.queue.waitTime fuel r.nowDelay r.nowLink = .ok (timeout, queue))
    (returned : turn (cellular law fuel) r es f = .ok (outcome, after, f')) :
    f'.queue.link.outputQueue = [] ∧ (queue.link.finished = true → outcome = .exit 0) := by
  apply turn_settles (I := fun _ => True) (P := fun f => f.queue.link.outputQueue = [])
    (fun f call f' member called _ => ⟨trivial, called_outputQueue member called⟩)
    (turns_inv ran (start_inv _)) answered sound writable waited returned trivial
  intro quiet
  have none : (!queue.link.outputQueue.isEmpty ||
      queue.waitTimeDelayQueue r.world.pendingNow == 0) = false := quiet
  simpa using (Bool.or_eq_false_iff.mp none).1

/-- The two traces of `undelayed`, whose schedule is not repeated. -/
def undelayedOnce : Config := Config.ofTraces everyTenMs undelayedTrain false 5 fiveMs_range

/-- A turn at one time, in which the descriptors up to some place are ready. -/
def turnAt (now ready : Nat) : Turn where
  nowDelay := now
  nowLink := now
  world := ⟨now, fullPacket, now, fun _ => now, ⟨.cont, fun _ =>
    (⟨0, false, .other, 0⟩, ⟨0, false, .other, 0⟩)⟩⟩
  revents := some fun place => ⟨false, place == 0 && ready == 0, decide (place ≤ ready)⟩

theorem turnAt_between {t now ready : Nat} (since : t ≤ now) :
    (turnAt now ready).Between t now :=
  ⟨since, Nat.le_refl _, Nat.le_refl _, Nat.le_refl _, Nat.le_refl _, monotone_const,
    fun _ => Nat.le_refl _⟩

abbrev onceQueue : FerryQueueType (CellularQueue undelayedOnce) :=
  cellular (LightPdo.getPktReleaseTime undelayedOnce) 10

abbrev onceStart : Ferry (CellularQueue undelayedOnce) :=
  start undelayedOnce (.infinite {}) .construct 0 0

/-- A packet is read at 0 and one at 3, they are passed on at 4, and at 20 the trace is finished. -/
def fourTurns : Except Fault (PollResult × List Datagram × List Datagram) := do
  let (_, es, f) ← turn onceQueue (turnAt 0 0) (entries onceQueue false) onceStart
  let (_, es, f) ← turn onceQueue (turnAt 3 0) es f
  let (_, es, f) ← turn onceQueue (turnAt 4 2) es f
  let (_, queue) ← f.queue.waitTime 10 20 20
  let (outcome, _, f') ← turn onceQueue (turnAt 20 2) es f
  return (outcome, queue.link.outputQueue.map QueuedPacket.datagram, f'.queue.fd)

/-- The last turn finds the second packet in the output queue, and the trace finished. -/
theorem fourTurns_ran : ∃ (es after : List (Entry (Ferry (CellularQueue undelayedOnce)) World))
    (f f' : Ferry (CellularQueue undelayedOnce)) (queue : CellularQueue undelayedOnce)
    (timeout : Nat) (outcome : PollResult),
    Run (Turns onceQueue) ((entries onceQueue false, onceStart), 0)
      [turnAt 0 0, turnAt 3 0, turnAt 4 2] ((es, f), 4) ∧
    f.queue.waitTime 10 20 20 = .ok (timeout, queue) ∧
    queue.link.outputQueue.map QueuedPacket.datagram = [⟨1, fullPacket⟩] ∧
    turn onceQueue (turnAt 20 2) es f = .ok (outcome, after, f') ∧
    f'.queue.fd = [⟨0, fullPacket⟩, ⟨1, fullPacket⟩] := by
  have observed : fourTurns.toOption.map id =
      some (.exit 0, [⟨1, fullPacket⟩], [⟨0, fullPacket⟩, ⟨1, fullPacket⟩]) := by decide +kernel
  have ⟨seen, returned, same⟩ := observe_ok observed
  obtain ⟨⟨first, es₁, f₁⟩, turn₁, returned⟩ := bind_eq_ok.mp returned
  obtain ⟨⟨second, es₂, f₂⟩, turn₂, returned⟩ := bind_eq_ok.mp returned
  obtain ⟨⟨third, es₃, f₃⟩, turn₃, returned⟩ := bind_eq_ok.mp returned
  obtain ⟨⟨timeout, queue⟩, waited, returned⟩ := bind_eq_ok.mp returned
  obtain ⟨⟨outcome, after, f'⟩, turn₄, returned⟩ := bind_eq_ok.mp returned
  have shape := (Except.ok.inj returned).trans same
  have ⟨_, shape⟩ := Prod.mk.inj shape
  have ⟨output, fd⟩ := Prod.mk.inj shape
  have run₁ : Run (Turns onceQueue) ((entries onceQueue false, onceStart), 0) [turnAt 0 0]
      ((es₁, f₁), 0) := Run.single ⟨turnAt_between (Nat.zero_le _), first, turn₁⟩
  have run₂ : Run (Turns onceQueue) ((entries onceQueue false, onceStart), 0)
      [turnAt 0 0, turnAt 3 0] ((es₂, f₂), 3) :=
    Run.snoc run₁ ⟨turnAt_between (show 0 ≤ 3 by decide), second, turn₂⟩
  have run₃ : Run (Turns onceQueue) ((entries onceQueue false, onceStart), 0)
      [turnAt 0 0, turnAt 3 0, turnAt 4 2] ((es₃, f₃), 4) :=
    Run.snoc run₂ ⟨turnAt_between (show 3 ≤ 4 by decide), third, turn₃⟩
  exact ⟨es₃, after, f₃, f', queue, timeout, outcome, run₃, waited, output, turn₄, fd⟩

/-- The calls of three turns: two packets are read and then passed on. -/
theorem loop_reaches_once :
    ∃ (es : List (Entry (Ferry (CellularQueue undelayedOnce)) World))
      (f : Ferry (CellularQueue undelayedOnce)) (calls : List (List Op)) (u : Nat),
    Run (Turns onceQueue) ((entries onceQueue false, onceStart), 0)
      [turnAt 0 0, turnAt 3 0, turnAt 4 2] ((es, f), 4) ∧
    List.Forall₂ Turn.Makes [turnAt 0 0, turnAt 3 0, turnAt 4 2] calls ∧ u ≤ 4 ∧
      Reaches undelayedOnce (LightPdo.getPktReleaseTime undelayedOnce) (.infinite {})
        calls.flatten f.queue u := by
  obtain ⟨es, _, f, _, _, _, _, ran, _⟩ := fourTurns_ran
  obtain ⟨calls, u, reached⟩ := loop_reaches (Nat.le_refl 0) ran
  exact ⟨es, f, calls, u, ran, reached⟩

/-- The last of four turns writes the packet it finds in the output queue. -/
theorem loop_drains_once :
    ∃ (es after : List (Entry (Ferry (CellularQueue undelayedOnce)) World))
      (f f' : Ferry (CellularQueue undelayedOnce)) (queue : CellularQueue undelayedOnce)
      (timeout : Nat) (outcome : PollResult),
    Run (Turns onceQueue) ((entries onceQueue false, onceStart), 0)
      [turnAt 0 0, turnAt 3 0, turnAt 4 2] ((es, f), 4) ∧
    f.queue.waitTime 10 20 20 = .ok (timeout, queue) ∧
    turn onceQueue (turnAt 20 2) es f = .ok (outcome, after, f') ∧
    queue.link.outputQueue.map QueuedPacket.datagram = [⟨1, fullPacket⟩] ∧
    f'.queue.link.outputQueue = [] ∧ (queue.link.finished = true → outcome = .exit 0) := by
  obtain ⟨es, after, f, f', queue, timeout, outcome, ran, waited, output, returned, _⟩ :=
    fourTurns_ran
  refine ⟨es, after, f, f', queue, timeout, outcome, ran, waited, returned, output,
    loop_drains (r := turnAt 20 2) ran rfl (fun _ => rfl) ?_ waited returned⟩
  intro place _ within
  exact decide_eq_true within

end

end Ferry

end CellReplay
