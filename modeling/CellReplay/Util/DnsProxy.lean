import CellReplay.Util.ByteStreamQueue
import CellReplay.Util.Poller

set_option autoImplicit false

namespace CellReplay

open FueledLoop Transition Poller

namespace DnsProxy

/-- How a descriptor answers a read up to a limit, and how many bytes it takes of a write. -/
structure Answer where
  read : Nat → Bytes
  write : Bytes → Nat

/-- A read returns no more than its limit, a write takes at least one byte and no more than it is
given. -/
structure Answer.Obeys (a : Answer) : Prop where
  limited : ∀ limit, (a.read limit).length ≤ limit
  takes : ∀ given, given ≠ [] → 1 ≤ a.write given ∧ a.write given ≤ given.length

/-- The bytes in one direction: the queue they pass, with those read and those written so far, and
whether the descriptor they are read from has had its end of file. -/
structure Stream where
  transfer : ByteStreamQueue.Transfer
  eof : Bool

namespace Stream

def queue (s : Stream) : ByteStreamQueue := s.transfer.queue

/-- The bytes read so far. -/
def received (s : Stream) : Bytes := s.transfer.pushed

/-- The bytes written so far. -/
def sent (s : Stream) : Bytes := s.transfer.popped

/-- The callback `eof( queue.push( fd ) ) ? Cancel : Continue`. -/
def push (answer : Answer) (s : Stream) : Except Fault (ActionResult × Stream) := do
  let chunk := answer.read s.queue.contiguousSpaceToPush
  let (result, queue) ← s.queue.push answer.read
  return (if result = .endOfFile then .cancel else .continue,
    ⟨⟨queue, s.received ++ chunk, s.sent⟩, s.eof || chunk.isEmpty⟩)

/-- The callback `queue.pop( fd ); return Continue`. -/
def pop (answer : Answer) (s : Stream) : Except Fault (ActionResult × Stream) := do
  let queue ← s.queue.pop answer.write
  return (.continue,
    ⟨⟨queue, s.received, s.sent ++ s.queue.offered.take (answer.write s.queue.offered)⟩, s.eof⟩)

/-- What was read is what was written and what the queue holds, in order. -/
structure Sound (s : Stream) : Prop where
  valid : s.queue.Valid
  total : s.sent ++ s.queue.held = s.received

/-- The bytes moved so far, in and out, and the end of file. -/
def moved (s : Stream) : Nat := s.received.length + s.sent.length + s.eof.toNat

end Stream

/-- The two descriptors of `handle_tcp` and the two streams between them; the end of file of the
server's descriptor is the one of the stream read from it. -/
structure Relay where
  fromClient : Stream
  fromServer : Stream

def serverIn : Poller.Action Relay Answer where
  direction := .in
  callback answer r := do
    let (result, stream) ← r.fromServer.push answer
    return (result, { r with fromServer := stream })
  whenInterested _ r := r.fromServer.queue.spaceAvailable
  eof r := r.fromServer.eof

def clientIn : Poller.Action Relay Answer where
  direction := .in
  callback answer r := do
    let (result, stream) ← r.fromClient.push answer
    return (result, { r with fromClient := stream })
  whenInterested _ r := r.fromClient.queue.spaceAvailable
  eof r := r.fromClient.eof

def serverOut : Poller.Action Relay Answer where
  direction := .out
  callback answer r := do
    let (result, stream) ← r.fromClient.pop answer
    return (result, { r with fromClient := stream })
  whenInterested _ r := r.fromClient.queue.nonEmpty
  eof r := r.fromServer.eof

def clientOut : Poller.Action Relay Answer where
  direction := .out
  callback answer r := do
    let (result, stream) ← r.fromServer.pop answer
    return (result, { r with fromServer := stream })
  whenInterested _ r := r.fromServer.queue.nonEmpty
  eof r := r.fromClient.eof

/-- The actions in the order they are added. -/
def actions : List (Poller.Action Relay Answer) := [serverIn, clientIn, serverOut, clientOut]

/-- The poller and the streams of `handle_tcp` before its loop, with queues of any size; the source
gives both `BUFFER_SIZE`, a mebibyte. -/
def handleTcp (size : Nat) : Except Fault (List (Entry Relay Answer) × Relay) := do
  let fromClient ← ByteStreamQueue.construct size
  let fromServer ← ByteStreamQueue.construct size
  return (addAction clientOut (addAction serverOut (addAction clientIn (addAction serverIn []))),
    ⟨⟨⟨fromClient, [], []⟩, false⟩, ⟨⟨fromServer, [], []⟩, false⟩⟩)

namespace Stream

section
variable {s : Stream} {answer : Answer}

theorem Sound.sent_prefix (sound : s.Sound) : s.sent <+: s.received :=
  ⟨s.queue.held, sound.total⟩

/-- A queue that is not empty has something held. -/
theorem Sound.nonEmpty_iff (sound : s.Sound) :
    s.queue.nonEmpty = true ↔ s.queue.held ≠ [] := by
  unfold ByteStreamQueue.nonEmpty
  rw [sound.valid.availableToPop_eq, decide_eq_true_iff]
  exact List.length_pos_iff

/-- A queue has no space only when it holds something. -/
theorem Sound.space_of_held_nil (sound : s.Sound) (nothing : s.queue.held = []) :
    s.queue.spaceAvailable = true := by
  have sized := sound.valid.sized
  unfold ByteStreamQueue.spaceAvailable
  rw [sound.valid.availableToPush_eq, nothing]
  exact decide_eq_true (by simp only [List.length_nil]; omega)

/-- What reading does to a stream with space available. -/
structure Pushed (s t : Stream) (result : ActionResult) : Prop where
  sound : t.Sound
  some' : s.queue.nonEmpty = true → t.queue.nonEmpty = true
  ended : s.eof = true → t.eof = true
  cancelled : result.result = .cancel → t.eof = true
  moves : s.eof = false → s.moved < t.moved

theorem Sound.push (sound : s.Sound) (space : s.queue.spaceAvailable = true)
    (obeys : answer.Obeys) : ∃ result t, s.push answer = .ok (result, t) ∧ Pushed s t result := by
  have ⟨result, queue, run, keeps⟩ := sound.valid.push_spec space obeys.limited
  let chunk := answer.read s.queue.contiguousSpaceToPush
  let t : Stream := ⟨⟨queue, s.received ++ chunk, s.sent⟩, s.eof || chunk.isEmpty⟩
  have whole : t.Sound := by
    refine ⟨keeps.valid, ?_⟩
    show s.sent ++ queue.held = s.received ++ chunk
    rw [keeps.held, ← List.append_assoc, sound.total]
  refine ⟨if result = .endOfFile then .cancel else .continue, t, ?_, whole, ?_, ?_, ?_, ?_⟩
  · unfold Stream.push
    rw [run]
    rfl
  · intro before
    rw [sound.nonEmpty_iff] at before
    rw [whole.nonEmpty_iff]
    show queue.held ≠ []
    rw [keeps.held]
    exact List.append_ne_nil_of_left_ne_nil before _
  · intro before
    show (s.eof || chunk.isEmpty) = true
    rw [before, Bool.true_or]
  · intro cancel
    have ended : result = .endOfFile := by
      by_contra other
      rw [if_neg other] at cancel
      cases cancel
    rw [ended] at run
    show (s.eof || chunk.isEmpty) = true
    rw [ByteStreamQueue.push_endOfFile run, Bool.or_true]
  · intro opened
    show s.received.length + s.sent.length + s.eof.toNat <
      (s.received ++ chunk).length + s.sent.length + (s.eof || chunk.isEmpty).toNat
    rw [opened, Bool.false_or, List.length_append]
    cases chunk with
    | nil => exact Nat.lt_succ_self _
    | cons head rest =>
        rw [List.isEmpty_cons, List.length_cons]
        omega

/-- What writing does to a stream that is not empty. -/
structure Popped (s t : Stream) : Prop where
  sound : t.Sound
  ended : t.eof = s.eof
  moves : s.moved < t.moved

theorem Sound.pop (sound : s.Sound) (some' : s.queue.nonEmpty = true) (obeys : answer.Obeys) :
    ∃ t, s.pop answer = .ok (.continue, t) ∧ Popped s t := by
  have ⟨queue, run, inside, keeps, front⟩ := sound.valid.pop_spec some' obeys.takes
  let taken := s.queue.offered.take (answer.write s.queue.offered)
  have written : 1 ≤ taken.length := by
    have available := of_decide_eq_true some'
    have offered := sound.valid.offered_length
    have contiguous := sound.valid.contiguousSpaceToPop_eq
    have cursor := sound.valid.popInside
    rw [sound.valid.availableToPop_eq] at available
    have positive := (obeys.takes s.queue.offered (List.length_pos_iff.mp (by omega))).1
    rw [List.length_take]
    omega
  let t : Stream := ⟨⟨queue, s.received, s.sent ++ taken⟩, s.eof⟩
  refine ⟨t, ?_, ⟨keeps.valid, ?_⟩, rfl, ?_⟩
  · unfold Stream.pop
    rw [run]
    rfl
  · show s.sent ++ taken ++ queue.held = s.received
    rw [keeps.held, List.append_assoc, ← front, sound.total]
  · show s.received.length + s.sent.length + s.eof.toNat <
      s.received.length + (s.sent ++ taken).length + s.eof.toNat
    rw [List.length_append]
    omega

end

end Stream

namespace Relay

structure Sound (r : Relay) : Prop where
  fromClient : r.fromClient.Sound
  fromServer : r.fromServer.Sound

/-- The bytes moved so far in both directions, and the ends of file. -/
def moved (r : Relay) : Nat := r.fromClient.moved + r.fromServer.moved

end Relay

/-- What the poller has checked of an action when it calls it. -/
structure Ready (a : Poller.Action Relay Answer) (r : Relay) : Prop where
  sound : r.Sound
  interested : ∀ answer, a.whenInterested answer r = true
  opened : a.direction = .in → a.eof r = false

/-- The descriptor of an action that reads has had its end of file. -/
def Over (a : Poller.Action Relay Answer) (r : Relay) : Prop := a.direction = .in ∧ a.eof r = true

section
variable {r t : Relay} {answer : Answer} {result : ActionResult}

theorem serverIn_pushed (ready : Ready serverIn r) (obeys : answer.Obeys) :
    ∃ result stream, serverIn.callback answer r = .ok (result, { r with fromServer := stream }) ∧
      r.fromServer.Pushed stream result := by
  have ⟨result, stream, run, pushed⟩ :=
    ready.sound.fromServer.push (ready.interested answer) obeys
  refine ⟨result, stream, ?_, pushed⟩
  unfold serverIn
  dsimp only
  rw [run]
  rfl

theorem clientIn_pushed (ready : Ready clientIn r) (obeys : answer.Obeys) :
    ∃ result stream, clientIn.callback answer r = .ok (result, { r with fromClient := stream }) ∧
      r.fromClient.Pushed stream result := by
  have ⟨result, stream, run, pushed⟩ :=
    ready.sound.fromClient.push (ready.interested answer) obeys
  refine ⟨result, stream, ?_, pushed⟩
  unfold clientIn
  dsimp only
  rw [run]
  rfl

theorem serverOut_popped (ready : Ready serverOut r) (obeys : answer.Obeys) :
    ∃ stream, serverOut.callback answer r = .ok (.continue, { r with fromClient := stream }) ∧
      r.fromClient.Popped stream := by
  have ⟨stream, run, popped⟩ := ready.sound.fromClient.pop (ready.interested answer) obeys
  refine ⟨stream, ?_, popped⟩
  unfold serverOut
  dsimp only
  rw [run]
  rfl

theorem clientOut_popped (ready : Ready clientOut r) (obeys : answer.Obeys) :
    ∃ stream, clientOut.callback answer r = .ok (.continue, { r with fromServer := stream }) ∧
      r.fromServer.Popped stream := by
  have ⟨stream, run, popped⟩ := ready.sound.fromServer.pop (ready.interested answer) obeys
  refine ⟨stream, ?_, popped⟩
  unfold clientOut
  dsimp only
  rw [run]
  rfl

/-- What every callback of the relay does. -/
structure Moves (a : Poller.Action Relay Answer) (r t : Relay) (result : ActionResult) : Prop where
  sound : t.Sound
  further : r.moved < t.moved
  cancelled : result.result = .cancel → Over a t
  client : r.fromClient.eof = true → t.fromClient.eof = true
  server : r.fromServer.eof = true → t.fromServer.eof = true

/-- A callback that is ready returns: no assertion of either queue fails. -/
theorem ready_moves {a : Poller.Action Relay Answer} (member : a ∈ actions) (ready : Ready a r)
    (obeys : answer.Obeys) : ∃ result t, a.callback answer r = .ok (result, t) ∧
      Moves a r t result := by
  rcases List.mem_cons.mp member with rfl | member
  · have ⟨result, stream, run, pushed⟩ := serverIn_pushed ready obeys
    have further := pushed.moves (ready.opened rfl)
    exact ⟨result, _, run, ⟨ready.sound.fromClient, pushed.sound⟩,
      Nat.add_lt_add_left further _, fun cancel => ⟨rfl, pushed.cancelled cancel⟩,
      fun ended => ended, pushed.ended⟩
  rcases List.mem_cons.mp member with rfl | member
  · have ⟨result, stream, run, pushed⟩ := clientIn_pushed ready obeys
    have further := pushed.moves (ready.opened rfl)
    exact ⟨result, _, run, ⟨pushed.sound, ready.sound.fromServer⟩,
      Nat.add_lt_add_right further _, fun cancel => ⟨rfl, pushed.cancelled cancel⟩,
      pushed.ended, fun ended => ended⟩
  rcases List.mem_cons.mp member with rfl | member
  · have ⟨stream, run, popped⟩ := serverOut_popped ready obeys
    exact ⟨_, _, run, ⟨popped.sound, ready.sound.fromServer⟩,
      Nat.add_lt_add_right popped.moves _, fun cancel => (by cases cancel),
      fun ended => popped.ended.trans ended, fun ended => ended⟩
  · rcases List.mem_singleton.mp member with rfl
    have ⟨stream, run, popped⟩ := clientOut_popped ready obeys
    exact ⟨_, _, run, ⟨ready.sound.fromClient, popped.sound⟩,
      Nat.add_lt_add_left popped.moves _, fun cancel => (by cases cancel),
      fun ended => ended, fun ended => popped.ended.trans ended⟩

theorem Over.stays {a b : Poller.Action Relay Answer} (member : b ∈ actions)
    (moves : Moves a r t result)
    (past : Over b r) : Over b t := by
  obtain ⟨input, ended⟩ := past
  refine ⟨input, ?_⟩
  rcases List.mem_cons.mp member with rfl | member
  · exact moves.server ended
  rcases List.mem_cons.mp member with rfl | member
  · exact moves.client ended
  rcases List.mem_cons.mp member with rfl | member
  · cases input
  · rcases List.mem_singleton.mp member with rfl
    cases input

/-- The reading callbacks come first: each leaves what the later ones checked as it was, or fuller;
the two writing ones are of different streams. -/
theorem actions_apart : actions.Pairwise (Spares Answer.Obeys Ready) := by
  have server : ∀ b ∈ [clientIn, serverOut, clientOut], Spares Answer.Obeys Ready serverIn b := by
    intro b member answer r result t obeys ready returned next
    have ⟨_, stream, run, pushed⟩ := serverIn_pushed ready obeys
    rw [(Prod.mk.inj (Except.ok.inj (returned.symm.trans run))).2]
    have sound : Relay.Sound { r with fromServer := stream } :=
      ⟨ready.sound.fromClient, pushed.sound⟩
    simp only [List.mem_cons, List.not_mem_nil, or_false] at member
    rcases member with rfl | rfl | rfl
    · exact ⟨sound, next.interested, next.opened⟩
    · exact ⟨sound, next.interested, fun input => by cases input⟩
    · exact ⟨sound, fun answer => pushed.some' (next.interested answer),
        fun input => by cases input⟩
  have client : ∀ b ∈ [serverOut, clientOut], Spares Answer.Obeys Ready clientIn b := by
    intro b member answer r result t obeys ready returned next
    have ⟨_, stream, run, pushed⟩ := clientIn_pushed ready obeys
    rw [(Prod.mk.inj (Except.ok.inj (returned.symm.trans run))).2]
    have sound : Relay.Sound { r with fromClient := stream } :=
      ⟨pushed.sound, ready.sound.fromServer⟩
    simp only [List.mem_cons, List.not_mem_nil, or_false] at member
    rcases member with rfl | rfl
    · exact ⟨sound, fun answer => pushed.some' (next.interested answer),
        fun input => by cases input⟩
    · exact ⟨sound, next.interested, fun input => by cases input⟩
  have out : ∀ b ∈ [clientOut], Spares Answer.Obeys Ready serverOut b := by
    intro b member answer r result t obeys ready returned next
    have ⟨stream, run, popped⟩ := serverOut_popped ready obeys
    rw [(Prod.mk.inj (Except.ok.inj (returned.symm.trans run))).2, List.mem_singleton.mp member]
    rw [List.mem_singleton.mp member] at next
    exact ⟨⟨popped.sound, ready.sound.fromServer⟩, next.interested, fun input => by cases input⟩
  exact List.Pairwise.cons server (List.Pairwise.cons client
    (List.Pairwise.cons out (List.Pairwise.cons (fun _ none => by cases none) List.Pairwise.nil)))

/-- The relay's actions work together. -/
theorem contract : Contract Answer.Obeys Ready Over Relay.Sound actions where
  interested a member answer r _ sound interested opened := by
    refine ⟨sound, fun other => ?_, opened⟩
    rcases List.mem_cons.mp member with rfl | member
    · exact interested
    rcases List.mem_cons.mp member with rfl | member
    · exact interested
    rcases List.mem_cons.mp member with rfl | member
    · exact interested
    · rcases List.mem_singleton.mp member with rfl
      exact interested
  apart := actions_apart
  keeps a member answer r result t obeys ready returned := by
    have ⟨result', t', run, moves⟩ := ready_moves member ready obeys
    have ⟨same, same'⟩ := Prod.mk.inj (Except.ok.inj (returned.symm.trans run))
    rw [same, same']
    exact ⟨moves.sound, moves.cancelled, fun b inside past => past.stays inside moves⟩

end

/-- The relay before its first round. -/
theorem handleTcp_inv {size : Nat} {entries : List (Entry Relay Answer)} {r : Relay}
    (started : handleTcp size = .ok (entries, r)) :
    Contract.Inv Over Relay.Sound actions entries r ∧ r.moved = 0 := by
  unfold handleTcp at started
  obtain ⟨fromClient, made, started⟩ := bind_eq_ok.mp started
  obtain ⟨fromServer, made', started⟩ := bind_eq_ok.mp started
  have ⟨valid, _, nothing⟩ := ByteStreamQueue.construct_valid made
  have ⟨valid', _, nothing'⟩ := ByteStreamQueue.construct_valid made'
  cases started
  refine ⟨⟨⟨⟨valid, nothing⟩, ⟨valid', nothing'⟩⟩, rfl, ?_⟩, rfl⟩
  intro entry member off
  simp only [addAction, List.nil_append, List.cons_append, List.mem_cons, List.not_mem_nil,
    or_false] at member
  rcases member with rfl | rfl | rfl | rfl
  all_goals cases off

section
variable {entries : List (Entry Relay Answer)} {r : Relay} {round : Round Answer}

/-- A stream with nothing to write whose queue is not being filled has had its end of file, and
has written everything. -/
theorem quiet_stream {s : Stream} (sound : s.Sound) (drained : s.queue.nonEmpty = false)
    (unread : s.eof = true ∨ s.queue.spaceAvailable = false) :
    s.eof = true ∧ s.sent = s.received := by
  have nothing : s.queue.held = [] := by
    by_contra some'
    have filled := sound.nonEmpty_iff.mpr some'
    rw [drained] at filled
    cases filled
  refine ⟨?_, ?_⟩
  · rcases unread with ended | full
    · exact ended
    · rw [sound.space_of_held_nil nothing] at full
      cases full
  · rw [← sound.total, nothing, List.append_nil]

/-- When nothing is asked for any more, both directions are done. -/
theorem quiet_done (inv : Contract.Inv Over Relay.Sound actions entries r)
    (quiet : Quiet round entries r) :
    (r.fromClient.eof = true ∧ r.fromClient.sent = r.fromClient.received) ∧
      r.fromServer.eof = true ∧ r.fromServer.sent = r.fromServer.received := by
  have server : r.fromServer.eof = true ∨ r.fromServer.queue.spaceAvailable = false := by
    rcases Contract.quiet inv quiet (a := serverIn) (by simp [actions]) with past | ended | full
    · exact Or.inl past.2
    · exact Or.inl ended.2
    · exact Or.inr full.choose_spec
  have client : r.fromClient.eof = true ∨ r.fromClient.queue.spaceAvailable = false := by
    rcases Contract.quiet inv quiet (a := clientIn) (by simp [actions]) with past | ended | full
    · exact Or.inl past.2
    · exact Or.inl ended.2
    · exact Or.inr full.choose_spec
  have toServer : r.fromClient.queue.nonEmpty = false := by
    rcases Contract.quiet inv quiet (a := serverOut) (by simp [actions]) with past | ended | empty
    · cases past.1
    · cases ended.1
    · exact empty.choose_spec
  have toClient : r.fromServer.queue.nonEmpty = false := by
    rcases Contract.quiet inv quiet (a := clientOut) (by simp [actions]) with past | ended | empty
    · cases past.1
    · cases ended.1
    · exact empty.choose_spec
  exact ⟨quiet_stream inv.inside.fromClient toServer client,
    quiet_stream inv.inside.fromServer toClient server⟩

/-- A round of the relay returns, whatever the world answers, and leaves what its loop keeps; one
that goes through moves a byte, or comes to an end of file, for every event due. -/
theorem poll_moves (inv : Contract.Inv Over Relay.Sound actions entries r)
    (obeys : ∀ i, (round.answers i).Obeys) : ∃ outcome after t,
      poll round entries r = .ok (outcome, after, t) ∧
      Contract.Inv Over Relay.Sound actions after t ∧ r.moved ≤ t.moved ∧
      (outcome = .success → r.moved + (dues round entries r).length ≤ t.moved) := by
  rcases contract.poll inv obeys with
    ⟨outcome, after, t, calls, returned, kept, ran, member, all⟩ |
    ⟨_, u, action, answer, _, _, member, obeys, ready, fails⟩
  · have moves : ∀ calls t, (∀ call ∈ calls, call.action ∈ actions) →
        Run (Called Answer.Obeys Ready) r calls t → r.moved + calls.length ≤ t.moved := by
      intro calls t member ran
      induction ran with
      | nil => exact Nat.le_refl _
      | @snoc labels u t call _ move ih =>
          have before := ih fun c inside => member c (List.mem_append_left _ inside)
          have known := member call (List.mem_append_right _ (List.mem_singleton_self _))
          have ⟨_, _, run, moves⟩ := ready_moves known move.2.1 move.1
          have same := (Prod.mk.inj (Except.ok.inj (move.2.2.symm.trans run))).2
          have further := moves.further
          rw [← same] at further
          rw [List.length_append, List.length_singleton]
          omega
    have total := moves calls t member ran
    refine ⟨outcome, after, t, returned, kept, by omega, fun success => ?_⟩
    rw [← all success, List.length_map]
    exact total
  · have ⟨_, _, run, _⟩ := ready_moves member ready obeys
    rw [run] at fails
    cases fails

end

/-- In every run of the relay of a TCP connection, whatever is read and however much of it each
write takes, what was written to each side is the beginning of what was read from the other; no
round fails an assertion; and the relay ends for want of anything to poll only when both sides
have had their end of file and everything read has been written. -/
theorem relay_conveys {size : Nat} {entries₀ entries : List (Entry Relay Answer)} {r₀ r : Relay}
    (started : handleTcp size = .ok (entries₀, r₀)) {rounds : List (Round Answer)}
    (ran : Run (Polls Answer.Obeys) (entries₀, r₀) rounds (entries, r)) :
    (r.fromClient.sent <+: r.fromClient.received ∧ r.fromServer.sent <+: r.fromServer.received) ∧
      ∀ round : Round Answer, (∀ i, (round.answers i).Obeys) →
        (∃ outcome after t, poll round entries r = .ok (outcome, after, t) ∧
          t.fromClient.sent <+: t.fromClient.received ∧
          t.fromServer.sent <+: t.fromServer.received) ∧
        (Quiet round entries r →
          (r.fromClient.eof = true ∧ r.fromClient.sent = r.fromClient.received) ∧
            r.fromServer.eof = true ∧ r.fromServer.sent = r.fromServer.received) := by
  have inv := contract.run ran (handleTcp_inv started).1
  refine ⟨⟨inv.inside.fromClient.sent_prefix, inv.inside.fromServer.sent_prefix⟩, ?_⟩
  intro round obeys
  have ⟨outcome, after, t, returned, kept, _⟩ := poll_moves inv obeys
  exact ⟨⟨outcome, after, t, returned, kept.inside.fromClient.sent_prefix,
    kept.inside.fromServer.sent_prefix⟩, quiet_done inv⟩

/-- A round of the relay's loop that goes on, with a system call that reports something. -/
def Round.Step (x : List (Entry Relay Answer) × Relay) (round : Round Answer)
    (y : List (Entry Relay Answer) × Relay) : Prop :=
  Polls Answer.Obeys x round y ∧ Reports round x.1 x.2

/-- The relay never spins: it goes around no more often, time-outs apart, than there are bytes
read and bytes written, and two ends of file. -/
theorem relay_never_spins {size : Nat} {entries₀ entries : List (Entry Relay Answer)}
    {r₀ r : Relay} (started : handleTcp size = .ok (entries₀, r₀)) {rounds : List (Round Answer)}
    (ran : Run Round.Step (entries₀, r₀) rounds (entries, r)) :
    rounds.countP (fun round => round.revents.isSome) ≤
      r.fromClient.received.length + r.fromClient.sent.length +
        (r.fromServer.received.length + r.fromServer.sent.length) + 2 := by
  have ⟨start, zero⟩ := handleTcp_inv started
  have ⟨_, counted⟩ : Contract.Inv Over Relay.Sound actions entries r ∧
      rounds.countP (fun round => round.revents.isSome) ≤ r.moved := by
    apply ran.history (I := fun rounds x => Contract.Inv Over Relay.Sound actions x.1 x.2 ∧
      rounds.countP (fun round => round.revents.isSome) ≤ x.2.moved)
    · intro rounds x round y ⟨inv, counted⟩ ⟨⟨obeys, outcome, goesOn, returned⟩, reports⟩
      have ⟨outcome', after, t, returned', kept, further, all⟩ := poll_moves inv obeys
      have ⟨same, same'⟩ := Prod.mk.inj (Except.ok.inj (returned.symm.trans returned'))
      rw [same'] at returned ⊢
      refine ⟨kept, ?_⟩
      rw [List.countP_append, List.countP_singleton]
      dsimp only
      cases outcome with
      | exit status => exact absurd rfl (goesOn status)
      | success =>
          have due := List.length_pos_iff.mpr (dues_of_success reports returned)
          have moves := all same.symm
          split
          · omega
          · omega
      | timeout =>
          have none : round.revents = none := poll_timeout returned
          rw [none]
          simpa using Nat.le_trans counted further
    · exact ⟨start, Nat.zero_le _⟩
  have flag : ∀ b : Bool, b.toNat ≤ 1 := fun b => b.toNat_le
  have client := flag r.fromClient.eof
  have server := flag r.fromServer.eof
  unfold Relay.moved Stream.moved at counted
  omega

/-- A side that has two bytes to read and takes all it is given, -/
def replying : Answer := ⟨fun limit => [1, 2].take limit, List.length⟩

/-- and one at its end of file. -/
def ending : Answer := ⟨fun _ => [], List.length⟩

theorem replying_obeys : replying.Obeys :=
  ⟨fun _ => List.length_take_le _ _, fun _ some' => ⟨List.length_pos_iff.mpr some', Nat.le_refl _⟩⟩

theorem ending_obeys : ending.Obeys :=
  ⟨fun _ => Nat.zero_le _, fun _ some' => ⟨List.length_pos_iff.mpr some', Nat.le_refl _⟩⟩

/-- The server replies; then both sides are at their end, and can be written to. -/
def replyRound : Round Answer := ⟨fun _ => replying, some fun place => ⟨false, place == 0, false⟩⟩

def endRound : Round Answer := ⟨fun _ => ending, some fun _ => ⟨false, true, true⟩⟩

/-- A queue of four bytes with nothing in it. -/
def emptyStream : Stream := ⟨⟨⟨[0, 0, 0, 0], 0, 0⟩, [], []⟩, false⟩

/-- The relay after those two rounds: the reply was held, then written. -/
def afterReply : Relay := ⟨emptyStream, ⟨⟨⟨[1, 2, 0, 0], 2, 0⟩, [1, 2], []⟩, false⟩⟩

def afterEnd : Relay :=
  ⟨{ emptyStream with eof := true }, ⟨⟨⟨[1, 2, 0, 0], 2, 2⟩, [1, 2], [1, 2]⟩, true⟩⟩

def entriesOpened : List (Entry Relay Answer) := actions.map (⟨·, true⟩)

def entriesEnded : List (Entry Relay Answer) :=
  [⟨serverIn, false⟩, ⟨clientIn, false⟩, ⟨serverOut, true⟩, ⟨clientOut, true⟩]

theorem replyRound_step : Round.Step (entriesOpened, ⟨emptyStream, emptyStream⟩) replyRound
    (entriesOpened, afterReply) := by
  refine ⟨⟨fun _ => replying_obeys, .success, fun _ other => (by cases other), rfl⟩, ?_⟩
  intro revents same
  cases same
  exact Or.inr (List.cons_ne_nil (serverIn, replying) [])

theorem endRound_step :
    Round.Step (entriesOpened, afterReply) endRound (entriesEnded, afterEnd) := by
  refine ⟨⟨fun _ => ending_obeys, .success, fun _ other => (by cases other), rfl⟩, ?_⟩
  intro revents same
  cases same
  exact Or.inr (List.cons_ne_nil (serverIn, ending) [(clientIn, ending), (clientOut, ending)])

theorem quiet_afterEnd : Quiet endRound entriesEnded afterEnd := by
  intro p member
  have none : (asked endRound.answers afterEnd 0 entriesEnded).all (fun p => !p.2) = true := rfl
  simpa using List.all_eq_true.mp none p member

theorem relay_conveys_reply : handleTcp 4 = .ok (entriesOpened, ⟨emptyStream, emptyStream⟩) ∧
    (afterEnd.fromClient.eof = true ∧ afterEnd.fromClient.sent = afterEnd.fromClient.received) ∧
      afterEnd.fromServer.eof = true ∧ afterEnd.fromServer.sent = afterEnd.fromServer.received := by
  have started : handleTcp 4 = .ok (entriesOpened, ⟨emptyStream, emptyStream⟩) := rfl
  have ran : Run (Polls Answer.Obeys) (entriesOpened, ⟨emptyStream, emptyStream⟩)
      [replyRound, endRound] (entriesEnded, afterEnd) :=
    Run.snoc (Run.single replyRound_step.1) endRound_step.1
  exact ⟨started, ((relay_conveys started ran).2 endRound fun _ => ending_obeys).2 quiet_afterEnd⟩

theorem relay_never_spins_reply :
    [replyRound, endRound].countP (fun round => round.revents.isSome) = 2 ∧
    [replyRound, endRound].countP (fun round => round.revents.isSome) ≤
      afterEnd.fromClient.received.length + afterEnd.fromClient.sent.length +
        (afterEnd.fromServer.received.length + afterEnd.fromServer.sent.length) + 2 :=
  have started : handleTcp 4 = .ok (entriesOpened, ⟨emptyStream, emptyStream⟩) := rfl
  ⟨rfl, relay_never_spins started (Run.snoc (Run.single replyRound_step) endRound_step)⟩

end DnsProxy

end CellReplay
