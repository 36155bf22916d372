import CellReplay.Lib.Transition
import CellReplay.Record.FixedFormats

set_option autoImplicit false

namespace CellReplay

open FueledLoop Transition

/-- Where `send_packet_train_thread` is. The clock reading is the one taken before the train was
sent. -/
inductive SenderPoint where
  | head
  | sending
  | counting (now : Int)
  | inactivity (now : Int)
  | clearing
  | waiting
  | ended
  deriving DecidableEq, Repr

/-- The trains that the thread sends from here on without another START packet. -/
def SenderPoint.due (sleepEvent : Bool) : SenderPoint → Nat
  | .head => 1
  | .sending => 1
  | .waiting => if sleepEvent then 1 else 0
  | _ => 0

/-- A sender thread that was started. -/
structure Sender where
  thread : SendThread
  point : SenderPoint
  deriving DecidableEq, Repr

/-- A session of the packet-train server: `main`, the sender thread once it was started, the global
counter of the trains and the random payloads, which are the thread's alone, and the packets sent to
the client. The last two fields count the down trains sent and the START packets accepted. -/
structure TrainSession where
  server : PacketTrainServer
  sender : Option Sender
  currTrainNum : Int
  random : RandomPayloads
  sent : List (Address × Bytes)
  trains : Nat
  starts : Nat

namespace TrainSession

open PacketTrainServer

/-- The SYN that begins the session, which finds no thread. -/
def start (server : PacketTrainServer) (address : Address) (senderId currTrainNum : Int)
    (random : RandomPayloads) : TrainSession :=
  ⟨server.handleSyn address senderId, none, currTrainNum, random, [], 0, 0⟩

/-- The packet info of packet `i` of a train. -/
def pktInfo (numPackets i : Int) : Int :=
  if i = 0 then payloadPktInfoStart
  else if i = numPackets - 1 then payloadPktInfoEnd
  else 0

/-- Send the packets with the given numbers, and tell whether none raises. -/
def sendPackets (thread : SendThread) (currTrainNum initialSent : Int) :
    List Nat → RandomPayloads → List Bytes × RandomPayloads × Bool
  | [], random => ([], random, true)
  | seqNum :: rest, random =>
      match createDataPacket thread.senderId thread.packetSize seqNum currTrainNum
          (pktInfo thread.numPackets seqNum) initialSent random with
      | .error _ => ([], random, false)
      | .ok (pkt, random) =>
          let (pkts, random, complete) := sendPackets thread currTrainNum initialSent rest random
          (pkt :: pkts, random, complete)

/-- Send a train. An exception ends the thread. -/
def sendTrain (now : Int) (thread : SendThread) (s : TrainSession) : TrainSession :=
  let (pkts, random, complete) := sendPackets thread s.currTrainNum s.server.currTrainInitialSent
    (List.range thread.numPackets.toNat) s.random
  { s with
    random := random
    sent := s.sent ++ pkts.map (fun pkt => (thread.address, pkt))
    trains := if complete then s.trains + 1 else s.trains
    sender := some ⟨thread, if complete then .counting now else .ended⟩ }

/-- The next step of the thread, at a clock reading. It has none while it is blocked. -/
def advance (now : Int) (s : TrainSession) : Option TrainSession :=
  match s.sender with
  | none => none
  | some ⟨thread, point⟩ =>
      match point with
      | .head =>
          some { s with sender := some ⟨thread, if s.server.stopSending then .ended else .sending⟩ }
      | .sending => some (s.sendTrain now thread)
      | .counting now =>
          some { s with
            currTrainNum := s.currTrainNum + 1
            sender := some ⟨thread, .inactivity now⟩ }
      | .inactivity now =>
          some { s with
            sender := some ⟨thread,
              if 3 * 10 ^ 9 < now - s.server.lastRecvClientPacket then .ended else .clearing⟩ }
      | .clearing =>
          some { s with
            server := { s.server with sleepEvent := false }
            sender := some ⟨thread, .waiting⟩ }
      | .waiting =>
          if s.server.sleepEvent then some { s with sender := some ⟨thread, .head⟩ } else none
      | .ended => none

instance (fields : TrainPacketFields) (server : PacketTrainServer) :
    Decidable (Starts fields server) := inferInstanceAs (Decidable (_ ∧ _))

/-- A message that is a START packet of the session. -/
def IsAccepted (message : TrainMessage) (server : PacketTrainServer) : Prop :=
  match message with
  | .data fields _ => Starts fields server
  | _ => False

instance (message : TrainMessage) (server : PacketTrainServer) :
    Decidable (IsAccepted message server) :=
  match message with
  | .data fields _ => inferInstanceAs (Decidable (Starts fields server))
  | .control _ => isFalse id
  | .config _ => isFalse id

/-- The thread that the first START packet starts. -/
def started (server : PacketTrainServer) : Option Sender :=
  server.sendThread.map (fun thread => ⟨thread, .head⟩)

/-- `main` handles a datagram. -/
def receive (a : Arrival) (s : TrainSession) : Option TrainSession :=
  match s.server.handle a.now a.address a.message with
  | .error _ => none
  | .ok server =>
      if IsAccepted a.message s.server then
        some { s with
          server := server
          starts := s.starts + 1
          sender := if s.server.stopSending then started server else s.sender }
      else some { s with server := server }

inductive Event where
  | receive (a : Arrival)
  | advance (now : Int)

def exec : Event → TrainSession → Option TrainSession
  | .receive a => receive a
  | .advance now => advance now

/-- No FIN and no new SYN. -/
def Event.Within : Event → Prop
  | .receive a => ¬ a.message.IsSyn ∧ ¬ a.message.IsFin
  | .advance _ => True

instance (message : TrainMessage) : Decidable message.IsSyn :=
  match message with
  | .control fields => inferInstanceAs (Decidable (fields.content = controlSyn))
  | .config _ => isFalse id
  | .data _ _ => isFalse id

instance (message : TrainMessage) : Decidable message.IsFin :=
  match message with
  | .control fields => inferInstanceAs (Decidable (fields.content = controlFin))
  | .config _ => isFalse id
  | .data _ _ => isFalse id

instance (e : Event) : Decidable e.Within :=
  match e with
  | .receive a => inferInstanceAs (Decidable (¬ a.message.IsSyn ∧ ¬ a.message.IsFin))
  | .advance _ => isTrue trivial

def Step (s : TrainSession) (e : Event) (t : TrainSession) : Prop := exec e s = some t ∧ e.Within

/-- The thread is blocked in `sleepEvent.wait`. -/
def Blocked (s : TrainSession) : Prop :=
  s.sender.map Sender.point = some .waiting ∧ s.server.sleepEvent = false

/-- If the event is an accepted START packet, it comes before there is a thread, or while the thread
is blocked. -/
def Prompt (s : TrainSession) : Event → Prop
  | .receive a => IsAccepted a.message s.server → s.sender = none ∨ s.Blocked
  | .advance _ => True

instance (s : TrainSession) : Decidable s.Blocked := inferInstanceAs (Decidable (_ ∧ _))

instance (s : TrainSession) (e : Event) : Decidable (s.Prompt e) :=
  match e with
  | .receive a =>
      inferInstanceAs (Decidable (IsAccepted a.message s.server → s.sender = none ∨ s.Blocked))
  | .advance _ => isTrue trivial

end TrainSession

namespace PacketTrainServer

/-- The variables that `main` shares with the sender thread to signal it are the same. -/
structure SameSignals (s s' : PacketTrainServer) : Prop where
  stopSending : s'.stopSending = s.stopSending
  sleepEvent : s'.sleepEvent = s.sleepEvent

theorem logThroughput_signals (now : Int) (address : Address) (senderId : Int)
    (s : PacketTrainServer) : SameSignals s (s.logThroughput now address senderId) := by
  unfold logThroughput
  extract_lets counted
  have same : SameSignals s counted := by
    unfold counted
    split
    · exact ⟨rfl, rfl⟩
    · exact ⟨rfl, rfl⟩
  split
  · exact ⟨same.stopSending, same.sleepEvent⟩
  · exact same

theorem handleEnd_signals {now : Int} {fields : TrainPacketFields} {s s' : PacketTrainServer}
    (run : s.handleEnd now fields = .ok s') : SameSignals s s' := by
  unfold handleEnd at run
  split at run
  · obtain ⟨_, _, returned⟩ := bind_eq_ok.mp run
    rw [← Except.ok.inj returned]
    exact ⟨rfl, rfl⟩
  · rw [← Except.ok.inj run]
    exact ⟨rfl, rfl⟩

/-- Only the start of a train signals the thread. -/
theorem handleTrain_signals {now : Int} {fields : TrainPacketFields} {s s' : PacketTrainServer}
    (other : ¬ Starts fields s) (run : s.handleTrain now fields = .ok s') : SameSignals s s' := by
  unfold handleTrain at run
  split at run
  · rename_i own
    rw [if_neg (fun start => other ⟨own, start⟩)] at run
    split at run
    · exact handleEnd_signals run
    · rw [← Except.ok.inj run]
      exact ⟨rfl, rfl⟩
  · rw [← Except.ok.inj run]
    exact ⟨rfl, rfl⟩

/-- What the start of a train signals: it starts the thread the first time, and later sets the
event. -/
structure Signalled (s s' : PacketTrainServer) : Prop where
  stopSending : s'.stopSending = false
  first : s.stopSending = true → ∃ thread, s'.sendThread = some thread
  later : s.stopSending = false → s'.sleepEvent = true

theorem handleTrain_signalled {now : Int} {fields : TrainPacketFields} {s s' : PacketTrainServer}
    (starts : Starts fields s) (run : s.handleTrain now fields = .ok s') : Signalled s s' := by
  unfold handleTrain at run
  rw [if_pos starts.1, if_pos starts.2] at run
  unfold handleStart at run
  dsimp only at run
  split at run
  · rename_i stopped
    obtain ⟨thread, _, returned⟩ := bind_eq_ok.mp run
    rw [← Except.ok.inj returned]
    refine ⟨rfl, fun _ => ⟨thread, rfl⟩, ?_⟩
    intro sending
    rw [stopped] at sending
    cases sending
  · rename_i sending
    rw [← Except.ok.inj run]
    exact ⟨by simpa using sending, fun stopped => absurd stopped sending, fun _ => rfl⟩

theorem handleData_signals {now : Int} {address : Address} {fields : TrainPacketFields}
    {length : Nat} {s s' : PacketTrainServer}
    (run : s.handleData now address fields length = .ok s') :
    if Starts fields s then Signalled s s' else SameSignals s s' := by
  obtain ⟨file, _, run⟩ := bind_eq_ok.mp run
  obtain ⟨mid, trained, returned⟩ := bind_eq_ok.mp run
  obtain ⟨stop, sleep⟩ := logThroughput_signals now address fields.senderId mid
  have thread := (logThroughput_same now address fields.senderId mid).sendThread
  rw [← Except.ok.inj returned]
  split
  · rename_i starts
    have starts : Starts fields { s with logFile := some file } := starts
    obtain ⟨sending, first, later⟩ := handleTrain_signalled starts trained
    refine ⟨stop.trans sending, ?_, fun running => sleep.trans (later running)⟩
    intro stopped
    obtain ⟨made, shape⟩ := first stopped
    exact ⟨made, thread.trans shape⟩
  · rename_i other
    have other : ¬ Starts fields { s with logFile := some file } := other
    have same := handleTrain_signals other trained
    exact ⟨stop.trans same.stopSending, sleep.trans same.sleepEvent⟩

end PacketTrainServer

namespace TrainSession

open PacketTrainServer

/-- What a message within the session signals. -/
theorem handle_signals {now : Int} {address : Address} {message : TrainMessage}
    {s s' : PacketTrainServer} (notSyn : ¬ message.IsSyn) (notFin : ¬ message.IsFin)
    (run : s.handle now address message = .ok s') :
    if IsAccepted message s then Signalled s s' else SameSignals s s' := by
  cases message with
  | control fields =>
      rw [if_neg (show ¬ IsAccepted (.control fields) s from id), ← Except.ok.inj run]
      have notSyn : fields.content ≠ controlSyn := notSyn
      have notFin : fields.content ≠ controlFin := notFin
      unfold handleControl
      dsimp only
      rw [if_neg notSyn, if_neg notFin]
      exact ⟨rfl, rfl⟩
  | config fields =>
      rw [if_neg (show ¬ IsAccepted (.config fields) s from id), ← Except.ok.inj run]
      unfold handleConfig
      split
      · exact ⟨rfl, rfl⟩
      · exact ⟨rfl, rfl⟩
  | data fields length => exact handleData_signals run

/-- The trains that the thread still has to send for the START packets that reached it. -/
def due (s : TrainSession) : Nat :=
  match s.sender with
  | none => 0
  | some sender => sender.point.due s.server.sleepEvent

/-- The thread has ended, by an exception or for the inactivity of the client. -/
def HasEnded (s : TrainSession) : Prop := ∃ thread, s.sender = some ⟨thread, .ended⟩

/-- `stop_sending` is off from the start of the thread on. -/
def Kept (s : TrainSession) : Prop := s.sender = none ↔ s.server.stopSending = true

theorem Kept.running {s : TrainSession} (kept : Kept s) (made : s.sender ≠ none) :
    s.server.stopSending = false := by
  rw [Bool.eq_false_iff]
  intro stopped
  exact made (kept.mpr stopped)

theorem kept_start (server : PacketTrainServer) (address : Address) (senderId currTrainNum : Int)
    (random : RandomPayloads) : Kept (start server address senderId currTrainNum random) :=
  ⟨fun _ => rfl, fun _ => rfl⟩

section
variable {s t : TrainSession}

theorem due_eq {thread : SendThread} {point : SenderPoint}
    (shape : s.sender = some ⟨thread, point⟩) : s.due = point.due s.server.sleepEvent := by
  unfold due
  rw [shape]

/-- What a step of the thread does. -/
structure Advanced (s t : TrainSession) : Prop where
  runs : ∃ thread point point', s.sender = some ⟨thread, point⟩ ∧ t.sender = some ⟨thread, point'⟩ ∧
    point ≠ .ended
  stopSending : t.server.stopSending = s.server.stopSending
  starts : t.starts = s.starts
  owed : t.HasEnded ∨ t.trains + t.due = s.trains + s.due

theorem sendTrain_advanced {thread : SendThread} (shape : s.sender = some ⟨thread, .sending⟩)
    (now : Int) : Advanced s (s.sendTrain now thread) := by
  refine ⟨⟨thread, .sending, _, shape, rfl, nofun⟩, rfl, rfl, ?_⟩
  rw [due_eq shape]
  unfold sendTrain
  split
  rename_i pkts random complete _
  cases complete with
  | false => exact Or.inl ⟨thread, rfl⟩
  | true => exact Or.inr rfl

theorem advance_advanced {now : Int} (move : advance now s = some t) : Advanced s t := by
  unfold advance at move
  split at move
  · cases move
  · rename_i thread point shape
    have owed := due_eq shape
    split at move
    · rw [← Option.some.inj move]
      refine ⟨⟨thread, .head, _, shape, rfl, nofun⟩, rfl, rfl, ?_⟩
      by_cases stop : s.server.stopSending = true
      · exact Or.inl ⟨thread, by simp only [stop, if_true]⟩
      · right
        rw [due_eq rfl, owed]
        simp only [stop]
        rfl
    · rw [← Option.some.inj move]
      exact sendTrain_advanced shape now
    · rename_i sentAt
      rw [← Option.some.inj move]
      exact ⟨⟨thread, .counting sentAt, _, shape, rfl, nofun⟩, rfl, rfl, Or.inr (by rw [owed]; rfl)⟩
    · rename_i sentAt
      rw [← Option.some.inj move]
      refine ⟨⟨thread, .inactivity sentAt, _, shape, rfl, nofun⟩, rfl, rfl, ?_⟩
      by_cases inactive : 3 * 10 ^ 9 < sentAt - s.server.lastRecvClientPacket
      · exact Or.inl ⟨thread, by simp only [inactive, if_true]⟩
      · right
        rw [due_eq rfl, owed]
        simp only [inactive]
        rfl
    · rw [← Option.some.inj move]
      exact ⟨⟨thread, .clearing, _, shape, rfl, nofun⟩, rfl, rfl, Or.inr (by rw [owed]; rfl)⟩
    · split at move
      · rename_i set
        rw [← Option.some.inj move]
        refine ⟨⟨thread, .waiting, _, shape, rfl, nofun⟩, rfl, rfl, Or.inr ?_⟩
        rw [owed, set]
        rfl
      · cases move
    · cases move

/-- What a START packet that is accepted does. -/
structure Accepted (s t : TrainSession) : Prop where
  starts : t.starts = s.starts + 1
  trains : t.trains = s.trains
  stopSending : t.server.stopSending = false
  first : s.server.stopSending = true → ∃ thread, t.sender = some ⟨thread, .head⟩
  later : s.server.stopSending = false → t.sender = s.sender ∧ t.server.sleepEvent = true

/-- What any other message within the session does. -/
structure Ignored (s t : TrainSession) : Prop where
  starts : t.starts = s.starts
  trains : t.trains = s.trains
  sender : t.sender = s.sender
  signals : SameSignals s.server t.server

theorem receive_cases {a : Arrival} (notSyn : ¬ a.message.IsSyn) (notFin : ¬ a.message.IsFin)
    (move : receive a s = some t) :
    IsAccepted a.message s.server ∧ Accepted s t ∨
      ¬ IsAccepted a.message s.server ∧ Ignored s t := by
  unfold receive at move
  split at move
  · cases move
  · rename_i server handled
    have signals := handle_signals notSyn notFin handled
    split at move
    · rename_i accepted
      rw [if_pos accepted] at signals
      obtain ⟨sending, first, later⟩ := signals
      rw [← Option.some.inj move]
      refine Or.inl ⟨accepted, rfl, rfl, sending, ?_, ?_⟩
      · intro stopped
        obtain ⟨thread, made⟩ := first stopped
        refine ⟨thread, ?_⟩
        dsimp only
        rw [if_pos stopped, started, made]
        rfl
      · intro running
        refine ⟨?_, later running⟩
        dsimp only
        rw [if_neg (by rw [running]; exact Bool.false_ne_true)]
    · rename_i other
      rw [if_neg other] at signals
      rw [← Option.some.inj move]
      exact Or.inr ⟨other, rfl, rfl, rfl, signals⟩

theorem Accepted.kept (accepted : Accepted s t) (kept : Kept s) : Kept t := by
  refine iff_of_false ?_ (by rw [accepted.stopSending]; exact Bool.false_ne_true)
  cases stop : s.server.stopSending with
  | true =>
      obtain ⟨thread, shape⟩ := accepted.first stop
      rw [shape]
      exact nofun
  | false =>
      rw [(accepted.later stop).1]
      intro none
      have stopped := kept.mp none
      rw [stop] at stopped
      cases stopped

theorem Step.kept {e : Event} (step : Step s e t) (kept : Kept s) : Kept t := by
  obtain ⟨move, within⟩ := step
  cases e with
  | receive a =>
      rcases receive_cases within.1 within.2 move with ⟨_, accepted⟩ | ⟨_, ignored⟩
      · exact accepted.kept kept
      · unfold Kept
        rw [ignored.sender, ignored.signals.stopSending]
        exact kept
  | advance now =>
      obtain ⟨⟨thread, point, point', before, after, _⟩, stop, _, _⟩ := advance_advanced move
      unfold Kept at kept ⊢
      rw [stop, ← kept, before, after]
      exact ⟨nofun, nofun⟩

theorem Step.hasEnded {e : Event} (step : Step s e t) (kept : Kept s) (ended : s.HasEnded) :
    t.HasEnded := by
  obtain ⟨thread, shape⟩ := ended
  obtain ⟨move, within⟩ := step
  cases e with
  | receive a =>
      rcases receive_cases within.1 within.2 move with ⟨_, accepted⟩ | ⟨_, ignored⟩
      · have running := kept.running (by rw [shape]; exact nofun)
        exact ⟨thread, (accepted.later running).1.trans shape⟩
      · exact ⟨thread, ignored.sender.trans shape⟩
  | advance now =>
      obtain ⟨⟨thread', point, _, before, _, running⟩, _, _, _⟩ := advance_advanced move
      rw [shape] at before
      cases before
      exact absurd rfl running

/-- The trains sent and still due. -/
def owed (s : TrainSession) : Nat := s.trains + s.due

theorem Blocked.due_eq_zero (blocked : s.Blocked) : s.due = 0 := by
  obtain ⟨at', clear⟩ := blocked
  obtain ⟨⟨thread, point⟩, shape, same⟩ := Option.map_eq_some_iff.mp at'
  cases same
  rw [due_eq shape, clear]
  rfl

theorem Blocked.not_hasEnded (blocked : s.Blocked) : ¬ s.HasEnded := by
  rintro ⟨thread, shape⟩
  obtain ⟨at', _⟩ := blocked
  rw [shape] at at'
  cases at'

/-- A START packet that finds no thread, or finds it blocked, makes one more train due. -/
theorem Accepted.owed_prompt (accepted : Accepted s t) (kept : Kept s)
    (prompt : s.sender = none ∨ s.Blocked) : t.owed = s.owed + 1 := by
  unfold TrainSession.owed
  rw [accepted.trains]
  rcases prompt with none | blocked
  · obtain ⟨thread, shape⟩ := accepted.first (kept.mp none)
    have before : s.due = 0 := by
      unfold due
      rw [none]
    rw [due_eq shape, before]
    rfl
  · rw [blocked.due_eq_zero]
    obtain ⟨at', clear⟩ := blocked
    obtain ⟨⟨thread, point⟩, shape, same⟩ := Option.map_eq_some_iff.mp at'
    cases same
    have running := kept.running (by rw [shape]; exact nofun)
    obtain ⟨sender, set⟩ := accepted.later running
    rw [due_eq (sender.trans shape), set]
    rfl

/-- Any other makes none: the event is set already, or will be cleared before the thread waits. -/
theorem Accepted.owed_lost (accepted : Accepted s t) (kept : Kept s)
    (lost : ¬ (s.sender = none ∨ s.Blocked)) : t.owed = s.owed := by
  have running := kept.running (fun none => lost (Or.inl none))
  obtain ⟨sender, set⟩ := accepted.later running
  cases shape : s.sender with
  | none => exact absurd (Or.inl shape) lost
  | some sender' =>
      obtain ⟨thread, point⟩ := sender'
      unfold TrainSession.owed
      rw [accepted.trains, due_eq (sender.trans shape), due_eq shape, set]
      cases point with
      | waiting =>
          have unblocked : s.server.sleepEvent = true := by
            rw [← Bool.not_eq_false]
            intro clear
            apply lost
            right
            exact ⟨by rw [shape]; rfl, clear⟩
          rw [unblocked]
      | head => rfl
      | sending => rfl
      | counting now => rfl
      | inactivity now => rfl
      | clearing => rfl
      | ended => rfl

/-- Either the thread has ended, or each START packet that is accepted makes one more train due,
unless the event is not prompt. -/
theorem Step.owed {e : Event} (step : Step s e t) (kept : Kept s) :
    t.HasEnded ∨ (Prompt s e ∧ t.owed + s.starts = s.owed + t.starts) ∨
      (¬ Prompt s e ∧ t.owed = s.owed ∧ s.starts < t.starts) := by
  obtain ⟨move, within⟩ := step
  cases e with
  | receive a =>
      right
      rcases receive_cases within.1 within.2 move with ⟨starts, accepted⟩ | ⟨other, ignored⟩
      · have counted := accepted.starts
        by_cases prompt : s.sender = none ∨ s.Blocked
        · have owed := accepted.owed_prompt kept prompt
          exact Or.inl ⟨fun _ => prompt, by omega⟩
        · have owed := accepted.owed_lost kept prompt
          exact Or.inr ⟨fun event => prompt (event starts), owed, by omega⟩
      · refine Or.inl ⟨fun starts => absurd starts other, ?_⟩
        unfold TrainSession.owed due
        rw [ignored.starts, ignored.trains, ignored.sender, ignored.signals.sleepEvent]
  | advance now =>
      obtain ⟨_, _, starts, owed⟩ := advance_advanced move
      rcases owed with ended | owed
      · exact Or.inl ended
      · have owed : t.owed = s.owed := owed
        exact Or.inr (Or.inl ⟨trivial, by omega⟩)

/-- The trains sent and due are as many as the START packets accepted, -/
def Answered (s : TrainSession) : Prop := s.HasEnded ∨ s.owed = s.starts

/-- or fewer. -/
def Behind (s : TrainSession) : Prop := s.HasEnded ∨ s.owed < s.starts

/-- A step whose event is prompt. -/
def PromptStep (s : TrainSession) (e : Event) (t : TrainSession) : Prop := Step s e t ∧ Prompt s e

theorem Answered.prompt {e : Event} (answered : Answered s) (kept : Kept s) (step : Step s e t)
    (prompt : Prompt s e) : Answered t := by
  rcases answered with ended | level
  · exact Or.inl (step.hasEnded kept ended)
  · rcases step.owed kept with ended | ⟨_, owed⟩ | ⟨late, _⟩
    · exact Or.inl ended
    · exact Or.inr (by omega)
    · exact absurd prompt late

theorem Answered.late {e : Event} (answered : Answered s) (kept : Kept s) (step : Step s e t)
    (late : ¬ Prompt s e) : Behind t := by
  rcases answered with ended | level
  · exact Or.inl (step.hasEnded kept ended)
  · rcases step.owed kept with ended | ⟨prompt, _⟩ | ⟨_, owed, more⟩
    · exact Or.inl ended
    · exact absurd prompt late
    · exact Or.inr (by omega)

/-- The thread never catches up. -/
theorem Behind.step {e : Event} (behind : Behind s) (kept : Kept s) (step : Step s e t) :
    Behind t := by
  rcases behind with ended | fewer
  · exact Or.inl (step.hasEnded kept ended)
  · rcases step.owed kept with ended | ⟨_, owed⟩ | ⟨_, owed, more⟩
    · exact Or.inl ended
    · exact Or.inr (by omega)
    · exact Or.inr (by omega)

theorem Answered.trains (answered : Answered s) (blocked : s.Blocked) : s.trains = s.starts := by
  rcases answered with ended | level
  · exact absurd ended blocked.not_hasEnded
  · rw [← level, TrainSession.owed, blocked.due_eq_zero, Nat.add_zero]

theorem Behind.trains (behind : Behind s) (blocked : s.Blocked) : s.trains < s.starts := by
  rcases behind with ended | fewer
  · exact absurd ended blocked.not_hasEnded
  · rw [TrainSession.owed, blocked.due_eq_zero, Nat.add_zero] at fewer
    exact fewer

end

section
variable {server : PacketTrainServer} {address : Address} {senderId currTrainNum : Int}
  {random : RandomPayloads} {events : List Event} {s : TrainSession}

theorem run_kept (run : Run Step (start server address senderId currTrainNum random) events s) :
    Kept s :=
  run.invariant (fun _ _ _ kept step => step.kept kept) (kept_start _ _ _ _ _)

theorem run_prompt_answered
    (run : Run PromptStep (start server address senderId currTrainNum random) events s) :
    Answered s := by
  induction run with
  | nil => exact Or.inr rfl
  | snoc before step answered =>
      have kept := run_kept (before.mono (fun _ _ _ step => step.1))
      exact answered.prompt kept step.1 step.2

/-- A run has prompt events only, or has left the thread behind. -/
theorem run_prompt_or_behind
    (run : Run Step (start server address senderId currTrainNum random) events s) :
    Run PromptStep (start server address senderId currTrainNum random) events s ∨ Behind s := by
  induction run with
  | nil => exact Or.inl Run.nil
  | @snoc labels middle last e before step ih =>
      have kept := run_kept before
      rcases ih with prompt | behind
      · by_cases event : Prompt middle e
        · exact Or.inl (prompt.snoc ⟨step, event⟩)
        · exact Or.inr ((run_prompt_answered prompt).late kept step event)
      · exact Or.inr (behind.step kept step)

/-- While the thread is blocked, it has sent a train for each START packet accepted exactly when
each came before there was a thread or while it was blocked. -/
theorem no_start_forgotten_iff
    (run : Run Step (start server address senderId currTrainNum random) events s)
    (blocked : s.Blocked) :
    s.trains = s.starts ↔
      Run PromptStep (start server address senderId currTrainNum random) events s := by
  constructor
  · intro level
    rcases run_prompt_or_behind run with prompt | behind
    · exact prompt
    · have fewer := behind.trains blocked
      omega
  · intro prompt
    exact (run_prompt_answered prompt).trains blocked

end

/-- A session of client 7, with trains of three packets. -/
def ofSeven : TrainSession :=
  start init ⟨"10.0.0.2".toList, 4000⟩ 7 0
    ⟨[List.replicate RandomBytes.maxPacketSize 0], 0, by simp, Nat.one_pos⟩

/-- The configuration of the client at time 2, and the START packet of its train 0. -/
def configured : List Event :=
  (fromSeven [(2, [7, 30, 30, 3, 3, 98]), (3, [0, 1, 0, 7, 0, 1, 0])]).map Event.receive

/-- The START packet of train 1. -/
def again : List Event := (fromSeven [(4, [0, 2, 0, 7, 1, 1, 0])]).map Event.receive

/-- The thread goes from the head of its loop to its wait. -/
def round : List Event := List.replicate 5 (.advance 3)

/-- The second START packet comes before the first train is sent. -/
theorem not_no_start_forgotten :
    ∃ events s, Run Step ofSeven events s ∧ s.Blocked ∧ s.trains = 1 ∧ s.starts = 2 := by
  have observed : (execAll exec (fun _ e => e.Within) (configured ++ again ++ round) ofSeven).map
      (fun s => (decide s.Blocked, s.trains, s.starts)) = some (true, 1, 2) := by decide +kernel
  obtain ⟨s, returned, seen⟩ := Option.map_eq_some_iff.mp observed
  obtain ⟨blocked, seen⟩ := Prod.mk.inj seen
  obtain ⟨trains, starts⟩ := Prod.mk.inj seen
  exact ⟨_, s, run_of_execAll returned, of_decide_eq_true blocked, trains, starts⟩

/-- The second START packet comes while the thread is blocked. -/
theorem no_start_forgotten_iff_again :
    ∃ events s, Run PromptStep ofSeven events s ∧ s.Blocked ∧ s.trains = s.starts ∧
      s.starts = 2 := by
  have observed : (execAll exec (fun s e => e.Within ∧ s.Prompt e)
      (configured ++ round ++ again ++ .advance 4 :: round) ofSeven).map
      (fun s => (decide s.Blocked, s.starts)) = some (true, 2) := by decide +kernel
  obtain ⟨s, returned, seen⟩ := Option.map_eq_some_iff.mp observed
  obtain ⟨blocked, starts⟩ := Prod.mk.inj seen
  have blocked := of_decide_eq_true blocked
  have prompt : Run PromptStep ofSeven _ s :=
    (run_of_execAll returned).mono (fun _ _ _ step => ⟨⟨step.1, step.2.1⟩, step.2.2⟩)
  have run := prompt.mono (fun _ _ _ step => step.1)
  exact ⟨_, s, prompt, blocked, (no_start_forgotten_iff run blocked).mpr prompt, starts⟩

end TrainSession

end CellReplay
