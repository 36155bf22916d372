import CellReplay.Lib.Binary64
import CellReplay.Lib.Transition
import CellReplay.Record.ServerSession

set_option autoImplicit false

namespace CellReplay

open Binary64 FueledLoop Transition

/-- What `parse_config_packet` of the saturator server returns. -/
structure SaturatorConfigFields where
  senderId : Int
  uploadRate : Int
  downloadRate : Int
  packetSize : Int
  deriving DecidableEq, Repr

/-- What `parse_packet` of the saturator server returns. -/
structure SaturatorPacketFields where
  seqNum : Int
  sentTimestamp : Int
  recvTimestamp : Int
  senderId : Int
  deriving DecidableEq, Repr

/-- The branch a message takes in `main`, with what its parser returns, and the length of the
message. -/
inductive SaturatorMessage where
  | control (fields : ControlFields)
  | config (fields : SaturatorConfigFields)
  | data (fields : SaturatorPacketFields) (length : Nat)
  deriving DecidableEq, Repr

/-- A line of the log of the saturator server. -/
inductive SaturatorLogLine where
  | config (senderId uploadRate downloadRate packetSize : Int)
  | columns
  | packet (seqNum sendTimestamp recvTimestamp senderId : Int) (packetSize : Nat)
  deriving DecidableEq, Repr

/-- Where a sender thread is: before its test of `stop_sending`, before it sends a round, before
its test of inactivity, or behind its loop. -/
inductive ThreadPoint where
  | head
  | sending
  | inactivity
  | ended
  deriving DecidableEq, Repr

/-- A sender thread, with two history variables: the session it was started for, and the session
configured last when its round began. -/
structure SaturatorThread where
  senderId : Int
  address : Address
  downloadRate : Int
  packetSize : Int
  point : ThreadPoint
  session : Nat
  round : Nat
  deriving DecidableEq, Repr

/-- A data packet that was sent, with the history variables of its thread. -/
structure SaturatorData where
  senderId : Int
  seqNum : Int
  address : Address
  session : Nat
  round : Nat
  deriving DecidableEq, Repr

/-- The variables of `main`, the globals, the sender threads, and what was sent. The last two are
history variables: the sessions begun by a SYN, and the session configured last. -/
structure SaturatorServer where
  currSenderId : Int
  currUploadRate : Int
  currDownloadRate : Int
  currPacketSize : Int
  logTime : Int
  countPacket : Int
  currLogTimestamp : Int
  logFile : Option (LogFile SaturatorLogLine)
  expId : Int
  currSeqNum : Int
  lastRecvClientPacket : Int
  stopSending : Bool
  threads : List SaturatorThread
  sent : List (Address × Reply)
  sentData : List SaturatorData
  session : Nat
  configured : Nat
  deriving DecidableEq, Repr

namespace SaturatorThread

def minSleepTimeMs : Int := 1
def udpHeaderSize : Int := 42
def maxPacketSize : Int := 1500

section
variable (t : SaturatorThread)

/-- The packets per second at the rate in Mbps. The divisions of the script are of floating-point
numbers. -/
def packetPerSecond : Int :=
  trunc (double (double (t.downloadRate * 1000000 / 8) / double t.packetSize))

def amountOfBatchesPerSecond : Int := trunc (double (1000 / minSleepTimeMs))

def packetPerBatchLower : Int :=
  trunc (double (t.packetPerSecond / amountOfBatchesPerSecond))

def packetPerBatchUpper : Int := t.packetPerBatchLower + 1

def sendUpper : Int := t.packetPerSecond - amountOfBatchesPerSecond * t.packetPerBatchLower

def sendLower : Int := amountOfBatchesPerSecond - t.sendUpper

/-- The sizes of the batches of a round. -/
def batches : List Nat :=
  List.replicate t.sendLower.toNat t.packetPerBatchLower.toNat ++
    List.replicate t.sendUpper.toNat t.packetPerBatchUpper.toNat

/-- `create_data_packet` makes a packet of the size configured. -/
def Creates : Prop := udpHeaderSize ≤ t.packetSize ∧
    t.packetSize - udpHeaderSize - 4 * 8 ≤ maxPacketSize

instance : Decidable t.Creates := inferInstanceAs (Decidable (_ ∧ _))

/-- The packets of a round. -/
def roundPackets (currSeqNum : Int) : List SaturatorData :=
  (List.range t.batches.sum).map (fun (k : Nat) =>
    ⟨t.senderId, currSeqNum + k, t.address, t.session, t.round⟩)

/-- The thread sends packets, round after round. -/
def Sends : Prop := 0 < t.batches.sum ∧ t.Creates

instance : Decidable t.Sends := inferInstanceAs (Decidable (_ ∧ _))

end

end SaturatorThread

namespace SaturatorServer

def logMs : Int := 1000

def parsePacket (packet : Bytes) : SaturatorPacketFields where
  seqNum := DynamicServer.intFromBytes packet 0 8
  sentTimestamp := DynamicServer.intFromBytes packet 8 16
  recvTimestamp := DynamicServer.intFromBytes packet 16 24
  senderId := DynamicServer.intFromBytes packet 24 32

def parseConfigPacket (packet : Bytes) : SaturatorConfigFields where
  senderId := DynamicServer.intFromBytes packet 0 8
  uploadRate := DynamicServer.intFromBytes packet 8 16
  downloadRate := DynamicServer.intFromBytes packet 16 24
  packetSize := DynamicServer.intFromBytes packet 24 32

def isConfigPacket (packet : Bytes) : Bool := packet.length == 8 * 4

/-- The branches of `main`, with the parser at the start of each. -/
def dispatch (message : Bytes) : SaturatorMessage :=
  if DynamicServer.isControlPacket message then .control (DynamicServer.parseControlPacket message)
  else if isConfigPacket message then .config (parseConfigPacket message)
  else .data (parsePacket message) message.length

/-- The server before its first datagram. -/
def init : SaturatorServer where
  currSenderId := 0
  currUploadRate := 0
  currDownloadRate := 0
  currPacketSize := 0
  logTime := 0
  countPacket := 0
  currLogTimestamp := 0
  logFile := none
  expId := 0
  currSeqNum := 0
  lastRecvClientPacket := 0
  stopSending := false
  threads := []
  sent := []
  sentData := []
  session := 0
  configured := 0

/-- The variables that both SYN and FIN reset. -/
def reset (s : SaturatorServer) : SaturatorServer :=
  { s with
    currUploadRate := 0
    currDownloadRate := 0
    currPacketSize := 0
    logTime := 0
    countPacket := 0
    currLogTimestamp := 0 }

def handleSyn (address : Address) (senderId : Int) (s : SaturatorServer) : SaturatorServer :=
  { s.reset with
    sent := s.sent ++ [(address, .control senderId controlSynAck)]
    currSenderId := senderId
    stopSending := false
    logFile := s.logFile.map LogFile.close
    session := s.session + 1 }

def handleFin (s : SaturatorServer) : SaturatorServer :=
  { s.reset with currSenderId := 0, stopSending := true }

def handleControl (address : Address) (fields : ControlFields) (s : SaturatorServer) :
    SaturatorServer :=
  let s := { s with expId := fields.expId }
  if fields.content = controlSyn then s.handleSyn address fields.senderId
  else if fields.content = controlFin then s.handleFin
  else s

/-- The log file as it is opened for a session. -/
def openLog (fields : SaturatorConfigFields) : LogFile SaturatorLogLine :=
  ⟨[.config fields.senderId fields.uploadRate fields.downloadRate
  fields.packetSize, .columns], false⟩

/-- The thread as it is started: with a packet size of 0 it ends on the division by it. -/
def startThread (address : Address) (fields : SaturatorConfigFields) (s : SaturatorServer) :
    SaturatorThread :=
  ⟨fields.senderId, address, fields.downloadRate, fields.packetSize,
    if fields.packetSize = 0 then .ended else .head, s.session, 0⟩

def handleConfig (now : Int) (address : Address) (fields : SaturatorConfigFields)
    (s : SaturatorServer) : SaturatorServer :=
  if s.currSenderId = fields.senderId then
    { s with
      lastRecvClientPacket := now
      currUploadRate := fields.uploadRate
      currDownloadRate := fields.downloadRate
      currPacketSize := fields.packetSize
      sent := s.sent ++ [(address, .control fields.senderId controlConfigAck)]
      logFile := some (openLog fields)
      stopSending := false
      threads := s.threads ++ [s.startThread address fields]
      configured := s.session }
  else s

/-- Once a second, tell the client the throughput. -/
def logThroughput (now : Int) (address : Address) (senderId : Int) (s : SaturatorServer) :
    SaturatorServer :=
  let s := { s with countPacket := s.countPacket + 1 }
  let s := if s.currLogTimestamp = 0 then { s with currLogTimestamp := now } else s
  if logMs * 10 ^ 6 ≤ now - s.currLogTimestamp then
    let throughput : ℚ := (s.countPacket * s.currPacketSize * 8 / 10 ^ 6) / (logMs / 1000)
    { s with
      sent := s.sent ++ [(address, .info senderId s.logTime throughput)]
      logTime := s.logTime + 1
      currLogTimestamp := now
      countPacket := 0 }
  else s

def handleData (now : Int) (address : Address) (fields : SaturatorPacketFields) (length : Nat)
    (s : SaturatorServer) : Except Fault SaturatorServer :=
  if fields.senderId = s.currSenderId then do
    let logFile ← LogFile.write
      (.packet fields.seqNum fields.sentTimestamp now fields.senderId length) s.logFile
    return { { s with logFile := some logFile }.logThroughput now address fields.senderId with
      lastRecvClientPacket := now }
  else .ok s

/-- What `main` does with one message, which it handles at one clock reading. -/
def handle (now : Int) (address : Address) (message : SaturatorMessage) (s : SaturatorServer) :
    Except Fault SaturatorServer :=
  match message with
  | .control fields => .ok (s.handleControl address fields)
  | .config fields => .ok (s.handleConfig now address fields)
  | .data fields length => s.handleData now address fields length

def setThread (i : Nat) (t : SaturatorThread) (s : SaturatorServer) : SaturatorServer :=
  { s with threads := s.threads.set i t }

/-- The test of `stop_sending` at the head of the loop. -/
def testStop (i : Nat) (t : SaturatorThread) (s : SaturatorServer) : SaturatorServer :=
  if s.stopSending then s.setThread i { t with point := .ended }
  else s.setThread i { t with point := .sending, round := s.configured }

/-- Send a round: all its batches, or nothing and raise if no packet can be created. -/
def sendRound (i : Nat) (t : SaturatorThread) (s : SaturatorServer) : SaturatorServer :=
  if 0 < t.batches.sum ∧ ¬ t.Creates then s.setThread i { t with point := .ended }
  else
    { s.setThread i { t with point := .inactivity } with
      sentData := s.sentData ++ t.roundPackets s.currSeqNum
      currSeqNum := s.currSeqNum + t.batches.sum }

/-- The test of inactivity at the end of a round. -/
def testInactivity (i : Nat) (now : Int) (t : SaturatorThread) (s : SaturatorServer) :
    SaturatorServer :=
  if 3 * 10 ^ 9 < now - s.lastRecvClientPacket then s.setThread i { t with point := .ended }
  else s.setThread i { t with point := .head }

/-- A step of `main` or of a sender thread. -/
inductive Event where
  | receive (now : Int) (address : Address) (datagram : Bytes)
  | testStop (i : Nat)
  | sendRound (i : Nat)
  | testInactivity (i : Nat) (now : Int)

/-- The thread that makes a step, if it is at the point of that step. -/
def threadAt (i : Nat) (point : ThreadPoint) (s : SaturatorServer) : Option SaturatorThread :=
  match s.threads[i]? with
  | some t => if t.point = point then some t else none
  | none => none

/-- The state a step leaves. A datagram on which `main` raises has none: `main` ends there. -/
def exec : Event → SaturatorServer → Option SaturatorServer
  | .receive now address datagram, s =>
      (s.handle now address (dispatch (DynamicServer.recvfrom datagram))).toOption
  | .testStop i, s => (s.threadAt i .head).map (fun t => s.testStop i t)
  | .sendRound i, s => (s.threadAt i .sending).map (fun t => s.sendRound i t)
  | .testInactivity i now, s => (s.threadAt i .inactivity).map (fun t => s.testInactivity i now t)

def Step (s : SaturatorServer) (event : Event) (s' : SaturatorServer) : Prop :=
  exec event s = some s'

/-- Every data packet was sent in a round that began before the configuration of a later session
was accepted: no thread of an earlier session has passed the head of its loop since. -/
def Isolated (s : SaturatorServer) : Prop := ∀ p ∈ s.sentData, p.round ≤ p.session

/-- The threads of the sessions before the present one have ended, those that send at all. -/
def EarlierEnded (s : SaturatorServer) : Prop :=
  ∀ t ∈ s.threads, t.session < s.session → t.Sends → t.point = .ended

instance (s : SaturatorServer) : Decidable s.EarlierEnded :=
  inferInstanceAs (Decidable (∀ t ∈ s.threads, t.session < s.session → t.Sends → t.point = .ended))

/-- The event is a configuration that is accepted. -/
def Configures (s : SaturatorServer) : Event → Prop
  | .receive _ _ datagram => ∃ fields,
      dispatch (DynamicServer.recvfrom datagram) = .config fields ∧ s.currSenderId = fields.senderId
  | _ => False

/-- A step in which a configuration is accepted only once the earlier threads have ended. -/
def EndedStep (s : SaturatorServer) (event : Event) (s' : SaturatorServer) : Prop :=
  Step s event s' ∧ (s.Configures event → s.EarlierEnded)

/-- What `main` leaves as it is but for a configuration. -/
structure Unconfigured (s s' : SaturatorServer) : Prop where
  threads : s'.threads = s.threads
  sentData : s'.sentData = s.sentData
  configured : s'.configured = s.configured
  session : s.session ≤ s'.session

theorem handleControl_unconfigured (address : Address) (fields : ControlFields)
    (s : SaturatorServer) : Unconfigured s (s.handleControl address fields) := by
  unfold handleControl
  dsimp only
  split
  · exact ⟨rfl, rfl, rfl, Nat.le_succ s.session⟩
  · split
    · exact ⟨rfl, rfl, rfl, Nat.le_refl s.session⟩
    · exact ⟨rfl, rfl, rfl, Nat.le_refl s.session⟩

theorem logThroughput_unconfigured (now : Int) (address : Address) (senderId : Int)
    (s : SaturatorServer) : Unconfigured s (s.logThroughput now address senderId) := by
  unfold logThroughput
  extract_lets counted logged
  have same : Unconfigured s logged := by
    unfold logged
    split
    · exact ⟨rfl, rfl, rfl, Nat.le_refl s.session⟩
    · exact ⟨rfl, rfl, rfl, Nat.le_refl s.session⟩
  split
  · exact ⟨same.threads, same.sentData, same.configured, same.session⟩
  · exact same

theorem handleData_unconfigured {now : Int} {address : Address} {fields : SaturatorPacketFields}
    {length : Nat} {s s' : SaturatorServer}
    (run : s.handleData now address fields length = .ok s') :
    Unconfigured s s' := by
  unfold handleData at run
  split at run
  · obtain ⟨logFile, _, returned⟩ := bind_eq_ok.mp run
    have same := logThroughput_unconfigured now address fields.senderId
      { s with logFile := some logFile }
    rw [← Except.ok.inj returned]
    exact ⟨same.threads, same.sentData, same.configured, same.session⟩
  · rw [← Except.ok.inj run]
    exact ⟨rfl, rfl, rfl, Nat.le_refl s.session⟩

/-- What a step of `main` does to the threads: nothing, or a configuration is accepted. -/
theorem exec_receive_cases {now : Int} {address : Address} {datagram : Bytes}
    {s s' : SaturatorServer} (step : Step s (.receive now address datagram) s') :
    Unconfigured s s' ∨ s.Configures (.receive now address datagram) ∧ ∃ fields,
      s.currSenderId = fields.senderId ∧ s' = s.handleConfig now address fields := by
  have step : (s.handle now address (dispatch (DynamicServer.recvfrom datagram))).toOption =
    some s' := step
  cases shape : dispatch (DynamicServer.recvfrom datagram) with
  | control fields =>
      rw [shape] at step
      rw [← Option.some.inj step]
      exact Or.inl (handleControl_unconfigured address fields s)
  | config fields =>
      rw [shape] at step
      have same : s.handleConfig now address fields = s' := Option.some.inj step
      rw [← same]
      by_cases own : s.currSenderId = fields.senderId
      · exact Or.inr ⟨⟨fields, shape, own⟩, fields, own, rfl⟩
      · unfold handleConfig
        rw [if_neg own]
        exact Or.inl ⟨rfl, rfl, rfl, Nat.le_refl s.session⟩
  | data fields length =>
      rw [shape] at step
      cases run : s.handleData now address fields length with
      | error fault =>
          unfold handle at step
          dsimp only at step
          rw [run] at step
          cases step
      | ok next =>
          unfold handle at step
          dsimp only at step
          rw [run] at step
          rw [← Option.some.inj step]
          exact Or.inl (handleData_unconfigured run)

theorem threadAt_eq_some {i : Nat} {point : ThreadPoint} {s : SaturatorServer}
    {t : SaturatorThread} :
    s.threadAt i point = some t ↔ s.threads[i]? = some t ∧ t.point = point := by
  unfold threadAt
  cases s.threads[i]? with
  | none => simp
  | some other =>
      by_cases here : other.point = point
      · simp only [if_pos here, Option.some.injEq]
        constructor
        · intro same
          exact ⟨same, same ▸ here⟩
        · intro same
          exact same.1
      · simp only [if_neg here, Option.some.injEq, reduceCtorEq, false_iff]
        rintro ⟨same, there⟩
        exact here (same ▸ there)

/-- The threads that send are those of the session configured last. -/
structure Current (s : SaturatorServer) : Prop where
  ordered : s.configured ≤ s.session
  started : ∀ t ∈ s.threads, t.session ≤ s.configured
  alive : ∀ t ∈ s.threads, t.Sends → t.point ≠ .ended → t.session = s.configured
  rounds : ∀ t ∈ s.threads, t.Sends → t.point = .sending → t.round ≤ t.session
  isolated : s.Isolated

theorem current_init : Current init := by
  constructor
  · exact Nat.le_refl 0
  all_goals
    intro t member
    cases member

theorem Current.unconfigured {s s' : SaturatorServer} (current : Current s)
    (same : Unconfigured s s') : Current s' := by
  have ordered := same.session
  obtain ⟨below, started, alive, rounds, isolated⟩ := current
  refine ⟨?_, ?_, ?_, ?_, ?_⟩
  · rw [same.configured]
    omega
  · rw [same.threads, same.configured]
    exact started
  · rw [same.threads, same.configured]
    exact alive
  · rw [same.threads]
    exact rounds
  · unfold Isolated
    rw [same.sentData]
    exact isolated

/-- A configuration accepted once the earlier threads have ended. -/
theorem Current.configure {s : SaturatorServer} (current : Current s) (ended : s.EarlierEnded)
    {fields : SaturatorConfigFields} (own : s.currSenderId = fields.senderId) (now : Int)
    (address : Address) : Current (s.handleConfig now address fields) := by
  unfold handleConfig
  rw [if_pos own]
  refine ⟨Nat.le_refl _, ?_, ?_, ?_, current.isolated⟩
  · intro t member
    rcases List.mem_append.mp member with old | new
    · exact (current.started t old).trans current.ordered
    · rw [List.mem_singleton.mp new]
      exact Nat.le_refl s.session
  · intro t member sends lives
    rcases List.mem_append.mp member with old | new
    · have within := (current.started t old).trans current.ordered
      by_contra other
      exact lives (ended t old (lt_of_le_of_ne within other) sends)
    · rw [List.mem_singleton.mp new]
      rfl
  · intro t member sends sending
    rcases List.mem_append.mp member with old | new
    · exact current.rounds t old sends sending
    · rw [List.mem_singleton.mp new] at sending
      unfold startThread at sending
      dsimp only at sending
      split at sending
      · cases sending
      · cases sending

/-- A thread goes on to another point, and if it is to send, in a round of its own session. -/
theorem Current.moveThread {s : SaturatorServer} (current : Current s) {i : Nat}
    {t : SaturatorThread} (found : s.threads[i]? = some t) (lives : t.point ≠ .ended)
    (point : ThreadPoint) (round : Nat)
    (own : t.Sends → point = .sending → round ≤ t.session) :
    Current (s.setThread i { t with point := point, round := round }) := by
  have member : t ∈ s.threads := List.mem_of_getElem? found
  have among : ∀ t' ∈ s.threads.set i { t with point := point, round := round },
      t' ∈ s.threads ∨ t' = { t with point := point, round := round } := by
    intro t' inside
    rcases List.mem_or_eq_of_mem_set inside with old | new
    · exact Or.inl old
    · exact Or.inr new
  refine ⟨current.ordered, ?_, ?_, ?_, current.isolated⟩
  · intro t' inside
    rcases among t' inside with old | new
    · exact current.started t' old
    · rw [new]
      exact current.started t member
  · intro t' inside sends lives'
    rcases among t' inside with old | new
    · exact current.alive t' old sends lives'
    · rw [new] at sends ⊢
      exact current.alive t member sends lives
  · intro t' inside sends sending
    rcases among t' inside with old | new
    · exact current.rounds t' old sends sending
    · rw [new] at sends sending ⊢
      exact own sends sending

/-- A thread that goes anywhere but to send a round keeps the round it was in. -/
theorem Current.leave {s : SaturatorServer} (current : Current s) {i : Nat} {t : SaturatorThread}
    {point next : ThreadPoint} (found : s.threads[i]? = some t) (here : t.point = point)
    (lives : point ≠ .ended) (other : next ≠ .sending) :
    Current (s.setThread i { t with point := next }) := by
  apply current.moveThread found (by rwa [here]) next t.round
  intro _ same
  exact absurd same other

theorem Current.testStop {s s' : SaturatorServer} {i : Nat} (current : Current s)
    (step : Step s (.testStop i) s') : Current s' := by
  obtain ⟨t, at', shape⟩ := Option.map_eq_some_iff.mp step
  obtain ⟨found, head⟩ := threadAt_eq_some.mp at'
  rw [← shape]
  unfold SaturatorServer.testStop
  split
  · exact current.leave found head (by decide) (by decide)
  · have lives : t.point ≠ .ended := by
      rw [head]
      decide
    apply current.moveThread found lives .sending s.configured
    intro sends _
    rw [current.alive t (List.mem_of_getElem? found) sends lives]

theorem Current.sendRound {s s' : SaturatorServer} {i : Nat} (current : Current s)
    (step : Step s (.sendRound i) s') : Current s' := by
  obtain ⟨t, at', shape⟩ := Option.map_eq_some_iff.mp step
  obtain ⟨found, sending⟩ := threadAt_eq_some.mp at'
  rw [← shape]
  unfold SaturatorServer.sendRound
  split
  · exact current.leave found sending (by decide) (by decide)
  · rename_i creates
    have moved : Current (s.setThread i { t with point := .inactivity }) :=
      current.leave found sending (by decide) (by decide)
    refine ⟨moved.ordered, moved.started, moved.alive, moved.rounds, ?_⟩
    intro p member
    rcases List.mem_append.mp member with old | new
    · exact current.isolated p old
    · obtain ⟨k, inside, same⟩ := List.mem_map.mp new
      have some' : 0 < t.batches.sum := by
        have below := List.mem_range.mp inside
        omega
      have sends : t.Sends := ⟨some', by_contra fun fails => creates ⟨some', fails⟩⟩
      rw [← same]
      exact current.rounds t (List.mem_of_getElem? found) sends sending

theorem Current.testInactivity {s s' : SaturatorServer} {i : Nat} {now : Int} (current : Current s)
    (step : Step s (.testInactivity i now) s') : Current s' := by
  obtain ⟨t, at', shape⟩ := Option.map_eq_some_iff.mp step
  obtain ⟨found, waiting⟩ := threadAt_eq_some.mp at'
  rw [← shape]
  unfold SaturatorServer.testInactivity
  split
  · exact current.leave found waiting (by decide) (by decide)
  · exact current.leave found waiting (by decide) (by decide)

theorem Current.step {s s' : SaturatorServer} {event : Event} (current : Current s)
    (step : EndedStep s event s') : Current s' := by
  obtain ⟨step, guard⟩ := step
  cases event with
  | receive now address datagram =>
      rcases exec_receive_cases step with same | ⟨configures, fields, own, shape⟩
      · exact current.unconfigured same
      · rw [shape]
        exact current.configure (guard configures) own now address
  | testStop i => exact current.testStop step
  | sendRound i => exact current.sendRound step
  | testInactivity i now => exact current.testInactivity step

/-- A thread of an earlier session that sends, while `stop_sending` is not set. -/
structure Leftover (i : Nat) (t : SaturatorThread) (s : SaturatorServer) : Prop where
  found : s.threads[i]? = some t
  sends : t.Sends
  earlier : t.session < s.configured
  stopSending : s.stopSending = false

theorem Leftover.set {i : Nat} {t : SaturatorThread} {s : SaturatorServer}
    (leftover : Leftover i t s) (point : ThreadPoint) (round : Nat) :
    Leftover i { t with point := point, round := round }
      (s.setThread i { t with point := point, round := round }) := by
  obtain ⟨inside, _⟩ := List.getElem?_eq_some_iff.mp leftover.found
  exact ⟨List.getElem?_set_self inside, leftover.sends, leftover.earlier, leftover.stopSending⟩

theorem sendRound_sends {i : Nat} {t : SaturatorThread} {s : SaturatorServer} (sends : t.Sends) :
    s.sendRound i t =
      { s.setThread i { t with point := .inactivity } with
        sentData := s.sentData ++ t.roundPackets s.currSeqNum
        currSeqNum := s.currSeqNum + t.batches.sum } := by
  unfold sendRound
  rw [if_neg (fun fails => fails.2 sends.2)]

theorem step_sendRound {i : Nat} {t : SaturatorThread} {s : SaturatorServer}
    (found : s.threads[i]? = some t) (sending : t.point = .sending) :
    Step s (.sendRound i) (s.sendRound i t) :=
  congrArg (Option.map _) (threadAt_eq_some.mpr ⟨found, sending⟩)

/-- In its next round such a thread sends. -/
theorem Leftover.of_head {i : Nat} {t : SaturatorThread} {s : SaturatorServer}
    (leftover : Leftover i t s) (head : t.point = .head) :
    ∃ later s', Run Step s later s' ∧ ¬ s'.Isolated := by
  have passes : Step s (.testStop i)
      (s.setThread i { t with point := .sending, round := s.configured }) := by
    have at' : s.threadAt i .head = some t := threadAt_eq_some.mpr ⟨leftover.found, head⟩
    unfold Step exec
    simp only [at', Option.map_some, SaturatorServer.testStop, leftover.stopSending,
      Bool.false_eq_true, if_false]
  have after := leftover.set .sending s.configured
  have sends := sendRound_sends (i := i)
    (s := s.setThread i { t with point := .sending, round := s.configured }) after.sends
  have round := step_sendRound after.found rfl
  refine ⟨[.testStop i, .sendRound i], _, (Run.single passes).append (Run.single round), ?_⟩
  rw [sends]
  intro isolated
  have below := isolated ⟨t.senderId, s.currSeqNum + (0 : Nat), t.address, t.session,
    s.configured⟩ (by
    apply List.mem_append_right
    exact List.mem_map.mpr ⟨0, List.mem_range.mpr leftover.sends.1, rfl⟩)
  have earlier := leftover.earlier
  dsimp only at below
  omega

/-- It gets there from the test of inactivity, -/
theorem Leftover.of_inactivity {i : Nat} {t : SaturatorThread} {s : SaturatorServer}
    (leftover : Leftover i t s) (waiting : t.point = .inactivity) :
    ∃ later s', Run Step s later s' ∧ ¬ s'.Isolated := by
  have passes : Step s (.testInactivity i s.lastRecvClientPacket)
      (s.setThread i { t with point := .head }) := by
    have at' : s.threadAt i .inactivity = some t := threadAt_eq_some.mpr ⟨leftover.found, waiting⟩
    have recent : ¬ (3 * 10 ^ 9 : Int) < s.lastRecvClientPacket - s.lastRecvClientPacket := by
      rw [Int.sub_self]
      decide
    unfold Step exec
    simp only [at', Option.map_some, SaturatorServer.testInactivity, if_neg recent]
  obtain ⟨later, s', run, late⟩ := (leftover.set .head t.round).of_head rfl
  exact ⟨_, s', (Run.single passes).append run, late⟩

/-- and there from the round it is in. -/
theorem Leftover.of_sending {i : Nat} {t : SaturatorThread} {s : SaturatorServer}
    (leftover : Leftover i t s) (sending : t.point = .sending) :
    ∃ later s', Run Step s later s' ∧ ¬ s'.Isolated := by
  have round := step_sendRound leftover.found sending
  rw [sendRound_sends leftover.sends] at round
  have moved := leftover.set .inactivity t.round
  obtain ⟨later, s', run, late⟩ := Leftover.of_inactivity (t := { t with point := .inactivity })
    (s := { s.setThread i { t with point := .inactivity } with
      sentData := s.sentData ++ t.roundPackets s.currSeqNum
      currSeqNum := s.currSeqNum + t.batches.sum })
    ⟨moved.found, moved.sends, moved.earlier, moved.stopSending⟩ rfl
  exact ⟨_, s', (Run.single round).append run, late⟩

/-- A thread of an earlier session that has not ended when a configuration is accepted goes on
sending in some continuation of the run. -/
theorem not_isolated_of_leftover {s s' : SaturatorServer} {event : Event}
    (step : Step s event s') (configures : s.Configures event) (alive : ¬ s.EarlierEnded) :
    ∃ later s'', Run Step s' later s'' ∧ ¬ s''.Isolated := by
  unfold EarlierEnded at alive
  push Not at alive
  obtain ⟨t, member, earlier, sends, lives⟩ := alive
  obtain ⟨i, found⟩ := List.getElem?_of_mem member
  obtain ⟨inside, _⟩ := List.getElem?_eq_some_iff.mp found
  cases event with
  | receive now address datagram =>
      obtain ⟨fields, shape, own⟩ := configures
      have returned : (s.handle now address (dispatch (DynamicServer.recvfrom datagram))).toOption =
        some s' := step
      rw [shape] at returned
      have same : s.handleConfig now address fields = s' := Option.some.inj returned
      have leftover : Leftover i t s' := by
        rw [← same]
        unfold handleConfig
        rw [if_pos own]
        refine ⟨?_, sends, earlier, rfl⟩
        show (s.threads ++ [_])[i]? = some t
        rw [List.getElem?_append_left inside]
        exact found
      cases point : t.point with
      | head => exact leftover.of_head point
      | sending => exact leftover.of_sending point
      | inactivity => exact leftover.of_inactivity point
      | ended => exact absurd point lives
  | testStop i => exact absurd configures id
  | sendRound i => exact absurd configures id
  | testInactivity i now => exact absurd configures id

/-- In a run in which each configuration is accepted only once the sender threads of the earlier
sessions have ended, the sessions are isolated; and where one is accepted earlier, some
continuation of the run isolates them no more. -/
theorem sessions_isolated (events : List Event) (s : SaturatorServer)
    (run : Run EndedStep init events s) :
    s.Isolated ∧ ∀ event s', Step s event s' → s.Configures event → ¬ s.EarlierEnded →
      ∃ later s'', Run Step s' later s'' ∧ ¬ s''.Isolated := by
  have kept : Current s :=
    run.invariant (fun _ _ _ current step => current.step step) current_init
  refine ⟨kept.isolated, ?_⟩
  intro event s' step configures alive
  exact not_isolated_of_leftover step configures alive

/-- A datagram of a client, by the values of its fields. -/
def datagram (now : Int) (fields : List Nat) : Event :=
  .receive now ⟨"10.0.0.2".toList, 4000⟩ (BigEndian.record 8 fields)

/-- Client 7 ends its session while its thread sends a round, and client 9 begins one. -/
def nextClient : List Event :=
  [datagram 1 [7, 100, 0], datagram 2 [7, 1, 1, 1500], .testStop 0, datagram 3 [7, 200, 0],
    datagram 4 [9, 100, 0], datagram 5 [9, 1, 1, 1500], .sendRound 0, .testInactivity 0 6,
    .testStop 0, .sendRound 0]

/-- The thread of client 7 finds `stop_sending` cleared, and goes on sending. -/
theorem not_sessions_isolated : ∃ s, Run Step init nextClient s ∧ ¬ s.Isolated := by
  have observed : (execAll exec (fun _ _ => True) nextClient init).map (fun s =>
      s.sentData.any (fun p => decide (p.session < p.round))) = some true := by decide +kernel
  obtain ⟨s, returned, late⟩ := Option.map_eq_some_iff.mp observed
  refine ⟨s, (run_of_execAll returned).mono (fun _ _ _ step => step.1), ?_⟩
  intro isolated
  obtain ⟨p, member, after⟩ := List.any_eq_true.mp late
  have before := isolated p member
  have after := of_decide_eq_true after
  omega

/-- Client 9 begins its session once the thread of client 7 has found `stop_sending` set. -/
def threadEnded : List Event :=
  [datagram 1 [7, 100, 0], datagram 2 [7, 1, 1, 1500], .testStop 0, datagram 3 [7, 200, 0],
    .sendRound 0, .testInactivity 0 4, .testStop 0, datagram 5 [9, 100, 0],
    datagram 6 [9, 1, 1, 1500], .testStop 1, .sendRound 1]

theorem sessions_isolated_threadEnded : ∃ s, Run EndedStep init threadEnded s ∧
    s.sentData.map (fun p => p.senderId) = List.replicate 83 7 ++ List.replicate 83 9 ∧
    s.Isolated := by
  have observed : (execAll exec (fun s _ => s.EarlierEnded) threadEnded init).map (fun s =>
      s.sentData.map (fun p => p.senderId)) =
        some (List.replicate 83 7 ++ List.replicate 83 9) := by decide +kernel
  obtain ⟨s, returned, senders⟩ := Option.map_eq_some_iff.mp observed
  have run : Run EndedStep init threadEnded s :=
    (run_of_execAll returned).mono (fun _ _ _ step => ⟨step.1, fun _ => step.2⟩)
  exact ⟨s, run, senders, (sessions_isolated threadEnded s run).1⟩

end SaturatorServer

end CellReplay
