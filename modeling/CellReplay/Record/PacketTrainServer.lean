import CellReplay.Lib.PastTime
import CellReplay.Record.ServerSession

set_option autoImplicit false

namespace CellReplay

open FueledLoop PastTime

/-- What `parse_config_packet` of the packet-train server returns. -/
structure TrainConfigFields where
  senderId : Int
  uploadGapMs : Int
  downloadGapMs : Int
  uploadNumPackets : Int
  downloadNumPackets : Int
  packetSize : Int
  deriving DecidableEq, Repr

/-- What `parse_packet` of the packet-train server returns. -/
structure TrainPacketFields where
  seqNum : Int
  sentTimestamp : Int
  recvTimestamp : Int
  senderId : Int
  trainNum : Int
  pktInfo : Int
  deriving DecidableEq, Repr

/-- The branch a message takes in `main`, with what its parser returns, and the length of the
message. -/
inductive TrainMessage where
  | control (fields : ControlFields)
  | config (fields : TrainConfigFields)
  | data (fields : TrainPacketFields) (length : Nat)
  deriving DecidableEq, Repr

def TrainMessage.senderId : TrainMessage → Int
  | .control fields => fields.senderId
  | .config fields => fields.senderId
  | .data fields _ => fields.senderId

/-- A line of a packet log. -/
inductive LogLine where
  | config (senderId gapMs upNum downNum size : Int)
  | columns
  | packet (trainNum seqNum sendTimestamp recvTimestamp senderId : Int) (packetSize : Nat)
  deriving DecidableEq, Repr

/-- A sender thread: its arguments, and whether it was started. -/
structure SendThread where
  senderId : Int
  address : Address
  gapMs : Int
  numPackets : Int
  packetSize : Int
  started : Bool
  deriving DecidableEq, Repr

/-- `send_thread.start()`. -/
def SendThread.start : Option SendThread → Except Fault SendThread
  | none => .error (.runtimeError "'NoneType' object has no attribute 'start'")
  | some thread =>
      if thread.started then .error (.runtimeError "threads can only be started once")
      else .ok { thread with started := true }

/-- The variables of `main` and the globals it uses, and the packets it sent. -/
structure PacketTrainServer where
  currSenderId : Int
  currUploadGapMs : Int
  currDownloadGapMs : Int
  currUploadNumPackets : Int
  currDownloadNumPackets : Int
  currPacketSize : Int
  currTrainInitialSent : Int
  currTrainNum : Int
  sendThread : Option SendThread
  startRecvTime : Int
  logTime : Int
  countPacket : Int
  throughputs : List ℚ
  currLogTimestamp : Int
  logFile : Option (LogFile LogLine)
  expId : Int
  stopSending : Bool
  sleepEvent : Bool
  lastRecvClientPacket : Int
  sent : List (Address × Reply)
  deriving DecidableEq, Repr

namespace PacketTrainServer

def payloadPktInfoStart : Int := 1
def payloadPktInfoEnd : Int := 2
def logMs : Int := 1000

def parsePacket (packet : Bytes) : TrainPacketFields where
  seqNum := DynamicServer.intFromBytes packet 0 8
  sentTimestamp := DynamicServer.intFromBytes packet 8 16
  recvTimestamp := DynamicServer.intFromBytes packet 16 24
  senderId := DynamicServer.intFromBytes packet 24 32
  trainNum := DynamicServer.intFromBytes packet 32 40
  pktInfo := DynamicServer.intFromBytes packet 40 48

def parseConfigPacket (packet : Bytes) : TrainConfigFields where
  senderId := DynamicServer.intFromBytes packet 0 8
  uploadGapMs := DynamicServer.intFromBytes packet 8 16
  downloadGapMs := DynamicServer.intFromBytes packet 16 24
  uploadNumPackets := DynamicServer.intFromBytes packet 24 32
  downloadNumPackets := DynamicServer.intFromBytes packet 32 40
  packetSize := DynamicServer.intFromBytes packet 40 48

def isConfigPacket (packet : Bytes) : Bool := packet.length == 8 * 6

/-- The branches of `main`, with the parser at the start of each. -/
def dispatch (message : Bytes) : TrainMessage :=
  if DynamicServer.isControlPacket message then .control (DynamicServer.parseControlPacket message)
  else if isConfigPacket message then .config (parseConfigPacket message)
  else .data (parsePacket message) message.length

/-- The server before its first datagram. -/
def init : PacketTrainServer where
  currSenderId := 0
  currUploadGapMs := 0
  currDownloadGapMs := 0
  currUploadNumPackets := 0
  currDownloadNumPackets := 0
  currPacketSize := 0
  currTrainInitialSent := 0
  currTrainNum := 0
  sendThread := none
  startRecvTime := 0
  logTime := 0
  countPacket := 0
  throughputs := []
  currLogTimestamp := 0
  logFile := none
  expId := 0
  stopSending := false
  sleepEvent := false
  lastRecvClientPacket := 0
  sent := []

/-- The variables that both SYN and FIN reset. -/
def reset (s : PacketTrainServer) : PacketTrainServer :=
  { s with
    currSenderId := 0
    currUploadGapMs := 0
    currDownloadGapMs := 0
    currUploadNumPackets := 0
    currDownloadNumPackets := 0
    currPacketSize := 0
    currTrainInitialSent := 0
    startRecvTime := 0
    logTime := 0
    countPacket := 0
    stopSending := true }

def handleSyn (address : Address) (senderId : Int) (s : PacketTrainServer) : PacketTrainServer :=
  { s.reset with
    sent := s.sent ++ [(address, .control senderId controlSynAck)]
    throughputs := []
    currLogTimestamp := 0
    currSenderId := senderId
    logFile := s.logFile.map LogFile.close }

def handleFin (s : PacketTrainServer) : PacketTrainServer := { s.reset with sleepEvent := true }

def handleControl (address : Address) (fields : ControlFields) (s : PacketTrainServer) :
    PacketTrainServer :=
  let s := { s with expId := fields.expId }
  if fields.content = controlSyn then s.handleSyn address fields.senderId
  else if fields.content = controlFin then s.handleFin
  else s

/-- The log file as it is opened for a session. -/
def openLog (fields : TrainConfigFields) : LogFile LogLine :=
  ⟨[.config fields.senderId fields.uploadGapMs fields.uploadNumPackets fields.downloadNumPackets
      fields.packetSize, .columns], false⟩

def handleConfig (now : Int) (address : Address) (fields : TrainConfigFields)
    (s : PacketTrainServer) : PacketTrainServer :=
  if s.currSenderId = fields.senderId then
    { s with
      currUploadGapMs := fields.uploadGapMs
      currDownloadGapMs := fields.downloadGapMs
      currUploadNumPackets := fields.uploadNumPackets
      currDownloadNumPackets := fields.downloadNumPackets
      currPacketSize := fields.packetSize
      logFile := some (openLog fields)
      sent := s.sent ++ [(address, .control fields.senderId controlConfigAck)]
      lastRecvClientPacket := now
      sendThread := some ⟨s.currSenderId, address, fields.downloadGapMs, fields.downloadNumPackets,
        fields.packetSize, false⟩ }
  else s

/-- The start of a train: let the sender thread send one. -/
def handleStart (now : Int) (fields : TrainPacketFields) (s : PacketTrainServer) :
    Except Fault PacketTrainServer :=
  let s := { s with
    countPacket := 0
    startRecvTime := now
    currTrainNum := fields.trainNum
    currTrainInitialSent := fields.sentTimestamp }
  if s.stopSending then do
    let thread ← SendThread.start s.sendThread
    return { s with stopSending := false, sendThread := some thread }
  else .ok { s with sleepEvent := true }

/-- The bandwidth of a train in Mbps, over its duration in ns. -/
def bandwidthMbps (amountOfTraffic sendingDuration : Int) : Except Fault ℚ :=
  if sendingDuration = 0 then .error (.runtimeError "float division by zero")
  else .ok ((amountOfTraffic * 8 : ℚ) / ((sendingDuration : ℚ) / 10 ^ 9) / 10 ^ 6)

def handleEnd (now : Int) (fields : TrainPacketFields) (s : PacketTrainServer) :
    Except Fault PacketTrainServer :=
  if fields.trainNum = s.currTrainNum ∧ 0 < s.startRecvTime then do
    let bandwidth ← bandwidthMbps (s.countPacket * s.currPacketSize) (now - s.startRecvTime)
    return { s with
      throughputs := s.throughputs ++ [bandwidth]
      countPacket := 0
      startRecvTime := 0 }
  else .ok s

/-- What a data packet of the client of the session does. -/
def handleTrain (now : Int) (fields : TrainPacketFields) (s : PacketTrainServer) :
    Except Fault PacketTrainServer :=
  if fields.senderId = s.currSenderId then
    if fields.pktInfo = payloadPktInfoStart then s.handleStart now fields
    else if fields.pktInfo = payloadPktInfoEnd then s.handleEnd now fields
    else .ok { s with countPacket := s.countPacket + 1 }
  else .ok s

/-- Once a second, tell the client the mean throughput. -/
def logThroughput (now : Int) (address : Address) (senderId : Int) (s : PacketTrainServer) :
    PacketTrainServer :=
  let s := if s.currLogTimestamp = 0 then { s with currLogTimestamp := now } else s
  if logMs * 10 ^ 6 ≤ now - s.currLogTimestamp ∧ s.throughputs ≠ [] then
    let avgThroughput := s.throughputs.sum / s.throughputs.length
    { s with
      sent := s.sent ++ [(address, .info senderId s.logTime avgThroughput)]
      throughputs := []
      logTime := s.logTime + 1
      currLogTimestamp := now }
  else s

def handleData (now : Int) (address : Address) (fields : TrainPacketFields) (length : Nat)
    (s : PacketTrainServer) : Except Fault PacketTrainServer := do
  let logFile ← LogFile.write
    (.packet fields.trainNum fields.seqNum fields.sentTimestamp now fields.senderId length)
    s.logFile
  let s ← { s with logFile := some logFile }.handleTrain now fields
  return { s.logThroughput now address fields.senderId with lastRecvClientPacket := now }

/-- What `main` does with one message, which it handles at one clock reading. -/
def handle (now : Int) (address : Address) (message : TrainMessage) (s : PacketTrainServer) :
    Except Fault PacketTrainServer :=
  match message with
  | .control fields => .ok (s.handleControl address fields)
  | .config fields => .ok (s.handleConfig now address fields)
  | .data fields length => s.handleData now address fields length

end PacketTrainServer

namespace TrainMessage

open PacketTrainServer

def IsSyn : TrainMessage → Prop
  | .control fields => fields.content = controlSyn
  | _ => False

def IsFin : TrainMessage → Prop
  | .control fields => fields.content = controlFin
  | _ => False

def IsConfig : TrainMessage → Prop
  | .config _ => True
  | _ => False

def IsData : TrainMessage → Prop
  | .data _ _ => True
  | _ => False

/-- The first packet of a train. -/
def IsStart (train : Int) : TrainMessage → Prop
  | .data fields _ => fields.pktInfo = payloadPktInfoStart ∧ fields.trainNum = train
  | _ => False

/-- The last packet of a train. -/
def IsEnd (train : Int) : TrainMessage → Prop
  | .data fields _ => fields.pktInfo = payloadPktInfoEnd ∧ fields.trainNum = train
  | _ => False

attribute [simp] senderId IsSyn IsFin IsConfig IsData IsStart IsEnd

end TrainMessage

namespace PacketTrainServer

/-- A datagram as it arrives: where it is from, and the clock reading at which it is handled. -/
structure Arrival where
  now : Int
  address : Address
  datagram : Bytes

/-- The message that `recvfrom` gives of it. -/
def Arrival.message (a : Arrival) : TrainMessage := dispatch (DynamicServer.recvfrom a.datagram)

/-- The loop of `main` over the datagrams that arrive. -/
def run (arrivals : List Arrival) (s : PacketTrainServer) : Except Fault PacketTrainServer :=
  arrivals.foldlM (fun s a => s.handle a.now a.address a.message) s

/-- The last SYN is from `x`, and there was no FIN since. -/
def InSession (x : Int) : List Arrival → Prop :=
  Since (fun _ a => a.message.IsSyn ∧ a.message.senderId = x)
    (fun a => a.message.IsSyn ∨ a.message.IsFin)

/-- Since the last SYN there was a configuration from its sender, and no FIN before it. -/
def Recording : List Arrival → Prop :=
  Since (fun before a => a.message.IsConfig ∧ InSession a.message.senderId before)
    (fun a => a.message.IsSyn)

/-- The last train of the client of the session started at `time`, and has not ended. -/
def Measuring (x train time : Int) : List Arrival → Prop :=
  Since (fun before a => a.now = time ∧ a.message.IsStart train ∧ a.message.senderId = x ∧
      InSession x before)
    (fun a => a.message.IsSyn ∨ a.message.IsFin ∨
      a.message.senderId = x ∧ (a.message.IsEnd train ∨ ∃ other, a.message.IsStart other))

/-- A data packet finds a session configured, and is not the end of a train at the very clock
reading of its start. -/
def Expected (before : List Arrival) (a : Arrival) : Prop :=
  a.message.IsData → Recording before ∧ ∀ train, a.message.IsEnd train → 0 < a.now →
    ¬ Measuring a.message.senderId train a.now before

/-- The variables that decide whether a datagram can be handled are the same. -/
structure SameSession (s s' : PacketTrainServer) : Prop where
  currSenderId : s'.currSenderId = s.currSenderId
  currTrainNum : s'.currTrainNum = s.currTrainNum
  startRecvTime : s'.startRecvTime = s.startRecvTime
  sendThread : s'.sendThread = s.sendThread
  stopSending : s'.stopSending = s.stopSending
  logFile : s'.logFile = s.logFile

theorem logThroughput_same (now : Int) (address : Address) (senderId : Int)
    (s : PacketTrainServer) :
    SameSession s (s.logThroughput now address senderId) := by
  unfold logThroughput
  extract_lets counted
  have same : SameSession s counted := by
    unfold counted
    split
    · exact ⟨rfl, rfl, rfl, rfl, rfl, rfl⟩
    · exact ⟨rfl, rfl, rfl, rfl, rfl, rfl⟩
  split
  · exact ⟨same.currSenderId, same.currTrainNum, same.startRecvTime, same.sendThread,
      same.stopSending, same.logFile⟩
  · exact same

/-- A packet that starts a train of the client of the session. -/
def Starts (fields : TrainPacketFields) (s : PacketTrainServer) : Prop :=
  fields.senderId = s.currSenderId ∧ fields.pktInfo = payloadPktInfoStart

/-- A packet that ends the train in progress. -/
def Ends (fields : TrainPacketFields) (s : PacketTrainServer) : Prop :=
  fields.senderId = s.currSenderId ∧ fields.pktInfo = payloadPktInfoEnd ∧
    fields.trainNum = s.currTrainNum ∧ 0 < s.startRecvTime

/-- What the start of a train leaves. -/
structure Started (now : Int) (fields : TrainPacketFields) (s s' : PacketTrainServer) : Prop where
  currSenderId : s'.currSenderId = s.currSenderId
  currTrainNum : s'.currTrainNum = fields.trainNum
  startRecvTime : s'.startRecvTime = now
  sendThread : ∀ thread, s.sendThread = some thread → ∃ thread', s'.sendThread = some thread'
  stopSending : s'.stopSending = false
  logFile : s'.logFile = s.logFile

theorem handleStart_started {now : Int} {fields : TrainPacketFields} {s s' : PacketTrainServer}
    (run : s.handleStart now fields = .ok s') : Started now fields s s' := by
  unfold handleStart at run
  dsimp only at run
  split at run
  · obtain ⟨thread, _, returned⟩ := bind_eq_ok.mp run
    rw [← Except.ok.inj returned]
    exact ⟨rfl, rfl, rfl, fun _ _ => ⟨thread, rfl⟩, rfl, rfl⟩
  · rename_i sending
    rw [← Except.ok.inj run]
    exact ⟨rfl, rfl, rfl, fun thread shape => ⟨thread, shape⟩, by simpa using sending, rfl⟩

/-- What the end of the train in progress leaves. -/
structure Ended (s s' : PacketTrainServer) : Prop where
  currSenderId : s'.currSenderId = s.currSenderId
  startRecvTime : s'.startRecvTime = 0
  sendThread : s'.sendThread = s.sendThread
  stopSending : s'.stopSending = s.stopSending
  logFile : s'.logFile = s.logFile

/-- The inversion of `handleTrain`. -/
theorem handleTrain_cases {now : Int} {fields : TrainPacketFields} {s s' : PacketTrainServer}
    (run : s.handleTrain now fields = .ok s') :
    Starts fields s ∧ Started now fields s s' ∨ Ends fields s ∧ Ended s s' ∨
      ¬ Starts fields s ∧ ¬ Ends fields s ∧ SameSession s s' := by
  unfold handleTrain at run
  by_cases own : fields.senderId = s.currSenderId
  · rw [if_pos own] at run
    by_cases start : fields.pktInfo = payloadPktInfoStart
    · rw [if_pos start] at run
      exact Or.inl ⟨⟨own, start⟩, handleStart_started run⟩
    · rw [if_neg start] at run
      by_cases tail : fields.pktInfo = payloadPktInfoEnd
      · rw [if_pos tail] at run
        unfold handleEnd at run
        by_cases running : fields.trainNum = s.currTrainNum ∧ 0 < s.startRecvTime
        · rw [if_pos running] at run
          obtain ⟨bandwidth, _, returned⟩ := bind_eq_ok.mp run
          rw [← Except.ok.inj returned]
          exact Or.inr (Or.inl ⟨⟨own, tail, running⟩, rfl, rfl, rfl, rfl, rfl⟩)
        · rw [if_neg running] at run
          rw [← Except.ok.inj run]
          exact Or.inr (Or.inr ⟨fun starts => start starts.2, fun ends => running ends.2.2,
            rfl, rfl, rfl, rfl, rfl, rfl⟩)
      · rw [if_neg tail] at run
        rw [← Except.ok.inj run]
        exact Or.inr (Or.inr ⟨fun starts => start starts.2, fun ends => tail ends.2.1,
          rfl, rfl, rfl, rfl, rfl, rfl⟩)
  · rw [if_neg own] at run
    rw [← Except.ok.inj run]
    exact Or.inr (Or.inr ⟨fun starts => own starts.1, fun ends => own ends.1,
      rfl, rfl, rfl, rfl, rfl, rfl⟩)

/-- With a thread that can be started, only a train without duration cannot be handled. -/
theorem handleTrain_returns {now : Int} {fields : TrainPacketFields} {s : PacketTrainServer}
    (thread : fields.senderId = s.currSenderId → s.stopSending = true →
      ∃ thread, s.sendThread = some thread ∧ thread.started = false)
    (lasting : Ends fields s → now ≠ s.startRecvTime) :
    ∃ s', s.handleTrain now fields = .ok s' := by
  unfold handleTrain
  split
  · rename_i own
    split
    · unfold handleStart
      dsimp only
      split
      · rename_i stopped
        obtain ⟨thread, shape, fresh⟩ := thread own stopped
        have starts : SendThread.start s.sendThread = .ok { thread with started := true } := by
          rw [shape]
          unfold SendThread.start
          simp only [fresh, Bool.false_eq_true, if_false]
        rw [starts]
        exact ⟨_, rfl⟩
      · exact ⟨_, rfl⟩
    · split
      · rename_i tail
        unfold handleEnd
        split
        · rename_i running
          have apart : now - s.startRecvTime ≠ 0 := by
            have distinct := lasting ⟨own, tail, running⟩
            omega
          unfold bandwidthMbps
          rw [if_neg apart]
          exact ⟨_, rfl⟩
        · exact ⟨_, rfl⟩
      · exact ⟨_, rfl⟩
  · exact ⟨_, rfl⟩

/-- A train without duration cannot be handled. -/
theorem handleTrain_raises {fields : TrainPacketFields} {s s' : PacketTrainServer}
    (ends : Ends fields s) : s.handleTrain s.startRecvTime fields ≠ .ok s' := by
  obtain ⟨own, tail, running⟩ := ends
  have notStart : fields.pktInfo ≠ payloadPktInfoStart := by
    rw [tail]
    decide
  unfold handleTrain
  rw [if_pos own, if_neg notStart, if_pos tail]
  unfold handleEnd bandwidthMbps
  rw [if_pos running, Int.sub_self, if_pos rfl]
  intro returned
  cases returned

theorem handleData_cases {now : Int} {address : Address} {fields : TrainPacketFields} {length : Nat}
    {s s' : PacketTrainServer} (run : s.handleData now address fields length = .ok s') :
    ∃ file file' mid, s.logFile = some file ∧ file.closed = false ∧ file'.closed = false ∧
      file'.lines = file.lines ++ [.packet fields.trainNum fields.seqNum fields.sentTimestamp now
        fields.senderId length] ∧
      { s with logFile := some file' }.handleTrain now fields = .ok mid ∧ SameSession mid s' := by
  obtain ⟨file', written, run⟩ := bind_eq_ok.mp run
  obtain ⟨mid, trained, returned⟩ := bind_eq_ok.mp run
  have same := logThroughput_same now address fields.senderId mid
  rw [← Except.ok.inj returned]
  cases opened : s.logFile with
  | none =>
      rw [opened] at written
      cases written
  | some file =>
      rw [opened] at written
      unfold LogFile.write at written
      dsimp only at written
      split at written
      · cases written
      · rename_i open'
        have closed : file.closed = false := by simpa using open'
        refine ⟨file, file', mid, rfl, closed, ?_, ?_, trained, ?_⟩
        · rw [← Except.ok.inj written]
          exact closed
        · rw [← Except.ok.inj written]
        · exact ⟨same.currSenderId, same.currTrainNum, same.startRecvTime, same.sendThread,
            same.stopSending, same.logFile⟩

theorem handleData_returns {now : Int} {address : Address} {fields : TrainPacketFields}
    {length : Nat} {s : PacketTrainServer} {file : LogFile LogLine} (opened : s.logFile = some file)
    (open' : file.closed = false)
    (trained : ∀ file', ∃ mid, { s with logFile := some file' }.handleTrain now fields = .ok mid) :
    ∃ s', s.handleData now address fields length = .ok s' := by
  obtain ⟨file', written⟩ : ∃ file', LogFile.write (.packet fields.trainNum fields.seqNum
      fields.sentTimestamp now fields.senderId length) s.logFile = .ok file' := by
    rw [opened]
    unfold LogFile.write
    simp only [open', Bool.false_eq_true, if_false]
    exact ⟨_, rfl⟩
  obtain ⟨mid, trained⟩ := trained file'
  unfold handleData
  simp only [written, trained, bind, Except.bind]
  exact ⟨_, rfl⟩

/-- How the variables of the server reflect the datagrams so far. -/
structure Tracks (before : List Arrival) (s : PacketTrainServer) : Prop where
  session : ∀ x, x ≠ 0 → (s.currSenderId = x ↔ InSession x before)
  recording : (∃ file, s.logFile = some file ∧ file.closed = false) ↔ Recording before
  measuring : ∀ x train time, x ≠ 0 → 0 < time → s.currSenderId = x →
    (s.startRecvTime = time ∧ s.currTrainNum = train ↔ Measuring x train time before)
  thread : ∀ file, s.logFile = some file → file.closed = false →
    ∃ thread, s.sendThread = some thread ∧
      (s.currSenderId ≠ 0 → s.stopSending = true → thread.started = false)

theorem tracks_init : Tracks [] init := by
  refine ⟨?_, ?_, ?_, ?_⟩
  · intro x client
    exact iff_of_false (fun same => client same.symm) not_since_nil
  · exact iff_of_false (by rintro ⟨file, shape, _⟩; cases shape) not_since_nil
  · intro x train time _ positive _
    refine iff_of_false ?_ not_since_nil
    rintro ⟨same, _⟩
    exact absurd positive (by rw [← same]; decide)
  · intro file shape
    cases shape

section
variable {before : List Arrival} {a : Arrival} {s : PacketTrainServer}

theorem Tracks.syn {fields : ControlFields} (shape : a.message = .control fields)
    (content : fields.content = controlSyn) (address : Address) :
    Tracks (before ++ [a])
      ({ s with expId := fields.expId }.handleSyn address fields.senderId) := by
  have begins : a.message.IsSyn := by simp [shape, content]
  have sender : a.message.senderId = fields.senderId := by simp [shape]
  have closed : ∀ file, ({ s with expId := fields.expId }.handleSyn address
      fields.senderId).logFile = some file → file.closed = true := by
    intro file opened
    obtain ⟨old, _, same⟩ := Option.map_eq_some_iff.mp opened
    rw [← same]
    rfl
  refine ⟨?_, ?_, ?_, ?_⟩
  · intro x _
    rw [InSession, since_snoc, sender]
    show fields.senderId = x ↔ _
    constructor
    · intro same
      exact Or.inl ⟨begins, same⟩
    · intro either
      rcases either with ⟨_, same⟩ | ⟨_, free⟩
      · exact same
      · exact absurd (Or.inl begins) free
  · rw [Recording, since_snoc]
    constructor
    · rintro ⟨file, opened, open'⟩
      rw [closed file opened] at open'
      cases open'
    · rintro (⟨config, _⟩ | ⟨_, free⟩)
      · simp [shape] at config
      · exact absurd begins free
  · intro x train time _ positive _
    rw [Measuring, since_snoc]
    constructor
    · rintro ⟨same, _⟩
      exact absurd positive (by rw [← same]; exact lt_irrefl 0)
    · rintro (⟨_, start, _⟩ | ⟨_, free⟩)
      · simp [shape] at start
      · exact absurd (Or.inl begins) free
  · intro file opened open'
    rw [closed file opened] at open'
    cases open'

theorem Tracks.fin (tracks : Tracks before s) {fields : ControlFields}
    (shape : a.message = .control fields) (content : fields.content = controlFin) :
    Tracks (before ++ [a]) { s with expId := fields.expId }.handleFin := by
  have ends : a.message.IsFin := by simp [shape, content]
  have notSyn : ¬ a.message.IsSyn := by simp [shape, content, controlSyn, controlFin]
  have notConfig : ¬ a.message.IsConfig := by simp [shape]
  refine ⟨?_, ?_, ?_, ?_⟩
  · intro x client
    rw [InSession, since_snoc]
    refine iff_of_false (fun same => client same.symm) ?_
    rintro (⟨begins, _⟩ | ⟨_, free⟩)
    · exact notSyn begins
    · exact free (Or.inr ends)
  · rw [Recording, since_snoc]
    simp only [notConfig, notSyn, false_and, false_or, not_false_eq_true, and_true]
    exact tracks.recording
  · intro x train time client _ same
    exact absurd same.symm client
  · intro file opened open'
    obtain ⟨thread, made, _⟩ := tracks.thread file opened open'
    exact ⟨thread, made, fun client => absurd rfl client⟩

/-- Neither a control packet of another kind nor a configuration concerns the trains. -/
theorem measuring_snoc_of_not_data {x train time : Int} (notData : ¬ a.message.IsData)
    (notSyn : ¬ a.message.IsSyn) (notFin : ¬ a.message.IsFin) :
    Measuring x train time (before ++ [a]) ↔ Measuring x train time before := by
  have notStart : ∀ other, ¬ a.message.IsStart other := by
    intro other start
    cases shape : a.message with
    | control fields => simp [shape] at start
    | config fields => simp [shape] at start
    | data fields length => exact notData (by simp [shape])
  have notEnd : ∀ other, ¬ a.message.IsEnd other := by
    intro other tail
    cases shape : a.message with
    | control fields => simp [shape] at tail
    | config fields => simp [shape] at tail
    | data fields length => exact notData (by simp [shape])
  rw [Measuring, since_snoc]
  simp only [notStart, notEnd, notSyn, notFin, false_and, and_false, or_self, exists_false,
    not_false_eq_true, and_true, false_or]

theorem inSession_snoc_of_quiet {x : Int} (notSyn : ¬ a.message.IsSyn)
    (notFin : ¬ a.message.IsFin) : InSession x (before ++ [a]) ↔ InSession x before := by
  rw [InSession, since_snoc]
  simp only [notSyn, notFin, false_and, or_self, not_false_eq_true, and_true, false_or]

theorem Tracks.otherControl (tracks : Tracks before s) {fields : ControlFields}
    (shape : a.message = .control fields) (notSyn : fields.content ≠ controlSyn)
    (notFin : fields.content ≠ controlFin) :
    Tracks (before ++ [a]) { s with expId := fields.expId } := by
  have notSyn : ¬ a.message.IsSyn := by simpa [shape] using notSyn
  have notFin : ¬ a.message.IsFin := by simpa [shape] using notFin
  have notData : ¬ a.message.IsData := by simp [shape]
  have notConfig : ¬ a.message.IsConfig := by simp [shape]
  refine ⟨?_, ?_, ?_, tracks.thread⟩
  · intro x client
    rw [inSession_snoc_of_quiet notSyn notFin]
    exact tracks.session x client
  · rw [Recording, since_snoc]
    simp only [notConfig, notSyn, false_and, false_or, not_false_eq_true, and_true]
    exact tracks.recording
  · intro x train time client positive same
    rw [measuring_snoc_of_not_data notData notSyn notFin]
    exact tracks.measuring x train time client positive same

theorem Tracks.config (tracks : Tracks before s) {fields : TrainConfigFields}
    (shape : a.message = .config fields) (client : fields.senderId ≠ 0) (now : Int)
    (address : Address) : Tracks (before ++ [a]) (s.handleConfig now address fields) := by
  have notSyn : ¬ a.message.IsSyn := by simp [shape]
  have notFin : ¬ a.message.IsFin := by simp [shape]
  have notData : ¬ a.message.IsData := by simp [shape]
  have config : a.message.IsConfig := by simp [shape]
  have sender : a.message.senderId = fields.senderId := by simp [shape]
  have recorded : Recording (before ++ [a]) ↔
      InSession fields.senderId before ∨ Recording before := by
    rw [Recording, since_snoc, sender]
    simp only [config, notSyn, true_and, not_false_eq_true, and_true]
  unfold handleConfig
  split
  · rename_i own
    refine ⟨?_, ?_, ?_, ?_⟩
    · intro x client
      rw [inSession_snoc_of_quiet notSyn notFin]
      exact tracks.session x client
    · rw [recorded]
      constructor
      · intro _
        exact Or.inl ((tracks.session _ client).mp own)
      · intro _
        exact ⟨openLog fields, rfl, rfl⟩
    · intro x train time client positive same
      rw [measuring_snoc_of_not_data notData notSyn notFin]
      exact tracks.measuring x train time client positive same
    · intro file _ _
      exact ⟨_, rfl, fun _ _ => rfl⟩
  · rename_i foreign
    refine ⟨?_, ?_, ?_, tracks.thread⟩
    · intro x client
      rw [inSession_snoc_of_quiet notSyn notFin]
      exact tracks.session x client
    · rw [recorded, tracks.recording]
      have outside : ¬ InSession fields.senderId before := by
        rw [← tracks.session _ client]
        exact foreign
      simp only [outside, false_or]
    · intro x train time client positive same
      rw [measuring_snoc_of_not_data notData notSyn notFin]
      exact tracks.measuring x train time client positive same

theorem measuring_snoc_of_data {fields : TrainPacketFields} {length : Nat}
    (shape : a.message = .data fields length) (x train time : Int) :
    Measuring x train time (before ++ [a]) ↔
      (a.now = time ∧ (fields.pktInfo = payloadPktInfoStart ∧ fields.trainNum = train) ∧
        fields.senderId = x ∧ InSession x before) ∨ Measuring x train time before ∧
      ¬ (fields.senderId = x ∧ ((fields.pktInfo = payloadPktInfoEnd ∧ fields.trainNum = train) ∨
        fields.pktInfo = payloadPktInfoStart)) := by
  rw [Measuring, since_snoc]
  simp [shape]

/-- The thread of the session stays one that can be started when it has to be. -/
theorem handleTrain_thread {now : Int} {fields : TrainPacketFields} {s mid : PacketTrainServer}
    {thread : SendThread} (trained : s.handleTrain now fields = .ok mid)
    (made : s.sendThread = some thread)
    (fresh : s.currSenderId ≠ 0 → s.stopSending = true → thread.started = false) :
    ∃ thread, mid.sendThread = some thread ∧
      (mid.currSenderId ≠ 0 → mid.stopSending = true → thread.started = false) := by
  rcases handleTrain_cases trained with ⟨_, after⟩ | ⟨_, after⟩ | ⟨_, _, after⟩
  · obtain ⟨thread', made'⟩ := after.sendThread thread made
    refine ⟨thread', made', ?_⟩
    intro _ stopped
    rw [after.stopSending] at stopped
    cases stopped
  · rw [after.currSenderId, after.stopSending]
    exact ⟨thread, after.sendThread.trans made, fresh⟩
  · rw [after.currSenderId, after.stopSending]
    exact ⟨thread, after.sendThread.trans made, fresh⟩

theorem handleTrain_frame {now : Int} {fields : TrainPacketFields} {s mid : PacketTrainServer}
    (trained : s.handleTrain now fields = .ok mid) :
    mid.currSenderId = s.currSenderId ∧ mid.logFile = s.logFile := by
  rcases handleTrain_cases trained with ⟨_, after⟩ | ⟨_, after⟩ | ⟨_, _, after⟩
  · exact ⟨after.currSenderId, after.logFile⟩
  · exact ⟨after.currSenderId, after.logFile⟩
  · exact ⟨after.currSenderId, after.logFile⟩

/-- A data packet of the session leaves a train in progress exactly when one is measured. -/
theorem handleTrain_measuring {fields : TrainPacketFields} {length : Nat}
    {s mid : PacketTrainServer} (shape : a.message = .data fields length)
    (trained : s.handleTrain a.now fields = .ok mid) {x train time : Int} (positive : 0 < time)
    (own : s.currSenderId = x) (session : InSession x before)
    (earlier : s.startRecvTime = time ∧ s.currTrainNum = train ↔ Measuring x train time before) :
    mid.startRecvTime = time ∧ mid.currTrainNum = train ↔
      Measuring x train time (before ++ [a]) := by
  rw [measuring_snoc_of_data shape, ← earlier]
  rcases handleTrain_cases trained with ⟨begins, after⟩ | ⟨closes, after⟩ |
    ⟨notStart, notEnd, after⟩
  · rw [after.startRecvTime, after.currTrainNum]
    have from' : fields.senderId = x := begins.1.trans own
    have start := begins.2
    simp only [start, from', session, true_and, and_true, or_true, not_true, and_false, or_false]
  · obtain ⟨from', tail, train', running⟩ := closes
    rw [after.startRecvTime]
    have notStart : fields.pktInfo ≠ payloadPktInfoStart := by
      rw [tail]
      decide
    refine iff_of_false (fun stopped => by omega) ?_
    rintro (⟨_, ⟨start, _⟩, _⟩ | ⟨⟨_, current'⟩, free⟩)
    · exact notStart start
    · exact free ⟨from'.trans own, Or.inl ⟨tail, train'.trans current'⟩⟩
  · rw [after.startRecvTime, after.currTrainNum]
    constructor
    · intro running
      refine Or.inr ⟨running, ?_⟩
      rintro ⟨from', ⟨tail, train'⟩ | start⟩
      · apply notEnd
        exact ⟨from'.trans own.symm, tail, train'.trans running.2.symm, by omega⟩
      · exact notStart ⟨from'.trans own.symm, start⟩
    · rintro (⟨_, ⟨start, _⟩, from', _⟩ | ⟨running, _⟩)
      · exact absurd ⟨from'.trans own.symm, start⟩ notStart
      · exact running

theorem Tracks.data (tracks : Tracks before s) {fields : TrainPacketFields} {length : Nat}
    (shape : a.message = .data fields length) {s' : PacketTrainServer}
    (run : s.handleData a.now a.address fields length = .ok s') : Tracks (before ++ [a]) s' := by
  have notSyn : ¬ a.message.IsSyn := by simp [shape]
  have notFin : ¬ a.message.IsFin := by simp [shape]
  have recorded : Recording (before ++ [a]) ↔ Recording before := by
    rw [Recording, since_snoc]
    simp [shape]
  obtain ⟨file, file', mid, opened, open', stays, _, trained, same⟩ := handleData_cases run
  obtain ⟨thread, made, fresh⟩ := tracks.thread file opened open'
  obtain ⟨current, logged⟩ := handleTrain_frame trained
  have current : mid.currSenderId = s.currSenderId := current
  refine ⟨?_, ?_, ?_, ?_⟩
  · intro x client
    rw [same.currSenderId, current, inSession_snoc_of_quiet notSyn notFin]
    exact tracks.session x client
  · rw [recorded, ← tracks.recording]
    exact iff_of_true ⟨file', same.logFile.trans logged, stays⟩ ⟨file, opened, open'⟩
  · intro x train time client positive own
    rw [same.currSenderId, current] at own
    rw [same.startRecvTime, same.currTrainNum]
    exact handleTrain_measuring shape trained positive own ((tracks.session x client).mp own)
      (tracks.measuring x train time client positive own)
  · intro other opened' _
    rw [same.sendThread, same.currSenderId, same.stopSending]
    exact handleTrain_thread trained made fresh

theorem Measuring.inSession {x train time : Int} (measuring : Measuring x train time before) :
    InSession x before := by
  obtain ⟨front, start, behind, split, holds, free⟩ := measuring
  obtain ⟨_, starts, _, session⟩ := holds
  rw [split]
  apply Since.append session
  intro later member
  rcases List.mem_cons.mp member with same | new
  · rw [same]
    cases shape : start.message with
    | control fields =>
        simp [shape] at starts
    | config fields =>
        simp [shape] at starts
    | data fields length => simp
  · intro ends
    apply free later new
    rcases ends with begins | closes
    · exact Or.inl begins
    · exact Or.inr (Or.inl closes)

/-- Of each message the server keeps track. -/
theorem Tracks.handle (tracks : Tracks before s) (client : a.message.senderId ≠ 0)
    {s' : PacketTrainServer} (run : s.handle a.now a.address a.message = .ok s') :
    Tracks (before ++ [a]) s' := by
  cases shape : a.message with
  | control fields =>
      rw [shape] at run
      rw [← Except.ok.inj run]
      unfold handleControl
      dsimp only
      split
      · exact Tracks.syn shape (by assumption) a.address
      · split
        · exact tracks.fin shape (by assumption)
        · exact tracks.otherControl shape (by assumption) (by assumption)
  | config fields =>
      rw [shape] at run client
      rw [← Except.ok.inj run]
      exact tracks.config shape client a.now a.address
  | data fields length =>
      rw [shape] at run
      exact tracks.data shape run

/-- A message is handled exactly when it is expected. -/
theorem Tracks.handle_returns_iff (tracks : Tracks before s) (client : a.message.senderId ≠ 0) :
    (∃ s', s.handle a.now a.address a.message = .ok s') ↔ Expected before a := by
  cases shape : a.message with
  | control fields =>
      refine iff_of_true ⟨_, rfl⟩ ?_
      intro data
      simp [shape] at data
  | config fields =>
      refine iff_of_true ⟨_, rfl⟩ ?_
      intro data
      simp [shape] at data
  | data fields length =>
      have sender : a.message.senderId = fields.senderId := by simp [shape]
      have ends : ∀ train, a.message.IsEnd train ↔
          fields.pktInfo = payloadPktInfoEnd ∧ fields.trainNum = train := by
        intro train
        simp [shape]
      rw [sender] at client
      constructor
      · rintro ⟨s', run⟩ _
        obtain ⟨file, file', mid, opened, open', _, _, trained, _⟩ := handleData_cases run
        refine ⟨tracks.recording.mp ⟨file, opened, open'⟩, ?_⟩
        intro train tail positive measuring
        obtain ⟨tail, train'⟩ := (ends train).mp tail
        rw [sender] at measuring
        have own := (tracks.session _ client).mpr measuring.inSession
        obtain ⟨time, current⟩ := (tracks.measuring _ _ _ client positive own).mpr measuring
        have ends : Ends fields { s with logFile := some file' } := by
          refine ⟨own.symm, tail, train'.trans current.symm, ?_⟩
          show 0 < s.startRecvTime
          rw [time]
          exact positive
        rw [← time] at trained
        exact handleTrain_raises ends trained
      · intro expected
        obtain ⟨recording, apart⟩ := expected (by simp [shape])
        obtain ⟨file, opened, open'⟩ := tracks.recording.mpr recording
        obtain ⟨thread, made, fresh⟩ := tracks.thread file opened open'
        apply handleData_returns opened open'
        intro file'
        apply handleTrain_returns
        · intro own stopped
          have own : fields.senderId = s.currSenderId := own
          exact ⟨thread, made, fresh (by rwa [← own]) stopped⟩
        · intro closes same
          obtain ⟨own, tail, train', running⟩ := closes
          have running : 0 < s.startRecvTime := running
          have same : a.now = s.startRecvTime := same
          apply apart fields.trainNum ((ends _).mpr ⟨tail, rfl⟩)
          · rw [same]
            exact running
          · rw [sender]
            apply (tracks.measuring _ _ _ client (by rwa [same]) own.symm).mp
            exact ⟨same.symm, train'.symm⟩

end

theorem run_snoc (arrivals : List Arrival) (a : Arrival) (s : PacketTrainServer) :
    run (arrivals ++ [a]) s = (do (← run arrivals s).handle a.now a.address a.message) := by
  unfold run
  rw [List.foldlM_append]
  simp only [List.foldlM_cons, List.foldlM_nil, bind_pure]

theorem run_tracks (arrivals : List Arrival) (clients : ∀ a ∈ arrivals, a.message.senderId ≠ 0)
    {s : PacketTrainServer} (returned : run arrivals init = .ok s) : Tracks arrivals s := by
  induction arrivals using List.reverseRecOn generalizing s with
  | nil =>
      rw [← Except.ok.inj returned]
      exact tracks_init
  | append_singleton arrivals a ih =>
      rw [run_snoc] at returned
      obtain ⟨mid, before, handled⟩ := bind_eq_ok.mp returned
      have tracks := ih (fun a member => clients a (List.mem_append_left _ member)) before
      exact tracks.handle (clients a (by simp)) handled

/-- The server handles all datagrams that arrive without raising exactly when each one is expected
behind those before it. -/
theorem run_returns_iff (arrivals : List Arrival)
    (clients : ∀ a ∈ arrivals, a.message.senderId ≠ 0) :
    (∃ s, run arrivals init = .ok s) ↔
      ∀ before a behind, arrivals = before ++ a :: behind → Expected before a := by
  induction arrivals using List.reverseRecOn with
  | nil =>
      refine iff_of_true ⟨init, rfl⟩ ?_
      intro before a behind split
      exact absurd split.symm (List.append_ne_nil_of_right_ne_nil _ (List.cons_ne_nil _ _))
  | append_singleton arrivals a ih =>
      have earlier : ∀ a ∈ arrivals, a.message.senderId ≠ 0 :=
        fun a member => clients a (List.mem_append_left _ member)
      have client : a.message.senderId ≠ 0 := clients a (by simp)
      have ih := ih earlier
      rw [run_snoc]
      constructor
      · rintro ⟨s, returned⟩ before b behind split
        obtain ⟨mid, first, handled⟩ := bind_eq_ok.mp returned
        rcases snoc_eq_append_cons split with ⟨same, last⟩ | ⟨rest, same, _⟩
        · rw [← same, ← last]
          exact ((run_tracks arrivals earlier first).handle_returns_iff client).mp ⟨s, handled⟩
        · exact ih.mp ⟨mid, first⟩ before b rest same
      · intro expected
        obtain ⟨mid, first⟩ := ih.mpr (by
          intro before b behind split
          apply expected before b (behind ++ [a])
          rw [split, List.append_assoc, List.cons_append])
        obtain ⟨s, handled⟩ := ((run_tracks arrivals earlier first).handle_returns_iff client).mpr
          (expected arrivals a [] rfl)
        exact ⟨s, bind_eq_ok.mpr ⟨mid, first, handled⟩⟩

/-- Datagrams of client 7, at some clock readings, by the values of their first fields. -/
def fromSeven (datagrams : List (Int × List Nat)) : List Arrival :=
  datagrams.map (fun d => ⟨d.1, ⟨"10.0.0.2".toList, 4000⟩, BigEndian.record 8 d.2⟩)

/-- The SYN, the configuration, the SYN resent on a timeout, and the start of train 0. -/
def resentSyn : List Arrival :=
  fromSeven [(1, [7, 100, 0]), (2, [7, 30, 30, 10, 10, 98]), (3, [7, 100, 0]),
    (4, [0, 1, 0, 7, 0, 1, 0])]

/-- A data packet that arrives after a SYN sent twice, or first of all, is not handled. -/
theorem not_run_returns :
    ((∀ a ∈ resentSyn, a.message.senderId ≠ 0) ∧
      run resentSyn init = .error (.runtimeError "I/O operation on closed file.")) ∧
    run (fromSeven [(1, [0, 1, 0, 7, 0, 1, 0])]) init =
      .error (.runtimeError "'NoneType' object has no attribute 'write'") :=
  ⟨⟨by decide +kernel, by decide +kernel⟩, by decide +kernel⟩

/-- A whole session with one train of three packets, and a packet of the client behind its FIN. -/
def oneTrain : List Arrival :=
  fromSeven [(1, [7, 100, 0]), (2, [7, 30, 30, 3, 3, 98]), (3, [0, 1, 0, 7, 0, 1, 0]),
    (4, [1, 1, 0, 7, 0, 0, 0]), (5, [2, 1, 0, 7, 0, 2, 0]), (6, [7, 200, 0]),
    (7, [0, 2, 0, 7, 1, 1, 0])]

theorem run_returns_iff_oneTrain :
    (run oneTrain init).toOption.map (fun s => (s.throughputs.length, s.stopSending)) =
      some (1, true) ∧
    ∀ before a behind, oneTrain = before ++ a :: behind → Expected before a := by
  have observed : (run oneTrain init).toOption.map
    (fun s => (s.throughputs.length, s.stopSending)) =
      some (1, true) := by decide +kernel
  obtain ⟨s, returned, _⟩ := observe_ok observed
  exact ⟨observed, (run_returns_iff oneTrain (by decide +kernel)).mp ⟨s, returned⟩⟩

end PacketTrainServer

end CellReplay
