import CellReplay.Lib.Numbering
import CellReplay.Lib.Transition
import CellReplay.Record.ClientReceive
import CellReplay.Record.TraceProcessor

set_option autoImplicit false

namespace CellReplay

open FueledLoop Numbering Transition

/-- A data packet of a train on its way, and its length. -/
structure TrainDatagram where
  fields : TrainPacketFields
  length : Nat
  deriving DecidableEq, Repr

namespace TrainDatagram

def udpHeaderSize : Int := 42

/-- A packet as a buffer of some size receives it, which cuts off what does not fit. -/
def received (size : Nat) (p : TrainDatagram) : TrainDatagram :=
  { p with length := min p.length size }

/-- The packets of a train, as the loops of `sendDataTrain` and of `send_packet_train_thread` make
them. -/
def ofTrain (senderId packetSize : Int) (numPackets : Nat) (trainNum timestamp : Int) :
    List TrainDatagram :=
  (List.range numPackets).map (fun i =>
    let pktInfo :=
      if i = 0 then PacketTrainServer.payloadPktInfoStart
      else if i = numPackets - 1 then PacketTrainServer.payloadPktInfoEnd
      else 0
    ⟨⟨i, timestamp, 0, senderId, trainNum, pktInfo⟩, (packetSize - udpHeaderSize).toNat⟩)

def IsStart (p : TrainDatagram) : Prop := p.fields.pktInfo = PacketTrainServer.payloadPktInfoStart

instance (p : TrainDatagram) : Decidable p.IsStart := inferInstanceAs (Decidable (_ = _))

/-- The packets of a train are of it, and its first packet is marked as its start. -/
theorem mem_ofTrain {senderId packetSize trainNum timestamp : Int} {numPackets : Nat}
    {p : TrainDatagram} (member : p ∈ ofTrain senderId packetSize numPackets trainNum timestamp) :
    p.fields.senderId = senderId ∧ p.fields.trainNum = trainNum ∧
      (p.fields.seqNum = 0 ↔ p.IsStart) := by
  obtain ⟨i, _, same⟩ := List.mem_map.mp member
  rw [← same]
  refine ⟨rfl, rfl, ?_⟩
  unfold IsStart
  dsimp only
  by_cases first : i = 0
  · simp [first]
  · rw [if_neg first]
    refine iff_of_false (by omega) ?_
    split
    · decide
    · decide

/-- A train has one start at most. -/
theorem starts_ofTrain (senderId packetSize trainNum timestamp : Int) (numPackets : Nat) :
    ((ofTrain senderId packetSize numPackets trainNum timestamp).filter IsStart).Pairwise
      (fun _ _ => False) := by
  rw [List.pairwise_filter]
  unfold ofTrain
  rw [List.pairwise_map]
  apply List.pairwise_lt_range.imp
  intro i j before _ later
  have other : j ≠ 0 := by omega
  unfold IsStart at later
  dsimp only at later
  rw [if_neg other] at later
  split at later
  · exact absurd later (by decide)
  · exact absurd later (by decide)

end TrainDatagram

/-- The client of the packet-train server, as far as its packet log is concerned. -/
structure PacketTrainSending where
  senderId : Int
  packetSize : Int
  trainNum : Nat
  packetLog : List ClientLogLine
  deriving DecidableEq, Repr

namespace PacketTrainSending

def throughputInfoLength : Nat := 24

def sendDataTrain (numPackets : Nat) (timestamp : Int) (c : PacketTrainSending) :
    PacketTrainSending × List TrainDatagram :=
  ({ c with trainNum := c.trainNum + 1 },
    TrainDatagram.ofTrain c.senderId c.packetSize numPackets c.trainNum timestamp)

def recvPayload (timestamp : Int) (p : TrainDatagram) (c : PacketTrainSending) :
    PacketTrainSending :=
  if p.fields.senderId = c.senderId then
    { c with packetLog := c.packetLog ++ [.packet
        ⟨p.fields.trainNum, p.fields.seqNum, p.fields.sentTimestamp, timestamp⟩
        (p.length + TrainDatagram.udpHeaderSize)] }
  else c

/-- What `recvPacket` does with a packet; the throughput infos do not concern the packet log. -/
def recvPacket (timestamp : Int) (datagram : TrainDatagram) (c : PacketTrainSending) :
    PacketTrainSending :=
  let p := datagram.received DatagramPacket.maxSize
  if p.length = throughputInfoLength then c
  else if p.length = c.packetSize - TrainDatagram.udpHeaderSize then c.recvPayload timestamp p
  else c

/-- The client logs the packet, or nothing happens. -/
theorem recvPacket_cases (timestamp : Int) (p : TrainDatagram) (c : PacketTrainSending) :
    c.recvPacket timestamp p = c ∨
      c.recvPacket timestamp p = { c with packetLog := c.packetLog ++ [.packet
        ⟨p.fields.trainNum, p.fields.seqNum, p.fields.sentTimestamp, timestamp⟩
        ((p.received DatagramPacket.maxSize).length + TrainDatagram.udpHeaderSize)] } := by
  unfold recvPacket recvPayload
  dsimp only
  split
  · exact Or.inl rfl
  · split
    · split
      · exact Or.inr rfl
      · exact Or.inl rfl
    · exact Or.inl rfl

end PacketTrainSending

/-- The client, the server with the global counter of its sender threads, and the data packets on
their way. `answers` holds of each down train that was sent which up train it answers. -/
structure TrainExchange where
  client : PacketTrainSending
  address : Address
  server : PacketTrainServer
  currTrainNum : Nat
  upInFlight : List TrainDatagram
  downInFlight : List TrainDatagram
  answers : List (Int × Int)
  deriving DecidableEq, Repr

namespace TrainExchange

open PacketTrainServer (Starts)

/-- The size of the buffer of the server. -/
def bufferSize : Nat := 2048

/-- A server, whatever was before, has handled the SYN and the configuration of the client. -/
def start (now : Int) (address : Address) (config : TrainConfigFields) (server : PacketTrainServer)
    (currTrainNum : Nat) : TrainExchange where
  client := ⟨config.senderId, config.packetSize, 0, [.config config.senderId]⟩
  address := address
  server := (server.handleSyn address config.senderId).handleConfig now address config
  currTrainNum := currTrainNum
  upInFlight := []
  downInFlight := []
  answers := []

/-- The client sends a train, a packet is lost, the server handles the packet that was sent first,
or the client receives a packet. -/
inductive Event where
  | sendDataTrain (numPackets : Nat) (timestamp : Int)
  | loseUp (i : Nat)
  | serve (now : Int)
  | loseDown (i : Nat)
  | receive (i : Nat) (now : Int)
  deriving DecidableEq, Repr

def sendDataTrain (numPackets : Nat) (timestamp : Int) (s : TrainExchange) : TrainExchange :=
  let (client, train) := s.client.sendDataTrain numPackets timestamp
  { s with client := client, upInFlight := s.upInFlight ++ train }

/-- One turn of the loop of `send_packet_train_thread`, which the start of an up train gives rise
to. -/
def sendPacketTrain (upTrain : Int) (s : TrainExchange) : TrainExchange :=
  match s.server.sendThread with
  | none => s
  | some thread =>
      { s with
        downInFlight := s.downInFlight ++ TrainDatagram.ofTrain thread.senderId thread.packetSize
          thread.numPackets.toNat s.currTrainNum s.server.currTrainInitialSent
        currTrainNum := s.currTrainNum + 1
        answers := s.answers ++ [((s.currTrainNum : Int), upTrain)] }

instance (fields : TrainPacketFields) (server : PacketTrainServer) :
    Decidable (Starts fields server) := inferInstanceAs (Decidable (_ ∧ _))

/-- The server handles a data packet, and sends a train if it is the start of one. -/
def serve (now : Int) (p : TrainDatagram) (s : TrainExchange) : Except Fault TrainExchange := do
  let server ← s.server.handle now s.address (.data p.fields (p.received bufferSize).length)
  let served := { s with server := server }
  return if Starts p.fields s.server then served.sendPacketTrain p.fields.trainNum else served

def exec : Event → TrainExchange → Option TrainExchange
  | .sendDataTrain numPackets timestamp, s => some (s.sendDataTrain numPackets timestamp)
  | .loseUp i, s =>
      if i < s.upInFlight.length then some { s with upInFlight := s.upInFlight.eraseIdx i }
      else none
  | .serve now, s =>
      match s.upInFlight with
      | [] => none
      | p :: rest => ({ s with upInFlight := rest }.serve now p).toOption
  | .loseDown i, s =>
      if i < s.downInFlight.length then
        some { s with downInFlight := s.downInFlight.eraseIdx i }
      else none
  | .receive i now, s =>
      match s.downInFlight[i]? with
      | none => none
      | some p =>
          some { s with
            client := s.client.recvPacket now p
            downInFlight := s.downInFlight.eraseIdx i }

def Step (s : TrainExchange) (event : Event) (s' : TrainExchange) : Prop := exec event s = some s'

/-- The lines of the log file of the server. -/
def upLog (s : TrainExchange) : List LogLine :=
  match s.server.logFile with
  | none => []
  | some file => file.lines

/-- The server sent a down train in response to the start of an up train. -/
def Answers (s : TrainExchange) (downTrain upTrain : Int) : Prop := (downTrain, upTrain) ∈ s.answers

/-- The start of an up train reached the server. -/
def Answered (s : TrainExchange) (upTrain : Int) : Prop := ∃ downTrain, s.Answers downTrain upTrain

/-- The up trains that were answered, in order. -/
def answered (s : TrainExchange) : List Int := s.answers.map Prod.snd

/-- The up trains whose start is on its way. -/
def coming (s : TrainExchange) : List Int :=
  (s.upInFlight.filter TrainDatagram.IsStart).map (fun p => p.fields.trainNum)

theorem mem_answered {s : TrainExchange} {upTrain : Int} :
    upTrain ∈ s.answered ↔ s.Answered upTrain := by
  unfold answered Answered Answers
  simp

/-- What holds of the up trains: their starts reach the server in the order in which they are sent,
and the server logs and answers each. -/
structure UpSide (s : TrainExchange) : Prop where
  currSenderId : s.server.currSenderId = s.client.senderId
  thread : ∃ thread, s.server.sendThread = some thread
  packets : ∀ p ∈ s.upInFlight, p.fields.senderId = s.client.senderId ∧ 0 ≤ p.fields.trainNum ∧
    (p.fields.seqNum = 0 ↔ p.IsStart)
  increasing : (s.answered ++ s.coming).Pairwise (· < ·)
  sent : ∀ u ∈ s.answered ++ s.coming, u < s.client.trainNum
  names : ∀ line ∈ s.upLog, line.Names s.client.senderId
  positive : ∀ row ∈ upRows s.upLog, 0 ≤ row.trainId
  logged : ((upRows s.upLog).filter (fun row => row.seqId = 0)).map LogRow.trainId = s.answered

/-- What holds of the down trains: they are numbered in the order of the answers, and what the
client logs is of one of them. -/
structure DownSide (first : Nat) (s : TrainExchange) : Prop where
  counted : first ≤ s.currTrainNum
  numbers : Numbers first s.currTrainNum s.Answers
  packets : ∀ p ∈ s.downInFlight, ∃ u, s.Answers p.fields.trainNum u
  headed : (processDownTrainFile s.client.packetLog).senderId = some s.client.senderId
  logged : ∀ row ∈ downRows s.client.packetLog, ∃ u, s.Answers row.trainId u

section
variable (now : Int) (address : Address) (config : TrainConfigFields) (server : PacketTrainServer)
  (currTrainNum : Nat)

theorem upSide_start : UpSide (start now address config server currTrainNum) := by
  have configured : (start now address config server currTrainNum).server =
      { server.handleSyn address config.senderId with
        currUploadGapMs := config.uploadGapMs
        currDownloadGapMs := config.downloadGapMs
        currUploadNumPackets := config.uploadNumPackets
        currDownloadNumPackets := config.downloadNumPackets
        currPacketSize := config.packetSize
        logFile := some (PacketTrainServer.openLog config)
        sent := (server.handleSyn address config.senderId).sent ++
          [(address, .control config.senderId controlConfigAck)]
        lastRecvClientPacket := now
        sendThread := some ⟨config.senderId, address, config.downloadGapMs,
          config.downloadNumPackets, config.packetSize, false⟩ } := by
    unfold start PacketTrainServer.handleConfig
    dsimp only
    exact if_pos rfl
  have opened : (start now address config server currTrainNum).upLog =
      (PacketTrainServer.openLog config).lines := by
    unfold upLog
    rw [configured]
  refine ⟨?_, ?_, ?_, List.Pairwise.nil, ?_, ?_, ?_, ?_⟩
  · rw [configured]
    rfl
  · rw [configured]
    exact ⟨_, rfl⟩
  · intro p member
    cases member
  · intro u member
    cases member
  · rw [opened]
    intro line member
    rcases List.mem_cons.mp member with header | columns
    · rw [header]
      rfl
    · rw [List.mem_singleton.mp columns]
      trivial
  · rw [opened]
    intro row member
    cases member
  · rw [opened]
    rfl

theorem downSide_start : DownSide currTrainNum (start now address config server currTrainNum) := by
  refine ⟨le_refl _, ?_, ?_, rfl, ?_⟩
  · apply (numbers_empty (currTrainNum : Int)).congr
    intro a x
    exact iff_of_false List.not_mem_nil id
  · intro p member
    cases member
  · intro row member
    cases member

end

section
variable {s s' : TrainExchange}

theorem step_loseUp {i : Nat} (step : Step s (.loseUp i) s') :
    s' = { s with upInFlight := s.upInFlight.eraseIdx i } := by
  unfold Step exec at step
  dsimp only at step
  split at step
  · exact (Option.some.inj step).symm
  · cases step

theorem step_loseDown {i : Nat} (step : Step s (.loseDown i) s') :
    s' = { s with downInFlight := s.downInFlight.eraseIdx i } := by
  unfold Step exec at step
  dsimp only at step
  split at step
  · exact (Option.some.inj step).symm
  · cases step

theorem step_receive {i : Nat} {now : Int} (step : Step s (.receive i now) s') :
    ∃ p ∈ s.downInFlight, s' = { s with
      client := s.client.recvPacket now p
      downInFlight := s.downInFlight.eraseIdx i } := by
  unfold Step exec at step
  dsimp only at step
  split at step
  · cases step
  · rename_i p found
    exact ⟨p, List.mem_of_getElem? found, (Option.some.inj step).symm⟩

/-- A new train is behind all that were sent before. -/
theorem UpSide.sendDataTrain (up : UpSide s) (numPackets : Nat) (timestamp : Int) :
    UpSide (s.sendDataTrain numPackets timestamp) := by
  have new : ∀ p ∈ TrainDatagram.ofTrain s.client.senderId s.client.packetSize numPackets
      s.client.trainNum timestamp, p.fields.senderId = s.client.senderId ∧
        p.fields.trainNum = s.client.trainNum ∧ (p.fields.seqNum = 0 ↔ p.IsStart) :=
    fun _ member => TrainDatagram.mem_ofTrain member
  have coming : (s.sendDataTrain numPackets timestamp).coming = s.coming ++
      ((TrainDatagram.ofTrain s.client.senderId s.client.packetSize numPackets s.client.trainNum
        timestamp).filter TrainDatagram.IsStart).map (fun p => p.fields.trainNum) := by
    unfold TrainExchange.coming TrainExchange.sendDataTrain PacketTrainSending.sendDataTrain
    dsimp only
    rw [List.filter_append, List.map_append]
  have fresh : ∀ u ∈ ((TrainDatagram.ofTrain s.client.senderId s.client.packetSize numPackets
      s.client.trainNum timestamp).filter TrainDatagram.IsStart).map (fun p => p.fields.trainNum),
      u = (s.client.trainNum : Int) := by
    intro u member
    obtain ⟨p, member, same⟩ := List.mem_map.mp member
    rw [← same]
    exact (new p (List.mem_filter.mp member).1).2.1
  refine ⟨up.currSenderId, up.thread, ?_, ?_, ?_, up.names, up.positive, up.logged⟩
  · intro p member
    rcases List.mem_append.mp member with old | member
    · exact up.packets p old
    · obtain ⟨sender, train, first⟩ := new p member
      exact ⟨sender, by omega, first⟩
  · show (s.answered ++ (s.sendDataTrain numPackets timestamp).coming).Pairwise (· < ·)
    rw [coming, ← List.append_assoc, List.pairwise_append]
    refine ⟨up.increasing, ?_, ?_⟩
    · rw [List.pairwise_map]
      exact (TrainDatagram.starts_ofTrain _ _ _ _ _).imp False.elim
    · intro u old v member
      rw [fresh v member]
      exact up.sent u old
  · show ∀ u ∈ s.answered ++ (s.sendDataTrain numPackets timestamp).coming,
      u < ((s.client.trainNum + 1 : Nat) : Int)
    rw [coming, ← List.append_assoc]
    intro u member
    rcases List.mem_append.mp member with old | member
    · have before := up.sent u old
      omega
    · rw [fresh u member]
      omega

theorem UpSide.loseUp (up : UpSide s) (i : Nat) :
    UpSide { s with upInFlight := s.upInFlight.eraseIdx i } := by
  have fewer : List.Sublist
      ({ s with upInFlight := s.upInFlight.eraseIdx i } : TrainExchange).coming s.coming :=
    ((List.eraseIdx_sublist _ _).filter _).map _
  have kept := (List.Sublist.refl s.answered).append fewer
  refine ⟨up.currSenderId, up.thread, ?_, up.increasing.sublist kept, ?_, up.names, up.positive,
    up.logged⟩
  · intro p member
    exact up.packets p (List.mem_of_mem_eraseIdx member)
  · intro u member
    exact up.sent u (kept.subset member)

/-- What handling a data packet leaves. -/
theorem handle_data {now : Int} {address : Address} {fields : TrainPacketFields} {length : Nat}
    {server server' : PacketTrainServer}
    (run : server.handle now address (.data fields length) = .ok server') :
    ∃ file file', server.logFile = some file ∧ server'.logFile = some file' ∧
      file'.lines = file.lines ++ [.packet fields.trainNum fields.seqNum fields.sentTimestamp now
        fields.senderId length] ∧
      server'.currSenderId = server.currSenderId ∧
      ((∃ thread, server.sendThread = some thread) →
        ∃ thread, server'.sendThread = some thread) := by
  obtain ⟨file, file', mid, opened, _, _, lines, trained, same⟩ :=
    PacketTrainServer.handleData_cases run
  refine ⟨file, file', opened, ?_⟩
  rw [same.logFile, same.currSenderId, same.sendThread]
  rcases PacketTrainServer.handleTrain_cases trained with ⟨_, after⟩ | ⟨_, after⟩ | ⟨_, _, after⟩
  · refine ⟨after.logFile, lines, after.currSenderId, ?_⟩
    rintro ⟨thread, made⟩
    exact after.sendThread thread made
  · refine ⟨after.logFile, lines, after.currSenderId, ?_⟩
    rw [after.sendThread]
    exact id
  · refine ⟨after.logFile, lines, after.currSenderId, ?_⟩
    rw [after.sendThread]
    exact id

/-- A data packet was logged by the server. -/
structure Served (now : Int) (p : TrainDatagram) (s s' : TrainExchange) : Prop where
  inFlight : s.upInFlight = p :: s'.upInFlight
  client : s'.client = s.client
  currSenderId : s'.server.currSenderId = s.server.currSenderId
  thread : ∃ thread, s'.server.sendThread = some thread
  upLog : s'.upLog = s.upLog ++ [.packet p.fields.trainNum p.fields.seqNum
    p.fields.sentTimestamp now p.fields.senderId (p.received bufferSize).length]

/-- The start of an up train was answered with a down train. -/
structure Answering (p : TrainDatagram) (s s' : TrainExchange) : Prop where
  answers : s'.answers = s.answers ++ [((s.currTrainNum : Int), p.fields.trainNum)]
  currTrainNum : s'.currTrainNum = s.currTrainNum + 1
  inFlight : ∀ q ∈ s'.downInFlight, q ∈ s.downInFlight ∨ q.fields.trainNum = s.currTrainNum

/-- The server sends nothing. -/
structure Quiet (s s' : TrainExchange) : Prop where
  answers : s'.answers = s.answers
  currTrainNum : s'.currTrainNum = s.currTrainNum
  inFlight : s'.downInFlight = s.downInFlight

theorem sendPacketTrain_answering (p : TrainDatagram) (s : TrainExchange) {thread : SendThread}
    (made : s.server.sendThread = some thread) :
    Answering p s (s.sendPacketTrain p.fields.trainNum) := by
  unfold sendPacketTrain
  rw [made]
  refine ⟨rfl, rfl, ?_⟩
  intro q member
  rcases List.mem_append.mp member with old | new
  · exact Or.inl old
  · exact Or.inr (TrainDatagram.mem_ofTrain new).2.1

theorem sendPacketTrain_frame (s : TrainExchange) (upTrain : Int) :
    (s.sendPacketTrain upTrain).client = s.client ∧ (s.sendPacketTrain upTrain).server = s.server ∧
      (s.sendPacketTrain upTrain).upInFlight = s.upInFlight := by
  unfold sendPacketTrain
  split
  · exact ⟨rfl, rfl, rfl⟩
  · exact ⟨rfl, rfl, rfl⟩

/-- The inversion of the step of the server. -/
theorem serve_cases {now : Int} (up : UpSide s) (step : Step s (.serve now) s') :
    ∃ p, Served now p s s' ∧ (p.IsStart ∧ Answering p s s' ∨ ¬ p.IsStart ∧ Quiet s s') := by
  unfold Step exec at step
  dsimp only at step
  split at step
  · cases step
  · rename_i p rest shape
    refine ⟨p, ?_⟩
    unfold serve at step
    dsimp only at step
    cases handled : s.server.handle now s.address
        (.data p.fields (p.received bufferSize).length) with
    | error fault =>
        rw [handled] at step
        cases step
    | ok server' =>
        rw [handled] at step
        have step := Option.some.inj step
        obtain ⟨file, file', opened, opened', lines, currSenderId, thread⟩ := handle_data handled
        obtain ⟨thread, made⟩ := thread up.thread
        have sender := (up.packets p (by rw [shape]; exact List.mem_cons_self)).1
        have own : p.fields.senderId = s.server.currSenderId := sender.trans up.currSenderId.symm
        have logged : ∀ after : TrainExchange, after.server = server' →
            after.upLog = s.upLog ++ [.packet p.fields.trainNum p.fields.seqNum
              p.fields.sentTimestamp now p.fields.senderId (p.received bufferSize).length] := by
          intro after same
          unfold TrainExchange.upLog
          rw [same, opened', opened]
          exact lines
        split at step
        · rename_i starts
          rw [← step]
          obtain ⟨client, server, inFlight⟩ := sendPacketTrain_frame
            { s with upInFlight := rest, server := server' } p.fields.trainNum
          refine ⟨⟨?_, client, ?_, ?_, logged _ server⟩, Or.inl ⟨starts.2, ?_⟩⟩
          · rw [inFlight]
            exact shape
          · rw [server]
            exact currSenderId
          · rw [server]
            exact ⟨thread, made⟩
          · have answering := sendPacketTrain_answering p
              { s with upInFlight := rest, server := server' } made
            exact ⟨answering.answers, answering.currTrainNum, answering.inFlight⟩
        · rename_i notStarts
          rw [← step]
          refine ⟨⟨shape, rfl, currSenderId, ⟨thread, made⟩, logged _ rfl⟩,
            Or.inr ⟨?_, rfl, rfl, rfl⟩⟩
          intro start
          exact notStarts ⟨own, start⟩

theorem UpSide.serve {now : Int} (up : UpSide s) (step : Step s (.serve now) s') : UpSide s' := by
  obtain ⟨p, served, answer⟩ := serve_cases up step
  have head : p ∈ s.upInFlight := by
    rw [served.inFlight]
    exact List.mem_cons_self
  obtain ⟨sender, train, first⟩ := up.packets p head
  have rows : upRows s'.upLog = upRows s.upLog ++
      [⟨p.fields.trainNum, p.fields.seqNum, p.fields.sentTimestamp, now⟩] := by
    unfold upRows
    rw [served.upLog, List.filterMap_append]
    rfl
  have moved : s'.answered ++ s'.coming = s.answered ++ s.coming := by
    unfold TrainExchange.answered TrainExchange.coming
    rw [served.inFlight]
    rcases answer with ⟨start, answering⟩ | ⟨other, quiet⟩
    · rw [answering.answers, List.filter_cons_of_pos (by simpa using start), List.map_append,
        List.append_assoc]
      rfl
    · rw [quiet.answers, List.filter_cons_of_neg (by simpa using other)]
  refine ⟨?_, served.thread, ?_, ?_, ?_, ?_, ?_, ?_⟩
  · rw [served.currSenderId, served.client]
    exact up.currSenderId
  · intro q member
    rw [served.client]
    apply up.packets q
    rw [served.inFlight]
    exact List.mem_cons_of_mem _ member
  · rw [moved]
    exact up.increasing
  · rw [moved, served.client]
    exact up.sent
  · rw [served.upLog, served.client]
    intro line member
    rcases List.mem_append.mp member with old | new
    · exact up.names line old
    · rw [List.mem_singleton.mp new]
      trivial
  · rw [rows]
    intro row member
    rcases List.mem_append.mp member with old | new
    · exact up.positive row old
    · rw [List.mem_singleton.mp new]
      exact train
  · rw [rows, List.filter_append, List.map_append, up.logged]
    unfold TrainExchange.answered
    rcases answer with ⟨start, answering⟩ | ⟨other, quiet⟩
    · rw [answering.answers, List.map_append,
        List.filter_cons_of_pos (by simpa using first.mpr start)]
      rfl
    · rw [quiet.answers, List.filter_cons_of_neg (by simpa using fun zero => other (first.mp zero))]
      exact List.append_nil _

theorem UpSide.receive {i : Nat} {now : Int} (up : UpSide s) (step : Step s (.receive i now) s') :
    UpSide s' := by
  obtain ⟨p, _, same⟩ := step_receive step
  rw [same]
  rcases s.client.recvPacket_cases now p with quiet | logged
  · rw [quiet]
    exact ⟨up.currSenderId, up.thread, up.packets, up.increasing, up.sent, up.names, up.positive,
      up.logged⟩
  · rw [logged]
    exact ⟨up.currSenderId, up.thread, up.packets, up.increasing, up.sent, up.names, up.positive,
      up.logged⟩

theorem UpSide.step {event : Event} (up : UpSide s) (step : Step s event s') : UpSide s' := by
  cases event with
  | sendDataTrain numPackets timestamp =>
      rw [← Option.some.inj step]
      exact up.sendDataTrain numPackets timestamp
  | loseUp i =>
      rw [step_loseUp step]
      exact up.loseUp i
  | serve now => exact up.serve step
  | loseDown i =>
      rw [step_loseDown step]
      exact ⟨up.currSenderId, up.thread, up.packets, up.increasing, up.sent, up.names,
        up.positive, up.logged⟩
  | receive i now => exact up.receive step

/-- The answer to a start gets the next number. -/
theorem DownSide.serve {first : Nat} {now : Int} (down : DownSide first s) (up : UpSide s)
    (step : Step s (.serve now) s') : DownSide first s' := by
  obtain ⟨p, served, answer⟩ := serve_cases up step
  rcases answer with ⟨start, answering⟩ | ⟨_, quiet⟩
  · have answers : ∀ d u, s'.Answers d u ↔
        s.Answers d u ∨ d = s.currTrainNum ∧ u = p.fields.trainNum := by
      intro d u
      unfold Answers
      rw [answering.answers, List.mem_append, List.mem_singleton, Prod.mk.injEq]
    have larger : ∀ d u, s.Answers d u → u < p.fields.trainNum := by
      intro d u given
      apply (List.pairwise_append.mp up.increasing).2.2 u (mem_answered.mpr ⟨d, given⟩)
      unfold coming
      rw [served.inFlight, List.filter_cons_of_pos (by simpa using start)]
      exact List.mem_cons_self
    refine ⟨?_, ?_, ?_, ?_, ?_⟩
    · rw [answering.currTrainNum]
      exact Nat.le_succ_of_le down.counted
    · rw [answering.currTrainNum, Nat.cast_add, Nat.cast_one]
      exact (down.numbers.give (by exact_mod_cast down.counted) larger).congr answers
    · intro q member
      rcases answering.inFlight q member with old | new
      · obtain ⟨u, given⟩ := down.packets q old
        exact ⟨u, (answers _ u).mpr (Or.inl given)⟩
      · exact ⟨p.fields.trainNum, (answers _ _).mpr (Or.inr ⟨new, rfl⟩)⟩
    · rw [served.client]
      exact down.headed
    · rw [served.client]
      intro row member
      obtain ⟨u, given⟩ := down.logged row member
      exact ⟨u, (answers _ u).mpr (Or.inl given)⟩
  · have answers : ∀ d u, s'.Answers d u ↔ s.Answers d u := by
      intro d u
      unfold Answers
      rw [quiet.answers]
    refine ⟨?_, ?_, ?_, ?_, ?_⟩
    · rw [quiet.currTrainNum]
      exact down.counted
    · rw [quiet.currTrainNum]
      exact down.numbers.congr answers
    · rw [quiet.inFlight]
      intro q member
      obtain ⟨u, given⟩ := down.packets q member
      exact ⟨u, (answers _ u).mpr given⟩
    · rw [served.client]
      exact down.headed
    · rw [served.client]
      intro row member
      obtain ⟨u, given⟩ := down.logged row member
      exact ⟨u, (answers _ u).mpr given⟩

theorem DownSide.receive {first i : Nat} {now : Int} (down : DownSide first s)
    (step : Step s (.receive i now) s') : DownSide first s' := by
  obtain ⟨p, member, same⟩ := step_receive step
  have given := down.packets p member
  have fewer : ∀ q ∈ s.downInFlight.eraseIdx i, ∃ u, s.Answers q.fields.trainNum u :=
    fun q member => down.packets q (List.mem_of_mem_eraseIdx member)
  rw [same]
  rcases s.client.recvPacket_cases now p with quiet | logged
  · rw [quiet]
    exact ⟨down.counted, down.numbers, fewer, down.headed, down.logged⟩
  · rw [logged]
    refine ⟨down.counted, down.numbers, fewer, ?_, ?_⟩
    · dsimp only
      rw [processDownTrainFile_snoc, ← down.headed]
      unfold DownTrains.readLine DownTrains.read
      dsimp only
      split
      · rfl
      · rfl
    · dsimp only
      unfold downRows
      rw [List.filterMap_append]
      intro row member
      rcases List.mem_append.mp member with old | new
      · exact down.logged row old
      · rw [List.mem_singleton.mp new]
        exact given

theorem DownSide.step {first : Nat} {event : Event} (down : DownSide first s) (up : UpSide s)
    (step : Step s event s') : DownSide first s' := by
  cases event with
  | sendDataTrain numPackets timestamp =>
      rw [← Option.some.inj step]
      exact ⟨down.counted, down.numbers, down.packets, down.headed, down.logged⟩
  | loseUp i =>
      rw [step_loseUp step]
      exact ⟨down.counted, down.numbers, down.packets, down.headed, down.logged⟩
  | serve now => exact down.serve up step
  | loseDown i =>
      rw [step_loseDown step]
      refine ⟨down.counted, down.numbers, ?_, down.headed, down.logged⟩
      intro q member
      exact down.packets q (List.mem_of_mem_eraseIdx member)
  | receive i now => exact down.receive step

end

/-- The first up train that the server logs is the first that it answers. -/
theorem UpSide.firstTrain_least {s : TrainExchange} (up : UpSide s) {first : Int}
    (found : firstTrain (upRows s.upLog) = some first) :
    s.Answered first ∧ ∀ u, s.Answered u → first ≤ u := by
  rw [firstTrain_eq_head?, up.logged] at found
  obtain ⟨rest, shape⟩ := List.head?_eq_some_iff.mp found
  have increasing := (List.pairwise_append.mp up.increasing).1
  rw [shape, List.pairwise_cons] at increasing
  constructor
  · rw [← mem_answered, shape]
    exact List.mem_cons_self
  · intro u given
    rw [← mem_answered, shape] at given
    rcases List.mem_cons.mp given with same | later
    · exact same.ge
    · exact (increasing.1 u later).le

/-- An up train with a probe was answered. -/
theorem UpSide.answered_of_probe {s : TrainExchange} (up : UpSide s) {u : Int}
    (made : Probe.ofTrain (upRows s.upLog) u ≠ none) : s.Answered u := by
  by_contra unanswered
  apply made
  apply ofTrain_eq_none
  intro row member first same
  apply unanswered
  rw [← mem_answered, ← up.logged, ← same]
  exact List.mem_map_of_mem (List.mem_filter.mpr ⟨member, by simpa using first⟩)

theorem DownSide.firstTrain_answers {first : Nat} {s : TrainExchange} (down : DownSide first s)
    {firstDown : Int} (found : firstTrain (downRows s.client.packetLog) = some firstDown) :
    ∃ u, s.Answers firstDown u := by
  obtain ⟨row, found, same⟩ := Option.map_eq_some_iff.mp found
  rw [← same]
  exact down.logged row (List.mem_of_find?_eq_some found)

section
variable {now : Int} {address : Address} {config : TrainConfigFields} {server : PacketTrainServer}
  {currTrainNum : Nat} {events : List Event} {s : TrainExchange}

theorem run_sides (run : Run Step (start now address config server currTrainNum) events s) :
    UpSide s ∧ DownSide currTrainNum s := by
  apply run.invariant (I := fun s => UpSide s ∧ DownSide currTrainNum s)
  · rintro s event t ⟨up, down⟩ step
    exact ⟨up.step step, down.step up step⟩
  · exact ⟨upSide_start _ _ _ _ _, downSide_start _ _ _ _ _⟩

/-- Each row of the trace combines an up train and a down train that are as far from the first one
that was logged. -/
theorem run_joins (run : Run Step (start now address config server currTrainNum) events s) :
    ∃ trace, generateTrace s.upLog s.client.packetLog = .ok trace ∧
      ∀ row ∈ trace, ∃ firstUp firstDown,
        firstTrain (upRows s.upLog) = some firstUp ∧
        firstTrain (downRows s.client.packetLog) = some firstDown ∧
        Joins (upRows s.upLog) (downRows s.client.packetLog) row (firstUp + row.trainId)
          (firstDown + row.trainId) := by
  obtain ⟨up, down⟩ := run_sides run
  apply generateTrace_joins down.headed up.names up.positive
  intro row member
  obtain ⟨u, given⟩ := down.logged row member
  have inside := down.numbers.range _ _ given
  omega

end

/-- In each row of the trace the down train answers the up train exactly when the first down train
that the client logs answers the first up train that the server logs, and the start of each up
train from then on reached the server. -/
theorem joins_answer_iff (now : Int) (address : Address) (config : TrainConfigFields)
    (server : PacketTrainServer) (currTrainNum : Nat) (events : List Event) (s : TrainExchange)
    (run : Run Step (start now address config server currTrainNum) events s) :
    ∃ trace, generateTrace s.upLog s.client.packetLog = .ok trace ∧
      ∀ row ∈ trace, ∃ firstUp firstDown,
        firstTrain (upRows s.upLog) = some firstUp ∧
        firstTrain (downRows s.client.packetLog) = some firstDown ∧
        Joins (upRows s.upLog) (downRows s.client.packetLog) row (firstUp + row.trainId)
          (firstDown + row.trainId) ∧
        (s.Answers (firstDown + row.trainId) (firstUp + row.trainId) ↔
          s.Answers firstDown firstUp ∧
            ∀ u, firstUp ≤ u → u ≤ firstUp + row.trainId → s.Answered u) := by
  obtain ⟨up, down⟩ := run_sides run
  obtain ⟨trace, generated, joined⟩ := run_joins run
  refine ⟨trace, generated, ?_⟩
  intro row member
  obtain ⟨firstUp, firstDown, foundUp, foundDown, joins⟩ := joined row member
  refine ⟨firstUp, firstDown, foundUp, foundDown, joins, ?_⟩
  obtain ⟨⟨c, least⟩, floor⟩ := up.firstTrain_least foundUp
  obtain ⟨v, begins⟩ := down.firstTrain_answers foundDown
  have probed : s.Answered (firstUp + row.trainId) := by
    apply up.answered_of_probe
    intro none
    have pdos := joins.upPdos
    rw [none] at pdos
    cases pdos
  have behind := floor _ probed
  obtain ⟨n, apart⟩ := Int.le.dest behind
  have count : row.trainId = n := by omega
  rw [count]
  exact down.numbers.shift_iff least (fun a x given => floor x ⟨a, given⟩) begins

def sessionSeven : TrainConfigFields := ⟨7, 30, 30, 2, 2, 98⟩

/-- A new server, on which client 7 is configured for trains of two packets each way. -/
def sevenConfigured : TrainExchange :=
  start 1 ⟨"10.0.0.2".toList, 7002⟩ sessionSeven PacketTrainServer.init 0

/-- An up train at some second, and its answer, of which all packets arrive. -/
def exchange (second : Int) : List Event :=
  [.sendDataTrain 2 (second * 10 ^ 9), .serve (second * 10 ^ 9 + 10),
    .serve (second * 10 ^ 9 + 20), .receive 0 (second * 10 ^ 9 + 100),
    .receive 0 (second * 10 ^ 9 + 200)]

/-- The same, without the last packets of both trains. -/
def exchangeCut (second : Int) : List Event :=
  [.sendDataTrain 2 (second * 10 ^ 9), .serve (second * 10 ^ 9 + 10), .loseUp 0,
    .loseDown 1, .receive 0 (second * 10 ^ 9 + 100)]

def endsLost : List Event := exchange 0 ++ exchangeCut 1 ++ exchangeCut 2 ++ exchange 3

/-- Of the second up train the start is lost. -/
def startLost : List Event :=
  exchange 0 ++ [.sendDataTrain 2 (10 ^ 9), .loseUp 0, .serve (10 ^ 9 + 20)] ++ exchange 2 ++
    exchange 3

/-- The first trains of the logs, the train of the last row of the trace, and the answers. -/
def ending (s : TrainExchange) :
    Option Int × Option Int × Option (Option Int) × List (Int × Int) :=
  (firstTrain (upRows s.upLog), firstTrain (downRows s.client.packetLog),
    (generateTrace s.upLog s.client.packetLog).toOption.map
      (fun trace => trace.getLast?.map TraceRow.trainId), s.answers)

/-- Packets that are no starts may be lost: the last row is of an up train and its answer. -/
theorem joins_answer_iff_endsLost : ∃ s trace row, Run Step sevenConfigured endsLost s ∧
    generateTrace s.upLog s.client.packetLog = .ok trace ∧ row ∈ trace ∧
    Joins (upRows s.upLog) (downRows s.client.packetLog) row 3 3 ∧ s.Answers 3 3 := by
  have observed : (execAll exec (fun _ _ => True) endsLost sevenConfigured).map ending =
      some (some 0, some 0, some (some 3), [(0, 0), (1, 1), (2, 2), (3, 3)]) := by
    decide +kernel
  obtain ⟨s, returned, seen⟩ := Option.map_eq_some_iff.mp observed
  have run := (run_of_execAll returned).mono (fun _ _ _ step => step.1)
  unfold ending at seen
  simp only [Prod.mk.injEq] at seen
  obtain ⟨firstUp, firstDown, last, answers⟩ := seen
  obtain ⟨trace, generated, joined⟩ := joins_answer_iff 1 _ sessionSeven _ 0 endsLost s run
  rw [generated] at last
  obtain ⟨row, end', train⟩ := Option.map_eq_some_iff.mp (Option.some.inj last)
  have member := List.mem_of_getLast? end'
  obtain ⟨up, down, foundUp, foundDown, joins, answer⟩ := joined row member
  rw [firstUp] at foundUp
  rw [firstDown] at foundDown
  rw [← Option.some.inj foundUp, ← Option.some.inj foundDown, train] at joins answer
  refine ⟨s, trace, row, run, generated, member, joins, answer.mpr ?_⟩
  unfold Answered Answers
  rw [answers]
  refine ⟨by decide, ?_⟩
  intro u lower upper
  refine ⟨u, ?_⟩
  simp only [List.mem_cons, Prod.mk.injEq, and_self, List.not_mem_nil, or_false]
  omega

/-- The trace of such a run combines up train 2 with the down train that answers up train 3. -/
theorem not_joins_answer : ∃ s trace row firstUp firstDown,
    Run Step sevenConfigured startLost s ∧
    generateTrace s.upLog s.client.packetLog = .ok trace ∧ row ∈ trace ∧
    firstTrain (upRows s.upLog) = some firstUp ∧
    firstTrain (downRows s.client.packetLog) = some firstDown ∧
    Joins (upRows s.upLog) (downRows s.client.packetLog) row (firstUp + row.trainId)
      (firstDown + row.trainId) ∧
    s.Answers (firstDown + row.trainId) 3 ∧
    ¬ s.Answers (firstDown + row.trainId) (firstUp + row.trainId) := by
  have observed : (execAll exec (fun _ _ => True) startLost sevenConfigured).map ending =
      some (some 0, some 0, some (some 2), [(0, 0), (1, 2), (2, 3)]) := by
    decide +kernel
  obtain ⟨s, returned, seen⟩ := Option.map_eq_some_iff.mp observed
  have run := (run_of_execAll returned).mono (fun _ _ _ step => step.1)
  unfold ending at seen
  simp only [Prod.mk.injEq] at seen
  obtain ⟨firstUp, firstDown, last, answers⟩ := seen
  obtain ⟨trace, generated, joined⟩ := run_joins run
  rw [generated] at last
  obtain ⟨row, end', train⟩ := Option.map_eq_some_iff.mp (Option.some.inj last)
  have member := List.mem_of_getLast? end'
  obtain ⟨up, down, foundUp, foundDown, joins⟩ := joined row member
  refine ⟨s, trace, row, up, down, run, generated, member, foundUp, foundDown, joins, ?_⟩
  rw [firstUp] at foundUp
  rw [firstDown] at foundDown
  rw [← Option.some.inj foundUp, ← Option.some.inj foundDown, train]
  unfold Answers
  rw [answers]
  decide

end TrainExchange

end CellReplay
