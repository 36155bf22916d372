import CellReplay.Record.Dispatch
import CellReplay.Record.FixedFormats

set_option autoImplicit false

namespace CellReplay

open BigEndian Binary64 FueledLoop DynamicServer

/-- The ms between two times in ns, a quotient of floating-point numbers. -/
def msBetween (later earlier : Int) : ℚ := double (double (later - earlier) / 10 ^ 6)

namespace DynamicPacketTrainPayload

def pktInfoStart : Int64 := 1
def pktInfoEnd : Int64 := 2
def pktInfoDummy : Int64 := 10

/-- The constructor from a buffer and the length of what it holds, with the size of the packet. -/
def ofStream (stream : Bytes) (length : Nat) : DynamicPacketTrainPayload × Int :=
  let longBuffer := getLong (RandomBytes.copyOfRange stream 64)
  ({ seqNum := longBuffer 0
     sentTimestamp := longBuffer 1
     recvTimestamp := longBuffer 2
     senderId := longBuffer 3
     trainNum := longBuffer 4
     pktInfo := longBuffer 5
     trainSize := longBuffer 6
     trainGapMs := longBuffer 7 }, length + udpHeaderSize.toInt)

theorem ofStream_record (p : DynamicPacketTrainPayload) (rest : Bytes) (length : Nat) :
    ofStream (record 8 (p.longs.map word) ++ rest) length = (p, (length : Int) + 42) := by
  have field : ∀ i (inside : i < p.longs.length), getLong (RandomBytes.copyOfRange
      (record 8 (p.longs.map word) ++ rest) 64) i = p.longs[i] :=
    fun i inside => getLong_copyOfRange inside (Nat.le_refl 64)
  unfold ofStream
  rw [Prod.mk.injEq, DynamicPacketTrainPayload.mk.injEq]
  exact ⟨⟨field 0 (show 0 < 8 by omega), field 1 (show 1 < 8 by omega),
    field 2 (show 2 < 8 by omega), field 3 (show 3 < 8 by omega), field 4 (show 4 < 8 by omega),
    field 5 (show 5 < 8 by omega), field 6 (show 6 < 8 by omega),
    field 7 (show 7 < 8 by omega)⟩, rfl⟩

end DynamicPacketTrainPayload

/-- A packet line of the log of the client. -/
structure EchoLogLine where
  trainNum : Int64
  seqNum : Int64
  sentTimestamp : Int64
  recvTimestamp : Int64
  packetSize : Int
  rtt : ℚ
  trainSize : Int64
  trainGapMs : Int64
  deriving DecidableEq, Repr

/-- What a line says of a packet that was sent. -/
structure EchoLogLine.Of (line : EchoLogLine) (p : DynamicPacketTrainPayload) : Prop where
  trainNum : line.trainNum = p.trainNum
  seqNum : line.seqNum = p.seqNum
  sentTimestamp : line.sentTimestamp = p.sentTimestamp
  trainSize : line.trainSize = p.trainSize
  trainGapMs : line.trainGapMs = p.trainGapMs

/-- The client that sends trains and logs their echoes. -/
structure PacketTrainEchoDynamicSending where
  senderId : Int64
  packetSize : Int32
  upload : Int64
  trainNum : Int64
  assertions : Bool
  randomBytes : RandomBytes
  deriving DecidableEq, Repr

namespace PacketTrainEchoDynamicSending

def maxContentSize : Int := 1400 - 42

section
variable (c : PacketTrainEchoDynamicSending) (timestamp : Int64) (numPackets trainGapMs : Int32)

/-- The packet that a turn of the loop of `sendDataTrain` fills in. -/
def dataPacket (i : Nat) : DynamicPacketTrainPayload where
  seqNum := Int64.ofNat i
  sentTimestamp := timestamp
  recvTimestamp := 0
  senderId := c.senderId
  trainNum := c.trainNum
  pktInfo :=
    if i = 0 then DynamicPacketTrainPayload.pktInfoStart
    else if (i : Int) = numPackets.toInt - 1 then DynamicPacketTrainPayload.pktInfoEnd
    else 0
  trainSize := numPackets.toInt64
  trainGapMs := trainGapMs.toInt64

/-- A turn of the loop. -/
def sendPacket (sending : List Bytes × RandomBytes) (i : Nat) :
    Except Fault (List Bytes × RandomBytes) := do
  let (pktByte, randomBytes) ← (c.dataPacket timestamp numPackets trainGapMs i).serialize
    c.assertions c.packetSize sending.2
  return (sending.1 ++ [pktByte], randomBytes)

/-- The datagrams of a train. -/
def sendDataTrain : Except Fault (List Bytes × PacketTrainEchoDynamicSending) := do
  let (sent, randomBytes) ← (List.range numPackets.toInt.toNat).foldlM
    (c.sendPacket timestamp numPackets trainGapMs) ([], c.randomBytes)
  return (sent, { c with trainNum := c.trainNum + 1, randomBytes := randomBytes })

/-- The line that `recvPayload` writes: none for the packet of another sender or a dummy. -/
def recvPayload (payload : DynamicPacketTrainPayload) (packetSize : Int) : Option EchoLogLine :=
  let payload := { payload with recvTimestamp := timestamp }
  if payload.senderId ≠ c.senderId then none
  else if payload.pktInfo = DynamicPacketTrainPayload.pktInfoDummy then none
  else
    let rtt := if c.upload = 1
      then msBetween (payload.recvTimestamp - payload.sentTimestamp).toInt 0 else 0
    some
      { trainNum := payload.trainNum
        seqNum := payload.seqNum
        sentTimestamp := payload.sentTimestamp
        recvTimestamp := payload.recvTimestamp
        packetSize := packetSize
        rtt := rtt
        trainSize := payload.trainSize
        trainGapMs := payload.trainGapMs }

/-- `recvPacket`, on the second socket, with the line that is written. -/
def recvPacket (datagram : Bytes) : Option EchoLogLine :=
  match CellReplay.recvPacket maxContentSize DynamicPacketTrainPayload.ofStream datagram with
  | .payload p => c.recvPayload timestamp p.1 p.2
  | _ => none

end

/-- The datagrams of a train are its packets, in their order. -/
theorem foldlM_sendPacket {c : PacketTrainEchoDynamicSending} {timestamp : Int64}
    {numPackets trainGapMs : Int32} (count : Nat) : ∀ {sending : List Bytes × RandomBytes},
      (List.range count).foldlM (c.sendPacket timestamp numPackets trainGapMs)
        ([], c.randomBytes) = .ok sending →
      sending.1.length = count ∧ ∀ i datagram, sending.1[i]? = some datagram →
        ∃ randomBytes next, (c.dataPacket timestamp numPackets trainGapMs i).serialize
          c.assertions c.packetSize randomBytes = .ok (datagram, next) := by
  induction count with
  | zero =>
      intro sending ran
      rw [← Except.ok.inj ran]
      exact ⟨rfl, fun i datagram found => by cases found⟩
  | succ count ih =>
      intro sending ran
      rw [List.range_succ, List.foldlM_append, bind_eq_ok] at ran
      obtain ⟨before, ran, last⟩ := ran
      rw [List.foldlM_cons, bind_eq_ok] at last
      obtain ⟨after, turn, returned⟩ := last
      rw [← Except.ok.inj returned]
      obtain ⟨⟨pktByte, next⟩, serialized, same⟩ := bind_eq_ok.mp turn
      rw [← Except.ok.inj same]
      obtain ⟨length, earlier⟩ := ih ran
      refine ⟨by rw [List.length_append, length, List.length_singleton], ?_⟩
      intro i datagram found
      rw [List.getElem?_append] at found
      split at found
      · exact earlier i datagram found
      · rename_i outside
        obtain ⟨inside, same⟩ := List.getElem?_eq_some_iff.mp found
        rw [List.length_singleton] at inside
        have last : i = count := by omega
        rw [List.getElem_singleton] at same
        rw [← same, last]
        exact ⟨_, _, serialized⟩

theorem sendDataTrain_eq_ok {c next : PacketTrainEchoDynamicSending} {timestamp : Int64}
    {numPackets trainGapMs : Int32} {sent : List Bytes}
    (ran : c.sendDataTrain timestamp numPackets trainGapMs = .ok (sent, next)) {i : Nat}
    {datagram : Bytes} (found : sent[i]? = some datagram) :
    ∃ randomBytes after, (c.dataPacket timestamp numPackets trainGapMs i).serialize
      c.assertions c.packetSize randomBytes = .ok (datagram, after) := by
  obtain ⟨⟨all, _⟩, looped, same⟩ := bind_eq_ok.mp ran
  have whole : all = sent := congrArg Prod.fst (Except.ok.inj same)
  rw [← whole] at found
  exact (foldlM_sendPacket _ looped).2 i datagram found

end PacketTrainEchoDynamicSending

/-- A packet line of the log of the server. -/
structure EchoServerLine where
  trainNum : Int
  seqNum : Int
  sentTimestamp : Int
  recvTimestamp : Int
  senderId : Int
  packetSize : Nat
  rtt : ℚ
  trainSize : Int
  trainGapMs : Int
  deriving DecidableEq, Repr

/-- The variables of `main` of the echo server that a data packet reads or changes. -/
structure EchoProbeServer where
  currSenderId : Int
  currUpload : Int
  currEchoToFirstAndTail : Int
  logFile : Option (LogFile EchoServerLine)
  rtts : List ℚ
  logTime : Int
  currLogTimestamp : Int
  lastRecvClientPacket : Int
  deriving DecidableEq, Repr

namespace EchoProbeServer

def maxAckSize : Nat := 1400 - 42
def payloadPktInfoStart : Int := 1
def payloadPktInfoEnd : Int := 2
def logMs : ℚ := 1000

/-- The time is written byte by byte over the third field. -/
def addRecvTimeAndTrim (packet : Bytes) (recvTime : Int) : Except Fault Bytes := do
  let packetBytes ← intToBytes recvTime
  if packet.length < 24 then .error (.runtimeError "bytearray index out of range")
  else
    let newPacket := packet.take (8 * 2) ++ packetBytes ++ packet.drop (8 * (2 + 1))
    if maxAckSize < newPacket.length then return newPacket.take maxAckSize
    else return newPacket

section
variable (s : EchoProbeServer) (now : Int)

/-- Whether a packet of the session is echoed, in uplink mode. -/
def echoes (fields : PacketFields) : Bool :=
  fields.senderId = s.currSenderId ∧ s.currUpload = 1 ∧ (s.currEchoToFirstAndTail = 0 ∨
    fields.pktInfo = payloadPktInfoStart ∨ fields.pktInfo = payloadPktInfoEnd)

def echo (message : Bytes) (fields : PacketFields) : Except Fault (Option Bytes) :=
  if s.echoes fields then (addRecvTimeAndTrim message now).map some else .ok none

/-- Once a second the round-trip times are started anew. -/
def logRtts : EchoProbeServer :=
  let s := if s.currLogTimestamp = 0 then { s with currLogTimestamp := now } else s
  if logMs ≤ msBetween now s.currLogTimestamp then
    { s with
      rtts := []
      logTime := s.logTime + 1
      currLogTimestamp := now }
  else s

/-- The data branch of `main`, with what it sends to the second socket of the client. -/
def handleData (message : Bytes) (fields : PacketFields) :
    Except Fault (EchoProbeServer × Option Bytes) := do
  let rtt := if s.currUpload = 0 then msBetween now fields.sentTimestamp else 0
  let logFile ← LogFile.write
    { trainNum := fields.trainNum
      seqNum := fields.seqNum
      sentTimestamp := fields.sentTimestamp
      recvTimestamp := now
      senderId := fields.senderId
      packetSize := message.length
      rtt := rtt
      trainSize := fields.trainSize
      trainGapMs := fields.trainGapMs } s.logFile
  let pkt ← s.echo now message fields
  let rtts :=
    if fields.senderId = s.currSenderId ∧ s.currUpload ≠ 1 then s.rtts ++ [rtt] else s.rtts
  return ({ logRtts { s with logFile := some logFile, rtts := rtts } now with
    lastRecvClientPacket := now }, pkt)

end

/-- A datagram of the client is taken for a data packet and echoed. -/
def Answers (s : EchoProbeServer) (now : Int) (datagram reply : Bytes) : Prop :=
  ∃ fields s', DynamicServer.receive datagram = .ok (.data fields) ∧
    s.handleData now (recvfrom datagram) fields = .ok (s', some reply)

/-- An echo is the packet with the time of its receipt, cut off at the maximum. -/
theorem handleData_echo {s s' : EchoProbeServer} {now : Int} {message reply : Bytes}
    {fields : PacketFields} (handled : s.handleData now message fields = .ok (s', some reply)) :
    addRecvTimeAndTrim message now = .ok reply := by
  obtain ⟨_, _, handled⟩ := bind_eq_ok.mp handled
  obtain ⟨pkt, made, same⟩ := bind_eq_ok.mp handled
  have sent : pkt = some reply := congrArg Prod.snd (Except.ok.inj same)
  rw [sent] at made
  unfold echo at made
  split at made
  · cases added : addRecvTimeAndTrim message now with
    | error fault =>
        rw [added] at made
        cases made
    | ok echo =>
        rw [added] at made
        rw [Option.some.inj (Except.ok.inj made)]
  · cases made

/-- While the log is open and the clock fits eight bytes, every packet that is to be echoed is. -/
theorem handleData_returns {s : EchoProbeServer} {now : Int} {message : Bytes}
    {fields : PacketFields} {file : LogFile EchoServerLine} (opened : s.logFile = some file)
    (writable : file.closed = false) (chosen : s.echoes fields = true)
    (clock : 0 ≤ now ∧ now < 256 ^ 8) (long : 24 ≤ message.length) :
    ∃ s' reply, s.handleData now message fields = .ok (s', some reply) := by
  have added : ∃ reply, addRecvTimeAndTrim message now = .ok reply := by
    unfold addRecvTimeAndTrim intToBytes
    rw [if_pos clock]
    show ∃ reply, (if message.length < 24 then _ else _) = Except.ok reply
    rw [if_neg (by omega)]
    split
    · exact ⟨_, rfl⟩
    · exact ⟨_, rfl⟩
  obtain ⟨reply, added⟩ := added
  have echoed : s.echo now message fields = .ok (some reply) := by
    unfold echo
    rw [if_pos chosen, added]
    rfl
  unfold handleData LogFile.write
  rw [opened]
  dsimp only
  rw [writable, if_neg Bool.false_ne_true, echoed]
  exact ⟨_, reply, rfl⟩

theorem fields_length (p : DynamicPacketTrainPayload) :
    (record 8 (p.longs.map word)).length = 64 := by
  rw [record_length]
  rfl

/-- The third word of a record is that of the time of its receipt. -/
theorem set_recvTimestamp (p : DynamicPacketTrainPayload) {recvTime : Nat}
    (below : recvTime < 2 ^ 64) : (p.longs.map word).set 2 recvTime =
      { p with recvTimestamp := (UInt64.ofNat recvTime).toInt64 }.longs.map word := by
  have same : word (UInt64.ofNat recvTime).toInt64 = recvTime := by
    unfold word
    simp only [UInt64.toUInt64_toInt64]
    exact UInt64.toNat_ofNat_of_lt' below
  show [word p.seqNum, word p.sentTimestamp, recvTime, word p.senderId, word p.trainNum,
      word p.pktInfo, word p.trainSize, word p.trainGapMs] =
    [word p.seqNum, word p.sentTimestamp, word (UInt64.ofNat recvTime).toInt64,
      word p.senderId, word p.trainNum, word p.pktInfo, word p.trainSize, word p.trainGapMs]
  rw [same]

/-- The time that the client does not read takes the place of a field; the rest of the record
stays. -/
theorem addRecvTimeAndTrim_record {p : DynamicPacketTrainPayload} {payload reply : Bytes}
    {recvTime : Int} (added : addRecvTimeAndTrim (record 8 (p.longs.map word) ++ payload) recvTime =
      .ok reply) :
    reply.length = min (64 + payload.length) maxAckSize ∧ ∃ stamp rest,
      reply = record 8 ({ p with recvTimestamp := stamp }.longs.map word) ++ rest := by
  obtain ⟨packetBytes, converted, added⟩ := bind_eq_ok.mp added
  unfold intToBytes at converted
  split at converted
  · rename_i range
    rw [← Except.ok.inj converted] at added
    have inside : 2 < (p.longs.map word).length := show 2 < 8 by omega
    rw [record_set inside, set_recvTimestamp p (by omega)] at added
    generalize (UInt64.ofNat recvTime.toNat).toInt64 = stamp at added
    have front := fields_length { p with recvTimestamp := stamp }
    rw [if_neg (by rw [List.length_append, fields_length]; omega)] at added
    dsimp only at added
    split at added
    · rename_i long
      rw [← Except.ok.inj added]
      refine ⟨?_, stamp, payload.take (maxAckSize - 64), ?_⟩
      · rw [List.length_append, front] at long
        rw [List.length_take, List.length_append, front]
        omega
      · rw [List.take_append, front, List.take_of_length_le (by rw [front]; decide)]
    · rename_i short
      rw [← Except.ok.inj added]
      refine ⟨?_, stamp, payload, rfl⟩
      rw [List.length_append, front] at short
      rw [List.length_append, front]
      omega
  · cases converted

end EchoProbeServer

namespace PacketTrainEchoDynamicSending

/-- An echo as long as the client expects is logged with the values that were sent. -/
theorem recvPacket_echo {c : PacketTrainEchoDynamicSending} {p : DynamicPacketTrainPayload}
    {reply rest : Bytes} (shape : reply = record 8 (p.longs.map word) ++ rest)
    (length : reply.length = EchoProbeServer.maxAckSize) (sender : p.senderId = c.senderId)
    (info : p.pktInfo ≠ DynamicPacketTrainPayload.pktInfoDummy) (timestamp : Int64) :
    ∃ line, c.recvPacket timestamp reply = some line ∧ EchoLogLine.Of line p := by
  have fits : reply.length ≤ DatagramPacket.maxSize := by
    rw [length]
    decide
  have other : reply.length ≠ ThroughputInfoPacket.length := by
    rw [length]
    decide
  obtain ⟨rest', received⟩ : ∃ rest', CellReplay.recvPacket reply.length
      DynamicPacketTrainPayload.ofStream reply = .payload (DynamicPacketTrainPayload.ofStream
        (record 8 (p.longs.map word) ++ rest') reply.length) := recvPacket_payload shape fits other
  have expected : maxContentSize = reply.length := by
    rw [length]
    rfl
  unfold recvPacket
  rw [expected, received, DynamicPacketTrainPayload.ofStream_record]
  dsimp only
  unfold recvPayload
  dsimp only
  rw [if_neg (not_not.mpr sender), if_neg info]
  exact ⟨_, rfl, ⟨rfl, rfl, rfl, rfl, rfl⟩⟩

/-- Any other length is not logged. -/
theorem recvPacket_other {c : PacketTrainEchoDynamicSending} {reply : Bytes}
    (length : reply.length < EchoProbeServer.maxAckSize) (timestamp : Int64) :
    c.recvPacket timestamp reply = none := by
  have size : (DatagramPacket.receive reply).length = reply.length := by
    apply Nat.min_eq_left
    unfold EchoProbeServer.maxAckSize at length
    unfold DatagramPacket.maxSize
    omega
  have shorter : ((DatagramPacket.receive reply).length : Int) ≠ maxContentSize := by
    rw [size]
    unfold EchoProbeServer.maxAckSize at length
    unfold maxContentSize
    omega
  unfold recvPacket CellReplay.recvPacket
  dsimp only
  rw [if_neg shorter]
  split
  · rename_i taken
    split at taken
    · cases taken
    · cases taken
  · rfl

theorem dataPacket_pktInfo (c : PacketTrainEchoDynamicSending) (timestamp : Int64)
    (numPackets trainGapMs : Int32) (i : Nat) :
    (c.dataPacket timestamp numPackets trainGapMs i).pktInfo ≠
      DynamicPacketTrainPayload.pktInfoDummy := by
  unfold dataPacket
  dsimp only
  split
  · decide
  · split
    · decide
    · decide

/-- The echo of a packet of a train: its length, and the fields it still has. -/
theorem answers_shape {c next : PacketTrainEchoDynamicSending} {timestamp : Int64}
    {numPackets trainGapMs : Int32} {sent : List Bytes} {i : Nat} {datagram reply : Bytes}
    {s : EchoProbeServer} {now : Int} (low : 106 ≤ c.packetSize.toInt)
    (high : c.packetSize.toInt ≤ 1442)
    (ran : c.sendDataTrain timestamp numPackets trainGapMs = .ok (sent, next))
    (found : sent[i]? = some datagram) (answered : s.Answers now datagram reply) :
    (reply.length : Int) = min (c.packetSize.toInt - 42) EchoProbeServer.maxAckSize ∧
      ∃ stamp rest, reply = record 8 ({ c.dataPacket timestamp numPackets trainGapMs i with
        recvTimestamp := stamp }.longs.map word) ++ rest := by
  obtain ⟨randomBytes, after, serialized⟩ := sendDataTrain_eq_ok ran found
  obtain ⟨size, payload, shape⟩ := DynamicPacketTrainPayload.serialize_eq_ok serialized
  rw [DynamicPacketTrainPayload.udpHeaderSize, toInt_sub_udpHeaderSize (by omega)] at size
  obtain ⟨_, _, _, handled⟩ := answered
  have echo := EchoProbeServer.handleData_echo handled
  rw [recvfrom_eq (by omega), shape] at echo
  obtain ⟨length, kept⟩ := EchoProbeServer.addRecvTimeAndTrim_record echo
  have whole : 64 + payload.length = datagram.length := by
    rw [shape, List.length_append, record_length]
    rfl
  rw [whole] at length
  exact ⟨by omega, kept⟩

/-- An echoed packet is logged with the values that were sent if and only if the packets are of at
least 1400 bytes. -/
theorem echo_logged_iff {c next later : PacketTrainEchoDynamicSending}
    {timestamp recvTimestamp : Int64} {numPackets trainGapMs : Int32} {sent : List Bytes} {i : Nat}
    {datagram reply : Bytes} {s : EchoProbeServer} {now : Int}
    (low : 106 ≤ c.packetSize.toInt) (high : c.packetSize.toInt ≤ 1442)
    (ran : c.sendDataTrain timestamp numPackets trainGapMs = .ok (sent, next))
    (found : sent[i]? = some datagram) (echoed : s.Answers now datagram reply)
    (session : later.senderId = c.senderId) :
    (∃ line, later.recvPacket recvTimestamp reply = some line ∧
      EchoLogLine.Of line (c.dataPacket timestamp numPackets trainGapMs i)) ↔
        1400 ≤ c.packetSize.toInt := by
  obtain ⟨length, stamp, rest, shape⟩ := answers_shape low high ran found echoed
  by_cases large : 1400 ≤ c.packetSize.toInt
  · have full : reply.length = EchoProbeServer.maxAckSize := by
      unfold EchoProbeServer.maxAckSize at length ⊢
      omega
    obtain ⟨line, logged, values⟩ := recvPacket_echo shape full session.symm
      (dataPacket_pktInfo c timestamp numPackets trainGapMs i) recvTimestamp
    exact iff_of_true ⟨line, logged, ⟨values.trainNum, values.seqNum, values.sentTimestamp,
      values.trainSize, values.trainGapMs⟩⟩ large
  · apply iff_of_false _ large
    rintro ⟨line, logged, _⟩
    have short : reply.length < EchoProbeServer.maxAckSize := by
      unfold EchoProbeServer.maxAckSize at length ⊢
      omega
    rw [recvPacket_other short] at logged
    cases logged

/-- A client that sends packets of a size, with its random bytes. -/
def ofSize (packetSize : Int32) : PacketTrainEchoDynamicSending where
  senderId := 7
  packetSize := packetSize
  upload := 1
  trainNum := 3
  assertions := true
  randomBytes := ⟨[List.replicate 1500 0], 0⟩

/-- A server that echoes every packet of that client. -/
def probeServer : EchoProbeServer where
  currSenderId := 7
  currUpload := 1
  currEchoToFirstAndTail := 0
  logFile := some ⟨[], false⟩
  rtts := []
  logTime := 0
  currLogTimestamp := 0
  lastRecvClientPacket := 0

section
variable {c : PacketTrainEchoDynamicSending} {s : EchoProbeServer} {timestamp : Int64}
  {trainGapMs : Int32} {now : Int} {bytes : Bytes} {file : LogFile EchoServerLine}

theorem sendDataTrain_single {out : Bytes × RandomBytes}
    (serialized : (c.dataPacket timestamp 1 trainGapMs 0).serialize c.assertions c.packetSize
      c.randomBytes = .ok out) :
    c.sendDataTrain timestamp 1 trainGapMs =
      .ok ([out.1], { c with trainNum := c.trainNum + 1, randomBytes := out.2 }) := by
  have turn : c.sendPacket timestamp 1 trainGapMs ([], c.randomBytes) 0 = .ok ([out.1], out.2) :=
    bind_eq_ok.mpr ⟨out, serialized, rfl⟩
  exact bind_eq_ok.mpr ⟨_, bind_eq_ok.mpr ⟨_, turn, rfl⟩, rfl⟩

/-- A train of one packet is sent and echoed. -/
theorem single_answered (low : 106 ≤ c.packetSize.toInt) (high : c.packetSize.toInt ≤ 1442)
    (drawn : c.randomBytes.randomDicts[c.randomBytes.currIdx]? = some bytes)
    (opened : s.logFile = some file) (writable : file.closed = false)
    (sender : s.currSenderId = word c.senderId) (upload : s.currUpload = 1)
    (all : s.currEchoToFirstAndTail = 0) (clock : 0 ≤ now ∧ now < 256 ^ 8) :
    ∃ datagram next reply, c.sendDataTrain timestamp 1 trainGapMs = .ok ([datagram], next) ∧
      s.Answers now datagram reply ∧ next.senderId = c.senderId := by
  have room : (c.packetSize - 42).toInt = c.packetSize.toInt - 42 :=
    toInt_sub_udpHeaderSize (by omega)
  have maximum : RandomBytes.maxPacketSize = 1500 := rfl
  obtain ⟨out, serialized⟩ : ∃ out, (c.dataPacket timestamp 1 trainGapMs 0).serialize c.assertions
      c.packetSize c.randomBytes = .ok out := by
    rw [DynamicPacketTrainPayload.serialize_eq, DynamicPacketTrainPayload.udpHeaderSize, room]
    apply serializePayload_returns _ _ drawn
    · show 8 * ((8 : Nat) : Int) ≤ _
      omega
    · omega
  have size := (DynamicPacketTrainPayload.serialize_eq_ok serialized).1
  rw [DynamicPacketTrainPayload.udpHeaderSize, room] at size
  have received := DynamicPacketTrainPayload.receive_serialize serialized
  have counter : (c.dataPacket timestamp 1 trainGapMs 0).seqNum ≠ 1234 := by
    show Int64.ofNat 0 ≠ 1234
    decide
  rw [if_neg counter] at received
  obtain ⟨fields, received, chosen⟩ : ∃ fields, receive out.1 = .ok (.data fields) ∧
      s.echoes fields = true := ⟨_, received, decide_eq_true ⟨sender.symm, upload, .inl all⟩⟩
  obtain ⟨s', reply, handled⟩ := EchoProbeServer.handleData_returns opened writable chosen clock
    (show 24 ≤ (recvfrom out.1).length by rw [recvfrom_eq (by omega)]; omega)
  exact ⟨out.1, _, reply, sendDataTrain_single serialized, ⟨_, s', received, handled⟩, rfl⟩

end

/-- Packets of 1400 bytes are echoed and logged. -/
theorem echo_logged_iff_largest : ∃ datagram next reply line,
    (ofSize 1400).sendDataTrain 5 1 50 = .ok ([datagram], next) ∧
      probeServer.Answers 1000 datagram reply ∧ next.recvPacket 2000 reply = some line ∧
      EchoLogLine.Of line ((ofSize 1400).dataPacket 5 1 50 0) := by
  obtain ⟨datagram, next, reply, ran, answered, session⟩ := single_answered
    (show 106 ≤ (ofSize 1400).packetSize.toInt by decide) (by decide) rfl
    (show probeServer.logFile = some ⟨[], false⟩ from rfl) rfl rfl rfl rfl
    (show 0 ≤ (1000 : Int) ∧ 1000 < 256 ^ 8 by decide)
  obtain ⟨line, logged, values⟩ := (echo_logged_iff (by decide) (by decide) ran
    (show [datagram][0]? = some datagram from rfl) answered session).mpr (by decide)
  exact ⟨datagram, next, reply, line, ran, answered, logged, values⟩

/-- The echo of a packet of 142 bytes is not logged. -/
theorem not_echo_logged : ∃ datagram next reply,
    (ofSize 142).sendDataTrain 5 1 50 = .ok ([datagram], next) ∧
      probeServer.Answers 1000 datagram reply ∧ next.recvPacket 2000 reply = none := by
  obtain ⟨datagram, next, reply, ran, answered, _⟩ := single_answered
    (show 106 ≤ (ofSize 142).packetSize.toInt by decide) (by decide) rfl
    (show probeServer.logFile = some ⟨[], false⟩ from rfl) rfl rfl rfl rfl
    (show 0 ≤ (1000 : Int) ∧ 1000 < 256 ^ 8 by decide)
  obtain ⟨length, _⟩ := answers_shape (by decide) (by decide) ran
    (show [datagram][0]? = some datagram from rfl) answered
  have size : (ofSize 142).packetSize.toInt = 142 := by decide
  have short : reply.length < EchoProbeServer.maxAckSize := by
    unfold EchoProbeServer.maxAckSize at length ⊢
    omega
  exact ⟨datagram, next, reply, ran, answered, recvPacket_other short 2000⟩

end PacketTrainEchoDynamicSending

end CellReplay
