import CellReplay.Record.ClientReceive
import CellReplay.Record.PacketTrainServer
import CellReplay.Record.SaturatorServer

set_option autoImplicit false

namespace CellReplay

open BigEndian FueledLoop

/-- The configuration of a run of packet trains of one kind. -/
structure PacketTrainConfigPacket where
  senderId : Int64
  uploadGapMs : Int64
  downloadGapMs : Int64
  uploadNumPackets : Int64
  downloadNumPackets : Int64
  packetSize : Int64
  deriving DecidableEq, Repr

namespace PacketTrainConfigPacket

def length : Nat := 8 * 6

/-- The fields in the order they are written. -/
def longs (p : PacketTrainConfigPacket) : List Int64 :=
  [p.senderId, p.uploadGapMs, p.downloadGapMs, p.uploadNumPackets, p.downloadNumPackets,
    p.packetSize]

def serialize (p : PacketTrainConfigPacket) : Except Fault Bytes := serializeLongs length p.longs

theorem serialize_eq_ok {p : PacketTrainConfigPacket} {bytes : Bytes}
    (returned : p.serialize = .ok bytes) : bytes = record 8 (p.longs.map word) := by
  unfold serialize at returned
  exact serializeLongs_eq_ok rfl returned

end PacketTrainConfigPacket

/-- The configuration of a saturator. -/
structure SaturateConfigPacket where
  senderId : Int64
  uploadRate : Int64
  downloadRate : Int64
  packetSize : Int64
  deriving DecidableEq, Repr

namespace SaturateConfigPacket

def length : Nat := 8 * 4

def longs (p : SaturateConfigPacket) : List Int64 :=
  [p.senderId, p.uploadRate, p.downloadRate, p.packetSize]

def serialize (p : SaturateConfigPacket) : Except Fault Bytes := serializeLongs length p.longs

theorem serialize_eq_ok {p : SaturateConfigPacket} {bytes : Bytes}
    (returned : p.serialize = .ok bytes) : bytes = record 8 (p.longs.map word) := by
  unfold serialize at returned
  exact serializeLongs_eq_ok rfl returned

end SaturateConfigPacket

/-- A packet of a train, with the size it was sent or received in. -/
structure PacketTrainPayload where
  seqNum : Int64
  sentTimestamp : Int64
  recvTimestamp : Int64
  senderId : Int64
  trainNum : Int64
  pktInfo : Int64
  packetSize : Int
  deriving DecidableEq, Repr

namespace PacketTrainPayload

def udpHeaderSize : Int32 := 42

def longs (p : PacketTrainPayload) : List Int64 :=
  [p.seqNum, p.sentTimestamp, p.recvTimestamp, p.senderId, p.trainNum, p.pktInfo]

def serialize (assertions : Bool) (length : Int32) (randomBytes : RandomBytes)
    (p : PacketTrainPayload) : Except Fault (Bytes × RandomBytes) :=
  serializePayload (length - udpHeaderSize).toInt p.longs assertions randomBytes

/-- The constructor from a buffer and the length of what it holds. -/
def ofStream (stream : Bytes) (length : Nat) : PacketTrainPayload :=
  let longBuffer := getLong (RandomBytes.copyOfRange stream 48)
  { packetSize := length + udpHeaderSize.toInt
    seqNum := longBuffer 0
    sentTimestamp := longBuffer 1
    recvTimestamp := longBuffer 2
    senderId := longBuffer 3
    trainNum := longBuffer 4
    pktInfo := longBuffer 5 }

theorem ofStream_record (p : PacketTrainPayload) (rest : Bytes) (length : Nat) :
    ofStream (record 8 (p.longs.map word) ++ rest) length =
      { p with packetSize := length + 42 } := by
  have field : ∀ i (inside : i < p.longs.length), getLong (RandomBytes.copyOfRange
      (record 8 (p.longs.map word) ++ rest) 48) i = p.longs[i] :=
    fun i inside => getLong_copyOfRange inside (Nat.le_refl 48)
  unfold ofStream
  rw [PacketTrainPayload.mk.injEq]
  exact ⟨field 0 (show 0 < 6 by omega), field 1 (show 1 < 6 by omega),
    field 2 (show 2 < 6 by omega), field 3 (show 3 < 6 by omega), field 4 (show 4 < 6 by omega),
    field 5 (show 5 < 6 by omega), rfl⟩

end PacketTrainPayload

/-- A packet of a saturator, with the size it was sent or received in. -/
structure Payload where
  seqNum : Int64
  sentTimestamp : Int64
  recvTimestamp : Int64
  senderId : Int64
  packetSize : Int
  deriving DecidableEq, Repr

namespace Payload

def udpHeaderSize : Int32 := 42

def longs (p : Payload) : List Int64 := [p.seqNum, p.sentTimestamp, p.recvTimestamp, p.senderId]

def serialize (assertions : Bool) (length : Int32) (randomBytes : RandomBytes) (p : Payload) :
    Except Fault (Bytes × RandomBytes) :=
  serializePayload (length - udpHeaderSize).toInt p.longs assertions randomBytes

def ofStream (stream : Bytes) (length : Nat) : Payload :=
  let longBuffer := getLong (RandomBytes.copyOfRange stream 32)
  { packetSize := length + udpHeaderSize.toInt
    seqNum := longBuffer 0
    sentTimestamp := longBuffer 1
    recvTimestamp := longBuffer 2
    senderId := longBuffer 3 }

theorem ofStream_record (p : Payload) (rest : Bytes) (length : Nat) :
    ofStream (record 8 (p.longs.map word) ++ rest) length =
      { p with packetSize := length + 42 } := by
  have field : ∀ i (inside : i < p.longs.length), getLong (RandomBytes.copyOfRange
      (record 8 (p.longs.map word) ++ rest) 32) i = p.longs[i] :=
    fun i inside => getLong_copyOfRange inside (Nat.le_refl 32)
  unfold ofStream
  rw [Payload.mk.injEq]
  exact ⟨field 0 (show 0 < 4 by omega), field 1 (show 1 < 4 by omega),
    field 2 (show 2 < 4 by omega), field 3 (show 3 < 4 by omega), rfl⟩

end Payload

/-- The random payloads of a server, made once and used in turn. -/
structure RandomPayloads where
  payloads : List Bytes
  idx : Nat
  full : ∀ bytes ∈ payloads, bytes.length = RandomBytes.maxPacketSize
  inside : idx < payloads.length

namespace RandomPayloads

def get (r : RandomPayloads) : Bytes := r.payloads.get ⟨r.idx, r.inside⟩

def next (r : RandomPayloads) : RandomPayloads where
  payloads := r.payloads
  idx := (r.idx + 1) % r.payloads.length
  full := r.full
  inside := Nat.mod_lt _ (Nat.lt_of_le_of_lt (Nat.zero_le _) r.inside)

/-- `bytes[0:size]`, where a negative size counts from the end. -/
def sliceTo (bytes : Bytes) (size : Int) : Bytes :=
  bytes.take (if 0 ≤ size then size else bytes.length + size).toNat

def getRandomBytes (size : Int) (r : RandomPayloads) : Except Fault (Bytes × RandomPayloads) := do
  check "size <= MAX_PACKET_SIZE" (size ≤ RandomBytes.maxPacketSize)
  return (sliceTo r.get size, r.next)

theorem get_length (r : RandomPayloads) : r.get.length = RandomBytes.maxPacketSize :=
  r.full _ (List.get_mem _ _)

theorem getRandomBytes_eq_ok {size : Int} {r next : RandomPayloads} {bytes : Bytes}
    (nonneg : 0 ≤ size) (returned : r.getRandomBytes size = .ok (bytes, next)) :
    (bytes.length : Int) = size := by
  obtain ⟨_, checked, same⟩ := bind_eq_ok.mp returned
  have bounded := of_decide_eq_true (check_eq_ok.mp checked)
  have taken : sliceTo r.get size = bytes := congrArg Prod.fst (Except.ok.inj same)
  rw [← taken]
  unfold sliceTo
  rw [List.length_take, get_length, if_pos nonneg]
  omega

end RandomPayloads

/-- `value.to_bytes(8, 'big')`. -/
def intToBytes (value : Int) : Except Fault Bytes :=
  if 0 ≤ value ∧ value < 256 ^ 8 then .ok (toBytes 8 value.toNat)
  else .error (.runtimeError "OverflowError: int too big to convert")

/-- `bytearray(size)`. -/
def bytearray (size : Int) : Except Fault Bytes :=
  if size < 0 then .error (.runtimeError "ValueError: negative count")
  else .ok (List.replicate size.toNat 0)

/-- A number put in the place of the field `i`. -/
def setField (packet : Bytes) (field : Nat × Int) : Except Fault Bytes := do
  let packetBytes ← intToBytes field.2
  return packet.take (8 * field.1) ++ packetBytes ++ packet.drop (8 * (field.1 + 1))

/-- `create_data_packet` of a server: `count` fields, of which those given are set, and random
bytes. -/
def createPacket (count : Nat) (fields : List (Nat × Int)) (packetSize : Int) (r : RandomPayloads) :
    Except Fault (Bytes × RandomPayloads) := do
  let packet ← bytearray (packetSize - 42)
  let packet ← fields.foldlM setField packet
  let randomContentSize := packetSize - 42 - count * 8
  let (packetBytes, r) ← r.getRandomBytes randomContentSize
  return (packet.take (8 * count) ++ RandomPayloads.sliceTo packetBytes randomContentSize, r)

def PacketTrainServer.createDataPacket (senderId packetSize seqNum trainNum pktInfo
    initialSendTimestamp : Int) (r : RandomPayloads) : Except Fault (Bytes × RandomPayloads) :=
  createPacket 6 [(0, seqNum), (1, initialSendTimestamp), (3, senderId), (4, trainNum),
    (5, pktInfo)] packetSize r

/-- The counter of the packets is the global one. -/
def SaturatorServer.createDataPacket (senderId packetSize now currSeqNum : Int)
    (r : RandomPayloads) : Except Fault (Bytes × RandomPayloads × Int) := do
  let (packet, r) ← createPacket 4 [(0, currSeqNum), (1, now), (3, senderId)] packetSize r
  return (packet, r, currSeqNum + 1)

theorem setField_record {words : List Nat} {rest packet : Bytes} {field : Nat × Int}
    (inside : field.1 < words.length)
    (returned : setField (record 8 words ++ rest) field = .ok packet) :
    packet = record 8 (words.set field.1 field.2.toNat) ++ rest := by
  obtain ⟨packetBytes, converted, same⟩ := bind_eq_ok.mp returned
  unfold intToBytes at converted
  split at converted
  · rw [← Except.ok.inj same, ← Except.ok.inj converted]
    exact record_set inside _ rest
  · cases converted

/-- Setting fields of a record leaves a record. -/
theorem foldlM_setField {fields : List (Nat × Int)} {rest : Bytes} :
    ∀ {words : List Nat} {packet : Bytes}, (∀ field ∈ fields, field.1 < words.length) →
      fields.foldlM setField (record 8 words ++ rest) = .ok packet →
      packet = record 8 (fields.foldl (fun words field => words.set field.1 field.2.toNat) words) ++
        rest := by
  induction fields with
  | nil =>
      intro words packet _ returned
      exact (Except.ok.inj returned).symm
  | cons field fields ih =>
      intro words packet inside returned
      rw [List.foldlM_cons] at returned
      obtain ⟨middle, first, returned⟩ := bind_eq_ok.mp returned
      rw [setField_record (inside field List.mem_cons_self) first] at returned
      apply ih _ returned
      intro later member
      rw [List.length_set]
      exact inside later (List.mem_cons_of_mem field member)

theorem foldl_set_length (fields : List (Nat × Int)) (words : List Nat) :
    (fields.foldl (fun words field => words.set field.1 field.2.toNat) words).length =
      words.length := by
  induction fields generalizing words with
  | nil => rfl
  | cons field fields ih => rw [List.foldl_cons, ih, List.length_set]

/-- A packet that has room for its fields has the size asked for, and holds them. -/
theorem createPacket_eq_ok {count : Nat} {fields : List (Nat × Int)} {packetSize : Int}
    {r next : RandomPayloads} {packet : Bytes} (room : 8 * count ≤ packetSize - 42)
    (inside : ∀ field ∈ fields, field.1 < count)
    (returned : createPacket count fields packetSize r = .ok (packet, next)) :
    (packet.length : Int) = packetSize - 42 ∧ ∃ payload, packet =
      record 8 (fields.foldl (fun words field => words.set field.1 field.2.toNat)
        (List.replicate count 0)) ++ payload := by
  obtain ⟨array, allocated, returned⟩ := bind_eq_ok.mp returned
  obtain ⟨filled, set, returned⟩ := bind_eq_ok.mp returned
  obtain ⟨⟨packetBytes, _⟩, random, returned⟩ := bind_eq_ok.mp returned
  have nonneg : 0 ≤ packetSize - 42 - (count : Int) * 8 := by omega
  have zeros : array = record 8 (List.replicate count 0) ++
      List.replicate ((packetSize - 42).toNat - 8 * count) 0 := by
    unfold bytearray at allocated
    rw [if_neg (by omega)] at allocated
    rw [← Except.ok.inj allocated, record_zeros, List.replicate_append_replicate]
    congr 1
    omega
  rw [zeros] at set
  have fieldsSet := foldlM_setField (by rwa [List.length_replicate]) set
  have width := foldl_set_length fields (List.replicate count 0)
  rw [List.length_replicate] at width
  generalize fields.foldl (fun words field => words.set field.1 field.2.toNat)
    (List.replicate count 0) = words at fieldsSet width ⊢
  have size := RandomPayloads.getRandomBytes_eq_ok nonneg random
  have whole : filled.take (8 * count) = record 8 words := by
    rw [fieldsSet, ← width, take_record (Nat.le_refl _), List.take_length]
  have written : filled.take (8 * count) ++ RandomPayloads.sliceTo packetBytes
      (packetSize - 42 - count * 8) = packet := congrArg Prod.fst (Except.ok.inj returned)
  rw [whole] at written
  refine ⟨?_, _, written.symm⟩
  rw [← written, List.length_append, record_length, width]
  unfold RandomPayloads.sliceTo
  rw [List.length_take, if_pos nonneg]
  omega

open DynamicServer

/-- A field that is not negative is read as it was written. -/
theorem intFromBytes_nonneg {longs : List Int64} {rest : Bytes}
    (nonneg : ∀ x ∈ longs, 0 ≤ x.toInt) {i : Nat} (inside : i < longs.length) :
    intFromBytes (record 8 (longs.map word) ++ rest) (8 * i) (8 * (i + 1)) = longs[i].toInt := by
  rw [intFromBytes_record inside, word_eq_toInt]
  exact nonneg _ (List.getElem_mem inside)

/-- What a server sets a field to, when it is the number of a `long`. -/
theorem toNat_toInt {x : Int64} (nonneg : 0 ≤ x.toInt) : x.toInt.toNat = word x := by
  have value := (word_eq_toInt x).mpr nonneg
  omega

theorem recvfrom_eq {bytes : Bytes} (fits : bytes.length ≤ 2048) : recvfrom bytes = bytes :=
  List.take_of_length_le fits

/-- The size of a packet without its headers. -/
theorem toInt_sub_udpHeaderSize {packetSize : Int32} (nonneg : 0 ≤ packetSize.toInt) :
    (packetSize - 42).toInt = packetSize.toInt - 42 := by
  have below := packetSize.toInt_lt
  rw [Int32.toInt_sub, show (42 : Int32).toInt = 42 by decide]
  exact MachineWord.toSigned_of_range 32 (packetSize.toInt - 42) (by decide) (by omega) (by omega)

/-- A data packet has the size asked for, and is not shorter than its fields. -/
theorem serializePayload_length {packetSize : Int32} {longs : List Int64} {assertions : Bool}
    {randomBytes next : RandomBytes} {bytes : Bytes} (positive : 0 ≤ packetSize.toInt)
    (sent : serializePayload (packetSize - 42).toInt longs assertions randomBytes =
      .ok (bytes, next)) :
    8 * longs.length + 42 ≤ packetSize.toInt ∧ (bytes.length : Int) = packetSize.toInt - 42 ∧
      ∃ payload, bytes = record 8 (longs.map word) ++ payload := by
  obtain ⟨size, payload, shape⟩ := serializePayload_eq_ok sent
  rw [toInt_sub_udpHeaderSize positive] at size
  have front : 8 * longs.length ≤ bytes.length := by
    rw [shape, List.length_append, record_length, List.length_map]
    omega
  exact ⟨by omega, size, payload, shape⟩

theorem nonneg_of_mem_zeros (count : Nat) :
    ∀ x ∈ List.replicate count (0 : Int64), 0 ≤ x.toInt := by
  intro x member
  rw [List.eq_of_mem_replicate member]
  decide

theorem control_serialize {p : ControlPacket} {bytes : Bytes}
    (nonneg : ∀ x ∈ p.longs, 0 ≤ x.toInt) (sent : p.serialize = .ok bytes) :
    recvfrom bytes = bytes ∧ isControlPacket bytes = true ∧
      parseControlPacket bytes = ⟨p.senderId.toInt, p.content.toInt, p.expId.toInt⟩ := by
  have shape := ControlPacket.serialize_eq_ok sent
  have size : bytes.length = 24 := by
    rw [shape, record_length]
    rfl
  have field : ∀ i (inside : i < p.longs.length),
      intFromBytes bytes (8 * i) (8 * (i + 1)) = p.longs[i].toInt := by
    intro i inside
    rw [shape, ← List.append_nil (record _ _)]
    exact intFromBytes_nonneg nonneg inside
  refine ⟨recvfrom_eq (by omega), ?_, ?_⟩
  · unfold isControlPacket
    rw [size]
    rfl
  · unfold parseControlPacket
    rw [ControlFields.mk.injEq]
    exact ⟨field 0 (show 0 < 3 by omega), field 1 (show 1 < 3 by omega),
      field 2 (show 2 < 3 by omega)⟩

/-- A client takes what a server creates for a payload, with the fields that were set. -/
theorem createPacket_received {P : Type} {ofStream : Bytes → Nat → P} {count : Nat}
    {fields : List (Nat × Int)} {longs : List Int64} {packetSize : Int32}
    {r next : RandomPayloads} {packet : Bytes} (large : 4 ≤ count)
    (room : 8 * count ≤ packetSize.toInt - 42) (fits : packetSize.toInt ≤ 1442)
    (inside : ∀ field ∈ fields, field.1 < count)
    (values : fields.foldl (fun words field => words.set field.1 field.2.toNat)
      (List.replicate count 0) = longs.map word)
    (returned : createPacket count fields packetSize.toInt r = .ok (packet, next)) :
    (packet.length : Int) = packetSize.toInt - 42 ∧ ∃ rest,
      recvPacket (packetSize - 42).toInt ofStream packet =
        .payload (ofStream (record 8 (longs.map word) ++ rest) packet.length) := by
  obtain ⟨size, payload, shape⟩ := createPacket_eq_ok room inside returned
  rw [values] at shape
  have expected : (packetSize - 42).toInt = packet.length := by
    rw [toInt_sub_udpHeaderSize (by omega), size]
  have holds : packet.length ≤ DatagramPacket.maxSize := by
    unfold DatagramPacket.maxSize
    omega
  have other : packet.length ≠ ThroughputInfoPacket.length := by
    unfold ThroughputInfoPacket.length
    omega
  rw [expected]
  exact ⟨size, recvPacket_payload shape holds other⟩

namespace PacketTrainServer

/-- The values of a configuration. -/
def configFields (p : PacketTrainConfigPacket) : TrainConfigFields :=
  ⟨p.senderId.toInt, p.uploadGapMs.toInt, p.downloadGapMs.toInt, p.uploadNumPackets.toInt,
    p.downloadNumPackets.toInt, p.packetSize.toInt⟩

def packetFields (p : PacketTrainPayload) : TrainPacketFields :=
  ⟨p.seqNum.toInt, p.sentTimestamp.toInt, p.recvTimestamp.toInt, p.senderId.toInt,
    p.trainNum.toInt, p.pktInfo.toInt⟩

/-- All that the client and the server send at one packet size is taken for what it is, with the
values that were sent. -/
structure RoundTrips (packetSize : Int32) : Prop where
  control : ∀ (p : ControlPacket) (bytes : Bytes), (∀ x ∈ p.longs, 0 ≤ x.toInt) →
    p.serialize = .ok bytes → dispatch (recvfrom bytes) =
      .control ⟨p.senderId.toInt, p.content.toInt, p.expId.toInt⟩
  config : ∀ (p : PacketTrainConfigPacket) (bytes : Bytes), (∀ x ∈ p.longs, 0 ≤ x.toInt) →
    p.serialize = .ok bytes → dispatch (recvfrom bytes) = .config (configFields p)
  data : ∀ (p : PacketTrainPayload) (assertions : Bool) (randomBytes next : RandomBytes)
    (bytes : Bytes), (∀ x ∈ p.longs, 0 ≤ x.toInt) →
    p.serialize assertions packetSize randomBytes = .ok (bytes, next) →
    dispatch (recvfrom bytes) = .data (packetFields p) bytes.length
  answer : ∀ (p : PacketTrainPayload) (r next : RandomPayloads) (packet : Bytes),
    (∀ x ∈ p.longs, 0 ≤ x.toInt) → p.recvTimestamp = 0 →
    createDataPacket p.senderId.toInt packetSize.toInt p.seqNum.toInt p.trainNum.toInt
      p.pktInfo.toInt p.sentTimestamp.toInt r = .ok (packet, next) →
    (packet.length : Int) = packetSize.toInt - 42 ∧
      recvPacket (packetSize - 42).toInt PacketTrainPayload.ofStream packet =
        .payload { p with packetSize := packetSize.toInt }

section
variable (rest : Bytes)

theorem parseConfigPacket_record {p : PacketTrainConfigPacket}
    (nonneg : ∀ x ∈ p.longs, 0 ≤ x.toInt) :
    parseConfigPacket (record 8 (p.longs.map word) ++ rest) = configFields p := by
  have field : ∀ i (inside : i < p.longs.length), intFromBytes
      (record 8 (p.longs.map word) ++ rest) (8 * i) (8 * (i + 1)) = p.longs[i].toInt :=
    fun i inside => intFromBytes_nonneg nonneg inside
  unfold parseConfigPacket configFields
  rw [TrainConfigFields.mk.injEq]
  exact ⟨field 0 (show 0 < 6 by omega), field 1 (show 1 < 6 by omega),
    field 2 (show 2 < 6 by omega), field 3 (show 3 < 6 by omega), field 4 (show 4 < 6 by omega),
    field 5 (show 5 < 6 by omega)⟩

theorem parsePacket_record {p : PacketTrainPayload} (nonneg : ∀ x ∈ p.longs, 0 ≤ x.toInt) :
    parsePacket (record 8 (p.longs.map word) ++ rest) = packetFields p := by
  have field : ∀ i (inside : i < p.longs.length), intFromBytes
      (record 8 (p.longs.map word) ++ rest) (8 * i) (8 * (i + 1)) = p.longs[i].toInt :=
    fun i inside => intFromBytes_nonneg nonneg inside
  unfold parsePacket packetFields
  rw [TrainPacketFields.mk.injEq]
  exact ⟨field 0 (show 0 < 6 by omega), field 1 (show 1 < 6 by omega),
    field 2 (show 2 < 6 by omega), field 3 (show 3 < 6 by omega), field 4 (show 4 < 6 by omega),
    field 5 (show 5 < 6 by omega)⟩

end

theorem dispatch_control {p : ControlPacket} {bytes : Bytes}
    (nonneg : ∀ x ∈ p.longs, 0 ≤ x.toInt) (sent : p.serialize = .ok bytes) :
    dispatch (recvfrom bytes) = .control ⟨p.senderId.toInt, p.content.toInt, p.expId.toInt⟩ := by
  obtain ⟨whole, control, parsed⟩ := control_serialize nonneg sent
  unfold dispatch
  rw [whole, if_pos control, parsed]

theorem dispatch_config {p : PacketTrainConfigPacket} {bytes : Bytes}
    (nonneg : ∀ x ∈ p.longs, 0 ≤ x.toInt) (sent : p.serialize = .ok bytes) :
    dispatch (recvfrom bytes) = .config (configFields p) := by
  have shape := PacketTrainConfigPacket.serialize_eq_ok sent
  have size : bytes.length = 48 := by
    rw [shape, record_length]
    rfl
  have control : isControlPacket bytes = false := isControlPacket_eq_false (by omega)
  have config : isConfigPacket bytes = true := by
    unfold isConfigPacket
    rw [size]
    rfl
  have parsed := parseConfigPacket_record [] nonneg
  rw [List.append_nil, ← shape] at parsed
  unfold dispatch
  rw [recvfrom_eq (by omega), control, if_neg Bool.false_ne_true, if_pos config, parsed]

/-- No packet is shorter than its fields. -/
theorem serialize_length {p : PacketTrainPayload} {assertions : Bool} {packetSize : Int32}
    {randomBytes next : RandomBytes} {bytes : Bytes} (positive : 0 ≤ packetSize.toInt)
    (sent : p.serialize assertions packetSize randomBytes = .ok (bytes, next)) :
    90 ≤ packetSize.toInt ∧ (bytes.length : Int) = packetSize.toInt - 42 ∧
      ∃ payload, bytes = record 8 (p.longs.map word) ++ payload :=
  serializePayload_length positive sent

/-- A packet of a train is taken for a configuration if it has the length of one. -/
theorem dispatch_data {p : PacketTrainPayload} {assertions : Bool} {packetSize : Int32}
    {randomBytes next : RandomBytes} {bytes : Bytes} (positive : 0 ≤ packetSize.toInt)
    (fits : packetSize.toInt ≤ 1442) (nonneg : ∀ x ∈ p.longs, 0 ≤ x.toInt)
    (sent : p.serialize assertions packetSize randomBytes = .ok (bytes, next)) :
    dispatch (recvfrom bytes) = if packetSize.toInt = 90 then .config (parseConfigPacket bytes)
      else .data (packetFields p) bytes.length := by
  obtain ⟨large, size, payload, shape⟩ := serialize_length positive sent
  have control : isControlPacket bytes = false := isControlPacket_eq_false (by omega)
  have config : isConfigPacket bytes = decide (packetSize.toInt = 90) := by
    unfold isConfigPacket
    rw [Bool.beq_eq_decide_eq]
    apply decide_eq_decide.mpr
    omega
  have parsed := parsePacket_record payload nonneg
  rw [← shape] at parsed
  unfold dispatch
  rw [recvfrom_eq (by omega), control, if_neg Bool.false_ne_true, config, parsed]
  by_cases short : packetSize.toInt = 90
  · rw [if_pos short, if_pos (decide_eq_true short)]
  · rw [if_neg short, decide_eq_false short, if_neg Bool.false_ne_true]

theorem createDataPacket_received {p : PacketTrainPayload} {packetSize : Int32}
    {r next : RandomPayloads} {packet : Bytes} (large : 90 ≤ packetSize.toInt)
    (fits : packetSize.toInt ≤ 1442) (nonneg : ∀ x ∈ p.longs, 0 ≤ x.toInt)
    (unset : p.recvTimestamp = 0)
    (returned : createDataPacket p.senderId.toInt packetSize.toInt p.seqNum.toInt p.trainNum.toInt
      p.pktInfo.toInt p.sentTimestamp.toInt r = .ok (packet, next)) :
    (packet.length : Int) = packetSize.toInt - 42 ∧
      recvPacket (packetSize - 42).toInt PacketTrainPayload.ofStream packet =
        .payload { p with packetSize := packetSize.toInt } := by
  have values : [(0, p.seqNum.toInt), (1, p.sentTimestamp.toInt), (3, p.senderId.toInt),
      (4, p.trainNum.toInt), (5, p.pktInfo.toInt)].foldl
        (fun words field => words.set field.1 field.2.toNat) (List.replicate 6 0) =
      p.longs.map word := by
    simp only [PacketTrainPayload.longs, List.forall_mem_cons, List.not_mem_nil, false_imp_iff,
      implies_true, and_true] at nonneg
    obtain ⟨seqNum, sentTimestamp, _, senderId, trainNum, pktInfo⟩ := nonneg
    show [p.seqNum.toInt.toNat, p.sentTimestamp.toInt.toNat, 0, p.senderId.toInt.toNat,
      p.trainNum.toInt.toNat, p.pktInfo.toInt.toNat] = [word p.seqNum, word p.sentTimestamp,
        word p.recvTimestamp, word p.senderId, word p.trainNum, word p.pktInfo]
    rw [unset, toNat_toInt seqNum, toNat_toInt sentTimestamp, toNat_toInt senderId,
      toNat_toInt trainNum, toNat_toInt pktInfo]
    rfl
  obtain ⟨size, rest, received⟩ := createPacket_received (by decide) (by push_cast; omega) fits
    (by simp) values returned
  rw [received, PacketTrainPayload.ofStream_record, size, Int.sub_add_cancel]
  exact ⟨rfl, rfl⟩

/-- A packet size is one of the protocol if the packets of a train are not as long as a
configuration. -/
theorem roundTrips_iff {packetSize : Int32} (positive : 0 ≤ packetSize.toInt)
    (fits : packetSize.toInt ≤ 1442) {p : PacketTrainPayload} {assertions : Bool}
    {randomBytes : RandomBytes} {sent : Bytes × RandomBytes}
    (serialized : p.serialize assertions packetSize randomBytes = .ok sent) :
    RoundTrips packetSize ↔ packetSize ≠ 90 := by
  obtain ⟨large, _⟩ := serialize_length positive serialized
  constructor
  · intro roundTrips same
    have observed : ((⟨0, 0, 0, 0, 0, 0, 0⟩ : PacketTrainPayload).serialize false 90
        ⟨[List.replicate 1500 0], 0⟩).toOption.map (fun sent => sent.1.length) = some 48 := by
      decide +kernel
    obtain ⟨⟨bytes, next⟩, sent, _⟩ := observe_ok observed
    have zeros : ∀ x ∈ (⟨0, 0, 0, 0, 0, 0, 0⟩ : PacketTrainPayload).longs, 0 ≤ x.toInt :=
      nonneg_of_mem_zeros 6
    rw [same] at roundTrips
    have read := roundTrips.data _ false _ next bytes zeros sent
    rw [dispatch_data (by decide) (by decide) zeros sent, if_pos (by decide)] at read
    cases read
  · intro other
    have longer : packetSize.toInt ≠ 90 := by
      intro same
      exact other (Int32.toInt_inj.mp same)
    refine ⟨?_, ?_, ?_, ?_⟩
    · exact fun _ _ nonneg sent => dispatch_control nonneg sent
    · exact fun _ _ nonneg sent => dispatch_config nonneg sent
    · intro p assertions randomBytes next bytes nonneg sent
      rw [dispatch_data positive fits nonneg sent, if_neg longer]
    · exact fun _ _ _ _ nonneg unset returned =>
        createDataPacket_received large fits nonneg unset returned

end PacketTrainServer

namespace SaturatorServer

/-- The values of a configuration. -/
def configFields (p : SaturateConfigPacket) : SaturatorConfigFields :=
  ⟨p.senderId.toInt, p.uploadRate.toInt, p.downloadRate.toInt, p.packetSize.toInt⟩

def packetFields (p : Payload) : SaturatorPacketFields :=
  ⟨p.seqNum.toInt, p.sentTimestamp.toInt, p.recvTimestamp.toInt, p.senderId.toInt⟩

/-- All that the client and the server send at one packet size is taken for what it is, with the
values that were sent. -/
structure RoundTrips (packetSize : Int32) : Prop where
  control : ∀ (p : ControlPacket) (bytes : Bytes), (∀ x ∈ p.longs, 0 ≤ x.toInt) →
    p.serialize = .ok bytes → dispatch (recvfrom bytes) =
      .control ⟨p.senderId.toInt, p.content.toInt, p.expId.toInt⟩
  config : ∀ (p : SaturateConfigPacket) (bytes : Bytes), (∀ x ∈ p.longs, 0 ≤ x.toInt) →
    p.serialize = .ok bytes → dispatch (recvfrom bytes) = .config (configFields p)
  data : ∀ (p : Payload) (assertions : Bool) (randomBytes next : RandomBytes)
    (bytes : Bytes), (∀ x ∈ p.longs, 0 ≤ x.toInt) →
    p.serialize assertions packetSize randomBytes = .ok (bytes, next) →
    dispatch (recvfrom bytes) = .data (packetFields p) bytes.length
  answer : ∀ (p : Payload) (r next : RandomPayloads) (packet : Bytes),
    (∀ x ∈ p.longs, 0 ≤ x.toInt) → p.recvTimestamp = 0 →
    createDataPacket p.senderId.toInt packetSize.toInt p.sentTimestamp.toInt p.seqNum.toInt r =
      .ok (packet, next, p.seqNum.toInt + 1) →
    (packet.length : Int) = packetSize.toInt - 42 ∧
      recvPacket (packetSize - 42).toInt Payload.ofStream packet =
        .payload { p with packetSize := packetSize.toInt }

section
variable (rest : Bytes)

theorem parseConfigPacket_record {p : SaturateConfigPacket}
    (nonneg : ∀ x ∈ p.longs, 0 ≤ x.toInt) :
    parseConfigPacket (record 8 (p.longs.map word) ++ rest) = configFields p := by
  have field : ∀ i (inside : i < p.longs.length), intFromBytes
      (record 8 (p.longs.map word) ++ rest) (8 * i) (8 * (i + 1)) = p.longs[i].toInt :=
    fun i inside => intFromBytes_nonneg nonneg inside
  unfold parseConfigPacket configFields
  rw [SaturatorConfigFields.mk.injEq]
  exact ⟨field 0 (show 0 < 4 by omega), field 1 (show 1 < 4 by omega),
    field 2 (show 2 < 4 by omega), field 3 (show 3 < 4 by omega)⟩

theorem parsePacket_record {p : Payload} (nonneg : ∀ x ∈ p.longs, 0 ≤ x.toInt) :
    parsePacket (record 8 (p.longs.map word) ++ rest) = packetFields p := by
  have field : ∀ i (inside : i < p.longs.length), intFromBytes
      (record 8 (p.longs.map word) ++ rest) (8 * i) (8 * (i + 1)) = p.longs[i].toInt :=
    fun i inside => intFromBytes_nonneg nonneg inside
  unfold parsePacket packetFields
  rw [SaturatorPacketFields.mk.injEq]
  exact ⟨field 0 (show 0 < 4 by omega), field 1 (show 1 < 4 by omega),
    field 2 (show 2 < 4 by omega), field 3 (show 3 < 4 by omega)⟩

end

theorem dispatch_control {p : ControlPacket} {bytes : Bytes}
    (nonneg : ∀ x ∈ p.longs, 0 ≤ x.toInt) (sent : p.serialize = .ok bytes) :
    dispatch (recvfrom bytes) = .control ⟨p.senderId.toInt, p.content.toInt, p.expId.toInt⟩ := by
  obtain ⟨whole, control, parsed⟩ := control_serialize nonneg sent
  unfold dispatch
  rw [whole, if_pos control, parsed]

theorem dispatch_config {p : SaturateConfigPacket} {bytes : Bytes}
    (nonneg : ∀ x ∈ p.longs, 0 ≤ x.toInt) (sent : p.serialize = .ok bytes) :
    dispatch (recvfrom bytes) = .config (configFields p) := by
  have shape := SaturateConfigPacket.serialize_eq_ok sent
  have size : bytes.length = 32 := by
    rw [shape, record_length]
    rfl
  have control : isControlPacket bytes = false := isControlPacket_eq_false (by omega)
  have config : isConfigPacket bytes = true := by
    unfold isConfigPacket
    rw [size]
    rfl
  have parsed := parseConfigPacket_record [] nonneg
  rw [List.append_nil, ← shape] at parsed
  unfold dispatch
  rw [recvfrom_eq (by omega), control, if_neg Bool.false_ne_true, if_pos config, parsed]

/-- No packet is shorter than its fields. -/
theorem serialize_length {p : Payload} {assertions : Bool} {packetSize : Int32}
    {randomBytes next : RandomBytes} {bytes : Bytes} (positive : 0 ≤ packetSize.toInt)
    (sent : p.serialize assertions packetSize randomBytes = .ok (bytes, next)) :
    74 ≤ packetSize.toInt ∧ (bytes.length : Int) = packetSize.toInt - 42 ∧
      ∃ payload, bytes = record 8 (p.longs.map word) ++ payload :=
  serializePayload_length positive sent

/-- A packet of a saturator is taken for a configuration if it has the length of one. -/
theorem dispatch_data {p : Payload} {assertions : Bool} {packetSize : Int32}
    {randomBytes next : RandomBytes} {bytes : Bytes} (positive : 0 ≤ packetSize.toInt)
    (fits : packetSize.toInt ≤ 1442) (nonneg : ∀ x ∈ p.longs, 0 ≤ x.toInt)
    (sent : p.serialize assertions packetSize randomBytes = .ok (bytes, next)) :
    dispatch (recvfrom bytes) = if packetSize.toInt = 74 then .config (parseConfigPacket bytes)
      else .data (packetFields p) bytes.length := by
  obtain ⟨large, size, payload, shape⟩ := serialize_length positive sent
  have control : isControlPacket bytes = false := isControlPacket_eq_false (by omega)
  have config : isConfigPacket bytes = decide (packetSize.toInt = 74) := by
    unfold isConfigPacket
    rw [Bool.beq_eq_decide_eq]
    apply decide_eq_decide.mpr
    omega
  have parsed := parsePacket_record payload nonneg
  rw [← shape] at parsed
  unfold dispatch
  rw [recvfrom_eq (by omega), control, if_neg Bool.false_ne_true, config, parsed]
  by_cases short : packetSize.toInt = 74
  · rw [if_pos short, if_pos (decide_eq_true short)]
  · rw [if_neg short, decide_eq_false short, if_neg Bool.false_ne_true]

theorem createDataPacket_received {p : Payload} {packetSize : Int32}
    {r next : RandomPayloads} {packet : Bytes} (large : 74 ≤ packetSize.toInt)
    (fits : packetSize.toInt ≤ 1442) (nonneg : ∀ x ∈ p.longs, 0 ≤ x.toInt)
    (unset : p.recvTimestamp = 0)
    (returned : createDataPacket p.senderId.toInt packetSize.toInt p.sentTimestamp.toInt
      p.seqNum.toInt r = .ok (packet, next, p.seqNum.toInt + 1)) :
    (packet.length : Int) = packetSize.toInt - 42 ∧
      recvPacket (packetSize - 42).toInt Payload.ofStream packet =
        .payload { p with packetSize := packetSize.toInt } := by
  have values : [(0, p.seqNum.toInt), (1, p.sentTimestamp.toInt), (3, p.senderId.toInt)].foldl
      (fun words field => words.set field.1 field.2.toNat) (List.replicate 4 0) =
      p.longs.map word := by
    simp only [Payload.longs, List.forall_mem_cons, List.not_mem_nil, false_imp_iff,
      implies_true, and_true] at nonneg
    obtain ⟨seqNum, sentTimestamp, _, senderId⟩ := nonneg
    show [p.seqNum.toInt.toNat, p.sentTimestamp.toInt.toNat, 0, p.senderId.toInt.toNat] =
      [word p.seqNum, word p.sentTimestamp, word p.recvTimestamp, word p.senderId]
    rw [unset, toNat_toInt seqNum, toNat_toInt sentTimestamp, toNat_toInt senderId]
    rfl
  obtain ⟨⟨created, after⟩, made, same⟩ := bind_eq_ok.mp returned
  have samePacket : created = packet := congrArg Prod.fst (Except.ok.inj same)
  rw [samePacket] at made
  obtain ⟨size, rest, received⟩ := createPacket_received (by decide) (by push_cast; omega) fits
    (by simp) values made
  rw [received, Payload.ofStream_record, size, Int.sub_add_cancel]
  exact ⟨rfl, rfl⟩

/-- A packet size is one of the protocol if the data packets are not as long as a
configuration. -/
theorem roundTrips_iff {packetSize : Int32} (positive : 0 ≤ packetSize.toInt)
    (fits : packetSize.toInt ≤ 1442) {p : Payload} {assertions : Bool}
    {randomBytes : RandomBytes} {sent : Bytes × RandomBytes}
    (serialized : p.serialize assertions packetSize randomBytes = .ok sent) :
    RoundTrips packetSize ↔ packetSize ≠ 74 := by
  obtain ⟨large, _⟩ := serialize_length positive serialized
  constructor
  · intro roundTrips same
    have observed : ((⟨0, 0, 0, 0, 0⟩ : Payload).serialize false 74
        ⟨[List.replicate 1500 0], 0⟩).toOption.map (fun sent => sent.1.length) = some 32 := by
      decide +kernel
    obtain ⟨⟨bytes, next⟩, sent, _⟩ := observe_ok observed
    have zeros : ∀ x ∈ (⟨0, 0, 0, 0, 0⟩ : Payload).longs, 0 ≤ x.toInt := nonneg_of_mem_zeros 4
    rw [same] at roundTrips
    have read := roundTrips.data _ false _ next bytes zeros sent
    rw [dispatch_data (by decide) (by decide) zeros sent, if_pos (by decide)] at read
    cases read
  · intro other
    have longer : packetSize.toInt ≠ 74 := by
      intro same
      exact other (Int32.toInt_inj.mp same)
    refine ⟨?_, ?_, ?_, ?_⟩
    · exact fun _ _ nonneg sent => dispatch_control nonneg sent
    · exact fun _ _ nonneg sent => dispatch_config nonneg sent
    · intro p assertions randomBytes next bytes nonneg sent
      rw [dispatch_data positive fits nonneg sent, if_neg longer]
    · exact fun _ _ _ _ nonneg unset returned =>
        createDataPacket_received large fits nonneg unset returned

end SaturatorServer

/-- The packets of both protocols come back at a packet size if and only if its data packets do not
have the length of a configuration. -/
theorem formats_roundTrip_iff {packetSize : Int32} (positive : 0 ≤ packetSize.toInt)
    (fits : packetSize.toInt ≤ 1442) :
    (∀ (p : PacketTrainPayload) (assertions : Bool) (randomBytes : RandomBytes)
      (sent : Bytes × RandomBytes), p.serialize assertions packetSize randomBytes = .ok sent →
      (PacketTrainServer.RoundTrips packetSize ↔ packetSize ≠ 90)) ∧
    (∀ (p : Payload) (assertions : Bool) (randomBytes : RandomBytes)
      (sent : Bytes × RandomBytes), p.serialize assertions packetSize randomBytes = .ok sent →
      (SaturatorServer.RoundTrips packetSize ↔ packetSize ≠ 74)) := by
  constructor
  · intro p assertions randomBytes sent serialized
    exact PacketTrainServer.roundTrips_iff positive fits serialized
  · intro p assertions randomBytes sent serialized
    exact SaturatorServer.roundTrips_iff positive fits serialized

/-- The random bytes of an example. -/
def zeroBytes : RandomBytes := ⟨[List.replicate 1500 0], 0⟩

theorem formats_roundTrip_iff_small :
    PacketTrainServer.RoundTrips 142 ∧ SaturatorServer.RoundTrips 142 := by
  have train : ((⟨0, 5, 0, 7, 3, 1, 0⟩ : PacketTrainPayload).serialize false 142
      zeroBytes).toOption.map (fun sent => sent.1.length) = some 100 := by decide +kernel
  have saturator : ((⟨0, 5, 0, 7, 0⟩ : Payload).serialize false 142 zeroBytes).toOption.map
      (fun sent => sent.1.length) = some 100 := by decide +kernel
  obtain ⟨trainSent, trainSerialized, _⟩ := observe_ok train
  obtain ⟨sent, serialized, _⟩ := observe_ok saturator
  have formats := formats_roundTrip_iff (by decide : 0 ≤ (142 : Int32).toInt) (by decide)
  exact ⟨(formats.1 _ _ _ _ trainSerialized).mpr (by decide),
    (formats.2 _ _ _ _ serialized).mpr (by decide)⟩

/-- Data packets of 48 and of 32 bytes are taken for configurations. -/
theorem not_formats_roundTrip :
    (∃ sent, (⟨0, 5, 0, 7, 3, 1, 0⟩ : PacketTrainPayload).serialize false 90 zeroBytes = .ok sent ∧
      PacketTrainServer.dispatch (recvfrom sent.1) = .config ⟨0, 5, 0, 7, 3, 1⟩) ∧
    ∃ sent, (⟨0, 5, 0, 7, 0⟩ : Payload).serialize false 74 zeroBytes = .ok sent ∧
      SaturatorServer.dispatch (recvfrom sent.1) = .config ⟨0, 5, 0, 7⟩ := by
  have train : ((⟨0, 5, 0, 7, 3, 1, 0⟩ : PacketTrainPayload).serialize false 90
      zeroBytes).toOption.map (fun sent => PacketTrainServer.dispatch (recvfrom sent.1)) =
        some (.config ⟨0, 5, 0, 7, 3, 1⟩) := by decide +kernel
  have saturator : ((⟨0, 5, 0, 7, 0⟩ : Payload).serialize false 74 zeroBytes).toOption.map
      (fun sent => SaturatorServer.dispatch (recvfrom sent.1)) =
        some (.config ⟨0, 5, 0, 7⟩) := by decide +kernel
  exact ⟨observe_ok train, observe_ok saturator⟩

end CellReplay
