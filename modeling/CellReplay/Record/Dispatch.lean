import CellReplay.Record.DynamicServer

set_option autoImplicit false

namespace CellReplay

open BigEndian DecimalText FueledLoop DynamicServer

/-- A message of the client, with what its `serialize` is given. -/
inductive Message where
  | control (packet : ControlPacket)
  | config (packet : PacketTrainEchoDynamicConfigPacket)
  | data (payload : DynamicPacketTrainPayload) (assertions : Bool) (length : Int32)
      (randomBytes : RandomBytes)
  deriving DecidableEq, Repr

namespace Message

def serialize : Message → Except Fault Bytes
  | control packet => packet.serialize
  | config packet => packet.serialize
  | data payload assertions length randomBytes =>
      (payload.serialize assertions length randomBytes).map Prod.fst

/-- The branch of its kind, with the values that were serialized. -/
def values : Message → Received
  | control packet => .control
      { senderId := packet.senderId.toInt
        content := packet.content.toInt
        expId := packet.expId.toInt }
  | config packet => .config
      { senderId := packet.senderId.toInt
        gaps := packet.gapMs.map Int32.toInt
        upload := packet.uplink.toInt
        numPackets := packet.numPackets.map Int32.toInt
        packetSize := packet.packetSize.toInt
        echoToOnlyFirstAndTail := packet.onlyEchoToFirstAndTail.toInt }
  | data payload _ _ _ => .data
      { seqNum := payload.seqNum.toInt
        sentTimestamp := payload.sentTimestamp.toInt
        recvTimestamp := payload.recvTimestamp.toInt
        senderId := payload.senderId.toInt
        trainNum := payload.trainNum.toInt
        pktInfo := payload.pktInfo.toInt
        trainSize := payload.trainSize.toInt
        trainGapMs := payload.trainGapMs.toInt }

/-- The fields that are numbers of eight bytes. -/
def longs : Message → List Int64
  | control packet => packet.longs
  | config packet => packet.longs
  | data payload _ _ _ => payload.longs

/-- What the kind of the message asks for beyond that: two lists that the text can carry, or a
counter that is not the signature. -/
def Recognizable : Message → Prop
  | control _ => True
  | config packet => Listed (packet.gapMs.map Int32.toInt) ∧
      Listed (packet.numPackets.map Int32.toInt)
  | data payload _ _ _ => payload.seqNum ≠ 1234

end Message

namespace ControlPacket

theorem receive_serialize {p : ControlPacket} {bytes : Bytes} (sent : p.serialize = .ok bytes) :
    receive bytes = .ok (.control ⟨word p.senderId, word p.content, word p.expId⟩) := by
  have shape := serialize_eq_ok sent
  have size : bytes.length = controlPacketLength := by
    rw [shape, record_length]
    rfl
  have whole : recvfrom bytes = bytes :=
    List.take_of_length_le (by rw [size]; decide)
  have field : ∀ i (inside : i < p.longs.length),
      intFromBytes bytes (8 * i) (8 * (i + 1)) = word p.longs[i] := by
    intro i inside
    rw [shape, ← List.append_nil (record _ _)]
    exact intFromBytes_record inside
  have parsed : parseControlPacket bytes = ⟨word p.senderId, word p.content, word p.expId⟩ := by
    unfold parseControlPacket
    rw [ControlFields.mk.injEq]
    exact ⟨field 0 (show 0 < 3 by omega), field 1 (show 1 < 3 by omega),
      field 2 (show 2 < 3 by omega)⟩
  have control : isControlPacket bytes = true := by
    unfold isControlPacket
    rw [size, beq_self_eq_true]
  unfold receive dispatch
  rw [whole, if_pos control, parsed]

end ControlPacket

namespace PacketTrainEchoDynamicConfigPacket

theorem info_eq (p : PacketTrainEchoDynamicConfigPacket) : p.info =
    joined ',' (p.gapMs.map Int32.toInt) ++ '-' :: joined ',' (p.numPackets.map Int32.toInt) := by
  rw [info, listToString_eq, listToString_eq]

/-- No character of the text is the zero that fills the packet. -/
theorem zero_not_mem_info (p : PacketTrainEchoDynamicConfigPacket) : '\x00' ∉ p.info := by
  have clean : ∀ zs : List Int, '\x00' ∉ joined ',' zs := by
    intro zs
    apply not_mem_intercalate (by decide)
    intro text member
    have ⟨z, _, same⟩ := List.mem_map.mp member
    rw [← same]
    exact not_mem_ofInt (by decide) (by decide) z
  rw [info_eq]
  intro member
  rcases List.mem_append.mp member with inside | behind
  · exact clean _ inside
  · rcases List.mem_cons.mp behind with same | later
    · exact absurd same (by decide)
    · exact clean _ later

/-- What the tests and the parser of the server make of a configuration, whatever becomes of its
lists. -/
theorem parse_serialize {p : PacketTrainEchoDynamicConfigPacket} {bytes : Bytes}
    (sent : p.serialize = .ok bytes) : recvfrom bytes = bytes ∧ isControlPacket bytes = false ∧
      isConfigPacket bytes = true ∧ parseConfigPacket bytes =
        (parseLists (joined ',' (p.gapMs.map Int32.toInt) ++
          '-' :: joined ',' (p.numPackets.map Int32.toInt))).map (fun lists =>
            ⟨word p.senderId, lists.1, word p.uplink, lists.2, word p.packetSize,
              word p.onlyEchoToFirstAndTail⟩) := by
  have ⟨size, zeros, shape⟩ := serialize_eq_ok sent
  have whole : recvfrom bytes = bytes :=
    List.take_of_length_le (by rw [size]; decide)
  have field : ∀ i (inside : i < (signature :: p.longs).length),
      intFromBytes bytes (8 * i) (8 * (i + 1)) = word (signature :: p.longs)[i] := by
    intro i inside
    rw [shape]
    exact intFromBytes_record inside
  have control : isControlPacket bytes = false := by
    apply isControlPacket_eq_false
    rw [size]
    decide
  have config : isConfigPacket bytes = true := by
    rw [shape, isConfigPacket_record (show 0 < (signature :: p.longs).length from Nat.succ_pos _)]
    rfl
  have text : decode (bytes.drop 40) = .ok (p.info ++ List.replicate zeros '\x00') := by
    have front : (record 8 ((signature :: p.longs).map word)).length = 40 := by
      rw [record_length]
      rfl
    rw [shape, ← front, List.drop_left, ← getBytes_zeros, ← getBytes_append, decode_getBytes]
  have senderId : intFromBytes bytes 8 16 = word p.senderId := field 1 (show 1 < 5 by omega)
  have packetSize : intFromBytes bytes 16 24 = word p.packetSize := field 2 (show 2 < 5 by omega)
  have upload : intFromBytes bytes 24 32 = word p.uplink := field 3 (show 3 < 5 by omega)
  have echo : intFromBytes bytes 32 40 = word p.onlyEchoToFirstAndTail :=
    field 4 (show 4 < 5 by omega)
  refine ⟨whole, control, config, ?_⟩
  unfold parseConfigPacket
  rw [text]
  show (parseLists (rstrip _ _)).bind _ = _
  rw [rstrip_replicate p.zero_not_mem_info, info_eq, senderId, packetSize, upload, echo]
  cases parseLists (joined ',' (p.gapMs.map Int32.toInt) ++
      '-' :: joined ',' (p.numPackets.map Int32.toInt)) with
  | error fault => rfl
  | ok lists => rfl

/-- A configuration takes the branch of its kind, whatever becomes of its lists there. -/
theorem receive_serialize {p : PacketTrainEchoDynamicConfigPacket} {bytes : Bytes}
    (sent : p.serialize = .ok bytes) : receive bytes =
      (parseLists (joined ',' (p.gapMs.map Int32.toInt) ++
        '-' :: joined ',' (p.numPackets.map Int32.toInt))).map (fun lists => .config
          ⟨word p.senderId, lists.1, word p.uplink, lists.2, word p.packetSize,
            word p.onlyEchoToFirstAndTail⟩) := by
  have ⟨whole, control, config, parsed⟩ := parse_serialize sent
  unfold receive dispatch
  rw [whole, control, if_neg Bool.false_ne_true, if_pos config, parsed]
  cases parseLists (joined ',' (p.gapMs.map Int32.toInt) ++
      '-' :: joined ',' (p.numPackets.map Int32.toInt)) with
  | error fault => rfl
  | ok lists => rfl

/-- A configuration whose numbers are not negative comes back from the parser of the server as it
was serialized, list by list. -/
theorem parseConfigPacket_eq_serialized {p : PacketTrainEchoDynamicConfigPacket} {bytes : Bytes}
    (sent : p.serialize = .ok bytes) (nonneg : ∀ x ∈ p.longs, 0 ≤ x.toInt)
    (gaps : p.gapMs ≠ []) (gapsNonneg : ∀ x ∈ p.gapMs, 0 ≤ x.toInt)
    (numPackets : p.numPackets ≠ []) (numPacketsNonneg : ∀ x ∈ p.numPackets, 0 ≤ x.toInt) :
    recvfrom bytes = bytes ∧ isConfigPacket bytes = true ∧ parseConfigPacket bytes = .ok
      { senderId := p.senderId.toInt
        gaps := p.gapMs.map Int32.toInt
        upload := p.uplink.toInt
        numPackets := p.numPackets.map Int32.toInt
        packetSize := p.packetSize.toInt
        echoToOnlyFirstAndTail := p.onlyEchoToFirstAndTail.toInt } := by
  have ⟨whole, _, config, parsed⟩ := parse_serialize sent
  have listed : ∀ xs : List Int32, xs ≠ [] → (∀ x ∈ xs, 0 ≤ x.toInt) →
      Listed (xs.map Int32.toInt) := by
    intro xs some nonneg
    refine ⟨by simpa using some, ?_⟩
    intro z member
    obtain ⟨x, inside, rfl⟩ := List.mem_map.mp member
    exact nonneg x inside
  have read : ∀ x ∈ p.longs, (word x : Int) = x.toInt := by
    intro x member
    rw [word_eq_toInt]
    exact nonneg x member
  simp only [longs, List.forall_mem_cons, List.not_mem_nil, false_imp_iff, implies_true,
    and_true] at read
  obtain ⟨senderId, packetSize, upload, echo⟩ := read
  refine ⟨whole, config, ?_⟩
  rw [parsed, parseLists_listed (listed _ gaps gapsNonneg) (listed _ numPackets numPacketsNonneg)]
  rw [senderId, packetSize, upload, echo]
  rfl

/-- Two gaps of 0 and 2147483647 ms. -/
theorem parseConfigPacket_eq_serialized_extremes : ∃ bytes,
    (⟨7, 1400, 1, 0, [0, 2147483647], [50]⟩ : PacketTrainEchoDynamicConfigPacket).serialize =
        .ok bytes ∧
      parseConfigPacket bytes = .ok ⟨7, [0, 2147483647], 1, [50], 1400, 0⟩ := by
  have observed : ((⟨7, 1400, 1, 0, [0, 2147483647], [50]⟩ :
      PacketTrainEchoDynamicConfigPacket).serialize.toOption.map List.length) = some 1000 := by
    decide +kernel
  have ⟨bytes, serialized, _⟩ := observe_ok observed
  have fields : ∀ x ∈ ([7, 1400, 1, 0] : List Int64), 0 ≤ x.toInt := by
    simp only [List.forall_mem_cons, List.not_mem_nil, false_imp_iff, implies_true, and_true]
    decide
  have gaps : ∀ x ∈ ([0, 2147483647] : List Int32), 0 ≤ x.toInt := by
    simp only [List.forall_mem_cons, List.not_mem_nil, false_imp_iff, implies_true, and_true]
    decide
  have numPackets : ∀ x ∈ ([50] : List Int32), 0 ≤ x.toInt := by
    simp only [List.forall_mem_cons, List.not_mem_nil, false_imp_iff, implies_true, and_true]
    decide
  have parsed := parseConfigPacket_eq_serialized serialized fields (List.cons_ne_nil _ _) gaps
    (List.cons_ne_nil _ _) numPackets
  exact ⟨bytes, serialized, parsed.2.2⟩

end PacketTrainEchoDynamicConfigPacket

namespace DynamicPacketTrainPayload

/-- The branch that a data packet takes is that of its counter. -/
theorem receive_serialize {p : DynamicPacketTrainPayload} {assertions : Bool} {length : Int32}
    {randomBytes next : RandomBytes} {bytes : Bytes}
    (sent : p.serialize assertions length randomBytes = .ok (bytes, next)) : receive bytes =
      if p.seqNum = 1234 then (parseConfigPacket (recvfrom bytes)).map .config
      else .ok (.data ⟨word p.seqNum, word p.sentTimestamp, word p.recvTimestamp, word p.senderId,
        word p.trainNum, word p.pktInfo, word p.trainSize, word p.trainGapMs⟩) := by
  have ⟨_, payload, shape⟩ := serialize_eq_ok sent
  have front : (record 8 (p.longs.map word)).length = 64 := by
    rw [record_length]
    rfl
  have received : recvfrom bytes = record 8 (p.longs.map word) ++ payload.take (2048 - 64) := by
    rw [recvfrom, shape, List.take_append, front, List.take_of_length_le (by rw [front]; decide)]
    rfl
  have field : ∀ i (inside : i < p.longs.length),
      intFromBytes (recvfrom bytes) (8 * i) (8 * (i + 1)) = word p.longs[i] := by
    intro i inside
    rw [received]
    exact intFromBytes_record inside
  have control : isControlPacket (recvfrom bytes) = false := by
    apply isControlPacket_eq_false
    rw [received, List.length_append, front]
    omega
  have config : isConfigPacket (recvfrom bytes) = decide (p.seqNum = 1234) := by
    rw [received, isConfigPacket_record (show 0 < p.longs.length from Nat.succ_pos _)]
    rfl
  have parsed : parsePacket (recvfrom bytes) = ⟨word p.seqNum, word p.sentTimestamp,
      word p.recvTimestamp, word p.senderId, word p.trainNum, word p.pktInfo, word p.trainSize,
      word p.trainGapMs⟩ := by
    unfold parsePacket
    rw [PacketFields.mk.injEq]
    exact ⟨field 0 (show 0 < 8 by omega), field 1 (show 1 < 8 by omega),
      field 2 (show 2 < 8 by omega), field 3 (show 3 < 8 by omega), field 4 (show 4 < 8 by omega),
      field 5 (show 5 < 8 by omega), field 6 (show 6 < 8 by omega), field 7 (show 7 < 8 by omega)⟩
  unfold receive dispatch
  rw [control, if_neg Bool.false_ne_true, config, parsed]
  by_cases counter : p.seqNum = 1234
  · rw [if_pos counter, if_pos (decide_eq_true counter)]
  · rw [if_neg counter, decide_eq_false counter, if_neg Bool.false_ne_true]

end DynamicPacketTrainPayload

namespace Message

/-- The numbers of a message are read as they are when none is negative. -/
theorem forall_nonneg_cons {input : Int64} {longs : List Int64} :
    (∀ x ∈ input :: longs, 0 ≤ x.toInt) ↔
      (word input : Int) = input.toInt ∧ ∀ x ∈ longs, 0 ≤ x.toInt := by
  rw [List.forall_mem_cons, word_eq_toInt]

theorem receive_control {p : ControlPacket} {bytes : Bytes}
    (sent : (control p).serialize = .ok bytes) :
    receive bytes = .ok (control p).values ↔ ∀ x ∈ p.longs, 0 ≤ x.toInt := by
  rw [ControlPacket.receive_serialize sent, values, ControlPacket.longs, Except.ok.injEq,
    Received.control.injEq, ControlFields.mk.injEq, forall_nonneg_cons, forall_nonneg_cons,
    forall_nonneg_cons]
  simp only [List.not_mem_nil, false_imp_iff, implies_true, and_true]

theorem receive_config {p : PacketTrainEchoDynamicConfigPacket} {bytes : Bytes}
    (sent : (config p).serialize = .ok bytes) :
    receive bytes = .ok (config p).values ↔
      (∀ x ∈ p.longs, 0 ≤ x.toInt) ∧ (config p).Recognizable := by
  rw [PacketTrainEchoDynamicConfigPacket.receive_serialize sent]
  by_cases listed : (config p).Recognizable
  · rw [and_iff_left listed, parseLists_listed listed.1 listed.2, Except.map, values,
      PacketTrainEchoDynamicConfigPacket.longs, Except.ok.injEq, Received.config.injEq,
      ConfigFields.mk.injEq]
    simp only [forall_nonneg_cons, List.not_mem_nil, false_imp_iff, implies_true, and_true,
      true_and]
    constructor
    · intro ⟨senderId, upload, packetSize, echo⟩
      exact ⟨senderId, packetSize, upload, echo⟩
    · intro ⟨senderId, packetSize, upload, echo⟩
      exact ⟨senderId, upload, packetSize, echo⟩
  · have ⟨fault, failed⟩ := parseLists_unlisted listed
    rw [failed]
    constructor
    · intro same
      cases same
    · intro ⟨_, other⟩
      exact absurd other listed

theorem receive_data {p : DynamicPacketTrainPayload} {assertions : Bool} {length : Int32}
    {randomBytes : RandomBytes} {bytes : Bytes}
    (sent : (data p assertions length randomBytes).serialize = .ok bytes) :
    receive bytes = .ok (data p assertions length randomBytes).values ↔
      (∀ x ∈ p.longs, 0 ≤ x.toInt) ∧ p.seqNum ≠ 1234 := by
  have ⟨next, returned⟩ :
      ∃ next, p.serialize assertions length randomBytes = .ok (bytes, next) := by
    unfold serialize at sent
    cases run : p.serialize assertions length randomBytes with
    | error fault =>
        simp only [run] at sent
        cases sent
    | ok output =>
        simp only [run] at sent
        exact ⟨output.2, by rw [← Except.ok.inj sent]⟩
  rw [DynamicPacketTrainPayload.receive_serialize returned]
  by_cases counter : p.seqNum = 1234
  · rw [if_pos counter]
    constructor
    · intro same
      cases parsed : parseConfigPacket (recvfrom bytes) with
      | error fault =>
          rw [parsed] at same
          cases same
      | ok fields =>
          rw [parsed] at same
          cases same
    · intro ⟨_, other⟩
      exact absurd counter other
  · rw [if_neg counter, values, DynamicPacketTrainPayload.longs, Except.ok.injEq,
      Received.data.injEq, PacketFields.mk.injEq]
    simp only [forall_nonneg_cons, List.not_mem_nil, false_imp_iff, implies_true, and_true, counter,
      ne_eq, not_false_eq_true]

/-- The server takes a message of the client for what it is, with the values that were serialized,
exactly when no number in it is negative, and its lists can be carried as text or its counter is
not the signature of a configuration. -/
theorem receive_iff {m : Message} {bytes : Bytes} (sent : m.serialize = .ok bytes) :
    receive bytes = .ok m.values ↔ (∀ x ∈ m.longs, 0 ≤ x.toInt) ∧ m.Recognizable := by
  cases m with
  | control p => exact (receive_control sent).trans (and_iff_left trivial).symm
  | config p => exact receive_config sent
  | data p assertions length randomBytes => exact receive_data sent

/-- A configuration of two gaps and two train sizes. -/
def twoTrains : Message :=
  .config ⟨7, 1400, 1, 1, [50, 20], [10, 50]⟩

theorem receive_iff_twoTrains : ∃ bytes, twoTrains.serialize = .ok bytes ∧
    bytes.length = 1000 ∧ receive bytes = .ok (.config ⟨7, [50, 20], 1, [10, 50], 1400, 1⟩) := by
  have observed : twoTrains.serialize.toOption.map List.length = some 1000 := by decide +kernel
  have ⟨bytes, serialized, size⟩ := observe_ok observed
  have nonneg : ∀ x ∈ twoTrains.longs, 0 ≤ x.toInt := by
    show ∀ x ∈ ([7, 1400, 1, 1] : List Int64), 0 ≤ x.toInt
    simp only [List.forall_mem_cons, List.not_mem_nil, false_imp_iff, implies_true, and_true]
    decide
  have recognizable : twoTrains.Recognizable := ⟨⟨by decide, by decide⟩, by decide, by decide⟩
  exact ⟨bytes, serialized, size, (receive_iff serialized).mpr ⟨nonneg, recognizable⟩⟩

/-- The packet with the counter 1234 of a train of 2000 packets. -/
def laterPacket : Message :=
  .data ⟨1234, 5, 0, 7, 0, 0, 2000, 50⟩ false 142 ⟨[List.replicate 1500 0], 0⟩

/-- It is parsed as a configuration. -/
theorem not_received : ∃ bytes, laterPacket.serialize = .ok bytes ∧
    receive bytes ≠ .ok laterPacket.values := by
  have observed : laterPacket.serialize.toOption.map List.length = some 100 := by decide +kernel
  have ⟨bytes, serialized, _⟩ := observe_ok observed
  refine ⟨bytes, serialized, ?_⟩
  intro received
  exact ((receive_data serialized).mp received).2 rfl

end Message

end CellReplay
