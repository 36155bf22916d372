import CellReplay.Lib.BigEndian
import CellReplay.Lib.DecimalText
import CellReplay.Util.Ezio

set_option autoImplicit false

namespace CellReplay

open BigEndian DecimalText FueledLoop

/-- The unsigned word that a Java `long` is written as. -/
def word (input : Int64) : Nat := input.toUInt64.toNat

/-- `ByteBuffer.putLong`. -/
def longToBytes (input : Int64) : Bytes := toBytes 8 (word input)

theorem word_lt (input : Int64) : word input < 256 ^ 8 := input.toUInt64.toNat_lt

/-- The word is the number itself when it is not negative, and else 2^64 more. -/
theorem word_eq (input : Int64) :
    (word input : Int) = if 0 ≤ input.toInt then input.toInt else input.toInt + 2 ^ 64 := by
  have signed := BitVec.toInt_eq_toNat_cond input.toBitVec
  have below := input.toBitVec.isLt
  show (input.toBitVec.toNat : Int) = if 0 ≤ input.toBitVec.toInt then input.toBitVec.toInt
    else input.toBitVec.toInt + 2 ^ 64
  rw [signed]
  split
  · rw [if_pos (by omega)]
  · rw [if_neg (by omega)]
    omega

theorem word_eq_toInt (input : Int64) : (word input : Int) = input.toInt ↔ 0 ≤ input.toInt := by
  have word := word_eq input
  split at word
  · omega
  · omega

/-- The array that a `serialize` fills, and the place it has come to. -/
structure Output where
  result : Bytes
  currentIdx : Nat
  deriving DecidableEq, Repr

namespace Output

/-- A new array is all zeros. -/
def ofLength (length : Nat) : Output := ⟨List.replicate length 0, 0⟩

/-- The loop that copies an array to the place. -/
def write : Output → Bytes → Except Fault Output
  | out, [] => .ok out
  | out, byte :: temp =>
      if out.currentIdx < out.result.length then
        write ⟨out.result.set out.currentIdx byte, out.currentIdx + 1⟩ temp
      else .error (.runtimeError "ArrayIndexOutOfBoundsException")

/-- The loops for one `long` after the other. -/
def writeLongs (out : Output) (longs : List Int64) : Except Fault Output :=
  longs.foldlM (fun out input => out.write (longToBytes input)) out

/-- An array filled up to the place. -/
def filled (size : Nat) (front : Bytes) : Output :=
  ⟨front ++ List.replicate (size - front.length) 0, front.length⟩

theorem ofLength_eq (size : Nat) : ofLength size = filled size [] := rfl

theorem filled_length {size : Nat} {front : Bytes} (inside : front.length ≤ size) :
    (filled size front).result.length = size := by
  unfold filled
  rw [List.length_append, List.length_replicate]
  omega

/-- Copying goes on behind what is filled, up to the end of the array. -/
theorem write_filled {size : Nat} {temp : Bytes} : ∀ {front : Bytes}, front.length ≤ size →
    (filled size front).write temp = if front.length + temp.length ≤ size
      then .ok (filled size (front ++ temp))
      else .error (.runtimeError "ArrayIndexOutOfBoundsException") := by
  induction temp with
  | nil =>
      intro front inside
      rw [List.length_nil, Nat.add_zero, if_pos inside, List.append_nil]
      rfl
  | cons byte temp ih =>
      intro front inside
      rw [write, filled_length inside, List.length_cons]
      by_cases room : front.length < size
      · have next : (front ++ [byte]).length ≤ size := by
          rw [List.length_append, List.length_singleton]
          omega
        have zeros : List.replicate (size - front.length) (0 : UInt8) =
            0 :: List.replicate (size - (front.length + 1)) 0 := by
          rw [← List.replicate_succ]
          congr 1
          omega
        have step : (⟨(filled size front).result.set (filled size front).currentIdx byte,
            (filled size front).currentIdx + 1⟩ : Output) = filled size (front ++ [byte]) := by
          unfold filled
          rw [List.length_append, List.length_singleton, zeros,
            List.set_append_right front.length byte (Nat.le_refl _), Nat.sub_self,
            List.set_cons_zero,
            List.append_assoc, List.singleton_append]
        rw [if_pos (show (filled size front).currentIdx < size from room), step, ih next,
          List.length_append, List.length_singleton, List.append_assoc, List.singleton_append]
        by_cases fits : front.length + 1 + temp.length ≤ size
        · rw [if_pos fits, if_pos (by omega)]
        · rw [if_neg fits, if_neg (by omega)]
      · rw [if_neg (show ¬ (filled size front).currentIdx < size from room), if_neg (by omega)]

/-- What a copy that returns has done. -/
theorem write_eq_ok {size : Nat} {front temp : Bytes} {out : Output} (inside : front.length ≤ size)
    (written : (filled size front).write temp = .ok out) :
    out = filled size (front ++ temp) ∧ (front ++ temp).length ≤ size := by
  rw [write_filled inside] at written
  split at written
  · rw [List.length_append]
    exact ⟨(Except.ok.inj written).symm, by assumption⟩
  · cases written

theorem writeLongs_eq_ok {size : Nat} {longs : List Int64} {out : Output} : ∀ {front : Bytes},
    front.length ≤ size → (filled size front).writeLongs longs = .ok out →
      out = filled size (front ++ record 8 (longs.map word)) ∧
        (front ++ record 8 (longs.map word)).length ≤ size := by
  induction longs with
  | nil =>
      intro front inside written
      rw [List.map_nil, record, List.flatMap_nil, List.append_nil]
      exact ⟨(Except.ok.inj written).symm, inside⟩
  | cons input longs ih =>
      intro front inside written
      unfold writeLongs at written
      rw [List.foldlM_cons] at written
      cases first : (filled size front).write (longToBytes input) with
      | error fault =>
          rw [first] at written
          cases written
      | ok middle =>
          rw [first] at written
          obtain ⟨shape, room⟩ := write_eq_ok inside first
          rw [shape] at written
          have rest := ih room written
          rw [List.append_assoc] at rest
          exact rest

/-- What copying some `long` values to a new array leaves there. -/
theorem writeLongs_ofLength {size : Nat} {longs : List Int64} {out : Output}
    (written : (ofLength size).writeLongs longs = .ok out) :
    out = filled size (record 8 (longs.map word)) ∧ (record 8 (longs.map word)).length ≤ size := by
  rw [ofLength_eq] at written
  exact writeLongs_eq_ok (Nat.zero_le size) written

/-- What fits is written. -/
theorem writeLongs_filled {size : Nat} {longs : List Int64} : ∀ {front : Bytes},
    (front ++ record 8 (longs.map word)).length ≤ size →
      (filled size front).writeLongs longs =
        .ok (filled size (front ++ record 8 (longs.map word))) := by
  induction longs with
  | nil =>
      intro front room
      rw [List.map_nil, record, List.flatMap_nil, List.append_nil]
      rfl
  | cons input longs ih =>
      intro front room
      have parts : front ++ record 8 ((input :: longs).map word) =
          (front ++ longToBytes input) ++ record 8 (longs.map word) := by
        rw [List.append_assoc]
        rfl
      rw [parts] at room ⊢
      have first : front.length + (longToBytes input).length ≤ size := by
        rw [List.length_append, List.length_append] at room
        omega
      have later := ih room
      unfold writeLongs at later ⊢
      rw [List.foldlM_cons, write_filled (by omega), if_pos first]
      exact later

end Output

/-- A new array filled with fields alone. -/
def serializeLongs (length : Nat) (longs : List Int64) : Except Fault Bytes := do
  let out ← (Output.ofLength length).writeLongs longs
  return out.result

theorem serializeLongs_eq_ok {length : Nat} {longs : List Int64} {bytes : Bytes}
    (exact : length = 8 * longs.length) (returned : serializeLongs length longs = .ok bytes) :
    bytes = record 8 (longs.map word) := by
  obtain ⟨out, written, same⟩ := bind_eq_ok.mp returned
  obtain ⟨shape, _⟩ := Output.writeLongs_ofLength written
  have size : length - (record 8 (longs.map word)).length = 0 := by
    rw [record_length, List.length_map]
    omega
  rw [← Except.ok.inj same, shape, Output.filled, size]
  exact List.append_nil _

/-- A control packet of the client. -/
structure ControlPacket where
  senderId : Int64
  content : Int64
  expId : Int64
  deriving DecidableEq, Repr

namespace ControlPacket

def length : Nat := 8 * 3

/-- The fields in the order they are written. -/
def longs (p : ControlPacket) : List Int64 := [p.senderId, p.content, p.expId]

def serialize (p : ControlPacket) : Except Fault Bytes := do
  let out ← (Output.ofLength length).writeLongs p.longs
  return out.result

theorem serialize_eq_ok {p : ControlPacket} {bytes : Bytes} (returned : p.serialize = .ok bytes) :
    bytes = record 8 (p.longs.map word) := by
  have sent : serializeLongs length p.longs = .ok bytes := returned
  exact serializeLongs_eq_ok rfl sent

end ControlPacket

/-- The text of some integers with commas in between, by the loop of the source. -/
def listToString (input : List Int32) : Text :=
  let result := input.dropLast.foldl (fun result x => result ++ (ofInt x.toInt ++ [','])) []
  match input.getLast? with
  | some last => result ++ ofInt last.toInt
  | none => result

theorem listToString_eq (input : List Int32) :
    listToString input = joined ',' (input.map Int32.toInt) := by
  have parts : ∀ xs : List Int32, xs ≠ [] →
      listToString xs = joined ',' (xs.map Int32.toInt) := by
    intro xs
    induction xs with
    | nil => exact fun some' => absurd rfl some'
    | cons x xs ih =>
        intro _
        cases xs with
        | nil =>
            unfold joined
            rw [List.map_singleton, List.map_singleton, List.intercalate_singleton]
            rfl
        | cons y xs =>
            have later := ih (List.cons_ne_nil y xs)
            rw [List.map_cons, List.map_cons, joined_cons_cons, ← List.map_cons, ← later]
            unfold listToString
            rw [← List.flatMap_eq_foldl, ← List.flatMap_eq_foldl, List.dropLast_cons_cons,
              List.flatMap_cons, List.getLast?_cons_cons,
              List.getLast?_eq_some_getLast (List.cons_ne_nil y xs)]
            simp only [List.append_assoc, List.cons_append, List.nil_append]
  by_cases empty : input = []
  · rw [empty]
    rfl
  · exact parts input empty

/-- `String.getBytes`, in UTF-8. -/
def getBytes (text : Text) : Bytes := text.flatMap String.utf8EncodeChar

/-- The configuration of a run of packet trains. -/
structure PacketTrainEchoDynamicConfigPacket where
  senderId : Int64
  packetSize : Int64
  uplink : Int64
  onlyEchoToFirstAndTail : Int64
  gapMs : List Int32
  numPackets : List Int32
  deriving DecidableEq, Repr

namespace PacketTrainEchoDynamicConfigPacket

def length : Nat := 1000

def signature : Int64 := 1234

/-- The fields written in front of the text. -/
def longs (p : PacketTrainEchoDynamicConfigPacket) : List Int64 :=
  [p.senderId, p.packetSize, p.uplink, p.onlyEchoToFirstAndTail]

/-- The two lists as text. -/
def info (p : PacketTrainEchoDynamicConfigPacket) : Text :=
  listToString p.gapMs ++ '-' :: listToString p.numPackets

def serialize (p : PacketTrainEchoDynamicConfigPacket) : Except Fault Bytes := do
  let out ← (Output.ofLength length).writeLongs (signature :: p.longs)
  let out ← out.write (getBytes p.info)
  return out.result

/-- The fields, the text, and zeros up to the fixed length. -/
theorem serialize_eq_ok {p : PacketTrainEchoDynamicConfigPacket} {bytes : Bytes}
    (returned : p.serialize = .ok bytes) : bytes.length = length ∧ ∃ zeros,
      bytes = record 8 ((signature :: p.longs).map word) ++
        (getBytes p.info ++ List.replicate zeros 0) := by
  have ⟨out, fields, returned⟩ := bind_eq_ok.mp returned
  have ⟨final, text, same⟩ := bind_eq_ok.mp returned
  have ⟨front, room⟩ := Output.writeLongs_ofLength fields
  rw [front] at text
  have ⟨shape, fits⟩ := Output.write_eq_ok room text
  rw [← Except.ok.inj same, shape]
  exact ⟨Output.filled_length fits, _, List.append_assoc _ _ _⟩

end PacketTrainEchoDynamicConfigPacket

/-- The source of random payloads: arrays made once and used in turn. -/
structure RandomBytes where
  randomDicts : List Bytes
  currIdx : Nat
  deriving DecidableEq, Repr

namespace RandomBytes

def maxPacketSize : Nat := 1500

/-- `Arrays.copyOfRange` from the start, which goes on with zeros past the end. -/
def copyOfRange (bytes : Bytes) (byteLength : Nat) : Bytes :=
  bytes.take byteLength ++ List.replicate (byteLength - bytes.length) 0

/-- The next payload; the assertion is checked only when `assertions` are enabled. -/
def getRandomBytes (assertions : Bool) (byteLength : Nat) (r : RandomBytes) :
    Except Fault (Bytes × RandomBytes) := do
  check "byte_length < MAX_PACKET_SIZE" (!assertions || byteLength < maxPacketSize)
  match r.randomDicts[r.currIdx]? with
  | some bytes => return (copyOfRange bytes byteLength,
      { r with currIdx := (r.currIdx + 1) % r.randomDicts.length })
  | none => .error (.runtimeError "IndexOutOfBoundsException")

theorem copyOfRange_length (bytes : Bytes) (byteLength : Nat) :
    (copyOfRange bytes byteLength).length = byteLength := by
  unfold copyOfRange
  rw [List.length_append, List.length_take, List.length_replicate]
  omega

theorem getRandomBytes_returns {assertions : Bool} {byteLength : Nat} {r : RandomBytes}
    {bytes : Bytes} (drawn : r.randomDicts[r.currIdx]? = some bytes)
    (short : byteLength < maxPacketSize) :
    ∃ next, r.getRandomBytes assertions byteLength = .ok (copyOfRange bytes byteLength, next) := by
  unfold getRandomBytes
  rw [drawn, decide_eq_true short, Bool.or_true]
  exact ⟨_, rfl⟩

end RandomBytes

/-- `serialize` of a payload: its fields, and random bytes up to the length of the array. -/
def serializePayload (size : Int) (longs : List Int64) (assertions : Bool)
    (randomBytes : RandomBytes) : Except Fault (Bytes × RandomBytes) := do
  if size < 0 then .error (.runtimeError "NegativeArraySizeException")
  else
    let out ← (Output.ofLength size.toNat).writeLongs longs
    let (rndBytes, randomBytes) ←
      randomBytes.getRandomBytes assertions (out.result.length - out.currentIdx)
    let out ← out.write rndBytes
    return (out.result, randomBytes)

/-- The fields are in front of the random payload, and the array is full. -/
theorem serializePayload_eq_ok {size : Int} {longs : List Int64} {assertions : Bool}
    {randomBytes next : RandomBytes} {bytes : Bytes}
    (returned : serializePayload size longs assertions randomBytes = .ok (bytes, next)) :
    (bytes.length : Int) = size ∧ ∃ payload, bytes = record 8 (longs.map word) ++ payload := by
  unfold serializePayload at returned
  split at returned
  · cases returned
  · rename_i nonneg
    obtain ⟨out, fields, returned⟩ := bind_eq_ok.mp returned
    obtain ⟨⟨rndBytes, _⟩, _, returned⟩ := bind_eq_ok.mp returned
    obtain ⟨final, random, same⟩ := bind_eq_ok.mp returned
    obtain ⟨front, room⟩ := Output.writeLongs_ofLength fields
    rw [front] at random
    obtain ⟨shape, fits⟩ := Output.write_eq_ok room random
    have array := congrArg Prod.fst (Except.ok.inj same)
    rw [shape] at array
    dsimp only at array
    refine ⟨?_, ?_⟩
    · rw [← array, Output.filled_length fits]
      exact Int.toNat_of_nonneg (Int.not_lt.mp nonneg)
    · rw [Output.filled, List.append_assoc] at array
      exact ⟨_, array.symm⟩

/-- A payload that has room for its fields, and asks for less than the most random bytes, is
serialized. -/
theorem serializePayload_returns {size : Int} {longs : List Int64} {assertions : Bool}
    {randomBytes : RandomBytes} {bytes : Bytes} (room : 8 * longs.length ≤ size)
    (short : size < RandomBytes.maxPacketSize)
    (drawn : randomBytes.randomDicts[randomBytes.currIdx]? = some bytes) :
    ∃ sent, serializePayload size longs assertions randomBytes = .ok sent := by
  have fields : (record 8 (longs.map word)).length = 8 * longs.length := by
    rw [record_length, List.length_map]
  have front : (record 8 (longs.map word)).length ≤ size.toNat := by omega
  have front' : ([] ++ record 8 (longs.map word)).length ≤ size.toNat := front
  have written := Output.writeLongs_filled front'
  rw [List.nil_append, ← Output.ofLength_eq] at written
  have asked : (Output.filled size.toNat (record 8 (longs.map word))).result.length -
      (Output.filled size.toNat (record 8 (longs.map word))).currentIdx =
        size.toNat - 8 * longs.length := by
    rw [Output.filled_length front, ← fields]
    rfl
  obtain ⟨next, random⟩ : ∃ next, randomBytes.getRandomBytes assertions
      (size.toNat - 8 * longs.length) =
        .ok (RandomBytes.copyOfRange bytes (size.toNat - 8 * longs.length), next) :=
    RandomBytes.getRandomBytes_returns drawn (by omega)
  have rest : (record 8 (longs.map word)).length +
      (RandomBytes.copyOfRange bytes (size.toNat - 8 * longs.length)).length ≤ size.toNat := by
    rw [RandomBytes.copyOfRange_length]
    omega
  have copied : (Output.filled size.toNat (record 8 (longs.map word))).write
      (RandomBytes.copyOfRange bytes (size.toNat - 8 * longs.length)) = .ok _ :=
    (Output.write_filled front).trans (if_pos rest)
  unfold serializePayload
  rw [if_neg (by omega)]
  rw [← asked] at random copied
  exact ⟨_, bind_eq_ok.mpr ⟨_, written, bind_eq_ok.mpr ⟨_, random,
    bind_eq_ok.mpr ⟨_, copied, rfl⟩⟩⟩⟩

/-- A data packet of a train. -/
structure DynamicPacketTrainPayload where
  seqNum : Int64
  sentTimestamp : Int64
  recvTimestamp : Int64
  senderId : Int64
  trainNum : Int64
  pktInfo : Int64
  trainSize : Int64
  trainGapMs : Int64
  deriving DecidableEq, Repr

namespace DynamicPacketTrainPayload

def udpHeaderSize : Int32 := 42

/-- The fields in the order they are written. -/
def longs (p : DynamicPacketTrainPayload) : List Int64 :=
  [p.seqNum, p.sentTimestamp, p.recvTimestamp, p.senderId, p.trainNum, p.pktInfo, p.trainSize,
    p.trainGapMs]

def serialize (assertions : Bool) (length : Int32) (randomBytes : RandomBytes)
    (p : DynamicPacketTrainPayload) : Except Fault (Bytes × RandomBytes) := do
  let size := (length - udpHeaderSize).toInt
  if size < 0 then .error (.runtimeError "NegativeArraySizeException")
  else
    let out ← (Output.ofLength size.toNat).writeLongs p.longs
    let (rndBytes, randomBytes) ←
      randomBytes.getRandomBytes assertions (out.result.length - out.currentIdx)
    let out ← out.write rndBytes
    return (out.result, randomBytes)

theorem serialize_eq (assertions : Bool) (length : Int32) (randomBytes : RandomBytes)
    (p : DynamicPacketTrainPayload) : p.serialize assertions length randomBytes =
      serializePayload (length - udpHeaderSize).toInt p.longs assertions randomBytes := rfl

/-- The fields are in front of the random payload. -/
theorem serialize_eq_ok {assertions : Bool} {length : Int32} {randomBytes next : RandomBytes}
    {p : DynamicPacketTrainPayload} {bytes : Bytes}
    (returned : p.serialize assertions length randomBytes = .ok (bytes, next)) :
    (bytes.length : Int) = (length - udpHeaderSize).toInt ∧
      ∃ payload, bytes = record 8 (p.longs.map word) ++ payload := by
  rw [serialize_eq] at returned
  exact serializePayload_eq_ok returned

end DynamicPacketTrainPayload

end CellReplay
