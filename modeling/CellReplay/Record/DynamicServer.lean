import CellReplay.Record.ClientMessages

set_option autoImplicit false

namespace CellReplay

open BigEndian DecimalText FueledLoop

/-- What `parse_control_packet` returns. -/
structure ControlFields where
  senderId : Int
  content : Int
  expId : Int
  deriving DecidableEq, Repr

/-- What `parse_config_packet` returns. -/
structure ConfigFields where
  senderId : Int
  gaps : List Int
  upload : Int
  numPackets : List Int
  packetSize : Int
  echoToOnlyFirstAndTail : Int
  deriving DecidableEq, Repr

/-- What `parse_packet` returns. -/
structure PacketFields where
  seqNum : Int
  sentTimestamp : Int
  recvTimestamp : Int
  senderId : Int
  trainNum : Int
  pktInfo : Int
  trainSize : Int
  trainGapMs : Int
  deriving DecidableEq, Repr

/-- The branch a message takes, with what its parser returns. -/
inductive Received where
  | control (fields : ControlFields)
  | config (fields : ConfigFields)
  | data (fields : PacketFields)
  deriving DecidableEq, Repr

namespace DynamicServer

def controlPacketLength : Nat := 8 * 3

def packetTrainEchoDynamicSignature : Int := 1234

def bufferSize : Nat := 2048

/-- `int.from_bytes(packet[first:last], byteorder='big')`. -/
def intFromBytes (packet : Bytes) (first last : Nat) : Int := fromBytes (slice packet first last)

def parsePacket (packet : Bytes) : PacketFields where
  seqNum := intFromBytes packet 0 8
  sentTimestamp := intFromBytes packet 8 16
  recvTimestamp := intFromBytes packet 16 24
  senderId := intFromBytes packet 24 32
  trainNum := intFromBytes packet 32 40
  pktInfo := intFromBytes packet 40 48
  trainSize := intFromBytes packet 48 56
  trainGapMs := intFromBytes packet 56 64

def parseControlPacket (packet : Bytes) : ControlFields where
  senderId := intFromBytes packet 0 8
  content := intFromBytes packet 8 16
  expId := intFromBytes packet 16 24

/-- `bytes.decode()`, strict UTF-8. -/
def decode (bytes : Bytes) : Except Fault Text :=
  match bytes.toByteArray.utf8Decode? with
  | some text => .ok text.toList
  | none => .error (.runtimeError "UnicodeDecodeError")

/-- `str.rstrip` of one character. -/
def rstrip (c : Char) (text : Text) : Text := text.rdropWhile (· == c)

/-- `int` of a string: spaces around it, a sign, and groups of digits with underscores in
between. The digits and spaces of other scripts are left out. -/
def int (text : Text) : Except Fault Int :=
  let (negative, rest) := splitSign ((text.dropWhile isSpace).rdropWhile isSpace)
  let groups := rest.splitOn '_'
  if groups.all (fun group => !group.isEmpty && group.all Char.isDigit) then
    let magnitude : Int := Nat.ofDigitChars 10 groups.flatten 0
    .ok (if negative then -magnitude else magnitude)
  else .error (.runtimeError "invalid literal for int() with base 10")

def stringToArray (strInput : Text) : Except Fault (List Int) := (strInput.splitOn ',').mapM int

/-- An item of a list that may be too short. -/
def item (splits : List Text) (i : Nat) : Except Fault Text :=
  match splits[i]? with
  | some split => .ok split
  | none => .error (.runtimeError "list index out of range")

/-- The two lists of `parse_config_packet`. -/
def parseLists (expConfigs : Text) : Except Fault (List Int × List Int) := do
  let splits := expConfigs.splitOn '-'
  let gaps ← stringToArray (← item splits 0)
  let numPackets ← stringToArray (← item splits 1)
  return (gaps, numPackets)

def parseConfigPacket (packet : Bytes) : Except Fault ConfigFields := do
  let expConfigs ← decode (packet.drop 40)
  let (gaps, numPackets) ← parseLists (rstrip '\x00' expConfigs)
  return { senderId := intFromBytes packet 8 16
           gaps := gaps
           upload := intFromBytes packet 24 32
           numPackets := numPackets
           packetSize := intFromBytes packet 16 24
           echoToOnlyFirstAndTail := intFromBytes packet 32 40 }

def isConfigPacket (packet : Bytes) : Bool :=
  intFromBytes packet 0 8 == packetTrainEchoDynamicSignature

def isControlPacket (packet : Bytes) : Bool := packet.length == controlPacketLength

theorem isControlPacket_eq_false {bytes : Bytes} (other : bytes.length ≠ 24) :
    isControlPacket bytes = false := by
  unfold isControlPacket controlPacketLength
  rw [beq_eq_false_iff_ne]
  exact other

/-- The branches of `main`, with the parser at the start of each. -/
def dispatch (message : Bytes) : Except Fault Received :=
  if isControlPacket message then .ok (.control (parseControlPacket message))
  else if isConfigPacket message then (parseConfigPacket message).map .config
  else .ok (.data (parsePacket message))

/-- What `recvfrom` gives of a datagram. -/
def recvfrom (datagram : Bytes) : Bytes := datagram.take bufferSize

def receive (datagram : Bytes) : Except Fault Received := dispatch (recvfrom datagram)

section
variable {longs : List Int64} {rest : Bytes}

/-- A field is read as the word that was written. -/
theorem intFromBytes_record {i : Nat} (inside : i < longs.length) :
    intFromBytes (record 8 (longs.map word) ++ rest) (8 * i) (8 * (i + 1)) = word longs[i] := by
  have inside' : i < (longs.map word).length := by
    rw [List.length_map]
    exact inside
  have same : (longs.map word)[i] = word longs[i] := List.getElem_map _
  have fits : (longs.map word)[i] < 256 ^ 8 := by
    rw [same]
    exact word_lt _
  unfold intFromBytes
  rw [fromBytes_slice_record inside' rest fits, same]

theorem isConfigPacket_record (inside : 0 < longs.length) :
    isConfigPacket (record 8 (longs.map word) ++ rest) = decide (longs[0] = 1234) := by
  have first : intFromBytes (record 8 (longs.map word) ++ rest) 0 8 = word longs[0] :=
    intFromBytes_record inside
  have value := word_eq longs[0]
  have range := Int64.le_toInt longs[0]
  have same : (word longs[0] : Int) = 1234 ↔ longs[0] = 1234 := by
    rw [← Int64.toInt_inj]
    show _ ↔ longs[0].toInt = 1234
    split at value
    · omega
    · omega
  unfold isConfigPacket packetTrainEchoDynamicSignature
  rw [first, ← decide_eq_decide.mpr same]
  rfl

end

theorem decode_getBytes (text : Text) : decode (getBytes text) = .ok text := by
  have encoded : (getBytes text).toByteArray = text.utf8Encode := rfl
  unfold decode
  rw [encoded, List.utf8Decode?_utf8Encode]

theorem getBytes_append (front back : Text) :
    getBytes (front ++ back) = getBytes front ++ getBytes back := List.flatMap_append

/-- Zero bytes are characters too. -/
theorem getBytes_zeros (count : Nat) :
    getBytes (List.replicate count '\x00') = List.replicate count 0 := by
  induction count with
  | zero => rfl
  | succ count ih =>
      have zero : String.utf8EncodeChar '\x00' = [0] := by decide
      rw [List.replicate_succ, getBytes, List.flatMap_cons, zero, ← getBytes, ih,
        List.replicate_succ]
      rfl

/-- The zeros behind a text are stripped off, if it has none itself. -/
theorem rstrip_replicate {c : Char} {text : Text} (clean : c ∉ text) (count : Nat) :
    rstrip c (text ++ List.replicate count c) = text := by
  unfold rstrip
  induction count with
  | zero =>
      rw [List.replicate_zero, List.append_nil, List.rdropWhile_eq_self_iff]
      intro some' equal
      rw [beq_iff_eq] at equal
      rw [← equal] at clean
      exact clean (List.getLast_mem some')
  | succ count ih =>
      rw [List.replicate_succ', ← List.append_assoc, List.rdropWhile_concat,
        if_pos (beq_self_eq_true c)]
      exact ih

theorem isSpace_of_isDigit {c : Char} (digit : c.isDigit = true) : isSpace c = false := by
  have range : 48 ≤ c.toNat := by
    unfold Char.isDigit at digit
    rw [Bool.and_eq_true, decide_eq_true_eq] at digit
    exact UInt32.le_iff_toNat_le.mp digit.1
  unfold isSpace
  simp only [Bool.or_eq_false_iff, beq_eq_false_iff_ne]
  refine ⟨⟨⟨⟨⟨?_, ?_⟩, ?_⟩, ?_⟩, ?_⟩, ?_⟩
  all_goals
    intro same
    rw [same] at range
    exact absurd range (by decide)

theorem minus_not_mem_ofInt {z : Int} (nonneg : 0 ≤ z) : '-' ∉ ofInt z :=
  fun member => absurd (isDigit_of_mem_ofInt nonneg member) (by decide)

/-- Digits are neither stripped nor taken for a sign, and read as the number they are. -/
theorem int_ofInt {z : Int} (nonneg : 0 ≤ z) : int (ofInt z) = .ok z := by
  have digits : ∀ c ∈ ofInt z, c.isDigit = true := fun c => isDigit_of_mem_ofInt nonneg
  have front : (ofInt z).dropWhile isSpace = ofInt z := by
    rw [List.dropWhile_eq_self_iff]
    intro some'
    rw [isSpace_of_isDigit (digits _ (List.getElem_mem some'))]
    exact Bool.false_ne_true
  have back : (ofInt z).rdropWhile isSpace = ofInt z := by
    rw [List.rdropWhile_eq_self_iff]
    intro some'
    rw [isSpace_of_isDigit (digits _ (List.getLast_mem some'))]
    exact Bool.false_ne_true
  have unsigned : splitSign (ofInt z) = (false, ofInt z) := by
    have minus := minus_not_mem_ofInt nonneg
    have plus : '+' ∉ ofInt z := fun member => absurd (digits _ member) (by decide)
    unfold splitSign
    split
    · rename_i rest same
      rw [same] at minus
      exact absurd List.mem_cons_self minus
    · rename_i rest same
      rw [same] at plus
      exact absurd List.mem_cons_self plus
    · rfl
  have single : (ofInt z).splitOn '_' = [ofInt z] :=
    List.splitOn_eq_singleton (not_mem_ofInt (by decide) (by decide) z)
  have group : [ofInt z].all (fun group => !group.isEmpty && group.all Char.isDigit) = true := by
    rw [List.all_cons, List.all_nil, Bool.and_true,
      List.isEmpty_eq_false_iff.mpr (ofInt_ne_nil z), List.all_eq_true.mpr digits]
    rfl
  have value : Nat.ofDigitChars 10 (ofInt z) 0 = z.toNat := by
    rw [ofInt_of_nonneg nonneg, Nat.ofDigitChars_ten_toDigits]
  unfold int
  rw [front, back, unsigned]
  dsimp only
  rw [single, if_pos group, List.flatten_singleton, value, Int.toNat_of_nonneg nonneg]
  rfl

theorem mapM_int {zs : List Int} (nonneg : ∀ z ∈ zs, 0 ≤ z) : (zs.map ofInt).mapM int = .ok zs := by
  induction zs with
  | nil => rfl
  | cons z zs ih =>
      rw [List.map_cons, List.mapM_cons, int_ofInt (nonneg z List.mem_cons_self),
        ih (fun x member => nonneg x (List.mem_cons_of_mem z member))]
      rfl

/-- A list that the text of a configuration can carry. -/
def Listed (zs : List Int) : Prop := zs ≠ [] ∧ ∀ z ∈ zs, 0 ≤ z

theorem Listed.stringToArray {zs : List Int} (listed : Listed zs) :
    stringToArray (joined ',' zs) = .ok zs := by
  unfold DynamicServer.stringToArray
  rw [splitOn_joined (by decide) (by decide) listed.1]
  exact mapM_int listed.2

theorem Listed.minus_not_mem {zs : List Int} (listed : Listed zs) : '-' ∉ joined ',' zs := by
  apply not_mem_intercalate (by decide)
  intro text member
  have ⟨z, inside, same⟩ := List.mem_map.mp member
  rw [← same]
  exact minus_not_mem_ofInt (listed.2 z inside)

/-- A number that is missing is an error. -/
theorem stringToArray_missing {zs : List Int} (nonneg : ∀ z ∈ zs, 0 ≤ z) :
    stringToArray ([','].intercalate (zs.map ofInt ++ [[]])) =
      .error (.runtimeError "invalid literal for int() with base 10") := by
  have split : ([','].intercalate (zs.map ofInt ++ [[]])).splitOn ',' = zs.map ofInt ++ [[]] := by
    apply List.splitOn_intercalate
    · intro text member
      rcases List.mem_append.mp member with inside | final
      · have ⟨z, _, same⟩ := List.mem_map.mp inside
        rw [← same]
        exact not_mem_ofInt (by decide) (by decide) z
      · rw [List.mem_singleton.mp final]
        exact List.not_mem_nil
    · exact List.append_ne_nil_of_right_ne_nil _ (List.cons_ne_nil _ _)
  unfold stringToArray
  rw [split, List.mapM_append, mapM_int nonneg]
  rfl

/-- A text that ends or goes on with a separator is the first of its parts. -/
theorem splitOn_first {sep : Char} {text tail : Text} (clean : sep ∉ text)
    (ends : tail = [] ∨ ∃ behind, tail = sep :: behind) :
    ∃ others, (text ++ tail).splitOn sep = text :: others := by
  rcases ends with final | ⟨behind, more⟩
  · refine ⟨[], ?_⟩
    rw [final, List.append_nil]
    exact List.splitOn_eq_singleton clean
  · refine ⟨behind.splitOn sep, ?_⟩
    rw [more]
    exact List.splitOn_append_cons_self_of_not_mem clean behind

/-- The text of any other list is cut at a minus sign, behind the separator of a missing number. -/
theorem joined_unlisted {zs : List Int} (unlisted : ¬ Listed zs) {tail : Text}
    (ends : tail = [] ∨ ∃ behind, tail = '-' :: behind) : ∃ (before : List Int) (tail' : Text),
      (∀ z ∈ before, 0 ≤ z) ∧ (tail' = [] ∨ ∃ behind, tail' = '-' :: behind) ∧
        joined ',' zs ++ tail = [','].intercalate (before.map ofInt ++ [[]]) ++ tail' := by
  by_cases empty : zs = []
  · refine ⟨[], tail, fun z member => absurd member List.not_mem_nil, ends, ?_⟩
    rw [empty]
    rfl
  · have ⟨z, member, negative⟩ : ∃ z ∈ zs, z < 0 := by
      by_contra never
      apply unlisted
      refine ⟨empty, ?_⟩
      intro z member
      by_contra negative
      exact never ⟨z, member, by omega⟩
    have ⟨first, found⟩ : ∃ first, zs.find? (fun z => decide (z < 0)) = some first := by
      rw [← Option.isSome_iff_exists, List.find?_isSome]
      exact ⟨z, member, decide_eq_true negative⟩
    have ⟨negative', before, behind, parts, earlier⟩ := List.find?_eq_some_iff_append.mp found
    have ⟨rest, shape⟩ : ∃ rest, joined ',' (before ++ first :: behind) =
        [','].intercalate (before.map ofInt ++ [[]]) ++ '-' :: rest :=
      joined_negative (of_decide_eq_true negative')
    refine ⟨before, '-' :: (rest ++ tail), ?_, Or.inr ⟨_, rfl⟩, ?_⟩
    · intro x inside
      have positive := earlier x inside
      rw [Bool.not_eq_true', decide_eq_false_iff_not] at positive
      omega
    · rw [parts, shape, List.append_assoc, List.cons_append]

/-- So it is not read as a list of integers. -/
theorem stringToArray_unlisted {zs : List Int} (unlisted : ¬ Listed zs) {tail : Text}
    (ends : tail = [] ∨ ∃ behind, tail = '-' :: behind) : ∃ first others fault,
      (joined ',' zs ++ tail).splitOn '-' = first :: others ∧
        stringToArray first = .error fault := by
  have ⟨before, tail', nonneg, ends', shape⟩ := joined_unlisted unlisted ends
  have clean : '-' ∉ [','].intercalate (before.map ofInt ++ [[]]) := by
    apply not_mem_intercalate (by decide)
    intro text member
    rcases List.mem_append.mp member with inside | final
    · have ⟨z, inside', same⟩ := List.mem_map.mp inside
      rw [← same]
      exact minus_not_mem_ofInt (nonneg z inside')
    · rw [List.mem_singleton.mp final]
      exact List.not_mem_nil
  have ⟨others, split⟩ := splitOn_first clean ends'
  exact ⟨_, others, _, by rw [shape, split], stringToArray_missing nonneg⟩

theorem parseLists_listed {gaps numPackets : List Int} (first : Listed gaps)
    (second : Listed numPackets) :
    parseLists (joined ',' gaps ++ '-' :: joined ',' numPackets) = .ok (gaps, numPackets) := by
  have split : (joined ',' gaps ++ '-' :: joined ',' numPackets).splitOn '-' =
      [joined ',' gaps, joined ',' numPackets] := by
    rw [List.splitOn_append_cons_self_of_not_mem first.minus_not_mem,
      List.splitOn_eq_singleton second.minus_not_mem]
  unfold parseLists
  rw [split]
  show (do
    let gaps ← stringToArray (joined ',' gaps)
    let numPackets ← stringToArray (joined ',' numPackets)
    return (gaps, numPackets)) = _
  rw [first.stringToArray, second.stringToArray]
  rfl

theorem parseLists_unlisted {gaps numPackets : List Int}
    (unlisted : ¬ (Listed gaps ∧ Listed numPackets)) :
    ∃ fault, parseLists (joined ',' gaps ++ '-' :: joined ',' numPackets) = .error fault := by
  by_cases first : Listed gaps
  · have second : ¬ Listed numPackets := fun listed => unlisted ⟨first, listed⟩
    have ⟨text, others, fault, split, failed⟩ := stringToArray_unlisted second (Or.inl rfl)
    rw [List.append_nil] at split
    refine ⟨fault, ?_⟩
    unfold parseLists
    rw [List.splitOn_append_cons_self_of_not_mem first.minus_not_mem, split]
    show (do
      let gaps ← stringToArray (joined ',' gaps)
      let numPackets ← stringToArray text
      return (gaps, numPackets)) = _
    rw [first.stringToArray, failed]
    rfl
  · have ⟨text, others, fault, split, failed⟩ := stringToArray_unlisted first
      (Or.inr ⟨joined ',' numPackets, rfl⟩)
    refine ⟨fault, ?_⟩
    unfold parseLists
    rw [split]
    show (do
      let gaps ← stringToArray text
      let numPackets ← stringToArray (← item (text :: others) 1)
      return (gaps, numPackets)) = _
    rw [failed]
    rfl

end DynamicServer

end CellReplay
