import CellReplay.Packet.PacketQueue
import Mathlib.Data.List.TakeWhile

set_option autoImplicit false

namespace CellReplay

open MachineWord FueledLoop

/-- The limits that are given by name. -/
inductive LimitName where
  | bytes
  | packets
  deriving DecidableEq, Repr

def LimitName.text : LimitName → Text
  | bytes => "bytes".toList
  | packets => "packets".toList

@[simp] theorem LimitName.text_bytes : LimitName.bytes.text = "bytes".toList := by decide +kernel

@[simp] theorem LimitName.text_packets : LimitName.packets.text = "packets".toList := by
  decide +kernel

/-- `NAME=NUMBER`, with any digits. -/
structure LimitArgument where
  name : LimitName
  number : Text
  nonempty : number ≠ []
  digits : ∀ c ∈ number, c.isDigit = true
  deriving DecidableEq

namespace LimitArgument

def text (a : LimitArgument) : Text := a.name.text ++ '=' :: a.number

/-- The decimal value of the number given. -/
def value (a : LimitArgument) : Nat := Nat.ofDigitChars 10 a.number 0

/-- `NAME=NUMBER[, NAME2=NUMBER2, ...]`. -/
def written : List LimitArgument → Text
  | [] => []
  | [a] => a.text
  | a :: b :: args => a.text ++ ',' :: ' ' :: written (b :: args)

/-- The number given for a name; 0 when there is none. -/
def given (args : List LimitArgument) (name : LimitName) : Nat :=
  match args.find? (fun a => a.name == name) with
  | none => 0
  | some a => a.value

end LimitArgument

/-- The queues whose arguments are printed. -/
inductive QueueType where
  | droptail
  | drophead
  | codel
  | pie
  deriving DecidableEq, Repr

/-- `type()`. -/
def QueueType.text : QueueType → Text
  | droptail => "droptail".toList
  | drophead => "drophead".toList
  | codel => "codel".toList
  | pie => "pie".toList

namespace DroppingPacketQueue

/-- `to_string` of a queue of some type. -/
def toText (type : QueueType) (q : DroppingPacketQueue) : Text :=
  let ret := type.text ++ " [".toList
  let ret :=
    if q.limits.byteLimit ≠ 0 then ret ++ ("bytes=".toList ++ Nat.toDigits 10 q.limits.byteLimit)
    else ret
  let ret :=
    if q.limits.packetLimit ≠ 0 then
      let ret := if q.limits.byteLimit ≠ 0 then ret ++ ", ".toList else ret
      ret ++ ("packets=".toList ++ Nat.toDigits 10 q.limits.packetLimit)
    else ret
  ret ++ "]".toList

/-- The limit with a name. -/
def limit (q : DroppingPacketQueue) : LimitName → Nat
  | .bytes => q.limits.byteLimit
  | .packets => q.limits.packetLimit

end DroppingPacketQueue

open DroppingPacketQueue LimitArgument

/-- A digit is read as a digit: it is neither skipped nor a sign. -/
theorem not_isSpace_of_isDigit {c : Char} (digit : c.isDigit = true) :
    isSpace c = false ∧ c ≠ '-' ∧ c ≠ '+' := by
  have range : 48 ≤ c.toNat ∧ c.toNat ≤ 57 := by
    simpa [Char.isDigit, UInt32.le_iff_toNat_le] using digit
  have apart : ∀ d : Char, d.toNat < 48 → c ≠ d := by
    intro d below same
    rw [same] at range
    omega
  refine ⟨?_, apart '-' (by decide), apart '+' (by decide)⟩
  simp only [isSpace, Bool.or_eq_false_iff, beq_eq_false_iff_ne]
  refine ⟨⟨⟨⟨⟨?_, ?_⟩, ?_⟩, ?_⟩, ?_⟩, ?_⟩
  · exact apart ' ' (by decide)
  · exact apart '\t' (by decide)
  · exact apart '\n' (by decide)
  · exact apart '\r' (by decide)
  · omega
  · omega

/-- `myatoi` of digits is their value, unless no `long` holds it. -/
theorem myatoi_digits {number : Text} (nonempty : number ≠ [])
    (digits : ∀ c ∈ number, c.isDigit = true) :
    myatoi number =
      if Nat.ofDigitChars 10 number 0 < 2 ^ 63 then .ok (Nat.ofDigitChars 10 number 0 : Nat)
      else .error (.runtimeError "strtol") := by
  obtain ⟨first, rest, shape⟩ := List.exists_cons_of_ne_nil nonempty
  have ⟨space, minus, plus⟩ :=
    not_isSpace_of_isDigit (digits first (by rw [shape]; exact List.mem_cons_self))
  have front : number.dropWhile isSpace = number := by
    rw [shape, List.dropWhile_cons_of_neg (by simp [space])]
  have unsigned : splitSign number = (false, number) := by
    rw [shape]
    unfold splitSign
    split
    · rename_i same
      exact absurd (List.cons.inj same).1 minus
    · rename_i same
      exact absurd (List.cons.inj same).1 plus
    · rfl
  have all : number.takeWhile Char.isDigit = number := List.takeWhile_eq_self_iff.mpr digits
  have none : number.dropWhile Char.isDigit = [] := List.dropWhile_eq_nil_iff.mpr digits
  have filled : number.isEmpty = false := List.isEmpty_eq_false_iff.mpr nonempty
  simp only [myatoi, strtol, front, unsigned, all, none, filled, Bool.false_eq_true, ↓reduceIte,
    toLong]
  by_cases small : Nat.ofDigitChars 10 number 0 < 2 ^ 63
  · rw [if_pos small, if_pos (by omega)]
    rfl
  · rw [if_neg small, if_neg (by omega)]

/-- A name is not found in front of a text in which its first character does not occur. -/
theorem afterName_skip {c : Char} {name front : Text} (absent : c ∉ front) (rest : Text) :
    afterName (c :: name) (front ++ rest) = afterName (c :: name) rest := by
  induction front with
  | nil => rfl
  | cons d front ih =>
      have other : (c == d) = false := by
        rw [beq_eq_false_iff_ne]
        intro same
        exact absent (same ▸ List.mem_cons_self)
      rw [List.cons_append, afterName, List.isPrefixOf, other]
      exact ih (fun member => absent (List.mem_cons_of_mem d member))

theorem afterName_none {c : Char} {name args : Text} (absent : c ∉ args) :
    afterName (c :: name) args = none := by
  have skipped : afterName (c :: name) (args ++ []) = afterName (c :: name) [] :=
    afterName_skip absent []
  rw [List.append_nil] at skipped
  rw [skipped]
  rfl

/-- A name with its number at the front is read, up to what follows the digits. -/
theorem getArg_front {args : Text} (a : LimitArgument) {rest : Text}
    (found : afterName a.name.text args = some ('=' :: (a.number ++ rest)))
    (ended : ∀ c, rest.head? = some c → c.isDigit = false) :
    getArg args a.name.text =
      if a.value < 2 ^ 63 then .ok (u32 a.value) else .error (.runtimeError "strtol") := by
  have digits : (a.number ++ rest).takeWhile Char.isDigit = a.number := by
    rw [List.takeWhile_append_of_pos a.digits]
    have none : rest.takeWhile Char.isDigit = [] := by
      cases rest with
      | nil => rfl
      | cons c rest => rw [List.takeWhile_cons_of_neg (by simp [ended c rfl])]
    rw [none, List.append_nil]
  have filled : a.number.isEmpty = false := List.isEmpty_eq_false_iff.mpr a.nonempty
  unfold getArg
  rw [found]
  simp only [digits, filled, myatoi_digits a.nonempty a.digits, LimitArgument.value]
  by_cases small : Nat.ofDigitChars 10 a.number 0 < 2 ^ 63
  · simp only [small, ↓reduceIte]
    rfl
  · simp only [small, ↓reduceIte]
    rfl

/-- The first character of a name, which tells the two apart. -/
def LimitName.initial : LimitName → Char
  | bytes => 'b'
  | packets => 'p'

theorem LimitName.text_eq (name : LimitName) : ∃ rest, name.text = name.initial :: rest := by
  cases name with
  | bytes => exact ⟨_, rfl⟩
  | packets => exact ⟨_, rfl⟩

theorem LimitName.initial_not_mem {a b : LimitName} (other : a ≠ b) : b.initial ∉ a.text := by
  cases a with
  | bytes =>
      cases b with
      | bytes => exact absurd rfl other
      | packets => decide
  | packets =>
      cases b with
      | bytes => decide
      | packets => exact absurd rfl other

/-- What is not a digit, and is not in the other name, is not in its argument. -/
theorem initial_not_mem_text {a : LimitArgument} {name : LimitName} (other : a.name ≠ name) :
    name.initial ∉ a.text := by
  have noDigit : name.initial ∉ a.number := by
    intro member
    have digit := a.digits _ member
    cases name with
    | bytes => exact absurd digit (by decide)
    | packets => exact absurd digit (by decide)
  unfold LimitArgument.text
  rw [List.mem_append, List.mem_cons]
  rintro (member | same | member)
  · exact LimitName.initial_not_mem other member
  · cases name with
    | bytes => exact absurd same (by decide)
    | packets => exact absurd same (by decide)
  · exact noDigit member

/-- What a search for a name finds in a text: nothing, or the number given for it. -/
def Finds (args : List LimitArgument) (name : LimitName) (text : Text) : Prop :=
  (args.find? (fun a => a.name == name) = none ∧ afterName name.text text = none) ∨
    ∃ a rest, args.find? (fun a => a.name == name) = some a ∧
      afterName name.text text = some ('=' :: (a.number ++ rest)) ∧
      ∀ c, rest.head? = some c → c.isDigit = false

theorem finds_front {a : LimitArgument} {name : LimitName} (same : a.name = name)
    (args : List LimitArgument) {rest : Text}
    (ended : ∀ c, rest.head? = some c → c.isDigit = false) :
    Finds (a :: args) name (a.text ++ rest) := by
  refine Or.inr ⟨a, rest, ?_, ?_, ended⟩
  · rw [List.find?_cons_of_pos (by simp [same])]
  · unfold LimitArgument.text
    rw [same, List.append_assoc]
    cases name with
    | bytes => rfl
    | packets => rfl

/-- An argument for the other name is passed over. -/
theorem finds_skip {a : LimitArgument} {name : LimitName} (other : a.name ≠ name)
    {args : List LimitArgument} {between rest : Text} (clean : name.initial ∉ between)
    (finds : Finds args name rest) : Finds (a :: args) name (a.text ++ between ++ rest) := by
  have unlike : ¬ (a.name == name) = true := by simpa using other
  have absent : name.initial ∉ a.text ++ between := by
    rw [List.mem_append]
    rintro (member | member)
    · exact initial_not_mem_text other member
    · exact clean member
  obtain ⟨tail, shape⟩ := name.text_eq
  have passed : (a :: args).find? (fun a => a.name == name) =
      args.find? (fun a => a.name == name) := List.find?_cons_of_neg unlike
  unfold Finds at finds ⊢
  rw [passed, shape, afterName_skip absent, ← shape]
  exact finds

theorem finds_written (args : List LimitArgument) (name : LimitName) {tail : Text}
    (plain : ∀ c ∈ tail, c = ']') : Finds args name (written args ++ tail) := by
  have ended : ∀ c, tail.head? = some c → c.isDigit = false := by
    intro c first
    rw [plain c (List.mem_of_head? first)]
    decide
  have absent : name.initial ∉ tail := by
    intro member
    have same := plain _ member
    cases name with
    | bytes => exact absurd same (by decide)
    | packets => exact absurd same (by decide)
  have finds_tail : Finds [] name tail := by
    obtain ⟨rest, shape⟩ := name.text_eq
    refine Or.inl ⟨rfl, ?_⟩
    rw [shape]
    exact afterName_none absent
  induction args using written.induct with
  | case1 => exact finds_tail
  | case2 a =>
      by_cases same : a.name = name
      · exact finds_front same [] ended
      · have skipped := @finds_skip a name same [] [] tail List.not_mem_nil finds_tail
        rwa [List.append_nil] at skipped
  | case3 a b args ih =>
      by_cases same : a.name = name
      · rw [written, List.append_assoc]
        apply finds_front same
        intro c first
        cases first
        rfl
      · have shape : written (a :: b :: args) ++ tail =
            a.text ++ [',', ' '] ++ (written (b :: args) ++ tail) := by simp [written]
        have clean : name.initial ∉ [',', ' '] := by
          cases name with
          | bytes => decide
          | packets => decide
        rw [shape]
        exact finds_skip same clean ih

/-- What `get_arg` comes to where a search finds an argument. -/
theorem getArg_of_finds {args : List LimitArgument} {name : LimitName} {text : Text}
    (finds : Finds args name text) :
    getArg text name.text =
      match args.find? (fun a => a.name == name) with
      | none => .ok 0
      | some a =>
          if a.value < 2 ^ 63 then .ok (u32 a.value) else .error (.runtimeError "strtol") := by
  rcases finds with ⟨none, missing⟩ | ⟨a, rest, found, look, ended⟩
  · rw [none]
    unfold getArg
    rw [missing]
  · have same : a.name = name := by simpa using List.find?_some found
    rw [found, ← same]
    exact getArg_front a (same ▸ look) ended

/-- The limits that are set, as arguments. -/
def limitArguments (q : DroppingPacketQueue) : List LimitArgument :=
  let digits : ∀ n : Nat, ∀ c ∈ Nat.toDigits 10 n, c.isDigit = true :=
    fun _ _ member => Nat.isDigit_of_mem_toDigits (by decide) (by decide) member
  (if q.limits.byteLimit ≠ 0 then
      [⟨.bytes, Nat.toDigits 10 q.limits.byteLimit, Nat.toDigits_ne_nil, digits _⟩] else []) ++
    if q.limits.packetLimit ≠ 0 then
      [⟨.packets, Nat.toDigits 10 q.limits.packetLimit, Nat.toDigits_ne_nil, digits _⟩] else []

theorem toText_eq (type : QueueType) (q : DroppingPacketQueue) :
    q.toText type = type.text ++ " [".toList ++ (written (limitArguments q) ++ [']']) := by
  unfold DroppingPacketQueue.toText limitArguments
  by_cases bytes : q.limits.byteLimit = 0
  · by_cases packets : q.limits.packetLimit = 0
    · simp [bytes, packets, written]
    · simp [bytes, packets, written, LimitArgument.text]
  · by_cases packets : q.limits.packetLimit = 0
    · simp [bytes, packets, written, LimitArgument.text]
    · simp [bytes, packets, written, LimitArgument.text]

/-- No name occurs in what is printed before the limits. -/
theorem afterName_type (type : QueueType) (name : LimitName) (rest : Text) :
    afterName name.text (type.text ++ " [".toList ++ rest) = afterName name.text rest := by
  cases type with
  | droptail => cases name <;> rfl
  | drophead => cases name <;> rfl
  | codel => cases name <;> rfl
  | pie => cases name <;> rfl

/-- The printed limits are read back. -/
theorem getArg_toText (type : QueueType) (q : DroppingPacketQueue) (name : LimitName) :
    getArg (q.toText type) name.text = .ok (q.limit name) := by
  have finds : Finds (limitArguments q) name (q.toText type) := by
    have written := @finds_written (limitArguments q) name [']'] (by simp)
    unfold Finds at written ⊢
    rw [toText_eq, afterName_type]
    exact written
  have bytesLt := q.limits.byteLimit_lt
  have packetsLt := q.limits.packetLimit_lt
  have word : ∀ n : Nat, n < 2 ^ 32 → u32 n = n := fun n below => toUnsigned_natCast 32 n below
  rw [getArg_of_finds finds]
  unfold limitArguments LimitArgument.value DroppingPacketQueue.limit
  cases name with
  | bytes =>
      by_cases bytes : q.limits.byteLimit = 0
      · by_cases packets : q.limits.packetLimit = 0
        · simp [bytes, packets]
        · simp [bytes, packets]
      · have fits : q.limits.byteLimit < 9223372036854775808 := by omega
        simp [bytes, fits, word _ bytesLt]
  | packets =>
      by_cases packets : q.limits.packetLimit = 0
      · by_cases bytes : q.limits.byteLimit = 0
        · simp [bytes, packets]
        · simp [bytes, packets]
      · have fits : q.limits.packetLimit < 9223372036854775808 := by omega
        by_cases bytes : q.limits.byteLimit = 0
        · simp [bytes, packets, fits, word _ packetsLt]
        · simp [bytes, packets, fits, word _ packetsLt]

/-- The number read for a name, if one is, is the one given. -/
def ReadExactly (args : List LimitArgument) (name : LimitName) : Prop :=
  ∀ n, getArg (written args) name.text = .ok n → n = given args name

/-- The printed limits of every queue are read back. -/
def PrintedIsRead : Prop :=
  ∀ (type : QueueType) (q : DroppingPacketQueue) (name : LimitName),
    getArg (q.toText type) name.text = .ok (q.limit name)

/-- A name is read exactly if the number given fits an `unsigned int`, or does not fit a `long`. -/
theorem readExactly_iff (args : List LimitArgument) (name : LimitName) :
    ReadExactly args name ↔ ∀ a, args.find? (fun a => a.name == name) = some a →
      a.value < 2 ^ 32 ∨ 2 ^ 63 ≤ a.value := by
  have finds := @finds_written args name [] (by simp)
  rw [List.append_nil] at finds
  unfold ReadExactly LimitArgument.given
  rw [getArg_of_finds finds]
  cases found : args.find? (fun a => a.name == name) with
  | none => simp
  | some a =>
      simp only [Option.some.injEq, forall_eq']
      by_cases long : a.value < 2 ^ 63
      · rw [if_pos long]
        constructor
        · intro exactly
          have same := exactly _ rfl
          have word := toUnsigned_lt 32 (a.value : Int)
          exact Or.inl (same ▸ word)
        · intro fits n read
          rw [← Except.ok.inj read]
          exact toUnsigned_natCast 32 _ (by omega)
      · rw [if_neg long]
        simp only [reduceCtorEq, false_implies, implies_true, true_iff]
        omega

/-- Each limit is read exactly or not at all, in any order, exactly when no number given is one
that a `long` holds and an `unsigned int` does not; printed limits are always read back. -/
theorem readExactly_and_printed_iff (args : List LimitArgument)
    (distinct : (args.map LimitArgument.name).Nodup) :
    ((∀ name, ReadExactly args name) ∧ PrintedIsRead) ↔
      ∀ a ∈ args, a.value < 2 ^ 32 ∨ 2 ^ 63 ≤ a.value := by
  have found : ∀ a ∈ args, args.find? (fun b => b.name == a.name) = some a := by
    intro a member
    induction args with
    | nil => cases member
    | cons b args ih =>
        rw [List.map_cons, List.nodup_cons] at distinct
        rcases List.mem_cons.mp member with rfl | behind
        · exact List.find?_cons_of_pos (by simp)
        · have other : ¬ (b.name == a.name) = true := by
            rw [beq_iff_eq]
            intro same
            exact distinct.1 (same ▸ List.mem_map_of_mem behind)
          have passed : (b :: args).find? (fun b => b.name == a.name) =
              args.find? (fun b => b.name == a.name) := List.find?_cons_of_neg other
          rw [passed]
          exact ih distinct.2 behind
  constructor
  · rintro ⟨exactly, _⟩ a member
    exact (readExactly_iff args a.name).mp (exactly a.name) a (found a member)
  · intro fits
    refine ⟨?_, getArg_toText⟩
    intro name
    rw [readExactly_iff]
    intro a found
    exact fits a (List.mem_of_find?_eq_some found)

/-- Two more than the largest `unsigned int`. -/
def tooManyPackets : LimitArgument := ⟨.packets, "4294967297".toList, by simp, by simp⟩

/-- It is read as a limit of one packet. -/
theorem not_readExactly : getArg "packets=4294967297".toList "packets".toList = .ok 1 ∧
    ¬ ((∀ name, ReadExactly [tooManyPackets] name) ∧ PrintedIsRead) := by
  have read : getArg "packets=4294967297".toList "packets".toList = .ok 1 := by decide +kernel
  refine ⟨read, ?_⟩
  rintro ⟨exactly, _⟩
  have same := exactly .packets 1 read
  exact absurd same (by decide +kernel)

/-- Limits of 10 packets and of `2^63` bytes: the first one is read, the second one refused. -/
theorem readExactly_and_printed_iff_refused :
    let args : List LimitArgument :=
      [⟨.packets, "10".toList, by simp, by simp⟩,
        ⟨.bytes, "9223372036854775808".toList, by simp, by simp⟩]
    written args = "packets=10, bytes=9223372036854775808".toList ∧
      (∀ name, ReadExactly args name) ∧ PrintedIsRead ∧
      getArg (written args) "bytes".toList = .error (.runtimeError "strtol") := by
  intro args
  have both := (readExactly_and_printed_iff args (by decide)).mpr (by decide +kernel)
  exact ⟨by decide +kernel, both.1, both.2, by decide +kernel⟩

end CellReplay
