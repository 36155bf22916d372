import CellReplay.Packet.QueuedPacket

set_option autoImplicit false

namespace CellReplay

/-- A string of the source as its characters. -/
abbrev Text := List Char

/-- The characters `strtol` skips in front of a number. -/
def isSpace (c : Char) : Bool :=
  c == ' ' || c == '\t' || c == '\n' || c == '\r' || c.toNat == 11 || c.toNat == 12

/-- The sign `strtol` reads, and what follows it. -/
def splitSign : Text → Bool × Text
  | '-' :: rest => (true, rest)
  | '+' :: rest => (false, rest)
  | rest => (false, rest)

/-- A value a `long` can hold; `strtol` sets `errno` for the others. -/
def toLong (value : Int) : Option Int :=
  if -2 ^ 63 ≤ value ∧ value < 2 ^ 63 then some value else none

/-- `strtol` in base 10: the value, which is `none` out of the range of `long`,
and the characters left. Without a digit nothing is consumed. -/
def strtol (str : Text) : Option Int × Text :=
  let (negative, rest) := splitSign (str.dropWhile isSpace)
  let digits := rest.takeWhile Char.isDigit
  if digits.isEmpty then (some 0, str)
  else
    let magnitude : Int := Nat.ofDigitChars 10 digits 0
    (toLong (if negative then -magnitude else magnitude), rest.dropWhile Char.isDigit)

def myatoi (str : Text) : Except Fault Int :=
  if str.isEmpty then .error (.runtimeError "Invalid integer string: empty")
  else
    match strtol str with
    | (none, _) => .error (.runtimeError "strtol")
    | (some value, left) =>
        if left.isEmpty then .ok value
        else .error (.runtimeError ("Invalid integer: " ++ String.ofList str))

/-- `myatof`, for what `strtod` reads: a value, which is `none` where it sets `errno`, and the
characters left. -/
def myatof {α : Type} (strtod : Text → Option α × Text) (str : Text) : Except Fault α :=
  if str.isEmpty then .error (.runtimeError "Invalid floating-point string: empty")
  else
    match strtod str with
    | (none, _) => .error (.runtimeError "strtod")
    | (some value, left) =>
        if left.isEmpty then .ok value
        else .error (.runtimeError ("Invalid floating-point number: " ++ String.ofList str))

end CellReplay
