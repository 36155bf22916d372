import CellReplay.Record.DynamicServer

set_option autoImplicit false

namespace CellReplay

/-- The address of a socket. -/
structure Address where
  host : Text
  port : Nat
  deriving DecidableEq, Repr

/-- A file object: the lines written to it, and whether it was closed. -/
structure LogFile (Line : Type) where
  lines : List Line
  closed : Bool
  deriving DecidableEq, Repr

def LogFile.close {Line : Type} (file : LogFile Line) : LogFile Line := { file with closed := true }

/-- `log_file.write`. -/
def LogFile.write {Line : Type} (line : Line) : Option (LogFile Line) → Except Fault (LogFile Line)
  | none => .error (.runtimeError "'NoneType' object has no attribute 'write'")
  | some file =>
      if file.closed then .error (.runtimeError "I/O operation on closed file.")
      else .ok { file with lines := file.lines ++ [line] }

/-- A packet that `main` sends. -/
inductive Reply where
  | control (senderId content : Int)
  | info (senderId logTime : Int) (avgThroughput : ℚ)
  deriving DecidableEq, Repr

/- The control messages of the three recording servers. -/
def controlSyn : Int := 100
def controlSynAck : Int := 150
def controlConfigAck : Int := 170
def controlFin : Int := 200

end CellReplay
