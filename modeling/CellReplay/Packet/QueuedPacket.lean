import CellReplay.Lib.FueledLoop
import CellReplay.Lib.MachineWord

set_option autoImplicit false

namespace CellReplay

open MachineWord

/-- Why an operation does not return. `fuel` is the only failure that is not the
program's own: the turns allowed to a loop ran out. `outOfRange` and `conversion`
are undefined behaviour of the source: an index past a vector, and a floating
value no `int` holds. -/
inductive Fault where
  | fuel
  | assertion (text : String)
  | runtimeError (text : String)
  | outOfRange
  | conversion
  deriving DecidableEq, Repr

/-- `assert( c )`. -/
def check (text : String) (c : Bool) : Except Fault Unit :=
  if c then .ok () else .error (.assertion text)

theorem check_eq_ok {text : String} {c : Bool} {u : Unit} :
    check text c = .ok u ↔ c = true := by
  cases c <;> simp [check]

theorem check_pass {text : String} {c : Bool} (holds : c = true) : check text c = .ok () :=
  check_eq_ok.mpr holds

theorem ok_of_toOption {α : Type} {x : Except Fault α} {a : α} (result : x.toOption = some a) :
    x = .ok a := by
  cases x with
  | error fault => cases result
  | ok b => exact congrArg Except.ok (Option.some.inj result)

/-- A result that is observed was returned. -/
theorem observe_ok {α β : Type} {x : Except Fault α} {observe : α → β} {seen : β}
    (observed : x.toOption.map observe = some seen) : ∃ a, x = .ok a ∧ observe a = seen := by
  have ⟨a, result, same⟩ := Option.map_eq_some_iff.mp observed
  exact ⟨a, ok_of_toOption result, same⟩

abbrev Bytes := List UInt8

/-- Which packet some bytes belong to: its place in the order of admission. -/
structure Datagram where
  sequenceNumber : Nat
  contents : Bytes
  deriving DecidableEq, Repr

/-- A packet of the delay stage. The address text written to the packet log is left out. -/
structure DelayQueuePacket where
  arrivalTime : Nat
  sequenceNumber : Nat
  releaseTime : Nat
  contents : Bytes
  isBypassLinkQueue : Bool
  deriving DecidableEq, Repr

namespace DelayQueuePacket

/-- `DelayQueuePacket( s_contents, s_arrival_time )`. -/
def ofContents (contents : Bytes) (arrivalTime : Nat) : DelayQueuePacket :=
  ⟨arrivalTime, 0, arrivalTime, contents, true⟩

def datagram (p : DelayQueuePacket) : Datagram := ⟨p.sequenceNumber, p.contents⟩

end DelayQueuePacket

/-- A packet of the link stage. `arrivalTime` is its arrival at the link queue. -/
structure QueuedPacket where
  initialArrivalTime : Nat
  arrivalTime : Nat
  sequenceNumber : Nat
  releaseTimeFromDelayQueue : Nat
  contents : Bytes
  deriving DecidableEq, Repr

namespace QueuedPacket

/-- `QueuedPacket( s_contents, s_arrival_time )`. -/
def ofContents (contents : Bytes) (arrivalTime : Nat) : QueuedPacket :=
  ⟨arrivalTime, arrivalTime, 0, arrivalTime, contents⟩

/-- The packet `put_packet_to_link_queue` makes of a delayed one at time `now`. -/
def ofDelayed (packet : DelayQueuePacket) (now : Nat) : QueuedPacket :=
  ⟨packet.arrivalTime, now, packet.sequenceNumber, packet.releaseTime, packet.contents⟩

def datagram (p : QueuedPacket) : Datagram := ⟨p.sequenceNumber, p.contents⟩

@[simp] theorem ofDelayed_datagram (packet : DelayQueuePacket) (now : Nat) :
    (ofDelayed packet now).datagram = packet.datagram := rfl

end QueuedPacket

/-- The total size of some packets. -/
def totalBytes (packets : List QueuedPacket) : Nat :=
  (packets.map (fun p => p.contents.length)).sum

@[simp] theorem totalBytes_nil : totalBytes [] = 0 := rfl

@[simp] theorem totalBytes_cons (p : QueuedPacket) (packets : List QueuedPacket) :
    totalBytes (p :: packets) = p.contents.length + totalBytes packets := rfl

@[simp] theorem totalBytes_append (front back : List QueuedPacket) :
    totalBytes (front ++ back) = totalBytes front + totalBytes back := by
  unfold totalBytes
  rw [List.map_append, List.sum_append]

end CellReplay
