import CellReplay.Lib.GetoptLong
import CellReplay.Packet.PacketQueue

set_option autoImplicit false

namespace CellReplay

open FueledLoop GetoptLong MachineWord

/-- The values of `opt`, but for `?`. -/
inductive OptionLetter where
  | o
  | i
  | q
  | w
  | a
  | b
  | c
  | r
  | e
  | f
  | g
  | h
  | u
  | d
  deriving DecidableEq, Repr

namespace Cellularshell

def commandLineOptions : Options OptionLetter where
  long := [
    ⟨"once".toList, .noArgument, .o⟩,
    ⟨"packet-log-folder".toList, .requiredArgument, .i⟩,
    ⟨"uplink-queue".toList, .requiredArgument, .q⟩,
    ⟨"downlink-queue".toList, .requiredArgument, .w⟩,
    ⟨"uplink-queue-args".toList, .requiredArgument, .a⟩,
    ⟨"downlink-queue-args".toList, .requiredArgument, .b⟩,
    ⟨"start-timestamp".toList, .requiredArgument, .c⟩,
    ⟨"loss-rate".toList, .requiredArgument, .r⟩,
    ⟨"psize-latency-offset-up".toList, .requiredArgument, .e⟩,
    ⟨"psize-latency-offset-down".toList, .requiredArgument, .f⟩,
    ⟨"long-to-short-timer-up".toList, .requiredArgument, .g⟩,
    ⟨"long-to-short-timer-down".toList, .requiredArgument, .h⟩]
  -- "u:d:"
  short := [('u', .requiredArgument, .u), ('d', .requiredArgument, .d)]

/-- `stoul`: `strtoul` negates a number behind a minus sign, and what follows the digits is
ignored. -/
def stoul (str : Text) : Except Fault Nat :=
  let (negative, rest) := splitSign (str.dropWhile isSpace)
  let digits := rest.takeWhile Char.isDigit
  let magnitude := Nat.ofDigitChars 10 digits 0
  if digits.isEmpty then .error (.runtimeError "stoul")
  else if 2 ^ 64 ≤ magnitude then .error (.runtimeError "stoul")
  else .ok (if negative then u64 (-magnitude) else magnitude)

/-- `atoi`, whose result is undefined when no `int` holds it. -/
def atoi (str : Text) : Option Int :=
  (strtol str).1.bind (fun value => if -2 ^ 31 ≤ value ∧ value < 2 ^ 31 then some value else none)

/-- A timer, a `long` that is stored in an `int`. -/
def timer (optarg : Text) : Except Fault Int := do return i32 (← myatoi optarg)

/-- The variables that the options set. -/
structure Settings (α : Type) where
  repeats : Bool
  uplinkQueueType : Text
  downlinkQueueType : Text
  uplinkQueueArgs : Text
  downlinkQueueArgs : Text
  startTimestamp : Nat
  lossRate : α
  psizeOffsetUp : Text
  psizeOffsetDown : Text
  longToShortTimerUp : Int
  longToShortTimerDown : Int
  packetLogPrefix : Text
  deriving DecidableEq, Repr

def Settings.initial {α : Type} [Zero α] : Settings α where
  repeats := true
  uplinkQueueType := "infinite".toList
  downlinkQueueType := "infinite".toList
  uplinkQueueArgs := []
  downlinkQueueArgs := []
  startTimestamp := 0
  lossRate := 0
  psizeOffsetUp := []
  psizeOffsetDown := []
  longToShortTimerUp := 0
  longToShortTimerDown := 0
  packetLogPrefix := []

/-- What `start_uplink` or `start_downlink` is passed, with the queue as the type and arguments
`get_packet_queue` is passed for it. -/
structure LinkArguments (α : Type) where
  packetTrainTrace : Text
  pdoTrace : Text
  packetLogPrefix : Text
  repeats : Bool
  queueType : Text
  queueArgs : Text
  startTimestamp : Nat
  lossRate : α
  psizeOffset : Text
  longToShortTimer : Int
  deriving DecidableEq, Repr

section
variable {α : Type}

def Settings.uplink (s : Settings α) (upPacketTrainTrace uplinkPdoTrace : Text) :
    LinkArguments α where
  packetTrainTrace := upPacketTrainTrace
  pdoTrace := uplinkPdoTrace
  packetLogPrefix := s.packetLogPrefix
  repeats := s.repeats
  queueType := s.uplinkQueueType
  queueArgs := s.uplinkQueueArgs
  startTimestamp := s.startTimestamp
  lossRate := s.lossRate
  psizeOffset := s.psizeOffsetUp
  longToShortTimer := s.longToShortTimerUp

def Settings.downlink (s : Settings α) (downPacketTrainTrace downlinkPdoTrace : Text) :
    LinkArguments α where
  packetTrainTrace := downPacketTrainTrace
  pdoTrace := downlinkPdoTrace
  packetLogPrefix := s.packetLogPrefix
  repeats := s.repeats
  queueType := s.downlinkQueueType
  queueArgs := s.downlinkQueueArgs
  startTimestamp := s.startTimestamp
  lossRate := s.lossRate
  psizeOffset := s.psizeOffsetDown
  longToShortTimer := s.longToShortTimerDown

/-- The traces in the order that they are given in. -/
structure Traces where
  upPacketTrainTrace : Text
  downPacketTrainTrace : Text
  uplinkPdoTrace : Text
  downlinkPdoTrace : Text
  deriving DecidableEq, Repr

/-- The words behind `optind`. Behind the last one there is a null pointer. -/
def traces : List Text → Except Fault Traces
  | [] => .error (.runtimeError "invalid arguments")
  | [_] => .error (.runtimeError "invalid arguments")
  | _ :: up :: down :: uplink :: downlink :: _ => .ok ⟨up, down, uplink, downlink⟩
  | _ => .error (.runtimeError "basic_string: construction from null is not valid")

variable (stod : Text → Except Fault α)

/-- The `switch` over an option that `getopt_long` returns. -/
def handleOption (s : Settings α) : Option OptionLetter × Word → Except Fault (Settings α)
  | (some .c, optarg) => do return { s with startTimestamp := ← stoul optarg }
  | (some .i, optarg) => .ok { s with packetLogPrefix := optarg }
  | (some .o, _) => .ok { s with repeats := false }
  | (some .q, optarg) => .ok { s with uplinkQueueType := optarg }
  | (some .w, optarg) => .ok { s with downlinkQueueType := optarg }
  | (some .a, optarg) => .ok { s with uplinkQueueArgs := optarg }
  | (some .b, optarg) => .ok { s with downlinkQueueArgs := optarg }
  | (some .r, optarg) => do return { s with lossRate := ← stod optarg }
  | (some .e, optarg) => .ok { s with psizeOffsetUp := optarg }
  | (some .f, optarg) => .ok { s with psizeOffsetDown := optarg }
  | (some .g, optarg) => do return { s with longToShortTimerUp := ← timer optarg }
  | (some .h, optarg) => do return { s with longToShortTimerDown := ← timer optarg }
  | (some .u, _) => .ok s
  | (some .d, _) => .ok s
  | (none, _) => .ok s

/-- What `main` has made of its arguments when it builds the queues. -/
def parse [Zero α] (argv : List Text) : Except Fault (LinkArguments α × LinkArguments α) := do
  if argv.length < 5 then throw (.runtimeError "invalid arguments")
  let scanned := scan commandLineOptions .words argv.tail
  let s ← scanned.returned.foldlM (handleOption stod) Settings.initial
  let t ← traces scanned.operands
  return (s.uplink t.upPacketTrainTrace t.uplinkPdoTrace,
    s.downlink t.downPacketTrainTrace t.downlinkPdoTrace)

def LinkArguments.getPacketQueue (x : LinkArguments α) : Except Fault AbstractPacketQueue :=
  AbstractPacketQueue.get x.queueType x.queueArgs

/-- The two starts, as far as `main` comes. -/
def startLinks (uplink downlink : LinkArguments α) : List (LinkArguments α) :=
  match uplink.getPacketQueue with
  | .error _ => []
  | .ok _ =>
      match downlink.getPacketQueue with
      | .error _ => [uplink]
      | .ok _ => [uplink, downlink]

/-- What `main` passes to `start_uplink` and then to `start_downlink`. -/
def started [Zero α] (argv : List Text) : List (LinkArguments α) :=
  match parse stod argv with
  | .error _ => []
  | .ok (uplink, downlink) => startLinks uplink downlink

end

/-- The command that is run in the shell, the arguments from `NUM_ARGS` on. -/
def command (shellPath : Text) (argv : List Text) : Option (List Text) := do
  let numArgs ← atoi (← argv[1]?)
  if numArgs < 0 then none
  else
    let extraCmd := argv.drop numArgs.toNat
    return if extraCmd.isEmpty then [shellPath] else extraCmd

/-- Arguments up to the position that `NUM_ARGS` gives: the last option among them has its argument,
and the operands among them are `NUM_ARGS` and at least the four traces. -/
structure WellFormed (front : List Text) : Prop where
  numArgs : front[1]?.bind atoi = some (front.length : Int)
  complete : ∀ letter, (scan commandLineOptions .words front.tail).mode ≠ .argument letter
  operands : 5 ≤ (scan commandLineOptions .words front.tail).operands.length

/-- The arguments from `NUM_ARGS` on are the command. -/
theorem command_eq {front : List Text} (wf : WellFormed front) (shellPath : Text)
    (tail : List Text) :
    command shellPath (front ++ tail) = some (if tail.isEmpty then [shellPath] else tail) := by
  obtain ⟨word, second, read⟩ := Option.bind_eq_some_iff.mp wf.numArgs
  have inside := (List.getElem?_eq_some_iff.mp second).1
  unfold command
  rw [List.getElem?_append_left inside, second]
  simp only [Option.bind_eq_bind, Option.bind_some, read]
  rw [if_neg (by omega), Int.toNat_natCast, List.drop_left]
  rfl

section
variable {α : Type} {stod : Text → Except Fault α}

/-- The conversions that cannot fail. -/
def toText (optarg : Text) : Except Fault Text := .ok optarg

def toFalse (_ : Text) : Except Fault Bool := .ok false

/-- Which variable each option sets, and from what. -/
structure Effect (stod : Text → Except Fault α) (option : Option OptionLetter × Word)
    (s s' : Settings α) : Prop where
  repeats : Sets .o Settings.repeats toFalse option s s'
  uplinkQueueType : Sets .q Settings.uplinkQueueType toText option s s'
  downlinkQueueType : Sets .w Settings.downlinkQueueType toText option s s'
  uplinkQueueArgs : Sets .a Settings.uplinkQueueArgs toText option s s'
  downlinkQueueArgs : Sets .b Settings.downlinkQueueArgs toText option s s'
  startTimestamp : Sets .c Settings.startTimestamp stoul option s s'
  lossRate : Sets .r Settings.lossRate stod option s s'
  psizeOffsetUp : Sets .e Settings.psizeOffsetUp toText option s s'
  psizeOffsetDown : Sets .f Settings.psizeOffsetDown toText option s s'
  longToShortTimerUp : Sets .g Settings.longToShortTimerUp timer option s s'
  longToShortTimerDown : Sets .h Settings.longToShortTimerDown timer option s s'
  packetLogPrefix : Sets .i Settings.packetLogPrefix toText option s s'

theorem handleOption_effect {s s' : Settings α} {option : Option OptionLetter × Word}
    (run : handleOption stod s option = .ok s') : Effect stod option s s' := by
  unfold handleOption at run
  split at run
  · obtain ⟨value, read, returned⟩ := bind_eq_ok.mp run
    rw [← Except.ok.inj returned]
    constructor <;> simp [Sets, read]
  · rw [← Except.ok.inj run]
    constructor <;> simp [Sets, toText]
  · rw [← Except.ok.inj run]
    constructor <;> simp [Sets, toFalse]
  · rw [← Except.ok.inj run]
    constructor <;> simp [Sets, toText]
  · rw [← Except.ok.inj run]
    constructor <;> simp [Sets, toText]
  · rw [← Except.ok.inj run]
    constructor <;> simp [Sets, toText]
  · rw [← Except.ok.inj run]
    constructor <;> simp [Sets, toText]
  · obtain ⟨value, read, returned⟩ := bind_eq_ok.mp run
    rw [← Except.ok.inj returned]
    constructor <;> simp [Sets, read]
  · rw [← Except.ok.inj run]
    constructor <;> simp [Sets, toText]
  · rw [← Except.ok.inj run]
    constructor <;> simp [Sets, toText]
  · obtain ⟨value, read, returned⟩ := bind_eq_ok.mp run
    rw [← Except.ok.inj returned]
    constructor <;> simp [Sets, read]
  · obtain ⟨value, read, returned⟩ := bind_eq_ok.mp run
    rw [← Except.ok.inj returned]
    constructor <;> simp [Sets, read]
  · rw [← Except.ok.inj run]
    constructor <;> simp [Sets]
  · rw [← Except.ok.inj run]
    constructor <;> simp [Sets]
  · rw [← Except.ok.inj run]
    constructor <;> simp [Sets]

/-- The options that can be handled. -/
def takes (stod : Text → Except Fault α) (option : Option OptionLetter × Word) : Bool :=
  match option.1 with
  | some .c => (stoul option.2).isOk
  | some .r => (stod option.2).isOk
  | some .g => (timer option.2).isOk
  | some .h => (timer option.2).isOk
  | _ => true

theorem converts_iff {β σ : Type} {converted : Except Fault β} (store : β → σ) :
    (∃ s', (do return store (← converted) : Except Fault σ) = .ok s') ↔ converted.isOk = true := by
  cases converted with
  | error fault => exact ⟨nofun, nofun⟩
  | ok value => exact ⟨fun _ => rfl, fun _ => ⟨store value, rfl⟩⟩

theorem handleOption_returns_iff (stod : Text → Except Fault α) (s : Settings α)
    (option : Option OptionLetter × Word) :
    (∃ s', handleOption stod s option = .ok s') ↔ takes stod option = true := by
  obtain ⟨letter, optarg⟩ := option
  cases letter with
  | none => exact ⟨fun _ => rfl, fun _ => ⟨_, rfl⟩⟩
  | some letter =>
      cases letter with
      | c => exact converts_iff _
      | r => exact converts_iff _
      | g => exact converts_iff _
      | h => exact converts_iff _
      | _ => exact ⟨fun _ => rfl, fun _ => ⟨_, rfl⟩⟩

/-- A variable that an option sets. -/
abbrev Var (stod : Text → Except Fault α) (β : Type) := Variable (handleOption stod) β

namespace Var
variable (stod)

def repeats : Var stod Bool :=
  ⟨.o, Settings.repeats, toFalse, fun _ _ _ run => (handleOption_effect run).repeats⟩

def uplinkQueueType : Var stod Text :=
  ⟨.q, Settings.uplinkQueueType, toText, fun _ _ _ run => (handleOption_effect run).uplinkQueueType⟩

def downlinkQueueType : Var stod Text :=
  ⟨.w, Settings.downlinkQueueType, toText,
    fun _ _ _ run => (handleOption_effect run).downlinkQueueType⟩

def uplinkQueueArgs : Var stod Text :=
  ⟨.a, Settings.uplinkQueueArgs, toText, fun _ _ _ run => (handleOption_effect run).uplinkQueueArgs⟩

def downlinkQueueArgs : Var stod Text :=
  ⟨.b, Settings.downlinkQueueArgs, toText,
    fun _ _ _ run => (handleOption_effect run).downlinkQueueArgs⟩

def startTimestamp : Var stod Nat :=
  ⟨.c, Settings.startTimestamp, stoul, fun _ _ _ run => (handleOption_effect run).startTimestamp⟩

def lossRate : Var stod α :=
  ⟨.r, Settings.lossRate, stod, fun _ _ _ run => (handleOption_effect run).lossRate⟩

def psizeOffsetUp : Var stod Text :=
  ⟨.e, Settings.psizeOffsetUp, toText, fun _ _ _ run => (handleOption_effect run).psizeOffsetUp⟩

def psizeOffsetDown : Var stod Text :=
  ⟨.f, Settings.psizeOffsetDown, toText, fun _ _ _ run => (handleOption_effect run).psizeOffsetDown⟩

def longToShortTimerUp : Var stod Int :=
  ⟨.g, Settings.longToShortTimerUp, timer,
    fun _ _ _ run => (handleOption_effect run).longToShortTimerUp⟩

def longToShortTimerDown : Var stod Int :=
  ⟨.h, Settings.longToShortTimerDown, timer,
    fun _ _ _ run => (handleOption_effect run).longToShortTimerDown⟩

def packetLogPrefix : Var stod Text :=
  ⟨.i, Settings.packetLogPrefix, toText, fun _ _ _ run => (handleOption_effect run).packetLogPrefix⟩

end Var

/-- The options that `getopt_long` returns for the words of `front`, -/
def ofFront (front : List Text) : List (Option OptionLetter × Word) :=
  (scan commandLineOptions .words front.tail).options

/-- and for the words behind them. -/
def ofTail (front tail : List Text) : List (Option OptionLetter × Word) :=
  (scan commandLineOptions (scan commandLineOptions .words front.tail).mode tail).returned

/-- The value in force for a variable: the last one that the tail gives, or else that of `front`, or
else the initial one. -/
def inForce [Zero α] {β : Type} (x : Var stod β) (front tail : List Text) : β :=
  (x.lastGiven (ofTail front tail)).getD
    ((x.lastGiven (ofFront front)).getD (x.get Settings.initial))

theorem get_eq_inForce [Zero α] {β : Type} (x : Var stod β) {front tail : List Text}
    {s : Settings α} (run : (ofFront front ++ ofTail front tail).foldlM (handleOption stod)
      Settings.initial = .ok s) : x.get s = inForce x front tail := by
  rw [x.get_foldlM run, x.lastGiven_append, inForce]
  cases x.lastGiven (ofTail front tail) with
  | none => rfl
  | some value => rfl

theorem startLinks_eq (uplink downlink : LinkArguments α) :
    startLinks uplink downlink =
      if uplink.getPacketQueue.isOk then
        uplink :: if downlink.getPacketQueue.isOk then [downlink] else []
      else [] := by
  unfold startLinks
  cases uplink.getPacketQueue with
  | error fault => rfl
  | ok queue =>
      cases downlink.getPacketQueue with
      | error fault => rfl
      | ok queue => rfl

/-- Two lists of up to two starts. -/
theorem starts_eq_iff {u u' d d' : LinkArguments α} {p p' q q' : Bool} :
    ((if p then u :: if q then [d] else [] else []) =
        if p' then u' :: if q' then [d'] else [] else []) ↔
      p = p' ∧ (p = true → u = u' ∧ q = q' ∧ (q = true → d = d')) := by
  cases p with
  | false => cases p' <;> simp
  | true =>
      cases p' with
      | false => simp
      | true => cases q <;> cases q' <;> simp

/-- The variables that only one of the links is passed. -/
structure LinkVars (stod : Text → Except Fault α) where
  queueType : Var stod Text
  queueArgs : Var stod Text
  psizeOffset : Var stod Text
  longToShortTimer : Var stod Int

def uplinkVars (stod : Text → Except Fault α) : LinkVars stod :=
  ⟨.uplinkQueueType stod, .uplinkQueueArgs stod, .psizeOffsetUp stod, .longToShortTimerUp stod⟩

def downlinkVars (stod : Text → Except Fault α) : LinkVars stod :=
  ⟨.downlinkQueueType stod, .downlinkQueueArgs stod, .psizeOffsetDown stod,
    .longToShortTimerDown stod⟩

section
variable [Zero α]

/-- What a link is passed when the values in force are as they are. -/
def linkInForce (x : LinkVars stod) (front tail : List Text) (packetTrainTrace pdoTrace : Text) :
    LinkArguments α where
  packetTrainTrace := packetTrainTrace
  pdoTrace := pdoTrace
  packetLogPrefix := inForce (Var.packetLogPrefix stod) front tail
  repeats := inForce (Var.repeats stod) front tail
  queueType := inForce x.queueType front tail
  queueArgs := inForce x.queueArgs front tail
  startTimestamp := inForce (Var.startTimestamp stod) front tail
  lossRate := inForce (Var.lossRate stod) front tail
  psizeOffset := inForce x.psizeOffset front tail
  longToShortTimer := inForce x.longToShortTimer front tail

/-- Two tails leave the same value in force for each option that concerns a link. -/
structure SameInForce (x : LinkVars stod) (front tail₁ tail₂ : List Text) : Prop where
  packetLogPrefix : inForce (Var.packetLogPrefix stod) front tail₁ =
    inForce (Var.packetLogPrefix stod) front tail₂
  repeats : inForce (Var.repeats stod) front tail₁ = inForce (Var.repeats stod) front tail₂
  queueType : inForce x.queueType front tail₁ = inForce x.queueType front tail₂
  queueArgs : inForce x.queueArgs front tail₁ = inForce x.queueArgs front tail₂
  startTimestamp : inForce (Var.startTimestamp stod) front tail₁ =
    inForce (Var.startTimestamp stod) front tail₂
  lossRate : inForce (Var.lossRate stod) front tail₁ =
    inForce (Var.lossRate stod) front tail₂
  psizeOffset : inForce x.psizeOffset front tail₁ = inForce x.psizeOffset front tail₂
  longToShortTimer : inForce x.longToShortTimer front tail₁ = inForce x.longToShortTimer front tail₂

theorem linkInForce_eq_iff (x : LinkVars stod) (front tail₁ tail₂ : List Text)
    (packetTrainTrace pdoTrace : Text) :
    linkInForce x front tail₁ packetTrainTrace pdoTrace =
        linkInForce x front tail₂ packetTrainTrace pdoTrace ↔
      SameInForce x front tail₁ tail₂ := by
  unfold linkInForce
  rw [LinkArguments.mk.injEq]
  constructor
  · rintro ⟨-, -, packetLogPrefix, repeats, queueType, queueArgs, startTimestamp, lossRate,
      psizeOffset, longToShortTimer⟩
    exact ⟨packetLogPrefix, repeats, queueType, queueArgs, startTimestamp, lossRate, psizeOffset,
      longToShortTimer⟩
  · intro same
    exact ⟨rfl, rfl, same.packetLogPrefix, same.repeats, same.queueType, same.queueArgs,
      same.startTimestamp, same.lossRate, same.psizeOffset, same.longToShortTimer⟩

/-- `get_packet_queue` builds the queue of a link. -/
def hasQueue (x : LinkVars stod) (front tail : List Text) : Bool :=
  (AbstractPacketQueue.get (inForce x.queueType front tail) (inForce x.queueArgs front tail)).isOk

/-- Each option given can be handled, and the queue of the uplink can be built. -/
def startsUplink (stod : Text → Except Fault α) (front tail : List Text) : Bool :=
  (ofFront front ++ ofTail front tail).all (takes stod) && hasQueue (uplinkVars stod) front tail

section
variable {front : List Text}

theorem WellFormed.tail_append (wf : WellFormed front) (tail : List Text) :
    (front ++ tail).tail = front.tail ++ tail := by
  have filled : front ≠ [] := by
    intro empty
    have operands := wf.operands
    rw [empty] at operands
    exact absurd operands (by decide)
  exact List.tail_append_of_ne_nil filled

/-- The traces are those of `front`, whatever the tail. -/
theorem WellFormed.traces_append (wf : WellFormed front) :
    ∃ t, ∀ more, traces ((scan commandLineOptions .words front.tail).operands ++ more) = .ok t := by
  have five := wf.operands
  match (scan commandLineOptions .words front.tail).operands, five with
  | _ :: up :: down :: uplink :: downlink :: _, _ =>
      exact ⟨⟨up, down, uplink, downlink⟩, fun _ => rfl⟩

/-- `main` handles the options of `front` and then those of the tail. -/
theorem WellFormed.parse_eq (wf : WellFormed front) (stod : Text → Except Fault α) :
    ∃ t : Traces, ∀ tail, parse stod (front ++ tail) = do
      let s ← (ofFront front ++ ofTail front tail).foldlM (handleOption stod) Settings.initial
      return (s.uplink t.upPacketTrainTrace t.uplinkPdoTrace,
        s.downlink t.downPacketTrainTrace t.downlinkPdoTrace) := by
  obtain ⟨t, traces⟩ := wf.traces_append
  refine ⟨t, ?_⟩
  intro tail
  have long : ¬ (front ++ tail).length < 5 := by
    have operands := wf.operands
    have words := scan_operands_length commandLineOptions front.tail .words
    rw [List.length_tail] at words
    rw [List.length_append]
    omega
  unfold parse
  rw [if_neg long, wf.tail_append, scan_append]
  simp only [Scan.returned_append, Scan.operands_append, traces]
  rfl

end

/-- What the two links are passed, by the values in force. -/
theorem links_eq {front tail : List Text} {s : Settings α}
    (run : (ofFront front ++ ofTail front tail).foldlM (handleOption stod) Settings.initial = .ok s)
    (packetTrainTrace pdoTrace : Text) :
    s.uplink packetTrainTrace pdoTrace =
        linkInForce (uplinkVars stod) front tail packetTrainTrace pdoTrace ∧
      s.downlink packetTrainTrace pdoTrace =
        linkInForce (downlinkVars stod) front tail packetTrainTrace pdoTrace := by
  have packetLogPrefix := get_eq_inForce (Var.packetLogPrefix stod) run
  have repeats := get_eq_inForce (Var.repeats stod) run
  have startTimestamp := get_eq_inForce (Var.startTimestamp stod) run
  have lossRate := get_eq_inForce (Var.lossRate stod) run
  unfold Settings.uplink Settings.downlink linkInForce
  rw [LinkArguments.mk.injEq, LinkArguments.mk.injEq]
  constructor
  · exact ⟨rfl, rfl, packetLogPrefix, repeats, get_eq_inForce (Var.uplinkQueueType stod) run,
      get_eq_inForce (Var.uplinkQueueArgs stod) run, startTimestamp, lossRate,
      get_eq_inForce (Var.psizeOffsetUp stod) run, get_eq_inForce (Var.longToShortTimerUp stod) run⟩
  · exact ⟨rfl, rfl, packetLogPrefix, repeats, get_eq_inForce (Var.downlinkQueueType stod) run,
      get_eq_inForce (Var.downlinkQueueArgs stod) run, startTimestamp, lossRate,
      get_eq_inForce (Var.psizeOffsetDown stod) run,
      get_eq_inForce (Var.longToShortTimerDown stod) run⟩

section
variable {front : List Text}

theorem WellFormed.started_eq (wf : WellFormed front) (stod : Text → Except Fault α) :
    ∃ t : Traces, ∀ tail, started stod (front ++ tail) =
      if startsUplink stod front tail then
        linkInForce (uplinkVars stod) front tail t.upPacketTrainTrace t.uplinkPdoTrace ::
          if hasQueue (downlinkVars stod) front tail then
            [linkInForce (downlinkVars stod) front tail t.downPacketTrainTrace t.downlinkPdoTrace]
          else []
      else [] := by
  obtain ⟨t, parsed⟩ := wf.parse_eq stod
  refine ⟨t, ?_⟩
  intro tail
  have returns := foldlM_returns_iff (handleOption_returns_iff stod)
    (ofFront front ++ ofTail front tail) Settings.initial
  unfold started startsUplink
  rw [parsed]
  cases run : (ofFront front ++ ofTail front tail).foldlM (handleOption stod) Settings.initial with
  | error fault =>
      have refused : (ofFront front ++ ofTail front tail).all (takes stod) = false := by
        rw [← Bool.not_eq_true, ← returns]
        rintro ⟨s, run'⟩
        rw [run] at run'
        cases run'
      rw [refused]
      rfl
  | ok s =>
      rw [returns.mp ⟨s, run⟩, Bool.true_and]
      obtain ⟨uplink, _⟩ := links_eq run t.upPacketTrainTrace t.uplinkPdoTrace
      obtain ⟨_, downlink⟩ := links_eq run t.downPacketTrainTrace t.downlinkPdoTrace
      simp only [pure, Except.pure, bind, Except.bind, uplink, downlink]
      exact startLinks_eq _ _

/-- Two command lines with the same arguments up to `NUM_ARGS` start the links alike exactly when
the rests, as far as they are scanned for options, leave the same values in force. -/
theorem WellFormed.started_eq_iff_inForce (wf : WellFormed front) (stod : Text → Except Fault α)
    (tail₁ tail₂ : List Text) :
    started stod (front ++ tail₁) = started stod (front ++ tail₂) ↔
      startsUplink stod front tail₁ = startsUplink stod front tail₂ ∧
        (startsUplink stod front tail₁ = true →
          SameInForce (uplinkVars stod) front tail₁ tail₂ ∧
          hasQueue (downlinkVars stod) front tail₁ = hasQueue (downlinkVars stod) front tail₂ ∧
          (hasQueue (downlinkVars stod) front tail₁ = true →
            SameInForce (downlinkVars stod) front tail₁ tail₂)) := by
  obtain ⟨t, eq⟩ := wf.started_eq stod
  rw [eq, eq, starts_eq_iff, linkInForce_eq_iff, linkInForce_eq_iff]

/-- Where the arguments up to `NUM_ARGS` leave the scan. -/
theorem WellFormed.mode (wf : WellFormed front) :
    (scan commandLineOptions .words front.tail).mode = .words ∨
      (scan commandLineOptions .words front.tail).mode = .operands := by
  cases mode : (scan commandLineOptions .words front.tail).mode with
  | words => exact Or.inl rfl
  | argument letter => exact absurd mode (wf.complete letter)
  | operands => exact Or.inr rfl

/-- The words behind `front` come to no option. -/
def Optionless (front tail : List Text) : Prop := ∀ option ∈ ofTail front tail, option.1 = none

/-- So it is behind a bare `--`, and with words that have no option in them. -/
theorem WellFormed.optionless (wf : WellFormed front) (tail : List Text)
    (words : (scan commandLineOptions .words front.tail).mode = .operands ∨
      noOption commandLineOptions tail = true) : Optionless front tail := by
  unfold Optionless ofTail
  rcases wf.mode with reading | stopped
  · rw [reading] at words ⊢
    rcases words with stopped | plain
    · cases stopped
    · exact (scan_noOption commandLineOptions plain).returned
  · rw [stopped, scan_operands]
    exact nofun

section
variable {tail : List Text} (optionless : Optionless front tail)
include optionless

theorem Optionless.inForce {β : Type} (x : Var stod β) :
    inForce x front tail = (x.lastGiven (ofFront front)).getD (x.get Settings.initial) := by
  unfold Cellularshell.inForce
  rw [x.lastGiven_none optionless]
  rfl

omit [Zero α] in
theorem Optionless.takes (stod : Text → Except Fault α) :
    (ofTail front tail).all (takes stod) = true := by
  apply List.all_eq_true.mpr
  intro option member
  unfold Cellularshell.takes
  rw [optionless option member]

end

/-- Then the tail changes nothing. -/
theorem WellFormed.started_of_optionless (wf : WellFormed front) (stod : Text → Except Fault α)
    {tail₁ tail₂ : List Text} (first : Optionless front tail₁) (second : Optionless front tail₂) :
    started stod (front ++ tail₁) = started stod (front ++ tail₂) := by
  obtain ⟨t, eq⟩ := wf.started_eq stod
  rw [eq, eq]
  simp only [startsUplink, hasQueue, linkInForce, List.all_append, first.takes, second.takes,
    first.inForce, second.inForce]

/-- The options that a tail gives for a variable repeat the value in force without them. -/
def Repeats {β : Type} (x : Var stod β) (front tail : List Text) : Prop :=
  ∀ value, x.lastGiven (ofTail front tail) = some value → value = inForce x front []

/-- The options that a tail gives for a link repeat what the link is passed without them. -/
structure RepeatsLink (x : LinkVars stod) (front tail : List Text) : Prop where
  packetLogPrefix : Repeats (Var.packetLogPrefix stod) front tail
  repeats : Repeats (Var.repeats stod) front tail
  queueType : Repeats x.queueType front tail
  queueArgs : Repeats x.queueArgs front tail
  startTimestamp : Repeats (Var.startTimestamp stod) front tail
  lossRate : Repeats (Var.lossRate stod) front tail
  psizeOffset : Repeats x.psizeOffset front tail
  longToShortTimer : Repeats x.longToShortTimer front tail

theorem WellFormed.repeats_iff (wf : WellFormed front) {β : Type} (x : Var stod β)
    {plain : List Text} (tail : List Text) (optionless : Optionless front plain) :
    Repeats x front tail ↔ inForce x front plain = inForce x front tail := by
  have empty := (wf.optionless [] (Or.inr rfl)).inForce x
  unfold Repeats
  rw [optionless.inForce x, empty]
  unfold inForce
  cases x.lastGiven (ofTail front tail) with
  | none => simp
  | some value =>
      simp only [Option.some.injEq, Option.getD_some, forall_eq']
      exact eq_comm

theorem WellFormed.repeatsLink_iff (wf : WellFormed front) (x : LinkVars stod)
    {plain : List Text} (tail : List Text) (optionless : Optionless front plain) :
    RepeatsLink x front tail ↔ SameInForce x front plain tail := by
  have one : ∀ {β : Type} (x : Var stod β),
      Repeats x front tail ↔ inForce x front plain = inForce x front tail :=
    fun x => wf.repeats_iff x tail optionless
  constructor
  · intro repeated
    exact ⟨(one _).mp repeated.packetLogPrefix, (one _).mp repeated.repeats,
      (one _).mp repeated.queueType, (one _).mp repeated.queueArgs,
      (one _).mp repeated.startTimestamp, (one _).mp repeated.lossRate,
      (one _).mp repeated.psizeOffset, (one _).mp repeated.longToShortTimer⟩
  · intro same
    exact ⟨(one _).mpr same.packetLogPrefix, (one _).mpr same.repeats, (one _).mpr same.queueType,
      (one _).mpr same.queueArgs, (one _).mpr same.startTimestamp, (one _).mpr same.lossRate,
      (one _).mpr same.psizeOffset, (one _).mpr same.longToShortTimer⟩

theorem WellFormed.started_length (wf : WellFormed front) (stod : Text → Except Fault α)
    {tail : List Text} (both : (started stod (front ++ tail)).length = 2) :
    startsUplink stod front tail = true ∧ hasQueue (downlinkVars stod) front tail = true := by
  obtain ⟨t, eq⟩ := wf.started_eq stod
  rw [eq] at both
  cases uplink : startsUplink stod front tail with
  | false => simp [uplink] at both
  | true =>
      cases downlink : hasQueue (downlinkVars stod) front tail with
      | false => simp [uplink, downlink] at both
      | true => exact ⟨rfl, rfl⟩

/-- Against a tail without options, one with options starts both links alike exactly when they can
be converted and repeat what is in force without them. -/
theorem WellFormed.started_eq_iff_repeats (wf : WellFormed front) (stod : Text → Except Fault α)
    {plain : List Text} (tail : List Text) (optionless : Optionless front plain)
    (both : (started stod (front ++ plain)).length = 2) :
    started stod (front ++ plain) = started stod (front ++ tail) ↔
      (ofTail front tail).all (takes stod) = true ∧
        RepeatsLink (uplinkVars stod) front tail ∧ RepeatsLink (downlinkVars stod) front tail := by
  obtain ⟨starts, queued⟩ := wf.started_length stod both
  rw [wf.started_eq_iff_inForce, wf.repeatsLink_iff _ tail optionless,
    wf.repeatsLink_iff _ tail optionless, starts]
  constructor
  · rintro ⟨same, rest⟩
    obtain ⟨uplink, _, downlink⟩ := rest rfl
    refine ⟨?_, uplink, downlink queued⟩
    have startsToo := same.symm
    unfold startsUplink at startsToo
    rw [List.all_append] at startsToo
    simp only [Bool.and_eq_true] at startsToo
    exact startsToo.1.2
  · rintro ⟨converted, uplink, downlink⟩
    have queues : ∀ x : LinkVars stod, SameInForce x front plain tail →
        hasQueue x front plain = hasQueue x front tail := by
      intro x same
      unfold hasQueue
      rw [same.queueType, same.queueArgs]
    refine ⟨?_, fun _ => ⟨uplink, queues _ downlink, fun _ => downlink⟩⟩
    unfold startsUplink at starts ⊢
    rw [List.all_append] at starts ⊢
    rw [← queues _ uplink, converted]
    simp only [Bool.and_eq_true, Bool.and_true] at starts ⊢
    rw [starts.1.1, starts.2]
    rfl

/-- The words of a tail that gives the uplink a queue and a start. -/
def startingAt (digit : Char) : List Text :=
  ["--uplink-queue=infinite".toList, "--uplink-queue-args=".toList,
    "--start-timestamp=".toList ++ [digit]]

/-- Where the scan goes on behind the arguments up to `NUM_ARGS`, some tails start the uplink
differently. -/
theorem WellFormed.started_differ (wf : WellFormed front) (stod : Text → Except Fault α)
    (reading : (scan commandLineOptions .words front.tail).mode = .words)
    (converted : (ofFront front).all (takes stod) = true) :
    started stod (front ++ startingAt '0') ≠ started stod (front ++ startingAt '1') := by
  have given : ∀ digit ∈ ['0', '1'], ofTail front (startingAt digit) =
      [(some .q, "infinite".toList), (some .a, []), (some .c, [digit])] := by
    unfold ofTail
    rw [reading]
    intro digit member
    rcases List.mem_pair.mp member with zero | one
    · rw [zero]
      decide +kernel
    · rw [one]
      decide +kernel
  have zero := given '0' (by simp)
  have one := given '1' (by simp)
  have starts : startsUplink stod front (startingAt '0') = true := by
    unfold startsUplink hasQueue inForce
    rw [List.all_append, converted, zero]
    rfl
  intro same
  obtain ⟨_, rest⟩ := (wf.started_eq_iff_inForce stod _ _).mp same
  have timestamps := (rest starts).1.startTimestamp
  unfold inForce at timestamps
  rw [zero, one] at timestamps
  exact absurd (show (0 : Nat) = 1 from timestamps) (by decide)

/-- All commands leave the links alike exactly when a bare `--` is among the arguments up to
`NUM_ARGS`, or an option among them cannot be converted. In any case two commands without options
do, and against one of them an option in a command shows unless it repeats what is in force. -/
theorem started_eq_iff (wf : WellFormed front) (stod : Text → Except Fault α) :
    ((∀ tail₁ tail₂, started stod (front ++ tail₁) = started stod (front ++ tail₂)) ↔
      (scan commandLineOptions .words front.tail).mode = .operands ∨
        (ofFront front).all (takes stod) = false) ∧
    (∀ tail₁ tail₂, noOption commandLineOptions tail₁ = true →
      (noOption commandLineOptions tail₂ = true →
        started stod (front ++ tail₁) = started stod (front ++ tail₂)) ∧
      ((started stod (front ++ tail₁)).length = 2 →
        (started stod (front ++ tail₁) = started stod (front ++ tail₂) ↔
          (ofTail front tail₂).all (takes stod) = true ∧
            RepeatsLink (uplinkVars stod) front tail₂ ∧
            RepeatsLink (downlinkVars stod) front tail₂))) ∧
    ∀ tail shellPath, command shellPath (front ++ tail) =
      some (if tail.isEmpty then [shellPath] else tail) := by
  refine ⟨⟨?_, ?_⟩, ?_, fun tail shellPath => command_eq wf shellPath tail⟩
  · intro alike
    by_contra open'
    obtain ⟨going, converted⟩ := not_or.mp open'
    exact wf.started_differ stod (wf.mode.resolve_right going) (by simpa using converted)
      (alike _ _)
  · rintro (stopped | refused) tail₁ tail₂
    · exact wf.started_of_optionless stod (wf.optionless tail₁ (Or.inl stopped))
        (wf.optionless tail₂ (Or.inl stopped))
    · obtain ⟨t, eq⟩ := wf.started_eq stod
      rw [eq, eq]
      simp only [startsUplink, List.all_append, refused, Bool.false_and, Bool.false_eq_true,
        if_false]
  · intro tail₁ tail₂ plain
    have optionless := wf.optionless tail₁ (Or.inr plain)
    constructor
    · intro plain₂
      exact wf.started_of_optionless stod optionless (wf.optionless tail₂ (Or.inr plain₂))
    · intro both
      exact wf.started_eq_iff_repeats stod tail₂ optionless both

end

end

end

/-- `stod`, for the texts of integers. -/
def stodInteger (str : Text) : Except Fault ℚ :=
  match (strtol str).1 with
  | some value => .ok value
  | none => .error (.runtimeError "stod")

/-- The arguments up to the command, with no option. -/
def fourTraces : List Text :=
  ["mm-cellular", "6", "up", "down", "up.pdo", "down.pdo"].map String.toList

theorem fourTraces_wellFormed : WellFormed fourTraces := by
  have mode : (scan commandLineOptions .words fourTraces.tail).mode = .words := by decide +kernel
  refine ⟨by decide +kernel, ?_, by decide +kernel⟩
  rw [mode]
  exact nofun

/-- A command that is an emulator itself. -/
def nested : List Text :=
  ["mm-cellular", "7", "--once", "a", "b", "a.pdo", "b.pdo"].map String.toList

/-- The `--once` of the inner emulator is taken by the outer one. -/
theorem not_started_eq : WellFormed fourTraces ∧
    (started stodInteger (fourTraces ++ ["ls".toList])).map LinkArguments.repeats = [true, true] ∧
    (started stodInteger (fourTraces ++ nested)).map LinkArguments.repeats = [false, false] :=
  ⟨fourTraces_wellFormed, by decide +kernel, by decide +kernel⟩

/-- The arguments up to the command, with an option and a bare `--`. -/
def dashed : List Text :=
  ["mm-cellular", "8", "--loss-rate=0", "up", "down", "up.pdo", "down.pdo", "--"].map String.toList

theorem dashed_wellFormed : WellFormed dashed := by
  have mode : (scan commandLineOptions .words dashed.tail).mode = .operands := by decide +kernel
  refine ⟨by decide +kernel, ?_, by decide +kernel⟩
  rw [mode]
  exact nofun

/-- Behind the `--` all commands are alike. Without it two commands whose words are no options of
the emulator are alike, and the nested emulator is not like them. -/
theorem started_eq_iff_dashed :
    (∀ tail₁ tail₂, started stodInteger (dashed ++ tail₁) = started stodInteger (dashed ++ tail₂)) ∧
    started stodInteger (fourTraces ++ ["ls".toList, "-l".toList]) =
      started stodInteger (fourTraces ++ ["date".toList]) ∧
    started stodInteger (fourTraces ++ ["date".toList]) ≠
      started stodInteger (fourTraces ++ nested) := by
  obtain ⟨every, _⟩ := started_eq_iff dashed_wellFormed stodInteger
  obtain ⟨_, plain, _⟩ := started_eq_iff fourTraces_wellFormed stodInteger
  refine ⟨every.mpr (Or.inl (by decide +kernel)), (plain _ _ (by decide +kernel)).1 (by
    decide +kernel), ?_⟩
  rw [Ne, (plain ["date".toList] nested (by decide +kernel)).2 (by decide +kernel)]
  rintro ⟨_, uplink, _⟩
  exact absurd (uplink.repeats false (by decide +kernel)) (by decide +kernel)

end Cellularshell

end CellReplay
