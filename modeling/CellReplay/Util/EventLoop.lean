import CellReplay.Util.Poller

set_option autoImplicit false

namespace CellReplay

open FueledLoop Transition Poller

/-- `si_code` of a child that changed state. -/
inductive ChildCode where
  | exited
  | killed
  | dumped
  | stopped
  | continued
  | other
  deriving DecidableEq, Repr

/-- What `waitid` fills in; `siPid` is 0 when no child has changed state. -/
structure SigInfo where
  siPid : Nat
  siSignoIsSigchld : Bool
  siCode : ChildCode
  siStatus : Int
  deriving DecidableEq, Repr

/-- A child process that has not been moved away. -/
structure ChildProcess where
  name : String
  pid : Nat
  running : Bool
  terminated : Bool
  exitStatus : Int
  diedOnSignal : Bool
  deriving DecidableEq, Repr

namespace ChildProcess

/-- The parent's side of the constructor, with the process number `clone` returned. -/
def construct (name : String) (pid : Nat) : ChildProcess := ⟨name, pid, true, false, 0, false⟩

/-- Is the process in a waitable state? -/
def waitable (info : SigInfo) (p : ChildProcess) : Except Fault Bool := do
  check "!terminated_" (!p.terminated)
  if info.siPid = 0 then return false
  else if info.siPid = p.pid then return true
  else throw (.runtimeError
    "waitid: unexpected value in siginfo_t si_pid field (not 0 or pid)")

/-- How did the process change state? -/
def changeState (info : SigInfo) (p : ChildProcess) : Except Fault ChildProcess :=
  match info.siCode with
  | .exited => .ok { p with terminated := true, exitStatus := info.siStatus }
  | .killed | .dumped =>
      .ok { p with terminated := true, exitStatus := info.siStatus, diedOnSignal := true }
  | .stopped => .ok { p with running := false }
  | .continued => .ok { p with running := true }
  | .other => .error (.runtimeError "waitid: unexpected siginfo_t si_code")

/-- Not the process we're looking for: `proc.terminated() or ( !proc.waitable() )`. -/
def passedOver (info : SigInfo) (p : ChildProcess) : Except Fault Bool :=
  if p.terminated then .ok true else do return !(← p.waitable info)

/-- Wait for the process to change state. -/
def wait (nonblocking : Bool) (info : SigInfo) (p : ChildProcess) : Except Fault ChildProcess := do
  check "!terminated_" (!p.terminated)
  if nonblocking ∧ info.siPid = 0 then
    throw (.runtimeError "nonblocking wait: process was not waitable")
  else if info.siPid ≠ p.pid then
    throw (.runtimeError "waitid: unexpected value in siginfo_t si_pid field")
  else if info.siSignoIsSigchld = false then
    throw (.runtimeError "waitid: unexpected value in siginfo_t si_signo field (not SIGCHLD)")
  else p.changeState info

/-- The processes that `signal` sends something to: none that has terminated. -/
def signal (p : ChildProcess) : List Nat := if p.terminated then [] else [p.pid]

/-- The processes that `resume` sends `SIGCONT` to. -/
def resume (p : ChildProcess) : List Nat := if p.running then [] else p.signal

/-- `throw_exception`. -/
def exception (p : ChildProcess) : Fault :=
  .runtimeError ("`" ++ p.name ++ "': process " ++
    (if p.diedOnSignal then "died on signal " else "exited with failure status ") ++
    toString p.exitStatus)

end ChildProcess

/-- `ssi_signo` of a delivered signal. -/
inductive Signal where
  | cont
  | chld
  | hup
  | term
  | quit
  | int
  | other
  deriving DecidableEq, Repr

/-- A signal, with the two answers of `waitid` for each child by its place. -/
structure Delivered where
  signal : Signal
  infos : Nat → SigInfo × SigInfo

/-- The children of an event loop, each with the status that lets the loop continue. `resumed` and
`suspended` record the processes `SIGCONT` was sent to and how often the loop stopped itself;
nothing reads them. -/
structure EventLoop where
  children : List (Int × ChildProcess)
  resumed : List Nat
  suspended : Nat

namespace EventLoop

/-- `add_special_child_process`. -/
def addSpecialChildProcess (continueStatus : Int) (child : ChildProcess) (loop : EventLoop) :
    EventLoop :=
  { loop with children := loop.children ++ [(continueStatus, child)] }

/-- `add_child_process`: the status is one that no process has. -/
def addChildProcess (child : ChildProcess) (loop : EventLoop) : EventLoop :=
  loop.addSpecialChildProcess (-1) child

def construct : EventLoop := ⟨[], [], 0⟩

def allTerminated (children : List (Int × ChildProcess)) : Bool :=
  children.all fun child => child.2.terminated

/-- What `handle_signal` does once a child has terminated. -/
def childTerminated (continueStatus : Int) (child : ChildProcess)
    (children : List (Int × ChildProcess)) : Except Fault ActionResult :=
  if child.exitStatus ≠ 0 ∧ child.exitStatus ≠ continueStatus then .error child.exception
  else if allTerminated children then .ok .exit
  else if child.exitStatus = continueStatus then .ok .continue
  else .ok .exit

/-- The search of `handle_signal` for a waitable child, behind those already passed; with the
number of times the loop suspends itself. -/
def search (infos : Nat → SigInfo × SigInfo) (passed : List (Int × ChildProcess)) :
    List (Int × ChildProcess) → Nat →
      Except Fault (ActionResult × List (Int × ChildProcess) × Nat)
  | [], stops => .ok (.continue, passed, stops)
  | (continueStatus, child) :: rest, stops => do
      let passedOver ← child.passedOver (infos passed.length).1
      if passedOver then search infos (passed ++ [(continueStatus, child)]) rest stops
      else do
        let child ← child.wait true (infos passed.length).2
        if child.terminated then do
          let children := passed ++ (continueStatus, child) :: rest
          let result ← childTerminated continueStatus child children
          return (result, children, stops)
        else
          let stops := if child.running then stops else stops + 1
          search infos (passed ++ [(continueStatus, child)]) rest stops

def handleSignal (delivered : Delivered) (loop : EventLoop) :
    Except Fault (ActionResult × EventLoop) :=
  match delivered.signal with
  | .cont => .ok (.continue,
      { loop with resumed := loop.resumed ++ loop.children.flatMap fun child => child.2.resume })
  | .chld =>
      if loop.children.isEmpty then
        .error (.runtimeError "received SIGCHLD without any managed children")
      else do
        let (result, children, suspended) ← search delivered.infos [] loop.children loop.suspended
        return (result, { loop with children := children, suspended := suspended })
  | .hup | .term | .quit | .int => .ok (.exit, loop)
  | .other => .error (.runtimeError "EventLoop: unknown signal")

end EventLoop

/-- A status a process can leave is not negative. -/
def Delivered.Obeys (d : Delivered) : Prop :=
  ∀ i, 0 ≤ (d.infos i).1.siStatus ∧ 0 ≤ (d.infos i).2.siStatus

namespace EventLoop

/-- A child whose end lets the loop continue: it has not terminated, or it left the status that
lets the loop continue. -/
def Continues (child : Int × ChildProcess) : Prop :=
  child.2.terminated = true → child.2.exitStatus = child.1 ∧ 0 ≤ child.2.exitStatus

/-- What holds of the children as long as the loop goes on. -/
structure Supervises (children : List (Int × ChildProcess)) : Prop where
  continues : ∀ child ∈ children, Continues child
  some' : ∃ child ∈ children, child.2.terminated = false

/-- What a child keeps for life. -/
def identity (child : Int × ChildProcess) : Int × String × Nat :=
  (child.1, child.2.name, child.2.pid)

/-- How a search of some children ends. It goes on with children of which each lets it continue, or
it exits behind a child that terminated with status 0 or the status that lets the loop continue. -/
structure Searched (searched : List (Int × ChildProcess)) (result : ActionResult)
    (children : List (Int × ChildProcess)) : Prop where
  same : children.map identity = searched.map identity
  goesOn : result = .continue → Supervises children
  exits : result ≠ .continue → result = .exit ∧ ∃ child ∈ children, child.2.terminated = true ∧
    (child.2.exitStatus = 0 ∨ child.2.exitStatus = child.1)

/-- A computation returns such a result, or throws an exception; it fails no assertion. -/
def Completes {α : Type} (P : α → Prop) : Except Fault α → Prop
  | .ok a => P a
  | .error fault => ∃ text, fault = .runtimeError text

theorem Completes.bind {α β : Type} {P : α → Prop} {Q : β → Prop} {x : Except Fault α}
    {f : α → Except Fault β} (first : Completes P x) (rest : ∀ a, P a → Completes Q (f a)) :
    Completes Q (x >>= f) := by
  cases x with
  | error fault => exact first
  | ok a => exact rest a first

theorem Completes.mono {α : Type} {P Q : α → Prop} {x : Except Fault α} (done : Completes P x)
    (weaken : ∀ a, P a → Q a) : Completes Q x := by
  cases x with
  | error fault => exact done
  | ok a => exact weaken a done

section
variable {info : SigInfo} {p : ChildProcess}

theorem passedOver_completes :
    Completes (fun skip => p.terminated = true → skip = true) (p.passedOver info) := by
  unfold ChildProcess.passedOver ChildProcess.waitable
  by_cases ended : p.terminated = true
  · rw [if_pos ended]
    exact fun _ => rfl
  · rw [if_neg ended, check_pass (by simpa using ended)]
    refine Completes.bind (P := fun _ => True) ?_ fun _ _ other => absurd other ended
    simp only [Bind.bind, Except.bind]
    split
    · trivial
    · split
      · trivial
      · exact ⟨_, rfl⟩

/-- Waiting for a child that has not terminated fails no assertion; one that terminates has the
status reported. -/
theorem wait_completes (alive : p.terminated = false) :
    Completes (fun next => next.name = p.name ∧ next.pid = p.pid ∧
      (next.terminated = true → next.exitStatus = info.siStatus)) (p.wait true info) := by
  have never : p.terminated = true → p.exitStatus = info.siStatus := by
    intro ended
    rw [alive] at ended
    cases ended
  unfold ChildProcess.wait
  rw [check_pass (by simp [alive])]
  simp only [Bind.bind, Except.bind]
  split
  · exact ⟨_, rfl⟩
  · split
    · exact ⟨_, rfl⟩
    · split
      · exact ⟨_, rfl⟩
      · unfold ChildProcess.changeState
        split
        · exact ⟨rfl, rfl, fun _ => rfl⟩
        · exact ⟨rfl, rfl, fun _ => rfl⟩
        · exact ⟨rfl, rfl, fun _ => rfl⟩
        · exact ⟨rfl, rfl, never⟩
        · exact ⟨rfl, rfl, never⟩
        · exact ⟨_, rfl⟩

end

section
variable {infos : Nat → SigInfo × SigInfo} {passed rest : List (Int × ChildProcess)} {stops : Nat}

theorem identity_kept {continueStatus : Int} {child next : ChildProcess}
    (name : next.name = child.name) (pid : next.pid = child.pid) :
    (passed ++ (continueStatus, next) :: rest).map identity =
      (passed ++ (continueStatus, child) :: rest).map identity := by
  rw [List.map_append, List.map_append, List.map_cons, List.map_cons]
  unfold identity
  rw [name, pid]

/-- What the loop makes of a child that has just terminated, the others letting it continue. -/
theorem childTerminated_completes {continueStatus : Int} {child : ChildProcess}
    (ended : child.terminated = true) (status : 0 ≤ child.exitStatus)
    (before : ∀ child ∈ passed, Continues child) (behind : ∀ child ∈ rest, Continues child) :
    Completes (fun result => Searched (passed ++ (continueStatus, child) :: rest) result
        (passed ++ (continueStatus, child) :: rest))
      (childTerminated continueStatus child (passed ++ (continueStatus, child) :: rest)) := by
  have member : (continueStatus, child) ∈ passed ++ (continueStatus, child) :: rest :=
    List.mem_append_right _ List.mem_cons_self
  unfold childTerminated
  by_cases failed : child.exitStatus ≠ 0 ∧ child.exitStatus ≠ continueStatus
  · rw [if_pos failed]
    exact ⟨_, rfl⟩
  rw [if_neg failed]
  have sound : child.exitStatus = 0 ∨ child.exitStatus = continueStatus := by omega
  have gone : Searched (passed ++ (continueStatus, child) :: rest) .exit
      (passed ++ (continueStatus, child) :: rest) :=
    ⟨rfl, fun other => (by cases other), fun _ => ⟨rfl, _, member, ended, sound⟩⟩
  by_cases all : allTerminated (passed ++ (continueStatus, child) :: rest) = true
  · rw [if_pos all]
    exact gone
  rw [if_neg all]
  by_cases special : child.exitStatus = continueStatus
  · rw [if_pos special]
    refine ⟨rfl, fun _ => ⟨fun c inside => ?_, ?_⟩, fun other => absurd rfl other⟩
    · rcases List.mem_append.mp inside with old | new
      · exact before c old
      · rcases List.mem_cons.mp new with rfl | later
        · exact fun _ => ⟨special, status⟩
        · exact behind c later
    · have ⟨c, inside, open'⟩ := List.all_eq_false.mp (Bool.eq_false_iff.mpr all)
      exact ⟨c, inside, Bool.eq_false_iff.mpr open'⟩
  · rw [if_neg special]
    exact gone

/-- The search fails no assertion: a terminated child is passed over. By induction on the children
left to look at; those passed let the loop continue. -/
theorem search_completes (statuses : ∀ i, 0 ≤ (infos i).2.siStatus)
    (before : ∀ child ∈ passed, Continues child) (behind : ∀ child ∈ rest, Continues child)
    (some' : ∃ child ∈ passed ++ rest, child.2.terminated = false) :
    Completes (fun r => Searched (passed ++ rest) r.1 r.2.1) (search infos passed rest stops) := by
  induction rest generalizing passed stops with
  | nil =>
      rw [List.append_nil] at some' ⊢
      exact ⟨rfl, fun _ => ⟨before, some'⟩, fun other => absurd rfl other⟩
  | cons head rest ih =>
      obtain ⟨continueStatus, child⟩ := head
      have here := behind _ List.mem_cons_self
      have later : ∀ child ∈ rest, Continues child :=
        fun child member => behind child (List.mem_cons_of_mem _ member)
      -- A child passed, or found running or stopped, is put back among those passed.
      have pass : ∀ {child' : ChildProcess} {stops : Nat}, Continues (continueStatus, child') →
          child'.name = child.name → child'.pid = child.pid →
          (∃ c ∈ (passed ++ [(continueStatus, child')]) ++ rest, c.2.terminated = false) →
          Completes (fun r => Searched (passed ++ (continueStatus, child) :: rest) r.1 r.2.1)
            (search infos (passed ++ [(continueStatus, child')]) rest stops) := by
        intro child' stops lets name pid still
        have searched : Completes
            (fun r => Searched ((passed ++ [(continueStatus, child')]) ++ rest) r.1 r.2.1)
            (search infos (passed ++ [(continueStatus, child')]) rest stops) := by
          refine ih (fun c member => ?_) later still
          rcases List.mem_append.mp member with old | new
          · exact before c old
          · rw [List.mem_singleton.mp new]
            exact lets
        rw [List.append_assoc, List.singleton_append] at searched
        exact searched.mono fun r s => ⟨s.same.trans (identity_kept name pid), s.goesOn, s.exits⟩
      rw [search]
      refine Completes.bind passedOver_completes fun skip skips => ?_
      cases skip with
      | true =>
          refine pass here rfl rfl ?_
          rwa [List.append_assoc]
      | false =>
          have alive : child.terminated = false := by
            by_contra ended
            cases skips (by simpa using ended)
          refine Completes.bind (wait_completes alive) fun next ⟨name, pid, reported⟩ => ?_
          by_cases ended : next.terminated = true
          · rw [if_pos ended]
            have status : 0 ≤ next.exitStatus := by
              rw [reported ended]
              exact statuses passed.length
            refine Completes.bind (childTerminated_completes ended status before later) ?_
            exact fun result searched =>
              ⟨searched.same.trans (identity_kept name pid), searched.goesOn, searched.exits⟩
          · rw [if_neg ended]
            refine pass (fun other => absurd other ended) name pid ⟨(continueStatus, next), ?_, ?_⟩
            · exact List.mem_append_left _ (List.mem_append_right _ (List.mem_singleton_self _))
            · exact Bool.eq_false_iff.mpr ended

end

/-- The search never cancels the action it is called by, and exits with `EXIT_SUCCESS`. -/
theorem search_result {infos : Nat → SigInfo × SigInfo} {passed rest : List (Int × ChildProcess)}
    {stops : Nat} {r : ActionResult × List (Int × ChildProcess) × Nat}
    (found : search infos passed rest stops = .ok r) : r.1 = .continue ∨ r.1 = .exit := by
  induction rest generalizing passed stops with
  | nil =>
      cases found
      exact Or.inl rfl
  | cons head rest ih =>
      obtain ⟨continueStatus, child⟩ := head
      rw [search] at found
      obtain ⟨skip, _, found⟩ := bind_eq_ok.mp found
      split at found
      · exact ih found
      · obtain ⟨next, _, found⟩ := bind_eq_ok.mp found
        split at found
        · obtain ⟨result, ended, same⟩ := bind_eq_ok.mp found
          cases same
          unfold childTerminated at ended
          split at ended
          · cases ended
          · split at ended
            · exact Or.inr (Except.ok.inj ended).symm
            · split at ended
              · exact Or.inl (Except.ok.inj ended).symm
              · exact Or.inr (Except.ok.inj ended).symm
        · exact ih found

theorem handleSignal_result {delivered : Delivered} {loop : EventLoop}
    {r : ActionResult × EventLoop} (handled : loop.handleSignal delivered = .ok r) :
    r.1 = .continue ∨ r.1 = .exit := by
  unfold handleSignal at handled
  split at handled
  · cases handled
    exact Or.inl rfl
  · split at handled
    · cases handled
    · obtain ⟨found, searched, same⟩ := bind_eq_ok.mp handled
      cases same
      exact search_result searched
  · cases handled
    exact Or.inr rfl
  · cases handled
    exact Or.inr rfl
  · cases handled
    exact Or.inr rfl
  · cases handled
    exact Or.inr rfl
  · cases handled

/-- What handling a signal comes to, if no exception is thrown: the loop goes on supervising the
same children, or it exits on a signal that ends it, or for a child that ended well. -/
structure Handled (delivered : Delivered) (loop : EventLoop) (result : ActionResult)
    (next : EventLoop) : Prop where
  same : next.children.map identity = loop.children.map identity
  goesOn : result = .continue → Supervises next.children
  exits : result ≠ .continue → result = .exit ∧
    (delivered.signal ∈ [.hup, .term, .quit, .int] ∨
      delivered.signal = .chld ∧ ∃ child ∈ next.children, child.2.terminated = true ∧
        (child.2.exitStatus = 0 ∨ child.2.exitStatus = child.1))

section
variable {delivered : Delivered} {loop : EventLoop}

theorem handleSignal_completes (obeys : delivered.Obeys) (supervises : Supervises loop.children) :
    Completes (fun r => Handled delivered loop r.1 r.2) (loop.handleSignal delivered) := by
  have ends : ∀ signal, delivered.signal = signal → signal ∈ [.hup, .term, .quit, .int] →
      Handled delivered loop .exit loop := fun signal same member =>
    ⟨rfl, fun other => (by cases other), fun _ => ⟨rfl, Or.inl (same ▸ member)⟩⟩
  unfold handleSignal
  cases same : delivered.signal with
  | cont => exact ⟨rfl, fun _ => supervises, fun other => absurd rfl other⟩
  | chld =>
      dsimp only
      split
      · exact ⟨_, rfl⟩
      · refine Completes.bind (search_completes (fun i => (obeys i).2) (fun _ none => by cases none)
          supervises.continues supervises.some') fun r searched => ?_
        exact ⟨searched.same, searched.goesOn, fun other =>
          ⟨(searched.exits other).1, Or.inr ⟨same, (searched.exits other).2⟩⟩⟩
  | hup => exact ends _ same (by decide)
  | term => exact ends _ same (by decide)
  | quit => exact ends _ same (by decide)
  | int => exact ends _ same (by decide)
  | other => exact ⟨_, rfl⟩

end

/-- A signal handled by a loop that goes on. -/
def Step (loop : EventLoop) (delivered : Delivered) (next : EventLoop) : Prop :=
  delivered.Obeys ∧ loop.handleSignal delivered = .ok (.continue, next)

/-- Whatever signals come, in whatever order, and whatever is found out about the children: as long
as the loop goes on it supervises the children it was given, none of those added by
`add_child_process` has terminated, any other that has left the status that lets the loop
continue, and some child has not terminated. The next signal fails no assertion, and the loop
exits, always with status 0, only on a signal to end or for a child that ended with status 0 or
with the status that lets the loop continue. -/
theorem loop_supervises {loop₀ loop : EventLoop}
    (fresh : ∀ child ∈ loop₀.children, child.2.terminated = false) (some' : loop₀.children ≠ [])
    {signals : List Delivered} (ran : Run Step loop₀ signals loop) :
    loop.children.map identity = loop₀.children.map identity ∧
      (∀ child ∈ loop.children, child.2.terminated = true →
        child.2.exitStatus = child.1 ∧ child.1 ≠ -1) ∧
      (∃ child ∈ loop.children, child.2.terminated = false) ∧
      ∀ delivered : Delivered, delivered.Obeys →
        Completes (fun r => Handled delivered loop r.1 r.2) (loop.handleSignal delivered) := by
  have ⟨same, supervises⟩ : loop.children.map identity = loop₀.children.map identity ∧
      Supervises loop.children := by
    apply ran.invariant (I := fun loop =>
      loop.children.map identity = loop₀.children.map identity ∧ Supervises loop.children)
    · intro loop delivered next ⟨same, supervises⟩ ⟨obeys, returned⟩
      have handled := handleSignal_completes obeys supervises
      rw [returned] at handled
      exact ⟨handled.same.trans same, handled.goesOn rfl⟩
    · refine ⟨rfl, fun child member ended => ?_, ?_⟩
      · rw [fresh child member] at ended
        cases ended
      · have ⟨child, member⟩ := List.exists_mem_of_ne_nil _ some'
        exact ⟨child, member, fresh child member⟩
  refine ⟨same, fun child member ended => ?_, supervises.some', fun delivered obeys =>
    handleSignal_completes obeys supervises⟩
  have ⟨status, positive⟩ := supervises.continues child member ended
  exact ⟨status, by omega⟩

/-- Two ordinary children, and one that may end with status 3. -/
def watched : EventLoop :=
  ((construct.addChildProcess (.construct "packetshell" 10)).addSpecialChildProcess 3
    (.construct "helper" 11)).addChildProcess (.construct "downlink" 12)

/-- The second child is found to have ended that way. -/
def helperEnds : Delivered where
  signal := .chld
  infos place :=
    let info : SigInfo := if place = 1 then ⟨11, true, .exited, 3⟩ else ⟨0, false, .other, 0⟩
    (info, info)

def helperEnded : EventLoop where
  children := [(-1, .construct "packetshell" 10),
    (3, ⟨"helper", 11, true, true, 3, false⟩), (-1, .construct "downlink" 12)]
  resumed := []
  suspended := 0

theorem helperEnds_obeys : helperEnds.Obeys := by
  intro i
  unfold helperEnds
  dsimp only
  split
  · exact ⟨by decide, by decide⟩
  · exact ⟨by decide, by decide⟩

theorem loop_supervises_helper : Run Step watched [helperEnds] helperEnded ∧
    (∀ child ∈ helperEnded.children, child.2.terminated = true →
      child.2.exitStatus = child.1 ∧ child.1 ≠ -1) ∧
    ∃ child ∈ helperEnded.children, child.2.terminated = false := by
  have ran : Run Step watched [helperEnds] helperEnded :=
    Run.single ⟨helperEnds_obeys, rfl⟩
  have supervised := loop_supervises (by decide) (by decide) ran
  exact ⟨ran, supervised.2.1, supervised.2.2.1⟩

end EventLoop

end CellReplay
