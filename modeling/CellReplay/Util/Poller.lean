import CellReplay.Lib.Transition
import CellReplay.Packet.QueuedPacket

set_option autoImplicit false

namespace CellReplay

open FueledLoop Transition

namespace Poller

/-- What an action polls for: `POLLIN` or `POLLOUT`. -/
inductive Direction where
  | «in»
  | out
  deriving DecidableEq, Repr

/-- What a callback asks of the poller. -/
inductive ResultType where
  | «continue»
  | exit
  | cancel
  deriving DecidableEq, Repr

structure ActionResult where
  result : ResultType
  exitStatus : Nat
  deriving DecidableEq, Repr

namespace ActionResult

/-- The conversions of a `ResultType`: the status is `EXIT_SUCCESS`. -/
def «continue» : ActionResult := ⟨.continue, 0⟩

def exit : ActionResult := ⟨.exit, 0⟩

def cancel : ActionResult := ⟨.cancel, 0⟩

end ActionResult

/-- An action on a state `σ`, whose callback and interest use what the world outside answers
them, an `ω`. `eof` is what the action's descriptor says of its end of file. -/
structure Action (σ ω : Type) where
  direction : Direction
  callback : ω → σ → Except Fault (ActionResult × σ)
  whenInterested : ω → σ → Bool
  eof : σ → Bool

/-- An action that was added, with its flag `active`. -/
structure Entry (σ ω : Type) where
  action : Action σ ω
  active : Bool

/-- What the system reports of one descriptor: `POLLERR`, `POLLHUP` or `POLLNVAL`, and the two
events. -/
structure Revents where
  failed : Bool
  readable : Bool
  writable : Bool
  deriving DecidableEq, Repr

def Revents.includes (r : Revents) : Direction → Bool
  | .in => r.readable
  | .out => r.writable

/-- What the world answers one call of `poll`: each action by its place, and the system call,
`none` when it times out. -/
structure Round (ω : Type) where
  answers : Nat → ω
  revents : Option (Nat → Revents)

inductive PollResult where
  | success
  | timeout
  | exit (exitStatus : Nat)
  deriving DecidableEq, Repr

variable {σ ω : Type}

def addAction (action : Action σ ω) (entries : List (Entry σ ω)) : List (Entry σ ω) :=
  entries ++ [⟨action, true⟩]

/-- Whether the event of an entry is polled for; no input is behind an end of file. -/
def Entry.events (entry : Entry σ ω) (answer : ω) (s : σ) : Bool :=
  if entry.action.direction = .in ∧ entry.action.eof s = true then false
  else entry.active && entry.action.whenInterested answer s

/-- The entries from a place on, with their events. -/
def asked (answers : Nat → ω) (s : σ) : Nat → List (Entry σ ω) → List (Entry σ ω × Bool)
  | _, [] => []
  | place, entry :: rest =>
      (entry, entry.events (answers place) s) :: asked answers s (place + 1) rest

/-- The loop over the descriptors that `::poll` returned, from a place on. -/
def serve (answers : Nat → ω) (revents : Nat → Revents) :
    Nat → List (Entry σ ω × Bool) → σ → Except Fault (PollResult × List (Entry σ ω) × σ)
  | _, [], s => .ok (.success, [], s)
  | place, (entry, events) :: rest, s =>
      if (revents place).failed then .ok (.exit 0, entry :: rest.map Prod.fst, s)
      else if events && (revents place).includes entry.action.direction then do
        let (result, s) ← entry.action.callback (answers place) s
        match result.result with
        | .exit => return (.exit result.exitStatus, entry :: rest.map Prod.fst, s)
        | .cancel => do
            let (outcome, rest, s) ← serve answers revents (place + 1) rest s
            return (outcome, { entry with active := false } :: rest, s)
        | .continue => do
            let (outcome, rest, s) ← serve answers revents (place + 1) rest s
            return (outcome, entry :: rest, s)
      else do
        let (outcome, rest, s) ← serve answers revents (place + 1) rest s
        return (outcome, entry :: rest, s)

/-- `poll`. A failing system call, whose exception ends the loop around it, is left out. -/
def poll (round : Round ω) (entries : List (Entry σ ω)) (s : σ) :
    Except Fault (PollResult × List (Entry σ ω) × σ) :=
  let asked := asked round.answers s 0 entries
  if asked.any Prod.snd then
    match round.revents with
    | none => .ok (.timeout, entries, s)
    | some revents => serve round.answers revents 0 asked s
  else .ok (.exit 0, entries, s)

/-- The entries that have an event they asked for, each with what the world answers it. -/
def due (answers : Nat → ω) (revents : Nat → Revents) :
    Nat → List (Entry σ ω × Bool) → List (Action σ ω × ω)
  | _, [] => []
  | place, (entry, events) :: rest =>
      if events && (revents place).includes entry.action.direction then
        (entry.action, answers place) :: due answers revents (place + 1) rest
      else due answers revents (place + 1) rest

/-- A callback that was called, with what it was answered and what it asked of the poller. -/
structure Call (σ ω : Type) where
  action : Action σ ω
  answer : ω
  result : ActionResult

def Call.made (call : Call σ ω) : Action σ ω × ω := (call.action, call.answer)

section
variable (Obeys : ω → Prop) (Ready : Action σ ω → σ → Prop)

/-- A call of a callback that is ready, with an answer that obeys. -/
def Called (s : σ) (call : Call σ ω) (t : σ) : Prop :=
  Obeys call.answer ∧ Ready call.action s ∧
    call.action.callback call.answer s = .ok (call.result, t)

/-- A callback of `a` leaves `b` as ready as it was. -/
def Spares (a b : Action σ ω) : Prop :=
  ∀ answer s result t, Obeys answer → Ready a s → a.callback answer s = .ok (result, t) →
    Ready b s → Ready b t

/-- What serving some entries did when it returned: the calls are those due up to the place where
it stopped, at a descriptor that failed or a callback that asked to exit, and an entry is inactive
only if it was before or a call of it cancelled it. -/
structure Served (dues : List (Action σ ω × ω)) (failed : Prop) (entries : List (Entry σ ω)) (s : σ)
    (outcome : PollResult) (after : List (Entry σ ω)) (t : σ) (calls : List (Call σ ω)) :
    Prop where
  ran : Run (Called Obeys Ready) s calls t
  order : calls.map Call.made <+: dues
  all : outcome = .success → calls.map Call.made = dues
  stops : calls.map Call.made = dues ∨ failed ∨ ∃ call ∈ calls, call.result.result = .exit
  exits : ∀ call ∈ calls, call.result.result = .exit → outcome = .exit call.result.exitStatus
  kept : after.map Entry.action = entries.map Entry.action
  inactive : ∀ entry ∈ after, entry.active = false → entry ∈ entries ∨
    ∃ call ∈ calls, call.action = entry.action ∧ call.result.result = .cancel

/-- What serving some entries did when a callback failed. -/
structure Failed (dues : List (Action σ ω × ω)) (s : σ) (fault : Fault) (t : σ)
    (calls : List (Call σ ω)) (action : Action σ ω) (answer : ω) : Prop where
  ran : Run (Called Obeys Ready) s calls t
  order : calls.map Call.made ++ [(action, answer)] <+: dues
  obeys : Obeys answer
  ready : Ready action t
  fails : action.callback answer t = .error fault

def Serves (dues : List (Action σ ω × ω)) (failed : Prop) (entries : List (Entry σ ω)) (s : σ) :
    Except Fault (PollResult × List (Entry σ ω) × σ) → Prop
  | .ok (outcome, after, t) =>
      ∃ calls, Served Obeys Ready dues failed entries s outcome after t calls
  | .error fault => ∃ t calls action answer, Failed Obeys Ready dues s fault t calls action answer

end

section
variable {Obeys : ω → Prop} {Ready : Action σ ω → σ → Prop} {dues : List (Action σ ω × ω)}
variable {failed : Prop} {entry entry' : Entry σ ω} {entries : List (Entry σ ω)} {s u : σ}

/-- What is returned behind an entry that is left as it is or made inactive. -/
def behind (entry : Entry σ ω) (x : Except Fault (PollResult × List (Entry σ ω) × σ)) :
    Except Fault (PollResult × List (Entry σ ω) × σ) := do
  let (outcome, rest, s) ← x
  return (outcome, entry :: rest, s)

/-- An entry that is passed over. -/
theorem Serves.skip {x : Except Fault (PollResult × List (Entry σ ω) × σ)}
    (rest : Serves Obeys Ready dues failed entries s x) :
    Serves Obeys Ready dues failed (entry :: entries) s (behind entry x) := by
  rcases x with fault | ⟨outcome, after, t⟩
  · exact rest
  · obtain ⟨calls, served⟩ := rest
    refine ⟨calls, served.ran, served.order, served.all, served.stops, served.exits, ?_, ?_⟩
    · rw [List.map_cons, List.map_cons, served.kept]
    · intro e member stopped
      rcases List.mem_cons.mp member with rfl | member
      · exact Or.inl List.mem_cons_self
      · rcases served.inactive e member stopped with before | cancelled
        · exact Or.inl (List.mem_cons_of_mem _ before)
        · exact Or.inr cancelled

/-- An entry whose callback is called and does not end the loop. -/
theorem Serves.call {x : Except Fault (PollResult × List (Entry σ ω) × σ)} {call : Call σ ω}
    (move : Called Obeys Ready s call u) (goesOn : call.result.result ≠ .exit)
    (same : entry'.action = call.action)
    (stopped : entry'.active = false → entry' = entry ∨ call.result.result = .cancel)
    (kept : entry.action = call.action) (rest : Serves Obeys Ready dues failed entries u x) :
    Serves Obeys Ready (call.made :: dues) failed (entry :: entries) s (behind entry' x) := by
  rcases x with fault | ⟨outcome, after, t⟩
  · obtain ⟨t, calls, action, answer, failed⟩ := rest
    refine ⟨t, call :: calls, action, answer, (Run.single move).append failed.ran, ?_,
      failed.obeys, failed.ready, failed.fails⟩
    exact List.cons_prefix_cons.mpr ⟨rfl, failed.order⟩
  · obtain ⟨calls, served⟩ := rest
    refine ⟨call :: calls, (Run.single move).append served.ran,
      List.cons_prefix_cons.mpr ⟨rfl, served.order⟩, ?_, ?_, ?_, ?_, ?_⟩
    · intro success
      rw [List.map_cons, served.all success]
    · rcases served.stops with all | some' | ⟨c, made, asks⟩
      · exact Or.inl (by rw [List.map_cons, all])
      · exact Or.inr (Or.inl some')
      · exact Or.inr (Or.inr ⟨c, List.mem_cons_of_mem _ made, asks⟩)
    · intro c made asks
      rcases List.mem_cons.mp made with rfl | made
      · exact absurd asks goesOn
      · exact served.exits c made asks
    · rw [List.map_cons, List.map_cons, served.kept, same, kept]
    · intro e member off
      rcases List.mem_cons.mp member with rfl | member
      · rcases stopped off with unchanged | cancelled
        · exact Or.inl (unchanged ▸ List.mem_cons_self)
        · exact Or.inr ⟨call, List.mem_cons_self, same.symm, cancelled⟩
      · rcases served.inactive e member off with before | ⟨c, made, cancelled⟩
        · exact Or.inl (List.mem_cons_of_mem _ before)
        · exact Or.inr ⟨c, List.mem_cons_of_mem _ made, cancelled⟩

/-- Serving makes calls that are due, each one ready, or fails in one: by induction on the entries
left, the ones behind a call staying ready. -/
theorem serve_serves {answers : Nat → ω} {revents : Nat → Revents} {place : Nat}
    {asked : List (Entry σ ω × Bool)} (obeys : ∀ i, Obeys (answers i))
    (sound : ∀ i, (revents i).failed = true → failed)
    (ready : ∀ p ∈ asked, p.2 = true → Ready p.1.action s)
    (apart : (asked.map fun p => p.1.action).Pairwise (Spares Obeys Ready)) :
    Serves Obeys Ready (due answers revents place asked) failed (asked.map Prod.fst) s
      (serve answers revents place asked s) := by
  induction asked generalizing place s with
  | nil => exact ⟨[], Run.nil, List.prefix_refl _, fun _ => rfl, Or.inl rfl,
      fun _ none _ => (by cases none), rfl, fun _ none _ => by cases none⟩
  | cons p rest ih =>
      obtain ⟨entry, events⟩ := p
      have here : events = true → Ready entry.action s := ready (entry, events) List.mem_cons_self
      have ⟨spared, apart'⟩ := List.pairwise_cons.mp apart
      have later : ∀ p ∈ rest, p.2 = true → Ready p.1.action s :=
        fun p member => ready p (List.mem_cons_of_mem _ member)
      rw [serve, due, List.map_cons]
      by_cases broken : (revents place).failed = true
      · rw [if_pos broken]
        exact ⟨[], Run.nil, List.nil_prefix, fun other => (by cases other),
          Or.inr (Or.inl (sound place broken)), fun _ none _ => (by cases none), rfl,
          fun e member _ => Or.inl member⟩
      rw [if_neg broken]
      by_cases called : (events && (revents place).includes entry.action.direction) = true
      · rw [if_pos called, if_pos called]
        have awaited := here (Bool.and_eq_true_iff.mp called).1
        cases returned : entry.action.callback (answers place) s with
        | error fault =>
            exact ⟨s, [], entry.action, answers place, Run.nil,
              List.cons_prefix_cons.mpr ⟨rfl, List.nil_prefix⟩, obeys place, awaited, returned⟩
        | ok reply =>
            obtain ⟨result, u⟩ := reply
            let call : Call σ ω := ⟨entry.action, answers place, result⟩
            have move : Called Obeys Ready s call u := ⟨obeys place, awaited, returned⟩
            have behind' : Serves Obeys Ready (due answers revents (place + 1) rest) failed
                (rest.map Prod.fst) u (serve answers revents (place + 1) rest u) := by
              refine ih (fun p member wanted => ?_) apart'
              exact spared _ (List.mem_map_of_mem member) _ _ _ _ (obeys place) awaited returned
                (later p member wanted)
            cases asks : result.result with
            | exit =>
                simp only [bind, Except.bind, asks]
                refine ⟨[call], Run.single move, List.cons_prefix_cons.mpr ⟨rfl, List.nil_prefix⟩,
                  fun other => (by cases other), ?_, ?_, rfl, fun e member _ => Or.inl member⟩
                · exact Or.inr (Or.inr ⟨call, List.mem_singleton_self _, asks⟩)
                · intro c made _
                  rw [List.mem_singleton.mp made]
            | cancel =>
                simp only [bind, Except.bind, asks]
                exact Serves.call move
                  (fun other => by rw [asks] at other; cases other) rfl (fun _ => Or.inr asks) rfl
                  behind'
            | «continue» =>
                simp only [bind, Except.bind, asks]
                exact Serves.call move
                  (fun other => by rw [asks] at other; cases other) rfl (fun _ => Or.inl rfl) rfl
                  behind'
      · rw [if_neg called, if_neg called]
        exact Serves.skip (ih later apart')

end

/-- Serving that returns ends the loop, or goes on behind a descriptor that did not fail. -/
theorem serve_cons_ok {answers : Nat → ω} {revents : Nat → Revents} {place : Nat}
    {p : Entry σ ω × Bool} {rest : List (Entry σ ω × Bool)} {s t : σ} {outcome : PollResult}
    {after : List (Entry σ ω)}
    (returned : serve answers revents place (p :: rest) s = .ok (outcome, after, t)) :
    (∃ status, outcome = .exit status) ∨ ((revents place).failed = false ∧
      ∃ u after', serve answers revents (place + 1) rest u = .ok (outcome, after', t)) := by
  rw [serve] at returned
  by_cases failed : (revents place).failed = true
  · rw [if_pos failed] at returned
    cases returned
    exact Or.inl ⟨0, rfl⟩
  rw [if_neg failed] at returned
  have sound : (revents place).failed = false := Bool.eq_false_iff.mpr failed
  split at returned
  · obtain ⟨⟨result, u⟩, _, returned⟩ := bind_eq_ok.mp returned
    dsimp only at returned
    split at returned
    · cases returned
      exact Or.inl ⟨_, rfl⟩
    · obtain ⟨⟨outcome', after', t'⟩, behind, same⟩ := bind_eq_ok.mp returned
      cases same
      exact Or.inr ⟨sound, u, after', behind⟩
    · obtain ⟨⟨outcome', after', t'⟩, behind, same⟩ := bind_eq_ok.mp returned
      cases same
      exact Or.inr ⟨sound, u, after', behind⟩
  · obtain ⟨⟨outcome', after', t'⟩, behind, same⟩ := bind_eq_ok.mp returned
    cases same
    exact Or.inr ⟨sound, s, after', behind⟩

/-- Serving goes through to the end only when no descriptor failed. -/
theorem serve_success {answers : Nat → ω} {revents : Nat → Revents} {place : Nat}
    {asked : List (Entry σ ω × Bool)} {s t : σ} {after : List (Entry σ ω)}
    (returned : serve answers revents place asked s = .ok (.success, after, t)) {i : Nat}
    (inside : i < asked.length) : (revents (place + i)).failed = false := by
  induction asked generalizing place s after i with
  | nil => cases inside
  | cons p rest ih =>
      rcases serve_cons_ok returned with ⟨status, other⟩ | ⟨sound, u, after', behind⟩
      · cases other
      · cases i with
        | zero => exact sound
        | succ i =>
            rw [← Nat.add_assoc, Nat.add_right_comm]
            exact ih behind (Nat.lt_of_succ_lt_succ inside)

/-- Only the system call times out. -/
theorem serve_ne_timeout {answers : Nat → ω} {revents : Nat → Revents} {place : Nat}
    {asked : List (Entry σ ω × Bool)} {s t : σ} {after : List (Entry σ ω)} :
    serve answers revents place asked s ≠ .ok (.timeout, after, t) := by
  induction asked generalizing place s after with
  | nil => exact fun returned => by cases returned
  | cons p rest ih =>
      intro returned
      rcases serve_cons_ok returned with ⟨status, other⟩ | ⟨_, u, after', behind⟩
      · cases other
      · exact ih behind

/-- The entries that a round finds due. -/
def dues (round : Round ω) (entries : List (Entry σ ω)) (s : σ) : List (Action σ ω × ω) :=
  match round.revents with
  | none => []
  | some revents => due round.answers revents 0 (asked round.answers s 0 entries)

/-- The system call finds that some descriptor failed. -/
def Breaks (round : Round ω) : Prop :=
  ∃ revents place, round.revents = some revents ∧ (revents place).failed = true

/-- The system call times out, or it reports some descriptor: a failure, or an event asked for. -/
def Reports (round : Round ω) (entries : List (Entry σ ω)) (s : σ) : Prop :=
  ∀ revents, round.revents = some revents →
    (∃ place, place < entries.length ∧ (revents place).failed = true) ∨ dues round entries s ≠ []

theorem asked_fst (answers : Nat → ω) (s : σ) (place : Nat) (entries : List (Entry σ ω)) :
    (asked answers s place entries).map Prod.fst = entries := by
  induction entries generalizing place with
  | nil => rfl
  | cons entry rest ih => rw [asked, List.map_cons, ih]

theorem asked_action (answers : Nat → ω) (s : σ) (place : Nat) (entries : List (Entry σ ω)) :
    (asked answers s place entries).map (fun p => p.1.action) = entries.map Entry.action := by
  have same := congrArg (List.map Entry.action) (asked_fst answers s place entries)
  rwa [List.map_map] at same

theorem asked_of_mem (answers : Nat → ω) (s : σ) {entries : List (Entry σ ω)} {entry : Entry σ ω}
    (member : entry ∈ entries) (place : Nat) :
    ∃ i, (entry, entry.events (answers i) s) ∈ asked answers s place entries := by
  induction entries generalizing place with
  | nil => cases member
  | cons head rest ih =>
      rcases List.mem_cons.mp member with rfl | later
      · exact ⟨place, List.mem_cons_self⟩
      · have ⟨i, inside⟩ := ih later (place + 1)
        exact ⟨i, List.mem_cons_of_mem _ inside⟩

theorem asked_mem {answers : Nat → ω} {s : σ} {place : Nat} {entries : List (Entry σ ω)}
    {p : Entry σ ω × Bool} (member : p ∈ asked answers s place entries) :
    p.1 ∈ entries ∧ ∃ i, p.2 = p.1.events (answers i) s := by
  induction entries generalizing place with
  | nil => cases member
  | cons entry rest ih =>
      rcases List.mem_cons.mp member with rfl | later
      · exact ⟨List.mem_cons_self, place, rfl⟩
      · have ⟨inside, i, same⟩ := ih later
        exact ⟨List.mem_cons_of_mem _ inside, i, same⟩

/-- No entry asks for an event. -/
def Quiet (round : Round ω) (entries : List (Entry σ ω)) (s : σ) : Prop :=
  ∀ p ∈ asked round.answers s 0 entries, p.2 = false

/-- What makes a list of actions work together on states with an invariant: one that is interested
is ready, a call keeps the invariant and leaves the others ready, and what holds when a callback
cancels its action stays. -/
structure Contract (Obeys : ω → Prop) (Ready Over : Action σ ω → σ → Prop) (I : σ → Prop)
    (actions : List (Action σ ω)) : Prop where
  interested : ∀ a ∈ actions, ∀ answer s, Obeys answer → I s →
    a.whenInterested answer s = true → (a.direction = .in → a.eof s = false) → Ready a s
  apart : actions.Pairwise (Spares Obeys Ready)
  keeps : ∀ a ∈ actions, ∀ answer s result t, Obeys answer → Ready a s →
    a.callback answer s = .ok (result, t) →
      I t ∧ (result.result = .cancel → Over a t) ∧ ∀ b ∈ actions, Over b s → Over b t

/-- What a contract keeps from round to round. -/
structure Contract.Inv (Over : Action σ ω → σ → Prop) (I : σ → Prop) (actions : List (Action σ ω))
    (entries : List (Entry σ ω)) (s : σ) : Prop where
  inside : I s
  kept : entries.map Entry.action = actions
  past : ∀ entry ∈ entries, entry.active = false → Over entry.action s

section
variable {Obeys : ω → Prop} {Ready Over : Action σ ω → σ → Prop} {I : σ → Prop}
variable {actions : List (Action σ ω)} {entries : List (Entry σ ω)} {round : Round ω} {s : σ}

/-- A round that asks for nothing ends the loop and changes nothing. -/
theorem poll_quiet (quiet : Quiet round entries s) :
    poll round entries s = .ok (.exit 0, entries, s) := by
  have none : (asked round.answers s 0 entries).any Prod.snd = false := by
    rw [List.any_eq_false]
    intro p member
    rw [quiet p member]
    exact Bool.false_ne_true
  unfold poll
  dsimp only
  rw [none]
  rfl

/-- One round under a contract: it asks for nothing, it times out, or it makes calls that are
due. -/
theorem Contract.poll_cases (contract : Contract Obeys Ready Over I actions)
    (inv : Contract.Inv Over I actions entries s) (obeys : ∀ i, Obeys (round.answers i)) :
    Quiet round entries s ∨
      (round.revents = none ∧ poll round entries s = .ok (.timeout, entries, s)) ∨
      Serves Obeys Ready (dues round entries s) (Breaks round) entries s
        (poll round entries s) := by
  by_cases some' : (asked round.answers s 0 entries).any Prod.snd = true
  · right
    unfold poll dues
    dsimp only
    rw [if_pos some']
    cases answered : round.revents with
    | none => exact Or.inl ⟨rfl, rfl⟩
    | some revents =>
        right
        dsimp only
        have ready : ∀ p ∈ asked round.answers s 0 entries, p.2 = true → Ready p.1.action s := by
          intro p member events
          have ⟨inside, i, same⟩ := asked_mem member
          have action : p.1.action ∈ actions := by
            rw [← inv.kept]
            exact List.mem_map_of_mem inside
          rw [same] at events
          unfold Entry.events at events
          split at events
          · cases events
          · rename_i opened
            refine contract.interested _ action (round.answers i) s (obeys i) inv.inside
              (Bool.and_eq_true_iff.mp events).2 fun input => ?_
            simpa only [input, true_and, Bool.not_eq_true] using opened
        have apart : ((asked round.answers s 0 entries).map fun p => p.1.action).Pairwise
            (Spares Obeys Ready) := by
          rw [asked_action, inv.kept]
          exact contract.apart
        have served : Serves Obeys Ready
            (due round.answers revents 0 (asked round.answers s 0 entries)) (Breaks round)
            ((asked round.answers s 0 entries).map Prod.fst) s
            (serve round.answers revents 0 (asked round.answers s 0 entries) s) :=
          serve_serves obeys (fun place failed => ⟨revents, place, answered, failed⟩) ready apart
        rwa [asked_fst] at served
  · left
    intro p member
    cases events : p.2 with
    | false => rfl
    | true => exact absurd (List.any_eq_true.mpr ⟨p, member, events⟩) some'

/-- Calls of a contract's actions keep what it keeps. -/
theorem Contract.calls (contract : Contract Obeys Ready Over I actions) {t : σ}
    {calls : List (Call σ ω)} (ran : Run (Called Obeys Ready) s calls t)
    (member : ∀ call ∈ calls, call.action ∈ actions) (start : I s) :
    I t ∧ (∀ call ∈ calls, call.result.result = .cancel → Over call.action t) ∧
      ∀ a ∈ actions, Over a s → Over a t := by
  induction ran with
  | nil => exact ⟨start, fun _ none _ => (by cases none), fun _ _ past => past⟩
  | @snoc labels u t call _ move ih =>
      have ⟨_, cancelled, stays⟩ :=
        ih fun c inside => member c (List.mem_append_left _ inside)
      have ⟨after, ends, stays'⟩ :=
        contract.keeps _ (member _ (List.mem_append_right _ (List.mem_singleton_self _)))
          _ _ _ _ move.1 move.2.1 move.2.2
      refine ⟨after, fun c made cancel => ?_,
        fun a inside past => stays' a inside (stays a inside past)⟩
      rcases List.mem_append.mp made with before | last
      · exact stays' _ (member c made) (cancelled c before cancel)
      · rw [List.mem_singleton.mp last] at cancel ⊢
        exact ends cancel

/-- The actions of the entries due are actions of the contract. -/
theorem due_mem {answers : Nat → ω} {revents : Nat → Revents} {place : Nat}
    {asked : List (Entry σ ω × Bool)} {p : Action σ ω × ω}
    (member : p ∈ due answers revents place asked) :
    p.1 ∈ asked.map fun p => p.1.action := by
  induction asked generalizing place with
  | nil => cases member
  | cons head rest ih =>
      obtain ⟨entry, events⟩ := head
      rw [due] at member
      split at member
      · rcases List.mem_cons.mp member with rfl | later
        · exact List.mem_cons_self
        · exact List.mem_cons_of_mem _ (ih later)
      · exact List.mem_cons_of_mem _ (ih member)

theorem due_append {answers : Nat → ω} {revents : Nat → Revents} {place : Nat}
    {front back : List (Entry σ ω × Bool)} :
    due answers revents place (front ++ back) =
      due answers revents place front ++ due answers revents (place + front.length) back := by
  induction front generalizing place with
  | nil => rfl
  | cons p front ih =>
      obtain ⟨entry, events⟩ := p
      have next : place + ((entry, events) :: front).length = place + 1 + front.length := by
        rw [List.length_cons]
        omega
      rw [List.cons_append, due, due, ih, next]
      split
      · rfl
      · rfl

theorem asked_append {answers : Nat → ω} {s : σ} {place : Nat} {front back : List (Entry σ ω)} :
    asked answers s place (front ++ back) =
      asked answers s place front ++ asked answers s (place + front.length) back := by
  induction front generalizing place with
  | nil => rfl
  | cons entry front ih =>
      have next : place + (entry :: front).length = place + 1 + front.length := by
        rw [List.length_cons]
        omega
      rw [List.cons_append, asked, asked, ih, next]
      rfl

theorem asked_length {answers : Nat → ω} {s : σ} {place : Nat} {entries : List (Entry σ ω)} :
    (asked answers s place entries).length = entries.length := by
  rw [← List.length_map (f := Prod.fst), asked_fst]

/-- What is due comes in the order of the entries. -/
theorem due_sublist {answers : Nat → ω} {revents : Nat → Revents} {place : Nat}
    {asked : List (Entry σ ω × Bool)} :
    ((due answers revents place asked).map Prod.fst).Sublist (asked.map fun p => p.1.action) := by
  induction asked generalizing place with
  | nil => exact List.Sublist.slnil
  | cons p rest ih =>
      obtain ⟨entry, events⟩ := p
      rw [due]
      split
      · exact ih.cons_cons _
      · exact ih.cons _

theorem dues_sublist :
    ((dues round entries s).map Prod.fst).Sublist (entries.map Entry.action) := by
  unfold dues
  split
  · exact List.nil_sublist _
  · rw [← asked_action round.answers s 0 entries]
    exact due_sublist

/-- Calls in the order of some actions keep what holds from each action to the next: `J` says it by
the number of actions still to come. -/
theorem calls_through {J : Nat → σ → Prop} {t : σ} {calls : List (Call σ ω)}
    (skip : ∀ left s, J (left + 1) s → J left s)
    (step : ∀ front back (call : Call σ ω) s t, actions = front ++ call.action :: back →
      Called Obeys Ready s call t → J (back.length + 1) s → J back.length t)
    (ran : Run (Called Obeys Ready) s calls t)
    (order : (calls.map Call.action).Sublist actions)
    (start : J actions.length s) : J 0 t := by
  have down : ∀ {fewer more : Nat} {s : σ}, fewer ≤ more → J more s → J fewer s := by
    intro fewer more s le holds
    induction le with
    | refl => exact holds
    | step _ ih => exact ih (skip _ _ holds)
  have through : ∀ front back, actions = front ++ back →
      (calls.map Call.action).Sublist front → J back.length t := by
    clear order
    induction ran with
    | nil =>
        intro front back same _
        refine down ?_ start
        rw [same, List.length_append]
        omega
    | @snoc labels u v call _ move ih =>
        intro front back same order
        rw [List.map_append] at order
        obtain ⟨front₁, front₂, rfl, before, last⟩ := List.append_sublist_iff.mp order
        obtain ⟨front₃, front₄, rfl⟩ :=
          List.append_of_mem (List.singleton_sublist.mp last)
        have cut : actions = (front₁ ++ front₃) ++ call.action :: (front₄ ++ back) := by
          rw [same]
          simp only [List.append_assoc, List.cons_append]
        have reached := ih (front₁ ++ front₃) (call.action :: (front₄ ++ back)) cut
          (before.trans (List.sublist_append_left _ _))
        refine down ?_ (step _ _ call u v cut move reached)
        rw [List.length_append]
        omega
  exact through actions [] (List.append_nil _).symm order

theorem dues_mem {p : Action σ ω × ω} (member : p ∈ dues round entries s) :
    p.1 ∈ entries.map Entry.action := by
  unfold dues at member
  split at member
  · cases member
  · rw [← asked_action round.answers s 0 entries]
    exact due_mem member

/-- What a contract gives for every round: the loop goes on or ends in a state that it keeps, the
calls made are those due, or a callback that was ready failed. -/
theorem Contract.poll (contract : Contract Obeys Ready Over I actions)
    (inv : Contract.Inv Over I actions entries s) (obeys : ∀ i, Obeys (round.answers i)) :
    (∃ outcome after t calls, Poller.poll round entries s = .ok (outcome, after, t) ∧
      Contract.Inv Over I actions after t ∧
      Run (Called Obeys Ready) s calls t ∧ (∀ call ∈ calls, call.action ∈ actions) ∧
      (outcome = .success → calls.map Call.made = dues round entries s)) ∨
    ∃ fault t action answer, Poller.poll round entries s = .error fault ∧ I t ∧
      action ∈ actions ∧ Obeys answer ∧ Ready action t ∧
      action.callback answer t = .error fault := by
  rcases contract.poll_cases inv obeys with quiet | ⟨_, timeout⟩ | serves
  · exact Or.inl ⟨_, entries, s, [], poll_quiet quiet, inv, Run.nil,
      fun _ none => (by cases none), fun other => by cases other⟩
  · exact Or.inl ⟨_, entries, s, [], timeout, inv, Run.nil,
      fun _ none => (by cases none), fun other => by cases other⟩
  · have within : ∀ {made : List (Action σ ω × ω)}, made <+: dues round entries s →
        ∀ p ∈ made, p.1 ∈ actions := by
      intro made order p member
      rw [← inv.kept]
      exact dues_mem (order.subset member)
    rcases returned : Poller.poll round entries s with fault | ⟨outcome, after, t⟩
    · rw [returned] at serves
      obtain ⟨t, calls, action, answer, failed⟩ := serves
      have known := within failed.order
      have member : ∀ call ∈ calls, call.action ∈ actions := fun call made =>
        known call.made (List.mem_append_left _ (List.mem_map_of_mem made))
      exact Or.inr ⟨fault, t, action, answer, rfl, (contract.calls failed.ran member inv.inside).1,
        known (action, answer) (List.mem_append_right _ (List.mem_singleton_self _)),
        failed.obeys, failed.ready, failed.fails⟩
    · rw [returned] at serves
      obtain ⟨calls, served⟩ := serves
      have known := within served.order
      have member : ∀ call ∈ calls, call.action ∈ actions := fun call made =>
        known call.made (List.mem_map_of_mem made)
      have ⟨inside, cancelled, stays⟩ := contract.calls served.ran member inv.inside
      refine Or.inl ⟨outcome, after, t, calls, rfl, ⟨inside, ?_, ?_⟩, served.ran, member,
        served.all⟩
      · rw [served.kept, inv.kept]
      · intro entry stopped off
        rcases served.inactive entry stopped off with before | ⟨call, made, same, cancel⟩
        · refine stays _ ?_ (inv.past entry before off)
          rw [← inv.kept]
          exact List.mem_map_of_mem before
        · rw [← same]
          exact cancelled call made cancel

/-- When nothing is asked for, every action that still may be called is not interested. -/
theorem Contract.quiet (inv : Contract.Inv Over I actions entries s)
    (quiet : Quiet round entries s) {a : Action σ ω} (member : a ∈ actions) :
    Over a s ∨ (a.direction = .in ∧ a.eof s = true) ∨
      ∃ answer, a.whenInterested answer s = false := by
  rw [← inv.kept] at member
  obtain ⟨entry, inside, same⟩ := List.mem_map.mp member
  have ⟨i, asks⟩ := asked_of_mem round.answers s inside 0
  have events := quiet _ asks
  rw [← same]
  unfold Entry.events at events
  split at events
  · rename_i ended
    exact Or.inr (Or.inl ended)
  · rcases Bool.and_eq_false_iff.mp events with off | uninterested
    · exact Or.inl (inv.past entry inside off)
    · exact Or.inr (Or.inr ⟨_, uninterested⟩)

theorem poll_timeout {after : List (Entry σ ω)} {t : σ}
    (returned : Poller.poll round entries s = .ok (.timeout, after, t)) :
    round.revents = none := by
  unfold Poller.poll at returned
  dsimp only at returned
  split at returned
  · split at returned
    · assumption
    · exact absurd returned serve_ne_timeout
  · cases returned

/-- A round in which the loop goes on without timing out has something due. -/
theorem dues_of_success {after : List (Entry σ ω)} {t : σ} (reports : Reports round entries s)
    (returned : Poller.poll round entries s = .ok (.success, after, t)) :
    dues round entries s ≠ [] := by
  unfold Poller.poll at returned
  dsimp only at returned
  split at returned
  · split at returned
    · cases returned
    · rename_i revents answered
      rcases reports revents answered with ⟨place, inside, failed⟩ | some'
      · have length : (asked round.answers s 0 entries).length = entries.length := by
          rw [← List.length_map (f := Prod.fst), asked_fst]
        have sound := serve_success returned (length ▸ inside)
        rw [Nat.zero_add, failed] at sound
        cases sound
      · exact some'
  · cases returned

/-- A round that returns made some of the calls due, in order. -/
theorem Contract.served (contract : Contract Obeys Ready Over I actions)
    (inv : Contract.Inv Over I actions entries s) (obeys : ∀ i, Obeys (round.answers i))
    {outcome : PollResult} {after : List (Entry σ ω)} {t : σ}
    (returned : Poller.poll round entries s = .ok (outcome, after, t)) : ∃ calls,
      Run (Called Obeys Ready) s calls t ∧ calls.map Call.made <+: dues round entries s ∧
      Contract.Inv Over I actions after t := by
  have kept : Contract.Inv Over I actions after t := by
    rcases contract.poll inv obeys with
      ⟨_, _, _, _, same, kept, _⟩ | ⟨_, _, _, _, failed, _⟩
    · have same := (Prod.mk.inj (Except.ok.inj (returned.symm.trans same))).2
      rw [(Prod.mk.inj same).1, (Prod.mk.inj same).2]
      exact kept
    · rw [returned] at failed
      cases failed
  rcases contract.poll_cases inv obeys with quiet | ⟨_, timeout⟩ | serves
  · rw [poll_quiet quiet] at returned
    cases returned
    exact ⟨[], Run.nil, List.nil_prefix, kept⟩
  · rw [timeout] at returned
    cases returned
    exact ⟨[], Run.nil, List.nil_prefix, kept⟩
  · rw [returned] at serves
    obtain ⟨calls, served⟩ := serves
    exact ⟨calls, served.ran, served.order, kept⟩

/-- A round of a loop that goes on. -/
def Polls (Obeys : ω → Prop) (x : List (Entry σ ω) × σ) (round : Round ω)
    (y : List (Entry σ ω) × σ) : Prop :=
  (∀ i, Obeys (round.answers i)) ∧ ∃ outcome, (∀ status, outcome ≠ .exit status) ∧
    Poller.poll round x.1 x.2 = .ok (outcome, y)

/-- The rounds of a loop keep what each one keeps. -/
theorem Contract.run (contract : Contract Obeys Ready Over I actions)
    {x y : List (Entry σ ω) × σ} {rounds : List (Round ω)} (ran : Run (Polls Obeys) x rounds y)
    (start : Contract.Inv Over I actions x.1 x.2) : Contract.Inv Over I actions y.1 y.2 := by
  apply ran.invariant (I := fun x => Contract.Inv Over I actions x.1 x.2)
  · intro x round y inv ⟨obeys, outcome, _, returned⟩
    rcases contract.poll inv obeys with
      ⟨outcome', after, t, _, returned', kept, _⟩ | ⟨_, _, _, _, failed, _⟩
    · have same := Except.ok.inj (returned.symm.trans returned')
      rw [(Prod.mk.inj same).2]
      exact kept
    · rw [returned] at failed
      cases failed
  · exact start

end

end Poller

end CellReplay
