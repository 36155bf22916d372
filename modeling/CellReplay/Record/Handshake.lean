import CellReplay.Lib.Transition
import CellReplay.Record.ServerSession

set_option autoImplicit false

namespace CellReplay

open Transition

/-- The variables of `main` of the echo server that a SYN or a FIN concerns. `waiting` holds while
`main` is at its second `recvfrom`, where it waits for the second connection. -/
structure EchoServer where
  currSenderId : Int
  expId : Int
  address : Option Address
  address2 : Option Address
  stopSending : Bool
  sendThread : Bool
  logFile : Option (LogFile Text)
  waiting : Bool
  deriving DecidableEq, Repr

namespace EchoServer

/-- The server before its first datagram. -/
def init : EchoServer where
  currSenderId := 0
  expId := 0
  address := none
  address2 := none
  stopSending := false
  sendThread := false
  logFile := none
  waiting := false

/-- A control packet at the head of the loop of `main`, and the reply to it. -/
def handleControl (source : Address) (fields : ControlFields) (s : EchoServer) :
    EchoServer × List (Address × Reply) :=
  let s := { s with address := some source, expId := fields.expId }
  if fields.content = controlSyn then
    ({ s with waiting := true }, [(source, .control fields.senderId controlSynAck)])
  else if fields.content = controlFin then ({ s with stopSending := true, currSenderId := 0 }, [])
  else (s, [])

/-- The message that `main` takes for the second connection. -/
def handleSecond (source : Address) (message : Received) (s : EchoServer) :
    EchoServer × List (Address × Reply) :=
  let s := { s with waiting := false }
  match message with
  | .control fields =>
      let s := { s with expId := fields.expId }
      if fields.content = controlSyn then
        ({ s with
            address2 := some source
            currSenderId := fields.senderId
            logFile := s.logFile.map LogFile.close
            stopSending := s.sendThread },
          [(source, .control fields.senderId controlSynAck)])
      else ({ s with address := none, address2 := none }, [])
  | _ => ({ s with address := none, address2 := none }, [])

/-- What `main` does with a control packet, wherever it waits for one. -/
def receiveControl (source : Address) (fields : ControlFields) (s : EchoServer) :
    EchoServer × List (Address × Reply) :=
  if s.waiting then s.handleSecond source (.control fields) else s.handleControl source fields

end EchoServer

/-- Where `start_connection` is: it receives on the first or on the second socket, or has
returned. -/
inductive ClientPoint where
  | socket
  | socket2
  | returned (code : Int)
  deriving DecidableEq, Repr

/-- What a client of the echo server is constructed with. -/
structure EchoClient where
  senderId : Int
  experimentId : Int
  clientIP : Text
  clientIP2 : Text
  deriving DecidableEq, Repr

namespace EchoClient

def clientPort : Nat := 7020
def clientPort2 : Nat := 7021
def connEstablished : Int := 400
def failedConnection : Int := 700

def socket (c : EchoClient) : Address := ⟨c.clientIP, clientPort⟩
def socket2 (c : EchoClient) : Address := ⟨c.clientIP2, clientPort2⟩

/-- The packet that both sockets send. -/
def request (c : EchoClient) : ControlFields := ⟨c.senderId, controlSyn, c.experimentId⟩

theorem socket2_ne_socket (c : EchoClient) : c.socket2 ≠ c.socket := by
  intro same
  exact absurd (congrArg Address.port same) (by decide : clientPort2 ≠ clientPort)

end EchoClient

/-- A datagram on its way. -/
inductive Handshake.Packet where
  | request (source : Address) (fields : ControlFields)
  | reply (destination : Address) (reply : Reply)
  deriving DecidableEq, Repr

/-- The socket of the client a request is from. -/
def Handshake.Packet.source : Handshake.Packet → Option Address
  | .request source _ => some source
  | .reply _ _ => none

/-- One client, the server, and the datagrams on their way or not yet received. -/
structure Handshake where
  client : EchoClient
  point : ClientPoint
  server : EchoServer
  inFlight : List Handshake.Packet
  deriving DecidableEq, Repr

namespace Handshake

/-- The first `socket.send(request)`. -/
def start (client : EchoClient) : Handshake :=
  ⟨client, .socket, EchoServer.init, [.request client.socket client.request]⟩

/-- A datagram is lost, reaches the server, or is received by the client; or the client finds that
`receive` took too long. Datagrams reach each side in any order. -/
inductive Event where
  | lose (i : Nat)
  | serve (i : Nat)
  | receive (i : Nat)
  | timeout
  deriving DecidableEq, Repr

/-- The server handles a request. -/
def serve (source : Address) (fields : ControlFields) (s : Handshake) : Handshake :=
  let (server, replies) := s.server.receiveControl source fields
  { s with
    server := server
    inFlight := s.inFlight ++ replies.map (fun r => .reply r.1 r.2) }

/-- `start_connection` receives a reply on the socket that it waits on. -/
def receive (destination : Address) (reply : Reply) (s : Handshake) : Option Handshake :=
  match reply, s.point with
  | .control _ content, .socket =>
      if destination = s.client.socket then
        if content = controlSynAck then
          some { s with
            point := .socket2
            inFlight := s.inFlight ++ [.request s.client.socket2 s.client.request] }
        else some { s with point := .returned EchoClient.failedConnection }
      else none
  | .control _ content, .socket2 =>
      if destination = s.client.socket2 then
        if content = controlSynAck then
          some { s with point := .returned EchoClient.connEstablished }
        else some { s with point := .returned EchoClient.failedConnection }
      else none
  | _, _ => none

/-- The `SocketTimeoutException` leads back to the first socket. -/
def timeout (s : Handshake) : Option Handshake :=
  match s.point with
  | .returned _ => none
  | _ => some { s with
      point := .socket
      inFlight := s.inFlight ++ [.request s.client.socket s.client.request] }

def exec : Event → Handshake → Option Handshake
  | .lose i, s =>
      if i < s.inFlight.length then some { s with inFlight := s.inFlight.eraseIdx i } else none
  | .serve i, s =>
      match s.inFlight[i]? with
      | some (.request source fields) =>
          some ({ s with inFlight := s.inFlight.eraseIdx i }.serve source fields)
      | _ => none
  | .receive i, s =>
      match s.inFlight[i]? with
      | some (.reply destination reply) =>
          { s with inFlight := s.inFlight.eraseIdx i }.receive destination reply
      | _ => none
  | .timeout, s => s.timeout

def Step (s : Handshake) (event : Event) (s' : Handshake) : Prop := exec event s = some s'

/-- The server has left its wait, and knows the client and its two sockets. -/
structure Agreed (s : Handshake) : Prop where
  waiting : s.server.waiting = false
  currSenderId : s.server.currSenderId = s.client.senderId
  address : s.server.address = some s.client.socket
  address2 : s.server.address2 = some s.client.socket2

/-- Once `start_connection` has returned `CONN_ESTABLISHED`, the server agrees. -/
def Agreement (s : Handshake) : Prop := s.point = .returned EchoClient.connEstablished → s.Agreed

/-- A SYN of the second socket reaches the server only while it waits for the second connection,
and the client finds a timeout only once nothing is on its way any more. -/
def Orderly (s : Handshake) : Event → Prop
  | .serve i => ∀ packet ∈ s.inFlight[i]?, packet.source = some s.client.socket2 →
      s.server.waiting = true
  | .timeout => s.inFlight = []
  | _ => True

instance (s : Handshake) : (event : Event) → Decidable (s.Orderly event)
  | .lose _ => inferInstanceAs (Decidable True)
  | .serve i => inferInstanceAs (Decidable (∀ packet ∈ s.inFlight[i]?, _ → _))
  | .receive _ => inferInstanceAs (Decidable True)
  | .timeout => inferInstanceAs (Decidable (s.inFlight = []))

def OrderlyStep (s : Handshake) (event : Event) (s' : Handshake) : Prop :=
  Step s event s' ∧ s.Orderly event

section
variable (c : EchoClient)

/-- The datagrams of the exchange. -/
def syn : Packet := .request c.socket c.request
def syn2 : Packet := .request c.socket2 c.request
def synAck : Packet := .reply c.socket (.control c.senderId controlSynAck)
def synAck2 : Packet := .reply c.socket2 (.control c.senderId controlSynAck)

end

/-- At most one datagram is on its way, and an ack to the second socket only once the server
agrees. -/
structure Lockstep (s : Handshake) : Prop where
  waiting : s.server.waiting = true → s.server.address = some s.client.socket
  socket : s.point = .socket →
    s.inFlight = [] ∨ s.inFlight = [syn s.client] ∨ s.inFlight = [synAck s.client]
  socket2 : s.point = .socket2 → s.inFlight = [] ∨ s.inFlight = [syn2 s.client] ∨
    s.inFlight = [synAck2 s.client] ∧ s.Agreed
  returned : ∀ code, s.point = .returned code → s.inFlight = []
  agreement : s.Agreement

theorem lockstep_start (client : EchoClient) : Lockstep (start client) := by
  constructor
  · simp [start, EchoServer.init]
  · intro _
    exact Or.inr (Or.inl rfl)
  · simp [start]
  · simp [start]
  · simp [Agreement, start]

/-- At most one datagram is on its way. -/
theorem Lockstep.single {s : Handshake} (lockstep : Lockstep s) {i : Nat} {packet : Packet}
    (found : s.inFlight[i]? = some packet) : s.inFlight = [packet] ∧ i = 0 := by
  have one : s.inFlight = [] ∨ ∃ only, s.inFlight = [only] := by
    cases point : s.point with
    | socket =>
        rcases lockstep.socket point with none | one | one
        · exact Or.inl none
        · exact Or.inr ⟨_, one⟩
        · exact Or.inr ⟨_, one⟩
    | socket2 =>
        rcases lockstep.socket2 point with none | one | ⟨one, _⟩
        · exact Or.inl none
        · exact Or.inr ⟨_, one⟩
        · exact Or.inr ⟨_, one⟩
    | returned code => exact Or.inl (lockstep.returned code point)
  rcases one with none | ⟨only, one⟩
  · rw [none] at found
    cases found
  · rw [one] at found ⊢
    cases i with
    | zero =>
        rw [← Option.some.inj found]
        exact ⟨rfl, rfl⟩
    | succ i => cases found

theorem Lockstep.erased {s : Handshake} (lockstep : Lockstep s) {i : Nat} {packet : Packet}
    (found : s.inFlight[i]? = some packet) : s.inFlight.eraseIdx i = [] := by
  obtain ⟨one, first⟩ := lockstep.single found
  rw [one, first]
  rfl

/-- A loss leaves nothing on its way. -/
theorem Lockstep.lose {s s' : Handshake} {i : Nat} (lockstep : Lockstep s)
    (step : Step s (.lose i) s') : Lockstep s' := by
  unfold Step exec at step
  dsimp only at step
  split at step
  · rename_i inside
    have found := List.getElem?_eq_getElem inside
    have empty := lockstep.erased found
    rw [← Option.some.inj step]
    exact ⟨lockstep.waiting, fun _ => Or.inl empty, fun _ => Or.inl empty, fun _ _ => empty,
      fun point => ⟨(lockstep.agreement point).waiting, (lockstep.agreement point).currSenderId,
        (lockstep.agreement point).address, (lockstep.agreement point).address2⟩⟩
  · cases step

/-- A timeout with nothing on its way begins again. -/
theorem Lockstep.timeout {s s' : Handshake} (lockstep : Lockstep s) (quiet : s.inFlight = [])
    (step : Step s .timeout s') : Lockstep s' := by
  have step : s.timeout = some s' := step
  unfold Handshake.timeout at step
  split at step
  · cases step
  · rw [← Option.some.inj step, quiet]
    refine ⟨lockstep.waiting, fun _ => Or.inr (Or.inl rfl), ?_, ?_, ?_⟩
    · simp
    · simp
    · simp [Agreement]

/-- The request in flight that reaches the server is that of the socket the client waits on. -/
theorem Lockstep.request {s : Handshake} (lockstep : Lockstep s) {i : Nat} {source : Address}
    {fields : ControlFields} (found : s.inFlight[i]? = some (.request source fields)) :
    fields = s.client.request ∧ (s.point = .socket ∧ source = s.client.socket ∨
      s.point = .socket2 ∧ source = s.client.socket2) := by
  obtain ⟨one, _⟩ := lockstep.single found
  cases point : s.point with
  | socket =>
      rcases lockstep.socket point with none | syn | ack
      · rw [none] at one
        cases one
      · rw [syn] at one
        obtain ⟨same, request⟩ := Packet.request.inj (List.head_eq_of_cons_eq one)
        exact ⟨request.symm, Or.inl ⟨rfl, same.symm⟩⟩
      · rw [ack] at one
        cases one
  | socket2 =>
      rcases lockstep.socket2 point with none | syn | ⟨ack, _⟩
      · rw [none] at one
        cases one
      · rw [syn] at one
        obtain ⟨same, request⟩ := Packet.request.inj (List.head_eq_of_cons_eq one)
        exact ⟨request.symm, Or.inr ⟨rfl, same.symm⟩⟩
      · rw [ack] at one
        cases one
  | returned code =>
      rw [lockstep.returned code point] at one
      cases one

/-- What the server does with a SYN: it is a first one, or the second one it waits for. -/
theorem receiveControl_syn {source : Address} {fields : ControlFields} {server : EchoServer}
    (content : fields.content = controlSyn) : server.receiveControl source fields =
      (if server.waiting then
        { server with
          expId := fields.expId
          address2 := some source
          currSenderId := fields.senderId
          logFile := server.logFile.map LogFile.close
          stopSending := server.sendThread
          waiting := false }
      else { server with address := some source, expId := fields.expId, waiting := true },
        [(source, .control fields.senderId controlSynAck)]) := by
  unfold EchoServer.receiveControl
  split
  · unfold EchoServer.handleSecond
    dsimp only
    rw [if_pos content]
  · unfold EchoServer.handleControl
    dsimp only
    rw [if_pos content]

theorem Lockstep.serve {s s' : Handshake} {i : Nat} (lockstep : Lockstep s)
    (orderly : s.Orderly (.serve i)) (step : Step s (.serve i) s') : Lockstep s' := by
  unfold Step exec at step
  dsimp only at step
  split at step
  · rename_i source fields found
    have empty := lockstep.erased found
    obtain ⟨request, from'⟩ := lockstep.request found
    rw [← Option.some.inj step]
    unfold Handshake.serve
    rw [empty, receiveControl_syn (by rw [request]; rfl), request]
    rcases from' with ⟨point, same⟩ | ⟨point, same⟩
    · rw [same]
      refine ⟨?_, fun _ => Or.inr (Or.inr rfl), ?_, ?_, ?_⟩
      · dsimp only
        split
        · simp
        · intro _
          rfl
      · simp [point]
      · simp [point]
      · simp [Agreement, point]
    · rw [same] at found ⊢
      have waiting : s.server.waiting = true := orderly _ found rfl
      dsimp only
      rw [if_pos waiting]
      refine ⟨?_, ?_, fun _ =>
        Or.inr (Or.inr ⟨rfl, rfl, rfl, lockstep.waiting waiting, rfl⟩), ?_, ?_⟩
      · simp
      · simp [point]
      · simp [point]
      · simp [Agreement, point]
  · cases step

/-- The reply in flight that the client receives is an ack to the socket it waits on. -/
theorem Lockstep.reply {s : Handshake} (lockstep : Lockstep s) {i : Nat} {destination : Address}
    {reply : Reply} (found : s.inFlight[i]? = some (.reply destination reply)) :
    reply = .control s.client.senderId controlSynAck ∧
      (s.point = .socket ∧ destination = s.client.socket ∨
        s.point = .socket2 ∧ destination = s.client.socket2 ∧ s.Agreed) := by
  obtain ⟨one, _⟩ := lockstep.single found
  cases point : s.point with
  | socket =>
      rcases lockstep.socket point with none | syn | ack
      · rw [none] at one
        cases one
      · rw [syn] at one
        cases one
      · rw [ack] at one
        obtain ⟨same, reply'⟩ := Packet.reply.inj (List.head_eq_of_cons_eq one)
        exact ⟨reply'.symm, Or.inl ⟨rfl, same.symm⟩⟩
  | socket2 =>
      rcases lockstep.socket2 point with none | syn | ⟨ack, agreed⟩
      · rw [none] at one
        cases one
      · rw [syn] at one
        cases one
      · rw [ack] at one
        obtain ⟨same, reply'⟩ := Packet.reply.inj (List.head_eq_of_cons_eq one)
        exact ⟨reply'.symm, Or.inr ⟨rfl, same.symm, agreed⟩⟩
  | returned code =>
      rw [lockstep.returned code point] at one
      cases one

theorem Lockstep.receive {s s' : Handshake} {i : Nat} (lockstep : Lockstep s)
    (step : Step s (.receive i) s') : Lockstep s' := by
  unfold Step exec at step
  dsimp only at step
  split at step
  · rename_i destination reply found
    have empty := lockstep.erased found
    obtain ⟨ack, meant⟩ := lockstep.reply found
    rw [empty, ack] at step
    unfold Handshake.receive at step
    rcases meant with ⟨point, same⟩ | ⟨point, same, agreed⟩
    · simp only [point, same, if_true] at step
      rw [← Option.some.inj step]
      refine ⟨lockstep.waiting, ?_, fun _ => Or.inr (Or.inl rfl), ?_, ?_⟩
      · simp
      · simp
      · simp [Agreement]
    · simp only [point, same, if_true] at step
      rw [← Option.some.inj step]
      refine ⟨lockstep.waiting, ?_, ?_, fun _ _ => rfl, ?_⟩
      · simp
      · simp
      · intro _
        exact ⟨agreed.waiting, agreed.currSenderId, agreed.address, agreed.address2⟩
  · cases step

theorem Lockstep.step {s s' : Handshake} {event : Event} (lockstep : Lockstep s)
    (step : OrderlyStep s event s') : Lockstep s' := by
  obtain ⟨step, orderly⟩ := step
  cases event with
  | lose i => exact lockstep.lose step
  | serve i => exact lockstep.serve orderly step
  | receive i => exact lockstep.receive step
  | timeout => exact lockstep.timeout orderly step

/-- The server takes the SYN of the second socket for a first one. -/
def halfOpen (s : Handshake) : Handshake :=
  { s with
    server := { s.server with
      address := some s.client.socket2
      expId := s.client.experimentId
      waiting := true }
    inFlight := [synAck2 s.client] }

/-- A SYN of the second socket that reaches a server at the head of its loop is acked, and the ack
ends the exchange. -/
theorem Lockstep.not_agreement {s : Handshake} (lockstep : Lockstep s) {i : Nat}
    {fields : ControlFields} (found : s.inFlight[i]? = some (.request s.client.socket2 fields))
    (looping : s.server.waiting = false) :
    ∃ s', Run Step s [.serve i, .receive 0] s' ∧ ¬ s'.Agreement := by
  obtain ⟨request, from'⟩ := lockstep.request found
  have point : s.point = .socket2 := by
    rcases from' with ⟨_, same⟩ | ⟨point, _⟩
    · exact absurd same s.client.socket2_ne_socket
    · exact point
  have served : Step s (.serve i) s.halfOpen := by
    unfold Step exec
    simp only [found, lockstep.erased found, Handshake.serve]
    rw [receiveControl_syn (by rw [request]; rfl), request, looping]
    rfl
  have received : Step s.halfOpen (.receive 0)
      { s.halfOpen with point := .returned EchoClient.connEstablished, inFlight := [] } := by
    unfold Step exec Handshake.receive halfOpen
    simp only [point, synAck2, List.getElem?_cons_zero, List.eraseIdx_cons_zero, if_true]
  refine ⟨_, (Run.single served).append (Run.single received), ?_⟩
  intro agreement
  exact absurd (agreement rfl).waiting (by simp [halfOpen])

/-- In a run in which each SYN of the second socket finds the server waiting for it, and nothing is
on its way at a timeout, both sides agree on the connection; and where such a SYN finds the server
at the head of its loop, the client may go on to return without agreement. -/
theorem handshake_agrees (client : EchoClient) (events : List Event) (s : Handshake)
    (run : Run OrderlyStep (start client) events s) :
    s.Agreement ∧ ∀ i fields, s.inFlight[i]? = some (.request s.client.socket2 fields) →
      s.server.waiting = false → ∃ s', Run Step s [.serve i, .receive 0] s' ∧ ¬ s'.Agreement := by
  have kept : Lockstep s :=
    run.invariant (fun _ _ _ lockstep step => lockstep.step step) (lockstep_start client)
  refine ⟨kept.agreement, ?_⟩
  intro i fields found looping
  exact kept.not_agreement found looping

def clientSeven : EchoClient := ⟨7, 0, "10.0.0.2".toList, "10.0.0.3".toList⟩

/-- The ack to the first SYN is lost. -/
def ackLost : List Event :=
  [.serve 0, .lose 0, .timeout, .serve 0, .receive 0, .serve 0, .receive 0]

/-- The ack to the second SYN takes longer than the client waits. -/
def ackLate : List Event :=
  [.serve 0, .receive 0, .serve 0, .timeout, .serve 1, .receive 1, .receive 0]

/-- The client has returned while the server waits. -/
theorem not_agreement_of_waiting {events : List Event}
    (observed : (execAll exec (fun _ _ => True) events (start clientSeven)).map
        (fun s => (s.point, s.server.waiting)) =
      some (.returned EchoClient.connEstablished, true)) :
    ∃ s, Run Step (start clientSeven) events s ∧ ¬ s.Agreement := by
  obtain ⟨s, returned, seen⟩ := Option.map_eq_some_iff.mp observed
  obtain ⟨point, waiting⟩ := Prod.mk.inj seen
  refine ⟨s, (run_of_execAll returned).mono (fun _ _ _ step => step.1), ?_⟩
  intro agreement
  have looping := (agreement point).waiting
  rw [waiting] at looping
  cases looping

/-- The client returns while the server waits for its second connection. -/
theorem not_handshake_agrees :
    (∃ s, Run Step (start clientSeven) ackLost s ∧ ¬ s.Agreement) ∧
      ∃ s, Run Step (start clientSeven) ackLate s ∧ ¬ s.Agreement :=
  ⟨not_agreement_of_waiting (by decide +kernel), not_agreement_of_waiting (by decide +kernel)⟩

/-- The first SYN is lost, and sent again on the timeout. -/
def synLost : List Event := [.lose 0, .timeout, .serve 0, .receive 0, .serve 0, .receive 0]

theorem handshake_agrees_synLost : ∃ s, Run OrderlyStep (start clientSeven) synLost s ∧
    s.point = .returned EchoClient.connEstablished ∧ s.Agreement := by
  have observed : (execAll exec Orderly synLost (start clientSeven)).map (fun s => s.point) =
      some (.returned EchoClient.connEstablished) := by decide +kernel
  obtain ⟨s, returned, point⟩ := Option.map_eq_some_iff.mp observed
  have run := run_of_execAll returned
  exact ⟨s, run, point, (handshake_agrees clientSeven synLost s run).1⟩

end Handshake

end CellReplay
