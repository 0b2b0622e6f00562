import LaptopPaxos.Delivery
import LaptopPaxos.Engineer

/-!
# A server on the network

One server with all of its threads and sockets, and nothing known of its
peers: what they send, and when a system call fails, is arbitrary. An engineer
takes steps of `engineerStep`, and the Scout steps of `scoutStep`, whose
environment (the success of a transfer, what has arrived) is now determined by
the system calls on its stubs (`scoutIo`).

The descriptors are known by the socket object that has obtained them. None
obtains a second one: an engineer serves a single connection, and a stub is
created and connected once. The trace of the system calls is part of the
state, the oldest first.
-/

namespace LaptopPaxos

open LaptopFactory Reader

/-- The socket objects of a server. -/
inductive SocketId
  /-- Of the engineer `e`. -/
  | engineer (e : ℤ)
  /-- The Scout's, to the acceptor `a`. -/
  | acceptor (a : ℤ)
  /-- The Commander's, to the learner `a`. -/
  | learner (a : ℤ)
  deriving DecidableEq

/-- What a step of the Scout does on its stubs, and what it gets from there. -/
structure ScoutIo where
  alive : Bool := true
  dropped : List ℤ := []
  inbox : ℤ → List PaxosMsg := fun _ => []
  transfers : List (SocketId × Transfer) := []

/-- The system calls, each with the object that makes it. -/
def ScoutIo.calls (io : ScoutIo) : List (SocketId × Syscall) :=
  io.transfers.flatMap fun p => p.2.calls.map fun c => (p.1, c)

/-! ### The stubs of the Scout -/

/-- `Identify` on every new stub whose connection is not refused. -/
def identifyAll (o : ByteOrder) (role : ℤ) (env : Env) (answers : ℤ → Answers) :
    List ℤ → Option (List (ℤ × Transfer))
  | [] => some []
  | a :: as =>
    if a ∈ env.refused then identifyAll o role env answers as
    else
      (Socket.send (answers a).send (putInt o role) 4).bind fun t =>
        (identifyAll o role env answers as).map fun ts => (a, t) :: ts

/-- The loop that connects the stubs named by `mk`. -/
def connectIo (o : ByteOrder) (mk : ℤ → SocketId) (role : ℤ) (env : Env) (answers : ℤ → Answers)
    (keys : List ℤ) : Option ScoutIo :=
  (identifyAll o role env answers keys).map fun ts =>
    { dropped := (ts.filter fun p => ¬p.2.ok).map Prod.fst
      transfers := ts.map fun p => (mk p.1, p.2) }

/-- `sendPaxosMsg` on the stub of `a` among `stubs`. After a failure both stubs
    of `a` are destroyed; that one has closed its socket, the other, of `others`,
    may be open. A closed descriptor does not work. -/
def sendIo (o : ByteOrder) (mk other : ℤ → SocketId) (stubs others : StdMap ℤ ClientStub)
    (answers : ℤ → Answers) (a : ℤ) (msg : PaxosMsg) : Option ScoutIo :=
  (Socket.send (answers a).send (msg.marshal o) (intOfSize msg.size)).bind fun t =>
    if t.ok then
      if open? stubs a then some { transfers := [(mk a, t)] } else none
    else some
      { alive := false
        transfers := [(mk a, t), (other a, { calls := Socket.destroy (open? others a) })] }

/-- `receivePaxosMsg` on the stub of `a`. -/
def receiveIo (o : ByteOrder) (answers : ℤ → Answers) (a : ℤ) : Option ScoutIo :=
  (Socket.recv (answers a).recv (intOfSize ({} : PaxosMsg).size)).bind fun t =>
    if t.ok then
      ((PaxosMsg.unmarshal o).run t.bytes).map fun p =>
        { inbox := fun _ => [p.1], transfers := [(.acceptor a, t)] }
    else some { alive := false, transfers := [(.acceptor a, t)] }

def scoutIo (o : ByteOrder) (f : LaptopFactory) (env : Env) (answers : ℤ → Answers) :
    ScoutPc → Option ScoutIo
  | .connect _ =>
    if f.scoutAcceptorStubInit then some {}
    else connectIo o .acceptor 2 env answers f.acceptorMap.keys
  | .p1a _ _ (a :: _) =>
    sendIo o .acceptor .learner f.scoutAcceptorStub f.commanderLearnerStub answers a
      (.p1a f.proposalNumber)
  | .p2a _ ph (a :: _) =>
    sendIo o .acceptor .learner f.scoutAcceptorStub f.commanderLearnerStub answers a
      (.p2a f.proposalNumber ph.cmd)
  | .p1b _ _ a _ | .p2b _ _ a _ => receiveIo o answers a
  | .command _ _ =>
    if f.commanderLearnerStubInit then some {}
    else connectIo o .learner 3 env answers f.acceptorMap.keys
  | .learn _ cmd (a :: _) =>
    sendIo o .learner .acceptor f.commanderLearnerStub f.scoutAcceptorStub answers a (.learn cmd)
  | _ => some {}

/-- What the environment decides, given what the system calls return. -/
def ScoutIo.env (io : ScoutIo) (env : Env) : Env :=
  { env with alive := io.alive, dropped := io.dropped }

/-! ### The threads -/

/-- A server. The engineers are numbered in the order in which their connections
    are accepted; until then they take no step. -/
structure Process where
  factory : LaptopFactory
  scout : ScoutPc := .idle
  engineer : ℤ → Engineer := fun _ => {}
  /-- The value of the promise of an engineer. -/
  fut : ℤ → Option LaptopInfo := fun _ => none
  calls : List (SocketId × Syscall) := []

inductive ProcessAction
  /-- The engineer `e` takes a step. -/
  | engineer (e : ℤ) (answers : Answers)
  /-- The Scout takes a step; `answers` are for the stubs of each peer. -/
  | scout (env : Env) (answers : ℤ → Answers)

namespace Process

variable (s : Process)

/-- The state after the engineer `e` has taken a step. A new order has a new promise. -/
def applyEngineer (e : ℤ) (r : EngineerEffect) : Process :=
  { s with
    factory := r.factory
    engineer := Function.update s.engineer e r.engineer
    fut := if r.engineer.pc = .order then Function.update s.fut e none else s.fut
    calls := s.calls ++ r.transfer.calls.map fun c => (.engineer e, c) }

/-- The state after the Scout has taken a step. It sets the promise of the
    engineer that took the order. -/
def applyScout (io : ScoutIo) (r : Effect) : Process :=
  { s with
    factory := r.factory
    scout := r.pc
    fut := match returnedLaptop r.events with
      | none => s.fut
      | some laptop => Function.update s.fut laptop.engineerId (some laptop)
    calls := s.calls ++ io.calls }

def step (o : ByteOrder) (id : ℤ) : ProcessAction → Option Process
  | .engineer e answers =>
    (engineerStep o e s.factory (s.fut e) answers (s.engineer e)).map (s.applyEngineer e)
  | .scout env answers =>
    (scoutIo o s.factory env answers s.scout).bind fun io =>
      (scoutStep id s.factory io.inbox (io.env env) s.scout).map (s.applyScout io)

end Process

/-- The server `i` of a deployment, on a host of order `o`. -/
def process (o : ByteOrder) (D : Deployment) (i : ℤ) : Machine Process ProcessAction where
  init := {{ factory := D.factory i }}
  step s := s.step o i

/-- The branches of a step. -/
inductive ProcessStep (o : ByteOrder) (id : ℤ) (s : Process) : ProcessAction → Process → Prop
  | engineer {e answers r} :
      EngineerStep o e s.factory (s.fut e) answers (s.engineer e) r →
      ProcessStep o id s (.engineer e answers) (s.applyEngineer e r)
  | scout {env answers io r} : scoutIo o s.factory env answers s.scout = some io →
      scoutStep id s.factory io.inbox (io.env env) s.scout = some r →
      ProcessStep o id s (.scout env answers) (s.applyScout io r)

theorem processStep_cases {o : ByteOrder} {id : ℤ} {s s' : Process} {act : ProcessAction}
    (h : s.step o id act = some s') : ProcessStep o id s act s' := by
  cases act with
  | engineer e answers =>
    obtain ⟨r, hr, rfl⟩ := Option.map_eq_some_iff.1 h
    exact .engineer (engineerStep_cases hr)
  | scout env answers =>
    obtain ⟨io, hio, h⟩ := Option.bind_eq_some_iff.1 h
    obtain ⟨r, hr, rfl⟩ := Option.map_eq_some_iff.1 h
    exact .scout hio hr

end LaptopPaxos
