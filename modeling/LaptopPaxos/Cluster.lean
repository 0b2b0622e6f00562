import LaptopPaxos.Lib.Machine
import LaptopPaxos.Lib.Quorum
import LaptopPaxos.Scout

/-!
# The cluster

The servers of a deployment, all configured with the same distinct ids, and
the connections between them. A connection delivers in order. It may break at
any moment: the sender or the receiver then sees a failed call and closes its
end for good, and what is still on the wire is delivered late or never, the
latter by not taking the step. A server may stop (`Action.crash`).

The engineers handle one message in a step; a Scout takes one step of
`scoutStep`. Customers send any requests, and the backup engineers take any log
requests, although no code here sends one.

The history of a run is part of its state, the newest event first.
-/

namespace LaptopPaxos

open LaptopFactory

/-- What the servers are started with. -/
structure Deployment where
  ids : List ℤ
  nodup : ids.Nodup
  addr : ℤ → ServerAddress
  /-- The contents of the uninitialised memory of each server. -/
  indet : ℤ → ℤ

namespace Deployment

variable (D : Deployment)

/-- The acceptors of the cluster. -/
def acceptors : Finset ℤ := D.ids.toFinset

/-- The factory of the server `i` when its threads start. -/
def factory (i : ℤ) : LaptopFactory :=
  configured (D.indet i) i (D.addr i).port ((D.ids.filter (· ≠ i)).map fun j => (j, D.addr j))

end Deployment

structure Server where
  factory : LaptopFactory
  scout : ScoutPc := .idle
  up : Bool := true

/-- The queues of the connections, from the first to the second server. -/
abbrev Wires := ℤ → ℤ → List PaxosMsg

/-- The wires with the queue from `i` to `a` replaced. -/
def Wires.set (w : Wires) (i a : ℤ) (q : List PaxosMsg) : Wires :=
  fun j b => if j = i ∧ b = a then q else w j b

/-- A message put on a wire that starts at `i`. -/
def Wires.push (w : Wires) (i : ℤ) : Option (ℤ × PaxosMsg) → Wires
  | none => w
  | some (a, m) => w.set i a (w i a ++ [m])

/-- The first message of a queue taken off. -/
def Wires.pop (w : Wires) (i : ℤ) : Option ℤ → Wires
  | none => w
  | some a => w.set i a (w i a).tail

structure Cluster where
  server : ℤ → Server
  /-- From the Scouts to the acceptors. -/
  toAcceptor : Wires
  /-- From the acceptors to the Scouts, indexed by the Scout first. -/
  toScout : Wires
  /-- From the Commanders to the learners. -/
  toLearner : Wires
  hist : List Event

inductive Action
  /-- An engineer `e` of the server `i` receives a request of a customer. -/
  | request (i e : ℤ) (r : CustomerRequest)
  /-- A backup engineer of the server `i` receives a log request. -/
  | backup (i : ℤ) (r : LogRequest)
  /-- The Scout of the server `i` takes a step. -/
  | scout (i : ℤ) (env : Env)
  /-- The acceptor `a` handles the next message of the Scout of `i`. -/
  | acceptor (a i : ℤ)
  /-- The learner `a` handles the next message of the Commander of `i`. -/
  | learner (a i : ℤ)
  /-- The server `i` stops. -/
  | crash (i : ℤ)

namespace Cluster

def init (D : Deployment) : Cluster where
  server i := { factory := D.factory i }
  toAcceptor _ _ := []
  toScout _ _ := []
  toLearner _ _ := []
  hist := []

variable (c : Cluster)

def factory (i : ℤ) : LaptopFactory := (c.server i).factory

def scout (i : ℤ) : ScoutPc := (c.server i).scout

def setServer (i : ℤ) (s : Server) : Cluster :=
  { c with server := fun j => if j = i then s else c.server j }

def setFactory (i : ℤ) (f : LaptopFactory) : Cluster :=
  c.setServer i { c.server i with factory := f }

/-- The state after the Scout of `i` has taken a step. -/
def applyEffect (i : ℤ) (e : Effect) : Cluster :=
  { c.setServer i { c.server i with factory := e.factory, scout := e.pc } with
    toAcceptor := c.toAcceptor.push i e.toAcceptor
    toScout := c.toScout.pop i e.received
    toLearner := c.toLearner.push i e.toLearner
    hist := e.events ++ c.hist }

/-- The events of an acceptor's reply to the Scout of `i`. -/
def acceptorEvents (a i : ℤ) (msg : PaxosMsg) : Option PaxosMsg → List Event
  | none => []
  | some reply =>
    if ¬reply.isAgree then []
    else if msg.phase = 1 then [.promised a i msg.proposeNumber]
    else [.accepted a msg.proposeNumber msg.getCommand]

/-- The acceptor `a` handles the message `msg` of the Scout of `i`, leaving `rest`. -/
def acceptMsg (a i : ℤ) (msg : PaxosMsg) (rest : List PaxosMsg) : Cluster :=
  let r := (c.factory a).acceptorEngineer msg
  { c.setFactory a r.1 with
    toAcceptor := c.toAcceptor.set i a rest
    toScout := c.toScout.set i a (c.toScout i a ++ r.2.toList)
    hist := acceptorEvents a i msg r.2 ++ c.hist }

/-- The learner `a` handles the message `msg` of the Commander of `i`, leaving `rest`. -/
def learnMsg (a i : ℤ) (msg : PaxosMsg) (rest : List PaxosMsg) : Cluster :=
  { c.setFactory a ((c.factory a).learnerEngineer msg) with
    toLearner := c.toLearner.set i a rest
    hist := (if msg.phase = 5 then [.learned a msg.getCommand] else []) ++ c.hist }

/-- An engineer `e` of `i` handles a request. -/
def requestMsg (i e : ℤ) (r : CustomerRequest) : Cluster :=
  let res := (c.factory i).customerEngineer e r
  { c.setFactory i res.1 with
    hist := res.2.toList.map (.answered i r) ++ .submitted i r :: c.hist }

/-- The write of a customer record, if any, by the backup engineer. -/
def backupEvents (i : ℤ) (f : LaptopFactory) (r : LogRequest) : List Event :=
  if r.isValid ∧ 0 ≤ r.committedIndex then
    ((f.smrLog ++ [r.op])[r.committedIndex.toNat]?.map fun op =>
      Event.recorded i op.arg1 op.arg2).toList
  else []

/-- A backup engineer of `i` has handled a log request, with the outcome `f`. -/
def backupMsg (i : ℤ) (r : LogRequest) (f : LaptopFactory) : Cluster :=
  { c.setFactory i f with hist := backupEvents i (c.factory i) r ++ c.hist }

/-- One step of the cluster. -/
def step (D : Deployment) : Action → Option Cluster
  | .request i e r => if i ∈ D.ids ∧ (c.server i).up then some (c.requestMsg i e r) else none
  | .backup i r =>
    if i ∈ D.ids ∧ (c.server i).up then
      ((c.factory i).backupEngineer r).map (c.backupMsg i r)
    else none
  | .scout i env =>
    if i ∈ D.ids ∧ (c.server i).up then
      (scoutStep i (c.factory i) (c.toScout i) env (c.scout i)).map (c.applyEffect i)
    else none
  | .acceptor a i =>
    if a ∈ D.ids ∧ (c.server a).up then
      match c.toAcceptor i a with
      | [] => none
      | msg :: rest => some (c.acceptMsg a i msg rest)
    else none
  | .learner a i =>
    if a ∈ D.ids ∧ (c.server a).up then
      match c.toLearner i a with
      | [] => none
      | msg :: rest => some (c.learnMsg a i msg rest)
    else none
  | .crash i => if i ∈ D.ids then some (c.setServer i { c.server i with up := false }) else none

end Cluster

/-- The cluster of a deployment. -/
def cluster (D : Deployment) : Machine Cluster Action where
  init := {Cluster.init D}
  step c := c.step D

/-- The condition `P` on the server whose Scout takes the step, and on the
    Scout's control point. -/
def OnScout (P : Cluster → ℤ → ScoutPc → Prop) (c : Cluster) : Action → Prop
  | .scout i _ => P c i (c.scout i)
  | _ => True

instance (P : Cluster → ℤ → ScoutPc → Prop) [∀ c i pc, Decidable (P c i pc)] (c : Cluster) :
    (act : Action) → Decidable (OnScout P c act)
  | .scout i _ => inferInstanceAs (Decidable (P c i (c.scout i)))
  | .request .. | .backup .. | .acceptor .. | .learner .. | .crash .. => isTrue trivial

theorem OnScout.mono {P Q : Cluster → ℤ → ScoutPc → Prop} (hPQ : ∀ c i pc, P c i pc → Q c i pc)
    {c : Cluster} {act : Action} (h : OnScout P c act) : OnScout Q c act := by
  cases act with
  | scout => exact hPQ _ _ _ h
  | _ => trivial

/-! ### Small runs -/

/-- The servers `1`, …, `n`, all on one machine. -/
def Deployment.numbered (n : ℕ) : Deployment where
  ids := (List.range n).map fun k : ℕ => (k : ℤ) + 1
  nodup := List.nodup_range.map fun j k h => by simpa using h
  addr i := ⟨"127.0.0.1", 8000 + i⟩
  indet _ := 0

/-- A customer orders at the server `i`. -/
def Action.order (i customerId orderNumber : ℤ) : Action :=
  .request i 0 ⟨customerId, orderNumber, 1⟩

/-- The Scout of `i` takes `k` steps without a failure. -/
def Action.scouts (i : ℤ) (k : ℕ) : List Action := List.replicate k (.scout i {})

/-- The Scout of `i` sends a message, the acceptor `a` handles it, and the Scout
    takes the reply. -/
def Action.talk (i a : ℤ) : List Action := [.scout i {}, .acceptor a i, .scout i {}]

/-! ### What the history says -/

/-- The acceptors `Q` have all accepted the command with the number `n`. -/
def AllAccepted (h : List Event) (Q : Finset ℤ) (n : ℤ) (cmd : Command) : Prop :=
  ∀ a ∈ Q, Event.accepted a n cmd ∈ h

/-- A majority of the acceptors has accepted the command with the number `n`. -/
def Chosen (D : Deployment) (h : List Event) (n : ℤ) (cmd : Command) : Prop :=
  ∃ Q, Majority D.acceptors Q ∧ AllAccepted h Q n cmd

end LaptopPaxos
