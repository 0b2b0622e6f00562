import LaptopPaxos.Factory

/-!
# The Scout

The thread that proposes: `ScoutThread` takes the orders off the queue, one at
a time, and runs `ScoutBrocasting` on each, which calls `AcceptPhaseBrocasting`
and `CommanderBrocasting`. It blocks on the network in the middle of its loops,
so it is a component that reacts to its environment: a control point
(`ScoutPc`) holds the local variables in scope, and `scoutStep` takes the
thread from one control point to the next, with at most one send or receive in
between. What the environment decides in a step is in `Env`.

A loop over the stubs visits the ids that its iterator has not passed yet, in
ascending order; only the element under the iterator is ever erased.

Every step also tells its `Event`s. They, and the field `promises` of the
locals, are a history: no step reads them.
-/

namespace LaptopPaxos

/-- A promise the Scout has counted: who gave it for which number, and the
    accepted proposal that came with it. -/
structure Promise where
  acceptor : ℤ
  number : ℤ
  acceptedProposal : ℤ
  command : Command
  deriving DecidableEq, Repr

/-- The locals of `ScoutBrocasting` from `start_proposalNum_compete` on. -/
structure Prepare where
  promisedNum : ℕ := 0
  highestProposlNum : ℤ := -1
  cmd : Command
  acceptorAcceptedProposal : ℤ := -1
  activeAcceptor : ℕ := 0
  /-- History: the promises counted in `promisedNum`. -/
  promises : List Promise := []
  deriving DecidableEq, Repr

/-- The locals of `AcceptPhaseBrocasting`, and whether the command is the
    Scout's own. -/
structure Accept where
  cmd : Command
  own : Bool
  acceptNumber : ℕ := 0
  activeAcceptors : ℕ := 0
  deriving DecidableEq, Repr

/-- The control points of the Scout, with the order it works on. -/
inductive ScoutPc
  /-- Waiting for an order. -/
  | idle
  /-- At the start of `ScoutBrocasting`. -/
  | connect (laptop : LaptopInfo)
  /-- At the head of the p1a loop, with the acceptors still to visit. -/
  | p1a (laptop : LaptopInfo) (l : Prepare) (iter : List ℤ)
  /-- Waiting for the p1b message of the acceptor `a`. -/
  | p1b (laptop : LaptopInfo) (l : Prepare) (a : ℤ) (iter : List ℤ)
  /-- Out of the prepare loop, about to choose what to propose. -/
  | propose (laptop : LaptopInfo) (l : Prepare)
  /-- About to pick a slot for its own command. -/
  | pickSlot (laptop : LaptopInfo) (l : Prepare)
  /-- At the head of the p2a loop. -/
  | p2a (laptop : LaptopInfo) (ph : Accept) (iter : List ℤ)
  /-- Waiting for the p2b message of the acceptor `a`. -/
  | p2b (laptop : LaptopInfo) (ph : Accept) (a : ℤ) (iter : List ℤ)
  /-- At the start of `CommanderBrocasting`. -/
  | command (laptop : LaptopInfo) (cmd : Command)
  /-- At the head of the learn loop. -/
  | learn (laptop : LaptopInfo) (cmd : Command) (iter : List ℤ)
  /-- At the update of the customer record. -/
  | record (laptop : LaptopInfo)
  deriving DecidableEq

/-- What happened, for the history of a run. The first argument is the server. -/
inductive Event
  /-- A customer's request reached an engineer of `i`. -/
  | submitted (i : ℤ) (request : CustomerRequest)
  /-- An engineer of `i` answered a query. -/
  | answered (i : ℤ) (request : CustomerRequest) (record : CustomerRecord)
  /-- The Scout of `i` sent a p1a message to `a`. -/
  | p1aSent (i a n : ℤ)
  /-- The acceptor `a` agreed to a p1a message of `i`. -/
  | promised (a i n : ℤ)
  /-- The Scout of `i` had too few promises for `n`. -/
  | roundFailed (i n : ℤ)
  /-- `generateCommandID` produced an id at `i`. -/
  | generated (i id : ℤ)
  /-- The Scout of `i` enters its accept phase, after the prepare phase `l`. -/
  | proposed (i n : ℤ) (cmd : Command) (own : Bool) (l : Prepare)
  /-- The Scout of `i` sent a p2a message to `a`. -/
  | p2aSent (i a n : ℤ) (cmd : Command) (own : Bool)
  /-- The acceptor `a` accepted a command. -/
  | accepted (a n : ℤ) (cmd : Command)
  /-- `Learn` was called at `a`. -/
  | learned (a : ℤ) (cmd : Command)
  /-- The customer record of `i` was written. -/
  | recorded (i customerId orderId : ℤ)
  /-- `ScoutBrocasting` returned at `i`; the customer gets the laptop. -/
  | returned (i : ℤ) (laptop : LaptopInfo) (result : ℤ)
  deriving DecidableEq

/-- What the environment decides in a step of the Scout. -/
structure Env where
  /-- Whether the send or the receive succeeds. -/
  alive : Bool := true
  /-- The peers that refuse a connection. -/
  refused : List ℤ := []
  /-- The peers whose connection breaks before the identity is sent. -/
  dropped : List ℤ := []
  /-- The contents of uninitialised memory. -/
  indet : ℤ := 0
  /-- The clock, in microseconds. -/
  clock : ℤ := 0
  deriving DecidableEq

/-- The outcome of a step of the Scout. -/
structure Effect where
  factory : LaptopFactory
  pc : ScoutPc
  /-- The message put on the wire to an acceptor. -/
  toAcceptor : Option (ℤ × PaxosMsg) := none
  /-- The acceptor whose reply was taken off the wire. -/
  received : Option ℤ := none
  /-- The message put on the wire to a learner. -/
  toLearner : Option (ℤ × PaxosMsg) := none
  events : List Event := []

namespace LaptopFactory

variable (f : LaptopFactory)

/-- The loop that connects to every acceptor and sends the identity. -/
def connectStubs (stubs : StdMap ℤ ClientStub) (env : Env) : StdMap ℤ ClientStub :=
  f.acceptorMap.keys.foldl (fun stubs a =>
    if a ∈ env.refused then stubs.erase a else stubs.insert a ⟨a ∉ env.dropped⟩) stubs

/-- Whether the stub of `a` is there and its socket open. -/
def open? (stubs : StdMap ℤ ClientStub) (a : ℤ) : Prop := stubs.find? a = some ⟨true⟩

instance (stubs : StdMap ℤ ClientStub) (a : ℤ) : Decidable (open? stubs a) :=
  inferInstanceAs (Decidable (_ = _))

/-- A failed send erases the stubs of `a` from both maps. -/
def eraseStubs (a : ℤ) : LaptopFactory :=
  { f with
    scoutAcceptorStub := f.scoutAcceptorStub.erase a
    commanderLearnerStub := f.commanderLearnerStub.erase a }

/-- A failed receive leaves the stub of `a` in its map, with a closed socket. -/
def closeScoutStub (a : ℤ) : LaptopFactory :=
  { f with scoutAcceptorStub := f.scoutAcceptorStub.insert a ⟨false⟩ }

end LaptopFactory

open LaptopFactory

/-! ### Prepare phase -/

/-- Count one p1b message; `a` and `n` say whose it is and for which number. -/
def Prepare.receive (l : Prepare) (a n : ℤ) (p1bMsg : PaxosMsg) : Prepare :=
  let l := { l with highestProposlNum := max l.highestProposlNum p1bMsg.proposeNumber }
  if p1bMsg.isAgree then
    let l := { l with
      promisedNum := l.promisedNum + 1
      promises := ⟨a, n, p1bMsg.acceptedProposal, p1bMsg.getCommand⟩ :: l.promises }
    if l.acceptorAcceptedProposal < p1bMsg.acceptedProposal then
      { l with acceptorAcceptedProposal := p1bMsg.acceptedProposal, cmd := p1bMsg.getCommand }
    else l
  else l

/-- The label `start_proposalNum_compete`. -/
def startProposalNumCompete (f : LaptopFactory) (laptop : LaptopInfo) (env : Env) : ScoutPc :=
  .p1a laptop { cmd := { slot := env.indet } } f.scoutAcceptorStub.keys

/-- The end of `ScoutBrocasting` and of the turn of `ScoutThread`. -/
def scoutReturn (id : ℤ) (f : LaptopFactory) (laptop : LaptopInfo) (paxosSignal : ℤ) : Effect :=
  let laptop := { laptop with adminId := if paxosSignal = 0 then -5 else id }
  { factory := f, pc := .idle, events := [.returned id laptop paxosSignal] }

def scoutConnect (f : LaptopFactory) (laptop : LaptopInfo) (env : Env) : Effect :=
  let f :=
    if f.scoutAcceptorStubInit then f
    else { f with
      scoutAcceptorStub := f.connectStubs f.scoutAcceptorStub env
      scoutAcceptorStubInit := true }
  let f := { f with
    smrLog := f.smrLog ++ [⟨1, laptop.customerId, laptop.orderNumber⟩]
    lastIndex := f.smrLog.length }
  { factory := f, pc := startProposalNumCompete f laptop env }

def sendP1a (id : ℤ) (f : LaptopFactory) (laptop : LaptopInfo) (l : Prepare) (a : ℤ)
    (iter : List ℤ) (env : Env) : Effect :=
  if env.alive ∧ open? f.scoutAcceptorStub a then
    { factory := f
      pc := .p1b laptop { l with activeAcceptor := l.activeAcceptor + 1 } a iter
      toAcceptor := some (a, .p1a f.proposalNumber)
      events := [.p1aSent id a f.proposalNumber] }
  else { factory := f.eraseStubs a, pc := .p1a laptop l iter }

def receiveP1b (f : LaptopFactory) (laptop : LaptopInfo) (l : Prepare) (a : ℤ) (iter : List ℤ)
    (inbox : List PaxosMsg) (env : Env) : Option Effect :=
  if env.alive then
    inbox.head?.map fun p1bMsg =>
      { factory := f
        pc := .p1a laptop (l.receive a f.proposalNumber p1bMsg) iter
        received := some a }
  else
    -- the receive failed: the message is the default one
    some { factory := f.closeScoutStub a
           pc := .p1a laptop (l.receive a f.proposalNumber {}) iter }

/-- After the p1a loop: give up, try a larger number, or go on. -/
def endRound (id : ℤ) (f : LaptopFactory) (laptop : LaptopInfo) (l : Prepare) : Effect :=
  if l.activeAcceptor ≤ f.numOfAcceptors / 2 then scoutReturn id f laptop 0
  else if l.promisedNum ≤ f.numOfAcceptors / 2 then
    { factory := { f with proposalNumber := l.highestProposlNum + 1 }
      pc := .p1a laptop l f.scoutAcceptorStub.keys
      events := [.roundFailed id f.proposalNumber] }
  else { factory := f, pc := .propose laptop l }

/-- Propose its own command or the one received from the acceptors. -/
def chooseCommand (id : ℤ) (f : LaptopFactory) (laptop : LaptopInfo) (l : Prepare) : Effect :=
  if l.acceptorAcceptedProposal = -1 ∨ l.cmd.slot ∈ f.decisionMap then
    { factory := f, pc := .pickSlot laptop l }
  else
    { factory := f
      pc := .p2a laptop { cmd := l.cmd, own := false } f.scoutAcceptorStub.keys
      events := [.proposed id f.proposalNumber l.cmd false l] }

/-- The command a Scout makes of an order, for the slot it picks. -/
def selfCommand (f : LaptopFactory) (laptop : LaptopInfo) (env : Env) : Command :=
  { Command.ofLaptop env.indet laptop with
    slot := f.decisionMap.firstFree f.slotIn
    commandId := generateCommandID f.factoryId env.clock }

def pickSlot (id : ℤ) (f : LaptopFactory) (laptop : LaptopInfo) (l : Prepare) (env : Env) :
    Effect :=
  let cmd := selfCommand f laptop env
  { factory := { f with slotIn := f.decisionMap.firstFree f.slotIn }
    pc := .p2a laptop { cmd := cmd, own := true } f.scoutAcceptorStub.keys
    events := [.proposed id f.proposalNumber cmd true l, .generated id cmd.commandId] }

/-! ### Accept phase -/

def sendP2a (id : ℤ) (f : LaptopFactory) (laptop : LaptopInfo) (ph : Accept) (a : ℤ)
    (iter : List ℤ) (env : Env) : Effect :=
  if env.alive ∧ open? f.scoutAcceptorStub a then
    { factory := f
      pc := .p2b laptop { ph with activeAcceptors := ph.activeAcceptors + 1 } a iter
      toAcceptor := some (a, .p2a f.proposalNumber ph.cmd)
      events := [.p2aSent id a f.proposalNumber ph.cmd ph.own] }
  else { factory := f.eraseStubs a, pc := .p2a laptop ph iter }

def Accept.receive (ph : Accept) (p2bMsg : PaxosMsg) : Accept :=
  if p2bMsg.isAgree then { ph with acceptNumber := ph.acceptNumber + 1 } else ph

def receiveP2b (f : LaptopFactory) (laptop : LaptopInfo) (ph : Accept) (a : ℤ) (iter : List ℤ)
    (inbox : List PaxosMsg) (env : Env) : Option Effect :=
  if env.alive then
    inbox.head?.map fun p2bMsg =>
      { factory := f, pc := .p2a laptop (ph.receive p2bMsg) iter, received := some a }
  else
    some { factory := f.closeScoutStub a, pc := .p2a laptop (ph.receive {}) iter }

/-- The result of `AcceptPhaseBrocasting`: `1` accept, `0` full reject, `-1`
    part reject, `-2` too few active acceptors. -/
def acceptResult (f : LaptopFactory) (ph : Accept) : ℤ :=
  if ph.activeAcceptors ≤ f.numOfAcceptors / 2 then -2
  else if ph.acceptNumber = 0 then 0
  else if ph.acceptNumber ≤ f.numOfAcceptors / 2 then -1
  else 1

/-- What `ScoutBrocasting` does with the result for its own command. -/
def endOwnAccept (f : LaptopFactory) (laptop : LaptopInfo) (ph : Accept) (env : Env) : Effect :=
  let res := acceptResult f ph
  if res = 1 then { factory := f, pc := .command laptop ph.cmd }
  else if res = 0 then { factory := f, pc := startProposalNumCompete f laptop env }
  else { factory := f, pc := .record laptop }

/-- What `ScoutBrocasting` does with the result for a command of the system. -/
def endOtherAccept (id : ℤ) (f : LaptopFactory) (laptop : LaptopInfo) (ph : Accept) (env : Env) :
    Effect :=
  let res := acceptResult f ph
  if res = 1 then { factory := f, pc := .command laptop ph.cmd }
  else if res = 0 ∨ res = -1 then { factory := f, pc := startProposalNumCompete f laptop env }
  else if res = -2 then scoutReturn id f laptop 0
  else { factory := f, pc := .record laptop }

/-! ### Learn phase -/

def commanderConnect (f : LaptopFactory) (laptop : LaptopInfo) (cmd : Command) (env : Env) :
    Effect :=
  let f :=
    if f.commanderLearnerStubInit then f
    else { f with
      commanderLearnerStub := f.connectStubs f.commanderLearnerStub env
      commanderLearnerStubInit := true }
  { factory := f, pc := .learn laptop cmd f.commanderLearnerStub.keys }

def sendLearn (f : LaptopFactory) (laptop : LaptopInfo) (cmd : Command) (a : ℤ) (iter : List ℤ)
    (env : Env) : Effect :=
  if env.alive ∧ open? f.commanderLearnerStub a then
    { factory := f, pc := .learn laptop cmd iter, toLearner := some (a, .learn cmd) }
  else { factory := f.eraseStubs a, pc := .learn laptop cmd iter }

def recordOrder (id : ℤ) (f : LaptopFactory) (laptop : LaptopInfo) : Effect :=
  let f := { f with
    customerRecord := f.customerRecord.insert laptop.customerId laptop.orderNumber }
  let e := scoutReturn id f laptop 1
  { e with events := e.events ++ [.recorded id laptop.customerId laptop.orderNumber] }

/-! ### Steps -/

/-- One step of the Scout of the server `id`; `inbox a` is what has arrived
    from the acceptor `a`. There is none while the Scout waits. -/
def scoutStep (id : ℤ) (f : LaptopFactory) (inbox : ℤ → List PaxosMsg) (env : Env) :
    ScoutPc → Option Effect
  | .idle =>
    match f.erq with
    | [] => none
    | req :: erq => some { factory := { f with erq := erq }, pc := .connect req.laptop }
  | .connect laptop => some (scoutConnect f laptop env)
  | .p1a laptop l (a :: iter) => some (sendP1a id f laptop l a iter env)
  | .p1b laptop l a iter => receiveP1b f laptop l a iter (inbox a) env
  | .p1a laptop l [] => some (endRound id f laptop l)
  | .propose laptop l => some (chooseCommand id f laptop l)
  | .pickSlot laptop l => some (pickSlot id f laptop l env)
  | .p2a laptop ph (a :: iter) => some (sendP2a id f laptop ph a iter env)
  | .p2b laptop ph a iter => receiveP2b f laptop ph a iter (inbox a) env
  | .p2a laptop ph [] =>
    some (if ph.own then endOwnAccept f laptop ph env else endOtherAccept id f laptop ph env)
  | .command laptop cmd => some (commanderConnect f laptop cmd env)
  | .learn laptop cmd (a :: iter) => some (sendLearn f laptop cmd a iter env)
  | .learn laptop _ [] => some { factory := f, pc := .record laptop }
  | .record laptop => some (recordOrder id f laptop)

end LaptopPaxos
