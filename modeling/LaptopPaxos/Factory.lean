import LaptopPaxos.Lib.StdMap
import LaptopPaxos.Utilities

/-!
# The laptop factory

The shared state of a server and what its engineers do with it. An engineer is
a thread that serves one connection; its identity says for whom:

* `customerEngineer` (identity 0) takes the requests of a customer, putting
  orders on the queue of the Scout and answering queries from the customer
  records;
* `backupEngineer` (identity 1) takes the log requests of a peer;
* `acceptorEngineer` (identity 2) answers the p1a and p2a messages of a Scout;
* `learnerEngineer` (identity 3) takes the learn messages of a Commander.

Each definition is the handling of one message. The map of acceptors is filled
before the threads start (`configured`).
-/

namespace LaptopPaxos

structure ServerAddress where
  ip : String
  port : ℤ
  deriving DecidableEq, Repr

/-- An order on the queue, and the engineer who waits for its promise. -/
structure ClientRequest where
  laptop : LaptopInfo
  prom : ℤ
  deriving DecidableEq, Repr

/-- The end of a connection to an engineer. A failed send or receive closes the
    socket, which clears the flag; from then on every use of it fails. -/
structure ClientStub where
  isInitialized : Bool
  deriving DecidableEq, Repr

structure ServerConfig where
  servers : StdMap ℤ ServerInfo := .empty
  deriving DecidableEq

def ServerConfig.setServer (c : ServerConfig) (serverId : ℤ) (info : ServerInfo) : ServerConfig :=
  ⟨c.servers.insertNew serverId info⟩

/-- The state that the threads of a server share, and its local log file. -/
structure LaptopFactory where
  /-- Queue of customer requests. -/
  erq : List ClientRequest := []
  customerRecord : StdMap ℤ ℤ := .empty
  acceptorMap : StdMap ℤ ServerAddress := .empty
  scoutAcceptorStubInit : Bool := false
  commanderLearnerStubInit : Bool := false
  scoutAcceptorStub : StdMap ℤ ClientStub := .empty
  commanderLearnerStub : StdMap ℤ ClientStub := .empty
  smrLog : List MapOp := []
  lastIndex : ℤ := -1
  committedIndex : ℤ := -1
  factoryId : ℤ
  numOfAcceptors : ℕ := 0
  proposalNumber : ℤ := 0
  promisedProposalNumber : ℤ := -1
  acceptedProposalNumber : ℤ := -1
  acceptedValue : Command
  /-- The next slot to propose for. -/
  slotIn : ℤ := 1
  /-- The next slot to commit. -/
  slotOut : ℤ := 1
  decisionMap : StdMap ℤ Command := .empty
  serverConfig : ServerConfig := {}
  /-- The contents of the factory log. -/
  log : String := ""
  deriving DecidableEq

namespace LaptopFactory

/-! ### Start-up -/

def addAcceptor (f : LaptopFactory) (id : ℤ) (addr : ServerAddress) : LaptopFactory :=
  { f with
    acceptorMap := f.acceptorMap.insert id addr
    serverConfig := f.serverConfig.setServer id ⟨addr.ip, addr.port⟩
    numOfAcceptors := f.numOfAcceptors + 1 }

/-- The factory of the server `id` once `main` has added the server itself and
    its peers and the Scout has started; `indet` is the contents of the memory
    of the uninitialised slot of `acceptedValue`. -/
def configured (indet id port : ℤ) (peers : List (ℤ × ServerAddress)) : LaptopFactory :=
  peers.foldl (fun f peer => f.addAcceptor peer.1 peer.2)
    (addAcceptor { factoryId := id, acceptedValue := { slot := indet } } id ⟨"127.0.0.1", port⟩)

/-! ### Customers -/

/-- An order goes on the queue; the engineer then waits for the Scout. -/
def createRegularLaptop (f : LaptopFactory) (order : CustomerRequest) (engineerId : ℤ) :
    LaptopFactory :=
  let laptop : LaptopInfo :=
    { ({} : LaptopInfo).copyOrder order with engineerId := engineerId, adminId := -1 }
  { f with erq := f.erq ++ [⟨laptop, engineerId⟩] }

def createCustomerRecord (f : LaptopFactory) (request : CustomerRequest) : CustomerRecord :=
  match f.customerRecord.find? request.customerId with
  | some lastOrder => ⟨request.customerId, lastOrder⟩
  | none => ⟨-1, -1⟩

/-- One request of a customer, with the record returned, if any. -/
def customerEngineer (f : LaptopFactory) (id : ℤ) (request : CustomerRequest) :
    LaptopFactory × Option CustomerRecord :=
  if ¬request.isValid then (f, none)
  else if request.requestType = 1 then (f.createRegularLaptop request id, none)
  else if request.requestType = 2 then (f, some (f.createCustomerRecord request))
  else (f, none)

/-! ### Backups -/

/-- One log request of a peer. There is no result when the committed index is
    beyond the log: the source then reads outside of it. -/
def backupEngineer (f : LaptopFactory) (logReq : LogRequest) : Option LaptopFactory :=
  if ¬logReq.isValid then some f
  else
    let f := { f with
      smrLog := f.smrLog ++ [logReq.op]
      lastIndex := logReq.lastIndex
      committedIndex := logReq.committedIndex }
    if 0 ≤ f.committedIndex then
      f.smrLog[f.committedIndex.toNat]?.map fun toApply =>
        { f with customerRecord := f.customerRecord.insert toApply.arg1 toApply.arg2 }
    else some f

/-! ### Acceptors -/

/-- One p1a or p2a message, with the p1b or p2b message sent back, if any. -/
def acceptorEngineer (f : LaptopFactory) (msg : PaxosMsg) : LaptopFactory × Option PaxosMsg :=
  if msg.phase = 1 then
    if f.promisedProposalNumber < msg.proposeNumber then
      let p1bMsg := { PaxosMsg.ofPhase 2 with agree := 1 }
      let f := { f with promisedProposalNumber := msg.proposeNumber }
      -- an accepted value goes with the promise
      if f.acceptedProposalNumber ≠ -1 then
        (f, some ({ p1bMsg with acceptedProposal := f.acceptedProposalNumber }.setCommand
          f.acceptedValue))
      else (f, some p1bMsg)
    else
      (f, some { PaxosMsg.ofPhase 2 with agree := 0, proposeNumber := f.promisedProposalNumber })
  else if msg.phase = 3 then
    if msg.proposeNumber = f.promisedProposalNumber then
      ({ f with acceptedProposalNumber := msg.proposeNumber, acceptedValue := msg.getCommand },
        some { PaxosMsg.ofPhase 4 with agree := 1 })
    else (f, some { PaxosMsg.ofPhase 4 with agree := 0 })
  else (f, none)

/-! ### Learners -/

/-- The loop of `learn`: every slot from `slotOut` on that is decided is
    logged, each line with the fields of `cmd`. At most `n` turns. -/
def commitDecided (cmd : Command) : ℕ → LaptopFactory → LaptopFactory
  | 0, f => f
  | n + 1, f =>
    if f.slotOut ∈ f.decisionMap then
      commitDecided cmd n { f with
        log := saveCommandToFile f.slotOut cmd f.log
        slotOut := f.slotOut + 1 }
    else f

/-- Store a decision, and commit the slots that have become ready. The loop
    turns at most once for each decision (`learn_spec`). -/
def learn (f : LaptopFactory) (cmd : Command) : LaptopFactory :=
  let f := { f with decisionMap := f.decisionMap.insert cmd.slot cmd }
  commitDecided cmd f.decisionMap.size f

/-- One message of a Commander. -/
def learnerEngineer (f : LaptopFactory) (msg : PaxosMsg) : LaptopFactory :=
  if msg.phase = 5 then f.learn msg.getCommand else f

end LaptopFactory

end LaptopPaxos
