import Mathlib.Data.Int.Notation
import Mathlib.Data.Nat.Notation

/-!
# Messages

The values that customers, engineers and Scouts exchange. A default-constructed
value is the one its class declares, which is also what a failed receive hands
to its caller; the slot of a `Command` is the one field the source leaves
uninitialised, so that its constructors take the contents of that memory.

The `int`s of the source are integers here: nothing below depends on their
width.
-/

namespace LaptopPaxos

/-- What a customer asks an engineer for: type 1 is an order, type 2 asks for the record. -/
structure CustomerRequest where
  customerId : ℤ := -1
  orderNumber : ℤ := -1
  requestType : ℤ := -1
  deriving DecidableEq, Repr

def CustomerRequest.isValid (r : CustomerRequest) : Prop := r.customerId ≠ -1

instance (r : CustomerRequest) : Decidable r.isValid := inferInstanceAs (Decidable (_ ≠ _))

/-- The last order of a customer. -/
structure CustomerRecord where
  customerId : ℤ := -1
  lastOrder : ℤ := -1
  deriving DecidableEq, Repr

/-- A laptop, from the order to the delivery. -/
structure LaptopInfo where
  customerId : ℤ := -1
  orderNumber : ℤ := -1
  requestType : ℤ := -1
  engineerId : ℤ := -1
  adminId : ℤ := -1
  deriving DecidableEq, Repr

def LaptopInfo.copyOrder (laptop : LaptopInfo) (order : CustomerRequest) : LaptopInfo :=
  { laptop with
    customerId := order.customerId
    orderNumber := order.orderNumber
    requestType := order.requestType }

/-- The pair that identifies an order. -/
def LaptopInfo.order (laptop : LaptopInfo) : ℤ × ℤ := (laptop.customerId, laptop.orderNumber)

/-- An operation on the map of customer records. -/
structure MapOp where
  opcode : ℤ := -1
  arg1 : ℤ := -1
  arg2 : ℤ := -1
  deriving DecidableEq, Repr

/-- What a peer sends to the backup (IFA) engineer. -/
structure LogRequest where
  factoryId : ℤ := -1
  committedIndex : ℤ := -1
  lastIndex : ℤ := -1
  op : MapOp := {}
  deriving DecidableEq, Repr

def LogRequest.isValid (r : LogRequest) : Prop := r.factoryId ≠ -1

instance (r : LogRequest) : Decidable r.isValid := inferInstanceAs (Decidable (_ ≠ _))

/-- The answer of the backup engineer. -/
structure LogResponse where
  factoryId : ℤ := -1
  deriving DecidableEq, Repr

/-- The address of a server, as the customers get it. -/
structure ServerInfo where
  ipAddress : String
  portNumber : ℤ
  deriving DecidableEq, Repr

/-- The contents that every replica is going to back up. -/
structure Command where
  slot : ℤ
  commandId : ℤ := -1
  clientIp : String := "000.000.000.000"
  customerId : ℤ := -1
  orderId : ℤ := -1
  deriving DecidableEq, Repr

/-- `Command(laptop)`; the slot is whatever the memory holds. -/
def Command.ofLaptop (indet : ℤ) (laptop : LaptopInfo) : Command where
  slot := indet
  customerId := laptop.customerId
  orderId := laptop.orderNumber

/-- The pair of the order that a command carries. -/
def Command.order (c : Command) : ℤ × ℤ := (c.customerId, c.orderId)

@[simp] theorem Command.order_ofLaptop (indet : ℤ) (laptop : LaptopInfo) :
    (Command.ofLaptop indet laptop).order = laptop.order := rfl

/-- The message of all Paxos phases: `1` for p1a, `2` for p1b, `3` for p2a, `4`
    for p2b and `5` for learn; `agree` is `1` for agree and `0` for reject. -/
structure PaxosMsg where
  phase : ℤ := -1
  agree : ℤ := 0
  proposeNumber : ℤ := -1
  acceptedProposal : ℤ := -1
  slotNumber : ℤ := -1
  commandId : ℤ := -1
  clientIp : String := "000.000.000.000"
  customerId : ℤ := -1
  orderId : ℤ := -1
  deriving DecidableEq, Repr

namespace PaxosMsg

/-- `PaxosMsg(phase)`. -/
def ofPhase (phase : ℤ) : PaxosMsg := { phase := phase }

/-- `isAgree()` returns the field itself, which the callers test. -/
def isAgree (m : PaxosMsg) : Prop := m.agree ≠ 0

instance (m : PaxosMsg) : Decidable m.isAgree := inferInstanceAs (Decidable (_ ≠ _))

def setCommand (m : PaxosMsg) (cmd : Command) : PaxosMsg :=
  { m with
    slotNumber := cmd.slot
    commandId := cmd.commandId
    clientIp := cmd.clientIp
    customerId := cmd.customerId
    orderId := cmd.orderId }

def getCommand (m : PaxosMsg) : Command where
  slot := m.slotNumber
  commandId := m.commandId
  clientIp := m.clientIp
  customerId := m.customerId
  orderId := m.orderId

/-- A command survives the copy into a message and back. -/
@[simp] theorem getCommand_setCommand (m : PaxosMsg) (cmd : Command) :
    (m.setCommand cmd).getCommand = cmd := rfl

@[simp] theorem setCommand_phase (m : PaxosMsg) (cmd : Command) :
    (m.setCommand cmd).phase = m.phase := rfl

@[simp] theorem setCommand_agree (m : PaxosMsg) (cmd : Command) :
    (m.setCommand cmd).agree = m.agree := rfl

@[simp] theorem setCommand_acceptedProposal (m : PaxosMsg) (cmd : Command) :
    (m.setCommand cmd).acceptedProposal = m.acceptedProposal := rfl

@[simp] theorem setCommand_proposeNumber (m : PaxosMsg) (cmd : Command) :
    (m.setCommand cmd).proposeNumber = m.proposeNumber := rfl

/-- The message a Scout sends in the prepare phase. -/
def p1a (n : ℤ) : PaxosMsg := { ofPhase 1 with proposeNumber := n }

/-- The message a Scout sends in the accept phase. -/
def p2a (n : ℤ) (cmd : Command) : PaxosMsg :=
  { (ofPhase 3).setCommand cmd with proposeNumber := n }

/-- The message a Commander sends to the learners. -/
def learn (cmd : Command) : PaxosMsg := (ofPhase 5).setCommand cmd

section

variable (n : ℤ) (cmd : Command)

@[simp] theorem p1a_phase : (p1a n).phase = 1 := rfl

@[simp] theorem p1a_proposeNumber : (p1a n).proposeNumber = n := rfl

@[simp] theorem p2a_phase : (p2a n cmd).phase = 3 := rfl

@[simp] theorem p2a_proposeNumber : (p2a n cmd).proposeNumber = n := rfl

@[simp] theorem getCommand_p2a : (p2a n cmd).getCommand = cmd := rfl

@[simp] theorem learn_phase : (learn cmd).phase = 5 := rfl

@[simp] theorem getCommand_learn : (learn cmd).getCommand = cmd := rfl

end

end PaxosMsg

end LaptopPaxos
