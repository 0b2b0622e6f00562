import LaptopPaxos.Portability

/-!
# What goes through a connection

A `Parcel` is what one `Send` is given: an integer alone, such as an identity or
the size of a configuration, or a message. Integers are unbounded in this
development and `int`s in the program, so what its memory holds of a parcel,
and what the receiver can get, is the parcel with its integers narrowed to 32
bits (`Parcel.narrow`). Its bytes are the same (`marshal_narrow`).

A parcel that is portable between two hosts is decoded from its own bytes
(`Parcel.decode_marshal`).
-/

namespace LaptopPaxos

open Reader

/-! ### Integers of 32 bits -/

/-- The `int` that stands for `v`. -/
def narrowInt (v : ℤ) : ℤ := (BitVec.ofInt 32 v).toInt

section

variable {o : ByteOrder} {v : ℤ}

theorem isInt_narrowInt (v : ℤ) : IsInt (narrowInt v) := isInt_toInt _

@[simp] theorem ofInt_narrowInt (v : ℤ) : BitVec.ofInt 32 (narrowInt v) = BitVec.ofInt 32 v :=
  BitVec.ofInt_toInt

@[simp] theorem putInt_narrowInt (o : ByteOrder) (v : ℤ) : putInt o (narrowInt v) = putInt o v := by
  rw [putInt, ofInt_narrowInt, ← putInt]

theorem narrowInt_eq_self (h : IsInt v) : narrowInt v = v := h.toInt_ofInt

@[simp] theorem putInts_map_narrowInt (o : ByteOrder) (vs : List ℤ) :
    putInts o (vs.map narrowInt) = putInts o vs := by
  rw [putInts, List.flatMap_map]
  exact congrArg (fun f => vs.flatMap f) (funext (putInt_narrowInt o))

theorem forall_isInt_map (vs : List ℤ) : ∀ v ∈ vs.map narrowInt, IsInt v :=
  List.forall_mem_map.2 fun v _ => isInt_narrowInt v

end

/-! ### Narrow messages -/

def CustomerRequest.narrow (r : CustomerRequest) : CustomerRequest where
  customerId := narrowInt r.customerId
  orderNumber := narrowInt r.orderNumber
  requestType := narrowInt r.requestType

def CustomerRecord.narrow (r : CustomerRecord) : CustomerRecord where
  customerId := narrowInt r.customerId
  lastOrder := narrowInt r.lastOrder

def LaptopInfo.narrow (l : LaptopInfo) : LaptopInfo where
  customerId := narrowInt l.customerId
  orderNumber := narrowInt l.orderNumber
  requestType := narrowInt l.requestType
  engineerId := narrowInt l.engineerId
  adminId := narrowInt l.adminId

def MapOp.narrow (op : MapOp) : MapOp where
  opcode := narrowInt op.opcode
  arg1 := narrowInt op.arg1
  arg2 := narrowInt op.arg2

def LogRequest.narrow (r : LogRequest) : LogRequest where
  factoryId := narrowInt r.factoryId
  committedIndex := narrowInt r.committedIndex
  lastIndex := narrowInt r.lastIndex
  op := r.op.narrow

def LogResponse.narrow (r : LogResponse) : LogResponse where
  factoryId := narrowInt r.factoryId

def ServerInfo.narrow (info : ServerInfo) : ServerInfo :=
  { info with portNumber := narrowInt info.portNumber }

def PaxosMsg.narrow (m : PaxosMsg) : PaxosMsg where
  phase := narrowInt m.phase
  agree := narrowInt m.agree
  proposeNumber := narrowInt m.proposeNumber
  acceptedProposal := narrowInt m.acceptedProposal
  slotNumber := narrowInt m.slotNumber
  commandId := narrowInt m.commandId
  clientIp := m.clientIp
  customerId := narrowInt m.customerId
  orderId := narrowInt m.orderId

namespace Message

variable {o : ByteOrder} {m : Message}

/-- The ids and the ports of a configuration come from the command line as `int`s. -/
def narrow : Message → Message
  | customerRequest r => customerRequest r.narrow
  | customerRecord r => customerRecord r.narrow
  | laptopInfo l => laptopInfo l.narrow
  | mapOp op => mapOp op.narrow
  | logRequest r => logRequest r.narrow
  | logResponse r => logResponse r.narrow
  | serverInfo info => serverInfo info.narrow
  | serverConfig c => serverConfig c
  | paxosMsg m => paxosMsg m.narrow

@[simp] theorem marshal_narrow (o : ByteOrder) (m : Message) :
    m.narrow.marshal o = m.marshal o := by
  cases m with
  | customerRequest r => exact putInts_map_narrowInt o r.ints
  | customerRecord r => exact putInts_map_narrowInt o r.ints
  | laptopInfo l => exact putInts_map_narrowInt o l.ints
  | mapOp op => exact putInts_map_narrowInt o op.ints
  | logRequest r =>
    have hhead := putInts_map_narrowInt o [r.factoryId, r.committedIndex, r.lastIndex]
    have hop := putInts_map_narrowInt o r.op.ints
    change putInts o ([_, _, _].map narrowInt) ++ putInts o (r.op.ints.map narrowInt) = _
    rw [hhead, hop]
    rfl
  | logResponse r => exact putInts_map_narrowInt o r.ints
  | serverInfo info =>
    change (ServerInfo.narrow info).marshal o = info.marshal o
    rw [ServerInfo.marshal, ServerInfo.marshal, ServerInfo.narrow, ofInt_narrowInt]
    rfl
  | serverConfig c => rfl
  | paxosMsg m =>
    have hhead := putInts_map_narrowInt o
      [m.phase, m.agree, m.proposeNumber, m.acceptedProposal, m.slotNumber, m.commandId]
    have hlast := putInts_map_narrowInt o [m.customerId, m.orderId]
    change putInts o ([_, _, _, _, _, _].map narrowInt) ++ _ ++ _ ++
      putInts o ([_, _].map narrowInt) = _
    rw [hhead, hlast]
    rfl

end Message

/-! ### Parcels -/

/-- What one `Send` is given. -/
inductive Parcel
  | word (v : ℤ)
  | message (m : Message)
  deriving DecidableEq

namespace Parcel

/-- What one receive makes of the bytes. -/
inductive Kind
  | word
  | message (k : Message.Kind)
  deriving DecidableEq, Repr

def kind : Parcel → Kind
  | word _ => .word
  | message m => .message m.kind

def size : Parcel → ℕ
  | word _ => 4
  | message m => m.size

def marshal (o : ByteOrder) : Parcel → List UInt8
  | word v => putInt o v
  | message m => m.marshal o

/-- The parcel with its integers as they are in memory. -/
def narrow : Parcel → Parcel
  | word v => word (narrowInt v)
  | message m => message m.narrow

def decode (o : ByteOrder) : Kind → List UInt8 → Option Parcel
  | .word, bs => ((readInt o).run bs).map fun p => word p.1
  | .message k, bs => (Message.decode o k bs).map message

/-- The values of the fields are values of their types. -/
def Fits : Parcel → Prop
  | word v => IsInt v
  | message m => m.Fits ∧ m.IsNulFree

/-- A host of order `r` can read the parcel from a host of order `s`. -/
def Portable (s r : ByteOrder) : Parcel → Prop
  | word _ => True
  | message m => m.Portable s r

variable {s r o : ByteOrder} {p : Parcel}

@[simp] theorem marshal_narrow (o : ByteOrder) (p : Parcel) : p.narrow.marshal o = p.marshal o := by
  cases p with
  | word v => exact putInt_narrowInt o v
  | message m => exact Message.marshal_narrow o m

theorem length_marshal (h : p.size < 2147483648) : (p.marshal o).length = p.size := by
  cases p with
  | word v => exact length_putInt o v
  | message m => exact Message.length_marshal h

/-- A parcel is decoded from its own bytes. -/
theorem decode_marshal (hf : p.Fits) (hp : p.Portable s r) :
    decode r p.kind (p.marshal s) = some p := by
  cases p with
  | word v =>
    have hrun : (readInt r).run (putInt s v ++ []) = some (v, []) := run_readInt_putInt hf []
    rw [List.append_nil] at hrun
    change ((readInt r).run (putInt s v)).map _ = _
    rw [hrun]
    rfl
  | message m =>
    have hrun := (Message.portable_iff hf.1 hf.2).2 hp
    change (Message.decode r m.kind (m.marshal s)).map message = _
    rw [hrun]
    rfl

end Parcel

end LaptopPaxos
