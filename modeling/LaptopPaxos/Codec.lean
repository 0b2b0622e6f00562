import LaptopPaxos.Factory
import LaptopPaxos.Lib.Bytes

/-!
# The wire format

How every message is written into a buffer (`marshal`), read from one
(`unmarshal`) and measured (`size`), on a host with a given order of bytes.
What is written is the list of bytes that the calls of `memcpy` put there, one
after the other. What is read comes from a `Reader`, which has no result where
the source reads outside of the buffer or uses a negative length; the bytes
that it leaves are those after the position of the pointer.

All integers are converted to the order of the network, but for the length and
the port of a `ServerInfo`, which are written as they lie in memory.
-/

namespace LaptopPaxos

open Reader

/-- Integers, one after the other. -/
def putInts (o : ByteOrder) (vs : List ℤ) : List UInt8 := vs.flatMap (putInt o)

@[simp] theorem length_putInts (o : ByteOrder) (vs : List ℤ) :
    (putInts o vs).length = 4 * vs.length := by
  rw [putInts, List.length_flatMap, List.map_congr_left fun v _ => length_putInt o v,
    List.map_const', List.sum_replicate_nat, Nat.mul_comm]

/-! ### Messages of a fixed size -/

namespace CustomerRequest

def ints (r : CustomerRequest) : List ℤ := [r.customerId, r.orderNumber, r.requestType]

def size (_ : CustomerRequest) : ℕ := 4 + 4 + 4

def marshal (o : ByteOrder) (r : CustomerRequest) : List UInt8 := putInts o r.ints

def unmarshal (o : ByteOrder) : Reader CustomerRequest := do
  let customerId ← readInt o
  let orderNumber ← readInt o
  let requestType ← readInt o
  return { customerId, orderNumber, requestType }

end CustomerRequest

namespace CustomerRecord

def ints (r : CustomerRecord) : List ℤ := [r.customerId, r.lastOrder]

def size (_ : CustomerRecord) : ℕ := 4 + 4

def marshal (o : ByteOrder) (r : CustomerRecord) : List UInt8 := putInts o r.ints

def unmarshal (o : ByteOrder) : Reader CustomerRecord := do
  let customerId ← readInt o
  let lastOrder ← readInt o
  return { customerId, lastOrder }

end CustomerRecord

namespace LaptopInfo

def ints (l : LaptopInfo) : List ℤ :=
  [l.customerId, l.orderNumber, l.requestType, l.engineerId, l.adminId]

def size (_ : LaptopInfo) : ℕ := 4 + 4 + 4 + 4 + 4

def marshal (o : ByteOrder) (l : LaptopInfo) : List UInt8 := putInts o l.ints

def unmarshal (o : ByteOrder) : Reader LaptopInfo := do
  let customerId ← readInt o
  let orderNumber ← readInt o
  let requestType ← readInt o
  let engineerId ← readInt o
  let adminId ← readInt o
  return { customerId, orderNumber, requestType, engineerId, adminId }

end LaptopInfo

namespace MapOp

def ints (op : MapOp) : List ℤ := [op.opcode, op.arg1, op.arg2]

def size (_ : MapOp) : ℕ := 4 + 4 + 4

def marshal (o : ByteOrder) (op : MapOp) : List UInt8 := putInts o op.ints

def unmarshal (o : ByteOrder) : Reader MapOp := do
  let opcode ← readInt o
  let arg1 ← readInt o
  let arg2 ← readInt o
  return { opcode, arg1, arg2 }

end MapOp

namespace LogRequest

def ints (r : LogRequest) : List ℤ := [r.factoryId, r.committedIndex, r.lastIndex] ++ r.op.ints

def size (r : LogRequest) : ℕ := 4 + 4 + 4 + r.op.size

def marshal (o : ByteOrder) (r : LogRequest) : List UInt8 :=
  putInts o [r.factoryId, r.committedIndex, r.lastIndex] ++ r.op.marshal o

def unmarshal (o : ByteOrder) : Reader LogRequest := do
  let factoryId ← readInt o
  let committedIndex ← readInt o
  let lastIndex ← readInt o
  let op ← MapOp.unmarshal o
  return { factoryId, committedIndex, lastIndex, op }

end LogRequest

namespace LogResponse

def ints (r : LogResponse) : List ℤ := [r.factoryId]

def size (_ : LogResponse) : ℕ := 4

def marshal (o : ByteOrder) (r : LogResponse) : List UInt8 := putInts o r.ints

def unmarshal (o : ByteOrder) : Reader LogResponse := do
  let factoryId ← readInt o
  return { factoryId }

end LogResponse

section

variable {o o' : ByteOrder} {rest : List UInt8}

theorem CustomerRequest.run_unmarshal {r : CustomerRequest} (h : ∀ v ∈ r.ints, IsInt v) :
    (unmarshal o').run (r.marshal o ++ rest) = some (r, rest) := by
  simp only [ints, List.forall_mem_cons] at h
  obtain ⟨h₁, h₂, h₃, -⟩ := h
  simp [unmarshal, marshal, putInts, ints, h₁, h₂, h₃]

theorem CustomerRecord.run_unmarshal {r : CustomerRecord} (h : ∀ v ∈ r.ints, IsInt v) :
    (unmarshal o').run (r.marshal o ++ rest) = some (r, rest) := by
  simp only [ints, List.forall_mem_cons] at h
  obtain ⟨h₁, h₂, -⟩ := h
  simp [unmarshal, marshal, putInts, ints, h₁, h₂]

theorem LaptopInfo.run_unmarshal {l : LaptopInfo} (h : ∀ v ∈ l.ints, IsInt v) :
    (unmarshal o').run (l.marshal o ++ rest) = some (l, rest) := by
  simp only [ints, List.forall_mem_cons] at h
  obtain ⟨h₁, h₂, h₃, h₄, h₅, -⟩ := h
  simp [unmarshal, marshal, putInts, ints, h₁, h₂, h₃, h₄, h₅]

theorem MapOp.run_unmarshal {op : MapOp} (h : ∀ v ∈ op.ints, IsInt v) :
    (unmarshal o').run (op.marshal o ++ rest) = some (op, rest) := by
  simp only [ints, List.forall_mem_cons] at h
  obtain ⟨h₁, h₂, h₃, -⟩ := h
  simp [unmarshal, marshal, putInts, ints, h₁, h₂, h₃]

theorem LogRequest.run_unmarshal {r : LogRequest} (h : ∀ v ∈ r.ints, IsInt v) :
    (unmarshal o').run (r.marshal o ++ rest) = some (r, rest) := by
  simp only [ints, List.forall_mem_append, List.forall_mem_cons] at h
  obtain ⟨⟨h₁, h₂, h₃, -⟩, hop⟩ := h
  simp [unmarshal, marshal, putInts, h₁, h₂, h₃, MapOp.run_unmarshal hop]

theorem LogResponse.run_unmarshal {r : LogResponse} (h : ∀ v ∈ r.ints, IsInt v) :
    (unmarshal o').run (r.marshal o ++ rest) = some (r, rest) := by
  simp only [ints, List.forall_mem_cons] at h
  obtain ⟨h₁, -⟩ := h
  simp [unmarshal, marshal, putInts, ints, h₁]

end

/-! ### Paxos messages -/

namespace PaxosMsg

def ints (m : PaxosMsg) : List ℤ :=
  [m.phase, m.agree, m.proposeNumber, m.acceptedProposal, m.slotNumber, m.commandId,
    m.customerId, m.orderId]

def size (m : PaxosMsg) : ℕ := 4 + 4 + 4 + 4 + 4 + 4 + 4 + m.clientIp.length + 4 + 4

def marshal (o : ByteOrder) (m : PaxosMsg) : List UInt8 :=
  putInts o [m.phase, m.agree, m.proposeNumber, m.acceptedProposal, m.slotNumber, m.commandId] ++
    putInt o m.clientIp.length ++ stringBytes m.clientIp ++ putInts o [m.customerId, m.orderId]

def unmarshal (o : ByteOrder) : Reader PaxosMsg := do
  let phase ← readInt o
  let agree ← readInt o
  let proposeNumber ← readInt o
  let acceptedProposal ← readInt o
  let slotNumber ← readInt o
  let commandId ← readInt o
  let ipLength ← readInt o
  -- the array for the string has one more element
  require (0 ≤ ipLength ∧ IsInt (ipLength + 1))
  let tempIp ← memcpy ipLength.toNat
  let customerId ← readInt o
  let orderId ← readInt o
  return { phase, agree, proposeNumber, acceptedProposal, slotNumber, commandId,
           clientIp := bytesString (cString tempIp), customerId, orderId }

end PaxosMsg

/-! ### The configuration of the servers -/

namespace ServerInfo

def size (info : ServerInfo) : ℕ := 4 + info.ipAddress.length + 4

/-- The length of the string, as the `uint32_t` that is written. -/
def ipLength (info : ServerInfo) : BitVec 32 := BitVec.ofNat 32 info.ipAddress.length

/-- The length and the port are written in the order of the host. -/
def marshal (o : ByteOrder) (info : ServerInfo) : List UInt8 :=
  o.store info.ipLength ++ (stringBytes info.ipAddress).take info.ipLength.toNat ++
    o.store (BitVec.ofInt 32 info.portNumber)

def unmarshal (o : ByteOrder) : Reader ServerInfo := do
  let ipLength ← readWord o
  -- the array for the string has one more element
  require (ipLength.toNat + 1 < 4294967296)
  let tempIp ← memcpy ipLength.toNat
  let portNumber ← readWord o
  return { ipAddress := bytesString (cString tempIp), portNumber := portNumber.toInt }

end ServerInfo

/-- The entries of a configuration, key by key. The pointer moves on by the
    size of an entry, over the zeros of a new buffer. -/
def marshalServers (o : ByteOrder) (servers : List (ℤ × ServerInfo)) : List UInt8 :=
  servers.flatMap fun pair => putInt o pair.1 ++ (pair.2.marshal o).rightpad pair.2.size 0

/-- The loop that reads the entries. The pointer is passed by value, and then
    moves on by the size of the value read. -/
def readServers (o : ByteOrder) : ℕ → StdMap ℤ ServerInfo → Reader (StdMap ℤ ServerInfo)
  | 0, servers => return servers
  | n + 1, servers => do
    let key ← readInt o
    let buffer ← get
    let info ← ServerInfo.unmarshal o
    set (buffer.drop info.size)
    readServers o n (servers.insert key info)

namespace ServerConfig

def size (c : ServerConfig) : ℕ := 4 + (c.servers.entries.map fun pair => 4 + pair.2.size).sum

def marshal (o : ByteOrder) (c : ServerConfig) : List UInt8 :=
  putInt o c.servers.size ++ marshalServers o c.servers.entries

def unmarshal (o : ByteOrder) : Reader ServerConfig := do
  let serverCount ← readInt o
  let servers ← readServers o serverCount.toNat .empty
  return { servers }

end ServerConfig

section

variable {o s r : ByteOrder} {m m' : PaxosMsg} {rest : List UInt8}

theorem PaxosMsg.run_unmarshal (hm : ∀ v ∈ m.ints, IsInt v) (hip : IsByteString m.clientIp)
    (hn : NulFree m.clientIp) (hlen : m.clientIp.length + 1 < 2147483648) :
    (unmarshal r).run (m.marshal s ++ rest) = some (m, rest) := by
  simp only [ints, List.forall_mem_cons] at hm
  obtain ⟨h₁, h₂, h₃, h₄, h₅, h₆, h₇, h₈, -⟩ := hm
  have hl : IsInt m.clientIp.length := ⟨by omega, by omega⟩
  have hreq : 0 ≤ (m.clientIp.length : ℤ) ∧ IsInt (m.clientIp.length + 1) :=
    ⟨Int.natCast_nonneg _, ⟨by omega, by omega⟩⟩
  have hip' : (stringBytes m.clientIp).length = (m.clientIp.length : ℤ).toNat := by simp
  simp only [marshal, putInts, List.flatMap_cons, List.flatMap_nil, List.append_nil,
    List.append_assoc]
  rw [unmarshal, run_readInt_bind h₁, run_readInt_bind h₂, run_readInt_bind h₃,
    run_readInt_bind h₄, run_readInt_bind h₅, run_readInt_bind h₆, run_readInt_bind hl,
    run_bind_of_eq_some _ (run_require hreq _), run_bind_of_eq_some _ (run_memcpy_append hip'),
    run_readInt_bind h₇, run_readInt_bind h₈, run_pure,
    cString_eq_self (zero_notMem_stringBytes hip hn), bytesString_stringBytes hip]

/-- A longer address does not come back. -/
theorem PaxosMsg.length_of_run_unmarshal (hm : ∀ v ∈ m.ints, IsInt v)
    (h : (unmarshal r).run (m.marshal s) = some (m', rest)) :
    (m'.clientIp.length : ℤ) + 1 < 2147483648 := by
  simp only [ints, List.forall_mem_cons] at hm
  obtain ⟨h₁, h₂, h₃, h₄, h₅, h₆, -⟩ := hm
  simp only [marshal, putInts, List.flatMap_cons, List.flatMap_nil, List.append_nil,
    List.append_assoc] at h
  rw [unmarshal, run_readInt_bind h₁, run_readInt_bind h₂, run_readInt_bind h₃,
    run_readInt_bind h₄, run_readInt_bind h₅, run_readInt_bind h₆] at h
  obtain ⟨ipLength, bs₁, -, h⟩ := (run_bind_eq_some _).1 h
  obtain ⟨_, bs₂, hreq, h⟩ := (run_bind_eq_some _).1 h
  obtain ⟨tempIp, bs₃, hip, h⟩ := (run_bind_eq_some _).1 h
  obtain ⟨customerId, bs₄, -, h⟩ := (run_bind_eq_some _).1 h
  obtain ⟨orderId, bs₅, -, h⟩ := (run_bind_eq_some _).1 h
  obtain ⟨⟨h0, hlt⟩, -⟩ := run_require_eq_some.1 hreq
  obtain ⟨-, htake, -⟩ := run_memcpy_eq_some.1 hip
  obtain rfl : _ = m' := congrArg Prod.fst (Option.some.inj h)
  have hle := length_cString_le tempIp
  have hlen : tempIp.length ≤ ipLength.toNat := htake ▸ List.length_take_le _ _
  have hbs := length_bytesString (cString tempIp)
  change ((bytesString (cString tempIp)).length : ℤ) + 1 < 2147483648
  have hlt' := hlt.2
  omega

end

end LaptopPaxos
