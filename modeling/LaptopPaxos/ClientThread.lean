import LaptopPaxos.Engineer
import LaptopPaxos.Lib.Machine

/-!
# Clients

The thread of a customer, `ThreadBody` with `Orders`, `Records` and
`ScanRecords` and its `ClientStub`, down to the bytes: a component that reacts
to its environment, like the engineer at the other end of its connection
(`clientStep`).

It does not look at the result of `Identify`, and goes on after it has failed to
receive the size of the configuration: with the memory in which the size should
be. A size of `2^31` or more is not positive for `Recv`, which then receives
nothing; the buffer of zeros is the empty configuration
(`serverConfigOf_of_nonpos`).
-/

namespace LaptopPaxos

open Reader

/-- The control points of a client; `i` is the loop variable. -/
inductive ClientPc
  /-- At the start of `ThreadBody`. -/
  | init
  /-- In `Identify`, before the order `i`. -/
  | identify (i : ℤ)
  /-- In `receiveServerConfig`, before the size. -/
  | header (i : ℤ)
  /-- In `receiveServerConfig`, before the configuration. -/
  | config (i : ℤ) (messageSize : ℕ)
  /-- Before the `Send` of a request. -/
  | request (i : ℤ)
  /-- Before the `Recv` of the answer. -/
  | answer (i : ℤ)
  /-- Looking for another server, with those that are still to try. -/
  | reconnect (i : ℤ) (servers : List ServerInfo)
  | done
  /-- Outside of a buffer. -/
  | fault
  deriving DecidableEq

/-- A client with the arguments of its thread and its socket. -/
structure Client where
  server : ServerInfo
  customerId : ℤ
  numOrders : ℤ
  requestType : ℤ
  serverConfig : ServerConfig := {}
  pc : ClientPc := .init
  isInitialized : Bool := false
  deriving DecidableEq

def LaptopInfo.isValid (laptop : LaptopInfo) : Prop := laptop.customerId ≠ -1

instance (laptop : LaptopInfo) : Decidable laptop.isValid := inferInstanceAs (Decidable (_ ≠ _))

namespace Client

variable (c : Client)

/-- At the head of the loop of `Orders` or `ScanRecords`, or in `Records`. -/
def head (i : ℤ) : ClientPc :=
  if c.requestType = 1 ∨ c.requestType = 3 then if i < c.numOrders then .request i else .done
  else if c.requestType = 2 then .request i
  else .done

def customerRequest (i : ℤ) : CustomerRequest :=
  if c.requestType = 1 then ⟨c.customerId, i, c.requestType⟩
  else if c.requestType = 2 then ⟨c.customerId, -1, 2⟩
  else ⟨i, -1, 2⟩

/-- How many bytes the answer to a request has. -/
def answerSize : ℕ :=
  if c.requestType = 1 then ({} : LaptopInfo).size else ({} : CustomerRecord).size

/-- What `Orders` does with the result of `Order`. -/
def onLaptop (i : ℤ) (laptop : LaptopInfo) : ClientPc :=
  if laptop.adminId = -5 then .done
  else if ¬laptop.isValid then .reconnect i (c.serverConfig.servers.entries.map Prod.snd)
  else c.head (i + 1)

/-- What `Records` and `ScanRecords` do with the result of `ReadRecord`. -/
def onRecord (i : ℤ) : ClientPc := if c.requestType = 3 then c.head (i + 1) else .done

/-- Where the thread goes on after `Order` or `ReadRecord`; `buffer?` is what was received. -/
def answered (o : ByteOrder) (i : ℤ) (buffer? : Option (List UInt8)) : ClientPc :=
  if c.requestType = 1 then
    (messageOf (LaptopInfo.unmarshal o) {} buffer?).elim .fault (c.onLaptop i)
  else
    (messageOf (CustomerRecord.unmarshal o) {} buffer?).elim .fault fun _ => c.onRecord i

end Client

/-- What the environment decides in a step of a client. -/
structure ClientEnv where
  answers : Answers := {}
  /-- Whether the connection is accepted. -/
  accepted : Bool := true
  /-- The contents of the uninitialised header. -/
  indet : BitVec 32 := 0
  deriving DecidableEq

/-- The size in a header of which `t` has been received. -/
def messageSize (o : ByteOrder) (indet : BitVec 32) (t : Transfer) : ℕ :=
  (o.ntohl (o.load (t.bytes ++ (o.store indet).drop t.bytes.length))).toNat

/-- The outcome of a step of a client. -/
structure ClientEffect where
  client : Client
  transfer : Transfer := {}
  /-- The server to which a new connection is made. -/
  connected : Option ServerInfo := none

/-- A new stub, connected to the server if it accepts. -/
def Client.reconnect (c : Client) (env : ClientEnv) (server : ServerInfo)
    (success failure : ClientPc) : ClientEffect :=
  if env.accepted then
    { client := { c with pc := success, isInitialized := true }, connected := some server }
  else { client := { c with pc := failure, isInitialized := false } }

/-- The configuration decoded from a buffer of `messageSize` zeros, of which the
    first bytes are those received, if it lies in the buffer. -/
def serverConfigOf (o : ByteOrder) (messageSize : ℕ) (t : Transfer) : Option ServerConfig :=
  messageOf (ServerConfig.unmarshal o) {}
    (if t.ok then some (t.bytes.rightpad messageSize 0) else none)

/-- The client takes the configuration that is received, if it lies in the buffer. -/
def Client.receiveServerConfig (c : Client) (o : ByteOrder) (i : ℤ) (messageSize : ℕ)
    (t : Transfer) : Client :=
  let c := { c with isInitialized := c.isInitialized && t.ok }
  match serverConfigOf o messageSize t with
  | none => { c with pc := .fault }
  | some config => { c with serverConfig := config, pc := c.head i }

def clientStep (o : ByteOrder) (env : ClientEnv) (c : Client) : Option ClientEffect :=
  match c.pc with
  | .init => some (c.reconnect env c.server (.identify 0) .done)
  | .identify i => (Socket.send env.answers.send (putInt o 0) 4).map fun t =>
      { client := { c with pc := .header i, isInitialized := c.isInitialized && t.ok }
        transfer := t }
  | .header i => (Socket.recv env.answers.recv 4).map fun t =>
      { client := { c with
          pc := .config i (messageSize o env.indet t)
          isInitialized := c.isInitialized && t.ok }
        transfer := t }
  | .config i size => (Socket.recv env.answers.recv (intOfSize size)).map fun t =>
      { client := c.receiveServerConfig o i size t, transfer := t }
  | .request i =>
    (Socket.send env.answers.send ((c.customerRequest i).marshal o) (c.customerRequest i).size).map
      fun t =>
        { client := { c with
            pc := if t.ok then .answer i else c.answered o i none
            isInitialized := c.isInitialized && t.ok }
          transfer := t }
  | .answer i => (Socket.recv env.answers.recv c.answerSize).map fun t =>
      { client := { c with
          pc := c.answered o i (if t.ok then some t.bytes else none)
          isInitialized := c.isInitialized && t.ok }
        transfer := t }
  | .reconnect _ [] => some { client := { c with pc := .done } }
  | .reconnect i (server :: servers) =>
    some (c.reconnect env server (.identify (i + 1)) (.reconnect i servers))
  | .done | .fault => none

/-- A client, with servers that send anything. -/
def customer (o : ByteOrder) : Machine Client ClientEnv where
  init := {c | c.pc = .init}
  step c env := (clientStep o env c).map ClientEffect.client

/-- The branches of a step of a client. -/
inductive ClientStep (o : ByteOrder) (env : ClientEnv) (c : Client) : ClientEffect → Prop
  | init : c.pc = .init → ClientStep o env c (c.reconnect env c.server (.identify 0) .done)
  | identify {i t} : c.pc = .identify i →
      Socket.send env.answers.send (putInt o 0) 4 = some t →
      ClientStep o env c
        { client := { c with pc := .header i, isInitialized := c.isInitialized && t.ok }
          transfer := t }
  | header {i t} : c.pc = .header i → Socket.recv env.answers.recv 4 = some t →
      ClientStep o env c
        { client := { c with
            pc := .config i (messageSize o env.indet t)
            isInitialized := c.isInitialized && t.ok }
          transfer := t }
  | config {i size t} : c.pc = .config i size →
      Socket.recv env.answers.recv (intOfSize size) = some t →
      ClientStep o env c { client := c.receiveServerConfig o i size t, transfer := t }
  | request {i t} : c.pc = .request i →
      Socket.send env.answers.send ((c.customerRequest i).marshal o) (c.customerRequest i).size =
        some t →
      ClientStep o env c
        { client := { c with
            pc := if t.ok then .answer i else c.answered o i none
            isInitialized := c.isInitialized && t.ok }
          transfer := t }
  | answer {i t} : c.pc = .answer i → Socket.recv env.answers.recv c.answerSize = some t →
      ClientStep o env c
        { client := { c with
            pc := c.answered o i (if t.ok then some t.bytes else none)
            isInitialized := c.isInitialized && t.ok }
          transfer := t }
  | lost {i} : c.pc = .reconnect i [] → ClientStep o env c { client := { c with pc := .done } }
  | retry {i server servers} : c.pc = .reconnect i (server :: servers) →
      ClientStep o env c (c.reconnect env server (.identify (i + 1)) (.reconnect i servers))

theorem clientStep_cases {o : ByteOrder} {env : ClientEnv} {c : Client} {r : ClientEffect}
    (h : clientStep o env c = some r) : ClientStep o env c r := by
  rw [clientStep] at h
  split at h
  · next hpc => cases h; exact .init hpc
  · next hpc =>
    obtain ⟨t, ht, rfl⟩ := Option.map_eq_some_iff.1 h
    exact .identify hpc ht
  · next hpc =>
    obtain ⟨t, ht, rfl⟩ := Option.map_eq_some_iff.1 h
    exact .header hpc ht
  · next hpc =>
    obtain ⟨t, ht, rfl⟩ := Option.map_eq_some_iff.1 h
    exact .config hpc ht
  · next hpc =>
    obtain ⟨t, ht, rfl⟩ := Option.map_eq_some_iff.1 h
    exact .request hpc ht
  · next hpc =>
    obtain ⟨t, ht, rfl⟩ := Option.map_eq_some_iff.1 h
    exact .answer hpc ht
  · next hpc => cases h; exact .lost hpc
  · next hpc => cases h; exact .retry hpc
  · cases h
  · cases h

/-- A size that is below `2^31` as a number has been received as a whole. -/
theorem serverConfigOf_of_lt {o : ByteOrder} {chunks : List (List UInt8)} {size : ℕ} {t : Transfer}
    (ht : Socket.recv chunks (intOfSize size) = some t) (hlt : size < 2147483648) :
    serverConfigOf o size t =
      messageOf (ServerConfig.unmarshal o) {} (if t.ok then some t.bytes else none) := by
  rw [serverConfigOf]
  split_ifs with hok
  · have hlen : t.bytes.length = size := by
      rw [(Socket.bytes_of_recv ht).1 hok, intOfSize_eq hlt, Int.toNat_natCast]
    rw [List.rightpad, hlen, Nat.sub_self, List.replicate_zero, List.append_nil]
  · rfl

/-- For a size that is negative as an `int` nothing is received, and the zeros
    of the buffer are the empty configuration. Without a buffer nothing can be
    decoded. -/
theorem serverConfigOf_of_nonpos {o : ByteOrder} {chunks : List (List UInt8)} {size : ℕ}
    {t : Transfer} (ht : Socket.recv chunks (intOfSize size) = some t)
    (hneg : intOfSize size ≤ 0) :
    t = {} ∧ serverConfigOf o size t = if size = 0 then none else some {} := by
  have hrecv : Socket.recv chunks (intOfSize size) = some {} := by
    cases chunks <;> rw [Socket.recv, if_neg (not_lt.2 hneg)]
  obtain rfl : {} = t := Option.some.inj (hrecv.symm.trans ht)
  refine ⟨rfl, ?_⟩
  split_ifs with hzero
  · rw [hzero]
    cases o <;> rfl
  -- a size below `2^31` would be positive
  have hle : 2147483648 ≤ size := by
    by_contra! hlt
    rw [intOfSize_eq hlt] at hneg
    omega
  obtain ⟨n, rfl⟩ := Nat.exists_eq_add_of_le (show 4 ≤ size by omega)
  rw [serverConfigOf, if_pos rfl, List.rightpad, List.nil_append, List.length_nil, Nat.sub_zero,
    List.replicate_add]
  have hcount : (readInt o).run (List.replicate 4 0 ++ List.replicate n 0) =
      some (0, List.replicate n 0) := by
    have hzero : List.replicate 4 (0 : UInt8) = putInt o 0 := by cases o <;> rfl
    rw [hzero, run_readInt_putInt (by decide)]
  rw [messageOf, ServerConfig.unmarshal, run_bind_of_eq_some _ hcount]
  rfl

theorem Client.requestType_receiveServerConfig (c : Client) (o : ByteOrder) (i : ℤ) (size : ℕ)
    (t : Transfer) : (c.receiveServerConfig o i size t).requestType = c.requestType := by
  rw [receiveServerConfig]
  split <;> rfl

theorem ClientStep.requestType {o : ByteOrder} {env : ClientEnv} {c : Client} {r : ClientEffect}
    (h : ClientStep o env c r) :
    r.client.requestType = c.requestType := by
  cases h with
  | init =>
    rw [Client.reconnect]
    split_ifs <;> rfl
  | retry =>
    rw [Client.reconnect]
    split_ifs <;> rfl
  | config => exact c.requestType_receiveServerConfig _ _ _ _
  | _ => rfl

end LaptopPaxos
