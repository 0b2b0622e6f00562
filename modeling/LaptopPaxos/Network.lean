import LaptopPaxos.ClientThread
import LaptopPaxos.Lib.Pipe
import LaptopPaxos.Parcels
import LaptopPaxos.Process

/-!
# The network

All servers and all clients, and the connections between them, down to the
bytes. A thread takes the steps of its component (`engineerStep`, `scoutStep`
with `scoutIo`, `clientStep`); what its system calls return is arbitrary as far
as the connection allows it (`Use.Allowed`): bytes arrive in order, in any
pieces, any call may fail, and on a closed end every call does.

A connection is named by the end that has made it, and carries the engineer at
its other end. Its two pipes keep what was given to `Send` and what the
receives have decoded.
-/

namespace LaptopPaxos

open LaptopFactory Reader

/-- A deployment on hosts, with the order of the bytes on each of them. The ids,
    the addresses and the ports come from the command line. -/
structure Hosts extends Deployment where
  /-- Of the servers. -/
  order : ℤ → ByteOrder
  /-- Of the clients. -/
  customer : ℤ → ByteOrder
  fits : ∀ i ∈ ids, IsInt i ∧ IsInt (addr i).port ∧ IsByteString (addr i).ip ∧ NulFree (addr i).ip

/-! ### Connections -/

/-- A connection, named by the end that has made it. -/
inductive Link
  /-- The `n`-th connection of the client `c`, from 1 on. -/
  | customer (c : ℤ) (n : ℕ)
  /-- Of the Scout of `i` to the acceptor `a`. -/
  | acceptor (i a : ℤ)
  /-- Of the Commander of `i` to the learner `a`. -/
  | learner (i a : ℤ)
  deriving DecidableEq

/-- A connection, with the engineer at its other end. -/
structure Conn where
  server : ℤ
  /-- The number of the engineer. -/
  id : ℤ
  engineer : Engineer := {}
  /-- To the engineer. -/
  up : Pipe Parcel UInt8 := {}
  /-- From the engineer. -/
  down : Pipe Parcel UInt8 := {}

/-- What a thread does on its end of a connection. -/
inductive Use
  /-- `Send` of a parcel. -/
  | send (p : Parcel) (t : Transfer)
  /-- `Recv`, and on success decoding a parcel of the kind `k`. -/
  | recv (k : Parcel.Kind) (t : Transfer)

namespace Use

/-- Bytes are received in the order in which they were sent. A closed end neither
    sends nor receives any, so a call for some of them fails. -/
def Allowed (isOpen : Bool) (arrived : List UInt8) : Use → Prop
  | send _ t => isOpen = false → t.bytes = []
  | recv _ t => t.bytes <+: arrived ∧ (isOpen = false → t.bytes = [])

instance (isOpen : Bool) (arrived : List UInt8) : (u : Use) → Decidable (u.Allowed isOpen arrived)
  | send _ _ => inferInstanceAs (Decidable (_ → _))
  | recv _ _ => inferInstanceAs (Decidable (_ ∧ (_ → _)))

/-- The pipe that leads away from the thread. -/
def out (pipe : Pipe Parcel UInt8) : Use → Pipe Parcel UInt8
  | send p t => pipe.push p.narrow t.bytes
  | recv _ _ => pipe

/-- The pipe that leads to the thread. -/
def into (o : ByteOrder) (pipe : Pipe Parcel UInt8) : Use → Pipe Parcel UInt8
  | send _ _ => pipe
  | recv k t =>
    pipe.pull t.bytes.length (if t.ok then some (Parcel.decode o k t.bytes) else none)

end Use

namespace Conn

variable (o : ByteOrder) (k : Conn)

/-- The end that has made the connection is used. -/
def useClient : Option Use → Conn
  | none => k
  | some u => { k with up := u.out k.up, down := u.into o k.down }

/-- The end of the engineer is used. -/
def useEngineer : Option Use → Conn
  | none => k
  | some u => { k with up := u.into o k.up, down := u.out k.down }

variable {o k} {u : Option Use}

@[simp] theorem sent_useEngineer : (k.useEngineer o u).up.sent = k.up.sent := by
  cases u with
  | none => rfl
  | some u => cases u <;> rfl

end Conn

/-! ### What the threads do on their connections -/

namespace SessionPc

/-- What the next `Send` is given. -/
def parcel (f : LaptopFactory) : SessionPc → Option Parcel
  | configSize => some (.word f.serverConfig.size)
  | config => some (.message (.serverConfig f.serverConfig))
  | laptop l => some (.message (.laptopInfo l))
  | record r => some (.message (.customerRecord r))
  | logResponse resp => some (.message (.logResponse resp))
  | reply msg => some (.message (.paxosMsg msg))
  | _ => none

/-- What the next receive decodes. -/
def kind : SessionPc → Option Parcel.Kind
  | identity => some .word
  | request => some (.message .customerRequest)
  | logRequest => some (.message .logRequest)
  | acceptor | learner => some (.message .paxosMsg)
  | _ => none

def use (f : LaptopFactory) (pc : SessionPc) (t : Transfer) : Option Use :=
  match pc.parcel f, pc.kind with
  | some p, _ => some (.send p t)
  | none, some k => some (.recv k t)
  | none, none => none

/-- `Send` is given the bytes of the parcel. -/
theorem outgoing_eq (o : ByteOrder) (f : LaptopFactory) (pc : SessionPc) :
    pc.outgoing o f = (pc.parcel f).map fun p => (p.marshal o, p.size) := by
  cases pc <;> rfl

theorem use_of_parcel {f : LaptopFactory} {pc : SessionPc} {t : Transfer} {p : Parcel}
    (h : pc.parcel f = some p) : pc.use f t = some (.send p t) := by
  rw [use, h]

/-- A thread does not send and receive in the same step. -/
theorem use_of_kind {f : LaptopFactory} {pc : SessionPc} {t : Transfer} {k : Parcel.Kind}
    (h : pc.kind = some k) : pc.use f t = some (.recv k t) := by
  cases pc <;> cases h <;> rfl

theorem isSome_kind (pc : SessionPc) : pc.kind.isSome ↔ pc.wants.isSome := by
  cases pc <;> exact Iff.rfl

end SessionPc

namespace Client

variable (c : Client)

def use (t : Transfer) : Option Use :=
  match c.pc with
  | .identify _ => some (.send (.word 0) t)
  | .header _ => some (.recv .word t)
  | .config _ _ => some (.recv (.message .serverConfig) t)
  | .request i => some (.send (.message (.customerRequest (c.customerRequest i))) t)
  | .answer _ =>
    some (.recv (.message (if c.requestType = 1 then .laptopInfo else .customerRecord)) t)
  | _ => none

/-- How many bytes the next `Recv` asks for. -/
def asks : Option ℤ :=
  match c.pc with
  | .header _ => some 4
  | .config _ size => some (intOfSize size)
  | .answer _ => some c.answerSize
  | _ => none

end Client

namespace ScoutPc

/-- What the Scout does with the result of a transfer on one of its stubs. -/
def use (f : LaptopFactory) (pc : ScoutPc) (x : SocketId) (t : Transfer) : Option Use :=
  match pc, x with
  | .connect _, .acceptor _ => some (.send (.word 2) t)
  | .command _ _, .learner _ => some (.send (.word 3) t)
  | .p1a _ _ (a :: _), .acceptor b =>
    if a = b then some (.send (.message (.paxosMsg (.p1a f.proposalNumber))) t) else none
  | .p2a _ ph (a :: _), .acceptor b =>
    if a = b then some (.send (.message (.paxosMsg (.p2a f.proposalNumber ph.cmd))) t) else none
  | .learn _ cmd (a :: _), .learner b =>
    if a = b then some (.send (.message (.paxosMsg (.learn cmd))) t) else none
  | .p1b _ _ a _, .acceptor b | .p2b _ _ a _, .acceptor b =>
    if a = b then some (.recv (.message .paxosMsg) t) else none
  | _, _ => none

/-- The Scout is about to make connections. -/
def connects : ScoutPc → Bool
  | .connect _ | .command _ _ => true
  | _ => false

/-- How many bytes the Scout asks the acceptor `a` for. -/
def asks (a : ℤ) : ScoutPc → Option ℤ
  | .p1b _ _ b _ | .p2b _ _ b _ => if a = b then some (intOfSize ({} : PaxosMsg).size) else none
  | _ => none

end ScoutPc

/-! ### States -/

/-- A server, without its engineers. -/
structure Node where
  factory : LaptopFactory
  scout : ScoutPc := .idle
  /-- The value of the promise of an engineer. -/
  fut : ℤ → Option LaptopInfo := fun _ => none

structure Net where
  node : ℤ → Node
  client : ℤ → Client
  /-- How many connections a client has made; it works on the last one. -/
  made : ℤ → ℕ := fun _ => 0
  /-- How many connections a server has accepted. -/
  accepted : ℤ → ℕ := fun _ => 0
  conn : Link → Option Conn := fun _ => none

inductive NetAction
  /-- The engineer at the end of a connection takes a step. -/
  | engineer (ℓ : Link) (answers : Answers)
  /-- The Scout of the server `i` takes a step. -/
  | scout (i : ℤ) (env : Env) (answers : ℤ → Answers)
  /-- The client `c` takes a step; `j` is the server that accepts its connection. -/
  | client (c : ℤ) (env : ClientEnv) (j : ℤ)

/-- Whether the socket of a stub of the Scout is open. -/
def LaptopFactory.isOpen (f : LaptopFactory) : SocketId → Bool
  | .engineer _ => false
  | .acceptor a => open? f.scoutAcceptorStub a
  | .learner a => open? f.commanderLearnerStub a

/-- The connection of a stub of the Scout of `i`. -/
def Link.ofStub (i : ℤ) : SocketId → Option Link
  | .engineer _ => none
  | .acceptor a => some (.acceptor i a)
  | .learner a => some (.learner i a)

theorem Link.ofStub_ne_customer {i c : ℤ} {x : SocketId} {n : ℕ} :
    ofStub i x ≠ some (.customer c n) := by
  cases x <;> nofun

namespace Net

variable (H : Hosts) (s : Net)

/-- The connection on which the client `c` works. -/
def link (c : ℤ) : Link := .customer c (s.made c)

/-- Whether the end that has made the connection is open. -/
def isOpen : Link → Bool
  | .customer c n => n = s.made c && (s.client c).isInitialized
  | .acceptor i a => (s.node i).factory.isOpen (.acceptor a)
  | .learner i a => (s.node i).factory.isOpen (.learner a)

/-- The bytes on their way to that end. -/
def arrived (ℓ : Link) : List UInt8 := (s.conn ℓ).elim [] fun k => k.down.flight

/-- How many bytes that end asks for. -/
def asks : Link → Option ℤ
  | .customer c n => if n = s.made c then (s.client c).asks else none
  | .acceptor i a => (s.node i).scout.asks a
  | .learner _ _ => none

/-- The server `j` accepts a connection and starts an engineer. -/
def accept (j : ℤ) : Conn := { server := j, id := s.accepted j }

/-! ### Engineers -/

/-- The state after the engineer of the connection `k` has taken a step. -/
def applyEngineer (ℓ : Link) (k : Conn) (r : EngineerEffect) : Net :=
  let n := s.node k.server
  let u := k.engineer.pc.use n.factory r.transfer
  { s with
    node := Function.update s.node k.server
      { n with
        factory := r.factory
        fut := if r.engineer.pc = .order then Function.update n.fut k.id none else n.fut }
    conn := Function.update s.conn ℓ
      (some { k.useEngineer (H.order k.server) u with engineer := r.engineer }) }

def engineerTurn (ℓ : Link) (answers : Answers) : Option Net :=
  (s.conn ℓ).bind fun k =>
    let n := s.node k.server
    (engineerStep (H.order k.server) k.id n.factory (n.fut k.id) answers k.engineer).bind fun r =>
      if ∀ u ∈ k.engineer.pc.use n.factory r.transfer,
          u.Allowed k.engineer.isInitialized k.up.flight then
        some (s.applyEngineer H ℓ k r)
      else none

/-! ### Scouts -/

/-- The connection of the stub `x`, to the server `a`, after a step of the Scout
    of `i`. -/
def onStub (i : ℤ) (io : ScoutIo) (x : SocketId) (a : ℤ) (k : Option Conn) : Option Conn :=
  let n := s.node i
  match (io.transfers.lookup x).bind (n.scout.use n.factory x) with
  | none => k
  | some u =>
    (if n.scout.connects then some (s.accept a) else k).map fun k =>
      k.useClient (H.order i) (some u)

def applyScout (i : ℤ) (io : ScoutIo) (r : Effect) : Net :=
  let n := s.node i
  { s with
    node := Function.update s.node i
      { factory := r.factory
        scout := r.pc
        fut := match returnedLaptop r.events with
          | none => n.fut
          | some laptop => Function.update n.fut laptop.engineerId (some laptop) }
    accepted := fun j =>
      if n.scout.connects ∧ io.transfers.any fun p => p.1 = .acceptor j ∨ p.1 = .learner j then
        s.accepted j + 1
      else s.accepted j
    conn := fun ℓ =>
      match ℓ with
      | .customer c m => s.conn (.customer c m)
      | .acceptor i' a =>
        if i' = i then s.onStub H i io (.acceptor a) a (s.conn ℓ) else s.conn ℓ
      | .learner i' a =>
        if i' = i then s.onStub H i io (.learner a) a (s.conn ℓ) else s.conn ℓ }

def scoutTurn (i : ℤ) (env : Env) (answers : ℤ → Answers) : Option Net :=
  let n := s.node i
  if i ∈ H.ids then
    (scoutIo (H.order i) n.factory env answers n.scout).bind fun io =>
      (scoutStep i n.factory io.inbox (io.env env) n.scout).bind fun r =>
        if ∀ p ∈ io.transfers, ∀ u ∈ n.scout.use n.factory p.1 p.2, ∀ ℓ ∈ Link.ofStub i p.1,
            u.Allowed (n.scout.connects || s.isOpen ℓ) (s.arrived ℓ) then
          some (s.applyScout H i io r)
        else none
  else none

/-! ### Clients -/

def applyClient (c j : ℤ) (r : ClientEffect) : Net :=
  let u := (s.client c).use r.transfer
  let conn := Function.update s.conn (s.link c)
    ((s.conn (s.link c)).map fun k => k.useClient (H.customer c) u)
  let client := Function.update s.client c r.client
  match r.connected with
  | none => { s with client := client, conn := conn }
  | some _ =>
    { s with
      client := client
      made := Function.update s.made c (s.made c + 1)
      accepted := Function.update s.accepted j (s.accepted j + 1)
      conn := Function.update conn (.customer c (s.made c + 1)) (some (s.accept j)) }

def clientTurn (c : ℤ) (env : ClientEnv) (j : ℤ) : Option Net :=
  (clientStep (H.customer c) env (s.client c)).bind fun r =>
    if (∀ u ∈ (s.client c).use r.transfer, u.Allowed (s.isOpen (s.link c)) (s.arrived (s.link c))) ∧
        (r.connected.isSome → j ∈ H.ids) then
      some (s.applyClient H c j r)
    else none

def step : NetAction → Option Net
  | .engineer ℓ answers => s.engineerTurn H ℓ answers
  | .scout i env answers => s.scoutTurn H i env answers
  | .client c env j => s.clientTurn H c env j

end Net

/-- The servers of a deployment with any clients. -/
def network (H : Hosts) : Machine Net NetAction where
  init := {s | ∃ client : ℤ → Client, (∀ c, (client c).pc = .init) ∧
    s = { node := fun i => { factory := H.factory i }, client := client }}
  step s := s.step H

/-- The branches of a step. -/
inductive NetStep (H : Hosts) (s : Net) : NetAction → Net → Prop
  | engineer {ℓ answers k r} : s.conn ℓ = some k →
      EngineerStep (H.order k.server) k.id (s.node k.server).factory
        ((s.node k.server).fut k.id) answers k.engineer r →
      (∀ u ∈ k.engineer.pc.use (s.node k.server).factory r.transfer,
        u.Allowed k.engineer.isInitialized k.up.flight) →
      NetStep H s (.engineer ℓ answers) (s.applyEngineer H ℓ k r)
  | scout {i env answers io r} : i ∈ H.ids →
      scoutIo (H.order i) (s.node i).factory env answers (s.node i).scout = some io →
      scoutStep i (s.node i).factory io.inbox (io.env env) (s.node i).scout = some r →
      (∀ p ∈ io.transfers, ∀ u ∈ (s.node i).scout.use (s.node i).factory p.1 p.2,
        ∀ ℓ ∈ Link.ofStub i p.1,
          u.Allowed ((s.node i).scout.connects || s.isOpen ℓ) (s.arrived ℓ)) →
      NetStep H s (.scout i env answers) (s.applyScout H i io r)
  | client {c env j r} : ClientStep (H.customer c) env (s.client c) r →
      (∀ u ∈ (s.client c).use r.transfer,
        u.Allowed (s.isOpen (s.link c)) (s.arrived (s.link c))) →
      (r.connected.isSome → j ∈ H.ids) →
      NetStep H s (.client c env j) (s.applyClient H c j r)

section

variable {H : Hosts} {s : Net} {ℓ ℓ' : Link} {k : Conn} {r : EngineerEffect} {j : ℤ}

@[simp] theorem Net.node_applyEngineer_self : (s.applyEngineer H ℓ k r).node k.server =
    { s.node k.server with
      factory := r.factory
      fut := if r.engineer.pc = .order then Function.update (s.node k.server).fut k.id none
        else (s.node k.server).fut } :=
  Function.update_self ..

@[simp] theorem Net.node_applyEngineer_of_ne (h : j ≠ k.server) :
    (s.applyEngineer H ℓ k r).node j = s.node j :=
  Function.update_of_ne h ..

@[simp] theorem Net.conn_applyEngineer_self : (s.applyEngineer H ℓ k r).conn ℓ =
    some { k.useEngineer (H.order k.server)
      (k.engineer.pc.use (s.node k.server).factory r.transfer) with engineer := r.engineer } :=
  Function.update_self ..

@[simp] theorem Net.conn_applyEngineer_of_ne (h : ℓ' ≠ ℓ) :
    (s.applyEngineer H ℓ k r).conn ℓ' = s.conn ℓ' :=
  Function.update_of_ne h ..

@[simp] theorem Net.node_applyScout_self {i : ℤ} {io : ScoutIo} {r : Effect} :
    (s.applyScout H i io r).node i =
      { factory := r.factory
        scout := r.pc
        fut := match returnedLaptop r.events with
          | none => (s.node i).fut
          | some laptop => Function.update (s.node i).fut laptop.engineerId (some laptop) } :=
  Function.update_self ..

@[simp] theorem Net.node_applyScout_of_ne {i : ℤ} {io : ScoutIo} {r : Effect} (h : j ≠ i) :
    (s.applyScout H i io r).node j = s.node j :=
  Function.update_of_ne h ..

/-- A connection is one of the Scout of `i`, or the same after a step of it. -/
theorem Net.conn_applyScout (H : Hosts) (s : Net) (i : ℤ) (io : ScoutIo) (r : Effect) (ℓ : Link) :
    (∃ x a, Link.ofStub i x = some ℓ ∧
      (s.applyScout H i io r).conn ℓ = s.onStub H i io x a (s.conn ℓ)) ∨
    (∀ x, Link.ofStub i x ≠ some ℓ) ∧ (s.applyScout H i io r).conn ℓ = s.conn ℓ := by
  cases ℓ with
  | customer c n => exact .inr ⟨fun x => Link.ofStub_ne_customer, rfl⟩
  | acceptor i' a =>
    by_cases hi : i' = i
    · subst hi
      exact .inl ⟨.acceptor a, a, rfl, if_pos rfl⟩
    · refine .inr ⟨fun x hx => ?_, if_neg hi⟩
      cases x <;> cases hx
      exact hi rfl
  | learner i' a =>
    by_cases hi : i' = i
    · subst hi
      exact .inl ⟨.learner a, a, rfl, if_pos rfl⟩
    · refine .inr ⟨fun x hx => ?_, if_neg hi⟩
      cases x <;> cases hx
      exact hi rfl

@[simp] theorem Net.node_applyClient {c : ℤ} {r : ClientEffect} :
    (s.applyClient H c j r).node = s.node := by
  rw [applyClient]
  split <;> rfl

@[simp] theorem Net.client_applyClient {c : ℤ} {r : ClientEffect} :
    (s.applyClient H c j r).client = Function.update s.client c r.client := by
  rw [applyClient]
  split <;> rfl

end

theorem netStep_cases {H : Hosts} {s s' : Net} {act : NetAction} (h : s.step H act = some s') :
    NetStep H s act s' := by
  cases act with
  | engineer ℓ answers =>
    obtain ⟨k, hk, h⟩ := Option.bind_eq_some_iff.1 h
    obtain ⟨r, hr, h⟩ := Option.bind_eq_some_iff.1 h
    split_ifs at h with hu
    cases h
    exact .engineer hk (engineerStep_cases hr) hu
  | scout i env answers =>
    rw [Net.step, Net.scoutTurn] at h
    split_ifs at h with hi
    obtain ⟨io, hio, h⟩ := Option.bind_eq_some_iff.1 h
    obtain ⟨r, hr, h⟩ := Option.bind_eq_some_iff.1 h
    split_ifs at h with hu
    cases h
    exact .scout hi hio hr hu
  | client c env j =>
    obtain ⟨r, hr, h⟩ := Option.bind_eq_some_iff.1 h
    split_ifs at h with hu
    cases h
    exact .client (clientStep_cases hr) hu.1 hu.2

end LaptopPaxos
