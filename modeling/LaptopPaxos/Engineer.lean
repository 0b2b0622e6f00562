import LaptopPaxos.Codec
import LaptopPaxos.Sockets

/-!
# Engineers

The thread that serves one connection, `EngineerThread` with its `ServerStub`,
down to the bytes. It blocks on its socket and on the promise of an order, so
it is a component that reacts to its environment, like the Scout: a control
point (`SessionPc`) says where it waits, and `engineerStep` takes it to the
next one, with one `Send` or one `Recv` in between.

The result of a `Send` is never looked at. After a failed `Recv` the thread goes
on with the default message, which always makes it leave. An engineer that reads
outside of the bytes received or of the log ends in `fault`.
-/

namespace LaptopPaxos

open LaptopFactory Reader

/-- The control points of an engineer. -/
inductive SessionPc
  /-- In `ReceiveIndentity`. -/
  | identity
  /-- In `SendServerConfig`, before the size. -/
  | configSize
  /-- In `SendServerConfig`, before the configuration. -/
  | config
  /-- In `ReceiveRequest`. -/
  | request
  /-- Waiting for the promise of an order. -/
  | order
  /-- In `SendLaptop`. -/
  | laptop (laptop : LaptopInfo)
  /-- In `ReturnRecord`. -/
  | record (record : CustomerRecord)
  /-- In `ReceiveLogRequest`. -/
  | logRequest
  /-- In `ReturnLogResponse`. -/
  | logResponse (resp : LogResponse)
  /-- In `ReceivePaxosMsg`, as an acceptor. -/
  | acceptor
  /-- In `SendPaxosMsg`. -/
  | reply (msg : PaxosMsg)
  /-- In `ReceivePaxosMsg`, as a learner. -/
  | learner
  /-- Out of the loops. -/
  | leave
  /-- The thread has ended. -/
  | gone
  /-- Outside of a buffer or of the log. -/
  | fault
  deriving DecidableEq

namespace SessionPc

/-- How many bytes the next `Recv` asks for: the size of a default message. -/
def wants : SessionPc → Option ℕ
  | identity => some 4
  | request => some ({} : CustomerRequest).size
  | logRequest => some ({} : LogRequest).size
  | acceptor | learner => some ({} : PaxosMsg).size
  | _ => none

/-- The buffer of the next `Send`, and its size. -/
def outgoing (o : ByteOrder) (f : LaptopFactory) : SessionPc → Option (List UInt8 × ℕ)
  | configSize => some (putInt o f.serverConfig.size, 4)
  | config => some (f.serverConfig.marshal o, f.serverConfig.size)
  | laptop l => some (l.marshal o, l.size)
  | record r => some (r.marshal o, r.size)
  | logResponse resp => some (resp.marshal o, resp.size)
  | reply msg => some (msg.marshal o, msg.size)
  | _ => none

/-- Where the thread goes on after a `Send`. -/
def sent : SessionPc → SessionPc
  | configSize => config
  | config | laptop _ | record _ => request
  | logResponse _ => logRequest
  | reply _ => acceptor
  | pc => pc

end SessionPc

/-- The message that a `Receive` returns: the default one if `Recv` has failed,
    otherwise the one in the buffer, if it lies in there. -/
def messageOf {α : Type} (unmarshal : Reader α) (default : α) : Option (List UInt8) → Option α
  | none => some default
  | some buffer => (unmarshal.run buffer).map Prod.fst

/-! ### One message -/

def onIdentity (identity : ℤ) : SessionPc :=
  if identity = 0 then .configSize
  else if identity = 1 then .logRequest
  else if identity = 2 then .acceptor
  else if identity = 3 then .learner
  else .leave

def onRequest (f : LaptopFactory) (e : ℤ) (request : CustomerRequest) :
    LaptopFactory × SessionPc :=
  let r := f.customerEngineer e request
  (r.1,
    if ¬request.isValid then .leave
    else if request.requestType = 1 then .order
    else match r.2 with
      | some record => .record record
      | none => .request)

def onLogRequest (f : LaptopFactory) (logReq : LogRequest) : LaptopFactory × SessionPc :=
  match f.backupEngineer logReq with
  | none => (f, .fault)
  | some f => (f, if logReq.isValid then .logResponse ⟨f.factoryId⟩ else .leave)

def onAcceptorMsg (f : LaptopFactory) (msg : PaxosMsg) : LaptopFactory × SessionPc :=
  if msg.phase < 0 then (f, .leave)
  else
    let r := f.acceptorEngineer msg
    (r.1, match r.2 with
      | some reply => .reply reply
      | none => .acceptor)

def onLearnerMsg (f : LaptopFactory) (msg : PaxosMsg) : LaptopFactory × SessionPc :=
  if msg.phase < 0 then (f, .leave) else (f.learnerEngineer msg, .learner)

/-- What the engineer `e` does after `Recv`; `buffer?` is what was received. -/
def received (o : ByteOrder) (e : ℤ) (f : LaptopFactory) (buffer? : Option (List UInt8)) :
    SessionPc → LaptopFactory × SessionPc
  | .identity => (messageOf (readInt o) (-1) buffer?).elim (f, .fault) fun identity =>
      (f, onIdentity identity)
  | .request => (messageOf (CustomerRequest.unmarshal o) {} buffer?).elim (f, .fault)
      (onRequest f e)
  | .logRequest => (messageOf (LogRequest.unmarshal o) {} buffer?).elim (f, .fault) (onLogRequest f)
  | .acceptor => (messageOf (PaxosMsg.unmarshal o) {} buffer?).elim (f, .fault) (onAcceptorMsg f)
  | .learner => (messageOf (PaxosMsg.unmarshal o) {} buffer?).elim (f, .fault) (onLearnerMsg f)
  | pc => (f, pc)

/-! ### Steps -/

/-- An engineer and its socket. -/
structure Engineer where
  pc : SessionPc := .identity
  isInitialized : Bool := true
  deriving DecidableEq

/-- The outcome of a step of an engineer. -/
structure EngineerEffect where
  factory : LaptopFactory
  engineer : Engineer
  transfer : Transfer := {}

/-- One step of the engineer `e`; `fut` is the value of its promise. -/
def engineerStep (o : ByteOrder) (e : ℤ) (f : LaptopFactory) (fut : Option LaptopInfo)
    (answers : Answers) (g : Engineer) : Option EngineerEffect :=
  match g.pc.outgoing o f, g.pc.wants, g.pc with
  | some (buffer, size), _, _ => (Socket.send answers.send buffer (intOfSize size)).map fun t =>
      { factory := f, engineer := ⟨g.pc.sent, g.isInitialized && t.ok⟩, transfer := t }
  | none, some size, _ => (Socket.recv answers.recv (intOfSize size)).map fun t =>
      let r := received o e f (if t.ok then some t.bytes else none) g.pc
      { factory := r.1, engineer := ⟨r.2, g.isInitialized && t.ok⟩, transfer := t }
  | none, none, .order => fut.map fun laptop =>
      { factory := f, engineer := { g with pc := .laptop laptop } }
  | none, none, .leave => some
      { factory := f
        engineer := ⟨.gone, false⟩
        transfer := { calls := Socket.destroy g.isInitialized } }
  | none, none, _ => none

/-- The branches of a step of an engineer. -/
inductive EngineerStep (o : ByteOrder) (e : ℤ) (f : LaptopFactory) (fut : Option LaptopInfo)
    (answers : Answers) : Engineer → EngineerEffect → Prop
  | send {g buffer size t} : g.pc.outgoing o f = some (buffer, size) →
      Socket.send answers.send buffer (intOfSize size) = some t →
      EngineerStep o e f fut answers g
        { factory := f, engineer := ⟨g.pc.sent, g.isInitialized && t.ok⟩, transfer := t }
  | recv {g size t} : g.pc.wants = some size →
      Socket.recv answers.recv (intOfSize size) = some t →
      EngineerStep o e f fut answers g
        { factory := (received o e f (if t.ok then some t.bytes else none) g.pc).1
          engineer := ⟨(received o e f (if t.ok then some t.bytes else none) g.pc).2,
            g.isInitialized && t.ok⟩
          transfer := t }
  | wake {g laptop} : g.pc = .order → fut = some laptop →
      EngineerStep o e f fut answers g
        { factory := f, engineer := { g with pc := .laptop laptop } }
  | leave {g} : g.pc = .leave →
      EngineerStep o e f fut answers g
        { factory := f
          engineer := ⟨.gone, false⟩
          transfer := { calls := Socket.destroy g.isInitialized } }

section

variable {o : ByteOrder} {e : ℤ} {f : LaptopFactory} {fut : Option LaptopInfo} {answers : Answers}
  {g : Engineer} {r : EngineerEffect} {pc : SessionPc}

theorem engineerStep_cases (h : engineerStep o e f fut answers g = some r) :
    EngineerStep o e f fut answers g r := by
  rw [engineerStep] at h
  split at h
  · next hout =>
    obtain ⟨t, ht, rfl⟩ := Option.map_eq_some_iff.1 h
    exact .send hout ht
  · next hwants =>
    obtain ⟨t, ht, rfl⟩ := Option.map_eq_some_iff.1 h
    exact .recv hwants ht
  · next hpc =>
    obtain ⟨laptop, hfut, rfl⟩ := Option.map_eq_some_iff.1 h
    exact .wake hpc hfut
  · next hpc =>
    cases h
    exact .leave hpc
  · cases h

/-- A thread does not send and receive in the same step. -/
theorem SessionPc.wants_of_outgoing {p : List UInt8 × ℕ} (h : pc.outgoing o f = some p) :
    pc.wants = none := by
  cases pc with
  | identity | request | logRequest | acceptor | learner => cases h
  | _ => rfl

/-- A thread asks for some bytes, and for few of them. -/
theorem intOfSize_wants {size : ℕ} (h : pc.wants = some size) :
    intOfSize size = size ∧ 0 < size := by
  cases pc with
  | identity | request | logRequest | acceptor | learner => cases h; decide
  | _ => cases h

/-- A failed `Recv` makes the thread leave. -/
theorem received_none (h : pc.wants ≠ none) : received o e f none pc = (f, .leave) := by
  cases pc with
  | identity | request | acceptor | learner => rfl
  | logRequest => rfl
  | _ => exact absurd rfl h

/-- What holds of the shared state before and after each handler holds after `Recv`. -/
theorem received_factory {P : LaptopFactory → Prop} {buffer? : Option (List UInt8)} (hf : P f)
    (hcustomer : ∀ q, P (f.customerEngineer e q).1)
    (hbackup : ∀ q f', f.backupEngineer q = some f' → P f')
    (hacceptor : ∀ m, P (f.acceptorEngineer m).1) (hlearner : ∀ m, P (f.learnerEngineer m)) :
    P (received o e f buffer? pc).1 := by
  have helim : ∀ {α : Type} {x : Option α} {k : α → LaptopFactory × SessionPc},
      (∀ m, P (k m).1) → P (x.elim (f, .fault) k).1 := by
    intro α x k hk
    cases x with
    | none => exact hf
    | some m => exact hk m
  cases pc with
  | identity => exact helim fun _ => hf
  | request => exact helim hcustomer
  | logRequest =>
    refine helim fun q => ?_
    rw [onLogRequest]
    split
    · exact hf
    · next h => exact hbackup q _ h
  | acceptor =>
    refine helim fun m => ?_
    rw [onAcceptorMsg]
    split_ifs
    · exact hf
    · exact hacceptor m
  | learner =>
    refine helim fun m => ?_
    rw [onLearnerMsg]
    split_ifs
    · exact hf
    · exact hlearner m
  | _ => exact hf

end

end LaptopPaxos
