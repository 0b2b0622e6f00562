import LaptopPaxos.Rounds
import LaptopPaxos.Lib.Bytes

/-!
# Calls of the Scout

One call of `ScoutBrocasting`, from any state of the cluster in which it begins.
An observer (`Call`) writes down what the call does.

A call is undisturbed if all acceptors are connected and reply, and handle no
messages of other Scouts meanwhile (`Undisturbed`). Everything else goes on:
orders arrive, decisions are learned, and the other Scouts take their steps.
-/

namespace LaptopPaxos

open LaptopFactory

/-! ### The observer -/

/-- What a call of `ScoutBrocasting` has done so far. -/
structure Call where
  /-- The steps of the Scout. -/
  steps : ℕ := 0
  /-- The prepare rounds that have begun. -/
  rounds : ℕ := 0
  /-- The jumps back to the start of the prepare phase. -/
  restarts : ℕ := 0
  /-- The commands of the accept phases that have begun. -/
  accepted : List Command := []
  /-- The learners to be told: those connected before, or, at the first time,
      all acceptors that do not refuse the connection. -/
  addressees : List ℤ := []
  /-- The learners that the Commander visits. -/
  learners : List ℤ := []
  /-- The messages sent to learners. -/
  learned : List (ℤ × PaxosMsg) := []
  /-- The learners to which a message could not be sent, as the peer was gone or
      the socket closed. -/
  missed : List ℤ := []
  /-- What the call has returned. -/
  result : Option ℤ := none
  deriving DecidableEq

def Event.result? : Event → Option ℤ
  | .returned _ _ result => some result
  | _ => none

/-- The learners that `CommanderBrocasting` has to tell. -/
def LaptopFactory.addressees (f : LaptopFactory) (env : Env) : List ℤ :=
  if f.commanderLearnerStubInit then f.commanderLearnerStub.keys
  else f.acceptorMap.keys.filter (· ∉ env.refused)

/-- The call after a step of the Scout at `pc`, in the state `f`, with the effect `e`. -/
def Call.after (g : Call) (f : LaptopFactory) (env : Env) (pc : ScoutPc) (e : Effect) : Call :=
  let g := { g with steps := g.steps + 1, result := e.events.findSome? Event.result? }
  match pc with
  | .connect _ => { g with rounds := g.rounds + 1 }
  | .p1a _ _ [] =>
    match e.pc with
    | .p1a .. => { g with rounds := g.rounds + 1 }
    | _ => g
  | .propose .. | .pickSlot .. =>
    match e.pc with
    | .p2a _ ph _ => { g with accepted := ph.cmd :: g.accepted }
    | _ => g
  | .p2a _ _ [] =>
    match e.pc with
    | .p1a .. => { g with rounds := g.rounds + 1, restarts := g.restarts + 1 }
    | _ => g
  | .command .. =>
    let g := { g with addressees := f.addressees env }
    match e.pc with
    | .learn _ _ learners => { g with learners := learners }
    | _ => g
  | .learn _ _ (a :: _) =>
    { g with
      learned := e.toLearner.toList ++ g.learned
      missed := if env.alive ∧ open? f.commanderLearnerStub a then g.missed else a :: g.missed }
  | _ => g

/-- The call of the Scout of `i` after an action. -/
def noteCall (i : ℤ) (g : Call) (c : Cluster) : Action → Call
  | .scout j env =>
    if j = i then
      (scoutStep i (c.factory i) (c.toScout i) env (c.scout i)).elim g
        (g.after (c.factory i) env (c.scout i))
    else g
  | _ => g

/-- The runs from the state `c₀`, with the call of the Scout of `i`. -/
def calls (D : Deployment) (i : ℤ) (c₀ : Cluster) : Machine (Cluster × Call) Action :=
  { cluster D with init := {c₀} }.observe {} (noteCall i)

/-! ### Undisturbed calls -/

/-- The stubs are those of the acceptors `K`, and all of them are open. -/
structure FullyConnected (stubs : StdMap ℤ ClientStub) (K : List ℤ) : Prop where
  keys : stubs.keys = K
  isOpen : ∀ a ∈ K, open? stubs a

instance (stubs : StdMap ℤ ClientStub) (K : List ℤ) : Decidable (FullyConnected stubs K) :=
  decidable_of_iff (stubs.keys = K ∧ ∀ a ∈ K, open? stubs a)
    ⟨fun h => ⟨h.1, h.2⟩, fun h => ⟨h.keys, h.isOpen⟩⟩

/-- The stubs of the acceptors once the Scout has connected. -/
def LaptopFactory.connected (f : LaptopFactory) (env : Env) : StdMap ℤ ClientStub :=
  if f.scoutAcceptorStubInit then f.scoutAcceptorStub else f.connectStubs f.scoutAcceptorStub env

/-- The Scout connects to the acceptors `K`, and talks to them without a failure.
    It does not begin with another order. -/
def ScoutPc.Undisturbed (K : List ℤ) (f : LaptopFactory) (env : Env) : ScoutPc → Prop
  | .idle => False
  | .connect _ => FullyConnected (f.connected env) K
  | .p1a .. | .p1b .. | .p2a .. | .p2b .. => env.alive = true
  | _ => True

instance (K : List ℤ) (f : LaptopFactory) (env : Env) :
    (pc : ScoutPc) → Decidable (pc.Undisturbed K f env)
  | .idle => isFalse id
  | .connect _ => inferInstanceAs (Decidable (FullyConnected _ K))
  | .p1a .. | .p1b .. | .p2a .. | .p2b .. => inferInstanceAs (Decidable (_ = true))
  | .propose .. | .pickSlot .. | .command .. | .learn .. | .record .. => isTrue trivial

/-- The acceptors `K` reply to the Scout of `i`, and the acceptors handle no
    messages of other Scouts. -/
def Undisturbed (i : ℤ) (K : List ℤ) (c : Cluster) : Action → Prop
  | .scout j env => j = i → (c.scout i).Undisturbed K (c.factory i) env
  | .acceptor _ j => j = i
  | .crash a => a ≠ i ∧ a ∉ K
  | _ => True

instance (i : ℤ) (K : List ℤ) (c : Cluster) : (act : Action) → Decidable (Undisturbed i K c act)
  | .scout j _ => inferInstanceAs (Decidable (j = i → _))
  | .acceptor _ j => inferInstanceAs (Decidable (j = i))
  | .crash a => inferInstanceAs (Decidable (a ≠ i ∧ a ∉ K))
  | .request .. | .backup .. | .learner .. => isTrue trivial

/-- A call of the Scout of `i` begins, with the acceptors `K`. -/
structure Ready (D : Deployment) (i : ℤ) (K : List ℤ) (c : Cluster) : Prop where
  /-- As in every reachable state. -/
  wired : Wired c
  calls : ∃ laptop, c.scout i = .connect laptop
  mem : i ∈ D.ids
  up : (c.server i).up = true
  /-- There are as many acceptors as the Scout counts, and at least one. -/
  num : (c.factory i).numOfAcceptors = K.length
  nonempty : K ≠ []
  connects : FullyConnected ((c.factory i).connected {}) K
  acceptors : ∀ a ∈ K, a ∈ D.ids ∧ (c.server a).up = true
  number : IsInt (c.factory i).proposalNumber ∧ (c.factory i).proposalNumber < 2147483647
  promised : ∀ a ∈ K, IsInt (c.promised a) ∧ c.promised a < 2147483647

end LaptopPaxos
