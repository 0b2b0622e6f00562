import LaptopPaxos.Refinement

/-!
# The votes of a run

An acceptor keeps only the last command that it has accepted. What a majority has accepted
depends on all of them, so the network is observed, and at every step the observer writes
down what the acceptors hold (`Net.polled`). These are the votes in the history of the
cluster that the network refines (`Net.simulation_polls`).
-/

namespace LaptopPaxos

open LaptopFactory

section

variable {D : Deployment} {c c' : Cluster} {act : Action} {a n : ℤ} {v : Command}

/-- The acceptor `a` holds the command `v` with the number `n`. -/
def LaptopFactory.Holds (f : LaptopFactory) (n : ℤ) (v : Command) : Prop :=
  f.acceptedProposalNumber = n ∧ f.acceptedValue = v

/-- What an acceptor holds it has accepted. -/
theorem Voting.accepted (hc : Voting D c) (hn : 0 ≤ n) (hv : (c.factory a).Holds n v) :
    .accepted a n v ∈ c.hist := by
  obtain ⟨rfl, rfl⟩ := hv
  exact (hc.acceptor a).reports.1.resolve_left (by omega)

/-- A vote is new only when its acceptor holds it. -/
theorem PaxosStep.holds (hc : Voting D c) (h : PaxosStep D c act c')
    (hv : .accepted a n v ∈ c'.hist) :
    .accepted a n v ∈ c.hist ∨ (c'.factory a).Holds n v := by
  have hvoter : ∀ {evs : List Event}, c'.hist = evs ++ c.hist → (∀ ev ∈ evs, ev.voter = none) →
      .accepted a n v ∈ c.hist := by
    intro evs hh hevs
    refine (List.mem_append.1 (hh ▸ hv)).resolve_left fun hmem => ?_
    exact Option.some_ne_none a (hevs _ hmem)
  cases h with
  | still hst =>
    obtain ⟨evs, hh, hevs⟩ := hst.hist
    exact .inl (hvoter hh fun ev hev => Event.voter_of_aside (hevs ev hev))
  | scout _ hs => exact .inl (hvoter (Cluster.hist_applyEffect ..) hs.voter)
  | @acceptor b i msg rest _ hq =>
    obtain ⟨r, hr, hvote⟩ := vote_cases (c.factory b) (hc.sent i b msg (hq ▸ List.mem_cons_self))
    rw [Cluster.hist_acceptMsg, hr] at hv
    refine (List.mem_append.1 hv).symm.imp_right fun hmem => ?_
    rw [Cluster.factory_acceptMsg]
    generalize ((c.factory b).acceptorEngineer msg).1 = f' at hvote
    generalize Cluster.acceptorEvents b i msg (some r) = evs at hvote hmem
    cases hvote with
    | accept =>
      cases List.mem_singleton.1 hmem
      rw [if_pos rfl]
      exact ⟨rfl, rfl⟩
    | promise => cases List.mem_singleton.1 hmem
    | refuse | reject => cases hmem

end

namespace Net

/-- What the acceptors hold: the acceptor, the number and the command. The number of one
    that has accepted nothing is negative. -/
def votes (H : Hosts) (s : Net) : Set (ℤ × ℤ × Command) :=
  {x | x.1 ∈ H.acceptors ∧ 0 ≤ x.2.1 ∧ (s.node x.1).factory.Holds x.2.1 x.2.2}

/-- The network, and what its acceptors have held before. -/
abbrev Polled := Net × Set (ℤ × ℤ × Command)

/-- The network, observed for what its acceptors hold. -/
abbrev polled (H : Hosts) : Machine Polled NetAction :=
  (network H).observe ∅ fun g s _ => g ∪ s.votes H

/-- A majority of the acceptors has accepted the command, all with one number. -/
def HasMajority (H : Hosts) (p : Polled) (v : Command) : Prop :=
  ∃ n Q, Majority H.acceptors Q ∧ ∀ a ∈ Q, (a, n, v) ∈ p.2 ∪ p.1.votes H

/-- The log of the commands that a majority has accepted, in the order of their slots. -/
structure IsLog (H : Hosts) (p : Polled) (log : List Command) : Prop where
  slot : ∀ (n : ℕ) v, log[n]? = some v → v.slot = n + 1
  mem : ∀ v, v ∈ log ↔ HasMajority H p v

/-- The state of the cluster that the network is in, with the votes of the run. -/
structure Polls (H : Hosts) (p : Polled) (c : Cluster) : Prop where
  refines : p.1.Refines H c
  votes : ∀ a n v, .accepted a n v ∈ c.hist ↔ (a, n, v) ∈ p.2 ∪ p.1.votes H

section

variable {H : Hosts} {s : Net} {p : Polled} {c : Cluster} {a n : ℤ}
  {v : Command}

theorem mem_votes (h : s.Refines H c) :
    (a, n, v) ∈ s.votes H ↔ a ∈ H.acceptors ∧ 0 ≤ n ∧ (c.factory a).Holds n v := by
  rw [h.factory]
  rfl

theorem accepted_of_mem_votes (h : s.Refines H c) (hc : (cluster H.toDeployment).Reachable c)
    (hv : (a, n, v) ∈ s.votes H) : .accepted a n v ∈ c.hist := by
  obtain ⟨-, hn, hholds⟩ := (mem_votes h).1 hv
  exact (voting_of_reachable hc).accepted hn hholds

theorem polls_init (hp : p ∈ (polled H).init) : Polls H p (Cluster.init H.toDeployment) := by
  obtain ⟨hs, hg⟩ := hp
  have hR := refines_init hs
  refine ⟨hR, fun a n v => ⟨fun hv => absurd hv List.not_mem_nil, fun hv => ?_⟩⟩
  rw [hg, Set.empty_union] at hv
  exact accepted_of_mem_votes hR (.init rfl) hv

/-- A vote of the cluster is seen when it is given. -/
theorem accepted_iff_of_step {ok : Cluster → Action → Prop} {c' : Cluster}
    (hc : (cluster H.toDeployment).ReachBy ok c)
    (hst : (cluster H.toDeployment).MayStep ok c c') (hR : s.Refines H c') :
    .accepted a n v ∈ c'.hist ↔ .accepted a n v ∈ c.hist ∨ (a, n, v) ∈ s.votes H := by
  have hc' := (hc.of_stepsBy hst.to_reflTransGen).reachable
  constructor
  · intro hv
    cases hst with
    | refl => exact .inl hv
    | single hst =>
      obtain ⟨act, -, hst⟩ := hst
      have hp := (step_cases hst).paxos
      refine (hp.holds (voting_of_reachable hc.reachable) hv).imp_right fun hholds => ?_
      obtain ⟨h₁, h₂, -, ha, hn, -⟩ := (voting_of_reachable hc').inOrder.exists_split hv
      exact (mem_votes hR).2 ⟨List.mem_toFinset.2 ha, hn, hholds⟩
  · rintro (hv | hv)
    · cases hst with
      | refl => exact hv
      | single hst =>
        obtain ⟨act, -, hst⟩ := hst
        obtain ⟨evs, hh⟩ := (step_cases hst).replica.grows
        rw [hh]
        exact List.mem_append_right _ hv
    · exact accepted_of_mem_votes hR hc' hv

/-- The network with its votes refines the cluster with its history. -/
theorem simulation_polls (H : Hosts) (P : ℤ → LaptopFactory → ScoutPc → Prop) :
    (polled H).Simulation (cluster H.toDeployment)
      (fun p => p.1.OnScout fun i f pc => pc.IntSized f ∧ P i f pc)
      (LaptopPaxos.OnScout fun c i pc => P i (c.factory i) pc) (Polls H) where
  init p hp := ⟨_, rfl, polls_init hp⟩
  step p act p' c hp hc h hok hst := by
    obtain ⟨hst, hg⟩ := Machine.step_observe.1 hst
    obtain ⟨c', hsteps, hR⟩ := h.refines.step hp.of_observe hc.reachable hok hst
    refine ⟨c', hsteps.to_reflTransGen, hR, fun a n v => ?_⟩
    rw [accepted_iff_of_step hc hsteps hR, h.votes, hg]
    rfl

/-- What a majority has accepted is what is chosen in the cluster. -/
theorem Polls.hasMajority_iff (h : Polls H p c) :
    HasMajority H p v ↔ ∃ n, Chosen H.toDeployment c.hist n v :=
  exists_congr fun n => exists_congr fun _ => and_congr_right fun _ =>
    forall₂_congr fun a _ => (h.votes a n v).symm

end

/-! ### Two servers -/

namespace TwoServers

def hosts : Hosts where
  toDeployment := .numbered 2
  order _ := .little
  customer _ := .little
  fits := by decide

def init : Net where
  node i := { factory := hosts.factory i }
  client _ := { server := ⟨"127.0.0.1", 8001⟩, customerId := 7, numOrders := 1, requestType := 1 }

theorem init_mem : init ∈ (network hosts).init := ⟨_, fun _ => rfl, rfl⟩

def takes (p : Parcel) : Answers := { recv := [p.marshal .little] }

def gives (n : ℕ) : Answers := { send := [n] }

def customer (answers : Answers) : NetAction := .engineer (.customer 0 1) answers

def scout (answers : Answers) : NetAction := .scout 1 {} fun _ => answers

def client (answers : Answers) : NetAction := .client 0 { answers := answers } 1

def cmd : Command := { slot := 1, commandId := 110000000, customerId := 7, orderId := 0 }

/-- The Scout of the first server sends a message to the acceptor `a` and gets the reply. -/
def talk (a : ℤ) (m reply : PaxosMsg) : List NetAction :=
  [scout (gives 51), .engineer (.acceptor 1 a) (takes (.message (.paxosMsg m))),
    .engineer (.acceptor 1 a) (gives 51), scout (takes (.message (.paxosMsg reply)))]

/-- The order of a client at the first server, until both servers have decided it. -/
def run : List NetAction :=
  [client {}, client (gives 4), customer (takes (.word 0)),
    customer (gives 4), client (takes (.word (hosts.config 1).size)),
    customer (gives 46), client (takes (.message (.serverConfig (hosts.config 1)))),
    client (gives 12), customer (takes (.message (.customerRequest ⟨7, 0, 1⟩))),
    scout {}, scout (gives 4), .engineer (.acceptor 1 1) (takes (.word 2)),
    .engineer (.acceptor 1 2) (takes (.word 2))] ++
  talk 1 (.p1a 0) { phase := 2, agree := 1 } ++ talk 2 (.p1a 0) { phase := 2, agree := 1 } ++
  [scout {}, scout {}, scout {}] ++
  talk 1 (.p2a 0 cmd) { phase := 4, agree := 1 } ++
  talk 2 (.p2a 0 cmd) { phase := 4, agree := 1 } ++
  [scout {}, scout (gives 4), .engineer (.learner 1 1) (takes (.word 3)),
    .engineer (.learner 1 2) (takes (.word 3)), scout (gives 51), scout (gives 51),
    .engineer (.learner 1 1) (takes (.message (.paxosMsg (.learn cmd)))), scout {},
    .engineer (.learner 1 2) (takes (.message (.paxosMsg (.learn cmd))))]

end TwoServers

end Net

end LaptopPaxos
