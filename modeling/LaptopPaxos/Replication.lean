import LaptopPaxos.Agreement
import LaptopPaxos.Lib.ReplicatedLog
import LaptopPaxos.Placed
import LaptopPaxos.Votes

/-!
# One log for all servers

What the servers do together, when the Scouts make safe choices: they keep one log. A
command is appended to it when a majority of the acceptors has accepted it, and a server
reads it when it learns it (`simulation_log`). That the log has no holes and one command for
each slot is what the proposals ensure; that nothing is ever changed in it is then a
property of logs.

The network refines the cluster and so the log (`Net.one_log`): the commands that a
majority of the acceptors has accepted so far are one log (`Net.IsLog`), which only grows;
the decision maps of all servers are parts of it, and it has only commands for orders that
clients have placed.
-/

namespace LaptopPaxos

open LaptopFactory

/-! ### The log -/

/-- The log of the commands chosen. A server knows those that it has decided. -/
structure Logs (D : Deployment) (c : Cluster) (L : ReplicatedLog ℤ Command) : Prop where
  log : ∀ (n : ℕ) v, L.log[n]? = some v ↔ v.slot = n + 1 ∧ ∃ m, Chosen D c.hist m v
  known : ∀ i (n : ℕ), n ∈ L.known i ↔ (n + 1 : ℤ) ∈ (c.factory i).decisionMap

/-- The steps as the log sees them. -/
inductive LogStep (D : Deployment) (c c' : Cluster) : Prop
  | quiet {evs : List Event} : c'.hist = evs ++ c.hist →
      (∀ a n v, .accepted a n v ∉ evs) →
      (∀ i, (c'.factory i).decisionMap = (c.factory i).decisionMap) → LogStep D c c'
  | accept {a n : ℤ} {v : Command} : c'.hist = .accepted a n v :: c.hist →
      (∀ i, (c'.factory i).decisionMap = (c.factory i).decisionMap) → LogStep D c c'
  | learn {a i : ℤ} {msg : PaxosMsg} {rest : List PaxosMsg} : a ∈ D.ids →
      c.toLearner i a = msg :: rest → c' = c.learnMsg a i msg rest → LogStep D c c'

section

variable {D : Deployment} {c c' : Cluster} {act : Action} {h evs : List Event} {i a m n : ℤ}
  {v w : Command} {L : ReplicatedLog ℤ Command}

/-! ### Steps -/

theorem ScoutStep.not_accepted {f : LaptopFactory} {inbox : ℤ → List PaxosMsg} {env : Env}
    {pc : ScoutPc} {e : Effect} (hs : ScoutStep i f inbox env pc e) :
    .accepted a n v ∉ e.events := by
  cases hs <;> simp [scoutReturn, LaptopPaxos.pickSlot, scoutConnect, commanderConnect, recordOrder]

theorem Quiet.decisionMap (h : Quiet c c') (i : ℤ) :
    (c'.factory i).decisionMap = (c.factory i).decisionMap :=
  (h.sameReplica i).decisionMap

/-- A step without a vote and without a decision. -/
theorem LogStep.of_still (h : Still c c') (hq : ReplicaStep D c act c')
    (hact : ∀ i env, act ≠ .scout i env) (hlearn : ∀ a i, act ≠ .learner a i) :
    LogStep D c c' := by
  obtain ⟨evs, hh, hevs⟩ := h.hist
  refine .quiet hh (fun a n v hmem => hevs _ hmem) ?_
  cases hq with
  | quiet hst => exact hst.decisionMap
  | scout => exact absurd rfl (hact _ _)
  | learner => exact absurd rfl (hlearn _ _)

theorem Step.log (hr : (cluster D).Reachable c) (h : Step D c act c') : LogStep D c c' := by
  have hp := h.paxos
  have hq := h.replica
  cases h with
  | scout hi hs =>
    refine .quiet (Cluster.hist_applyEffect ..) (fun a n v => hs.not_accepted) fun j => ?_
    rw [Cluster.factory_applyEffect]
    split_ifs with hj
    · exact hj ▸ hs.frame.2.1.decisionMap
    · rfl
  | @acceptor a i msg rest ha hmsg =>
    have hmap : ∀ j, ((c.acceptMsg a i msg rest).factory j).decisionMap =
        (c.factory j).decisionMap := by
      cases hq with
      | quiet hst => exact hst.decisionMap
    obtain ⟨r, hrep, hvote⟩ := vote_cases (c.factory a)
      ((voting_of_reachable hr).sent i a msg (hmsg ▸ List.mem_cons_self))
    have hh : (c.acceptMsg a i msg rest).hist =
        Cluster.acceptorEvents a i msg (some r) ++ c.hist := by
      rw [Cluster.hist_acceptMsg, hrep]
    generalize ((c.factory a).acceptorEngineer msg).1 = f' at hvote
    generalize Cluster.acceptorEvents a i msg (some r) = evs at hvote hh
    cases hvote with
    | accept => exact .accept hh hmap
    | _ => exact .quiet hh (by simp) hmap
  | learner ha hmsg => exact .learn ha hmsg rfl
  | request hi =>
    cases hp with
    | still hst => exact .of_still hst hq nofun nofun
  | backup hi hf =>
    cases hp with
    | still hst => exact .of_still hst hq nofun nofun
  | crash hi =>
    cases hp with
    | still hst => exact .of_still hst hq nofun nofun

/-! ### Chosen commands -/

theorem Chosen.of_append (hc : Chosen D (evs ++ h) n v) (hevs : ∀ a n v, .accepted a n v ∉ evs) :
    Chosen D h n v := by
  obtain ⟨Q, hQ, hacc⟩ := hc
  exact ⟨Q, hQ, fun a ha => (List.mem_append.1 (hacc a ha)).resolve_left (hevs a n v)⟩

/-- A vote is for one command. -/
theorem Chosen.of_cons (hc : Chosen D (.accepted a m w :: h) n v) : Chosen D h n v ∨ v = w := by
  by_cases hv : v = w
  · exact .inr hv
  · obtain ⟨Q, hQ, hacc⟩ := hc
    refine .inl ⟨Q, hQ, fun b hb => ?_⟩
    rcases List.mem_cons.1 (hacc b hb) with heq | hmem
    · cases heq
      exact absurd rfl hv
    · exact hmem

/-- Along the runs of safe choices one command is chosen for a slot. -/
theorem chosen_unique (hs : (cluster D).ReachBy (OnScout (SafeChoice D)) c)
    (hv : Chosen D c.hist m v) (hw : Chosen D c.hist n w) (hslot : v.slot = w.slot) : v = w := by
  have hh := explained_of_reachable hs.reachable
  have helected := elected_of_reachBy (hs.mono fun _ _ => .mono fun _ _ _ hok => hok.1)
  have hlater := ownLater_of_reachBy (hs.mono fun _ _ => .mono fun _ _ _ hok => hok.2)
  have hg := guided_ballots hh helected hlater
  rcases hg.rel_of_chosen_chosen hv hw with hvw | (hvw | hlt) | (hwv | hlt)
  · exact hvw
  · exact hvw
  · omega
  · exact hwv.symm
  · omega

/-- The slots below a command that is accepted have been chosen. -/
theorem noGap_of_accepted (hh : Explained D h) (ha : .accepted a n v ∈ h) : NoGap D h v.slot := by
  obtain ⟨i, own, l, hl⟩ := hh.proposed_of_accepted ha
  exact hh.noGap hl

theorem Chosen.noGap (hh : Explained D h) (hc : Chosen D h n v) : NoGap D h v.slot := by
  obtain ⟨a, ha⟩ := hc.exists_accepted
  exact noGap_of_accepted hh ha

/-! ### The refinement -/

theorem logs_init (D : Deployment) : Logs D (Cluster.init D) {} where
  log n v := by
    refine ⟨nofun, fun ⟨_, m, hm⟩ => ?_⟩
    obtain ⟨a, ha⟩ := hm.exists_accepted
    exact absurd ha List.not_mem_nil
  known i n := by
    obtain ⟨m, s, h, -⟩ := D.factory_eq i
    change n ∈ (∅ : Set ℕ) ↔ _ ∈ (D.factory i).decisionMap
    rw [h]
    exact ⟨fun hn => absurd hn (Set.notMem_empty n), fun hn => absurd hn (StdMap.not_mem_iff.2 rfl)⟩

/-- Where nothing new is chosen or decided, the log is the same. -/
theorem Logs.congr (hL : Logs D c L)
    (hchosen : ∀ v, (∃ m, Chosen D c'.hist m v) ↔ ∃ m, Chosen D c.hist m v)
    (hmap : ∀ i, (c'.factory i).decisionMap = (c.factory i).decisionMap) : Logs D c' L where
  log n v := by rw [hL.log, hchosen]
  known i n := by rw [hL.known, hmap]

/-- A command that is chosen now, and was not before, is the next one of the log. -/
theorem Logs.slot_eq (hL : Logs D c L) (hs : (cluster D).ReachBy (OnScout (SafeChoice D)) c)
    (hs' : (cluster D).ReachBy (OnScout (SafeChoice D)) c')
    (hh : c'.hist = .accepted a n v :: c.hist) (hold : ¬∃ m, Chosen D c.hist m v)
    (hnew : ∃ m, Chosen D c'.hist m v) : v.slot = L.log.length + 1 := by
  have hgap : NoGap D c.hist v.slot := by
    obtain ⟨i, own, l, hl⟩ := (explained_of_reachable hs'.reachable).proposed_of_accepted
      (hh ▸ List.mem_cons_self)
    rw [hh] at hl
    exact (explained_of_reachable hs.reachable).noGap (mem_of_ne hl nofun)
  obtain ⟨hone, hbelow⟩ := hgap
  have hle : v.slot ≤ L.log.length + 1 := by
    by_contra! hlt
    obtain ⟨m, w, hw, hm⟩ := hbelow (L.log.length + 1) (by omega) hlt
    have hnext := (hL.log _ w).2 ⟨hw, m, hm⟩
    rw [List.getElem?_eq_none le_rfl] at hnext
    cases hnext
  refine le_antisymm hle ?_
  by_contra! hlt
  -- the slot would have a command already, which is the one chosen now
  obtain ⟨k, hk⟩ : ∃ k : ℕ, v.slot = k + 1 := ⟨(v.slot - 1).toNat, by omega⟩
  have hlen : k < L.log.length := by omega
  obtain ⟨hw, m, hm⟩ := (hL.log k _).1 (List.getElem?_eq_getElem hlen)
  obtain ⟨m', hm'⟩ := hnew
  have hm₁ := hm.mono [.accepted a n v]
  rw [List.singleton_append, ← hh] at hm₁
  rw [chosen_unique hs' hm₁ hm' (hw.trans hk.symm)] at hm
  exact hold ⟨m, hm⟩

/-- The log with one more command. -/
theorem Logs.append (hL : Logs D c L) (hh : c'.hist = .accepted a n v :: c.hist)
    (hmap : ∀ i, (c'.factory i).decisionMap = (c.factory i).decisionMap)
    (hnew : ∃ m, Chosen D c'.hist m v) (hslot : v.slot = L.log.length + 1) :
    Logs D c' { L with log := L.log ++ [v] } := by
  refine ⟨fun k w => ?_, fun i k => (hL.known i k).trans (by rw [hmap])⟩
  constructor
  · intro hw
    by_cases hk : k < L.log.length
    · rw [List.getElem?_append_left hk, hL.log] at hw
      obtain ⟨hw, m, hm⟩ := hw
      refine ⟨hw, m, ?_⟩
      rw [hh]
      exact hm.mono [_]
    · rw [List.getElem?_append_right (not_lt.1 hk)] at hw
      obtain ⟨hlt, heq⟩ := List.getElem?_eq_some_iff.1 hw
      rw [List.length_singleton] at hlt
      rw [List.getElem_singleton] at heq
      subst heq
      exact ⟨by omega, hnew⟩
  · rintro ⟨hw, m, hm⟩
    rw [hh] at hm
    rcases hm.of_cons with hm | rfl
    · have hold := (hL.log k w).2 ⟨hw, m, hm⟩
      rw [List.getElem?_append_left (List.getElem?_eq_some_iff.1 hold).1]
      exact hold
    · obtain rfl : k = L.log.length := by omega
      exact List.getElem?_concat_length

/-- A server that learns reads the log. -/
theorem Logs.read {msg : PaxosMsg} {rest : List PaxosMsg} (hL : Logs D c L)
    (hr : (cluster D).Reachable c) (hq : c.toLearner i a = msg :: rest) :
    ∃ n L', L.step (.read a n) = some L' ∧ Logs D (c.learnMsg a i msg rest) L' := by
  obtain ⟨v, m, rfl, hm⟩ :=
    (deciding_of_reachable hr).toLearner i a msg (hq ▸ List.mem_cons_self)
  obtain ⟨hone, -⟩ := hm.noGap (explained_of_reachable hr)
  obtain ⟨n, hn⟩ : ∃ n : ℕ, v.slot = n + 1 := ⟨(v.slot - 1).toNat, by omega⟩
  obtain ⟨hlen, -⟩ := List.getElem?_eq_some_iff.1 ((hL.log n v).2 ⟨hn, m, hm⟩)
  have hchosen : ∀ {k w}, Chosen D (.learned a v :: c.hist) k w → Chosen D c.hist k w :=
    fun {k w} hc => (show Chosen D ([.learned a v] ++ c.hist) k w from hc).of_append (by simp)
  refine ⟨n, _, if_pos hlen, fun k w => ?_, fun j k => ?_⟩
  · change L.log[k]? = some w ↔ _ ∧ ∃ m, Chosen D (.learned a v :: c.hist) m w
    rw [hL.log]
    exact and_congr_right fun _ => ⟨fun ⟨m, hm⟩ => ⟨m, hm.mono [_]⟩, fun ⟨m, hm⟩ => ⟨m, hchosen hm⟩⟩
  · have hmap : ((c.factory a).learnerEngineer (.learn v)).decisionMap =
        (c.factory a).decisionMap.insert v.slot v := by
      rw [learnerEngineer_learn, learn_decisionMap]
    change k ∈ Function.update L.known a (insert n (L.known a)) j ↔ _
    rw [Cluster.factory_learnMsg]
    by_cases hj : j = a
    · subst hj
      rw [Function.update_self, if_pos rfl, hmap, StdMap.mem_insert, Set.mem_insert_iff, hL.known]
      refine or_congr_left ⟨fun h => ?_, fun h => ?_⟩ <;> omega
    · rw [Function.update_of_ne hj, if_neg hj, hL.known]

theorem Logs.step (hL : Logs D c L) (hs : (cluster D).ReachBy (OnScout (SafeChoice D)) c)
    (hs' : (cluster D).ReachBy (OnScout (SafeChoice D)) c') (hst : LogStep D c c') :
    ∃ L', (replicatedLog ℤ Command).StepsBy (fun _ _ => True) L L' ∧ Logs D c' L' := by
  cases hst with
  | quiet hh hevs hmap =>
    refine ⟨L, .refl, hL.congr (fun v => ?_) hmap⟩
    rw [hh]
    exact ⟨fun ⟨m, hm⟩ => ⟨m, hm.of_append hevs⟩, fun ⟨m, hm⟩ => ⟨m, hm.mono _⟩⟩
  | @accept a n v hh hmap =>
    have hmono : ∀ {m w}, Chosen D c.hist m w → Chosen D c'.hist m w :=
      fun hm => hh ▸ hm.mono [.accepted a n v]
    by_cases hnew : (∃ m, Chosen D c'.hist m v) ∧ ¬∃ m, Chosen D c.hist m v
    · have hslot := hL.slot_eq hs hs' hh hnew.2 hnew.1
      exact ⟨_, .single (a := .append v) trivial rfl, hL.append hh hmap hnew.1 hslot⟩
    · refine ⟨L, .refl, hL.congr (fun w => ⟨fun ⟨m, hm⟩ => ?_, fun ⟨m, hm⟩ => ⟨m, hmono hm⟩⟩) hmap⟩
      rcases (hh ▸ hm : Chosen D (.accepted a n v :: c.hist) m w).of_cons with hold | rfl
      · exact ⟨m, hold⟩
      · exact not_not.1 (not_and.1 hnew ⟨m, hm⟩)
  | learn ha hq heq =>
    subst heq
    obtain ⟨n, L', hst, hL'⟩ := hL.read hs.reachable hq
    exact ⟨L', .single (a := .read _ n) trivial hst, hL'⟩

/-- The cluster refines the log. -/
theorem simulation_log (D : Deployment) :
    (cluster D).Simulation (replicatedLog ℤ Command) (OnScout (SafeChoice D)) (fun _ _ => True)
      (Logs D) where
  init c hc := ⟨{}, rfl, by rw [show c = Cluster.init D from hc]; exact logs_init D⟩
  step c act c' L hs _ hL hok hst :=
    hL.step hs (.step hs hok hst) ((step_cases hst).log hs.reachable)

/-- What a server knows of the log are its decisions. -/
theorem Logs.knows_iff (hL : Logs D c L) (hs : (cluster D).ReachBy (OnScout (SafeChoice D)) c)
    {k : ℕ} : L.Knows i k v ↔ (c.factory i).decisionMap.find? (k + 1) = some v := by
  have hd := deciding_of_reachable hs.reachable
  have hlog : ∀ {w}, (c.factory i).decisionMap.find? (k + 1) = some w → L.log[k]? = some w := by
    intro w hw
    obtain ⟨hslot, hlearn⟩ := hd.decided i _ w hw
    obtain ⟨n, hn⟩ := chosen_of_learned hd.backed hlearn
    exact (hL.log k w).2 ⟨hslot, n, hn⟩
  constructor
  · rintro ⟨hk, hv⟩
    obtain ⟨w, hw⟩ := StdMap.exists_find? ((hL.known i k).1 hk)
    rw [hw, ← hv, hlog hw]
  · intro hv
    exact ⟨(hL.known i k).2 (StdMap.mem_of_find? hv), hlog hv⟩

end

/-! ### On the network -/

/-- `SafeChoice` of the Scout on its server. -/
def LaptopFactory.SafeChoice (acceptors : Finset ℤ) (f : LaptopFactory) : ScoutPc → Prop
  | .propose _ l => Majority acceptors (l.promisers f.proposalNumber)
  | .pickSlot _ l => l.acceptorAcceptedProposal ≠ -1 →
      ∀ t, 1 ≤ t → t ≤ l.cmd.slot → t ∈ f.decisionMap
  | _ => True

instance (acceptors : Finset ℤ) (f : LaptopFactory) :
    (pc : ScoutPc) → Decidable (f.SafeChoice acceptors pc)
  | .propose _ _ => inferInstanceAs (Decidable (Majority _ _))
  | .pickSlot _ _ => inferInstanceAs (Decidable (_ → _))
  | .idle | .connect .. | .p1a .. | .p1b .. | .p2a .. | .p2b .. | .command .. | .learn ..
  | .record .. => isTrue trivial

namespace Net

/-- The Scouts send `int`s and make safe choices. -/
def Safe (H : Hosts) : Net → NetAction → Prop :=
  OnScout fun _ f pc => pc.IntSized f ∧ f.SafeChoice H.acceptors pc

instance (H : Hosts) (s : Net) (act : NetAction) : Decidable (Safe H s act) :=
  inferInstanceAs (Decidable (s.OnScout _ act))

/-- The state of the network and the log of its servers. -/
def Logs (H : Hosts) (s : Net) (L : ReplicatedLog ℤ Command) : Prop :=
  ∃ c, (cluster H.toDeployment).ReachBy (LaptopPaxos.OnScout (SafeChoice H.toDeployment)) c ∧
    s.Refines H c ∧ LaptopPaxos.Logs H.toDeployment c L

/-- The decisions of all servers are in the log. -/
def Decides (s : Net) (log : List Command) : Prop :=
  ∀ i slot v, (s.node i).factory.decisionMap.find? slot = some v →
    ∃ n : ℕ, slot = n + 1 ∧ log[n]? = some v

/-- The votes of the run and the log of the servers. -/
def VoteLog (H : Hosts) (p : Polled) (L : ReplicatedLog ℤ Command) : Prop :=
  ∃ c, (cluster H.toDeployment).ReachBy (LaptopPaxos.OnScout (SafeChoice H.toDeployment)) c ∧
    Polls H p c ∧ LaptopPaxos.Logs H.toDeployment c L

/-- The servers keep the log of the commands that a majority has accepted: all decide along
    it, and its commands are for orders that have been placed. -/
structure KeepsLog (H : Hosts) (p : Polled) (log : List Command) : Prop extends
    IsLog H p log where
  decides : p.1.Decides log
  placed : ∀ v ∈ log, ∃ cl i, p.1.Placed cl i v.order

section

variable {H : Hosts} {s s' : Net} {p p' : Polled} {i slot : ℤ} {v : Command}
  {L : ReplicatedLog ℤ Command}

theorem safeChoice_iff {D : Deployment} {c : Cluster} {pc : ScoutPc} :
    SafeChoice D c i pc ↔ (c.factory i).SafeChoice D.acceptors pc := by
  cases pc with
  | propose => exact and_iff_left trivial
  | pickSlot => exact and_iff_right trivial
  | _ => exact and_iff_left trivial

theorem onScout_safeChoice (H : Hosts) :
    (LaptopPaxos.OnScout fun c i pc => (c.factory i).SafeChoice H.acceptors pc) =
      LaptopPaxos.OnScout (SafeChoice H.toDeployment) := by
  funext c act
  cases act with
  | scout => exact propext safeChoice_iff.symm
  | _ => rfl

/-- The network refines the log, by way of the cluster. -/
theorem simulation_log (H : Hosts) : (network H).Simulation (replicatedLog ℤ Command) (Safe H)
    (fun _ _ => True) (Logs H) := by
  have hcluster := simulation H fun _ f pc => f.SafeChoice H.acceptors pc
  rw [onScout_safeChoice] at hcluster
  exact hcluster.comp (LaptopPaxos.simulation_log H.toDeployment)

/-- The log is that of the votes of the run. -/
theorem simulation_votes (H : Hosts) : (polled H).Simulation (replicatedLog ℤ Command)
    (fun p => Safe H p.1) (fun _ _ => True) (VoteLog H) := by
  have hcluster := simulation_polls H fun _ f pc => f.SafeChoice H.acceptors pc
  rw [onScout_safeChoice] at hcluster
  exact hcluster.comp (LaptopPaxos.simulation_log H.toDeployment)

theorem Logs.knows_iff (hL : s.Logs H L) {k : ℕ} :
    L.Knows i k v ↔ (s.node i).factory.decisionMap.find? (k + 1) = some v := by
  obtain ⟨c, hc, hR, hL⟩ := hL
  rw [hL.knows_iff hc, hR.factory]

theorem Logs.exists_slot (hL : s.Logs H L)
    (hv : (s.node i).factory.decisionMap.find? slot = some v) :
    ∃ k : ℕ, slot = k + 1 ∧ L.Knows i k v := by
  have hone : 1 ≤ slot := by
    obtain ⟨c, hc, hR, -⟩ := hL
    rw [← hR.factory] at hv
    have hd := deciding_of_reachable hc.reachable
    obtain ⟨rfl, hlearn⟩ := hd.decided i slot v hv
    obtain ⟨n, hn⟩ := chosen_of_learned hd.backed hlearn
    exact (hn.noGap (explained_of_reachable hc.reachable)).1
  obtain ⟨k, rfl⟩ : ∃ k : ℕ, slot = k + 1 := ⟨(slot - 1).toNat, by omega⟩
  exact ⟨k, rfl, hL.knows_iff.2 hv⟩

theorem Logs.decides (hL : s.Logs H L) : s.Decides L.log := by
  intro i slot v hv
  obtain ⟨k, hk, -, hlog⟩ := hL.exists_slot hv
  exact ⟨k, hk, hlog⟩

/-- The commands of the log are for orders that have been placed. -/
theorem Logs.placed (hL : s.Logs H L) (hs : (network H).Reachable s) (hv : v ∈ L.log) :
    ∃ cl i, s.Placed cl i v.order := by
  obtain ⟨c, hc, hR, hL⟩ := hL
  obtain ⟨n, hn⟩ := List.getElem?_of_mem hv
  obtain ⟨-, m, hm⟩ := (hL.log n v).1 hn
  obtain ⟨a, ha⟩ := hm.exists_accepted
  obtain ⟨j, own, l, hl⟩ := (explained_of_reachable hc.reachable).proposed_of_accepted ha
  obtain ⟨-, -, i, hi⟩ := valid_of_proposed hc.reachable hl
  obtain ⟨cl, hcl⟩ := hR.placed (regular_of_reachable hs) hi
  exact ⟨cl, i, hcl⟩

/-- The logs before and after some steps. -/
theorem exists_logs (hs : (network H).ReachBy (Safe H) s)
    (hsteps : (network H).StepsBy (Safe H) s s') :
    ∃ L L', L ≤ L' ∧ s.Logs H L ∧ s'.Logs H L' := by
  have hsim := simulation_log H
  obtain ⟨L, hL, hlog⟩ := hsim.reach hs
  obtain ⟨L', hLsteps, hlog'⟩ := hsim.steps hs hL hlog hsteps
  exact ⟨L, L', ReplicatedLog.steps_le hLsteps, hlog, hlog'⟩

theorem Logs.decision_mono {L' : ReplicatedLog ℤ Command} (hL : s.Logs H L) (hL' : s'.Logs H L')
    (hle : L ≤ L') (hv : (s.node i).factory.decisionMap.find? slot = some v) :
    (s'.node i).factory.decisionMap.find? slot = some v := by
  obtain ⟨k, rfl, hknows⟩ := hL.exists_slot hv
  exact hL'.knows_iff.1 (hknows.mono hle)

theorem Polls.isLog {c : Cluster} (hP : Polls H p c) (hc : (cluster H.toDeployment).Reachable c)
    (hL : LaptopPaxos.Logs H.toDeployment c L) : IsLog H p L.log where
  slot n v hv := ((hL.log n v).1 hv).1
  mem v := by
    rw [hP.hasMajority_iff]
    constructor
    · intro hv
      obtain ⟨n, hn⟩ := List.getElem?_of_mem hv
      exact ((hL.log n v).1 hn).2
    · rintro ⟨m, hm⟩
      obtain ⟨hone, -⟩ := hm.noGap (explained_of_reachable hc)
      obtain ⟨n, hn⟩ : ∃ n : ℕ, v.slot = n + 1 := ⟨(v.slot - 1).toNat, by omega⟩
      exact List.mem_of_getElem? ((hL.log n v).2 ⟨hn, m, hm⟩)

theorem VoteLog.logs (h : VoteLog H p L) : p.1.Logs H L := by
  obtain ⟨c, hc, hP, hL⟩ := h
  exact ⟨c, hc, hP.refines, hL⟩

theorem VoteLog.keepsLog (h : VoteLog H p L) (hp : (network H).Reachable p.1) :
    KeepsLog H p L.log := by
  have hlog := h.logs
  obtain ⟨c, hc, hP, hL⟩ := h
  exact ⟨hP.isLog hc.reachable hL, hlog.decides, fun v hv => hlog.placed hp hv⟩

/-- At any time all servers decide along one log, which is that of the commands a majority
    has accepted. From then on it is only extended at its end, and no decision is changed. -/
theorem one_log (hp : (polled H).ReachBy (fun p => Safe H p.1) p) :
    ∃ log, KeepsLog H p log ∧ ∀ p', (polled H).StepsBy (fun p => Safe H p.1) p p' →
      ∃ log', log <+: log' ∧ KeepsLog H p' log' ∧
        ∀ i slot v, (p.1.node i).factory.decisionMap.find? slot = some v →
          (p'.1.node i).factory.decisionMap.find? slot = some v := by
  have hsim := simulation_votes H
  obtain ⟨L, hL, hvote⟩ := hsim.reach hp
  refine ⟨L.log, hvote.keepsLog hp.of_observe, fun p' hsteps => ?_⟩
  obtain ⟨L', hLsteps, hvote'⟩ := hsim.steps hp hL hvote hsteps
  have hle := ReplicatedLog.steps_le hLsteps
  exact ⟨L'.log, hle.1, hvote'.keepsLog (hp.of_stepsBy hsteps).of_observe,
    fun i slot v hv => hvote.logs.decision_mono hvote'.logs hle hv⟩

/-- Before and after the run of an order, between two servers. -/
theorem one_log_order : ∃ (p : Polled) (log log' : List Command),
    KeepsLog TwoServers.hosts (TwoServers.init, ∅) log ∧ log <+: log' ∧
      KeepsLog TwoServers.hosts p log' ∧
      ∀ i ∈ TwoServers.hosts.ids,
        (p.1.node i).factory.decisionMap.find? 1 = some TwoServers.cmd := by
  have hrun : ((polled TwoServers.hosts).runBy (fun p => Safe TwoServers.hosts p.1) TwoServers.run
      (TwoServers.init, ∅)).any
        (fun p => ∀ i ∈ TwoServers.hosts.ids,
          (p.1.node i).factory.decisionMap.find? 1 = some TwoServers.cmd) = true := by
    decide +kernel
  obtain ⟨p, hsteps, hdec⟩ := Machine.StepsBy.exists_of_runBy _ hrun
  obtain ⟨log, hlog, hfuture⟩ := one_log (p := (TwoServers.init, ∅))
    (.init ⟨TwoServers.init_mem, rfl⟩)
  obtain ⟨log', hpre, hlog', -⟩ := hfuture p hsteps
  exact ⟨p, log, log', hlog, hpre, hlog', hdec⟩

end

end Net

end LaptopPaxos
