import LaptopPaxos.PreparePhase

/-!
# The accept and learn phases

A Scout that has counted `acceptNumber` agreements in an accept phase has as
many different acceptors that accepted its command with its number
(`AcceptOk.counted`): the loop visits each acceptor once, and an agreement is
the acceptor's own. So what a Commander sends and what a learner stores has
been chosen.

* `Deciding` is the invariant, `deciding_of_reachable` its proof;
* `only_chosen_learned` is the result: only chosen commands are on their way to
  a learner, or decided.
-/

namespace LaptopPaxos

open LaptopFactory

/-- An accept phase for the command of `ph`, with the number `n` and the
    acceptors `todo` still to ask. -/
structure AcceptOk (h : List Event) (i n : ℤ) (ph : Accept) (todo : List ℤ) : Prop where
  proposed : ∃ l, .proposed i n ph.cmd ph.own l ∈ h
  nodup : todo.Nodup
  counted : ∃ A : Finset ℤ, A.card = ph.acceptNumber ∧ (∀ a ∈ A, a ∉ todo) ∧
    AllAccepted h A n ph.cmd

/-- What holds in the accept and learn phases of the Scout of `i`. -/
def ScoutPc.Deciding (D : Deployment) (h : List Event) (i n : ℤ) : ScoutPc → Prop
  | .p2a _ ph iter => AcceptOk h i n ph iter
  | .p2b _ ph a iter => AcceptOk h i n ph (a :: iter)
  | .command _ cmd | .learn _ cmd _ => ∃ m, Chosen D h m cmd
  | _ => True

/-- A command is sent to the acceptors after it was proposed, and learned after
    it was chosen. -/
def Event.Backed (D : Deployment) : Event → List Event → Prop
  | .p2aSent i _ n v own, h => ∃ l, .proposed i n v own l ∈ h
  | .learned a v, h => a ∈ D.ids ∧ ∃ n, Chosen D h n v
  | _, _ => True

/-- The Scouts, the Commanders and the learners deal with chosen commands. -/
structure Deciding (D : Deployment) (c : Cluster) : Prop where
  config : ∀ i, SameConfig (D.factory i) (c.factory i)
  scout : ∀ i, (c.scout i).Deciding D c.hist i (c.factory i).proposalNumber
  toLearner : ∀ i a m, m ∈ c.toLearner i a → ∃ v n, m = .learn v ∧ Chosen D c.hist n v
  decided : ∀ i s v, (c.factory i).decisionMap.find? s = some v → v.slot = s ∧ .learned i v ∈ c.hist
  learned : ∀ i v, .learned i v ∈ c.hist → v.slot ∈ (c.factory i).decisionMap
  backed : Justified (Event.Backed D) c.hist

/-! ### Counting an agreement -/

section

variable {D : Deployment} {h : List Event} {i n a : ℤ} {ph : Accept} {todo : List ℤ}
  {v : Command} {m : PaxosMsg}

theorem AllAccepted.mono {A : Finset ℤ} (hA : AllAccepted h A n v) (evs : List Event) :
    AllAccepted (evs ++ h) A n v := fun a ha => List.mem_append_right _ (hA a ha)

theorem Chosen.mono (hc : Chosen D h n v) (evs : List Event) : Chosen D (evs ++ h) n v := by
  obtain ⟨Q, hQ, hacc⟩ := hc
  exact ⟨Q, hQ, hacc.mono evs⟩

theorem Chosen.exists_accepted (hc : Chosen D h n v) : ∃ a, .accepted a n v ∈ h := by
  obtain ⟨Q, hQ, hacc⟩ := hc
  obtain ⟨a, ha⟩ := hQ.nonempty
  exact ⟨a, hacc a ha⟩

/-- What is learned has been chosen. -/
theorem chosen_of_learned (hh : Justified (Event.Backed D) h) (hl : .learned a v ∈ h) :
    ∃ n, Chosen D h n v := by
  obtain ⟨h₁, h₂, rfl, -, n, hn⟩ := hh.exists_suffix hl
  exact ⟨n, hn.mono h₁⟩

namespace AcceptOk

theorem mono (hp : AcceptOk h i n ph todo) (evs : List Event) :
    AcceptOk (evs ++ h) i n ph todo := by
  obtain ⟨⟨l, hl⟩, hnd, A, hA, hdisj, hacc⟩ := hp
  exact ⟨⟨l, List.mem_append_right _ hl⟩, hnd, A, hA, hdisj, hacc.mono evs⟩

theorem start {l : Prepare} (hl : .proposed i n ph.cmd ph.own l ∈ h) (hph : ph.acceptNumber = 0)
    (hnd : todo.Nodup) : AcceptOk h i n ph todo :=
  ⟨⟨l, hl⟩, hnd, ∅, by simp [hph], by simp, fun a ha => absurd ha (Finset.notMem_empty a)⟩

/-- The next acceptor is passed without an agreement. -/
theorem skip (hp : AcceptOk h i n ph (a :: todo)) : AcceptOk h i n ph todo := by
  obtain ⟨hl, hnd, A, hA, hdisj, hacc⟩ := hp
  exact ⟨hl, (List.nodup_cons.1 hnd).2, A, hA,
    fun b hb hmem => hdisj b hb (List.mem_cons_of_mem _ hmem), hacc⟩

theorem receive (hp : AcceptOk h i n ph (a :: todo))
    (hm : m.isAgree → .accepted a n ph.cmd ∈ h) : AcceptOk h i n (ph.receive m) todo := by
  rw [Accept.receive]
  split_ifs with hagree
  · obtain ⟨hl, hnd, A, hA, hdisj, hacc⟩ := hp
    obtain ⟨ha, hnd⟩ := List.nodup_cons.1 hnd
    -- the acceptor has not been counted yet
    have hnew : a ∉ A := fun h => hdisj a h List.mem_cons_self
    refine ⟨hl, hnd, insert a A, by rw [Finset.card_insert_of_notMem hnew, hA],
      fun b hb => ?_, fun b hb => ?_⟩ <;> rcases Finset.mem_insert.1 hb with rfl | hb
    · exact ha
    · exact fun hmem => hdisj b hb (List.mem_cons_of_mem _ hmem)
    · exact hm hagree
    · exact hacc b hb
  · exact hp.skip

/-- More than half of the acceptors counted is a majority. -/
theorem chosen (hp : AcceptOk h i n ph todo) (hh : Justified (Event.InOrder D) h)
    (hc : D.acceptors.card / 2 < ph.acceptNumber) : Chosen D h n ph.cmd := by
  obtain ⟨-, -, A, hA, -, hacc⟩ := hp
  refine ⟨A, ⟨fun a ha => ?_, hA ▸ hc⟩, hacc⟩
  obtain ⟨h₁, h₂, -, hmem, -⟩ := hh.exists_split (hacc a ha)
  exact List.mem_toFinset.2 hmem

end AcceptOk

theorem ScoutPc.Deciding.mono {pc : ScoutPc} (hpc : pc.Deciding D h i n) (evs : List Event) :
    pc.Deciding D (evs ++ h) i n := by
  cases pc with
  | p2a => exact AcceptOk.mono hpc evs
  | p2b => exact AcceptOk.mono hpc evs
  | command => exact hpc.imp fun _ hc => hc.mono evs
  | learn => exact hpc.imp fun _ hc => hc.mono evs
  | _ => trivial

end

/-! ### Steps -/

section

variable {D : Deployment} {i : ℤ} {f : LaptopFactory} {inbox : ℤ → List PaxosMsg} {env : Env}
  {pc : ScoutPc} {e : Effect} {h : List Event}

/-- A step of the Scout keeps what holds at its control points, provided that
    an agreement it reads is true. -/
theorem ScoutStep.deciding (hs : ScoutStep i f inbox env pc e)
    (hpc : pc.Deciding D h i f.proposalNumber) (hh : Justified (Event.InOrder D) h)
    (hN : f.numOfAcceptors = D.acceptors.card)
    (hrep : ∀ a n v, pc.asked f.proposalNumber = some (a, .p2a n v) → ∀ r ∈ inbox a,
      r.isAgree → .accepted a n v ∈ h) :
    e.pc.Deciding D (e.events ++ h) i e.factory.proposalNumber := by
  cases hs with
  | connect =>
    rw [scoutConnect]
    split_ifs <;> trivial
  | chooseOther => exact .start List.mem_cons_self rfl (StdMap.keys_nodup _)
  | pickSlot => exact .start List.mem_cons_self rfl (StdMap.keys_nodup _)
  | @sendP2a laptop ph a iter =>
    have hpc := AcceptOk.mono hpc [.p2aSent i a f.proposalNumber ph.cmd ph.own]
    exact ⟨hpc.proposed, hpc.nodup, hpc.counted⟩
  | failP2a => exact AcceptOk.skip hpc
  -- the reply counts if it agrees, and then it is true
  | @receiveP2b laptop ph a iter m rest hm =>
    exact AcceptOk.receive hpc (hrep a _ ph.cmd rfl m (hm ▸ List.mem_cons_self))
  -- without a reply the Scout reads the default message, which does not agree
  | missP2b => exact AcceptOk.receive hpc fun hagree => absurd hagree (not_not.2 rfl)
  | accept hres => exact ⟨_, AcceptOk.chosen hpc hh (hN ▸ (acceptResult_eq_one.1 hres).2)⟩
  | command =>
    rw [commanderConnect]
    split_ifs <;> exact hpc
  | sendLearn => exact hpc
  | failLearn => exact hpc
  | _ => trivial

theorem ScoutStep.backed (hs : ScoutStep i f inbox env pc e)
    (hpc : pc.Deciding D h i f.proposalNumber) (hh : Justified (Event.Backed D) h) :
    Justified (Event.Backed D) (e.events ++ h) := by
  cases hs with
  | sendP2a => exact ⟨hpc.proposed, hh⟩
  | _ => first | exact hh | exact ⟨trivial, hh⟩ | exact ⟨trivial, trivial, hh⟩

theorem ScoutStep.learn (hs : ScoutStep i f inbox env pc e)
    (hpc : pc.Deciding D h i f.proposalNumber) {a : ℤ} {m : PaxosMsg}
    (hm : e.toLearner = some (a, m)) : ∃ v n, m = .learn v ∧ Chosen D h n v := by
  cases hs with
  | sendLearn =>
    cases hm
    obtain ⟨n, hn⟩ := hpc
    exact ⟨_, n, rfl, hn⟩
  | connect => rw [scoutConnect] at hm; cases hm
  | command => rw [commanderConnect] at hm; cases hm
  | _ => cases hm

/-- A step of the Scout decides nothing. -/
theorem ScoutStep.not_learned (hs : ScoutStep i f inbox env pc e) {a : ℤ} {v : Command} :
    .learned a v ∉ e.events := by
  cases hs <;> simp [scoutReturn, LaptopPaxos.pickSlot, scoutConnect, commanderConnect, recordOrder]

end

section

variable {D : Deployment} {c c' : Cluster} {act : Action} {i : ℤ}

theorem SameConfig.trans {f f' f'' : LaptopFactory} (h : SameConfig f f') (h' : SameConfig f' f'') :
    SameConfig f f'' :=
  ⟨h'.acceptorMap.trans h.acceptorMap, h'.numOfAcceptors.trans h.numOfAcceptors,
    h'.factoryId.trans h.factoryId⟩

theorem Deciding.numOfAcceptors (hc : Deciding D c) (hi : i ∈ D.ids) :
    (c.factory i).numOfAcceptors = D.acceptors.card := by
  obtain ⟨m, s, h, -⟩ := D.factory_eq i
  rw [(hc.config i).numOfAcceptors, h, ← D.numOfAcceptors_eq hi]

theorem Deciding.factoryId (hc : Deciding D c) : (c.factory i).factoryId = i := by
  obtain ⟨m, s, h, -⟩ := D.factory_eq i
  rw [(hc.config i).factoryId, h]

theorem deciding_init (D : Deployment) : Deciding D (Cluster.init D) where
  config i := .refl _
  scout _ := trivial
  toLearner _ _ _ := nofun
  decided i s v hv := by
    obtain ⟨m, s', h, -⟩ := D.factory_eq i
    change (D.factory i).decisionMap.find? s = some v at hv
    rw [h, StdMap.find?_empty] at hv
    cases hv
  learned _ _ := nofun
  backed := trivial

/-- A step without decisions. -/
theorem Deciding.frame {evs : List Event} (hc : Deciding D c)
    (hcfg : ∀ j, SameConfig (c.factory j) (c'.factory j))
    (hr : ∀ j, SameReplica (c.factory j) (c'.factory j)) (hh : c'.hist = evs ++ c.hist)
    (hevs : ∀ i v, .learned i v ∉ evs)
    (scout : ∀ i, (c'.scout i).Deciding D c'.hist i (c'.factory i).proposalNumber)
    (toLearner : ∀ i a m, m ∈ c'.toLearner i a → ∃ v n, m = .learn v ∧ Chosen D c'.hist n v)
    (backed : Justified (Event.Backed D) c'.hist) : Deciding D c' where
  config i := (hc.config i).trans (hcfg i)
  scout := scout
  toLearner := toLearner
  decided i s v hv := by
    rw [(hr i).decisionMap] at hv
    rw [hh]
    exact (hc.decided i s v hv).imp_right (List.mem_append_right _)
  learned i v hv := by
    rw [(hr i).decisionMap]
    rw [hh] at hv
    exact hc.learned i v ((List.mem_append.1 hv).resolve_left (hevs i v))
  backed := backed

theorem Deciding.learn {a : ℤ} {msg : PaxosMsg} {rest : List PaxosMsg} (hc : Deciding D c)
    (ha : a ∈ D.ids) (hq : c.toLearner i a = msg :: rest) :
    Deciding D (c.learnMsg a i msg rest) := by
  obtain ⟨v, n, rfl, hn⟩ := hc.toLearner i a msg (hq ▸ List.mem_cons_self)
  have hh : (c.learnMsg a i (.learn v) rest).hist = .learned a v :: c.hist := rfl
  obtain ⟨hs, -, hcfg⟩ := learnerEngineer_frame (c.factory a) (.learn v)
  have hmap : ((c.factory a).learnerEngineer (.learn v)).decisionMap =
      (c.factory a).decisionMap.insert v.slot v := by
    rw [learnerEngineer_learn, learn_decisionMap]
  refine ⟨fun j => ?_, fun j => ?_, fun j b m hm => ?_, fun j s w hw => ?_, fun j w hw => ?_,
    ⟨⟨ha, n, hn⟩, hc.backed⟩⟩
  · rw [Cluster.factory_learnMsg]
    split_ifs with hj
    · exact hj ▸ (hc.config a).trans hcfg
    · exact hc.config j
  · rw [Cluster.scout_learnMsg, Cluster.factory_learnMsg]
    have hpc := (hc.scout j).mono [.learned a v]
    split_ifs with hj
    · rw [hs.proposalNumber]; exact hj ▸ hpc
    · exact hpc
  · obtain ⟨w, k, hw, hk⟩ := hc.toLearner j b m (Wires.mem_of_mem_rest hq hm)
    exact ⟨w, k, hw, hk.mono [_]⟩
  · rw [Cluster.factory_learnMsg] at hw
    rw [hh]
    split_ifs at hw with hj
    · -- the decision is the one just learned, or an old one for another slot
      rw [hmap, StdMap.find?_insert] at hw
      split_ifs at hw with hs
      · cases hw
        exact ⟨hs.symm, hj ▸ List.mem_cons_self⟩
      · exact (hj ▸ hc.decided a s w hw).imp_right (List.mem_cons_of_mem _)
    · exact (hc.decided j s w hw).imp_right (List.mem_cons_of_mem _)
  · rw [hh] at hw
    rw [Cluster.factory_learnMsg]
    rcases List.mem_cons.1 hw with hw | hw
    · cases hw
      rw [if_pos rfl, hmap, StdMap.mem_insert]
      exact .inl rfl
    · split_ifs with hj
      · rw [hmap, StdMap.mem_insert]
        exact .inr (hj ▸ hc.learned j w hw)
      · exact hc.learned j w hw

theorem Deciding.step (hr : (cluster D).Reachable c) (hc : Deciding D c)
    (h : ReplicaStep D c act c') : Deciding D c' := by
  cases h with
  | quiet hst =>
    obtain ⟨evs, hh, hevs⟩ := hst.hist
    refine hc.frame hst.sameConfig hst.sameReplica hh (fun i v hv => hevs _ hv) (fun i => ?_)
      (fun i a m hm => ?_) ?_ <;> rw [hh]
    · rw [hst.scout, (hst.sameScout i).proposalNumber]
      exact (hc.scout i).mono evs
    · obtain ⟨v, n, hv, hn⟩ := hc.toLearner i a m (hst.toLearner ▸ hm)
      exact ⟨v, n, hv, hn.mono evs⟩
    · refine hc.backed.append fun ev hev _ => ?_
      have hq := hevs ev hev
      cases ev <;> trivial
  | @scout i env e hi hs =>
    have hvote := voting_of_reachable hr
    have hfr := hs.frame
    refine hc.frame (fun j => ?_) (fun j => ?_) rfl (fun _ _ => hs.not_learned) (fun j => ?_)
      (fun j a m hm => ?_) (hs.backed (hc.scout i) hc.backed)
    · rw [Cluster.factory_applyEffect]
      split_ifs with hj
      · exact hj ▸ hfr.2.2
      · exact .refl _
    · rw [Cluster.factory_applyEffect]
      split_ifs with hj
      · exact hj ▸ hfr.2.1
      · exact .refl _
    · rw [Cluster.scout_applyEffect, Cluster.factory_applyEffect]
      split_ifs with hj
      · subst hj
        -- the reply that the Scout waits for is true
        exact hs.deciding (hc.scout j) hvote.inOrder (hc.numOfAcceptors hi) fun a n v ha r hrep =>
          (replies_of_reachable hr j a _ r ha hrep).accept n v rfl
      · exact (hc.scout j).mono e.events
    · rcases Wires.mem_push hm with hold | ⟨rfl, hnew⟩
      · obtain ⟨v, n, hv, hn⟩ := hc.toLearner j a m hold
        exact ⟨v, n, hv, hn.mono _⟩
      · obtain ⟨v, n, hv, hn⟩ := hs.learn (hc.scout j) hnew
        exact ⟨v, n, hv, hn.mono _⟩
  | learner ha hq => exact hc.learn ha hq

theorem deciding_of_reachable (h : (cluster D).Reachable c) : Deciding D c :=
  reach_invariant h (deciding_init D) fun hr _ hc hst => hc.step hr hst.replica

/-- Only chosen commands are on their way to a learner or decided. -/
theorem only_chosen_learned (h : (cluster D).Reachable c) :
    (∀ i a m, m ∈ c.toLearner i a → m.phase = 5 ∧ ∃ n, Chosen D c.hist n m.getCommand) ∧
      ∀ i s v, (c.factory i).decisionMap.find? s = some v → ∃ n, Chosen D c.hist n v := by
  have hc := deciding_of_reachable h
  refine ⟨fun i a m hm => ?_, fun i s v hv => ?_⟩
  · obtain ⟨v, n, rfl, hn⟩ := hc.toLearner i a m hm
    exact ⟨PaxosMsg.learn_phase v, n, hn⟩
  · exact chosen_of_learned hc.backed (hc.decided i s v hv).2

/-- Server 1 of three takes an order and has its command chosen; the learners of
    the servers 1 and 2 take it. -/
def firstRun : List Action :=
  open LaptopPaxos.Action in
  .order 1 7 0 :: scouts 1 2 ++ talk 1 1 ++ talk 1 2 ++ talk 1 3 ++ scouts 1 3 ++
    talk 1 1 ++ talk 1 2 ++ talk 1 3 ++ scouts 1 7 ++ [.learner 1 1, .learner 2 1]

theorem only_chosen_learned_three : ∃ (c : Cluster) (v : Command),
    (c.factory 2).decisionMap.find? 1 = some v ∧ v.order = (7, 0) ∧
      ∃ n, Chosen (.numbered 3) c.hist n v := by
  obtain ⟨c, hc, hv⟩ := exists_run (.numbered 3) (fun _ _ => True)
    (fun c => (c.factory 2).decisionMap.find? 1 =
      some { slot := 1, commandId := 110000000, customerId := 7, orderId := 0 })
    firstRun (by decide +kernel)
  exact ⟨c, _, hv, rfl, (only_chosen_learned hc).2 2 1 _ hv⟩

end

end LaptopPaxos
