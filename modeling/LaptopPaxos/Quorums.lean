import LaptopPaxos.Rounds

/-!
# Losing the quorum

What the counters of `ScoutBrocasting` are worth at the end of a round. They are
declared outside of the loop over the rounds, and not reset:

* `promised_by_majority`: a Scout that leaves its prepare loop has the promises
  of a majority for its number, unless promises of earlier rounds make it leave;
* `loss_in_prepare_iff`: a round that reaches too few acceptors ends the work on
  the order if and only if it is the first of its prepare phase;
* `loss_in_accept_iff`: an accept phase that reaches too few acceptors is
  answered as such if and only if the command is not the Scout's own;
* `numbers_go_up`: a failed round raises the number if and only if an acceptor
  has rejected it in that round.
-/

namespace LaptopPaxos

open LaptopFactory

/-! ### Lost peers -/

namespace LostPeers

/-- The Scout of `i` sends a message, and the connection breaks before the reply. -/
def lose (i : ℤ) : List Action := [.scout i {}, .scout i { alive := false }]

/-- The send fails. -/
def fail (i : ℤ) : List Action := [.scout i { alive := false }]

/-- Three servers; the first round of server 1 reaches all of them. -/
def round : List Action :=
  open LaptopPaxos.Action in
  .order 1 7 0 :: scouts 1 2 ++ talk 1 1 ++ talk 1 2 ++ talk 1 3

/-- Two servers stop before they reply. The first round brings one promise, and
    the number stays 0. -/
def firstRound : List Action :=
  open LaptopPaxos.Action in
  .order 1 7 0 :: scouts 1 2 ++ [.crash 2, .crash 3] ++ talk 1 1 ++ lose 1 ++ lose 1

/-- The second round reaches one acceptor, which rejects. -/
def secondRound : List Action :=
  open LaptopPaxos.Action in
  firstRound ++ scouts 1 1 ++ talk 1 1 ++ fail 1 ++ fail 1

/-- The third round brings another promise of the same acceptor. -/
def thirdRound : List Action :=
  open LaptopPaxos.Action in
  secondRound ++ scouts 1 1 ++ talk 1 1

/-- The peers stop between the prepare phase and the accept phase. -/
def acceptPhase : List Action :=
  open LaptopPaxos.Action in
  round ++ scouts 1 3 ++ [.crash 2, .crash 3] ++ talk 1 1 ++ fail 1 ++ fail 1

end LostPeers

/-! ### The quorum for a number -/

/-- At the end of a round, a Scout does not leave its prepare loop because of the
    promises carried over from earlier rounds. -/
def FreshMajority (f : LaptopFactory) (g : Round) : ScoutPc → Prop
  | .p1a _ l [] =>
    f.numOfAcceptors / 2 < l.activeAcceptor → f.numOfAcceptors / 2 < l.promisedNum →
      g.carried + f.numOfAcceptors / 2 < l.promisedNum
  | _ => True

instance (f : LaptopFactory) (g : Round) : (pc : ScoutPc) → Decidable (FreshMajority f g pc)
  | .p1a _ _ [] => inferInstanceAs (Decidable (_ → _ → _))
  | .p1a _ _ (_ :: _) | .idle | .connect .. | .p1b .. | .propose .. | .pickSlot .. | .p2a ..
  | .p2b .. | .command .. | .learn .. | .record .. => isTrue trivial

/-- A majority of the acceptors has agreed to a p1a message for `n` of the Scout of `i`. -/
def PromisedByMajority (D : Deployment) (h : List Event) (i n : ℤ) : Prop :=
  ∃ Q, Majority D.acceptors Q ∧ ∀ a ∈ Q, .p1aSent i a n ∈ h ∧ .promised a i n ∈ h

theorem PromisedByMajority.mono {D : Deployment} {h : List Event} {i n : ℤ}
    (hp : PromisedByMajority D h i n) (evs : List Event) : PromisedByMajority D (evs ++ h) i n := by
  obtain ⟨Q, hQ, hall⟩ := hp
  exact ⟨Q, hQ, fun a ha =>
    (hall a ha).imp (List.mem_append_right _) (List.mem_append_right _)⟩

section

variable {D : Deployment} {c c' : Cluster} {g g' : ℤ → Round} {act : Action} {i : ℤ}

/-- The acceptors that agreed in a round are distinct, and have promised its number. -/
theorem RoundCount.promisedByMajority {r : Round} {h : List Event} {n : ℤ} {l : Prepare}
    {todo : List ℤ} (hg : RoundCount r h i n D.acceptors.card l todo)
    (hh : Justified (Event.InOrder D) h) (hlt : r.carried + D.acceptors.card / 2 < l.promisedNum) :
    PromisedByMajority D h i n := by
  have hmem : ∀ a ∈ ((r.replies.filter (·.2.isAgree)).map Prod.fst).toFinset,
      .p1aSent i a n ∈ h ∧ .promised a i n ∈ h := by
    intro a ha
    obtain ⟨p, hp, rfl⟩ := List.mem_map.1 (List.mem_toFinset.1 ha)
    obtain ⟨hp, hagree⟩ := List.mem_filter.1 hp
    exact hg.agreed p hp (of_decide_eq_true hagree)
  refine ⟨_, ⟨fun a ha => ?_, ?_⟩, hmem⟩
  · obtain ⟨h₁, h₂, -, hin, -⟩ := hh.exists_split (hmem a ha).2
    exact List.mem_toFinset.2 hin
  · have hnodup := hg.nodup.sublist ((List.filter_sublist (p := (·.2.isAgree))).map Prod.fst)
    rw [List.toFinset_card_of_nodup hnodup, List.length_map]
    have hcount := hg.promised
    omega

theorem ScoutStep.eq_propose {f : LaptopFactory} {inbox : ℤ → List PaxosMsg} {env : Env}
    {pc : ScoutPc} {e : Effect} (h : ScoutStep i f inbox env pc e) {laptop : LaptopInfo}
    {l : Prepare} (hpc : e.pc = .propose laptop l) :
    pc = .p1a laptop l [] ∧ e.factory = f ∧ f.numOfAcceptors / 2 < l.activeAcceptor ∧
      f.numOfAcceptors / 2 < l.promisedNum := by
  cases h with
  | leave hactive hprom =>
    cases hpc
    exact ⟨rfl, rfl, hactive, hprom⟩
  | connect => rw [scoutConnect] at hpc; cases hpc
  | command => rw [commanderConnect] at hpc; cases hpc
  | _ => cases hpc

/-- Whenever a Scout has left its prepare loop, a majority of the acceptors has
    promised its number, provided that no Scout leaves the loop because of the
    promises carried over from earlier rounds. -/
theorem promised_by_majority (h : (rounds D).ReachBy (OnRound FreshMajority) (c, g))
    {laptop : LaptopInfo} {l : Prepare} (hpc : c.scout i = .propose laptop l) :
    PromisedByMajority D c.hist i (c.factory i).proposalNumber := by
  refine @rounds_invariant D _ (fun c _ => ∀ i laptop l, c.scout i = .propose laptop l →
    PromisedByMajority D c.hist i (c.factory i).proposalNumber) _ h (fun _ _ _ => nofun) ?_ i
    laptop l hpc
  intro c g act c' g' hr hok ih hst j laptop l hpc
  have hreach := hr.of_observe
  cases hst with
  | still hst =>
    obtain ⟨evs, hh, -⟩ := hst.hist
    rw [hh, (hst.sameScout j).proposalNumber]
    exact (ih j laptop l (hst.scout j ▸ hpc)).mono evs
  | @scout i env e hi hs =>
    rw [Cluster.scout_applyEffect] at hpc
    rw [Cluster.factory_applyEffect]
    split_ifs at hpc ⊢ with hj
    · subst hj
      obtain ⟨hp1a, hf, hactive, hprom⟩ := hs.eq_propose hpc
      have hcount := counted_of_reachBy hr j
      have hN := (deciding_of_reachable hreach).numOfAcceptors hi
      rw [OnRound, hp1a] at hok
      rw [hp1a, ScoutPc.Counted, hN] at hcount
      have hlt := hok hactive hprom
      rw [hN] at hlt
      rw [hf]
      exact (hcount.promisedByMajority (voting_of_reachable hreach).inOrder hlt).mono _
    · exact (ih j laptop l hpc).mono _
  | @acceptor a i msg rest _ _ =>
    rw [Cluster.hist_acceptMsg, (sameScout_acceptMsg c a i msg rest j).proposalNumber]
    exact (ih j laptop l (Cluster.scout_acceptMsg a i msg rest j ▸ hpc)).mono _

end

instance (D : Deployment) (h : List Event) (i n : ℤ) : Decidable (PromisedByMajority D h i n) :=
  decidable_of_iff (Majority D.acceptors
      (D.acceptors.filter fun a => .p1aSent i a n ∈ h ∧ .promised a i n ∈ h)) <| by
    constructor
    · intro hm
      exact ⟨_, hm, fun a ha => (Finset.mem_filter.1 ha).2⟩
    · rintro ⟨Q, hQ, hall⟩
      refine ⟨Finset.filter_subset _ _, hQ.2.trans_le (Finset.card_le_card fun a ha => ?_)⟩
      exact Finset.mem_filter.2 ⟨hQ.1 ha, hall a ha⟩

/-- The Scout has left its prepare loop. -/
def ScoutPc.HasLeft : ScoutPc → Prop
  | .propose .. => True
  | _ => False

instance : (pc : ScoutPc) → Decidable pc.HasLeft
  | .propose .. => isTrue trivial
  | .idle | .connect .. | .p1a .. | .p1b .. | .pickSlot .. | .p2a .. | .p2b .. | .command ..
  | .learn .. | .record .. => isFalse not_false

theorem ScoutPc.HasLeft.eq_propose {pc : ScoutPc} (h : pc.HasLeft) :
    ∃ laptop l, pc = .propose laptop l := by
  cases pc with
  | propose laptop l => exact ⟨laptop, l, rfl⟩
  | _ => exact h.elim

theorem promised_by_majority_three : ∃ (c : Cluster) (laptop : LaptopInfo) (l : Prepare),
    c.scout 1 = .propose laptop l ∧
      PromisedByMajority (.numbered 3) c.hist 1 (c.factory 1).proposalNumber := by
  obtain ⟨c, g, h, hleft⟩ := exists_rounds (.numbered 3) (OnRound FreshMajority)
    (fun c _ => (c.scout 1).HasLeft) (LostPeers.round ++ Action.scouts 1 1) (by decide +kernel)
  obtain ⟨laptop, l, hpc⟩ := hleft.eq_propose
  exact ⟨c, laptop, l, hpc, promised_by_majority h hpc⟩

/-- One acceptor has promised the number 1. It is counted twice. -/
theorem not_promised_by_majority : ¬∀ D c, (cluster D).Reachable c → ∀ i laptop l,
    c.scout i = .propose laptop l →
      PromisedByMajority D c.hist i (c.factory i).proposalNumber := by
  intro h
  obtain ⟨c, hc, hleft, hnot⟩ := exists_run (.numbered 3) (fun _ _ => True)
    (fun c => (c.scout 1).HasLeft ∧
      ¬PromisedByMajority (.numbered 3) c.hist 1 (c.factory 1).proposalNumber)
    (LostPeers.thirdRound ++ Action.scouts 1 1) (by decide +kernel)
  obtain ⟨laptop, l, hpc⟩ := hleft.eq_propose
  exact hnot (h _ c hc 1 laptop l hpc)

section

variable {D : Deployment} {c c' : Cluster} {g g' : ℤ → Round} {act : Action} {i : ℤ}

/-! ### Too few acceptors -/

/-- Whatever the environment does, the next step of the Scout of `i` ends its
    work on the order with the result 0: the customer gets the admin id -5,
    nothing is sent and nothing is written. -/
def AnswersTooFew (c : Cluster) (i : ℤ) (laptop : LaptopInfo) : Prop :=
  ∀ env, ∃ e, scoutStep i (c.factory i) (c.toScout i) env (c.scout i) = some e ∧
    e.factory = c.factory i ∧ e.pc = .idle ∧ e.toAcceptor = none ∧ e.toLearner = none ∧
    e.events = [.returned i { laptop with adminId := -5 } 0]

/-- The end of a round is the end of the work exactly if the count of active
    acceptors, over all rounds of the phase, is too small. -/
theorem answersTooFew_p1a {laptop : LaptopInfo} {l : Prepare} (hpc : c.scout i = .p1a laptop l []) :
    AnswersTooFew c i laptop ↔ l.activeAcceptor ≤ (c.factory i).numOfAcceptors / 2 := by
  constructor
  · intro h
    obtain ⟨e, he, -, hidle, -⟩ := h {}
    rw [hpc, scoutStep] at he
    obtain rfl := Option.some.inj he
    by_contra hlt
    rw [endRound, if_neg hlt] at hidle
    split_ifs at hidle
  · intro hle env
    rw [hpc, scoutStep, endRound, if_pos hle]
    exact ⟨_, rfl, rfl, rfl, rfl, rfl, rfl⟩

theorem answersTooFew_p2a {laptop : LaptopInfo} {ph : Accept} (hpc : c.scout i = .p2a laptop ph [])
    (hres : acceptResult (c.factory i) ph = -2) :
    AnswersTooFew c i laptop ↔ ph.own = false := by
  constructor
  · intro h
    obtain ⟨e, he, -, hidle, -⟩ := h {}
    rw [hpc, scoutStep] at he
    obtain rfl := Option.some.inj he
    by_contra hown
    rw [if_pos (Bool.eq_true_of_not_eq_false hown), endOwnAccept, hres] at hidle
    cases hidle
  · intro hown env
    rw [hpc, scoutStep, hown, if_neg Bool.false_ne_true, endOtherAccept, hres]
    exact ⟨_, rfl, rfl, rfl, rfl, rfl, rfl⟩

theorem acceptResult_eq_neg_two {f : LaptopFactory} {ph : Accept} :
    acceptResult f ph = -2 ↔ ph.activeAcceptors ≤ f.numOfAcceptors / 2 := by
  rw [acceptResult]
  split_ifs <;> simp <;> omega

/-- The Scout is at the end of a round, with locals that meet `P`. -/
def ScoutPc.RoundEnd (P : Prepare → Prop) : ScoutPc → Prop
  | .p1a _ l [] => P l
  | _ => False

/-- The Scout is at the end of an accept phase, with locals that meet `P`. -/
def ScoutPc.AcceptEnd (P : Accept → Prop) : ScoutPc → Prop
  | .p2a _ ph [] => P ph
  | _ => False

instance (P : Prepare → Prop) [DecidablePred P] : (pc : ScoutPc) → Decidable (pc.RoundEnd P)
  | .p1a _ l [] => inferInstanceAs (Decidable (P l))
  | .p1a _ _ (_ :: _) | .idle | .connect .. | .p1b .. | .propose .. | .pickSlot .. | .p2a ..
  | .p2b .. | .command .. | .learn .. | .record .. => isFalse not_false

instance (P : Accept → Prop) [DecidablePred P] : (pc : ScoutPc) → Decidable (pc.AcceptEnd P)
  | .p2a _ ph [] => inferInstanceAs (Decidable (P ph))
  | .p2a _ _ (_ :: _) | .idle | .connect .. | .p1a .. | .p1b .. | .propose .. | .pickSlot ..
  | .p2b .. | .command .. | .learn .. | .record .. => isFalse not_false

theorem ScoutPc.RoundEnd.exists {P : Prepare → Prop} {pc : ScoutPc} (h : pc.RoundEnd P) :
    ∃ laptop l, pc = .p1a laptop l [] ∧ P l := by
  cases pc with
  | p1a laptop l todo =>
    cases todo with
    | nil => exact ⟨laptop, l, rfl, h⟩
    | cons => exact h.elim
  | _ => exact h.elim

theorem ScoutPc.AcceptEnd.exists {P : Accept → Prop} {pc : ScoutPc} (h : pc.AcceptEnd P) :
    ∃ laptop ph, pc = .p2a laptop ph [] ∧ P ph := by
  cases pc with
  | p2a laptop ph todo =>
    cases todo with
    | nil => exact ⟨laptop, ph, rfl, h⟩
    | cons => exact h.elim
  | _ => exact h.elim

/-- A round of the prepare phase that has reached at most half of the acceptors
    is answered as such if and only if it is the first round of the phase. -/
theorem loss_in_prepare_iff (h : (rounds D).Reachable (c, g)) {laptop : LaptopInfo} {l : Prepare}
    (hpc : c.scout i = .p1a laptop l []) :
    ((g i).sent.length ≤ (c.factory i).numOfAcceptors / 2 → AnswersTooFew c i laptop) ↔
      (g i).index = 0 ∨ (c.factory i).numOfAcceptors / 2 < (g i).sent.length := by
  have hcount := counted_of_reachBy h i
  rw [hpc, ScoutPc.Counted] at hcount
  rw [answersTooFew_p1a hpc]
  constructor
  · intro himp
    by_contra! hnot
    exact absurd (himp hnot.2) (not_le.2 (hcount.later hnot.1))
  · rintro (h0 | hlt) hle
    · exact (hcount.first h0).trans_le hle
    · exact absurd hle (not_le.2 hlt)

theorem loss_in_prepare_iff_first : ∃ (c : Cluster) (g : ℤ → Round) (laptop : LaptopInfo)
    (l : Prepare), (rounds (.numbered 3)).Reachable (c, g) ∧ c.scout 1 = .p1a laptop l [] ∧
    (((g 1).sent.length ≤ (c.factory 1).numOfAcceptors / 2 → AnswersTooFew c 1 laptop) ↔
      (g 1).index = 0 ∨ (c.factory 1).numOfAcceptors / 2 < (g 1).sent.length) := by
  obtain ⟨c, g, h, hend⟩ := exists_rounds (.numbered 3) (fun _ _ => True)
    (fun c _ => (c.scout 1).RoundEnd fun _ => True) LostPeers.firstRound (by decide +kernel)
  obtain ⟨laptop, l, hpc, -⟩ := hend.exists
  exact ⟨c, g, laptop, l, h, hpc, loss_in_prepare_iff h hpc⟩

/-- The second round reaches one of three acceptors, and is followed by a third. -/
theorem not_loss_in_prepare : ¬∀ D c g, (rounds D).Reachable (c, g) → ∀ i laptop l,
    c.scout i = .p1a laptop l [] →
      (g i).sent.length ≤ (c.factory i).numOfAcceptors / 2 → AnswersTooFew c i laptop := by
  intro hall
  obtain ⟨c, g, h, hend, hsent⟩ := exists_rounds (.numbered 3) (fun _ _ => True)
    (fun c g => ((c.scout 1).RoundEnd fun l =>
      (c.factory 1).numOfAcceptors / 2 < l.activeAcceptor) ∧
        (g 1).sent.length ≤ (c.factory 1).numOfAcceptors / 2)
    LostPeers.secondRound (by decide +kernel)
  obtain ⟨laptop, l, hpc, hlt⟩ := hend.exists
  exact absurd ((answersTooFew_p1a hpc).1 (hall _ c g h 1 laptop l hpc hsent)) (not_le.2 hlt)

/-- An accept phase that has reached at most half of the acceptors is answered
    as such if and only if the command was recovered from the acceptors. -/
theorem loss_in_accept_iff (h : (rounds D).Reachable (c, g)) {laptop : LaptopInfo} {ph : Accept}
    (hpc : c.scout i = .p2a laptop ph []) :
    ((g i).sent.length ≤ (c.factory i).numOfAcceptors / 2 → AnswersTooFew c i laptop) ↔
      ph.own = false ∨ (c.factory i).numOfAcceptors / 2 < (g i).sent.length := by
  have hcount := counted_of_reachBy h i
  rw [hpc, ScoutPc.Counted] at hcount
  have hres := @acceptResult_eq_neg_two (c.factory i) ph
  rw [hcount] at hres
  constructor
  · intro himp
    by_contra! hnot
    exact hnot.1 ((answersTooFew_p2a hpc (hres.2 hnot.2)).1 (himp hnot.2))
  · rintro (hown | hlt) hle
    · exact (answersTooFew_p2a hpc (hres.2 hle)).2 hown
    · exact absurd hle (not_le.2 hlt)

theorem loss_in_accept_iff_own : ∃ (c : Cluster) (g : ℤ → Round) (laptop : LaptopInfo)
    (ph : Accept), (rounds (.numbered 3)).Reachable (c, g) ∧ c.scout 1 = .p2a laptop ph [] ∧
    (((g 1).sent.length ≤ (c.factory 1).numOfAcceptors / 2 → AnswersTooFew c 1 laptop) ↔
      ph.own = false ∨ (c.factory 1).numOfAcceptors / 2 < (g 1).sent.length) := by
  obtain ⟨c, g, h, hend⟩ := exists_rounds (.numbered 3) (fun _ _ => True)
    (fun c _ => (c.scout 1).AcceptEnd fun _ => True) LostPeers.acceptPhase (by decide +kernel)
  obtain ⟨laptop, ph, hpc, -⟩ := hend.exists
  exact ⟨c, g, laptop, ph, h, hpc, loss_in_accept_iff h hpc⟩

/-- The Scout's own command reaches one of three acceptors. -/
theorem not_loss_in_accept : ¬∀ D c g, (rounds D).Reachable (c, g) → ∀ i laptop ph,
    c.scout i = .p2a laptop ph [] →
      (g i).sent.length ≤ (c.factory i).numOfAcceptors / 2 → AnswersTooFew c i laptop := by
  intro hall
  obtain ⟨c, g, h, hend, hsent⟩ := exists_rounds (.numbered 3) (fun _ _ => True)
    (fun c g => ((c.scout 1).AcceptEnd fun ph =>
      ph.own = true ∧ acceptResult (c.factory 1) ph = -2) ∧
        (g 1).sent.length ≤ (c.factory 1).numOfAcceptors / 2)
    LostPeers.acceptPhase (by decide +kernel)
  obtain ⟨laptop, ph, hpc, hown, hres⟩ := hend.exists
  have hfalse := (answersTooFew_p2a hpc hres).1 (hall _ c g h 1 laptop ph hpc hsent)
  rw [hown] at hfalse
  cases hfalse

/-! ### Larger numbers -/

/-- The round at whose end the Scout is has failed. -/
def Prepare.Fails (l : Prepare) (f : LaptopFactory) : Prop :=
  f.numOfAcceptors / 2 < l.activeAcceptor ∧ l.promisedNum ≤ f.numOfAcceptors / 2

instance (l : Prepare) (f : LaptopFactory) : Decidable (l.Fails f) :=
  inferInstanceAs (Decidable (_ ∧ _))

/-- The next step of the Scout sets its number to a larger one than the one used
    and than all those reported in the round `r`. -/
def RaisesNumber (c : Cluster) (i : ℤ) (r : Round) : Prop :=
  ∀ env, ∃ e, scoutStep i (c.factory i) (c.toScout i) env (c.scout i) = some e ∧
    (c.factory i).proposalNumber < e.factory.proposalNumber ∧
    ∀ p ∈ r.replies, p.2.proposeNumber < e.factory.proposalNumber

/-- Every failed round has been rejected by an acceptor. -/
def RejectedIfFailed (f : LaptopFactory) (g : Round) : ScoutPc → Prop
  | .p1a _ l [] => l.Fails f → g.Rejected
  | _ => True

instance (f : LaptopFactory) (g : Round) : (pc : ScoutPc) → Decidable (RejectedIfFailed f g pc)
  | .p1a _ _ [] => inferInstanceAs (Decidable (_ → _))
  | .p1a _ _ (_ :: _) | .idle | .connect .. | .p1b .. | .propose .. | .pickSlot .. | .p2a ..
  | .p2b .. | .command .. | .learn .. | .record .. => isTrue trivial

/-- What a failed round does. -/
theorem scoutStep_of_fails {laptop : LaptopInfo} {l : Prepare} (hpc : c.scout i = .p1a laptop l [])
    (hfail : l.Fails (c.factory i)) (env : Env) :
    scoutStep i (c.factory i) (c.toScout i) env (c.scout i) =
      some { factory := { c.factory i with proposalNumber := l.highestProposlNum + 1 }
             pc := .p1a laptop l (c.factory i).scoutAcceptorStub.keys
             events := [.roundFailed i (c.factory i).proposalNumber] } := by
  rw [hpc, scoutStep, endRound, if_neg (not_le.2 hfail.1), if_pos hfail.2]

theorem raisesNumber_iff (h : (rounds D).Reachable (c, g)) {laptop : LaptopInfo} {l : Prepare}
    (hpc : c.scout i = .p1a laptop l []) (hfail : l.Fails (c.factory i)) :
    RaisesNumber c i (g i) ↔ (g i).Rejected := by
  have hcount := counted_of_reachBy h i
  rw [hpc, ScoutPc.Counted] at hcount
  have hstep := scoutStep_of_fails hpc hfail
  rw [← hcount.rejected]
  constructor
  · intro hraise
    obtain ⟨e, he, hlt, -⟩ := hraise {}
    rw [hstep] at he
    obtain rfl := Option.some.inj he
    exact Int.lt_add_one_iff.1 hlt
  · intro hle env
    exact ⟨_, hstep env, Int.lt_add_one_iff.2 hle,
      fun p hp => Int.lt_add_one_iff.2 (hcount.heard p hp)⟩

theorem ScoutStep.proposalNumber {f : LaptopFactory} {inbox : ℤ → List PaxosMsg} {env : Env}
    {pc : ScoutPc} {e : Effect} (h : ScoutStep i f inbox env pc e) :
    e.factory.proposalNumber = f.proposalNumber ∨ ∃ laptop l, pc = .p1a laptop l [] ∧ l.Fails f ∧
      e.factory.proposalNumber = l.highestProposlNum + 1 := by
  cases h with
  | retry hactive hprom => exact .inr ⟨_, _, rfl, ⟨hactive, hprom⟩, rfl⟩
  | connect =>
    rw [scoutConnect]
    split_ifs <;> exact .inl rfl
  | command =>
    rw [commanderConnect]
    split_ifs <;> exact .inl rfl
  | _ => exact .inl rfl

theorem proposalNumber_le (h : (rounds D).ReachBy (OnRound RejectedIfFailed) (c, g))
    (hok : OnRound RejectedIfFailed (c, g) act) (hst : RoundsStep D c g act c' g') (j : ℤ) :
    (c.factory j).proposalNumber ≤ (c'.factory j).proposalNumber := by
  cases hst with
  | still hst => exact (hst.sameScout j).proposalNumber.ge
  | @scout i env e _ hs =>
    rw [Cluster.factory_applyEffect]
    split_ifs with hj
    · subst hj
      rcases hs.proposalNumber with heq | ⟨laptop, l, hpc, hfail, heq⟩
      · exact heq.ge
      · -- the number heard in a rejection is not less than the one used
        have hcount := counted_of_reachBy h j
        rw [OnRound, hpc] at hok
        rw [hpc, ScoutPc.Counted] at hcount
        have hle := hcount.rejected.2 (hok hfail)
        omega
    · exact le_rfl
  | @acceptor a i msg rest _ _ => exact (sameScout_acceptMsg c a i msg rest j).proposalNumber.ge

/-- A failed round raises the number of the Scout above the one used, and above
    all those reported to it, if and only if an acceptor has rejected it in that
    round. So numbers never decrease in a run in which this is so for every
    failed round. -/
theorem numbers_go_up (D : Deployment) :
    (∀ c g i laptop l, (rounds D).Reachable (c, g) → c.scout i = .p1a laptop l [] →
      l.Fails (c.factory i) → (RaisesNumber c i (g i) ↔ (g i).Rejected)) ∧
    ∀ s acts s', (rounds D).ReachBy (OnRound RejectedIfFailed) s →
      (rounds D).runBy (OnRound RejectedIfFailed) acts s = some s' →
      ∀ i, (s.1.factory i).proposalNumber ≤ (s'.1.factory i).proposalNumber := by
  refine ⟨fun c g i laptop l h hpc hfail => raisesNumber_iff h hpc hfail, ?_⟩
  intro s acts s' hs hrun i
  exact hs.le_of_runBy (f := fun s => (s.1.factory i).proposalNumber)
    (fun s act s' hr hok hst => proposalNumber_le hr hok (roundsStep_cases hst) i) hrun

theorem numbers_go_up_three :
    (∃ (c : Cluster) (g : ℤ → Round) (laptop : LaptopInfo) (l : Prepare),
      c.scout 1 = .p1a laptop l [] ∧ l.Fails (c.factory 1) ∧
        (RaisesNumber c 1 (g 1) ↔ (g 1).Rejected)) ∧
    ∃ s, (rounds (.numbered 3)).runBy (OnRound RejectedIfFailed) LostPeers.round
        (Cluster.init (.numbered 3), fun _ => {}) = some s ∧
      ((Cluster.init (.numbered 3)).factory 1).proposalNumber ≤
        (s.1.factory 1).proposalNumber := by
  obtain ⟨hraise, hle⟩ := numbers_go_up (.numbered 3)
  constructor
  · obtain ⟨c, g, h, hend⟩ := exists_rounds (.numbered 3) (fun _ _ => True)
      (fun c _ => (c.scout 1).RoundEnd fun l => l.Fails (c.factory 1)) LostPeers.firstRound
      (by decide +kernel)
    obtain ⟨laptop, l, hpc, hfail⟩ := hend.exists
    exact ⟨c, g, laptop, l, hpc, hfail, hraise c g 1 laptop l h hpc hfail⟩
  · have hrun : ((rounds (.numbered 3)).runBy (OnRound RejectedIfFailed) LostPeers.round
        (Cluster.init (.numbered 3), fun _ => {})).isSome = true := by decide +kernel
    obtain ⟨s, hs⟩ := Option.isSome_iff_exists.1 hrun
    exact ⟨s, hs, hle _ LostPeers.round s (rounds_init _ _) hs 1⟩

/-- After a round without a rejection the number 0 stays. -/
theorem not_numbers_go_up : ¬∀ D c g, (rounds D).Reachable (c, g) → ∀ i laptop l,
    c.scout i = .p1a laptop l [] → l.Fails (c.factory i) → RaisesNumber c i (g i) := by
  intro hall
  obtain ⟨c, g, h, hend, hnum⟩ := exists_rounds (.numbered 3) (fun _ _ => True)
    (fun c _ => ((c.scout 1).RoundEnd fun l => l.Fails (c.factory 1) ∧ l.highestProposlNum = -1) ∧
      (c.factory 1).proposalNumber = 0) LostPeers.firstRound (by decide +kernel)
  obtain ⟨laptop, l, hpc, hfail, hhigh⟩ := hend.exists
  obtain ⟨e, he, hlt, -⟩ := hall _ c g h 1 laptop l hpc hfail {}
  rw [scoutStep_of_fails hpc hfail] at he
  obtain rfl := Option.some.inj he
  rw [hhigh, hnum] at hlt
  exact absurd hlt (lt_irrefl 0)

end

end LaptopPaxos
