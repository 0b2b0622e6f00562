import LaptopPaxos.Decisions

/-!
# The rounds of a Scout

A prepare phase goes in rounds, and the locals of the loop are carried from one
round to the next. An observer (`Round`) writes down what each Scout has done
in its current round: to whom its messages were sent, what was replied, and how
many promises it had before. `RoundOk` ties the locals to it.

Read off the locals, this tells what a Scout really knows at the end of a round
(`RoundOk`), for which the reply to a p1a message is either an agreement with
the number -1, or a rejection with a number not less than the one asked for
(`ReplyNumber`).
-/

namespace LaptopPaxos

open LaptopFactory

/-! ### The observer -/

/-- What a Scout has done in the current round of its prepare phase, or in its
    accept phase. The replies are the ones received, the newest first. -/
structure Round where
  /-- The failed rounds of the prepare phase. -/
  index : ℕ := 0
  /-- `promisedNum` at the start of the round. -/
  carried : ℕ := 0
  /-- The acceptors to which the message was sent. -/
  sent : List ℤ := []
  replies : List (ℤ × PaxosMsg) := []
  deriving DecidableEq

/-- The round after a step of the Scout with the effect `e`. -/
def Round.note (g : Round) (inbox : ℤ → List PaxosMsg) (e : Effect) : ScoutPc → Round
  | .p1a _ _ (a :: _) | .p2a _ _ (a :: _) =>
    if e.toAcceptor.isSome then { g with sent := a :: g.sent } else g
  | .p1b _ _ a _ | .p2b _ _ a _ =>
    if e.received.isSome then
      { g with replies := ((inbox a).head?.map fun r => (a, r)).toList ++ g.replies }
    else g
  | .p1a _ l [] => { index := g.index + 1, carried := l.promisedNum }
  | _ => {}

/-- The replies of the round that reject. -/
def Round.Rejected (g : Round) : Prop := ∃ p ∈ g.replies, ¬p.2.isAgree

instance (g : Round) : Decidable g.Rejected := inferInstanceAs (Decidable (∃ p ∈ _, _))

/-- The rounds of all Scouts after an action. -/
def noteRounds (g : ℤ → Round) (c : Cluster) : Action → ℤ → Round
  | .scout i env =>
    match scoutStep i (c.factory i) (c.toScout i) env (c.scout i) with
    | some e => Function.update g i ((g i).note (c.toScout i) e (c.scout i))
    | none => g
  | _ => g

/-- The cluster with its rounds. -/
def rounds (D : Deployment) : Machine (Cluster × (ℤ → Round)) Action :=
  (cluster D).observe (fun _ => {}) noteRounds

/-- The condition `P` on the Scout that takes the step and on its round. -/
def OnRound (P : LaptopFactory → Round → ScoutPc → Prop) (s : Cluster × (ℤ → Round)) :
    Action → Prop
  | .scout i _ => P (s.1.factory i) (s.2 i) (s.1.scout i)
  | _ => True

instance (P : LaptopFactory → Round → ScoutPc → Prop) [∀ f g pc, Decidable (P f g pc)]
    (s : Cluster × (ℤ → Round)) : (act : Action) → Decidable (OnRound P s act)
  | .scout i _ => inferInstanceAs (Decidable (P (s.1.factory i) (s.2 i) (s.1.scout i)))
  | .request .. | .backup .. | .acceptor .. | .learner .. | .crash .. => isTrue trivial

/-- The steps of the cluster with its rounds. -/
inductive RoundsStep (D : Deployment) (c : Cluster) (g : ℤ → Round) :
    Action → Cluster → (ℤ → Round) → Prop
  | still {act c'} : Still c c' → RoundsStep D c g act c' g
  | scout {i env e} : i ∈ D.ids →
      ScoutStep i (c.factory i) (c.toScout i) env (c.scout i) e →
      RoundsStep D c g (.scout i env) (c.applyEffect i e)
        (Function.update g i ((g i).note (c.toScout i) e (c.scout i)))
  | acceptor {a i msg rest} : a ∈ D.ids → c.toAcceptor i a = msg :: rest →
      RoundsStep D c g (.acceptor a i) (c.acceptMsg a i msg rest) g

section

variable {D : Deployment} {c c' : Cluster} {g g' : ℤ → Round} {act : Action}

theorem RoundsStep.paxos (h : RoundsStep D c g act c' g') : PaxosStep D c act c' := by
  cases h with
  | still hst => exact .still hst
  | scout hi hs => exact .scout hi hs
  | acceptor ha hq => exact .acceptor ha hq

theorem roundsStep_cases (h : (rounds D).step (c, g) act = some (c', g')) :
    RoundsStep D c g act c' g' := by
  obtain ⟨hst, rfl⟩ := Machine.step_observe.1 h
  change c.step D act = some c' at hst
  cases act with
  | scout i env =>
    rw [Cluster.step] at hst
    split_ifs at hst with hi
    obtain ⟨e, he, rfl⟩ := Option.map_eq_some_iff.1 hst
    change RoundsStep D c g _ _ (noteRounds g c (.scout i env))
    rw [noteRounds, he]
    exact .scout hi.1 (scoutStep_cases he)
  | acceptor a i =>
    cases step_cases hst with
    | acceptor ha hq => exact .acceptor ha hq
  | request | backup | learner | crash =>
    cases (step_cases hst).paxos with
    | still hst => exact .still hst

/-- Every run of the cluster has its rounds. -/
theorem exists_rounds_of_reachable (h : (cluster D).Reachable c) :
    ∃ g, (rounds D).Reachable (c, g) := h.exists_observe

/-- The induction over the runs whose steps meet `ok`. -/
theorem rounds_invariant {ok : Cluster × (ℤ → Round) → Action → Prop}
    {Inv : Cluster → (ℤ → Round) → Prop} {s : Cluster × (ℤ → Round)}
    (h : (rounds D).ReachBy ok s) (init : Inv (Cluster.init D) fun _ => {})
    (step : ∀ {c g act c' g'}, (rounds D).ReachBy ok (c, g) → ok (c, g) act → Inv c g →
      RoundsStep D c g act c' g' → Inv c' g') : Inv s.1 s.2 :=
  h.invariant
    (fun s hs => by
      obtain ⟨hc, hg⟩ := hs
      rw [Set.mem_singleton_iff.1 hc, hg]
      exact init)
    fun _ _ _ hr hinv hok hst => step hr hok hinv (roundsStep_cases hst)

end

/-! ### Numbers in replies -/

/-- A reply to a p1a message for `n`: an agreement does not tell a number, a
    rejection tells one that is at least `n`. -/
def ReplyNumber (n : ℤ) (r : PaxosMsg) : Prop :=
  r.isAgree ∧ r.proposeNumber = -1 ∨ ¬r.isAgree ∧ n ≤ r.proposeNumber

theorem replyNumber_acceptorEngineer {f : LaptopFactory} {n : ℤ} {r : PaxosMsg}
    (h : (f.acceptorEngineer (.p1a n)).2 = some r) : ReplyNumber n r := by
  have hst := acceptorEngineer_cases f (.p1a n)
  rw [h] at hst
  generalize (f.acceptorEngineer (.p1a n)).1 = f' at hst
  generalize ho : some r = o at hst
  cases hst with
  | promise _ _ hr hnum =>
    obtain rfl := Option.some.inj ho
    exact .inl ⟨hr, hnum⟩
  | refuse _ hle hr hnum =>
    obtain rfl := Option.some.inj ho
    exact .inr ⟨hr, hle.trans hnum.ge⟩
  | accept hph => exact absurd hph (by simp)
  | reject hph => exact absurd hph (by simp)
  | ignore hph => exact absurd (PaxosMsg.p1a_phase n) hph

/-- The replies that a Scout waits for in its prepare phase. -/
theorem replyNumber_of_reachable {D : Deployment} {c : Cluster} (h : (cluster D).Reachable c)
    {i a n : ℤ} {r : PaxosMsg} (ha : c.asked i = some (a, .p1a n)) (hr : r ∈ c.toScout i a) :
    ReplyNumber n r := by
  refine @paxos_invariant D c (fun c => ∀ i a n r, c.asked i = some (a, .p1a n) →
    r ∈ c.toScout i a → ReplyNumber n r) h (fun _ _ _ _ _ => nofun) ?_ i a n r ha hr
  intro c act c' hreach ih hst i a n r ha hr
  rcases hst.reply_cases (wired_of_reachable hreach) ha hr with ⟨ha', hr', -⟩ | ⟨-, -, -, hr'⟩
  · exact ih i a n r ha' hr'
  · exact replyNumber_acceptorEngineer hr'

/-! ### The locals of the prepare loop -/

/-- What the Scout of `i` has done in the round `g` for the number `n`, with the
    acceptors `todo` still to visit, and what the locals say about it. -/
structure RoundCount (g : Round) (h : List Event) (i n : ℤ) (N : ℕ) (l : Prepare) (todo : List ℤ) :
    Prop where
  /-- The count of active acceptors is not reset at the end of a round. -/
  first : g.index = 0 → l.activeAcceptor = g.sent.length
  later : g.index ≠ 0 → N / 2 < l.activeAcceptor
  /-- The count of promises is not reset either. -/
  promised : l.promisedNum = g.carried + (g.replies.filter (·.2.isAgree)).length
  todo_nodup : todo.Nodup
  nodup : (g.replies.map Prod.fst).Nodup
  visited : ∀ p ∈ g.replies, p.1 ∉ todo
  agreed : ∀ p ∈ g.replies, p.2.isAgree →
    .p1aSent i p.1 n ∈ h ∧ .promised p.1 i n ∈ h
  neg : -1 ≤ l.highestProposlNum
  heard : ∀ p ∈ g.replies, p.2.proposeNumber ≤ l.highestProposlNum
  /-- A number above the highest one heard is only given up for a rejection. -/
  rejected : n ≤ l.highestProposlNum ↔ g.Rejected

section

variable {g : Round} {h : List Event} {i n a : ℤ} {N : ℕ} {l : Prepare} {todo : List ℤ}
  {m : PaxosMsg}

@[simp] theorem Prepare.highest_receive (l : Prepare) (a n : ℤ) (m : PaxosMsg) :
    (l.receive a n m).highestProposlNum = max l.highestProposlNum m.proposeNumber := by
  simp only [Prepare.receive]
  split_ifs <;> rfl

@[simp] theorem Prepare.active_receive (l : Prepare) (a n : ℤ) (m : PaxosMsg) :
    (l.receive a n m).activeAcceptor = l.activeAcceptor := by
  simp only [Prepare.receive]
  split_ifs <;> rfl

theorem Prepare.promisedNum_receive (l : Prepare) (a n : ℤ) (m : PaxosMsg) :
    (l.receive a n m).promisedNum = l.promisedNum + if m.isAgree then 1 else 0 := by
  simp only [Prepare.receive]
  split_ifs <;> rfl

@[simp] theorem Accept.active_receive (ph : Accept) (m : PaxosMsg) :
    (ph.receive m).activeAcceptors = ph.activeAcceptors := by
  rw [Accept.receive]
  split_ifs <;> rfl

namespace RoundCount

theorem mono (hg : RoundCount g h i n N l todo) (evs : List Event) :
    RoundCount g (evs ++ h) i n N l todo :=
  { hg with
    agreed := fun p hp hagree =>
      (hg.agreed p hp hagree).imp (List.mem_append_right _) (List.mem_append_right _) }

theorem start (hn : 0 ≤ n) (cmd : Command) (htodo : todo.Nodup) :
    RoundCount {} h i n N { cmd := cmd } todo where
  first _ := rfl
  later h0 := absurd rfl h0
  promised := rfl
  todo_nodup := htodo
  nodup := .nil
  visited _ := nofun
  agreed _ := nofun
  neg := le_rfl
  heard _ := nofun
  rejected := by
    refine iff_of_false (fun hle => ?_) ?_
    · change n ≤ -1 at hle
      omega
    · rintro ⟨p, hp, -⟩
      cases hp

/-- The message is sent to the acceptor `a`. -/
theorem send (hg : RoundCount g h i n N l (a :: todo)) :
    RoundCount { g with sent := a :: g.sent } h i n N
      { l with activeAcceptor := l.activeAcceptor + 1 } (a :: todo) :=
  { hg with
    first := fun h0 => congrArg (· + 1) (hg.first h0)
    later := fun h0 => (hg.later h0).trans (Nat.lt_succ_self _) }

/-- The acceptor `a` is passed over. -/
theorem skip (hg : RoundCount g h i n N l (a :: todo)) : RoundCount g h i n N l todo :=
  { hg with
    todo_nodup := (List.nodup_cons.1 hg.todo_nodup).2
    visited := fun p hp hmem => hg.visited p hp (List.mem_cons_of_mem _ hmem) }

/-- The default message leaves the locals as they are. -/
theorem miss (hg : RoundCount g h i n N l (a :: todo)) :
    RoundCount g h i n N (l.receive a n {}) todo := by
  have hdef : ¬({} : PaxosMsg).isAgree := not_not.2 rfl
  have hmax : max l.highestProposlNum ({} : PaxosMsg).proposeNumber = l.highestProposlNum :=
    max_eq_left hg.neg
  rw [l.receive_of_not_isAgree a n hdef, hmax]
  exact hg.skip

theorem receive (hg : RoundCount g h i n N l (a :: todo)) (hn : 0 ≤ n) (hm : ReplyNumber n m)
    (hsent : .p1aSent i a n ∈ h) (hprom : m.isAgree → .promised a i n ∈ h) :
    RoundCount { g with replies := (a, m) :: g.replies } h i n N (l.receive a n m) todo where
  first h0 := (l.active_receive a n m).trans (hg.first h0)
  later h0 := (hg.later h0).trans_eq (l.active_receive a n m).symm
  promised := by
    rw [l.promisedNum_receive, hg.promised, List.filter_cons]
    by_cases hagree : m.isAgree
    · rw [if_pos hagree, if_pos (decide_eq_true hagree), List.length_cons, Nat.add_assoc]
    · rw [if_neg hagree, if_neg (by simpa using hagree), Nat.add_zero]
  todo_nodup := hg.skip.todo_nodup
  nodup := by
    refine List.nodup_cons.2 ⟨fun hmem => ?_, hg.nodup⟩
    obtain ⟨p, hp, rfl⟩ := List.mem_map.1 hmem
    exact hg.visited p hp List.mem_cons_self
  visited := List.forall_mem_cons.2 ⟨(List.nodup_cons.1 hg.todo_nodup).1, hg.skip.visited⟩
  agreed := List.forall_mem_cons.2 ⟨fun hagree => ⟨hsent, hprom hagree⟩, hg.agreed⟩
  neg := hg.neg.trans (l.le_highest_receive a n m)
  heard := by
    rw [l.highest_receive]
    exact List.forall_mem_cons.2
      ⟨le_max_right _ _, fun p hp => (hg.heard p hp).trans (le_max_left _ _)⟩
  rejected := by
    have hnum : n ≤ m.proposeNumber ↔ ¬m.isAgree := by
      rcases hm with ⟨hagree, hneg⟩ | ⟨hagree, hle⟩
      · exact iff_of_false (by omega) (not_not.2 hagree)
      · exact iff_of_true hle hagree
    rw [l.highest_receive, le_max_iff, hg.rejected, hnum, or_comm]
    exact (List.exists_mem_cons_iff (fun p : ℤ × PaxosMsg => ¬p.2.isAgree) (a, m) g.replies).symm

/-- The round has failed: the next number is above all numbers heard. -/
theorem retry (hg : RoundCount g h i n N l []) (hactive : N / 2 < l.activeAcceptor) {keys : List ℤ}
    (hkeys : keys.Nodup) :
    RoundCount { index := g.index + 1, carried := l.promisedNum } h i (l.highestProposlNum + 1) N l
      keys where
  first h0 := absurd h0 (Nat.succ_ne_zero _)
  later _ := hactive
  promised := rfl
  todo_nodup := hkeys
  nodup := .nil
  visited _ := nofun
  agreed _ := nofun
  neg := hg.neg
  heard _ := nofun
  rejected := by
    refine iff_of_false (by omega) ?_
    rintro ⟨p, hp, -⟩
    cases hp

end RoundCount

end

/-! ### The invariant -/

/-- What the round `g` of the Scout of `i` says about its locals. -/
def ScoutPc.Counted (h : List Event) (i : ℤ) (f : LaptopFactory) (g : Round) : ScoutPc → Prop
  | .p1a _ l todo => RoundCount g h i f.proposalNumber f.numOfAcceptors l todo
  | .p1b _ l a todo => RoundCount g h i f.proposalNumber f.numOfAcceptors l (a :: todo) ∧
      .p1aSent i a f.proposalNumber ∈ h
  | .p2a _ ph _ | .p2b _ ph _ _ => ph.activeAcceptors = g.sent.length
  | _ => True

section

variable {i : ℤ} {f f' : LaptopFactory} {inbox : ℤ → List PaxosMsg} {env : Env} {pc : ScoutPc}
  {e : Effect} {h evs : List Event} {g : Round}

theorem ScoutPc.Counted.frame (hpc : pc.Counted h i f g) (hs : SameScout f f')
    (hcfg : SameConfig f f') (evs : List Event) : pc.Counted (evs ++ h) i f' g := by
  cases pc with
  | p1a laptop l todo =>
    rw [ScoutPc.Counted, hs.proposalNumber, hcfg.numOfAcceptors]
    exact hpc.mono evs
  | p1b laptop l a todo =>
    rw [ScoutPc.Counted, hs.proposalNumber, hcfg.numOfAcceptors]
    exact ⟨hpc.1.mono evs, List.mem_append_right _ hpc.2⟩
  | p2a | p2b => exact hpc
  | _ => trivial

theorem ScoutStep.counted (hs : ScoutStep i f inbox env pc e) (hpc : pc.Counted h i f g)
    (hn : 0 ≤ f.proposalNumber)
    (hrep : ∀ a n, pc.asked f.proposalNumber = some (a, .p1a n) → ∀ r ∈ inbox a,
      ReplyNumber n r ∧ (r.isAgree → .promised a i n ∈ h)) :
    e.pc.Counted (e.events ++ h) i e.factory (g.note inbox e pc) := by
  have hstart : ∀ f' laptop, 0 ≤ f'.proposalNumber →
      (startProposalNumCompete f' laptop env).Counted h i f' {} :=
    fun f' laptop hn => .start hn _ f'.scoutAcceptorStub.keys_nodup
  cases hs with
  | connect =>
    rw [scoutConnect]
    split_ifs <;> exact hstart _ _ hn
  | @sendP1a laptop l a iter =>
    exact ⟨(hpc.send).mono _, List.mem_cons_self⟩
  | failP1a => exact hpc.skip
  | @receiveP1b laptop l a iter m rest hm =>
    obtain ⟨hg, hsent⟩ := hpc
    obtain ⟨hnum, hprom⟩ := hrep a f.proposalNumber rfl m (hm ▸ List.mem_cons_self)
    change RoundCount { g with replies := ((inbox a).head?.map _).toList ++ g.replies } _ _ _ _ _ _
    rw [hm]
    exact hg.receive hn hnum hsent hprom
  | missP1b => exact hpc.1.miss
  | retry hactive => exact (hpc.retry hactive f.scoutAcceptorStub.keys_nodup).mono _
  | chooseOther => rfl
  | pickSlot => rfl
  | sendP2a => exact congrArg (· + 1) hpc
  | failP2a => exact hpc
  | @receiveP2b laptop ph a iter m => exact (ph.active_receive m).trans hpc
  | missP2b => exact hpc
  | restart => exact hstart _ _ hn
  | command =>
    rw [commanderConnect]
    split_ifs <;> trivial
  | _ => trivial

end

section

variable {D : Deployment} {c c' : Cluster} {g g' : ℤ → Round} {act : Action}

/-- The rounds say the truth about all Scouts. -/
def Counted (c : Cluster) (g : ℤ → Round) : Prop :=
  ∀ i, (c.scout i).Counted c.hist i (c.factory i) (g i)

theorem Counted.step (hr : (cluster D).Reachable c) (hc : Counted c g)
    (h : RoundsStep D c g act c' g') : Counted c' g' := by
  intro j
  cases h with
  | still hst =>
    obtain ⟨evs, hh, -⟩ := hst.hist
    rw [hst.scout, hh]
    exact (hc j).frame (hst.sameScout j) (hst.sameConfig j) evs
  | @scout i env e _ hs =>
    rw [Cluster.scout_applyEffect, Cluster.factory_applyEffect, Function.update_apply]
    split_ifs with hj
    · subst hj
      refine hs.counted (hc j) ((voting_of_reachable hr).number j) fun a n ha r hr' => ?_
      refine ⟨replyNumber_of_reachable hr ha hr', fun hagree => ?_⟩
      exact (((replies_of_reachable hr j a _ r ha hr').prepare n rfl).2 hagree).mem
    · exact (hc j).frame (.refl _) (.refl _) e.events
  | @acceptor a i msg rest _ _ =>
    rw [Cluster.scout_acceptMsg]
    exact (hc j).frame (sameScout_acceptMsg c a i msg rest j)
      (sameConfig_acceptMsg c a i msg rest j) _

theorem counted_of_reachBy {ok : Cluster × (ℤ → Round) → Action → Prop}
    (h : (rounds D).ReachBy ok (c, g)) : Counted c g :=
  rounds_invariant h (fun _ => trivial) fun hr _ hc hst => hc.step hr.of_observe hst

theorem rounds_init (D : Deployment) (ok : Cluster × (ℤ → Round) → Action → Prop) :
    (rounds D).ReachBy ok (Cluster.init D, fun _ => {}) := .init ⟨rfl, rfl⟩

/-- A state with a property that an evaluation finds at the end of a run. -/
theorem exists_rounds (D : Deployment) (ok : Cluster × (ℤ → Round) → Action → Prop)
    [∀ s act, Decidable (ok s act)] (P : Cluster → (ℤ → Round) → Prop)
    [∀ c g, Decidable (P c g)] (l : List Action)
    (h : (((rounds D).runBy ok l (Cluster.init D, fun _ => {})).any fun s => P s.1 s.2) = true) :
    ∃ c g, (rounds D).ReachBy ok (c, g) ∧ P c g := by
  obtain ⟨s, hs, hP⟩ := (rounds_init D ok).exists_of_runBy l h
  exact ⟨s.1, s.2, hs, hP⟩

end

end LaptopPaxos
