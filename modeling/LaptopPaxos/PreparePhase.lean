import LaptopPaxos.Acceptors

/-!
# The prepare phase

What a Scout knows when it proposes. The promises it has counted are true
(`PrepareOk`): each reports the latest vote of its acceptor, and the command
recovered comes with the largest number reported. They may come from several
rounds, for different numbers, as the count is not reset between rounds; but
the numbers only grow from promise to promise, so that the last round has the
largest (`RoundOk`, `Pending`).

Each promise is counted in one prepare phase and serves one proposal: it is
`fresh` until then. All this goes into the history with the proposal
(`Event.Prepared`).
-/

namespace LaptopPaxos

open LaptopFactory

/-- The acceptor and the number identify a promise. -/
def Promise.token (p : Promise) : ℤ × ℤ := (p.acceptor, p.number)

/-- The promises that a proposal uses up. -/
def Event.tokens : Event → List (ℤ × ℤ)
  | .proposed _ _ _ _ l => l.promises.map Promise.token
  | _ => []

/-- No proposal has used the promise of `a` for `n`. -/
def Fresh (h : List Event) (t : ℤ × ℤ) : Prop := ∀ ev ∈ h, t ∉ ev.tokens

/-- The promises counted by the Scout of `i` and the command recovered from them. -/
structure PrepareOk (h : List Event) (i : ℤ) (l : Prepare) : Prop where
  promise : ∀ p ∈ l.promises, PromiseOk h i p
  fresh : ∀ p ∈ l.promises, Fresh h p.token
  sorted : l.promises.Pairwise fun p q => q.number ≤ p.number
  le_best : ∀ p ∈ l.promises, p.acceptedProposal ≤ l.acceptorAcceptedProposal
  best : l.acceptorAcceptedProposal = -1 ∨
    ∃ p ∈ l.promises, p.acceptedProposal = l.acceptorAcceptedProposal ∧ p.command = l.cmd

/-- A round for the number `n`, with the acceptors `todo` still to ask:
    `promised` is what the acceptors have promised, `N` how many there are. -/
structure RoundOk (stubs : StdMap ℤ ClientStub) (promised : ℤ → ℤ) (n : ℤ) (N : ℕ) (l : Prepare)
    (todo : List ℤ) : Prop where
  /-- An acceptor that has replied has promised `n` at least. -/
  visited : ∀ a, open? stubs a → a ∉ todo → n ≤ promised a
  /-- The numbers of earlier rounds have been promised by all. -/
  older : ∀ p ∈ l.promises, p.number = n ∨ ∀ a, open? stubs a → p.number ≤ promised a
  /-- A majority is only reached by a promise of this round. -/
  latest : l.promisedNum ≤ N / 2 ∨ ∃ p ps, l.promises = p :: ps ∧ p.number = n

/-- A promise of `a` for `n` that is on its way to a Scout. -/
structure Pending (h : List Event) (a n : ℤ) (l : Prepare) : Prop where
  le : ∀ p ∈ l.promises, p.number ≤ n
  fresh : Fresh h (a, n)

/-- A proposal is made after a prepare phase, with promises not used before. -/
def Event.Prepared : Event → List Event → Prop
  | .proposed i n _ _ l, h => PrepareOk h i l ∧ ∀ p ∈ l.promises, p.number ≤ n
  | _, _ => True

/-! ### Counting a promise -/

section

variable {h evs : List Event} {i a n : ℤ} {l : Prepare} {m : PaxosMsg} {p : Promise}

theorem Prepare.receive_of_not_isAgree (l : Prepare) (a n : ℤ) (hm : ¬m.isAgree) :
    l.receive a n m =
      { l with highestProposlNum := max l.highestProposlNum m.proposeNumber } := by
  simp only [Prepare.receive, if_neg hm]

theorem Prepare.promises_receive (l : Prepare) (a n : ℤ) (hm : m.isAgree) :
    (l.receive a n m).promises =
      ⟨a, n, m.acceptedProposal, m.getCommand⟩ :: l.promises := by
  simp only [Prepare.receive, if_pos hm]
  split_ifs <;> rfl

theorem Prepare.best_receive (l : Prepare) (a n : ℤ) (hm : m.isAgree) :
    l.acceptorAcceptedProposal < m.acceptedProposal ∧
        (l.receive a n m).acceptorAcceptedProposal = m.acceptedProposal ∧
        (l.receive a n m).cmd = m.getCommand ∨
      m.acceptedProposal ≤ l.acceptorAcceptedProposal ∧
        (l.receive a n m).acceptorAcceptedProposal = l.acceptorAcceptedProposal ∧
        (l.receive a n m).cmd = l.cmd := by
  simp only [Prepare.receive, if_pos hm]
  split_ifs with hlt
  · exact .inl ⟨hlt, rfl, rfl⟩
  · exact .inr ⟨not_lt.1 hlt, rfl, rfl⟩

theorem Fresh.append {t : ℤ × ℤ} (hf : Fresh h t) (hevs : Fresh evs t) : Fresh (evs ++ h) t :=
  fun ev hev => (List.mem_append.1 hev).elim (hevs ev) (hf ev)

theorem PrepareOk.mono (hl : PrepareOk h i l) (hevs : ∀ p ∈ l.promises, Fresh evs p.token) :
    PrepareOk (evs ++ h) i l where
  promise p hp := (hl.promise p hp).mono evs
  fresh p hp := (hl.fresh p hp).append (hevs p hp)
  sorted := hl.sorted
  le_best := hl.le_best
  best := hl.best

theorem PrepareOk.start (hp : l.promises = []) (hk : l.acceptorAcceptedProposal = -1) :
    PrepareOk h i l where
  promise _ h := absurd (hp ▸ h) List.not_mem_nil
  fresh _ h := absurd (hp ▸ h) List.not_mem_nil
  sorted := hp ▸ .nil
  le_best _ h := absurd (hp ▸ h) List.not_mem_nil
  best := .inl hk

theorem PrepareOk.receive (hl : PrepareOk h i l)
    (hm : m.isAgree → PromiseOk h i ⟨a, n, m.acceptedProposal, m.getCommand⟩ ∧ Pending h a n l) :
    PrepareOk h i (l.receive a n m) := by
  by_cases hagree : m.isAgree
  · obtain ⟨hp, hpend⟩ := hm hagree
    have hps := l.promises_receive a n hagree
    have hbest := l.best_receive a n hagree
    -- the best so far is at least the new one and the old one
    have hle : m.acceptedProposal ≤ (l.receive a n m).acceptorAcceptedProposal ∧
        l.acceptorAcceptedProposal ≤ (l.receive a n m).acceptorAcceptedProposal := by omega
    refine ⟨?_, ?_, ?_, ?_, ?_⟩ <;> rw [hps]
    · exact List.forall_mem_cons.2 ⟨hp, hl.promise⟩
    · exact List.forall_mem_cons.2 ⟨hpend.fresh, hl.fresh⟩
    · exact List.pairwise_cons.2 ⟨hpend.le, hl.sorted⟩
    · exact List.forall_mem_cons.2 ⟨hle.1, fun p hp => (hl.le_best p hp).trans hle.2⟩
    · rcases hbest with ⟨-, hk, hc⟩ | ⟨-, hk, hc⟩ <;> rw [hk, hc]
      · exact .inr ⟨_, List.mem_cons_self, rfl, rfl⟩
      · exact hl.best.imp_right fun ⟨p, hp, h⟩ => ⟨p, List.mem_cons_of_mem _ hp, h⟩
  · rw [l.receive_of_not_isAgree a n hagree]
    exact ⟨hl.promise, hl.fresh, hl.sorted, hl.le_best, hl.best⟩

end

/-! ### Rounds -/

namespace RoundOk

variable {stubs stubs' : StdMap ℤ ClientStub} {promised promised' : ℤ → ℤ} {n n' a : ℤ} {N : ℕ}
  {l : Prepare} {todo : List ℤ} {m : PaxosMsg}

theorem mono (hr : RoundOk stubs promised n N l todo) (hle : ∀ a, promised a ≤ promised' a) :
    RoundOk stubs promised' n N l todo where
  visited b hb ht := (hr.visited b hb ht).trans (hle b)
  older p hp := (hr.older p hp).imp_right fun h b hb => (h b hb).trans (hle b)
  latest := hr.latest

theorem start (hp : l.promises = []) (hn : l.promisedNum = 0) :
    RoundOk stubs promised n N l stubs.keys where
  visited _ hb ht := absurd (StdMap.mem_keys.2 (mem_of_open? hb)) ht
  older _ h := absurd (hp ▸ h) List.not_mem_nil
  latest := .inl (hn ▸ Nat.zero_le _)

/-- The connection to the acceptor whose turn it is is lost. -/
theorem fail (hr : RoundOk stubs promised n N l (a :: todo))
    (hs : ∀ b, open? stubs' b → b ≠ a ∧ open? stubs b) : RoundOk stubs' promised n N l todo where
  visited b hb ht := hr.visited b (hs b hb).2 (by simp [(hs b hb).1, ht])
  older p hp := (hr.older p hp).imp_right fun h b hb => h b (hs b hb).2
  latest := hr.latest

theorem receive (hr : RoundOk stubs promised n N l (a :: todo)) (hn : n ≤ promised a) :
    RoundOk stubs promised n N (l.receive a n m) todo := by
  have hvisited : ∀ b, open? stubs b → b ∉ todo → n ≤ promised b := fun b hb ht => by
    by_cases hba : b = a
    · exact hba ▸ hn
    · exact hr.visited b hb (by simp [hba, ht])
  by_cases hagree : m.isAgree
  · have hps := l.promises_receive a n hagree
    refine ⟨hvisited, ?_, .inr ⟨_, _, hps, rfl⟩⟩
    rw [hps]
    exact List.forall_mem_cons.2 ⟨.inl rfl, hr.older⟩
  · rw [l.receive_of_not_isAgree a n hagree]
    exact ⟨hvisited, hr.older, hr.latest⟩

theorem retry (hr : RoundOk stubs promised n N l []) (hl : l.promisedNum ≤ N / 2) :
    RoundOk stubs promised n' N l stubs.keys where
  visited b hb ht := absurd (StdMap.mem_keys.2 (mem_of_open? hb)) ht
  older p hp := by
    refine .inr fun a ha => ?_
    -- at the end of a round all acceptors have been visited
    rcases hr.older p hp with hpn | h
    · exact hpn ▸ hr.visited a ha List.not_mem_nil
    · exact h a ha
  latest := .inl hl

/-- A majority is for the largest number. -/
theorem leave (hr : RoundOk stubs promised n N l todo) (hl : N / 2 < l.promisedNum)
    (hs : l.promises.Pairwise fun p q => q.number ≤ p.number) : ∀ p ∈ l.promises, p.number ≤ n := by
  obtain ⟨p, ps, hps, rfl⟩ := hr.latest.resolve_left (not_le.2 hl)
  rw [hps] at hs ⊢
  exact List.forall_mem_cons.2 ⟨le_rfl, (List.pairwise_cons.1 hs).1⟩

end RoundOk

/-! ### The invariant -/

/-- What holds at the control points of the prepare phase of the Scout of `i`. -/
def ScoutPc.Preparing (h : List Event) (i : ℤ) (f : LaptopFactory) (promised : ℤ → ℤ)
    (inbox : ℤ → List PaxosMsg) : ScoutPc → Prop
  | .p1a _ l iter => PrepareOk h i l ∧
      RoundOk f.scoutAcceptorStub promised f.proposalNumber f.numOfAcceptors l iter
  | .p1b _ l a iter => PrepareOk h i l ∧
      RoundOk f.scoutAcceptorStub promised f.proposalNumber f.numOfAcceptors l (a :: iter) ∧
      ∀ r ∈ inbox a, r.isAgree → Pending h a f.proposalNumber l
  | .propose _ l | .pickSlot _ l => PrepareOk h i l ∧ ∀ p ∈ l.promises, p.number ≤ f.proposalNumber
  | _ => True

def Cluster.promised (c : Cluster) (a : ℤ) : ℤ := (c.factory a).promisedProposalNumber

def Cluster.Preparing (c : Cluster) (i : ℤ) : Prop :=
  (c.scout i).Preparing c.hist i (c.factory i) c.promised (c.toScout i)

section

variable {id i : ℤ} {f : LaptopFactory} {inbox : ℤ → List PaxosMsg} {env : Env} {pc : ScoutPc}
  {e : Effect} {h evs : List Event} {promised : ℤ → ℤ}

theorem fresh_of_tokens (hevs : ∀ ev ∈ evs, ev.tokens = []) (t : ℤ × ℤ) : Fresh evs t :=
  fun ev hev ht => absurd (hevs ev hev ▸ ht) List.not_mem_nil

/-- A step of the Scout keeps what holds at its control points, provided that
    the reply it reads is true, and that none is there yet when it asks. -/
theorem ScoutStep.preparing (hs : ScoutStep i f inbox env pc e)
    (hpc : pc.Preparing h i f promised inbox)
    (hrep : ∀ a n, pc.asked f.proposalNumber = some (a, .p1a n) → ∀ r ∈ inbox a,
      n ≤ promised a ∧ (r.isAgree → PromiseOk h i ⟨a, n, r.acceptedProposal, r.getCommand⟩))
    {inbox' : ℤ → List PaxosMsg} (hin : ∀ a m, e.toAcceptor = some (a, m) → inbox' a = []) :
    e.pc.Preparing (e.events ++ h) i e.factory promised inbox' := by
  cases hs with
  | connect =>
    rw [scoutConnect]
    split_ifs <;> exact ⟨.start rfl rfl, .start rfl rfl⟩
  | @sendP1a laptop l a iter =>
    obtain ⟨hl, hr⟩ := hpc
    have hl : PrepareOk (.p1aSent i a f.proposalNumber :: h) i l :=
      hl.mono fun p _ => fresh_of_tokens (List.forall_mem_singleton.2 rfl) p.token
    refine ⟨⟨hl.promise, hl.fresh, hl.sorted, hl.le_best, hl.best⟩,
      ⟨hr.visited, hr.older, hr.latest⟩, fun r hr => ?_⟩
    -- no reply is there yet
    rw [hin a _ rfl] at hr
    cases hr
  | failP1a => exact ⟨hpc.1, hpc.2.fail fun b => open?_erase⟩
  | @receiveP1b laptop l a iter m rest hm =>
    obtain ⟨hl, hr, hpend⟩ := hpc
    obtain ⟨hn, hp⟩ := hrep a f.proposalNumber rfl m (hm ▸ List.mem_cons_self)
    exact ⟨hl.receive fun hagree => ⟨hp hagree, hpend m (hm ▸ List.mem_cons_self) hagree⟩,
      hr.receive hn⟩
  | @missP1b laptop l a iter =>
    obtain ⟨hl, hr, -⟩ := hpc
    -- the default message does not agree
    have hdef : ¬({} : PaxosMsg).isAgree := not_not.2 rfl
    refine ⟨hl.receive fun hagree => absurd hagree hdef, ?_⟩
    rw [l.receive_of_not_isAgree a _ hdef]
    have hr := hr.fail fun b => open?_close
    exact ⟨hr.visited, hr.older, hr.latest⟩
  | retry _ hle =>
    obtain ⟨hl, hr⟩ := hpc
    exact ⟨hl.mono fun p _ => fresh_of_tokens (List.forall_mem_singleton.2 rfl) p.token,
      hr.retry hle⟩
  | leave _ hlt => exact ⟨hpc.1, hpc.2.leave hlt hpc.1.sorted⟩
  | chooseOwn => exact hpc
  | restart => exact ⟨.start rfl rfl, .start rfl rfl⟩
  | command =>
    rw [commanderConnect]
    split_ifs <;> trivial
  | _ => trivial

/-- The proposals of a step of the Scout come out of its prepare phase. -/
theorem ScoutStep.prepared (hs : ScoutStep i f inbox env pc e)
    (hpc : pc.Preparing h i f promised inbox) (hh : Justified Event.Prepared h) :
    Justified Event.Prepared (e.events ++ h) := by
  cases hs with
  | chooseOther => exact ⟨hpc, hh⟩
  | pickSlot =>
    exact ⟨⟨hpc.1.mono fun p _ => fresh_of_tokens (List.forall_mem_singleton.2 rfl) p.token, hpc.2⟩,
      trivial, hh⟩
  | _ => first | exact hh | exact ⟨trivial, hh⟩ | exact ⟨trivial, trivial, hh⟩

/-- The promises that a step of the Scout uses up were given to it. -/
theorem ScoutStep.tokens (hs : ScoutStep i f inbox env pc e)
    (hpc : pc.Preparing h i f promised inbox) {ev : Event} (hev : ev ∈ e.events) {t : ℤ × ℤ}
    (ht : t ∈ ev.tokens) : .promised t.1 i t.2 ∈ h := by
  cases ev with
  | proposed j n cmd own l =>
    have hl : PrepareOk h i l := by
      obtain ⟨-, -, laptop, ⟨-, rfl, -⟩ | ⟨-, rfl, -⟩⟩ := hs.proposed hev <;> exact hpc.1
    obtain ⟨p, hp, rfl⟩ := List.mem_map.1 ht
    exact (hl.promise p hp).mem
  | _ => exact absurd ht List.not_mem_nil

end

/-- The promises used up by the proposals of a history were given before. -/
theorem promised_of_tokens {h : List Event} (hh : Justified Event.Prepared h) {ev : Event}
    (hev : ev ∈ h) {t : ℤ × ℤ} (ht : t ∈ ev.tokens) : ∃ i, .promised t.1 i t.2 ∈ h := by
  cases ev with
  | proposed i n cmd own l =>
    obtain ⟨h₁, h₂, rfl, hl, -⟩ := hh.exists_split hev
    obtain ⟨p, hp, rfl⟩ := List.mem_map.1 ht
    exact ⟨i, List.mem_append_right _ (List.mem_cons_of_mem _ (hl.promise p hp).mem)⟩
  | _ => exact absurd ht List.not_mem_nil

section

variable {i : ℤ} {f f' : LaptopFactory} {inbox inbox' : ℤ → List PaxosMsg} {pc : ScoutPc}
  {h evs : List Event} {promised promised' : ℤ → ℤ}

theorem ScoutPc.Preparing.pending (hpc : pc.Preparing h i f promised inbox) {a n : ℤ}
    (ha : pc.asked f.proposalNumber = some (a, .p1a n)) {l : Prepare} (hl : pc.prepare = some l)
    {r : PaxosMsg} (hr : r ∈ inbox a) (hagree : r.isAgree) : Pending h a n l := by
  obtain ⟨laptop, l, iter, rfl, rfl⟩ := ScoutPc.eq_p1b ha
  cases hl
  exact hpc.2.2 r hr hagree

/-- What holds at the control points of the prepare phase lasts while the
    others take steps, provided that they use up no promise given to the Scout. -/
theorem ScoutPc.Preparing.frame (hpc : pc.Preparing h i f promised inbox) (hs : SameScout f f')
    (hcfg : SameConfig f f') (hle : ∀ a, promised a ≤ promised' a)
    (hevs : ∀ t, .promised t.1 i t.2 ∈ h → Fresh evs t)
    (hin : ∀ a n l r, pc.asked f.proposalNumber = some (a, .p1a n) → pc.prepare = some l →
      r ∈ inbox' a → r.isAgree → Pending (evs ++ h) a n l) :
    pc.Preparing (evs ++ h) i f' promised' inbox' := by
  have hprep : ∀ l, PrepareOk h i l → PrepareOk (evs ++ h) i l := fun l hl =>
    hl.mono fun p hp => hevs p.token (hl.promise p hp).mem
  cases pc with
  | p1a laptop l iter =>
    rw [ScoutPc.Preparing, hs.stub, hs.proposalNumber, hcfg.numOfAcceptors]
    exact ⟨hprep l hpc.1, hpc.2.mono hle⟩
  | p1b laptop l a iter =>
    rw [ScoutPc.Preparing, hs.stub, hs.proposalNumber, hcfg.numOfAcceptors]
    exact ⟨hprep l hpc.1, hpc.2.1.mono hle, fun r hr => hin a _ l r rfl rfl hr⟩
  | propose laptop l =>
    rw [ScoutPc.Preparing, hs.proposalNumber]
    exact ⟨hprep l hpc.1, hpc.2⟩
  | pickSlot laptop l =>
    rw [ScoutPc.Preparing, hs.proposalNumber]
    exact ⟨hprep l hpc.1, hpc.2⟩
  | _ => trivial

/-- An acceptor that promises `n` to a waiting Scout makes the promise anew. -/
theorem ScoutPc.Preparing.promise (hpc : pc.Preparing h i f promised inbox) {a n : ℤ}
    (ha : pc.asked f.proposalNumber = some (a, .p1a n)) {l : Prepare} (hl : pc.prepare = some l)
    (hopen : open? f.scoutAcceptorStub a) (hn : promised a < n)
    (hfresh : Fresh h (a, n)) : Pending h a n l := by
  obtain ⟨laptop, l, iter, rfl, rfl⟩ := ScoutPc.eq_p1b ha
  cases hl
  refine ⟨fun p hp => ?_, hfresh⟩
  rcases hpc.2.1.older p hp with hpn | hle
  · exact hpn.le
  · exact (hle a hopen).trans hn.le

end

/-! ### Steps -/

/-- All Scouts prepare their proposals as they should. -/
structure Preparing (c : Cluster) : Prop where
  scout : ∀ i, c.Preparing i
  prepared : Justified Event.Prepared c.hist

section

variable {D : Deployment} {c c' : Cluster} {act : Action} {i : ℤ} {evs : List Event}

/-- A promise just given to a waiting Scout has not been used. -/
theorem fresh_of_promised_lt (hc : Voting D c) (hh : Justified Event.Prepared c.hist) {a n : ℤ}
    (hn : c.promised a < n) : Fresh c.hist (a, n) := fun ev hev ht => by
  obtain ⟨j, hj⟩ := promised_of_tokens hh hev ht
  exact absurd ((hc.acceptor a).promised j n hj) (not_le.2 hn)

theorem Preparing.step (hr : (cluster D).Reachable c) (hc : Preparing c)
    (h : PaxosStep D c act c') : Preparing c' := by
  have hw := wired_of_reachable hr
  have hvote := voting_of_reachable hr
  have hrep := replies_of_reachable hr
  have hlater := hvote.later h
  -- a reply that a Scout still waits for
  have hold : ∀ evs i, (∀ t, .promised t.1 i t.2 ∈ c.hist → Fresh evs t) → ∀ a n l r,
      c.asked i = some (a, .p1a n) → (c.scout i).prepare = some l → r ∈ c.toScout i a →
      r.isAgree → Pending (evs ++ c.hist) a n l := by
    intro evs i hevs a n l r ha hl hr hagree
    have hp := (hc.scout i).pending ha hl hr hagree
    have hmem := (((hrep i a _ r ha hr).prepare n rfl).2 hagree).mem
    exact ⟨hp.le, hp.fresh.append (hevs (a, n) hmem)⟩
  cases h with
  | still hst =>
    obtain ⟨evs, hh, hevs⟩ := hst.hist
    have htok : ∀ ev ∈ evs, ev.tokens = [] := fun ev hev => by
      have haside := hevs ev hev
      cases ev <;> first | rfl | exact haside.elim
    refine ⟨fun i => ?_, ?_⟩
    · rw [Cluster.Preparing, hst.scout, hh, hst.toScout]
      exact (hc.scout i).frame (hst.sameScout i) (hst.sameConfig i) hlater.promised
        (fun t _ => fresh_of_tokens htok t) (hold evs i fun t _ => fresh_of_tokens htok t)
    · rw [hh]
      refine hc.prepared.append fun ev hev _ => ?_
      have haside := hevs ev hev
      cases ev <;> trivial
  | @scout i env e _ hs =>
    refine ⟨fun j => ?_, hs.prepared (hc.scout i) hc.prepared⟩
    have hprom : (c.applyEffect i e).promised = c.promised := funext fun a => by
      rw [Cluster.promised, Cluster.factory_applyEffect]
      split_ifs with hai
      · rw [hs.frame.1.promised, hai]; rfl
      · rfl
    rw [Cluster.Preparing, hprom, Cluster.scout_applyEffect, Cluster.factory_applyEffect]
    split_ifs with hji
    · subst hji
      exact hs.preparing (hc.scout j) (fun a n ha r hr => (hrep j a _ r ha hr).prepare n rfl)
        fun a m ha => toScout_eq_nil_of_asks hw hs.net ha
    · -- the promises used up were given to another Scout
      have hevs : ∀ t, .promised t.1 j t.2 ∈ c.hist → Fresh e.events t := fun t ht ev hev htok =>
        hji (promised_unique hvote.inOrder ht (hs.tokens (hc.scout i) hev htok))
      refine (hc.scout j).frame (.refl _) (.refl _) (fun _ => le_rfl) hevs fun a n l r ha hl hr => ?_
      rw [Cluster.toScout_applyEffect, Wires.pop_of_ne hji] at hr
      exact hold e.events j hevs a n l r ha hl hr
  | @acceptor a i msg rest ha hq =>
    obtain ⟨r, hr', hv⟩ := vote_cases (c.factory a) (hvote.sent i a msg (hq ▸ List.mem_cons_self))
    have htok : ∀ ev ∈ Cluster.acceptorEvents a i msg (some r), ev.tokens = [] := fun ev hev => by
      have hvoter := hv.voter ev hev
      cases ev <;> first | rfl | cases hvoter
    refine ⟨fun j => ?_, ?_⟩
    · rw [Cluster.Preparing, Cluster.scout_acceptMsg, Cluster.hist_acceptMsg, hr']
      refine (hc.scout j).frame (sameScout_acceptMsg c a i msg rest j)
        (sameConfig_acceptMsg c a i msg rest j) hlater.promised
        (fun t _ => fresh_of_tokens htok t) fun b n l r₁ hb hl hrep' hagree => ?_
      have hb' : (c.acceptMsg a i msg rest).asked j = some (b, .p1a n) :=
        (asked_congr (Cluster.scout_acceptMsg a i msg rest j)
          (sameScout_acceptMsg c a i msg rest j)).trans hb
      rcases (PaxosStep.acceptor ha hq).reply_cases hw hb' hrep' with
        ⟨-, hmem, -⟩ | ⟨-, hq', -, hr₁⟩
      · exact hold _ j (fun t _ => fresh_of_tokens htok t) b n l r₁ hb hl hmem hagree
      · -- the reply agrees, so the promise is made by this step
        obtain ⟨r₂, hr₂, hv₂⟩ := vote_cases (c.factory b) (hvote.sent j b _ (hq' ▸ List.mem_cons_self))
        rw [hr₁] at hr₂
        cases hr₂
        have hlt : c.promised b < n := hv₂.lt_of_isAgree hagree
        have hp := (hc.scout j).promise hb hl (hw.asked j b _ hb) hlt
          (fresh_of_promised_lt hvote hc.prepared hlt)
        exact ⟨hp.le, hp.fresh.append (fresh_of_tokens htok _)⟩
    · rw [Cluster.hist_acceptMsg, hr']
      refine hc.prepared.append fun ev hev _ => ?_
      have hvoter := hv.voter ev hev
      cases ev <;> trivial

theorem preparing_of_reachable (h : (cluster D).Reachable c) : Preparing c :=
  paxos_invariant h ⟨fun _ => trivial, trivial⟩ fun hr hc hst => hc.step hr hst

end

end LaptopPaxos
