import LaptopPaxos.Calls

/-!
# The phases of an undisturbed call

What holds at each control point of an undisturbed call is in `Phase`, together
with a bound on the steps so far. It is kept by the replies of the acceptors
(`Phase.reply`) and by the steps of the Scout (`Phase.scout`).

The number for the second round is above all promises, as each acceptor has told
its own one or promised the number of the first round, so that all of them agree
in it. In the accept phase those acceptors agree that have promised just the
number of the Scout. An acceptor which has rejected the message of the prepare
phase may be among them.
-/

namespace LaptopPaxos

open LaptopFactory

/-! ### Rounds -/

/-- The first round for the number `n`, after the acceptors `done` have replied:
    `k` messages have been sent, and an acceptor that has not agreed has told its
    promise. -/
structure FirstRound (k : ℕ) (n : ℤ) (P : ℤ → ℤ) (l : Prepare) (done : List ℤ) : Prop where
  active : l.activeAcceptor = k
  promised : l.promisedNum ≤ done.countP (P · = n)
  rejected : l.promisedNum < done.length → n ≤ l.highestProposlNum
  heard : ∀ a ∈ done, P a = n ∨ P a ≤ l.highestProposlNum
  bound : -1 ≤ l.highestProposlNum ∧ l.highestProposlNum < 2147483647

/-- The second round. The counts of the first one have not been reset. -/
structure SecondRound (N : ℕ) (n : ℤ) (P : ℤ → ℤ) (l : Prepare) (done todo : List ℤ) : Prop where
  active : N ≤ l.activeAcceptor
  promised : done.length ≤ l.promisedNum
  agreed : ∀ a ∈ done, P a = n
  lower : ∀ a ∈ todo, P a < n

/-- The accept phase, with `k` messages sent. -/
structure AcceptCount (k : ℕ) (n : ℤ) (P : ℤ → ℤ) (ph : Accept) (done : List ℤ) : Prop where
  active : ph.activeAcceptors = k
  accepted : ph.acceptNumber = done.countP (P · = n)

/-- A majority of the acceptors has promised just the number `n`. -/
def Backed (K : List ℤ) (n : ℤ) (P : ℤ → ℤ) : Prop := K.length / 2 < K.countP (P · = n)

/-- The reply to a p1a message for `n`, of an acceptor that now has promised `p`. -/
def PrepareReply (n p : ℤ) (r : PaxosMsg) : Prop :=
  r.isAgree ∧ r.proposeNumber = -1 ∧ p = n ∨ ¬r.isAgree ∧ r.proposeNumber = p ∧ n ≤ p

section

variable {K done todo : List ℤ} {k N : ℕ} {n a : ℤ} {P P' : ℤ → ℤ} {l : Prepare} {ph : Accept}
  {m : PaxosMsg}

theorem countP_congr (h : ∀ b ∈ done, P' b = P b) :
    done.countP (P' · = n) = done.countP (P · = n) :=
  List.countP_congr fun b hb => by rw [h b hb]

/-- One more acceptor has been counted. -/
theorem countP_append_singleton :
    (done ++ [a]).countP (P · = n) = done.countP (P · = n) + if P a = n then 1 else 0 := by
  rw [List.countP_append, List.countP_singleton]
  by_cases h : P a = n
  · rw [if_pos h, if_pos (decide_eq_true h)]
  · rw [if_neg h, if_neg (by simpa using h)]

namespace FirstRound

theorem congr (h : FirstRound k n P l done) (hP : ∀ b ∈ done, P' b = P b) :
    FirstRound k n P' l done where
  active := h.active
  promised := h.promised.trans_eq (countP_congr hP).symm
  rejected := h.rejected
  heard b hb := by
    rw [hP b hb]
    exact h.heard b hb
  bound := h.bound

theorem start (n : ℤ) (P : ℤ → ℤ) (cmd : Command) : FirstRound 0 n P { cmd := cmd } [] where
  active := rfl
  promised := le_rfl
  rejected h := absurd h (lt_irrefl _)
  heard := List.forall_mem_nil _
  bound := ⟨le_rfl, show (-1 : ℤ) < 2147483647 by decide⟩

theorem send (h : FirstRound k n P l done) :
    FirstRound (k + 1) n P { l with activeAcceptor := l.activeAcceptor + 1 } done :=
  { h with active := congrArg (· + 1) h.active }

theorem receive (h : FirstRound k n P l done) (hm : PrepareReply n (P a) m)
    (ha : P a < 2147483647) : FirstRound k n P (l.receive a n m) (done ++ [a]) where
  active := (l.active_receive a n m).trans h.active
  promised := by
    rw [l.promisedNum_receive, countP_append_singleton]
    have hle := h.promised
    rcases hm with ⟨hagree, -, hp⟩ | ⟨hagree, -, -⟩
    · rw [if_pos hagree, if_pos hp]
      omega
    · rw [if_neg hagree]
      omega
  rejected := by
    rw [l.promisedNum_receive, l.highest_receive, List.length_append, List.length_singleton]
    have hrej := h.rejected
    rcases hm with ⟨hagree, -, -⟩ | ⟨hagree, hnum, hle⟩
    · rw [if_pos hagree]
      exact fun hlt => (hrej (by omega)).trans (le_max_left _ _)
    · exact fun _ => (hle.trans hnum.ge).trans (le_max_right _ _)
  heard := by
    rw [l.highest_receive]
    intro b hb
    rcases List.mem_append.1 hb with hb | hb
    · exact (h.heard b hb).imp_right fun hle => hle.trans (le_max_left _ _)
    · rw [List.mem_singleton.1 hb]
      rcases hm with ⟨-, -, hp⟩ | ⟨-, hnum, -⟩
      · exact .inl hp
      · exact .inr (hnum.ge.trans (le_max_right _ _))
  bound := by
    rw [l.highest_receive]
    have hbound := h.bound
    refine ⟨hbound.1.trans (le_max_left _ _), max_lt hbound.2 ?_⟩
    rcases hm with ⟨-, hnum, -⟩ | ⟨-, hnum, -⟩ <;> omega

/-- The round has failed, and the next number is above all promises. -/
theorem retry (h : FirstRound k n P l K) (hfew : l.promisedNum ≤ K.length / 2) (hK : K ≠ [])
    (hk : K.length ≤ k) :
    SecondRound K.length (l.highestProposlNum + 1) P l [] K := by
  have hpos : 0 < K.length := List.length_pos_of_ne_nil hK
  have hle : n ≤ l.highestProposlNum := h.rejected (by omega)
  refine ⟨hk.trans_eq h.active.symm, Nat.zero_le _, List.forall_mem_nil _, fun a ha => ?_⟩
  rcases h.heard a ha with hp | hp <;> omega

end FirstRound

namespace SecondRound

theorem congr (h : SecondRound N n P l done todo) (hdone : ∀ b ∈ done, P' b = P b)
    (htodo : ∀ b ∈ todo, P' b = P b) : SecondRound N n P' l done todo where
  active := h.active
  promised := h.promised
  agreed b hb := (hdone b hb).trans (h.agreed b hb)
  lower b hb := (htodo b hb).trans_lt (h.lower b hb)

theorem send (h : SecondRound N n P l done (a :: todo)) :
    SecondRound N n P { l with activeAcceptor := l.activeAcceptor + 1 } done todo where
  active := h.active.trans (Nat.le_succ _)
  promised := h.promised
  agreed := h.agreed
  lower b hb := h.lower b (List.mem_cons_of_mem _ hb)

theorem receive (h : SecondRound N n P l done todo) (hm : m.isAgree) (ha : P a = n) :
    SecondRound N n P (l.receive a n m) (done ++ [a]) todo where
  active := h.active.trans_eq (l.active_receive a n m).symm
  promised := by
    rw [l.promisedNum_receive, if_pos hm, List.length_append, List.length_singleton]
    exact Nat.succ_le_succ h.promised
  agreed b hb := by
    rcases List.mem_append.1 hb with hb | hb
    · exact h.agreed b hb
    · exact List.mem_singleton.1 hb ▸ ha
  lower := h.lower

theorem backed (h : SecondRound N n P l K []) (hK : K ≠ []) : Backed K n P := by
  have hpos : 0 < K.length := List.length_pos_of_ne_nil hK
  have hall : K.countP (P · = n) = K.length :=
    List.countP_eq_length.2 fun a ha => decide_eq_true (h.agreed a ha)
  rw [Backed, hall]
  omega

end SecondRound

namespace AcceptCount

theorem congr (h : AcceptCount k n P ph done) (hP : ∀ b ∈ done, P' b = P b) :
    AcceptCount k n P' ph done := ⟨h.active, h.accepted.trans (countP_congr hP).symm⟩

theorem send (h : AcceptCount k n P ph done) :
    AcceptCount (k + 1) n P { ph with activeAcceptors := ph.activeAcceptors + 1 } done :=
  ⟨congrArg (· + 1) h.active, h.accepted⟩

theorem receive (h : AcceptCount k n P ph done) (hm : m.isAgree ↔ P a = n) :
    AcceptCount k n P (ph.receive m) (done ++ [a]) := by
  refine ⟨(ph.active_receive m).trans h.active, ?_⟩
  rw [countP_append_singleton, ← h.accepted, Accept.receive]
  by_cases hagree : m.isAgree
  · rw [if_pos hagree, if_pos (hm.1 hagree)]
  · rw [if_neg hagree, if_neg fun hp => hagree (hm.2 hp), Nat.add_zero]

/-- A majority has accepted. -/
theorem result {f : LaptopFactory} (h : AcceptCount K.length n P ph K) (hb : Backed K n P)
    (hnum : f.numOfAcceptors = K.length) (hK : K ≠ []) : acceptResult f ph = 1 := by
  have hpos : 0 < K.length := List.length_pos_of_ne_nil hK
  rw [acceptResult_eq_one, h.active, h.accepted, hnum]
  exact ⟨by omega, hb⟩

end AcceptCount

end

/-! ### Phases -/

/-- A peer that does not refuse the connection is among the stubs. -/
theorem mem_connectStubs (f : LaptopFactory) {env : Env} {a : ℤ} (ha : a ∈ f.acceptorMap.keys)
    (hr : a ∉ env.refused) (stubs : StdMap ℤ ClientStub) : a ∈ f.connectStubs stubs env := by
  have hfold : ∀ (keys : List ℤ) (stubs : StdMap ℤ ClientStub), a ∈ stubs ∨ a ∈ keys →
      a ∈ keys.foldl (fun stubs b =>
        if b ∈ env.refused then stubs.erase b else stubs.insert b ⟨b ∉ env.dropped⟩) stubs := by
    intro keys
    induction keys with
    | nil => exact fun stubs h => h.resolve_right List.not_mem_nil
    | cons b keys ih =>
      intro stubs h
      refine ih _ ?_
      dsimp only
      by_cases hab : a = b
      · left
        rw [if_neg (hab ▸ hr), StdMap.mem_insert]
        exact .inl hab
      · refine (h.imp_right fun h => (List.mem_cons.1 h).resolve_left hab).imp_left fun h => ?_
        split_ifs
        · exact StdMap.mem_erase.2 ⟨hab, h⟩
        · exact StdMap.mem_insert.2 (.inr h)
  exact hfold _ stubs (.inr ha)

/-- The Commander visits all learners that it has to tell. -/
theorem addressees_subset (f : LaptopFactory) (env : Env) : f.addressees env ⊆
    (if f.commanderLearnerStubInit then f.commanderLearnerStub
      else f.connectStubs f.commanderLearnerStub env).keys := by
  rw [addressees]
  split_ifs
  · exact List.Subset.refl _
  · intro a ha
    obtain ⟨hmem, hr⟩ := List.mem_filter.1 ha
    exact StdMap.mem_keys.2 (mem_connectStubs f hmem (of_decide_eq_true hr) _)

/-- What the Commander has sent to the learners that it has visited. -/
structure Spread (cmd : Command) (visited : List ℤ) (learned : List (ℤ × PaxosMsg))
    (missed : List ℤ) : Prop where
  covered : ∀ a ∈ visited, (a, .learn cmd) ∈ learned ∨ a ∈ missed
  same : ∀ p ∈ learned, p.2 = .learn cmd

namespace Spread

variable {cmd : Command} {visited : List ℤ} {learned : List (ℤ × PaxosMsg)} {missed : List ℤ}

theorem start : Spread cmd [] [] [] := ⟨List.forall_mem_nil _, List.forall_mem_nil _⟩

theorem send (h : Spread cmd visited learned missed) (a : ℤ) :
    Spread cmd (visited ++ [a]) ((a, .learn cmd) :: learned) missed where
  covered b hb := by
    rcases List.mem_append.1 hb with hb | hb
    · exact (h.covered b hb).imp_left (List.mem_cons_of_mem _)
    · exact .inl (List.mem_singleton.1 hb ▸ List.mem_cons_self)
  same := List.forall_mem_cons.2 ⟨rfl, h.same⟩

theorem miss (h : Spread cmd visited learned missed) (a : ℤ) :
    Spread cmd (visited ++ [a]) learned (a :: missed) where
  covered b hb := by
    rcases List.mem_append.1 hb with hb | hb
    · exact (h.covered b hb).imp_right (List.mem_cons_of_mem _)
    · exact .inr (List.mem_singleton.1 hb ▸ List.mem_cons_self)
  same := h.same

end Spread

/-- The control points of an undisturbed call, with what the call has done. The
    acceptors `K` have promised the numbers `P`; `n` is the number of the Scout,
    and `inbox` what has arrived. In each case, the steps to come are not more
    than the bound on the steps allows. -/
inductive Phase (K : List ℤ) (n : ℤ) (P : ℤ → ℤ) (inbox : ℤ → List PaxosMsg) :
    ScoutPc → Call → Prop
  | connect {laptop} : (∀ a ∈ K, P a < 2147483647) → n < 2147483647 →
      Phase K n P inbox (.connect laptop) {}
  | first {laptop l done todo k} : K = done ++ todo → (∀ a ∈ K, P a < 2147483647) →
      n < 2147483647 → FirstRound done.length n P l done →
      k + 2 * todo.length + 4 * K.length + 8 ≤ 6 * K.length + 9 →
      Phase K n P inbox (.p1a laptop l todo) { steps := k, rounds := 1 }
  | firstReply {laptop l done a todo k} : K = done ++ a :: todo → (∀ a ∈ K, P a < 2147483647) →
      n < 2147483647 → FirstRound (done.length + 1) n P l done →
      (∀ r ∈ inbox a, PrepareReply n (P a) r) →
      k + 2 * todo.length + 4 * K.length + 9 ≤ 6 * K.length + 9 →
      Phase K n P inbox (.p1b laptop l a todo) { steps := k, rounds := 1 }
  | second {laptop l done todo k} : K = done ++ todo → SecondRound K.length n P l done todo →
      k + 2 * todo.length + 2 * K.length + 7 ≤ 6 * K.length + 9 →
      Phase K n P inbox (.p1a laptop l todo) { steps := k, rounds := 2 }
  | secondReply {laptop l done a todo k} : K = done ++ a :: todo →
      SecondRound K.length n P l done todo → (inbox a = [] → P a < n) →
      (∀ r ∈ inbox a, r.isAgree ∧ P a = n) →
      k + 2 * todo.length + 2 * K.length + 8 ≤ 6 * K.length + 9 →
      Phase K n P inbox (.p1b laptop l a todo) { steps := k, rounds := 2 }
  | propose {laptop l k r} : Backed K n P → r ≤ 2 → k + 2 * K.length + 6 ≤ 6 * K.length + 9 →
      Phase K n P inbox (.propose laptop l) { steps := k, rounds := r }
  | pickSlot {laptop l k r} : Backed K n P → r ≤ 2 → k + 2 * K.length + 5 ≤ 6 * K.length + 9 →
      Phase K n P inbox (.pickSlot laptop l) { steps := k, rounds := r }
  | accept {laptop ph done todo k r} : K = done ++ todo → Backed K n P →
      AcceptCount done.length n P ph done → r ≤ 2 →
      k + 2 * todo.length + 4 ≤ 6 * K.length + 9 →
      Phase K n P inbox (.p2a laptop ph todo) { steps := k, rounds := r, accepted := [ph.cmd] }
  | acceptReply {laptop ph done a todo k r} : K = done ++ a :: todo → Backed K n P →
      AcceptCount (done.length + 1) n P ph done → (∀ r ∈ inbox a, r.isAgree ↔ P a = n) → r ≤ 2 →
      k + 2 * todo.length + 5 ≤ 6 * K.length + 9 →
      Phase K n P inbox (.p2b laptop ph a todo) { steps := k, rounds := r, accepted := [ph.cmd] }
  | command {laptop cmd k r} : r ≤ 2 → k + 3 ≤ 6 * K.length + 9 →
      Phase K n P inbox (.command laptop cmd) { steps := k, rounds := r, accepted := [cmd] }
  | learn {laptop cmd addressees visited todo learned missed k r} :
      addressees ⊆ visited ++ todo → Spread cmd visited learned missed →
      r ≤ 2 → k + todo.length + 2 ≤ 6 * K.length + 9 + (visited ++ todo).length →
      Phase K n P inbox (.learn laptop cmd todo)
        { steps := k, rounds := r, accepted := [cmd], addressees := addressees
          learners := visited ++ todo, learned := learned, missed := missed }
  | record {laptop cmd addressees learners learned missed k r} :
      addressees ⊆ learners → Spread cmd learners learned missed →
      r ≤ 2 → k + 1 ≤ 6 * K.length + 9 + learners.length →
      Phase K n P inbox (.record laptop)
        { steps := k, rounds := r, accepted := [cmd], addressees := addressees
          learners := learners, learned := learned, missed := missed }
  | returned {cmd addressees learners learned missed k r} :
      addressees ⊆ learners → Spread cmd learners learned missed →
      r ≤ 2 → k ≤ 6 * K.length + 9 + learners.length →
      Phase K n P inbox .idle
        { steps := k, rounds := r, accepted := [cmd], addressees := addressees
          learners := learners, learned := learned, missed := missed, result := some 1 }

/-- The Scout has its connections, or will have them, as long as it needs them. -/
def ScoutPc.Connected (K : List ℤ) (f : LaptopFactory) : ScoutPc → Prop
  | .connect _ => FullyConnected (f.connected {}) K
  | .p1a .. | .p1b .. | .propose .. | .pickSlot .. | .p2a .. | .p2b .. =>
    FullyConnected f.scoutAcceptorStub K
  | _ => True

section

variable {K : List ℤ} {n a : ℤ} {P P' : ℤ → ℤ} {inbox inbox' : ℤ → List PaxosMsg} {pc : ScoutPc}
  {g : Call}

theorem Backed.congr (h : Backed K n P) (hP : ∀ b ∈ K, P' b = P b) : Backed K n P' := by
  rw [Backed, countP_congr hP]
  exact h

/-- Only the promises of the acceptors `K` matter, and what they have sent. -/
theorem Phase.congr (h : Phase K n P inbox pc g) (hP : ∀ b ∈ K, P' b = P b)
    (hin : ∀ b ∈ K, inbox' b = inbox b) : Phase K n P' inbox' pc g := by
  have hlt : (∀ b ∈ K, P b < 2147483647) → ∀ b ∈ K, P' b < 2147483647 :=
    fun hlt b hb => (hP b hb).trans_lt (hlt b hb)
  have hleft : ∀ {done todo}, K = done ++ todo → ∀ b ∈ done, P' b = P b :=
    fun hK b hb => hP b (hK ▸ List.mem_append_left _ hb)
  have hright : ∀ {done todo}, K = done ++ todo → ∀ b ∈ todo, P' b = P b :=
    fun hK b hb => hP b (hK ▸ List.mem_append_right _ hb)
  have hmem : ∀ {done a todo}, K = done ++ a :: todo → a ∈ K :=
    fun hK => hK ▸ List.mem_append_right _ List.mem_cons_self
  cases h with
  | connect hb hn => exact .connect (hlt hb) hn
  | first hK hb hn hr hk => exact .first hK (hlt hb) hn (hr.congr (hleft hK)) hk
  | firstReply hK hb hn hr hm hk =>
    refine .firstReply hK (hlt hb) hn (hr.congr (hleft hK)) ?_ hk
    rw [hin _ (hmem hK), hP _ (hmem hK)]
    exact hm
  | second hK hr hk => exact .second hK (hr.congr (hleft hK) (hright hK)) hk
  | secondReply hK hr hlow hm hk =>
    refine .secondReply hK (hr.congr (hleft hK) fun b hb => hright hK b
      (List.mem_cons_of_mem _ hb)) ?_ ?_ hk
    · rw [hin _ (hmem hK), hP _ (hmem hK)]
      exact hlow
    · rw [hin _ (hmem hK), hP _ (hmem hK)]
      exact hm
  | propose hb hr hk => exact .propose (hb.congr hP) hr hk
  | pickSlot hb hr hk => exact .pickSlot (hb.congr hP) hr hk
  | accept hK hb hc hr hk => exact .accept hK (hb.congr hP) (hc.congr (hleft hK)) hr hk
  | acceptReply hK hb hc hm hr hk =>
    refine .acceptReply hK (hb.congr hP) (hc.congr (hleft hK)) ?_ hr hk
    rw [hin _ (hmem hK), hP _ (hmem hK)]
    exact hm
  | command hr hk => exact .command hr hk
  | learn ha hs hr hk => exact .learn ha hs hr hk
  | record ha hs hr hk => exact .record ha hs hr hk
  | returned ha hs hr hk => exact .returned ha hs hr hk

/-- How an acceptor replies to a p1a message. -/
theorem reply_p1a (f : LaptopFactory) (n : ℤ) : ∃ r, (f.acceptorEngineer (.p1a n)).2 = some r ∧
    PrepareReply n (f.acceptorEngineer (.p1a n)).1.promisedProposalNumber r ∧
      ((f.acceptorEngineer (.p1a n)).1.promisedProposalNumber = n ∧ r.isAgree ∨
        (f.acceptorEngineer (.p1a n)).1 = f ∧ n ≤ f.promisedProposalNumber) := by
  have h := acceptorEngineer_cases f (.p1a n)
  generalize (f.acceptorEngineer (.p1a n)).1 = f', (f.acceptorEngineer (.p1a n)).2 = o at h
  cases h with
  | promise _ _ hagree hnum => exact ⟨_, rfl, .inl ⟨hagree, hnum, rfl⟩, .inl ⟨rfl, hagree⟩⟩
  | refuse _ hle hagree hnum => exact ⟨_, rfl, .inr ⟨hagree, hnum, hle⟩, .inr ⟨rfl, hle⟩⟩
  | accept hph => exact absurd hph (by simp)
  | reject hph => exact absurd hph (by simp)
  | ignore hph => exact absurd (PaxosMsg.p1a_phase n) hph

/-- How an acceptor replies to a p2a message. -/
theorem reply_p2a (f : LaptopFactory) (n : ℤ) (cmd : Command) :
    ∃ r, (f.acceptorEngineer (.p2a n cmd)).2 = some r ∧
      (f.acceptorEngineer (.p2a n cmd)).1.promisedProposalNumber = f.promisedProposalNumber ∧
        (r.isAgree ↔ f.promisedProposalNumber = n) := by
  have h := acceptorEngineer_cases f (.p2a n cmd)
  generalize (f.acceptorEngineer (.p2a n cmd)).1 = f', (f.acceptorEngineer (.p2a n cmd)).2 = o at h
  cases h with
  | promise hph => exact absurd hph (by simp)
  | refuse hph => exact absurd hph (by simp)
  | accept _ heq hagree => exact ⟨_, rfl, rfl, iff_of_true hagree heq.symm⟩
  | reject _ hne hagree => exact ⟨_, rfl, rfl, iff_of_false hagree (Ne.symm hne)⟩
  | ignore _ hph => exact absurd (PaxosMsg.p2a_phase n cmd) hph

/-- The acceptor that the Scout waits for replies. -/
theorem Phase.reply (h : Phase K n P inbox pc g) (hnodup : K.Nodup) {f : LaptopFactory}
    {m : PaxosMsg} (hask : pc.asked n = some (a, m)) (hempty : inbox a = [])
    (hf : P a = f.promisedProposalNumber)
    (hP : ∀ b, P' b = if b = a then (f.acceptorEngineer m).1.promisedProposalNumber else P b)
    (hin : inbox' a = (f.acceptorEngineer m).2.toList) : Phase K n P' inbox' pc g := by
  have hPa : P' a = (f.acceptorEngineer m).1.promisedProposalNumber := (hP a).trans (if_pos rfl)
  -- The promises of the other acceptors are the same.
  have hleft : ∀ {done todo}, K = done ++ a :: todo → ∀ b ∈ done, P' b = P b := by
    intro done todo hK b hb
    rw [hK] at hnodup
    rw [hP, if_neg fun hba : b = a =>
      (List.nodup_append.1 hnodup).2.2 b hb a List.mem_cons_self hba]
  have hright : ∀ {done todo}, K = done ++ a :: todo → ∀ b ∈ todo, P' b = P b := by
    intro done todo hK b hb
    rw [hK] at hnodup
    have hcons := (List.nodup_append.1 hnodup).2.1
    rw [hP, if_neg fun hba : b = a => (List.nodup_cons.1 hcons).1 (hba ▸ hb)]
  -- The only message from it is its reply.
  have honly : ∀ {r} (p : PaxosMsg → Prop), (f.acceptorEngineer m).2 = some r → p r →
      ∀ r ∈ inbox' a, p r := by
    intro r p hr' hr r' hmem
    rw [hin, hr', Option.mem_toList] at hmem
    obtain rfl := Option.some.inj hmem
    exact hr
  cases h with
  | @firstReply laptop l done _ todo k hK hb hn hr _ hk =>
    cases hask
    obtain ⟨r, hr', hreply, hcases⟩ := reply_p1a f n
    refine .firstReply hK (fun b hmem => ?_) hn (hr.congr (hleft hK)) ?_ hk
    · rw [hP]
      split_ifs with hba
      · rcases hcases with ⟨heq, -⟩ | ⟨heq, -⟩
        · exact heq.trans_lt hn
        · rw [heq, ← hf, ← hba]
          exact hb b hmem
      · exact hb b hmem
    · rw [hPa]
      exact honly _ hr' hreply
  | @secondReply laptop l done _ todo k hK hr hlow _ hk =>
    cases hask
    obtain ⟨r, hr', -, hcases⟩ := reply_p1a f n
    refine .secondReply hK (hr.congr (hleft hK) (hright hK)) (fun hnil => ?_) ?_ hk
    · rw [hin, hr'] at hnil
      cases hnil
    · rw [hPa]
      refine honly _ hr' ?_
      rcases hcases with ⟨heq, hagree⟩ | ⟨-, hle⟩
      · exact ⟨hagree, heq⟩
      · have hlt := hlow hempty
        omega
  | @acceptReply laptop ph done _ todo k r₀ hK hb hc _ hr hk =>
    cases hask
    obtain ⟨r, hr', hsame, hagree⟩ := reply_p2a f n ph.cmd
    have hPsame : ∀ b ∈ K, P' b = P b := by
      intro b _
      rw [hP]
      split_ifs with hba
      · rw [hsame, ← hf, hba]
      · rfl
    refine .acceptReply hK (hb.congr hPsame) (hc.congr (hleft hK)) ?_ hr hk
    rw [hPa, hsame]
    exact honly _ hr' hagree
  | _ => cases hask

end

/-! ### Steps of the Scout -/

/-- The call goes on after the step with the effect `e`. -/
structure GoesOn (K : List ℤ) (P : ℤ → ℤ) (inbox : ℤ → List PaxosMsg) (e : Effect) (g : Call) :
    Prop where
  phase : Phase K e.factory.proposalNumber P inbox e.pc g
  connected : e.pc.Connected K e.factory
  number : IsInt e.factory.proposalNumber

section

variable {K done todo : List ℤ} {i a : ℤ} {f : LaptopFactory} {P : ℤ → ℤ} {k : ℕ}
  {inbox inbox' : ℤ → List PaxosMsg} {env : Env} {pc : ScoutPc} {e : Effect} {g : Call}
  {laptop : LaptopInfo} {l : Prepare} {ph : Accept}

theorem scoutConnect_connected (f : LaptopFactory) (laptop : LaptopInfo) (env : Env) :
    (scoutConnect f laptop env).factory.scoutAcceptorStub = f.connected env ∧
      (scoutConnect f laptop env).factory.proposalNumber = f.proposalNumber ∧
        (scoutConnect f laptop env).pc =
          .p1a laptop { cmd := { slot := env.indet } } (f.connected env).keys := by
  rw [scoutConnect, connected]
  split_ifs <;> exact ⟨rfl, rfl, rfl⟩

/-- The end of the first round. -/
theorem FirstRound.goesOn {n : ℤ} (hr : FirstRound K.length n P l K) (hfn : f.proposalNumber = n)
    (hnum : f.numOfAcceptors = K.length) (hK : K ≠ [])
    (hconn : FullyConnected f.scoutAcceptorStub K) (hint : IsInt f.proposalNumber)
    (hk : k + 4 * K.length + 8 ≤ 6 * K.length + 9) :
    GoesOn K P inbox' (endRound i f laptop l)
      (Call.after { steps := k, rounds := 1 } f env (.p1a laptop l [])
        (endRound i f laptop l)) := by
  have hpos : 0 < K.length := List.length_pos_of_ne_nil hK
  have hactive := hr.active
  rw [endRound, if_neg (by omega)]
  by_cases hfew : l.promisedNum ≤ f.numOfAcceptors / 2
  · rw [if_pos hfew]
    rw [hnum] at hfew
    have hbound := hr.bound
    refine ⟨?_, hconn, show IsInt (l.highestProposlNum + 1) from ⟨by omega, by omega⟩⟩
    rw [hconn.keys]
    exact .second (k := k + 1) rfl (hr.retry hfew hK le_rfl) (by omega)
  · rw [if_neg hfew]
    rw [hnum, not_le] at hfew
    refine ⟨?_, hconn, hint⟩
    subst hfn
    exact .propose (k := k + 1) (r := 1) (hfew.trans_le hr.promised) (by decide) (by omega)

/-- The accept phase ends with success. -/
theorem AcceptCount.goesOn {n : ℤ} {r : ℕ} (hc : AcceptCount K.length n P ph K)
    (hb : Backed K n P) (hnum : f.numOfAcceptors = K.length) (hK : K ≠ [])
    (hint : IsInt f.proposalNumber) (hr : r ≤ 2) (hk : k + 4 ≤ 6 * K.length + 9)
    (he : scoutStep i f inbox env (.p2a laptop ph []) = some e) :
    GoesOn K P inbox' e
      (Call.after { steps := k, rounds := r, accepted := [ph.cmd] } f env
        (.p2a laptop ph []) e) := by
  have hres : acceptResult f ph = 1 := hc.result hb hnum hK
  have heq : e = { factory := f, pc := .command laptop ph.cmd } := by
    rw [scoutStep, endOwnAccept, endOtherAccept, if_pos hres, if_pos hres, ite_self] at he
    exact (Option.some.inj he).symm
  subst heq
  exact ⟨.command (k := k + 1) hr (by omega), trivial, hint⟩

/-- The Commander visits its stubs. -/
theorem commanderConnect_learners (f : LaptopFactory) (laptop : LaptopInfo) (cmd : Command)
    (env : Env) : (commanderConnect f laptop cmd env).factory.commanderLearnerStub =
      if f.commanderLearnerStubInit then f.commanderLearnerStub
      else f.connectStubs f.commanderLearnerStub env := by
  rw [commanderConnect]
  split_ifs <;> rfl

/-- The learner under the iterator is sent the message or missed. -/
theorem Call.after_learn (g : Call) (f : LaptopFactory) (env : Env) (laptop : LaptopInfo)
    (cmd : Command) (a : ℤ) (todo : List ℤ) (e : Effect) :
    g.after f env (.learn laptop cmd (a :: todo)) e = { g with
      steps := g.steps + 1
      result := e.events.findSome? Event.result?
      learned := e.toLearner.toList ++ g.learned
      missed := if env.alive ∧ open? f.commanderLearnerStub a then g.missed
        else a :: g.missed } := rfl

/-- A question goes out if nothing fails. -/
theorem asks_p1a (hconn : FullyConnected f.scoutAcceptorStub K) (ha : a ∈ K)
    (halive : env.alive = true)
    (he : scoutStep i f inbox env (.p1a laptop l (a :: todo)) = some e) : e =
      { factory := f
        pc := .p1b laptop { l with activeAcceptor := l.activeAcceptor + 1 } a todo
        toAcceptor := some (a, .p1a f.proposalNumber)
        events := [.p1aSent i a f.proposalNumber] } := by
  rw [scoutStep, sendP1a, if_pos ⟨halive, hconn.isOpen a ha⟩] at he
  exact (Option.some.inj he).symm

theorem asks_p2a (hconn : FullyConnected f.scoutAcceptorStub K) (ha : a ∈ K)
    (halive : env.alive = true)
    (he : scoutStep i f inbox env (.p2a laptop ph (a :: todo)) = some e) : e =
      { factory := f
        pc := .p2b laptop { ph with activeAcceptors := ph.activeAcceptors + 1 } a todo
        toAcceptor := some (a, .p2a f.proposalNumber ph.cmd)
        events := [.p2aSent i a f.proposalNumber ph.cmd ph.own] } := by
  rw [scoutStep, sendP2a, if_pos ⟨halive, hconn.isOpen a ha⟩] at he
  exact (Option.some.inj he).symm

/-- What the Scout receives has arrived if nothing fails. -/
theorem hears_p1b (halive : env.alive = true)
    (he : scoutStep i f inbox env (.p1b laptop l a todo) = some e) : ∃ m ∈ inbox a, e =
      { factory := f
        pc := .p1a laptop (l.receive a f.proposalNumber m) todo
        received := some a } := by
  rw [scoutStep, receiveP1b, if_pos halive] at he
  obtain ⟨m, hm, he⟩ := Option.map_eq_some_iff.1 he
  exact ⟨m, List.mem_of_mem_head? hm, he.symm⟩

theorem hears_p2b (halive : env.alive = true)
    (he : scoutStep i f inbox env (.p2b laptop ph a todo) = some e) : ∃ m ∈ inbox a, e =
      { factory := f, pc := .p2a laptop (ph.receive m) todo, received := some a } := by
  rw [scoutStep, receiveP2b, if_pos halive] at he
  obtain ⟨m, hm, he⟩ := Option.map_eq_some_iff.1 he
  exact ⟨m, List.mem_of_mem_head? hm, he.symm⟩

theorem goesOn_connect (hP : ∀ b ∈ K, P b < 2147483647) (hn : f.proposalNumber < 2147483647)
    (hfull : FullyConnected (f.connected env) K) (hint : IsInt f.proposalNumber) :
    GoesOn K P inbox' (scoutConnect f laptop env)
      (Call.after {} f env (.connect laptop) (scoutConnect f laptop env)) := by
  obtain ⟨hstub, hnum, hpc⟩ := scoutConnect_connected f laptop env
  have hnil : K = [] ++ K := rfl
  refine ⟨?_, ?_, hnum.symm ▸ hint⟩
  · rw [hpc, hfull.keys, hnum]
    exact .first (k := 1) hnil hP hn (.start _ _ _) (by omega)
  · rw [hpc]
    change FullyConnected (scoutConnect f laptop env).factory.scoutAcceptorStub K
    rw [hstub]
    exact hfull

/-- The Scout takes a step in an undisturbed call. -/
theorem Phase.scout (h : Phase K f.proposalNumber P inbox pc g) (hK : K ≠ [])
    (hnum : f.numOfAcceptors = K.length) (hconn : pc.Connected K f)
    (hint : IsInt f.proposalNumber) (hok : pc.Undisturbed K f env)
    (he : scoutStep i f inbox env pc = some e)
    (hsent : ∀ a m, e.toAcceptor = some (a, m) → inbox' a = []) :
    GoesOn K P inbox' e (g.after f env pc e) := by
  have hmem : ∀ {done a todo}, K = done ++ a :: todo → a ∈ K :=
    fun hK => hK ▸ List.mem_append_right _ List.mem_cons_self
  have hlen : ∀ (done : List ℤ) (a : ℤ), (done ++ [a]).length = done.length + 1 := by simp
  have hnil : K = [] ++ K := rfl
  -- nothing is on its way from the acceptor that is asked
  have hempty : ∀ {a m} (p : PaxosMsg → Prop), e.toAcceptor = some (a, m) →
      ∀ m ∈ inbox' a, p m := by
    intro a m p hask
    rw [hsent a m hask]
    exact List.forall_mem_nil p
  cases h with
  | connect hb hn =>
    cases he
    exact goesOn_connect hb hn hok hint
  | @first laptop l done todo k hKd hb hn hr hk =>
    cases todo with
    | nil =>
      cases he
      rw [List.append_nil] at hKd
      subst hKd
      exact hr.goesOn rfl hnum hK hconn hint hk
    | cons a todo =>
      obtain rfl := asks_p1a hconn (hmem hKd) hok he
      rw [List.length_cons] at hk
      exact ⟨.firstReply (k := k + 1) hKd hb hn hr.send (hempty _ rfl) (by omega), hconn, hint⟩
  | @firstReply laptop l done a todo k hKd hb hn hr hm hk =>
    obtain ⟨m, hm', rfl⟩ := hears_p1b hok he
    have hlt : P a < 2147483647 := hb a (hmem hKd)
    rw [← hlen done a] at hr
    rw [List.append_cons] at hKd
    exact ⟨.first (k := k + 1) hKd hb hn (hr.receive (hm m hm') hlt) (by omega), hconn, hint⟩
  | @second laptop l done todo k hKd hr hk =>
    cases todo with
    | nil =>
      cases he
      rw [List.append_nil] at hKd
      subst hKd
      have hpos : 0 < K.length := List.length_pos_of_ne_nil hK
      have hactive := hr.active
      have hpromised := hr.promised
      rw [endRound, if_neg (by omega), if_neg (by omega)]
      exact ⟨.propose (k := k + 1) (hr.backed hK) le_rfl (by omega), hconn, hint⟩
    | cons a todo =>
      obtain rfl := asks_p1a hconn (hmem hKd) hok he
      have hlow := hr.lower a List.mem_cons_self
      rw [List.length_cons] at hk
      exact ⟨.secondReply (k := k + 1) hKd hr.send (fun _ => hlow) (hempty _ rfl) (by omega), hconn,
        hint⟩
  | @secondReply laptop l done a todo k hKd hr hlow hm hk =>
    obtain ⟨m, hm', rfl⟩ := hears_p1b hok he
    obtain ⟨hagree, hPa⟩ := hm m hm'
    rw [List.append_cons] at hKd
    exact ⟨.second (k := k + 1) hKd (hr.receive hagree hPa) (by omega), hconn, hint⟩
  | @propose laptop l k r hb hr hk =>
    cases he
    rw [chooseCommand]
    split_ifs
    · exact ⟨.pickSlot (k := k + 1) hb hr (by omega), hconn, hint⟩
    · refine ⟨?_, hconn, hint⟩
      rw [hconn.keys]
      exact .accept (k := k + 1) hnil hb ⟨rfl, rfl⟩ hr (by omega)
  | @pickSlot laptop l k r hb hr hk =>
    cases he
    refine ⟨?_, hconn, hint⟩
    rw [LaptopPaxos.pickSlot, hconn.keys]
    exact .accept (k := k + 1) hnil hb ⟨rfl, rfl⟩ hr (by omega)
  | @accept laptop ph done todo k r hKd hb hc hr hk =>
    cases todo with
    | nil =>
      rw [List.append_nil] at hKd
      subst hKd
      exact hc.goesOn hb hnum hK hint hr hk he
    | cons a todo =>
      obtain rfl := asks_p2a hconn (hmem hKd) hok he
      rw [List.length_cons] at hk
      exact ⟨.acceptReply (k := k + 1) hKd hb hc.send (hempty _ rfl) hr (by omega), hconn, hint⟩
  | @acceptReply laptop ph done a todo k r hKd hb hc hm hr hk =>
    obtain ⟨m, hm', rfl⟩ := hears_p2b hok he
    rw [← hlen done a] at hc
    rw [List.append_cons] at hKd
    refine ⟨?_, hconn, hint⟩
    rw [← Accept.cmd_receive ph m]
    exact .accept (k := k + 1) hKd hb (hc.receive (hm m hm')) hr (by omega)
  | @command laptop cmd k r hr hk =>
    cases he
    refine ⟨.learn (k := k + 1) ?_ .start hr ?_, trivial, ?_⟩
    · change f.addressees env ⊆
        (commanderConnect f laptop cmd env).factory.commanderLearnerStub.keys
      rw [commanderConnect_learners]
      exact addressees_subset f env
    · rw [List.nil_append]
      omega
    · rw [commanderConnect]
      split_ifs <;> exact hint
  | @learn laptop cmd addressees visited todo learned missed k r ha hs hr hk =>
    cases todo with
    | nil =>
      cases he
      rw [List.append_nil] at ha
      rw [List.append_nil, List.length_nil] at hk
      rw [List.append_nil]
      exact ⟨.record (k := k + 1) ha hs hr (by omega), trivial, hint⟩
    | cons a todo =>
      cases he
      rw [List.append_cons] at ha
      rw [List.length_cons, List.append_cons] at hk
      rw [List.append_cons, Call.after_learn, sendLearn]
      split_ifs
      · exact ⟨.learn (k := k + 1) ha (hs.send a) hr (by omega), trivial, hint⟩
      · exact ⟨.learn (k := k + 1) ha (hs.miss a) hr (by omega), trivial, hint⟩
  | @record laptop cmd addressees learners learned missed k r ha hs hr hk =>
    cases he
    exact ⟨.returned (k := k + 1) ha hs hr (by omega), trivial, hint⟩
  | returned => exact hok.elim

end

end LaptopPaxos
