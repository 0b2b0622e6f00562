import LaptopPaxos.Wires

/-!
# Promises and votes

What the acceptors have promised and accepted, read off the history. An
acceptor promises strictly larger numbers and votes only for the number it has
promised last, so its promises and its votes are in order
(`Event.InOrder`), and it holds the latest vote (`AcceptorOk`).

A promise therefore reports the latest vote before it (`PromiseOk`), and the
votes that come after it are not for smaller numbers
(`PromiseOk.le_acceptedProposal`).
-/

namespace LaptopPaxos

open LaptopFactory

/-- `v` with the number `k` is the latest vote of the acceptor `a`; `k` is `-1`
    when there is none. -/
def Reports (h : List Event) (a k : ℤ) (v : Command) : Prop :=
  (k = -1 ∨ .accepted a k v ∈ h) ∧ ∀ m w, .accepted a m w ∈ h → m ≤ k

/-- A promise is for a larger number than all before it; a vote is for a
    command sent to the acceptor with that number, and not overtaken by a promise. -/
def Event.InOrder (D : Deployment) : Event → List Event → Prop
  | .promised a _ n, h => a ∈ D.ids ∧ 0 ≤ n ∧ (∀ i m, .promised a i m ∈ h → m < n) ∧
      ∀ m w, .accepted a m w ∈ h → m < n
  | .accepted a n v, h => a ∈ D.ids ∧ 0 ≤ n ∧ (∀ i m, .promised a i m ∈ h → m ≤ n) ∧
      ∃ i own, .p2aSent i a n v own ∈ h
  | _, _ => True

/-- The acceptor whose event it is, if any. -/
def Event.voter : Event → Option ℤ
  | .promised a _ _ | .accepted a _ _ => some a
  | _ => none

theorem Event.inOrder_of_voter {D : Deployment} {ev : Event} (h : ev.voter = none)
    (hist : List Event) : ev.InOrder D hist := by
  cases ev with
  | promised => cases h
  | accepted => cases h
  | _ => trivial

theorem Event.voter_of_aside {ev : Event} (h : ev.aside) : ev.voter = none := by
  cases ev with
  | promised => exact h.elim
  | accepted => exact h.elim
  | _ => rfl

/-- The state of the acceptor `a` is what the history says. -/
structure AcceptorOk (h : List Event) (f : LaptopFactory) (a : ℤ) : Prop where
  reports : Reports h a f.acceptedProposalNumber f.acceptedValue
  neg : -1 ≤ f.acceptedProposalNumber
  le : f.acceptedProposalNumber ≤ f.promisedProposalNumber
  promised : ∀ i n, .promised a i n ∈ h → n ≤ f.promisedProposalNumber

/-- A message on its way from the Scout of `i` to the acceptor `a`. -/
def Sent (h : List Event) (i a : ℤ) (m : PaxosMsg) : Prop :=
  ∃ n, 0 ≤ n ∧ (m = .p1a n ∨ ∃ v own, m = .p2a n v ∧ .p2aSent i a n v own ∈ h)

theorem Sent.p1a {h : List Event} {i a n : ℤ} (hm : Sent h i a (.p1a n)) : 0 ≤ n := by
  obtain ⟨n', hn, h' | ⟨v, own, h', -⟩⟩ := hm
  · have hnn : n = n' := congrArg PaxosMsg.proposeNumber h'
    rwa [hnn]
  · exact absurd (congrArg PaxosMsg.phase h') (by simp)

theorem Sent.p2a {h : List Event} {i a n : ℤ} {v : Command} (hm : Sent h i a (.p2a n v)) :
    0 ≤ n ∧ ∃ own, .p2aSent i a n v own ∈ h := by
  obtain ⟨n', hn, h' | ⟨v', own, h', hs⟩⟩ := hm
  · exact absurd (congrArg PaxosMsg.phase h') (by simp)
  · have hnn : n = n' := congrArg PaxosMsg.proposeNumber h'
    have hvv : v = v' := congrArg PaxosMsg.getCommand h'
    rw [hnn, hvv]
    exact ⟨hn, own, hs⟩

/-- The locals of the prepare phase. -/
def ScoutPc.prepare : ScoutPc → Option Prepare
  | .p1a _ l _ | .p1b _ l _ _ | .propose _ l | .pickSlot _ l => some l
  | _ => none

/-- The acceptors have voted as they should, on what the Scouts have sent. -/
structure Voting (D : Deployment) (c : Cluster) : Prop where
  number : ∀ i, 0 ≤ (c.factory i).proposalNumber
  highest : ∀ i l, (c.scout i).prepare = some l → -1 ≤ l.highestProposlNum
  sent : ∀ i a m, m ∈ c.toAcceptor i a → Sent c.hist i a m
  acceptor : ∀ a, AcceptorOk c.hist (c.factory a) a
  inOrder : Justified (Event.InOrder D) c.hist

/-! ### The Scout sends -/

section

variable {id : ℤ} {f : LaptopFactory} {inbox : ℤ → List PaxosMsg} {env : Env} {pc : ScoutPc}
  {e : Effect}

theorem Prepare.le_highest_receive (l : Prepare) (a n : ℤ) (m : PaxosMsg) :
    l.highestProposlNum ≤ (l.receive a n m).highestProposlNum := by
  have h : (l.receive a n m).highestProposlNum = max l.highestProposlNum m.proposeNumber := by
    simp only [Prepare.receive]
    split_ifs <;> rfl
  exact h ▸ le_max_left _ _

theorem ScoutStep.voter (h : ScoutStep id f inbox env pc e) :
    ∀ ev ∈ e.events, ev.voter = none := by
  cases h <;> simp [Event.voter, scoutReturn, LaptopPaxos.pickSlot, scoutConnect,
    commanderConnect, recordOrder]

theorem ScoutStep.number (h : ScoutStep id f inbox env pc e) (hf : 0 ≤ f.proposalNumber)
    (hl : ∀ l, pc.prepare = some l → -1 ≤ l.highestProposlNum) :
    0 ≤ e.factory.proposalNumber ∧ ∀ l, e.pc.prepare = some l → -1 ≤ l.highestProposlNum := by
  have hstart : ∀ f' laptop, ∀ l, (startProposalNumCompete f' laptop env).prepare = some l →
      -1 ≤ l.highestProposlNum := by
    rintro f' laptop l ⟨⟩
    exact le_rfl
  have hreceive : ∀ (l : Prepare) a m, pc.prepare = some l →
      ∀ l', some (l.receive a f.proposalNumber m) = some l' → -1 ≤ l'.highestProposlNum := by
    rintro l a m hpc l' ⟨⟩
    exact (hl l hpc).trans (l.le_highest_receive a _ m)
  have hnone : ∀ pc' : ScoutPc, pc'.prepare = none →
      ∀ l, pc'.prepare = some l → -1 ≤ l.highestProposlNum := fun pc' hpc l hl' => by
    rw [hpc] at hl'
    cases hl'
  cases h with
  | connect =>
    -- with or without new stubs, the Scout starts with a new number
    rw [scoutConnect]
    split_ifs <;> exact ⟨hf, hstart _ _⟩
  | @sendP1a _ l => exact ⟨hf, by rintro l' ⟨⟩; exact hl l rfl⟩
  | failP1a => exact ⟨hf, hl⟩
  | receiveP1b => exact ⟨hf, hreceive _ _ _ rfl⟩
  | missP1b => exact ⟨hf, hreceive _ _ _ rfl⟩
  -- the next number is one more than the highest seen, which is at least -1
  | retry => exact ⟨by have := hl _ rfl; change 0 ≤ _ + 1; omega, hl⟩
  | leave => exact ⟨hf, hl⟩
  | chooseOwn => exact ⟨hf, hl⟩
  | restart => exact ⟨hf, hstart _ _⟩
  | command =>
    rw [commanderConnect]
    split_ifs <;> exact ⟨hf, hnone _ rfl⟩
  | _ => exact ⟨hf, hnone _ rfl⟩

theorem ScoutStep.sent (h : ScoutStep id f inbox env pc e) (hf : 0 ≤ f.proposalNumber) {a : ℤ}
    {m : PaxosMsg} (hm : e.toAcceptor = some (a, m)) : Sent e.events id a m := by
  cases h with
  | sendP1a => cases hm; exact ⟨_, hf, .inl rfl⟩
  | sendP2a => cases hm; exact ⟨_, hf, .inr ⟨_, _, rfl, List.mem_singleton_self _⟩⟩
  | connect => rw [scoutConnect] at hm; cases hm
  | command => rw [commanderConnect] at hm; cases hm
  | _ => cases hm

end

/-! ### The acceptor votes -/

/-- What the acceptor `a` does with a message of the Scout of `i`: its new
    state, its reply and the event. -/
inductive Vote (f : LaptopFactory) (a i : ℤ) :
    PaxosMsg → LaptopFactory → PaxosMsg → List Event → Prop
  | promise {n : ℤ} {r : PaxosMsg} : f.promisedProposalNumber < n → r.isAgree →
      r.acceptedProposal = f.acceptedProposalNumber →
      (f.acceptedProposalNumber ≠ -1 → r.getCommand = f.acceptedValue) →
      Vote f a i (.p1a n) { f with promisedProposalNumber := n } r [.promised a i n]
  | refuse {n : ℤ} {r : PaxosMsg} : n ≤ f.promisedProposalNumber → ¬r.isAgree →
      Vote f a i (.p1a n) f r []
  | accept {n : ℤ} {v : Command} {r : PaxosMsg} : n = f.promisedProposalNumber → r.isAgree →
      Vote f a i (.p2a n v) { f with acceptedProposalNumber := n, acceptedValue := v } r
        [.accepted a n v]
  | reject {n : ℤ} {v : Command} {r : PaxosMsg} : n ≠ f.promisedProposalNumber → ¬r.isAgree →
      Vote f a i (.p2a n v) f r []

theorem vote_cases (f : LaptopFactory) {h : List Event} {a i : ℤ} {msg : PaxosMsg}
    (hm : Sent h i a msg) : ∃ r, (f.acceptorEngineer msg).2 = some r ∧
      Vote f a i msg (f.acceptorEngineer msg).1 r (Cluster.acceptorEvents a i msg (some r)) := by
  have hst := acceptorEngineer_cases f msg
  generalize (f.acceptorEngineer msg).1 = f', (f.acceptorEngineer msg).2 = o at hst
  -- a Scout only sends p1a and p2a messages, so none is ignored
  obtain ⟨n, -, rfl | ⟨v, own, rfl, -⟩⟩ := hm
  · cases hst with
    | promise _ hn hr _ hk hv =>
      refine ⟨_, rfl, ?_⟩
      rw [Cluster.acceptorEvents, if_neg (not_not.2 hr), if_pos (PaxosMsg.p1a_phase n)]
      exact .promise hn hr hk hv
    | refuse _ hn hr =>
      refine ⟨_, rfl, ?_⟩
      rw [Cluster.acceptorEvents, if_pos hr]
      exact .refuse hn hr
    | accept h => cases h
    | reject h => cases h
    | ignore h => exact absurd rfl h
  · cases hst with
    | promise h => cases h
    | refuse h => cases h
    | accept _ hn hr =>
      refine ⟨_, rfl, ?_⟩
      rw [Cluster.acceptorEvents, if_neg (not_not.2 hr), if_neg (by simp)]
      exact .accept hn hr
    | reject _ hn hr =>
      refine ⟨_, rfl, ?_⟩
      rw [Cluster.acceptorEvents, if_pos hr]
      exact .reject hn hr
    | ignore _ h => exact absurd rfl h

section

variable {D : Deployment} {f f' : LaptopFactory} {a b i : ℤ} {msg r : PaxosMsg}
  {h evs : List Event}

theorem Vote.voter (hv : Vote f a i msg f' r evs) : ∀ ev ∈ evs, ev.voter = some a := by
  cases hv <;> simp [Event.voter]

/-- Events of other acceptors add none. -/
theorem mem_of_voter (hevs : ∀ ev ∈ evs, ev.voter ≠ some a) {ev : Event} (hev : ev.voter = some a)
    (hmem : ev ∈ evs ++ h) : ev ∈ h :=
  (List.mem_append.1 hmem).resolve_left fun h => hevs ev h hev

theorem mem_of_ne {ev x : Event} (hmem : ev ∈ x :: h) (hne : ev ≠ x) : ev ∈ h :=
  List.mem_of_ne_of_mem hne hmem

theorem AcceptorOk.frame (hf : AcceptorOk h f a) (hs : SameAcceptor f f')
    (hevs : ∀ ev ∈ evs, ev.voter ≠ some a) : AcceptorOk (evs ++ h) f' a where
  reports := by
    rw [hs.number, hs.value]
    exact ⟨hf.reports.1.imp_right (List.mem_append_right _),
      fun m w hm => hf.reports.2 m w (mem_of_voter hevs rfl hm)⟩
  neg := hs.number ▸ hf.neg
  le := by rw [hs.number, hs.promised]; exact hf.le
  promised i n hn := by
    rw [hs.promised]
    exact hf.promised i n (mem_of_voter hevs rfl hn)

theorem AcceptorOk.vote (hf : AcceptorOk h f a) (hm : Sent h i a msg)
    (hv : Vote f a i msg f' r evs) : AcceptorOk (evs ++ h) f' a := by
  have hle := hf.le
  cases hv with
  | @promise n r hn =>
    -- what was at most the old promise is at most the new one
    have hlt : ∀ {m}, m ≤ f.promisedProposalNumber → m ≤ n := fun hm => hm.trans hn.le
    refine ⟨⟨hf.reports.1.imp_right (List.mem_cons_of_mem _), fun m w hw => ?_⟩, hf.neg, hlt hle,
      fun j m hm => ?_⟩
    · exact hf.reports.2 m w (mem_of_ne hw nofun)
    · rcases List.mem_cons.1 hm with hm | hm
      · cases hm; exact le_refl n
      · exact hlt (hf.promised j m hm)
  | refuse => exact hf
  | @accept n v r hn =>
    -- an earlier vote was not for a number above the promise, which is `n`
    refine ⟨⟨.inr List.mem_cons_self, fun m w hw => ?_⟩, (neg_nonpos.2 zero_le_one).trans hm.p2a.1,
      hn.le, fun j m hm => hf.promised j m (mem_of_ne hm nofun)⟩
    rcases List.mem_cons.1 hw with hw | hw
    · cases hw; exact le_refl n
    · exact (hf.reports.2 m w hw).trans (hle.trans hn.ge)
  | reject => exact hf

theorem Vote.inOrder (hv : Vote f a i msg f' r evs) (ha : a ∈ D.ids) (hf : AcceptorOk h f a)
    (hm : Sent h i a msg) (hh : Justified (Event.InOrder D) h) :
    Justified (Event.InOrder D) (evs ++ h) := by
  have hle := hf.le
  cases hv with
  | promise hn =>
    exact ⟨⟨ha, hm.p1a, fun j m hm => (hf.promised j m hm).trans_lt hn,
      fun m w hw => (hf.reports.2 m w hw).trans_lt (hle.trans_lt hn)⟩, hh⟩
  | refuse => exact hh
  | accept hn =>
    obtain ⟨hpos, hs⟩ := hm.p2a
    exact ⟨⟨ha, hpos, fun j m hm => (hf.promised j m hm).trans hn.ge, i, hs⟩, hh⟩
  | reject => exact hh

end

/-- A promise is for a larger number than all before it. -/
theorem Vote.lt_of_isAgree {f f' : LaptopFactory} {a i n : ℤ} {r : PaxosMsg} {evs : List Event}
    (hv : Vote f a i (.p1a n) f' r evs) (hr : r.isAgree) : f.promisedProposalNumber < n := by
  generalize hm : PaxosMsg.p1a n = m at hv
  have hn : n = m.proposeNumber := hm ▸ rfl
  have hph : m.phase = 1 := hm ▸ rfl
  cases hv with
  | promise hlt => exact hn ▸ hlt
  | refuse _ hagree => exact absurd hr hagree
  | accept => exact absurd hph (by simp)
  | reject => exact absurd hph (by simp)

/-! ### Steps -/

section

variable {D : Deployment} {c c' : Cluster} {act : Action} {a i k n : ℤ} {v : Command}
  {h evs : List Event}

theorem Sent.mono {m : PaxosMsg} (hm : Sent h i a m) (evs : List Event) :
    Sent (evs ++ h) i a m := by
  obtain ⟨n, hn, rfl | ⟨v, own, rfl, hs⟩⟩ := hm
  · exact ⟨n, hn, .inl rfl⟩
  · exact ⟨n, hn, .inr ⟨v, own, rfl, List.mem_append_right _ hs⟩⟩

theorem voting_init (D : Deployment) : Voting D (Cluster.init D) where
  number i := by
    obtain ⟨m, s, h, -⟩ := D.factory_eq i
    change 0 ≤ (D.factory i).proposalNumber
    rw [h]
  highest _ _ := nofun
  sent _ _ _ := nofun
  acceptor a := by
    obtain ⟨m, s, h, -⟩ := D.factory_eq a
    change AcceptorOk [] (D.factory a) a
    rw [h]
    exact ⟨⟨.inl rfl, nofun⟩, le_rfl, le_rfl, nofun⟩
  inOrder := trivial

theorem Voting.step (hc : Voting D c) (h : PaxosStep D c act c') : Voting D c' := by
  cases h with
  | still hst =>
    obtain ⟨evs, hh, hevs⟩ := hst.hist
    refine ⟨fun i => (hst.sameScout i).proposalNumber ▸ hc.number i,
      fun i l hl => hc.highest i l (hst.scout i ▸ hl), fun i a m hm => ?_, fun a => ?_, ?_⟩ <;>
      rw [hh]
    · exact (hc.sent i a m (hst.toAcceptor ▸ hm)).mono evs
    · refine (hc.acceptor a).frame (hst.sameAcceptor a) fun ev hev => ?_
      rw [Event.voter_of_aside (hevs ev hev)]
      exact nofun
    · exact hc.inOrder.append fun ev hev =>
        Event.inOrder_of_voter (Event.voter_of_aside (hevs ev hev))
  | @scout i env e _ hs =>
    obtain ⟨hn, hl⟩ := hs.number (hc.number i) (hc.highest i)
    refine ⟨fun j => ?_, fun j l hj => ?_, fun j a m hm => ?_, fun a => ?_, ?_⟩
    · rw [Cluster.factory_applyEffect]
      split_ifs
      · exact hn
      · exact hc.number j
    · rw [Cluster.scout_applyEffect] at hj
      split_ifs at hj
      · exact hl l hj
      · exact hc.highest j l hj
    · rcases Wires.mem_push hm with hold | ⟨rfl, hnew⟩
      · exact (hc.sent j a m hold).mono _
      · -- the message was sent by this step
        obtain ⟨n, hn, hm⟩ := hs.sent (hc.number j) hnew
        refine ⟨n, hn, hm.imp_right ?_⟩
        rintro ⟨v, own, hm, hev⟩
        exact ⟨v, own, hm, List.mem_append_left _ hev⟩
    · refine (hc.acceptor a).frame ?_ fun ev hev => by rw [hs.voter ev hev]; exact nofun
      rw [Cluster.factory_applyEffect]
      split_ifs with hai
      · exact hai ▸ hs.frame.1
      · exact .refl _
    · exact hc.inOrder.append fun ev hev => Event.inOrder_of_voter (hs.voter ev hev)
  | @acceptor a i msg rest ha hq =>
    have hsame := sameScout_acceptMsg c a i msg rest
    have hsent : Sent c.hist i a msg := hc.sent i a msg (hq ▸ List.mem_cons_self)
    obtain ⟨r, hr, hv⟩ := vote_cases (c.factory a) hsent
    refine ⟨fun j => (hsame j).proposalNumber ▸ hc.number j,
      fun j l hl => hc.highest j l (Cluster.scout_acceptMsg a i msg rest j ▸ hl),
      fun j b m hm => (hc.sent j b m (Wires.mem_of_mem_rest hq hm)).mono _, fun b => ?_, ?_⟩ <;>
      rw [Cluster.hist_acceptMsg, hr]
    · rw [Cluster.factory_acceptMsg]
      split_ifs with hb
      · exact hb ▸ (hc.acceptor a).vote hsent hv
      · refine (hc.acceptor b).frame (.refl _) fun ev hev h => hb ?_
        rw [hv.voter ev hev] at h
        exact (Option.some.inj h).symm
    · exact hv.inOrder ha (hc.acceptor a) hsent hc.inOrder

theorem voting_of_reachable (h : (cluster D).Reachable c) : Voting D c :=
  paxos_invariant h (voting_init D) fun _ hc hst => hc.step hst

end

/-! ### Promises and replies -/

/-- The promise `p` was given to the Scout of `i` and reported the latest vote
    before it. -/
def PromiseOk (h : List Event) (i : ℤ) (p : Promise) : Prop :=
  ∃ h₁ h₂, h = h₁ ++ .promised p.acceptor i p.number :: h₂ ∧
    Reports h₂ p.acceptor p.acceptedProposal p.command

section

variable {D : Deployment} {h : List Event} {i j a n m : ℤ} {w : Command} {p : Promise}

theorem PromiseOk.mono (hp : PromiseOk h i p) (evs : List Event) : PromiseOk (evs ++ h) i p := by
  obtain ⟨h₁, h₂, rfl, hr⟩ := hp
  exact ⟨evs ++ h₁, h₂, (List.append_assoc ..).symm, hr⟩

theorem PromiseOk.mem (hp : PromiseOk h i p) : .promised p.acceptor i p.number ∈ h := by
  obtain ⟨h₁, h₂, rfl, -⟩ := hp
  exact List.mem_append_right _ List.mem_cons_self

/-- The vote reported, if any, has taken place. -/
theorem PromiseOk.accepted (hp : PromiseOk h i p) (hk : p.acceptedProposal ≠ -1) :
    .accepted p.acceptor p.acceptedProposal p.command ∈ h := by
  obtain ⟨h₁, h₂, rfl, hr, -⟩ := hp
  exact List.mem_append_right _ (List.mem_cons_of_mem _ (hr.resolve_left hk))

theorem PromiseOk.number_nonneg (hp : PromiseOk h i p) (hh : Justified (Event.InOrder D) h) :
    0 ≤ p.number := by
  obtain ⟨h₁, h₂, -, -, hpos, -⟩ := hh.exists_split hp.mem
  exact hpos

theorem PromiseOk.lt (hp : PromiseOk h i p) (hh : Justified (Event.InOrder D) h) :
    p.acceptedProposal < p.number := by
  obtain ⟨h₁, h₂, rfl, hr, -⟩ := hp
  obtain ⟨-, hpos, -, hlt⟩ := hh.of_append
  rcases hr with hk | hk
  · omega
  · exact hlt _ _ hk

/-- A vote below the number promised came before the promise, and is not later
    than the vote reported. -/
theorem PromiseOk.le_acceptedProposal (hp : PromiseOk h i p) (hh : Justified (Event.InOrder D) h)
    (hw : .accepted p.acceptor m w ∈ h) (hm : m < p.number) : m ≤ p.acceptedProposal := by
  obtain ⟨h₁, h₂, rfl, -, hr⟩ := hp
  rcases List.mem_append.1 hw with hw | hw
  · -- a vote after the promise is not for a smaller number
    obtain ⟨g₁, g₂, rfl⟩ := List.append_of_mem hw
    rw [List.append_assoc] at hh
    obtain ⟨-, -, hle, -⟩ := hh.of_append
    exact absurd (hle i p.number (List.mem_append_right _ List.mem_cons_self)) (not_le.2 hm)
  · exact hr m w (mem_of_ne hw nofun)

/-- An acceptor promises a number to one Scout only. -/
theorem promised_unique (hh : Justified (Event.InOrder D) h) (hi : .promised a i n ∈ h)
    (hj : .promised a j n ∈ h) : i = j := by
  rcases hh.trichotomy hi hj with he | ⟨h₂, hmem, -, -, hlt, -⟩ | ⟨h₂, hmem, -, -, hlt, -⟩
  · cases he; rfl
  · exact absurd (hlt j n hmem) (lt_irrefl n)
  · exact absurd (hlt i n hmem) (lt_irrefl n)

end

/-- The reply `r` of the acceptor `a`, in the state `f`, to the question `m` of
    the Scout of `i`. -/
structure Answered (h : List Event) (f : LaptopFactory) (i a : ℤ) (m r : PaxosMsg) : Prop where
  prepare : ∀ n, m = .p1a n → n ≤ f.promisedProposalNumber ∧
    (r.isAgree → PromiseOk h i ⟨a, n, r.acceptedProposal, r.getCommand⟩)
  accept : ∀ n v, m = .p2a n v → r.isAgree → .accepted a n v ∈ h

/-- The replies that the Scouts wait for are true. -/
def Replies (c : Cluster) : Prop :=
  ∀ i a m r, c.asked i = some (a, m) → r ∈ c.toScout i a → Answered c.hist (c.factory a) i a m r

section

variable {D : Deployment} {c c' : Cluster} {act : Action} {a i : ℤ} {m r : PaxosMsg}
  {h evs : List Event} {f f' : LaptopFactory}

theorem Answered.mono (ha : Answered h f i a m r)
    (hf : f.promisedProposalNumber ≤ f'.promisedProposalNumber) (evs : List Event) :
    Answered (evs ++ h) f' i a m r where
  prepare n hn := ⟨(ha.prepare n hn).1.trans hf, fun hr => ((ha.prepare n hn).2 hr).mono evs⟩
  accept n v hm hr := List.mem_append_right _ (ha.accept n v hm hr)

theorem Vote.answered (hv : Vote f a i m f' r evs) (hf : AcceptorOk h f a) :
    Answered (evs ++ h) f' i a m r := by
  cases hv with
  | @promise n r hn _ hk hv =>
    refine ⟨fun n' hn' => ?_, fun n' v hm => absurd (congrArg PaxosMsg.phase hm) (by simp)⟩
    have hnn : n = n' := congrArg PaxosMsg.proposeNumber hn'
    subst hnn
    -- the promise is the last event, and reports the latest vote of `h`
    refine ⟨le_refl n, fun _ => ⟨[], h, rfl, ?_⟩⟩
    change Reports h a r.acceptedProposal r.getCommand
    rw [hk]
    refine ⟨?_, hf.reports.2⟩
    by_cases hneg : f.acceptedProposalNumber = -1
    · exact .inl hneg
    · rw [hv hneg]; exact hf.reports.1
  | @refuse n r hn hr =>
    refine ⟨fun n' hn' => ⟨?_, fun hr' => absurd hr' hr⟩, fun _ _ _ hr' => absurd hr' hr⟩
    have hnn : n = n' := congrArg PaxosMsg.proposeNumber hn'
    exact hnn ▸ hn
  | @accept n v r =>
    refine ⟨fun n' hm => absurd (congrArg PaxosMsg.phase hm) (by simp), fun n' v' hm _ => ?_⟩
    have hnn : n = n' := congrArg PaxosMsg.proposeNumber hm
    have hvv : v = v' := congrArg PaxosMsg.getCommand hm
    exact hnn ▸ hvv ▸ List.mem_cons_self
  | reject _ hr =>
    exact ⟨fun n' hm => absurd (congrArg PaxosMsg.phase hm) (by simp),
      fun _ _ _ hr' => absurd hr' hr⟩

theorem Vote.promised_le (hv : Vote f a i m f' r evs) :
    f.promisedProposalNumber ≤ f'.promisedProposalNumber := by
  cases hv with
  | promise hn => exact hn.le
  | _ => exact le_rfl

/-- Time passes: the history grows, and the acceptors promise larger numbers. -/
structure Later (c c' : Cluster) : Prop where
  hist : ∃ evs, c'.hist = evs ++ c.hist
  promised : ∀ a, (c.factory a).promisedProposalNumber ≤ (c'.factory a).promisedProposalNumber

theorem Voting.later (hc : Voting D c) (h : PaxosStep D c act c') : Later c c' := by
  cases h with
  | still hst =>
    obtain ⟨evs, hh, -⟩ := hst.hist
    exact ⟨⟨evs, hh⟩, fun a => (hst.sameAcceptor a).promised.ge⟩
  | @scout i env e _ hs =>
    refine ⟨⟨e.events, rfl⟩, fun a => ?_⟩
    rw [Cluster.factory_applyEffect]
    split_ifs with ha
    · rw [ha, hs.frame.1.promised]
    · exact le_rfl
  | @acceptor a i msg rest _ hq =>
    refine ⟨⟨_, rfl⟩, fun b => ?_⟩
    rw [Cluster.factory_acceptMsg]
    split_ifs with hb
    · obtain ⟨r, -, hv⟩ := vote_cases (c.factory a) (hc.sent i a msg (hq ▸ List.mem_cons_self))
      exact hb ▸ hv.promised_le
    · exact le_rfl

theorem replies_of_reachable (h : (cluster D).Reachable c) : Replies c := by
  refine paxos_invariant h (fun _ _ _ _ => nofun) ?_
  intro c act c' hr ih hst i a m r ha hrep
  have hc := voting_of_reachable hr
  obtain ⟨⟨evs, hh⟩, hle⟩ := hc.later hst
  rcases hst.reply_cases (wired_of_reachable hr) ha hrep with ⟨ha', hrep', -⟩ | ⟨-, hq, rfl, hr'⟩
  · rw [hh]
    exact (ih i a m r ha' hrep').mono (hle a) evs
  · obtain ⟨r', hr'', hv⟩ := vote_cases (c.factory a) (hc.sent i a m (hq ▸ List.mem_cons_self))
    rw [hr'] at hr''
    cases hr''
    rw [Cluster.hist_acceptMsg, hr', Cluster.factory_acceptMsg, if_pos rfl]
    exact hv.answered (hc.acceptor a)

end

end LaptopPaxos
