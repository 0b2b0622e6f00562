import LaptopPaxos.Decisions
import LaptopPaxos.Lib.Bytes

/-!
# How large the numbers get

Numbers only grow in one place, the end of a failed round, and there by one
beyond the highest number heard. So no number in the cluster, be it in the
state of a server, in the locals of a Scout or on a wire, is above the count of
the failed rounds of all Scouts (`Numbered`).
-/

namespace LaptopPaxos

open LaptopFactory

def Event.isRoundFailed : Event → Bool
  | .roundFailed .. => true
  | _ => false

/-- The failed rounds of all Scouts. -/
def failedRounds (h : List Event) : ℕ := h.countP Event.isRoundFailed

/-- A number that `k` failed rounds can have led to. -/
def InReach (k : ℕ) (n : ℤ) : Prop := -1 ≤ n ∧ n ≤ k

instance (k : ℕ) (n : ℤ) : Decidable (InReach k n) := inferInstanceAs (Decidable (_ ∧ _))

def PaxosMsg.InReach (k : ℕ) (m : PaxosMsg) : Prop :=
  LaptopPaxos.InReach k m.proposeNumber ∧ LaptopPaxos.InReach k m.acceptedProposal

structure LaptopFactory.InReach (k : ℕ) (f : LaptopFactory) : Prop where
  proposal : LaptopPaxos.InReach k f.proposalNumber
  promised : LaptopPaxos.InReach k f.promisedProposalNumber
  accepted : LaptopPaxos.InReach k f.acceptedProposalNumber

section

variable {k k' : ℕ} {f f' : LaptopFactory} {m : PaxosMsg} {l : Prepare} {a n : ℤ}

theorem inReach_neg_one (k : ℕ) : InReach k (-1) := ⟨le_rfl, by omega⟩

theorem InReach.mono (h : InReach k n) (hk : k ≤ k') : InReach k' n :=
  ⟨h.1, h.2.trans (Int.ofNat_le.2 hk)⟩

theorem PaxosMsg.InReach.mono (h : m.InReach k) (hk : k ≤ k') : m.InReach k' :=
  ⟨LaptopPaxos.InReach.mono h.1 hk, LaptopPaxos.InReach.mono h.2 hk⟩

theorem LaptopFactory.InReach.mono (h : f.InReach k) (hk : k ≤ k') : f.InReach k' :=
  ⟨h.proposal.mono hk, h.promised.mono hk, h.accepted.mono hk⟩

theorem inReach_ofPhase (phase : ℤ) : (PaxosMsg.ofPhase phase).InReach k :=
  ⟨inReach_neg_one k, inReach_neg_one k⟩

theorem inReach_p1a (h : InReach k n) : (PaxosMsg.p1a n).InReach k := ⟨h, inReach_neg_one k⟩

theorem inReach_p2a (h : InReach k n) (cmd : Command) : (PaxosMsg.p2a n cmd).InReach k :=
  ⟨h, inReach_neg_one k⟩

theorem LaptopFactory.InReach.frame (h : f.InReach k) (hs : SameScout f f')
    (ha : SameAcceptor f f') : f'.InReach k := by
  refine ⟨?_, ?_, ?_⟩
  · rw [hs.proposalNumber]; exact h.proposal
  · rw [ha.promised]; exact h.promised
  · rw [ha.number]; exact h.accepted

/-! ### The acceptor -/

/-- An acceptor only copies the numbers of its messages. -/
theorem inReach_acceptorEngineer (hf : f.InReach k) (hm : m.InReach k) :
    (f.acceptorEngineer m).1.InReach k ∧ ∀ r ∈ (f.acceptorEngineer m).2, r.InReach k := by
  simp only [acceptorEngineer]
  split_ifs
  · exact ⟨⟨hf.proposal, hm.1, hf.accepted⟩, by rintro r ⟨⟩; exact ⟨inReach_neg_one k, hf.accepted⟩⟩
  · exact ⟨⟨hf.proposal, hm.1, hf.accepted⟩, by rintro r ⟨⟩; exact inReach_ofPhase 2⟩
  · exact ⟨hf, by rintro r ⟨⟩; exact ⟨hf.promised, inReach_neg_one k⟩⟩
  · exact ⟨⟨hf.proposal, hf.promised, hm.1⟩, by rintro r ⟨⟩; exact inReach_ofPhase 4⟩
  · exact ⟨hf, by rintro r ⟨⟩; exact inReach_ofPhase 4⟩
  · exact ⟨hf, fun r hr => absurd hr (Option.not_mem_none r)⟩

/-! ### The Scout -/

theorem InReach.receive (hl : InReach k l.highestProposlNum) (hm : m.InReach k) :
    InReach k (l.receive a n m).highestProposlNum := by
  have h : (l.receive a n m).highestProposlNum = max l.highestProposlNum m.proposeNumber := by
    simp only [Prepare.receive]
    split_ifs <;> rfl
  rw [h]
  exact ⟨hl.1.trans (le_max_left _ _), max_le hl.2 hm.1.2⟩

end

section

variable {id : ℤ} {f : LaptopFactory} {inbox : ℤ → List PaxosMsg} {env : Env} {pc : ScoutPc}
  {e : Effect} {k : ℕ}

/-- The numbers of the Scout after a step, and the number it sends. -/
structure Effect.InReach (k : ℕ) (e : Effect) : Prop where
  proposal : LaptopPaxos.InReach k e.factory.proposalNumber
  highest : ∀ l, e.pc.prepare = some l → LaptopPaxos.InReach k l.highestProposlNum
  sent : ∀ a m, e.toAcceptor = some (a, m) → m.InReach k

/-- Only the end of a failed round makes a number, and it counts as one. -/
theorem ScoutStep.inReach {k' : ℕ} (h : ScoutStep id f inbox env pc e)
    (hf : LaptopPaxos.InReach k f.proposalNumber)
    (hl : ∀ l, pc.prepare = some l → LaptopPaxos.InReach k l.highestProposlNum)
    (hin : ∀ a, ∀ m ∈ inbox a, m.InReach k) (hk : k + failedRounds e.events = k') :
    e.InReach k' := by
  have hle : k ≤ k' := hk ▸ Nat.le_add_right _ _
  have hf' := hf.mono hle
  have hl' := fun l hpc => (hl l hpc).mono hle
  have hstart : ∀ f' laptop l, (startProposalNumCompete f' laptop env).prepare = some l →
      LaptopPaxos.InReach k' l.highestProposlNum := by
    rintro f' laptop l ⟨⟩
    exact inReach_neg_one k'
  have hnone : ∀ pc' : ScoutPc, pc'.prepare = none →
      ∀ l, pc'.prepare = some l → LaptopPaxos.InReach k' l.highestProposlNum := by
    intro pc' hpc l hl
    rw [hpc] at hl
    cases hl
  have hquiet : ∀ o : Option (ℤ × PaxosMsg), o = none →
      ∀ a m, o = some (a, m) → m.InReach k' := by
    rintro o rfl a m ⟨⟩
  cases h with
  | connect =>
    rw [scoutConnect]
    split_ifs <;> exact ⟨hf', hstart _ _, hquiet _ rfl⟩
  | @sendP1a laptop l a iter =>
    refine ⟨hf', ?_, ?_⟩
    · rintro l' ⟨⟩
      exact hl' l rfl
    · rintro b m ⟨⟩
      exact inReach_p1a hf'
  | failP1a => exact ⟨hf', hl', hquiet _ rfl⟩
  | @receiveP1b laptop l a iter m rest hm =>
    refine ⟨hf', ?_, hquiet _ rfl⟩
    rintro l' ⟨⟩
    exact (hl' l rfl).receive ((hin a m (hm ▸ List.mem_cons_self)).mono hle)
  | @missP1b laptop l a iter =>
    refine ⟨hf', ?_, hquiet _ rfl⟩
    rintro l' ⟨⟩
    exact (hl' l rfl).receive (inReach_ofPhase (-1))
  | @retry laptop l =>
    obtain ⟨hneg, hhigh⟩ := hl l rfl
    have hone : k + 1 = k' := hk
    refine ⟨⟨?_, ?_⟩, hl', hquiet _ rfl⟩
    · change -1 ≤ l.highestProposlNum + 1
      omega
    · change l.highestProposlNum + 1 ≤ k'
      omega
  | leave => exact ⟨hf', hl', hquiet _ rfl⟩
  | chooseOwn => exact ⟨hf', hl', hquiet _ rfl⟩
  | sendP2a =>
    refine ⟨hf', hnone _ rfl, ?_⟩
    rintro b m ⟨⟩
    exact inReach_p2a hf' _
  | restart => exact ⟨hf', hstart _ _, hquiet _ rfl⟩
  | command =>
    rw [commanderConnect]
    split_ifs <;> exact ⟨hf', hnone _ rfl, hquiet _ rfl⟩
  | _ => exact ⟨hf', hnone _ rfl, hquiet _ rfl⟩

end

/-! ### The cluster -/

/-- All numbers but those on the way to the learners. -/
structure Numbered (c : Cluster) : Prop where
  factory : ∀ i, (c.factory i).InReach (failedRounds c.hist)
  highest : ∀ i l, (c.scout i).prepare = some l →
    InReach (failedRounds c.hist) l.highestProposlNum
  toAcceptor : ∀ i a, ∀ m ∈ c.toAcceptor i a, m.InReach (failedRounds c.hist)
  toScout : ∀ i a, ∀ m ∈ c.toScout i a, m.InReach (failedRounds c.hist)

section

variable {D : Deployment} {c c' : Cluster} {act : Action}

theorem failedRounds_append (evs h : List Event) :
    failedRounds (evs ++ h) = failedRounds evs + failedRounds h := List.countP_append

theorem Wires.mem_of_mem_pop {w : Wires} {i j b : ℤ} {o : Option ℤ} {m : PaxosMsg}
    (h : m ∈ w.pop i o j b) : m ∈ w j b := by
  cases o with
  | none => exact h
  | some a =>
    rw [pop, set_apply] at h
    split_ifs at h with hjb
    · rw [hjb.1, hjb.2]
      exact List.mem_of_mem_tail h
    · exact h

theorem numbered_init (D : Deployment) : Numbered (Cluster.init D) where
  factory i := by
    obtain ⟨m, s, h, -⟩ := D.factory_eq i
    change (D.factory i).InReach 0
    rw [h]
    exact ⟨⟨neg_nonpos.2 zero_le_one, le_rfl⟩, inReach_neg_one 0, inReach_neg_one 0⟩
  highest _ _ := nofun
  toAcceptor _ _ _ := nofun
  toScout _ _ _ := nofun

theorem Numbered.step (hc : Numbered c) (h : PaxosStep D c act c') : Numbered c' := by
  cases h with
  | still hst =>
    obtain ⟨evs, hh, -⟩ := hst.hist
    have hle : failedRounds c.hist ≤ failedRounds c'.hist := by
      rw [hh, failedRounds_append]
      exact Nat.le_add_left _ _
    refine ⟨fun i => ?_, fun i l hl => ?_, fun i a m hm => ?_, fun i a m hm => ?_⟩
    · exact ((hc.factory i).frame (hst.sameScout i) (hst.sameAcceptor i)).mono hle
    · exact (hc.highest i l (hst.scout i ▸ hl)).mono hle
    · exact (hc.toAcceptor i a m (hst.toAcceptor ▸ hm)).mono hle
    · exact (hc.toScout i a m (hst.toScout ▸ hm)).mono hle
  | @scout i env e _ hs =>
    have hcount : failedRounds c.hist + failedRounds e.events =
        failedRounds (c.applyEffect i e).hist :=
      (Nat.add_comm _ _).trans (failedRounds_append _ _).symm
    have he := hs.inReach (hc.factory i).proposal (hc.highest i) (hc.toScout i) hcount
    have hle : failedRounds c.hist ≤ failedRounds (c.applyEffect i e).hist :=
      hcount ▸ Nat.le_add_right _ _
    refine ⟨fun j => ?_, fun j l hl => ?_, fun j a m hm => ?_, fun j a m hm => ?_⟩
    · rw [Cluster.factory_applyEffect]
      split_ifs with hji
      · obtain ⟨hsame, -, -⟩ := hs.frame
        have hold := (hc.factory i).mono hle
        exact ⟨he.proposal, hsame.promised ▸ hold.promised, hsame.number ▸ hold.accepted⟩
      · exact (hc.factory j).mono hle
    · rw [Cluster.scout_applyEffect] at hl
      split_ifs at hl
      · exact he.highest l hl
      · exact (hc.highest j l hl).mono hle
    · rcases Wires.mem_push hm with hold | ⟨rfl, hnew⟩
      · exact (hc.toAcceptor j a m hold).mono hle
      · exact he.sent a m hnew
    · exact (hc.toScout j a m (Wires.mem_of_mem_pop hm)).mono hle
  | @acceptor a i msg rest ha hq =>
    have hmsg := hc.toAcceptor i a msg (hq ▸ List.mem_cons_self)
    obtain ⟨hf, hr⟩ := inReach_acceptorEngineer (hc.factory a) hmsg
    have hle : failedRounds c.hist ≤ failedRounds (c.acceptMsg a i msg rest).hist := by
      rw [Cluster.hist_acceptMsg, failedRounds_append]
      exact Nat.le_add_left _ _
    refine ⟨fun j => ?_, fun j l hl => ?_, fun j b m hm => ?_, fun j b m hm => ?_⟩
    · rw [Cluster.factory_acceptMsg]
      split_ifs
      · exact hf.mono hle
      · exact (hc.factory j).mono hle
    · exact (hc.highest j l (Cluster.scout_acceptMsg a i msg rest j ▸ hl)).mono hle
    · exact (hc.toAcceptor j b m (Wires.mem_of_mem_rest hq hm)).mono hle
    · rw [Cluster.toScout_acceptMsg, Wires.set_apply] at hm
      split_ifs at hm with hjb
      · rcases List.mem_append.1 hm with hold | hnew
        · exact (hc.toScout i a m hold).mono hle
        · exact (hr m (Option.mem_toList.1 hnew)).mono hle
      · exact (hc.toScout j b m hm).mono hle

theorem numbered_of_reachable (h : (cluster D).Reachable c) : Numbered c :=
  paxos_invariant h (numbered_init D) fun _ hc hst => hc.step hst

theorem numbers_bounded (h : (cluster D).Reachable c) :
    (∀ i, InReach (failedRounds c.hist) (c.factory i).proposalNumber ∧
      InReach (failedRounds c.hist) (c.factory i).promisedProposalNumber ∧
      InReach (failedRounds c.hist) (c.factory i).acceptedProposalNumber) ∧
    (∀ i a m, m ∈ c.toAcceptor i a ∨ m ∈ c.toScout i a ∨ m ∈ c.toLearner i a →
      InReach (failedRounds c.hist) m.proposeNumber ∧
        InReach (failedRounds c.hist) m.acceptedProposal) ∧
    (failedRounds c.hist < 2147483647 → ∀ i l, (c.scout i).prepare = some l →
      IsInt (l.highestProposlNum + 1)) := by
  have hc := numbered_of_reachable h
  refine ⟨fun i => ?_, ?_, fun hlt i l hl => ?_⟩
  · exact ⟨(hc.factory i).proposal, (hc.factory i).promised, (hc.factory i).accepted⟩
  · rintro i a m (hm | hm | hm)
    · exact hc.toAcceptor i a m hm
    · exact hc.toScout i a m hm
    · -- a learn message has no numbers
      obtain ⟨v, n, rfl, -⟩ := (deciding_of_reachable h).toLearner i a m hm
      exact ⟨inReach_neg_one _, inReach_neg_one _⟩
  · obtain ⟨hneg, hle⟩ := hc.highest i l hl
    exact ⟨by omega, by omega⟩

/-- The second order of server 1 starts with the number of the first. -/
theorem numbers_bounded_second : ∃ c : Cluster, failedRounds c.hist = 1 ∧
    PaxosMsg.p1a 1 ∈ c.toAcceptor 1 1 ∧ InReach 1 (c.factory 1).proposalNumber := by
  obtain ⟨c, hc, hcount, hm⟩ := exists_run (.numbered 3) (fun _ _ => True)
    (fun c => failedRounds c.hist = 1 ∧ PaxosMsg.p1a 1 ∈ c.toAcceptor 1 1)
    (open LaptopPaxos.Action in
      firstRun ++ .order 1 7 1 :: scouts 1 2 ++ talk 1 1 ++ talk 1 2 ++ talk 1 3 ++ scouts 1 2)
    (by decide +kernel)
  exact ⟨c, hcount, hm, hcount ▸ ((numbers_bounded hc).1 1).1⟩

end

end LaptopPaxos
