import LaptopPaxos.Lib.Ballots
import LaptopPaxos.Slots
import Mathlib.Data.Int.Range

/-!
# Agreement

The numbers of proposals are not tied to a server, so it is the promises that
keep two Scouts from proposing with one number: if a majority has promised the
number of a proposal, there is one proposal with that number
(`proposed_unique`). The acceptors hold one command for all slots; a Scout that
recovers a command may propose its own for a later slot, but must not for an
earlier one.

Neither is ensured by the code. The count of promises is not reset between the
rounds of a prepare phase, so that a Scout leaves it after as many promises as
a majority has members, for whatever numbers; and a Scout that has learned slot
`s + 1` but not slot `s` takes the latter to be free. So agreement holds along
the runs in which a Scout leaves its prepare phase with a majority for its
number (`PromisedCurrent`) and knows the slots below the command it has
recovered (`SlotsDecided`). For these `agreement` instantiates the ballots,
with "the same command, or one for a later slot" as the relation.
-/

namespace LaptopPaxos

open LaptopFactory

/-! ### The conditions -/

/-- The acceptors that have promised the number `n`. -/
def Prepare.promisers (l : Prepare) (n : ℤ) : Finset ℤ :=
  ((l.promises.filter (·.number = n)).map (·.acceptor)).toFinset

/-- A Scout that is about to choose what to propose has the promises of a
    majority for its proposal number. -/
def PromisedCurrent (D : Deployment) (c : Cluster) (i : ℤ) : ScoutPc → Prop
  | .propose _ l => Majority D.acceptors (l.promisers (c.factory i).proposalNumber)
  | _ => True

/-- A Scout that is about to pick a slot has decided all slots up to the one of
    the command it has recovered, if any. -/
def SlotsDecided (c : Cluster) (i : ℤ) : ScoutPc → Prop
  | .pickSlot _ l => l.acceptorAcceptedProposal ≠ -1 →
      ∀ t, 1 ≤ t → t ≤ l.cmd.slot → t ∈ (c.factory i).decisionMap
  | _ => True

/-- Both conditions. -/
def SafeChoice (D : Deployment) (c : Cluster) (i : ℤ) (pc : ScoutPc) : Prop :=
  PromisedCurrent D c i pc ∧ SlotsDecided c i pc

section

variable (D : Deployment) (c : Cluster) (i : ℤ)

instance : (pc : ScoutPc) → Decidable (PromisedCurrent D c i pc)
  | .propose _ _ => inferInstanceAs (Decidable (Majority _ _))
  | .idle | .connect .. | .p1a .. | .p1b .. | .pickSlot .. | .p2a .. | .p2b .. | .command ..
  | .learn .. | .record .. => isTrue trivial

instance : (pc : ScoutPc) → Decidable (SlotsDecided c i pc)
  | .pickSlot _ _ => inferInstanceAs (Decidable (_ → _))
  | .idle | .connect .. | .p1a .. | .p1b .. | .propose .. | .p2a .. | .p2b .. | .command ..
  | .learn .. | .record .. => isTrue trivial

instance (pc : ScoutPc) : Decidable (SafeChoice D c i pc) := inferInstanceAs (Decidable (_ ∧ _))

end

/-! ### One proposal for a number -/

/-- The proposals made, and the one about to be made, have the promises of a majority. -/
structure Elected (D : Deployment) (c : Cluster) : Prop where
  pickSlot : ∀ i laptop l, c.scout i = .pickSlot laptop l →
    Majority D.acceptors (l.promisers (c.factory i).proposalNumber)
  proposed : ∀ i n v own l, .proposed i n v own l ∈ c.hist →
    Majority D.acceptors (l.promisers n)

section

variable {D : Deployment} {c c' : Cluster} {act : Action}

theorem Elected.step (hc : Elected D c) (hok : OnScout (PromisedCurrent D) c act)
    (h : ReplicaStep D c act c') : Elected D c' := by
  refine ⟨fun i laptop l hl => ?_, fun i n v own l hp => ?_⟩
  · cases h with
    | quiet hst =>
      rw [(hst.sameScout i).proposalNumber]
      exact hc.pickSlot i laptop l (hst.scout i ▸ hl)
    | @scout j env e _ hs =>
      rw [Cluster.scout_applyEffect] at hl
      rw [Cluster.factory_applyEffect]
      split_ifs at hl ⊢ with hj
      · -- the Scout comes from the choice of its command, where it has the majority
        obtain ⟨hpc, hf, -⟩ := hs.eq_pickSlot hl
        rw [OnScout, hpc] at hok
        exact hf ▸ hok
      · exact hc.pickSlot i laptop l hl
    | @learner a j msg rest _ _ =>
      rw [(sameScout_learnMsg c a j msg rest i).proposalNumber]
      exact hc.pickSlot i laptop l (Cluster.scout_learnMsg a j msg rest i ▸ hl)
  · rcases h.mem_hist hp not_false (fun _ _ heq => by cases heq)
      with hold | ⟨j, env, e, rfl, hs, hev⟩
    · exact hc.proposed i n v own l hold
    · obtain ⟨rfl, rfl, laptop, ⟨-, hpc, -⟩ | ⟨-, hpc, -⟩⟩ := hs.proposed hev
      · rw [OnScout, hpc] at hok
        exact hok
      · exact hc.pickSlot i laptop l hpc

theorem elected_of_reachBy (h : (cluster D).ReachBy (OnScout (PromisedCurrent D)) c) :
    Elected D c :=
  reach_invariant h ⟨fun _ _ _ hl => (by cases hl),
      fun _ _ _ _ _ hp => absurd hp List.not_mem_nil⟩
    fun _ hok hc hst => hc.step hok hst.replica

theorem Prepare.exists_of_mem_promisers {l : Prepare} {n a : ℤ} (h : a ∈ l.promisers n) :
    ∃ p ∈ l.promises, p.acceptor = a ∧ p.number = n := by
  rw [Prepare.promisers, List.mem_toFinset] at h
  obtain ⟨p, hp, rfl⟩ := List.mem_map.1 h
  obtain ⟨hp, hn⟩ := List.mem_filter.1 hp
  exact ⟨p, hp, rfl, of_decide_eq_true hn⟩

/-- Two proposals with one number are one proposal: the majorities that have
    promised it share an acceptor, whose promise serves one proposal only. -/
theorem Elected.proposed_unique (hc : Elected D c) (hh : Explained D c.hist) {i j n : ℤ}
    {v w : Command} {own own' : Bool} {l l' : Prepare} (hv : .proposed i n v own l ∈ c.hist)
    (hw : .proposed j n w own' l' ∈ c.hist) : v = w := by
  obtain ⟨a, ha, ha'⟩ :=
    (hc.proposed i n v own l hv).exists_mem_inter (hc.proposed j n w own' l' hw)
  obtain ⟨p, hp, rfl, rfl⟩ := Prepare.exists_of_mem_promisers ha
  obtain ⟨p', hp', hpa, hpn⟩ := Prepare.exists_of_mem_promisers ha'
  have htok : p'.token = p.token := Prod.ext hpa hpn
  rcases hh.prepared.trichotomy hv hw with heq | ⟨h₂, hmem, hl, -⟩ | ⟨h₂, hmem, hl, -⟩
  · cases heq; rfl
  · exact absurd (htok ▸ List.mem_map_of_mem hp') (hl.fresh p hp _ hmem)
  · exact absurd (htok ▸ List.mem_map_of_mem hp) (hl.fresh p' hp' _ hmem)

/-- Two p2a messages with one number carry one command. -/
theorem p2a_unique (h : (cluster D).ReachBy (OnScout (PromisedCurrent D)) c) {i j a b n : ℤ}
    {v w : Command} {own own' : Bool} (hv : .p2aSent i a n v own ∈ c.hist)
    (hw : .p2aSent j b n w own' ∈ c.hist) : v = w := by
  have hh := explained_of_reachable h.reachable
  obtain ⟨l, hl⟩ := hh.proposed_of_sent hv
  obtain ⟨l', hl'⟩ := hh.proposed_of_sent hw
  exact (elected_of_reachBy h).proposed_unique hh hl hl'

end

theorem p2a_unique_reproposal : ∃ c : Cluster, .p2aSent 2 1 3 Reproposal.u true ∈ c.hist ∧
    ∀ j b w own, .p2aSent j b 3 w own ∈ c.hist → w = Reproposal.u := by
  obtain ⟨c, hc, hu⟩ := exists_run (.numbered 3) (OnScout (PromisedCurrent (.numbered 3)))
    (fun c => .p2aSent 2 1 3 Reproposal.u true ∈ c.hist) Reproposal.run (by decide +kernel)
  exact ⟨c, hu, fun j b w own hw => p2a_unique hc hw hu⟩

namespace TwoRounds

/-- The command of server 1. -/
def v : Command := { slot := 1, commandId := 110000000, customerId := 7, orderId := 0 }

/-- The command of server 2. -/
def w : Command := { slot := 1, commandId := 120000000, customerId := 8, orderId := 0 }

/-- Two servers. In the first round, for the number 0, each Scout gets one of
    the two promises, and in the second, for the number 1, again. Both have
    counted two, and go on to propose with the number 1. -/
def run : List Action :=
  open LaptopPaxos.Action in
  .order 1 7 0 :: .order 2 8 0 :: scouts 1 2 ++ scouts 2 2 ++
    talk 1 1 ++ talk 2 1 ++ talk 2 2 ++ talk 1 2 ++ scouts 1 1 ++ scouts 2 1 ++
    talk 1 1 ++ talk 2 1 ++ talk 2 2 ++ talk 1 2 ++ scouts 1 3 ++ scouts 2 3 ++
    talk 1 1 ++ talk 1 2 ++ talk 2 1 ++ talk 2 2 ++ scouts 1 3 ++ scouts 2 3 ++
    [.learner 1 1, .learner 1 2]

/-- Both commands are sent with the number 1, and learned at server 1. -/
def Shows (c : Cluster) : Prop :=
  .p2aSent 1 1 1 v true ∈ c.hist ∧ .p2aSent 2 1 1 w true ∈ c.hist ∧
    .learned 1 v ∈ c.hist ∧ .learned 1 w ∈ c.hist

instance : DecidablePred Shows := fun _ => inferInstanceAs (Decidable (_ ∧ _ ∧ _ ∧ _))

theorem exists_run : ∃ c, (cluster (.numbered 2)).Reachable c ∧ Shows c :=
  LaptopPaxos.exists_run (.numbered 2) (fun _ _ => True) Shows run (by decide +kernel)

end TwoRounds

theorem not_p2a_unique : ¬∀ D c, (cluster D).Reachable c → ∀ i j a b n v w own own',
    .p2aSent i a n v own ∈ c.hist → .p2aSent j b n w own' ∈ c.hist → v = w := by
  intro h
  obtain ⟨c, hc, hv, hw, -⟩ := TwoRounds.exists_run
  exact absurd (h _ c hc 1 2 1 1 1 _ _ true true hv hw) (by decide)

/-! ### Agreement on the slots -/

/-- A Scout's own command is for a later slot than the command it has recovered. -/
def OwnLater (h : List Event) : Prop :=
  ∀ i n v l, .proposed i n v true l ∈ h → l.acceptorAcceptedProposal ≠ -1 → l.cmd.slot < v.slot

/-- The same command, or one for a later slot. -/
def SameOrLater (v w : Command) : Prop := v = w ∨ v.slot < w.slot

instance : IsTrans Command SameOrLater where
  trans u v w := by
    rintro (rfl | huv) (rfl | hvw)
    · exact .inl rfl
    · exact .inr hvw
    · exact .inr huv
    · exact .inr (huv.trans hvw)

/-- The proposals and the votes of a history. -/
def ballots (D : Deployment) (h : List Event) : Ballots ℤ ℤ Command where
  acceptors := D.acceptors
  proposed n v := ∃ i own l, .proposed i n v own l ∈ h
  accepted a n v := .accepted a n v ∈ h

section

variable {D : Deployment} {c c' : Cluster} {act : Action}

theorem OwnLater.step (hr : (cluster D).Reachable c) (hc : OwnLater c.hist)
    (hok : OnScout SlotsDecided c act) (h : ReplicaStep D c act c') : OwnLater c'.hist := by
  intro i n v l hp hk
  rcases h.mem_hist hp not_false (fun _ _ heq => by cases heq)
    with hold | ⟨j, env, e, rfl, hs, hev⟩
  · exact hc i n v l hold hk
  · obtain ⟨rfl, -, laptop, ⟨hown, -⟩ | ⟨-, hpc, rfl⟩⟩ := hs.proposed hev
    · cases hown
    · rw [OnScout, hpc] at hok
      -- the slot picked is free, and those up to the one recovered are not
      by_contra! hle
      refine (c.factory i).decisionMap.firstFree_not_mem (c.factory i).slotIn (hok hk _ ?_ hle)
      exact ((slotted_of_reachable hr).one_le i).trans (StdMap.le_firstFree _ _)

theorem ownLater_of_reachBy (h : (cluster D).ReachBy (OnScout SlotsDecided) c) :
    OwnLater c.hist :=
  reach_invariant h (fun _ _ _ _ hp => absurd hp List.not_mem_nil : OwnLater (Cluster.init D).hist)
    fun hr hok hc hst => OwnLater.step hr.reachable hc hok hst.replica

/-- The ballots are guided: a proposal follows the command with the largest
    number that its majority has reported. -/
theorem guided_ballots (hh : Explained D c.hist) (hc : Elected D c) (hown : OwnLater c.hist) :
    (ballots D c.hist).Guided SameOrLater where
  wf := by
    -- the numbers proposed have been promised, and promises are for numbers from 0 on
    refine BddBelow.wellFoundedOn_lt ⟨0, ?_⟩
    rintro n ⟨v, i, own, l, hp⟩
    obtain ⟨a, ha⟩ := (hc.proposed i n v own l hp).nonempty
    obtain ⟨p, hp', -, rfl⟩ := Prepare.exists_of_mem_promisers ha
    obtain ⟨h₁, h₂, hsplit, hl, -⟩ := hh.prepared.exists_suffix hp
    rw [hsplit] at hh
    exact (hl.promise p hp').number_nonneg hh.inOrder.of_suffix
  unique := by
    rintro n v w ⟨i, own, l, hv⟩ ⟨j, own', l', hw⟩
    exact hc.proposed_unique hh hv hw
  backed ha := hh.proposed_of_accepted ha
  guided := by
    rintro n v ⟨i, own, l, hp⟩
    refine ⟨l.promisers n, hc.proposed i n v own l hp, ?_⟩
    obtain ⟨h₁, h₂, hsplit, hplaced⟩ := hh.placed.exists_split hp
    have hprep : PrepareOk h₂ i l ∧ ∀ p ∈ l.promises, p.number ≤ n := by
      have hj := hh.prepared
      rw [hsplit] at hj
      exact hj.of_append
    obtain ⟨hl, hln⟩ := hprep
    have hmem : ∀ {ev}, ev ∈ h₂ → ev ∈ c.hist := fun hev =>
      hsplit ▸ List.mem_append_right _ (List.mem_cons_of_mem _ hev)
    have hprom : ∀ p ∈ l.promises, PromiseOk c.hist i p := fun p hp => by
      have hm := ((hl.promise p hp).mono [.proposed i n v own l]).mono h₁
      exact hsplit ▸ hm
    -- a vote of the majority below `n` is not later than the command recovered
    have hle : ∀ a ∈ l.promisers n, ∀ m w, .accepted a m w ∈ c.hist → m < n →
        m ≤ l.acceptorAcceptedProposal := fun a ha m w hw hm => by
      obtain ⟨p, hp', rfl, rfl⟩ := Prepare.exists_of_mem_promisers ha
      exact ((hprom p hp').le_acceptedProposal hh.inOrder hw hm).trans (hl.le_best p hp')
    by_cases hk : l.acceptorAcceptedProposal = -1
    · -- nothing was recovered, so none of the majority had voted below `n`
      refine .inl fun a ha m w hw => ?_
      by_contra! hm
      obtain ⟨g₁, g₂, -, -, hpos, -⟩ := hh.inOrder.exists_split hw
      have hneg := hle a ha m w hw hm
      omega
    · obtain ⟨p, hp', hkp, -⟩ := hl.best.resolve_left hk
      obtain ⟨q, -, hacc⟩ := Explained.accepted_of_recovered hl hk
      refine .inr ⟨l.acceptorAcceptedProposal, l.cmd, ?_, hh.proposed_of_accepted (hmem hacc), ?_,
        hle⟩
      · rw [← hkp]
        exact ((hprom p hp').lt hh.inOrder).trans_le (hln p hp')
      · -- an own command is for a later slot, and another is the one recovered
        cases own with
        | true => exact .inr (hown i n v l hp hk)
        | false => exact .inl hplaced.1.symm

/-- Along the runs of safe choices, a slot is learned with one command, which
    stays the decision of every server that has learned it. -/
theorem agreement (h : (cluster D).ReachBy (OnScout (SafeChoice D)) c) :
    (∀ i j v w, .learned i v ∈ c.hist → .learned j w ∈ c.hist → v.slot = w.slot → v = w) ∧
      ∀ i v, .learned i v ∈ c.hist → (c.factory i).decisionMap.find? v.slot = some v := by
  have hr := h.reachable
  have hh := explained_of_reachable hr
  have hd := deciding_of_reachable hr
  have hg := guided_ballots hh (elected_of_reachBy (h.mono fun _ _ => .mono fun _ _ _ hok => hok.1))
    (ownLater_of_reachBy (h.mono fun _ _ => .mono fun _ _ _ hok => hok.2))
  have hone : ∀ i j v w, .learned i v ∈ c.hist → .learned j w ∈ c.hist → v.slot = w.slot →
      v = w := fun i j v w hv hw hs => by
    obtain ⟨m, hm⟩ := chosen_of_learned hh.backed hv
    obtain ⟨n, hn⟩ := chosen_of_learned hh.backed hw
    rcases hg.rel_of_chosen_chosen hm hn with hvw | (hvw | hlt) | (hwv | hlt)
    · exact hvw
    · exact hvw
    · omega
    · exact hwv.symm
    · omega
  refine ⟨hone, fun i v hv => ?_⟩
  -- the slot is decided, and its decision has been learned as well
  obtain ⟨w, hw⟩ := StdMap.exists_find? (hd.learned i v hv)
  obtain ⟨hslot, hl⟩ := hd.decided i _ w hw
  rw [hw, hone i i w v hl hv hslot]

end

theorem agreement_reproposal : ∃ c : Cluster,
    (c.factory 1).decisionMap.find? 1 = some Reproposal.x ∧
      (c.factory 2).decisionMap.find? 1 = some Reproposal.x := by
  obtain ⟨c, hc, h₁, h₂⟩ := exists_run (.numbered 3) (OnScout (SafeChoice (.numbered 3)))
    (fun c => .learned 1 Reproposal.x ∈ c.hist ∧ .learned 2 Reproposal.x ∈ c.hist) Reproposal.run
    (by decide +kernel)
  exact ⟨c, (agreement hc).2 1 _ h₁, (agreement hc).2 2 _ h₂⟩

theorem not_agreement : ¬∀ D c, (cluster D).Reachable c → ∀ i j v w,
    .learned i v ∈ c.hist → .learned j w ∈ c.hist → v.slot = w.slot → v = w := by
  intro h
  obtain ⟨c, hc, -, -, hv, hw⟩ := TwoRounds.exists_run
  exact absurd (h _ c hc 1 1 _ _ hv hw rfl) (by decide)

namespace OutOfOrder

/-- The command of server 2, for slot 1. -/
def u : Command := { slot := 1, commandId := 120000000, customerId := 9, orderId := 0 }

/-- Three servers. Server 1 has its two orders chosen, in the slots 1 and 2, and
    learns the first. Server 3 finishes the second once more, and server 2
    learns it from there, before the first. So server 2 takes slot 1 to be free. -/
def run : List Action :=
  open LaptopPaxos.Action in
  .order 1 7 0 :: scouts 1 2 ++ talk 1 1 ++ talk 1 2 ++ talk 1 3 ++ scouts 1 3 ++
    talk 1 1 ++ talk 1 2 ++ talk 1 3 ++ scouts 1 7 ++ [.learner 1 1] ++
  .order 1 7 1 :: scouts 1 2 ++ talk 1 1 ++ talk 1 2 ++ talk 1 3 ++ scouts 1 1 ++
    talk 1 1 ++ talk 1 2 ++ talk 1 3 ++ scouts 1 3 ++ talk 1 1 ++ talk 1 2 ++ talk 1 3 ++
  .order 3 8 0 :: scouts 3 2 ++ talk 3 1 ++ talk 3 2 ++ talk 3 3 ++ scouts 3 1 ++
    talk 3 1 ++ talk 3 2 ++ talk 3 3 ++ scouts 3 2 ++ talk 3 1 ++ talk 3 2 ++ talk 3 3 ++
    scouts 3 7 ++ [.learner 2 3] ++
  .order 2 9 0 :: scouts 2 2 ++ talk 2 1 ++ talk 2 2 ++ talk 2 3 ++ scouts 2 1 ++
    talk 2 1 ++ talk 2 2 ++ talk 2 3 ++ scouts 2 3 ++ talk 2 1 ++ talk 2 2 ++ talk 2 3 ++
    scouts 2 7 ++ [.learner 1 2]

/-- Majorities for the numbers do not suffice. -/
theorem not_agreement_of_promisedCurrent : ∃ c v w,
    (cluster (.numbered 3)).ReachBy (OnScout (PromisedCurrent (.numbered 3))) c ∧
      .learned 1 v ∈ c.hist ∧ .learned 1 w ∈ c.hist ∧ v.slot = w.slot ∧ v ≠ w := by
  obtain ⟨c, hc, hv, hw⟩ := exists_run (.numbered 3) (OnScout (PromisedCurrent (.numbered 3)))
    (fun c => .learned 1 Reproposal.x ∈ c.hist ∧ .learned 1 u ∈ c.hist) run (by decide +kernel)
  exact ⟨c, _, _, hc, hv, hw, rfl, by decide⟩

end OutOfOrder

end LaptopPaxos
