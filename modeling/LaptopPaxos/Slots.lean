import LaptopPaxos.Decisions

/-!
# Slots

A Scout proposes its own command in the least slot that its server has not
decided, and any other command in the slot that it came with. So when a
proposal for a slot is made, the slots below it have been chosen (`no_gaps`).

Every proposal of a command of the system goes back to a Scout's proposal of
its own command (`Explained.origin`); what holds of the latter when it is made
holds of all.
-/

namespace LaptopPaxos

open LaptopFactory

/-- The server `i` has decided the slot `s`. -/
def Learned (h : List Event) (i s : ℤ) : Prop := ∃ v, v.slot = s ∧ .learned i v ∈ h

/-- A Scout's own command is for the least slot not decided, and then the slot
    of a command recovered is decided; a command of the system is the one
    recovered, and its slot is not decided. -/
def Event.Placed : Event → List Event → Prop
  | .proposed i _ v true l, h => (l.acceptorAcceptedProposal = -1 ∨ Learned h i l.cmd.slot) ∧
      1 ≤ v.slot ∧ ¬Learned h i v.slot ∧ ∀ t, 1 ≤ t → t < v.slot → Learned h i t
  | .proposed i _ v false l, h => v = l.cmd ∧ l.acceptorAcceptedProposal ≠ -1 ∧
      ¬Learned h i v.slot
  | _, _ => True

/-- The cursors are not ahead of the decisions, and the proposals are for the right slots. -/
structure Slotted (c : Cluster) : Prop where
  one_le : ∀ i, 1 ≤ (c.factory i).slotIn
  slotIn : ∀ i t, 1 ≤ t → t < (c.factory i).slotIn → t ∈ (c.factory i).decisionMap
  pickSlot : ∀ i laptop l, c.scout i = .pickSlot laptop l →
    l.acceptorAcceptedProposal = -1 ∨ l.cmd.slot ∈ (c.factory i).decisionMap
  placed : Justified Event.Placed c.hist

theorem Deciding.mem_decisionMap {D : Deployment} {c : Cluster} (hc : Deciding D c) {i s : ℤ} :
    s ∈ (c.factory i).decisionMap ↔ Learned c.hist i s := by
  constructor
  · intro hs
    obtain ⟨v, hv⟩ := StdMap.exists_find? hs
    exact ⟨v, hc.decided i s v hv⟩
  · rintro ⟨v, rfl, hv⟩
    exact hc.learned i v hv

section

variable {D : Deployment} {i : ℤ} {f : LaptopFactory} {inbox : ℤ → List PaxosMsg} {env : Env}
  {pc : ScoutPc} {e : Effect} {h : List Event}

/-- The cursor only moves over decided slots. -/
theorem ScoutStep.slotIn (hs : ScoutStep i f inbox env pc e) :
    e.factory.slotIn = f.slotIn ∨ e.factory.slotIn = f.decisionMap.firstFree f.slotIn := by
  cases hs with
  | pickSlot => exact .inr rfl
  | connect =>
    rw [scoutConnect]
    split_ifs <;> exact .inl rfl
  | command =>
    rw [commanderConnect]
    split_ifs <;> exact .inl rfl
  | _ => exact .inl rfl

theorem ScoutStep.eq_pickSlot (hs : ScoutStep i f inbox env pc e) {laptop : LaptopInfo}
    {l : Prepare} (hpc : e.pc = .pickSlot laptop l) : pc = .propose laptop l ∧ e.factory = f ∧
      (l.acceptorAcceptedProposal = -1 ∨ l.cmd.slot ∈ f.decisionMap) := by
  cases hs with
  | chooseOwn h => cases hpc; exact ⟨rfl, rfl, h⟩
  | connect => rw [scoutConnect] at hpc; cases hpc
  | command => rw [commanderConnect] at hpc; cases hpc
  | _ => cases hpc

theorem ScoutStep.placed (hs : ScoutStep i f inbox env pc e) (hh : Justified Event.Placed h)
    (hmap : ∀ s, s ∈ f.decisionMap ↔ Learned h i s) (hone : 1 ≤ f.slotIn)
    (hslot : ∀ t, 1 ≤ t → t < f.slotIn → t ∈ f.decisionMap)
    (hpick : ∀ laptop l, pc = .pickSlot laptop l →
      l.acceptorAcceptedProposal = -1 ∨ l.cmd.slot ∈ f.decisionMap) :
    Justified Event.Placed (e.events ++ h) := by
  cases hs with
  | chooseOther hk hs => exact ⟨⟨rfl, hk, fun hl => hs ((hmap _).2 hl)⟩, hh⟩
  | @pickSlot laptop l =>
    -- the id generated just before changes nothing about what is learned
    have hgen : ∀ s, s ∈ f.decisionMap →
        Learned (.generated i (selfCommand f laptop env).commandId :: h) i s := fun s hs => by
      obtain ⟨v, hv, hmem⟩ := (hmap s).1 hs
      exact ⟨v, hv, List.mem_cons_of_mem _ hmem⟩
    refine ⟨⟨(hpick laptop l rfl).imp_right (hgen _), hone.trans (f.decisionMap.le_firstFree _),
      ?_, fun t h₁ ht => hgen t ?_⟩, trivial, hh⟩
    · rintro ⟨v, hv, hmem⟩
      exact f.decisionMap.firstFree_not_mem f.slotIn ((hmap _).2 ⟨v, hv, mem_of_ne hmem nofun⟩)
    · by_cases hlt : t < f.slotIn
      · exact hslot t h₁ hlt
      · exact StdMap.mem_of_lt_firstFree (not_lt.1 hlt) ht
  | _ => first | exact hh | exact ⟨trivial, hh⟩ | exact ⟨trivial, trivial, hh⟩

end

section

variable {D : Deployment} {c c' : Cluster} {act : Action} {i : ℤ}

theorem slotted_init (D : Deployment) : Slotted (Cluster.init D) where
  one_le i := by
    obtain ⟨m, s, h, -⟩ := D.factory_eq i
    change 1 ≤ (D.factory i).slotIn
    rw [h]
  slotIn i t h₁ ht := by
    obtain ⟨m, s, h, -⟩ := D.factory_eq i
    change t < (D.factory i).slotIn at ht
    rw [h] at ht
    exact absurd h₁ (not_le.2 ht)
  pickSlot _ _ _ := nofun
  placed := trivial

theorem Slotted.step (hr : (cluster D).Reachable c) (hc : Slotted c)
    (h : ReplicaStep D c act c') : Slotted c' := by
  have hd := deciding_of_reachable hr
  cases h with
  | quiet hst =>
    obtain ⟨evs, hh, hevs⟩ := hst.hist
    refine ⟨fun i => ?_, fun i t h₁ ht => ?_, fun i laptop l hl => ?_, ?_⟩
    · rw [(hst.sameScout i).slotIn]
      exact hc.one_le i
    · rw [(hst.sameScout i).slotIn] at ht
      rw [(hst.sameReplica i).decisionMap]
      exact hc.slotIn i t h₁ ht
    · rw [(hst.sameReplica i).decisionMap]
      exact hc.pickSlot i laptop l (hst.scout i ▸ hl)
    · rw [hh]
      refine hc.placed.append fun ev hev _ => ?_
      have hq := hevs ev hev
      cases ev <;> trivial
  | @scout i env e _ hs =>
    have hmap : ∀ j, ((c.applyEffect i e).factory j).decisionMap = (c.factory j).decisionMap :=
      fun j => by
        rw [Cluster.factory_applyEffect]
        split_ifs with hj
        · rw [hs.frame.2.1.decisionMap, hj]
        · rfl
    refine ⟨fun j => ?_, fun j t h₁ ht => ?_, fun j laptop l hl => ?_,
      hs.placed hc.placed (fun s => hd.mem_decisionMap) (hc.one_le i) (hc.slotIn i) (hc.pickSlot i)⟩
    · rw [Cluster.factory_applyEffect]
      split_ifs with hj
      · rcases hs.slotIn with h | h <;> rw [h]
        · exact hc.one_le i
        · exact (hc.one_le i).trans (StdMap.le_firstFree _ _)
      · exact hc.one_le j
    · rw [hmap]
      rw [Cluster.factory_applyEffect] at ht
      split_ifs at ht with hj
      · subst hj
        rcases hs.slotIn with h | h <;> rw [h] at ht
        · exact hc.slotIn j t h₁ ht
        · -- the cursor has moved on to the first free slot
          by_cases hlt : t < (c.factory j).slotIn
          · exact hc.slotIn j t h₁ hlt
          · exact StdMap.mem_of_lt_firstFree (not_lt.1 hlt) ht
      · exact hc.slotIn j t h₁ ht
    · rw [hmap]
      rw [Cluster.scout_applyEffect] at hl
      split_ifs at hl with hj
      · exact hj ▸ (hs.eq_pickSlot hl).2.2
      · exact hc.pickSlot j laptop l hl
  | @learner a i msg rest ha hq =>
    obtain ⟨v, n, rfl, -⟩ := hd.toLearner i a msg (hq ▸ List.mem_cons_self)
    have hslot := fun j => (sameScout_learnMsg c a i (.learn v) rest j).slotIn
    have hmap : ∀ j s, s ∈ (c.factory j).decisionMap →
        s ∈ ((c.learnMsg a i (.learn v) rest).factory j).decisionMap := fun j s hs => by
      rw [Cluster.factory_learnMsg]
      split_ifs with hj
      · rw [learnerEngineer_learn, learn_decisionMap, StdMap.mem_insert]
        exact .inr (hj ▸ hs)
      · exact hs
    refine ⟨fun j => ?_, fun j t h₁ ht => ?_, fun j laptop l hl => ?_, trivial, hc.placed⟩
    · rw [hslot]
      exact hc.one_le j
    · rw [hslot] at ht
      exact hmap j t (hc.slotIn j t h₁ ht)
    · rw [Cluster.scout_learnMsg] at hl
      exact (hc.pickSlot j laptop l hl).imp_right (hmap j _)

theorem slotted_of_reachable (h : (cluster D).Reachable c) : Slotted c :=
  reach_invariant h (slotted_init D) fun hr _ hc hst => hc.step hr hst.replica

end

/-! ### Where commands come from -/

/-- A history whose events are justified by those before them. -/
structure Explained (D : Deployment) (h : List Event) : Prop where
  inOrder : Justified (Event.InOrder D) h
  prepared : Justified Event.Prepared h
  backed : Justified (Event.Backed D) h
  placed : Justified Event.Placed h

theorem explained_of_reachable {D : Deployment} {c : Cluster} (h : (cluster D).Reachable c) :
    Explained D c.hist :=
  ⟨(voting_of_reachable h).inOrder, (preparing_of_reachable h).prepared,
    (deciding_of_reachable h).backed, (slotted_of_reachable h).placed⟩

namespace Explained

variable {D : Deployment} {h h₁ h₂ : List Event} {i a n : ℤ} {v : Command} {own : Bool}

theorem of_suffix (hh : Explained D (h₁ ++ h₂)) : Explained D h₂ :=
  ⟨hh.inOrder.of_suffix, hh.prepared.of_suffix, hh.backed.of_suffix, hh.placed.of_suffix⟩

theorem of_cons {ev : Event} (hh : Explained D (ev :: h)) : Explained D h :=
  ⟨hh.inOrder.2, hh.prepared.2, hh.backed.2, hh.placed.2⟩

/-- A command sent to an acceptor was proposed before. -/
theorem proposed_of_sent (hh : Explained D h) (hs : .p2aSent i a n v own ∈ h) :
    ∃ l, .proposed i n v own l ∈ h := by
  obtain ⟨h₁, h₂, rfl, l, hl⟩ := hh.backed.exists_suffix hs
  exact ⟨l, List.mem_append_right _ hl⟩

/-- Every vote is for a command proposed with its number. -/
theorem proposed_of_accepted (hh : Explained D h) (ha : .accepted a n v ∈ h) :
    ∃ i own l, .proposed i n v own l ∈ h := by
  obtain ⟨h₁, h₂, rfl, -, -, -, i, own, hs⟩ := hh.inOrder.exists_suffix ha
  obtain ⟨l, hl⟩ := hh.of_suffix.proposed_of_sent hs
  exact ⟨i, own, l, List.mem_append_right _ hl⟩

/-- The command that a Scout has recovered was accepted by an acceptor that has
    promised. -/
theorem accepted_of_recovered {l : Prepare} (hl : PrepareOk h i l)
    (hk : l.acceptorAcceptedProposal ≠ -1) :
    ∃ p ∈ l.promises, .accepted p.acceptor l.acceptorAcceptedProposal l.cmd ∈ h := by
  obtain ⟨p, hp, hkp, hv⟩ := hl.best.resolve_left hk
  exact ⟨p, hp, hkp ▸ hv ▸ (hl.promise p hp).accepted (hkp ▸ hk)⟩

/-- Every command proposed was once a Scout's own. By induction on the history:
    the command of the system that a Scout proposes was accepted, and so
    proposed, before. -/
theorem origin (hh : Explained D h) {l : Prepare} (hp : .proposed i n v own l ∈ h) :
    ∃ h₁ h₂ j m l', h = h₁ ++ .proposed j m v true l' :: h₂ := by
  have hmem : ∃ j m l', .proposed j m v true l' ∈ h := by
    induction h generalizing i n own l with
    | nil => cases hp
    | cons ev h ih =>
      have hcons : ∀ {j m own l'}, .proposed j m v own l' ∈ h →
          ∃ j m l', .proposed j m v true l' ∈ ev :: h := fun hp => by
        obtain ⟨j, m, l', hl'⟩ := ih hh.of_cons hp
        exact ⟨j, m, l', List.mem_cons_of_mem _ hl'⟩
      rcases List.mem_cons.1 hp with rfl | hp
      · cases own with
        | true => exact ⟨i, n, l, List.mem_cons_self⟩
        | false =>
          -- the command was accepted, and so proposed, earlier
          obtain ⟨rfl, hk, -⟩ := hh.placed.1
          obtain ⟨p, -, hacc⟩ := accepted_of_recovered hh.prepared.1.1 hk
          obtain ⟨j, own, l', hj⟩ := hh.of_cons.proposed_of_accepted hacc
          exact hcons hj
      · exact hcons hp
  obtain ⟨j, m, l', hl'⟩ := hmem
  obtain ⟨h₁, h₂, hsplit⟩ := List.append_of_mem hl'
  exact ⟨h₁, h₂, j, m, l', hsplit⟩

end Explained

/-! ### No gaps -/

/-- All slots below `s` have been chosen. -/
def NoGap (D : Deployment) (h : List Event) (s : ℤ) : Prop :=
  1 ≤ s ∧ ∀ t, 1 ≤ t → t < s → ∃ n v, v.slot = t ∧ Chosen D h n v

section

variable {D : Deployment} {c : Cluster} {h : List Event} {i a n : ℤ} {v : Command} {own : Bool}

theorem Explained.noGap (hh : Explained D h) {l : Prepare} (hp : .proposed i n v own l ∈ h) :
    NoGap D h v.slot := by
  obtain ⟨h₁, h₂, j, m, l', rfl⟩ := hh.origin hp
  have hh' := hh.of_suffix.of_cons
  obtain ⟨-, hone, -, hbelow⟩ := hh.placed.of_append
  refine ⟨hone, fun t h₁t ht => ?_⟩
  obtain ⟨w, hw, hl⟩ := hbelow t h₁t ht
  obtain ⟨k, hk⟩ := chosen_of_learned hh'.backed hl
  exact ⟨k, w, hw, (hk.mono [_]).mono h₁⟩

/-- When a command is sent to an acceptor, the slots below its own have been
    chosen, and so have those below a decided one. -/
theorem no_gaps (hr : (cluster D).Reachable c) :
    (∀ h₁ h₂ i a n v own, c.hist = h₁ ++ .p2aSent i a n v own :: h₂ → NoGap D h₂ v.slot) ∧
      ∀ i s, s ∈ (c.factory i).decisionMap → NoGap D c.hist s := by
  have hh := explained_of_reachable hr
  refine ⟨fun h₁ h₂ i a n v own hs => ?_, fun i s hs => ?_⟩
  · rw [hs] at hh
    obtain ⟨l, hl⟩ := hh.backed.of_append
    exact hh.of_suffix.of_cons.noGap hl
  · -- a decided command was chosen, so accepted, so proposed
    obtain ⟨v, rfl, hv⟩ := (deciding_of_reachable hr).mem_decisionMap.1 hs
    obtain ⟨n, hn⟩ := chosen_of_learned hh.backed hv
    obtain ⟨a, ha⟩ := hn.exists_accepted
    obtain ⟨j, own, l, hl⟩ := hh.proposed_of_accepted ha
    exact hh.noGap hl

/-- Server 1 has a second order, which comes after the first. -/
theorem no_gaps_three : ∃ (c : Cluster) (h₁ h₂ : List Event) (v : Command),
    c.hist = h₁ ++ .p2aSent 1 1 1 v true :: h₂ ∧ v.slot = 2 ∧ NoGap (.numbered 3) h₂ v.slot := by
  obtain ⟨c, hc, hv⟩ := exists_run (.numbered 3) (fun _ _ => True)
    (fun c => .p2aSent 1 1 1 { slot := 2, commandId := 110000000, customerId := 7, orderId := 1 }
      true ∈ c.hist)
    (open LaptopPaxos.Action in
      firstRun ++ .order 1 7 1 :: scouts 1 2 ++ talk 1 1 ++ talk 1 2 ++ talk 1 3 ++ scouts 1 1 ++
        talk 1 1 ++ talk 1 2 ++ talk 1 3 ++ scouts 1 4)
    (by decide +kernel)
  obtain ⟨h₁, h₂, hsplit⟩ := List.append_of_mem hv
  exact ⟨c, h₁, h₂, _, hsplit, rfl, (no_gaps hc).1 h₁ h₂ 1 1 1 _ true hsplit⟩

end

/-! ### The slot of a Scout's own command -/

/-- What a Scout knows when it proposes its own command `v` after the prepare
    phase `l`. -/
structure OwnSlot (h : List Event) (i : ℤ) (v : Command) (l : Prepare) : Prop where
  /-- What an acceptor had accepted before its promise is not later than the command recovered. -/
  latest : ∀ p ∈ l.promises, .promised p.acceptor i p.number ∈ h ∧
    ∀ m w, Before (.accepted p.acceptor m w) (.promised p.acceptor i p.number) h →
      l.acceptorAcceptedProposal ≠ -1 ∧ m ≤ l.acceptorAcceptedProposal
  /-- The command recovered was accepted, and its slot is decided. -/
  recovered : l.acceptorAcceptedProposal ≠ -1 → Learned h i l.cmd.slot ∧
    ∃ p ∈ l.promises, .accepted p.acceptor l.acceptorAcceptedProposal l.cmd ∈ h
  /-- The slot is the least one not decided. -/
  least : 1 ≤ v.slot ∧ ¬Learned h i v.slot ∧ ∀ t, 1 ≤ t → t < v.slot → Learned h i t

theorem Explained.ownSlot {D : Deployment} {h : List Event} {i n : ℤ} {v : Command} {l : Prepare}
    (hh : Explained D (.proposed i n v true l :: h)) : OwnSlot h i v l := by
  obtain ⟨hslot, hleast⟩ := hh.placed.1
  obtain ⟨hl, -⟩ := hh.prepared.1
  refine ⟨fun p hp => ⟨(hl.promise p hp).mem, fun m w hb => ?_⟩,
    fun hk => ⟨hslot.resolve_left hk, accepted_of_recovered hl hk⟩, hleast⟩
  obtain ⟨h₁, h₂, hsplit, hw⟩ := before_iff.1 hb
  have hord := hh.of_cons.inOrder
  have hmem : .accepted p.acceptor m w ∈ h :=
    hsplit ▸ List.mem_append_right _ (List.mem_cons_of_mem _ hw)
  -- a vote before the promise is for a smaller number, from `0` on
  have hlt : m < p.number := by
    rw [hsplit] at hord
    exact hord.of_append.2.2.2 m w hw
  obtain ⟨g₁, g₂, -, -, hpos, -⟩ := hord.exists_split hmem
  have hle := ((hl.promise p hp).le_acceptedProposal hord hmem hlt).trans (hl.le_best p hp)
  exact ⟨by omega, hle⟩

/-- Every command that a Scout sends as its own was proposed for the least slot
    not decided, which is not the slot of the command recovered. -/
theorem ownSlot_of_sent {D : Deployment} {c : Cluster} (hr : (cluster D).Reachable c) {i a n : ℤ}
    {v : Command} (hs : .p2aSent i a n v true ∈ c.hist) :
    (∃ l, .proposed i n v true l ∈ c.hist) ∧
      ∀ h₁ h₂ l, c.hist = h₁ ++ .proposed i n v true l :: h₂ → OwnSlot h₂ i v l := by
  have hh := explained_of_reachable hr
  refine ⟨hh.proposed_of_sent hs, fun h₁ h₂ l hsplit => ?_⟩
  rw [hsplit] at hh
  exact hh.of_suffix.ownSlot

namespace Reproposal

/-- The first command of server 1, for slot 1. -/
def x : Command := { slot := 1, commandId := 110000000, customerId := 7, orderId := 0 }

/-- Its second command, for slot 2. -/
def z : Command := { slot := 2, commandId := 110000000, customerId := 7, orderId := 1 }

/-- The command of server 2, also for slot 2. -/
def u : Command := { slot := 2, commandId := 120000000, customerId := 9, orderId := 0 }

/-- The prepare phase of server 2. -/
def l : Prepare :=
  { promisedNum := 3, highestProposlNum := 2, cmd := x, acceptorAcceptedProposal := 2,
    activeAcceptor := 6, promises := [⟨3, 3, 2, x⟩, ⟨2, 3, 2, x⟩, ⟨1, 3, 1, z⟩] }

/-- Three servers. The command `x` is chosen; then `z` is accepted by the
    acceptor 1 only. Server 3, which has not learned `x`, proposes it again
    without the acceptor 1, so that `x` has a larger number than `z`. Server 2,
    which has learned `x`, recovers it and proposes `u` for the slot of `z`. -/
def run : List Action :=
  open LaptopPaxos.Action in
  .order 1 7 0 :: scouts 1 2 ++ talk 1 1 ++ talk 1 2 ++ talk 1 3 ++ scouts 1 3 ++
    talk 1 1 ++ talk 1 2 ++ talk 1 3 ++ scouts 1 7 ++ [.learner 1 1, .learner 2 1] ++
  .order 1 7 1 :: scouts 1 2 ++ talk 1 1 ++ talk 1 2 ++ talk 1 3 ++ scouts 1 1 ++
    talk 1 1 ++ talk 1 2 ++ talk 1 3 ++ scouts 1 3 ++ talk 1 1 ++
  .order 3 8 0 :: scouts 3 2 ++ talk 3 1 ++ talk 3 2 ++ talk 3 3 ++ scouts 3 1 ++
    [.scout 3 { alive := false }] ++ talk 3 2 ++ talk 3 3 ++ scouts 3 2 ++ talk 3 2 ++ talk 3 3 ++
  .order 2 9 0 :: scouts 2 2 ++ talk 2 1 ++ talk 2 2 ++ talk 2 3 ++ scouts 2 1 ++
    talk 2 1 ++ talk 2 2 ++ talk 2 3 ++ scouts 2 4

/-- What the run shows. -/
def Shows (c : Cluster) : Prop :=
  .p2aSent 2 1 3 u true ∈ c.hist ∧ .proposed 2 3 u true l ∈ c.hist ∧
    Before (.accepted 1 1 z) (.promised 1 2 3) c.hist

instance : DecidablePred Shows := fun _ => inferInstanceAs (Decidable (_ ∧ _ ∧ _))

theorem exists_run : ∃ c, (cluster (.numbered 3)).Reachable c ∧ Shows c :=
  LaptopPaxos.exists_run (.numbered 3) (fun _ _ => True) Shows run (by decide +kernel)

end Reproposal

theorem ownSlot_of_sent_reproposal : ∃ (c : Cluster) (h₁ h₂ : List Event),
    c.hist = h₁ ++ .proposed 2 3 Reproposal.u true Reproposal.l :: h₂ ∧
      OwnSlot h₂ 2 Reproposal.u Reproposal.l := by
  obtain ⟨c, hc, hs, hp, -⟩ := Reproposal.exists_run
  obtain ⟨h₁, h₂, hsplit⟩ := List.append_of_mem hp
  exact ⟨c, h₁, h₂, hsplit, (ownSlot_of_sent hc hs).2 h₁ h₂ _ hsplit⟩

end LaptopPaxos
