import LaptopPaxos.Agreement

/-!
# Free slots

The slot that a Scout picks for its own order should be free: no acceptor that
has promised had accepted a command for it. The Scout cannot see this. It looks
at one of the commands reported only, the one with the largest number, and
tests whether the slot of that one is decided; the acceptors, which hold one
command for all slots, may have replaced a command for a later slot by one for
an earlier.

The rule holds along the runs in which a Scout picks a slot after those of all
commands reported (`ReportsDecided`) and no acceptor goes back to an earlier
slot (`KeepsLater`). For then an acceptor holds the command with the latest slot
it has accepted, and each promise reports it (`Covers`).
-/

namespace LaptopPaxos

open LaptopFactory

/-- No acceptor that promised had accepted a command for the slot of a Scout's
    own proposal before. -/
def FreeSlotRule (h : List Event) : Prop :=
  ∀ i a n v l, .p2aSent i a n v true ∈ h → .proposed i n v true l ∈ h → ∀ p ∈ l.promises,
    ∀ m w, Before (.accepted p.acceptor m w) (.promised p.acceptor i p.number) h → w.slot ≠ v.slot

/-! ### The conditions -/

/-- A Scout that is about to pick a slot has decided all slots up to those of
    the commands reported to it. -/
def ReportsDecided (c : Cluster) (i : ℤ) : ScoutPc → Prop
  | .pickSlot _ l => ∀ p ∈ l.promises, p.acceptedProposal ≠ -1 →
      ∀ t, 1 ≤ t → t ≤ p.command.slot → t ∈ (c.factory i).decisionMap
  | _ => True

/-- If the acceptor accepts the command of the message, its slot is not earlier
    than that of the command it holds. -/
def KeepsLater (f : LaptopFactory) (msg : PaxosMsg) : Prop :=
  msg.phase = 3 → msg.proposeNumber = f.promisedProposalNumber → f.acceptedProposalNumber ≠ -1 →
    f.acceptedValue.slot ≤ msg.getCommand.slot

/-- The condition `P` on the acceptor that takes the step, and on the message it handles. -/
def OnAcceptor (P : LaptopFactory → PaxosMsg → Prop) (c : Cluster) : Action → Prop
  | .acceptor a i => ∀ msg ∈ (c.toAcceptor i a).head?, P (c.factory a) msg
  | _ => True

/-- Both conditions. -/
def FreeChoice (c : Cluster) (act : Action) : Prop :=
  OnScout ReportsDecided c act ∧ OnAcceptor KeepsLater c act

section

variable (c : Cluster) (i : ℤ)

instance : (pc : ScoutPc) → Decidable (ReportsDecided c i pc)
  | .pickSlot _ _ => inferInstanceAs (Decidable (∀ _ ∈ _, _ → _))
  | .idle | .connect .. | .p1a .. | .p1b .. | .propose .. | .p2a .. | .p2b .. | .command ..
  | .learn .. | .record .. => isTrue trivial

instance (f : LaptopFactory) (msg : PaxosMsg) : Decidable (KeepsLater f msg) :=
  inferInstanceAs (Decidable (_ → _ → _ → _))

instance (P : LaptopFactory → PaxosMsg → Prop) [∀ f msg, Decidable (P f msg)] :
    (act : Action) → Decidable (OnAcceptor P c act)
  | .acceptor _ _ => inferInstanceAs (Decidable (∀ _ ∈ _, _))
  | .request .. | .backup .. | .scout .. | .learner .. | .crash .. => isTrue trivial

instance (act : Action) : Decidable (FreeChoice c act) := inferInstanceAs (Decidable (_ ∧ _))

end

/-! ### What the promises cover -/

/-- The acceptor had accepted no command for a later slot than the one that it
    reports with the promise `p` to the Scout of `i`. -/
def Covers (h : List Event) (i : ℤ) (p : Promise) : Prop :=
  ∃ h₁ h₂, h = h₁ ++ .promised p.acceptor i p.number :: h₂ ∧
    ∀ m w, .accepted p.acceptor m w ∈ h₂ → p.acceptedProposal ≠ -1 ∧ w.slot ≤ p.command.slot

/-- The acceptors hold the command with the latest slot, and the promises report it. -/
structure Covered (c : Cluster) : Prop where
  latest : ∀ a m w, .accepted a m w ∈ c.hist → w.slot ≤ (c.factory a).acceptedValue.slot
  reply : ∀ i a n r, c.asked i = some (a, .p1a n) → r ∈ c.toScout i a → r.isAgree →
    Covers c.hist i ⟨a, n, r.acceptedProposal, r.getCommand⟩
  counted : ∀ i l, (c.scout i).prepare = some l → ∀ p ∈ l.promises, Covers c.hist i p
  proposed : ∀ i n v own l, .proposed i n v own l ∈ c.hist →
    ∀ p ∈ l.promises, Covers c.hist i p

section

variable {D : Deployment} {c c' : Cluster} {act : Action} {f f' : LaptopFactory} {i a n m : ℤ}
  {h evs : List Event} {w : Command} {msg r : PaxosMsg} {p : Promise}

theorem Covers.mono (hp : Covers h i p) (evs : List Event) : Covers (evs ++ h) i p := by
  obtain ⟨h₁, h₂, rfl, hw⟩ := hp
  exact ⟨evs ++ h₁, h₂, (List.append_assoc ..).symm, hw⟩

/-- A promise is given once, so that what came before it is what it covers. -/
theorem Covers.of_before (hp : Covers h i p) (hh : Justified (Event.InOrder D) h)
    (hb : Before (.accepted p.acceptor m w) (.promised p.acceptor i p.number) h) :
    p.acceptedProposal ≠ -1 ∧ w.slot ≤ p.command.slot := by
  obtain ⟨h₁, h₂, hsplit, hcov⟩ := hp
  obtain ⟨g₁, g₂, hsplit', hw⟩ := before_iff.1 hb
  have hone : ∀ k, .promised p.acceptor i p.number ∈ k →
      ¬Event.InOrder D (.promised p.acceptor i p.number) k :=
    fun k hmem ⟨_, _, hlt, _⟩ => lt_irrefl p.number (hlt i _ hmem)
  exact hcov m w (hh.suffix_unique hone hsplit hsplit' ▸ hw)

/-- An acceptor that has accepted something holds a number that is not the initial one. -/
theorem AcceptorOk.ne_of_accepted (hf : AcceptorOk h f a) (hh : Justified (Event.InOrder D) h)
    (hw : .accepted a m w ∈ h) : f.acceptedProposalNumber ≠ -1 := by
  obtain ⟨h₁, h₂, -, -, hpos, -⟩ := hh.exists_split hw
  have hle := hf.reports.2 m w hw
  omega

/-- What an acceptor holds after a message is not for an earlier slot. -/
theorem Vote.slot_le (hv : Vote f a i msg f' r evs) (hk : f.acceptedProposalNumber ≠ -1)
    (hok : KeepsLater f msg) : f.acceptedValue.slot ≤ f'.acceptedValue.slot := by
  cases hv with
  | accept hn => exact hok rfl hn hk
  | _ => exact le_rfl

theorem Vote.slot_of_accepted (hv : Vote f a i msg f' r evs) {b : ℤ}
    (hw : .accepted b m w ∈ evs) : b = a ∧ w = f'.acceptedValue := by
  cases hv with
  | accept => cases List.mem_singleton.1 hw; exact ⟨rfl, rfl⟩
  | promise => cases List.mem_singleton.1 hw
  | _ => cases hw

/-- A promise covers what the acceptor has accepted. -/
theorem Vote.covers (hv : Vote f a i (.p1a n) f' r evs) (hr : r.isAgree)
    (hne : ∀ m w, .accepted a m w ∈ h → f.acceptedProposalNumber ≠ -1)
    (hle : ∀ m w, .accepted a m w ∈ h → w.slot ≤ f.acceptedValue.slot) :
    Covers (evs ++ h) i ⟨a, n, r.acceptedProposal, r.getCommand⟩ := by
  generalize hmsg : PaxosMsg.p1a n = msg at hv
  have hph : msg.phase = 1 := hmsg ▸ rfl
  have hnum : n = msg.proposeNumber := hmsg ▸ rfl
  cases hv with
  | promise _ _ hk hval =>
    subst hnum
    refine ⟨[], h, rfl, fun m w hw => ?_⟩
    have hne := hne m w hw
    change r.acceptedProposal ≠ -1 ∧ w.slot ≤ r.getCommand.slot
    rw [hk, hval hne]
    exact ⟨hne, hle m w hw⟩
  | refuse _ hagree => exact absurd hr hagree
  | accept => exact absurd hph (by simp)
  | reject => exact absurd hph (by simp)

/-- The promises that a Scout has counted were counted before, or it has just
    read the last one. -/
theorem ScoutStep.promises {id : ℤ} {inbox : ℤ → List PaxosMsg} {env : Env} {pc : ScoutPc}
    {e : Effect} (hs : ScoutStep id f inbox env pc e) {l : Prepare} (hl : e.pc.prepare = some l)
    (hp : p ∈ l.promises) :
    (∃ l', pc.prepare = some l' ∧ p ∈ l'.promises) ∨
      ∃ r ∈ inbox p.acceptor, pc.asked f.proposalNumber = some (p.acceptor, .p1a p.number) ∧
        r.isAgree ∧ p = ⟨p.acceptor, p.number, r.acceptedProposal, r.getCommand⟩ := by
  have hstart : ∀ f' laptop, (startProposalNumCompete f' laptop env).prepare = some l → False := by
    rintro f' laptop ⟨⟩
    exact absurd hp List.not_mem_nil
  cases hs with
  | connect =>
    rw [scoutConnect] at hl
    exact (hstart _ _ hl).elim
  | restart => exact (hstart _ _ hl).elim
  | command =>
    rw [commanderConnect] at hl
    cases hl
  | @receiveP1b laptop l₀ a iter m rest hm =>
    cases hl
    by_cases hagree : m.isAgree
    · rw [Prepare.promises_receive _ _ _ hagree] at hp
      rcases List.mem_cons.1 hp with rfl | hp
      · exact .inr ⟨m, hm ▸ List.mem_cons_self, rfl, hagree, rfl⟩
      · exact .inl ⟨l₀, rfl, hp⟩
    · rw [Prepare.receive_of_not_isAgree _ _ _ hagree] at hp
      exact .inl ⟨l₀, rfl, hp⟩
  | @missP1b laptop l₀ a iter =>
    cases hl
    rw [Prepare.receive_of_not_isAgree _ _ _ (not_not.2 rfl)] at hp
    exact .inl ⟨l₀, rfl, hp⟩
  | @sendP1a _ l₀ => cases hl; exact .inl ⟨l₀, rfl, hp⟩
  | failP1a => exact .inl ⟨l, hl, hp⟩
  | retry => exact .inl ⟨l, hl, hp⟩
  | leave => exact .inl ⟨l, hl, hp⟩
  | chooseOwn => exact .inl ⟨l, hl, hp⟩
  | _ => cases hl

/-- A Scout proposes after the prepare phase it is in. -/
theorem ScoutStep.prepare_of_proposed {id : ℤ} {inbox : ℤ → List PaxosMsg} {env : Env}
    {pc : ScoutPc} {e : Effect} (hs : ScoutStep id f inbox env pc e) {v : Command} {own : Bool}
    {l : Prepare} (hev : .proposed i n v own l ∈ e.events) : i = id ∧ pc.prepare = some l := by
  obtain ⟨hi, -, laptop, ⟨-, rfl, -⟩ | ⟨-, rfl, -⟩⟩ := hs.proposed hev <;> exact ⟨hi, rfl⟩

/-! ### Steps -/

theorem Covered.step (hr : (cluster D).Reachable c) (hc : Covered c)
    (hok : OnAcceptor KeepsLater c act) (h : PaxosStep D c act c') : Covered c' := by
  have hvote := voting_of_reachable hr
  obtain ⟨⟨evs, hh⟩, -⟩ := hvote.later h
  -- a reply that a Scout waits for is an old one, or the promise is the last event
  have hreply : ∀ i a n r, c'.asked i = some (a, .p1a n) → r ∈ c'.toScout i a → r.isAgree →
      Covers c'.hist i ⟨a, n, r.acceptedProposal, r.getCommand⟩ := by
    intro i a n r ha hrep hagree
    rcases h.reply_cases (wired_of_reachable hr) ha hrep with ⟨ha', hrep', -⟩ | ⟨-, hq, rfl, hr'⟩
    · rw [hh]
      exact (hc.reply i a n r ha' hrep' hagree).mono evs
    · obtain ⟨r', hr'', hv⟩ := vote_cases (c.factory a) (hvote.sent i a _ (hq ▸ List.mem_cons_self))
      rw [hr'] at hr''
      cases hr''
      rw [Cluster.hist_acceptMsg, hr']
      exact hv.covers hagree (fun m w => (hvote.acceptor a).ne_of_accepted hvote.inOrder)
        (hc.latest a)
  cases h with
  | still hst =>
    obtain ⟨evs, hh, hevs⟩ := hst.hist
    refine ⟨fun a m w hw => ?_, hreply, fun i l hl p hp => ?_, fun i n v own l hv p hp => ?_⟩
    · rw [(hst.sameAcceptor a).value]
      rw [hh] at hw
      exact hc.latest a m w ((List.mem_append.1 hw).resolve_left fun hnew => hevs _ hnew)
    · rw [hh]
      exact (hc.counted i l (hst.scout i ▸ hl) p hp).mono evs
    · rw [hh] at hv ⊢
      exact (hc.proposed i n v own l
        ((List.mem_append.1 hv).resolve_left fun hnew => hevs _ hnew) p hp).mono evs
  | @scout i env e _ hs =>
    refine ⟨fun a m w hw => ?_, hreply, fun j l hl p hp => ?_, fun j n v own l hv p hp => ?_⟩
    · have hval : ((c.applyEffect i e).factory a).acceptedValue = (c.factory a).acceptedValue := by
        rw [Cluster.factory_applyEffect]
        split_ifs with ha
        · rw [ha, hs.frame.1.value]
        · rfl
      rw [hval]
      refine hc.latest a m w ((List.mem_append.1 hw).resolve_left fun hnew => ?_)
      cases hs.voter _ hnew
    · rw [Cluster.scout_applyEffect] at hl
      split_ifs at hl with hj
      · subst hj
        rcases hs.promises hl hp with ⟨l', hl', hp'⟩ | ⟨r, hr', ha, hagree, hpr⟩
        · exact (hc.counted j l' hl' p hp').mono e.events
        · rw [hpr]
          exact (hc.reply j p.acceptor p.number r ha hr' hagree).mono e.events
      · exact (hc.counted j l hl p hp).mono e.events
    · rcases List.mem_append.1 hv with hnew | hold
      · obtain ⟨rfl, hl⟩ := hs.prepare_of_proposed hnew
        exact (hc.counted j l hl p hp).mono e.events
      · exact (hc.proposed j n v own l hold p hp).mono e.events
  | @acceptor a i msg rest ha hq =>
    obtain ⟨r, hr', hv⟩ := vote_cases (c.factory a) (hvote.sent i a msg (hq ▸ List.mem_cons_self))
    rw [Cluster.hist_acceptMsg, hr'] at hh
    have hkeep : KeepsLater (c.factory a) msg := hok msg (by rw [hq]; rfl)
    refine ⟨fun b m w hw => ?_, hreply, fun j l hl p hp => ?_, fun j n v own l hv' p hp => ?_⟩
    · rw [Cluster.hist_acceptMsg, hr'] at hw
      rw [Cluster.factory_acceptMsg]
      rcases List.mem_append.1 hw with hnew | hold
      · -- the vote just made is for the command now held
        obtain ⟨rfl, rfl⟩ := hv.slot_of_accepted hnew
        rw [if_pos rfl]
      · split_ifs with hb
        · subst hb
          exact (hc.latest b m w hold).trans
            (hv.slot_le ((hvote.acceptor b).ne_of_accepted hvote.inOrder hold) hkeep)
        · exact hc.latest b m w hold
    · rw [Cluster.scout_acceptMsg] at hl
      exact (hc.counted j l hl p hp).mono _
    · rw [Cluster.hist_acceptMsg, hr'] at hv'
      have hold := (List.mem_append.1 hv').resolve_left fun hnew => by cases hv.voter _ hnew
      exact (hc.proposed j n v own l hold p hp).mono _

theorem covered_of_reachBy (h : (cluster D).ReachBy (OnAcceptor KeepsLater) c) : Covered c :=
  reach_invariant h
    ⟨fun _ _ _ hw => absurd hw List.not_mem_nil, fun _ _ _ _ _ hr => absurd hr List.not_mem_nil,
      fun _ _ hl => (by cases hl), fun _ _ _ _ _ hp => absurd hp List.not_mem_nil⟩
    fun hr hok hc hst => hc.step hr.reachable hok hst.paxos

/-! ### The rule -/

/-- A Scout's own command is for a later slot than all commands reported. -/
def OwnBehind (h : List Event) : Prop :=
  ∀ i n v l, .proposed i n v true l ∈ h → ∀ p ∈ l.promises, p.acceptedProposal ≠ -1 →
    p.command.slot < v.slot

theorem OwnBehind.step (hr : (cluster D).Reachable c) (hc : OwnBehind c.hist)
    (hok : OnScout ReportsDecided c act) (h : ReplicaStep D c act c') : OwnBehind c'.hist := by
  intro i n v l hv p hp hk
  rcases h.mem_hist hv not_false (fun _ _ heq => by cases heq)
    with hold | ⟨j, env, e, rfl, hs, hev⟩
  · exact hc i n v l hold p hp hk
  · obtain ⟨rfl, -, laptop, ⟨hown, -⟩ | ⟨-, hpc, rfl⟩⟩ := hs.proposed hev
    · cases hown
    · rw [OnScout, hpc] at hok
      -- the slot picked is free, and those up to the ones reported are not
      by_contra! hle
      refine (c.factory i).decisionMap.firstFree_not_mem (c.factory i).slotIn
        (hok p hp hk _ ?_ hle)
      exact ((slotted_of_reachable hr).one_le i).trans (StdMap.le_firstFree _ _)

theorem ownBehind_of_reachBy (h : (cluster D).ReachBy (OnScout ReportsDecided) c) :
    OwnBehind c.hist :=
  reach_invariant h (fun _ _ _ _ hp => absurd hp List.not_mem_nil : OwnBehind (Cluster.init D).hist)
    fun hr hok hc hst => OwnBehind.step hr.reachable hc hok hst.replica

/-- Along the runs of free choices, the slots that the Scouts pick are free. -/
theorem freeSlotRule (h : (cluster D).ReachBy FreeChoice c) : FreeSlotRule c.hist := by
  have hcov := covered_of_reachBy (h.mono fun _ _ hok => hok.2)
  have hown := ownBehind_of_reachBy (h.mono fun _ _ hok => hok.1)
  intro i a n v l _ hv p hp m w hb heq
  obtain ⟨hk, hle⟩ := (hcov.proposed i n v true l hv p hp).of_before
    (voting_of_reachable h.reachable).inOrder hb
  have hlt := hown i n v l hv p hp hk
  omega

/-- Where a Scout picks a slot without the slots reported being decided, the
    slot is that of a command reported, or another command has been chosen for it. -/
theorem taken_of_not_reportsDecided (hr : (cluster D).Reachable c) {laptop : LaptopInfo}
    {l : Prepare} (hpc : c.scout i = .pickSlot laptop l)
    (hno : ¬ReportsDecided c i (.pickSlot laptop l)) (env : Env) :
    ∃ p ∈ l.promises, .accepted p.acceptor p.acceptedProposal p.command ∈ c.hist ∧
      (p.command.slot = (selfCommand (c.factory i) laptop env).slot ∨
        ∃ n v, v.slot = (selfCommand (c.factory i) laptop env).slot ∧ Chosen D c.hist n v) := by
  have hh := explained_of_reachable hr
  have hs := slotted_of_reachable hr
  have hl : PrepareOk c.hist i l := by
    have hprep := (preparing_of_reachable hr).scout i
    rw [Cluster.Preparing, hpc] at hprep
    exact hprep.1
  simp only [ReportsDecided, not_forall] at hno
  obtain ⟨p, hp, hk, t, h₁, ht, hfree⟩ := hno
  have hacc := (hl.promise p hp).accepted hk
  refine ⟨p, hp, hacc, ?_⟩
  -- the slot picked is not after the free one
  have hle : (c.factory i).decisionMap.firstFree (c.factory i).slotIn ≤ t := by
    by_contra! hlt
    by_cases hin : t < (c.factory i).slotIn
    · exact hfree (hs.slotIn i t h₁ hin)
    · exact hfree (StdMap.mem_of_lt_firstFree (not_lt.1 hin) hlt)
  rcases (hle.trans ht).lt_or_eq with hlt | heq
  · obtain ⟨j, own, l', hprop⟩ := hh.proposed_of_accepted hacc
    exact .inr ((hh.noGap hprop).2 _ ((hs.one_le i).trans (StdMap.le_firstFree _ _)) hlt)
  · exact .inl heq.symm

end

namespace FreeSlots

/-- The command of server 2, for slot 2. -/
def u : Command := { slot := 2, commandId := 120000000, customerId := 9, orderId := 0 }

/-- Server 2 takes an order after it has learned the first command. -/
def run : List Action :=
  open LaptopPaxos.Action in
  firstRun ++ .order 2 9 0 :: scouts 2 2 ++ talk 2 1 ++ talk 2 2 ++ talk 2 3 ++ scouts 2 1 ++
    talk 2 1 ++ talk 2 2 ++ talk 2 3 ++ scouts 2 3 ++ talk 2 1

end FreeSlots

theorem freeSlotRule_three : ∃ c : Cluster, .p2aSent 2 1 1 FreeSlots.u true ∈ c.hist ∧
    .accepted 1 0 Reproposal.x ∈ c.hist ∧ .accepted 1 1 FreeSlots.u ∈ c.hist ∧
      FreeSlotRule c.hist := by
  obtain ⟨c, hc, hs, hx, hu⟩ := exists_run (.numbered 3) FreeChoice
    (fun c => .p2aSent 2 1 1 FreeSlots.u true ∈ c.hist ∧ .accepted 1 0 Reproposal.x ∈ c.hist ∧
      .accepted 1 1 FreeSlots.u ∈ c.hist) FreeSlots.run (by decide +kernel)
  exact ⟨c, hs, hx, hu, freeSlotRule hc⟩

namespace OutOfOrder

/-- The second command of server 1, which Scout 2 recovers. -/
def z : Command := { slot := 2, commandId := 110000000, customerId := 7, orderId := 1 }

/-- The prepare phase of server 2. -/
def l : Prepare :=
  { promisedNum := 3, highestProposlNum := 2, cmd := z, acceptorAcceptedProposal := 2,
    activeAcceptor := 6, promises := [⟨3, 3, 2, z⟩, ⟨2, 3, 2, z⟩, ⟨1, 3, 2, z⟩] }

/-- All acceptors accept the first command of server 1 for slot 1 and promise
    after that; then Scout 2 proposes its own order for slot 1. -/
def TakesChosen (c : Cluster) : Prop :=
  .p2aSent 2 1 3 u true ∈ c.hist ∧ .proposed 2 3 u true l ∈ c.hist ∧
    ∀ p ∈ l.promises, Before (.accepted p.acceptor 0 Reproposal.x) (.promised p.acceptor 2 p.number)
      c.hist

instance : DecidablePred TakesChosen := fun _ => inferInstanceAs (Decidable (_ ∧ _ ∧ ∀ _ ∈ _, _))

theorem exists_takesChosen : ∃ c, (cluster (.numbered 3)).Reachable c ∧ TakesChosen c :=
  exists_run (.numbered 3) (fun _ _ => True) TakesChosen run (by decide +kernel)

end OutOfOrder

theorem not_freeSlotRule : ¬∀ D c, (cluster D).Reachable c → FreeSlotRule c.hist := by
  intro h
  obtain ⟨c, hc, hs, hp, hb⟩ := OutOfOrder.exists_takesChosen
  have hp₁ : (⟨1, 3, 2, OutOfOrder.z⟩ : Promise) ∈ OutOfOrder.l.promises := by simp [OutOfOrder.l]
  exact h _ c hc 2 1 3 _ _ hs hp _ hp₁ 0 _ (hb _ hp₁) rfl

end LaptopPaxos
