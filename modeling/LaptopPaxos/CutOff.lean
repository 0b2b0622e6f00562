import LaptopPaxos.Placed
import LaptopPaxos.Rounds

/-!
# Servers that are cut off

A server that tells a customer that there are too few acceptors tells this to every
customer from then on (`Net.cut_off`). When its Scout gives up, it has sent to all the
acceptors that it could reach, and these are no majority; a stub that is closed or erased
never comes back, since the Scout connects once. So it gives up with every later order, in
the first round: it never proposes again and records nothing.
-/

namespace LaptopPaxos

open LaptopFactory

/-- The acceptors to which the Scout can send. -/
def LaptopFactory.openStubs (f : LaptopFactory) : Finset ℤ :=
  (f.scoutAcceptorStub.keys.filter (open? f.scoutAcceptorStub ·)).toFinset

/-- In a loop over its stubs, the Scout has counted those that it is past of. -/
def ScoutPc.Counts (f : LaptopFactory) : ScoutPc → Prop
  | .p1a _ l iter | .p1b _ l _ iter =>
    f.scoutAcceptorStubInit = true ∧ (f.openStubs \ iter.toFinset).card ≤ l.activeAcceptor
  | .p2a _ ph iter | .p2b _ ph _ iter =>
    f.scoutAcceptorStubInit = true ∧ (f.openStubs \ iter.toFinset).card ≤ ph.activeAcceptors
  | .propose .. | .pickSlot .. => f.scoutAcceptorStubInit = true
  | _ => True

/-- Whatever is answered, the Scout will give up. -/
def ScoutPc.Hopeless (f : LaptopFactory) : ScoutPc → Prop
  | .idle | .connect _ => True
  | .p1a _ l iter | .p1b _ l _ iter =>
    l.activeAcceptor + iter.countP (open? f.scoutAcceptorStub ·) ≤ f.numOfAcceptors / 2
  | _ => False

/-- The Scout cannot reach a majority of the acceptors. -/
structure LaptopFactory.CutOff (f : LaptopFactory) (pc : ScoutPc) : Prop where
  init : f.scoutAcceptorStubInit = true
  few : f.openStubs.card ≤ f.numOfAcceptors / 2
  pc : pc.Hopeless f

section

variable {i a : ℤ} {f f' : LaptopFactory} {inbox : ℤ → List PaxosMsg} {env : Env} {pc : ScoutPc}
  {e : Effect} {iter : List ℤ} {n : ℕ} {laptop : LaptopInfo}

/-! ### Stubs -/

@[simp] theorem mem_openStubs : a ∈ f.openStubs ↔ open? f.scoutAcceptorStub a := by
  rw [openStubs, List.mem_toFinset, List.mem_filter, decide_eq_true_iff, and_iff_right_iff_imp]
  exact fun h => StdMap.mem_keys.2 (mem_of_open? h)

theorem card_openStubs : f.openStubs.card = f.scoutAcceptorStub.keys.countP
    (open? f.scoutAcceptorStub ·) := by
  rw [openStubs, List.toFinset_card_of_nodup (f.scoutAcceptorStub.keys_nodup.filter _),
    List.countP_eq_length_filter]

/-- At the head of a loop. -/
theorem card_openStubs_sdiff_keys : (f.openStubs \ f.scoutAcceptorStub.keys.toFinset).card = 0 := by
  rw [Finset.card_eq_zero, Finset.sdiff_eq_empty_iff_subset]
  intro a ha
  exact List.mem_toFinset.2 (StdMap.mem_keys.2 (mem_of_open? (mem_openStubs.1 ha)))

/-- A send that has been counted. -/
theorem card_sdiff_of_sent (h : (f.openStubs \ (a :: iter).toFinset).card ≤ n) :
    (f.openStubs \ iter.toFinset).card ≤ n + 1 := by
  have hsub : f.openStubs \ iter.toFinset ⊆ insert a (f.openStubs \ (a :: iter).toFinset) := by
    intro b hb
    rw [Finset.mem_sdiff] at hb
    by_cases hba : b = a
    · exact Finset.mem_insert.2 (.inl hba)
    · simp only [Finset.mem_insert, Finset.mem_sdiff, List.toFinset_cons, hba, hb.1, hb.2,
        false_or, or_self, not_false_eq_true, and_self]
  have hcard := (Finset.card_le_card hsub).trans (Finset.card_insert_le _ _)
  omega

/-- A stub that is closed or erased need not be counted. -/
theorem card_sdiff_of_lost
    (hopen : ∀ b, open? f'.scoutAcceptorStub b → b ≠ a ∧ open? f.scoutAcceptorStub b)
    (h : (f.openStubs \ (a :: iter).toFinset).card ≤ n) :
    (f'.openStubs \ iter.toFinset).card ≤ n := by
  refine (Finset.card_le_card fun b hb => ?_).trans h
  rw [Finset.mem_sdiff, mem_openStubs] at hb
  obtain ⟨hb, hiter⟩ := hb
  obtain ⟨hba, hb⟩ := hopen b hb
  rw [Finset.mem_sdiff, mem_openStubs, List.toFinset_cons, Finset.mem_insert]
  exact ⟨hb, not_or.2 ⟨hba, hiter⟩⟩

theorem card_sdiff_mono
    (hopen : ∀ b, open? f'.scoutAcceptorStub b → open? f.scoutAcceptorStub b)
    (h : (f.openStubs \ iter.toFinset).card ≤ n) : (f'.openStubs \ iter.toFinset).card ≤ n :=
  (Finset.card_le_card (Finset.sdiff_subset_sdiff
    (fun b hb => mem_openStubs.2 (hopen b (mem_openStubs.1 hb))) subset_rfl)).trans h

/-- After the loop, the acceptors that can be reached have been counted. -/
theorem card_openStubs_le (h : (f.openStubs \ ([] : List ℤ).toFinset).card ≤ n) :
    f.openStubs.card ≤ n := by
  rwa [List.toFinset_nil, Finset.sdiff_empty] at h

theorem card_openStubs_mono
    (hopen : ∀ b, open? f'.scoutAcceptorStub b → open? f.scoutAcceptorStub b) :
    f'.openStubs.card ≤ f.openStubs.card :=
  Finset.card_le_card fun b hb => mem_openStubs.2 (hopen b (mem_openStubs.1 hb))

theorem countP_open_mono
    (hopen : ∀ b, open? f'.scoutAcceptorStub b → open? f.scoutAcceptorStub b) :
    iter.countP (open? f'.scoutAcceptorStub ·) ≤ iter.countP (open? f.scoutAcceptorStub ·) :=
  List.countP_mono_left fun b _ hb => decide_eq_true (hopen b (of_decide_eq_true hb))

/-! ### Steps -/

theorem ScoutStep.counts (hs : ScoutStep i f inbox env pc e) (h : pc.Counts f) :
    e.pc.Counts e.factory := by
  cases hs with
  | dequeue => trivial
  | connect =>
    rw [scoutConnect]
    split_ifs with hinit
    · exact ⟨hinit, card_openStubs_sdiff_keys.le⟩
    · exact ⟨rfl, card_openStubs_sdiff_keys.le⟩
  | sendP1a | sendP2a => exact ⟨h.1, card_sdiff_of_sent h.2⟩
  | failP1a | failP2a => exact ⟨h.1, card_sdiff_of_lost (fun b => open?_erase) h.2⟩
  | @receiveP1b _ l a _ m => exact ⟨h.1, h.2.trans (l.active_receive a _ m).ge⟩
  | @missP1b _ l a =>
    exact ⟨h.1, (card_sdiff_mono (fun b hb => (open?_close hb).2) h.2).trans
      (l.active_receive a _ {}).ge⟩
  | @receiveP2b _ ph a _ m => exact ⟨h.1, h.2.trans (ph.active_receive m).ge⟩
  | @missP2b _ ph =>
    exact ⟨h.1, (card_sdiff_mono (fun b hb => (open?_close hb).2) h.2).trans
      (ph.active_receive {}).ge⟩
  | giveUp | tooFew => trivial
  | retry => exact ⟨h.1, card_openStubs_sdiff_keys.le.trans (Nat.zero_le _)⟩
  | leave => exact h.1
  | chooseOwn => exact h
  | chooseOther | pickSlot => exact ⟨h, card_openStubs_sdiff_keys.le⟩
  | restart => exact ⟨h.1, card_openStubs_sdiff_keys.le⟩
  | accept | drop | command | sendLearn | failLearn | endLearn | record => trivial

/-- A Scout that gives up is cut off. -/
theorem ScoutStep.cutOff (hs : ScoutStep i f inbox env pc e) (h : pc.Counts f)
    (hl : returnedLaptop e.events = some laptop) :
    laptop.adminId = i ∨ laptop.adminId = -5 ∧ e.factory.CutOff e.pc := by
  cases hs with
  | giveUp hactive =>
    cases hl
    exact .inr ⟨rfl, h.1, (card_openStubs_le h.2).trans hactive, trivial⟩
  | @tooFew _ ph _ hres =>
    cases hl
    have hactive : ph.activeAcceptors ≤ f.numOfAcceptors / 2 := by
      by_contra! hlt
      rw [acceptResult, if_neg (not_le.2 hlt)] at hres
      split_ifs at hres
      omega
    exact .inr ⟨rfl, h.1, (card_openStubs_le h.2).trans hactive, trivial⟩
  | record =>
    cases hl
    exact .inl rfl
  | connect => rw [scoutConnect] at hl; cases hl
  | command => rw [commanderConnect] at hl; cases hl
  | _ => cases hl

/-- A server that is cut off stays so, and all that its Scout returns is the sign. -/
theorem LaptopFactory.CutOff.step (h : f.CutOff pc) (hs : ScoutStep i f inbox env pc e) :
    e.factory.CutOff e.pc ∧
      ∀ laptop, returnedLaptop e.events = some laptop → laptop.adminId = -5 := by
  have hpc := h.pc
  cases hs with
  | dequeue => exact ⟨⟨h.init, h.few, trivial⟩, fun _ hl => by cases hl⟩
  | connect =>
    rw [scoutConnect, if_pos h.init]
    refine ⟨⟨h.init, h.few, ?_⟩, fun _ hl => by cases hl⟩
    change 0 + _ ≤ _
    rw [Nat.zero_add, ← card_openStubs]
    exact h.few
  | @sendP1a _ l a iter hopen =>
    refine ⟨⟨h.init, h.few, ?_⟩, fun _ hl => by cases hl⟩
    have hcount : (a :: iter).countP (open? f.scoutAcceptorStub ·) =
        iter.countP (open? f.scoutAcceptorStub ·) + 1 :=
      List.countP_cons_of_pos (decide_eq_true hopen)
    change l.activeAcceptor + (a :: iter).countP _ ≤ _ at hpc
    rw [hcount, Nat.add_comm _ 1, ← Nat.add_assoc] at hpc
    exact hpc
  | @failP1a _ l a iter =>
    have hopen : ∀ b, open? (f.eraseStubs a).scoutAcceptorStub b → open? f.scoutAcceptorStub b :=
      fun b hb => (open?_erase hb).2
    refine ⟨⟨h.init, (card_openStubs_mono hopen).trans h.few, ?_⟩, fun _ hl => by cases hl⟩
    have hiter : iter.countP (open? (f.eraseStubs a).scoutAcceptorStub ·) ≤
        (a :: iter).countP (open? f.scoutAcceptorStub ·) :=
      (countP_open_mono hopen).trans (List.sublist_cons_self a iter).countP_le
    exact (Nat.add_le_add_left hiter _).trans hpc
  | @receiveP1b _ l a iter m =>
    refine ⟨⟨h.init, h.few, ?_⟩, fun _ hl => by cases hl⟩
    change (l.receive a _ m).activeAcceptor + _ ≤ _
    rw [l.active_receive]
    exact hpc
  | @missP1b _ l a iter =>
    have hopen : ∀ b, open? (f.closeScoutStub a).scoutAcceptorStub b →
        open? f.scoutAcceptorStub b := fun b hb => (open?_close hb).2
    refine ⟨⟨h.init, (card_openStubs_mono hopen).trans h.few, ?_⟩, fun _ hl => by cases hl⟩
    change (l.receive a _ {}).activeAcceptor + _ ≤ _
    rw [l.active_receive]
    exact (Nat.add_le_add_left (countP_open_mono hopen) _).trans hpc
  | giveUp =>
    refine ⟨⟨h.init, h.few, trivial⟩, fun _ hl => ?_⟩
    cases hl
    rfl
  | @retry _ l hactive | @leave _ l hactive => exact absurd hpc (not_le.2 hactive)
  | _ => exact absurd hpc not_false

/-- The engineers leave the stubs alone. -/
theorem LaptopFactory.CutOff.congr (h : f.CutOff pc) (hs : SameStubs f f')
    (hn : f'.numOfAcceptors = f.numOfAcceptors) : f'.CutOff pc := by
  refine ⟨hs.scoutInit.trans h.init, ?_, ?_⟩
  · rw [openStubs, hs.scout, hn]
    exact h.few
  · have hpc := h.pc
    cases pc <;> simp only [ScoutPc.Hopeless, hs.scout, hn] at hpc ⊢ <;> exact hpc

theorem ScoutPc.Counts.congr (h : pc.Counts f) (hs : SameStubs f f') : pc.Counts f' := by
  cases pc <;> simp only [ScoutPc.Counts, openStubs, hs.scout, hs.scoutInit] at h ⊢ <;> exact h

/-- The engineers leave the configuration alone. -/
theorem EngineerMove.config {o o' : ByteOrder} {role : Role} {id : ℤ} {fut : Option LaptopInfo}
    {k k' : Conn} {r : EngineerEffect} (hmove : EngineerMove o o' role id f fut k r k') :
    SameConfig f r.factory := by
  cases hmove with
  | send _ hfac | fail hfac | wake _ _ hfac | leave _ hfac => exact hfac ▸ .refl f
  | @handle p _ _ _ hup hkind hfac =>
    have hcases := handle_cases (e := id) (f := f) hup.not_logRequest hkind
    generalize LaptopPaxos.handle id f k.engineer.pc p = x at hcases hfac
    rw [hfac]
    cases hcases with
    | order => exact ⟨rfl, rfl, rfl⟩
    | record | free => exact .refl f
    | @acceptor m => exact (acceptorEngineer_cases f m).frame.2.2
    | @learner m => exact (learnerEngineer_frame f m).2.2

end

namespace Net

/-- The Scout of the server `i` cannot reach a majority of the acceptors. -/
def CutOff (s : Net) (i : ℤ) : Prop := (s.node i).factory.CutOff (s.node i).scout

/-- The laptop has the id of its server, unless that is cut off. -/
def Signed (s : Net) (i : ℤ) (laptop : LaptopInfo) : Prop :=
  laptop.adminId = i ∨ laptop.adminId = -5 ∧ s.CutOff i

section

variable {H : Hosts} {s s' : Net} {i : ℤ}

/-- A server is cut off for ever. -/
theorem CutOff.step {act : NetAction} (h : s.CutOff i) (hreg : s.Regular H)
    (hst : s.step H act = some s') : s'.CutOff i := by
  cases netStep_cases hst with
  | @engineer ℓ answers k r hk hr hu =>
    obtain ⟨hstubs, -, hscout⟩ := factory_applyEngineer (H := H) (ℓ := ℓ) hr i
    rw [CutOff, hscout]
    refine LaptopFactory.CutOff.congr h hstubs ?_
    by_cases hi : i = k.server
    · subst hi
      obtain ⟨k', -, hmove⟩ := exists_move hreg hk hr hu
      rw [node_applyEngineer_self]
      exact hmove.config.numOfAcceptors
    · rw [node_applyEngineer_of_ne hi]
  | @scout j env answers io x hj hio hr hu =>
    by_cases hi : i = j
    · subst hi
      rw [CutOff, node_applyScout_self]
      exact (LaptopFactory.CutOff.step h (scoutStep_cases hr)).1
    · rw [CutOff, node_applyScout_of_ne hi]
      exact h
  | client =>
    rw [CutOff, node_applyClient]
    exact h

/-- The loops of every Scout count, and the laptops that are returned are signed. -/
structure Counting (s : Net) : Prop where
  scout : ∀ i, (s.node i).scout.Counts (s.node i).factory
  reports : s.Reports s.Signed

theorem Signed.step {act : NetAction} {laptop : LaptopInfo} (h : s.Signed i laptop)
    (hreg : s.Regular H) (hst : s.step H act = some s') : s'.Signed i laptop :=
  h.imp_right fun hcut => ⟨hcut.1, hcut.2.step hreg hst⟩

theorem Counting.step {act : NetAction} (h : s.Counting) (hreg : s.Regular H)
    (hst : s.step H act = some s') : s'.Counting := by
  have hmono : ∀ i laptop, s.Signed i laptop → s'.Signed i laptop :=
    fun i laptop hl => hl.step hreg hst
  cases netStep_cases hst with
  | @engineer ℓ answers k r hk hr hu =>
    obtain ⟨k', hk', hmove⟩ := exists_move hreg hk hr hu
    refine ⟨fun i => ?_, h.reports.engineer hmono hk hk' hmove⟩
    obtain ⟨hstubs, -, hscout⟩ := factory_applyEngineer (H := H) (ℓ := ℓ) hr i
    rw [hscout]
    exact (h.scout i).congr hstubs
  | @scout j env answers io x hj hio hr hu =>
    have hs := scoutStep_cases hr
    refine ⟨fun i => ?_, h.reports.scout hmono fun laptop hl => ?_⟩
    · by_cases hi : i = j
      · subst hi
        rw [node_applyScout_self]
        exact hs.counts (h.scout i)
      · rw [node_applyScout_of_ne hi]
        exact h.scout i
    · rw [Signed, CutOff, node_applyScout_self]
      exact hs.cutOff (h.scout j) hl
  | client hr hu hj =>
    refine ⟨fun i => ?_, h.reports.of_stems hmono (fun ℓ k' hk' => stems_applyClient hr hk')
      fun i e laptop hf => ?_⟩
    · rw [node_applyClient]
      exact h.scout i
    · rw [node_applyClient] at hf
      exact hmono i laptop (h.reports.fut i e laptop hf)

theorem counting_of_reachable (hs : (network H).Reachable s) : s.Counting := by
  refine hs.invariant ?_ fun _ _ _ hs h _ hst => h.step (regular_of_reachable hs) hst
  rintro _ ⟨client, -, rfl⟩
  exact ⟨fun i => trivial, fun i e laptop hf => (by cases hf), fun ℓ k laptop hk => (by cases hk),
    fun ℓ k l hk => (by cases hk)⟩

/-- What a server that is cut off does in a run. -/
theorem CutOff.run (h : s.CutOff i) (hs : (network H).Reachable s)
    (hsteps : (network H).StepsBy (fun _ _ => True) s s') :
    s'.CutOff i ∧ (s'.node i).factory.customerRecord = (s.node i).factory.customerRecord ∧
      ∀ e laptop, (s'.node i).fut e = some laptop →
        (s.node i).fut e = some laptop ∨ laptop.adminId = -5 := by
  induction hsteps with
  | refl => exact ⟨h, rfl, fun e laptop hf => .inl hf⟩
  | @tail s₁ s' hsteps hst ih =>
    obtain ⟨hcut, hrecord, hfut⟩ := ih
    obtain ⟨act, -, hst⟩ := hst
    have hreg := regular_of_reachable (hs.of_stepsBy hsteps)
    refine ⟨hcut.step hreg hst, ?_, fun e laptop hf => ?_⟩
    · rcases records_step (i := i) hreg hst with hsame | ⟨laptop, hpc, -⟩
      · exact hsame.trans hrecord
      · have hhopeless := LaptopFactory.CutOff.pc hcut
        rw [hpc] at hhopeless
        exact absurd hhopeless not_false
    · cases netStep_cases hst with
      | engineer => exact hfut e laptop (fut_of_applyEngineer hf)
      | @scout j env answers io x hj hio hr hu =>
        rcases fut_of_applyScout hf with hold | ⟨rfl, hl⟩
        · exact hfut e laptop hold
        · exact .inr ((LaptopFactory.CutOff.step hcut (scoutStep_cases hr)).2 laptop hl)
      | client =>
        rw [node_applyClient] at hf
        exact hfut e laptop hf

/-- Once a server has told a customer that there are too few acceptors, it proposes and
    records nothing more, and every promise that it sets has the same sign. -/
theorem cut_off (hs : (network H).Reachable s) {cl : ℤ} {n : ℕ} {k : Conn} {l : LaptopInfo}
    (hk : s.conn (.customer cl n) = some k) (hl : .message (.laptopInfo l) ∈ k.down.sent)
    (hid : l.adminId = -5) (hne : k.server ≠ -5)
    (hsteps : (network H).StepsBy (fun _ _ => True) s s') :
    (∀ laptop ph iter, (s'.node k.server).scout ≠ .p2a laptop ph iter) ∧
      (s'.node k.server).factory.customerRecord = (s.node k.server).factory.customerRecord ∧
      ∀ e laptop, (s'.node k.server).fut e = some laptop →
        (s.node k.server).fut e = some laptop ∨ laptop.adminId = -5 := by
  obtain ⟨laptop, rfl, hsigned⟩ := (counting_of_reachable hs).reports.sent _ k l hk hl
  have hcut : s.CutOff k.server := by
    rcases hsigned with hown | ⟨-, hcut⟩
    · -- the number of a server is an `int`
      obtain ⟨hint, -⟩ := H.fits _ ((regular_of_reachable hs).line cl n k hk).called.host
      change narrowInt laptop.adminId = -5 at hid
      rw [hown, narrowInt_eq_self hint] at hid
      exact absurd hid hne
    · exact hcut
  obtain ⟨hcut', hrecord, hfut⟩ := hcut.run hs hsteps
  refine ⟨fun laptop ph iter hpc => ?_, hrecord, hfut⟩
  have hhopeless := LaptopFactory.CutOff.pc hcut'
  rw [hpc] at hhopeless
  exact hhopeless

/-- The server cannot reach itself. Then another customer orders. -/
theorem cut_off_alone : ∃ s s' : Net, (s.node 1).fut 0 = some ⟨7, 0, 1, 0, -5⟩ ∧
    (s'.node 1).fut 1 = some ⟨7, 0, 1, 1, -5⟩ ∧
      (∀ laptop ph iter, (s'.node 1).scout ≠ .p2a laptop ph iter) ∧
      ∀ e laptop, (s'.node 1).fut e = some laptop →
        (s.node 1).fut e = some laptop ∨ laptop.adminId = -5 := by
  have hinit : (network OneOrder.hosts).Reachable OneOrder.init := .init OneOrder.init_mem
  let client (answers : Answers) : NetAction := .client 1 { answers := answers } 1
  let engineer (answers : Answers) : NetAction := .engineer (.customer 1 1) answers
  obtain ⟨s, hs, ⟨k, hk, hserver, hl⟩, hfut, hrun⟩ := hinit.exists_of_runBy
    (P := fun s => (∃ k ∈ s.conn (.customer 0 1), k.server = 1 ∧
        .message (.laptopInfo ⟨7, 0, 1, 0, -5⟩) ∈ k.down.sent) ∧
      (s.node 1).fut 0 = some ⟨7, 0, 1, 0, -5⟩ ∧
      ((network OneOrder.hosts).runBy (fun _ _ => True)
        [client {}, client (OneOrder.gives 4), engineer (OneOrder.takes (.word 0)),
          engineer (OneOrder.gives 4), client (OneOrder.takes (.word 25)),
          engineer (OneOrder.gives 25),
          client (OneOrder.takes (.message (.serverConfig (OneOrder.hosts.config 1)))),
          client (OneOrder.gives 12),
          engineer (OneOrder.takes (.message (.customerRequest ⟨7, 0, 1⟩))),
          OneOrder.scout {}, OneOrder.scout {}, OneOrder.scout {}] s).any
        (fun s' => (s'.node 1).fut 1 = some ⟨7, 0, 1, 1, -5⟩) = true)
    (OneOrder.run.take 9 ++ [OneOrder.scout {}, .scout 1 { refused := [1] } fun _ => {},
      OneOrder.scout {}, OneOrder.customer {}, OneOrder.customer (OneOrder.gives 20)])
    (by decide +kernel)
  obtain ⟨s', hsteps, hfut'⟩ := Machine.StepsBy.exists_of_runBy _ hrun
  obtain ⟨hprepare, -, hset⟩ := cut_off hs hk hl rfl (by rw [hserver]; decide) hsteps
  rw [hserver] at hprepare hset
  exact ⟨s, s', hfut, hfut', hprepare, hset⟩

end

end Net

end LaptopPaxos
