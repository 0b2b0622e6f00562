import LaptopPaxos.Acknowledge
import LaptopPaxos.Replication

/-!
# Answers and the log

What a customer may conclude from its answer: if it gets a laptop without the sign that
there are too few acceptors, a majority of the acceptors has accepted a command for its
order, so that it is in the log all servers decide along (`Net.answers_logged`). This needs
that the Scouts finish the orders they work on, as `Acknowledging` does in the cluster.
-/

namespace LaptopPaxos

open LaptopFactory

/-- `FinishesOwn` of the Scout on its server. -/
def LaptopFactory.FinishesOwn (f : LaptopFactory) : ScoutPc → Prop
  | .p2a laptop ph [] =>
    (ph.own = true → f.numOfAcceptors / 2 < ph.activeAcceptors ∧
      (ph.acceptNumber = 0 ∨ f.numOfAcceptors / 2 < ph.acceptNumber)) ∧
    (ph.own = false → f.numOfAcceptors / 2 < ph.acceptNumber → ph.cmd.order = laptop.order)
  | _ => True

instance (f : LaptopFactory) : (pc : ScoutPc) → Decidable (f.FinishesOwn pc)
  | .p2a _ _ [] => inferInstanceAs (Decidable (_ ∧ _))
  | .p2a _ _ (_ :: _) | .idle | .connect .. | .p1a .. | .p1b .. | .propose .. | .pickSlot ..
  | .p2b .. | .command .. | .learn .. | .record .. => isTrue trivial

/-- A laptop without success has the sign that there are too few acceptors. -/
def Signed (h : List Event) : Prop :=
  ∀ i laptop result, .returned i laptop result ∈ h → result = 1 ∨ laptop.adminId = -5

section

variable {D : Deployment} {c : Cluster} {i : ℤ} {pc : ScoutPc}

theorem finishesOwn_iff : FinishesOwn c i pc ↔ (c.factory i).FinishesOwn pc := by
  cases pc with
  | p2a laptop ph iter => cases iter <;> rfl
  | _ => rfl

theorem acknowledging_of_reachBy (h : (cluster D).ReachBy (OnScout FinishesOwn) c) :
    Acknowledging D c :=
  reach_invariant h ⟨fun _ => trivial, fun _ _ hl => absurd hl List.not_mem_nil⟩
    fun hr hok hc hst => hc.step hr.reachable hok hst.replica

theorem ScoutStep.signed {f : LaptopFactory} {inbox : ℤ → List PaxosMsg} {env : Env} {e : Effect}
    (hs : ScoutStep i f inbox env pc e) {j result : ℤ} {laptop : LaptopInfo}
    (hev : .returned j laptop result ∈ e.events) : result = 1 ∨ laptop.adminId = -5 := by
  cases hs with
  | giveUp | tooFew =>
    cases List.mem_singleton.1 hev
    exact .inr rfl
  | record =>
    rcases List.mem_cons.1 hev with hev | hev
    · cases hev
      exact .inl rfl
    · cases List.mem_singleton.1 hev
  | _ => simp [LaptopPaxos.pickSlot, scoutConnect, commanderConnect] at hev

theorem Step.signed {c' : Cluster} {act : Action} (hc : Signed c.hist) (hst : Step D c act c') :
    Signed c'.hist := by
  intro i laptop result hl
  rcases hst.replica.mem_hist hl not_false (fun _ _ heq => by cases heq) with
    hold | ⟨j, env, e, -, hs, hev⟩
  · exact hc i laptop result hold
  · exact hs.signed hev

theorem signed_of_reachable (h : (cluster D).Reachable c) : Signed c.hist :=
  @reach_invariant D c _ (fun c => Signed c.hist) h (fun _ _ _ hl => absurd hl List.not_mem_nil)
    fun _ _ hc hst => hst.signed hc

end

namespace Net

/-- The Scouts send `int`s, make safe choices and finish the orders they work on. -/
def Sure (H : Hosts) : Net → NetAction → Prop :=
  OnScout fun _ f pc => pc.IntSized f ∧ f.SafeChoice H.acceptors pc ∧ f.FinishesOwn pc

instance (H : Hosts) (s : Net) (act : NetAction) : Decidable (Sure H s act) :=
  inferInstanceAs (Decidable (s.OnScout _ act))

section

variable {H : Hosts} {p : Polled}

/-- The cluster of such a run, and the log of its servers. -/
theorem exists_cluster_of_sure (hp : (polled H).ReachBy (fun p => Sure H p.1) p) :
    ∃ c L, (cluster H.toDeployment).Reachable c ∧ Acknowledging H.toDeployment c ∧
      Polls H p c ∧ LaptopPaxos.Logs H.toDeployment c L ∧ VoteLog H p L := by
  have hsim := simulation_polls H fun _ f pc => f.SafeChoice H.acceptors pc ∧ f.FinishesOwn pc
  obtain ⟨c, hc, hP⟩ := hsim.reach hp
  have hsafe : (cluster H.toDeployment).ReachBy
      (LaptopPaxos.OnScout (SafeChoice H.toDeployment)) c := by
    refine hc.mono fun _ _ => .mono fun _ _ _ hok => ?_
    exact safeChoice_iff.2 hok.1
  have hack : (cluster H.toDeployment).ReachBy (LaptopPaxos.OnScout FinishesOwn) c := by
    refine hc.mono fun _ _ => .mono fun _ _ _ hok => ?_
    exact finishesOwn_iff.2 hok.2
  obtain ⟨L, -, hL⟩ := (LaptopPaxos.simulation_log H.toDeployment).reach hsafe
  exact ⟨c, L, hc.reachable, acknowledging_of_reachBy hack, hP, hL, c, hsafe, hP, hL⟩

/-- If the Scouts finish the orders they work on, every order that is answered with a
    laptop, and not with the sign that there are too few acceptors, is in the log of the
    commands that a majority has accepted. -/
theorem answers_logged (hp : (polled H).ReachBy (fun p => Sure H p.1) p) :
    ∃ log, KeepsLog H p log ∧
      ∀ ℓ k l, p.1.conn ℓ = some k → .message (.laptopInfo l) ∈ k.down.sent → l.adminId ≠ -5 →
        ∃ v ∈ log, v.order = (l.customerId, l.orderNumber) := by
  obtain ⟨c, L, hc, hack, hP, hL, hvote⟩ := exists_cluster_of_sure hp
  have hlog := hvote.keepsLog hp.of_observe
  refine ⟨L.log, hlog, fun ℓ k l hk hl hid => ?_⟩
  obtain ⟨laptop, rfl, result, hret⟩ := hP.refines.reports.sent ℓ k l hk hl
  -- success, or the sign
  obtain rfl : result = 1 := by
    refine (signed_of_reachable hc _ _ _ hret).resolve_right fun hsign => hid ?_
    change narrowInt laptop.adminId = -5
    rw [hsign]
    decide
  obtain ⟨n, v, hv, hchosen⟩ := hack.returned _ _ hret
  have hmem := (hlog.mem v).2 (hP.hasMajority_iff.2 ⟨n, hchosen⟩)
  refine ⟨v, hmem, ?_⟩
  -- the order came in a message, so its numbers are `int`s
  obtain ⟨cl, i, -, x, -, -, hplaced, -⟩ := hlog.placed v hmem
  rw [hv] at hplaced
  obtain ⟨hcustomer, horder⟩ := Prod.ext_iff.1 hplaced
  rw [hv]
  refine Prod.ext ?_ ?_
  · change laptop.customerId = narrowInt laptop.customerId
    rw [show laptop.customerId = _ from hcustomer, narrowInt_eq_self (isInt_narrowInt _)]
  · change laptop.orderNumber = narrowInt laptop.orderNumber
    rw [show laptop.orderNumber = _ from horder, narrowInt_eq_self (isInt_narrowInt _)]

/-- Two servers have accepted the order that one of them has answered. -/
theorem answers_logged_one : ∃ (p : Polled) (log : List Command),
    KeepsLog TwoServers.hosts p log ∧ ∃ v ∈ log, v.order = (7, 0) := by
  have hinit : (polled TwoServers.hosts).ReachBy (fun p => Sure TwoServers.hosts p.1)
      (TwoServers.init, ∅) := .init ⟨TwoServers.init_mem, rfl⟩
  obtain ⟨p, hp, k, hk, hsent⟩ := hinit.exists_of_runBy
    (P := fun p => ∃ k ∈ p.1.conn (.customer 0 1),
      .message (.laptopInfo ⟨7, 0, 1, 0, 1⟩) ∈ k.down.sent)
    (TwoServers.run ++ [TwoServers.scout {}, TwoServers.customer {},
      TwoServers.customer (TwoServers.gives 20)]) (by decide +kernel)
  obtain ⟨log, hlog, hall⟩ := answers_logged hp
  exact ⟨p, log, hlog, hall _ k _ hk hsent (by decide)⟩

end

end Net

end LaptopPaxos
