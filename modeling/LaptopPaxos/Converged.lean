import LaptopPaxos.Recovered

/-!
# Servers that are up to date

A Commander sends what has been chosen to all the learners it can reach, and a stub that has
failed once is never used again. So a learner whose stub is still open has got every command
that this Commander has ever announced, or will get it (`Announces`): a server that is in
touch with all Commanders, and has read what they have sent to it, knows every decision of
every server, and two such servers have the same decisions and are equally far
(`Net.up_to_date`).
-/

namespace LaptopPaxos

open LaptopFactory

/-! ### Announcements -/

namespace Cluster

/-- The learner `b` has decided the slot of the command, or the command of the Commander of
    `i` is on its way to it, or it is the turn of `b` later in the loop. -/
def Gets (c : Cluster) (i b : ℤ) (v : Command) : Prop :=
  v.slot ∈ (c.factory b).decisionMap ∨ .learn v ∈ c.toLearner i b ∨
    ∃ laptop iter, c.scout i = .learn laptop v iter ∧ b ∈ iter

/-- All the learners that the Commander of `i` can still reach get the command. -/
def Announces (c : Cluster) (i : ℤ) (v : Command) : Prop :=
  (c.factory i).commanderLearnerStubInit = true ∧
    ∀ b, open? (c.factory i).commanderLearnerStub b → c.Gets i b v

end Cluster

/-- Every command that a Commander sends, or a server has decided, has been announced. -/
structure Announced (D : Deployment) (c : Cluster) : Prop where
  scout : ∀ i laptop v iter, c.scout i = .learn laptop v iter → i ∈ D.ids ∧ c.Announces i v
  wire : ∀ i a v, .learn v ∈ c.toLearner i a → ∃ j ∈ D.ids, c.Announces j v
  decided : ∀ a slot v, (c.factory a).decisionMap.find? slot = some v →
    ∃ j ∈ D.ids, c.Announces j v

section

variable {D : Deployment} {c c' : Cluster} {act : Action} {i j a b : ℤ} {v : Command}
  {f : LaptopFactory} {inbox : ℤ → List PaxosMsg} {env : Env} {pc : ScoutPc} {e : Effect}

/-! ### Steps -/

/-- The stubs of a Commander are connected once, and can only be lost from then on. -/
theorem ScoutStep.commander (hs : ScoutStep i f inbox env pc e)
    (hinit : f.commanderLearnerStubInit = true) :
    e.factory.commanderLearnerStubInit = true ∧
      ∀ b, open? e.factory.commanderLearnerStub b → open? f.commanderLearnerStub b := by
  cases hs with
  | connect =>
    rw [scoutConnect]
    split_ifs <;> exact ⟨hinit, fun _ hb => hb⟩
  | command =>
    rw [commanderConnect, if_pos hinit]
    exact ⟨hinit, fun _ hb => hb⟩
  | failP1a | failP2a | failLearn => exact ⟨hinit, fun _ hb => (open?_erase hb).2⟩
  | _ => exact ⟨hinit, fun _ hb => hb⟩

/-- In a turn of the loop, the learner is sent the command, or its stub is lost. -/
theorem ScoutStep.turn {laptop : LaptopInfo} {iter : List ℤ}
    (hs : ScoutStep i f inbox env (.learn laptop v iter) e) (hb : b ∈ iter)
    (hopen : open? e.factory.commanderLearnerStub b) :
    e.toLearner = some (b, .learn v) ∨ ∃ iter', e.pc = .learn laptop v iter' ∧ b ∈ iter' := by
  cases hs with
  | @sendLearn _ _ a iter =>
    rcases List.mem_cons.1 hb with rfl | hb
    · exact .inl rfl
    · exact .inr ⟨iter, rfl, hb⟩
  | @failLearn _ _ a iter =>
    obtain ⟨hne, -⟩ := open?_erase hopen
    exact .inr ⟨iter, rfl, (List.mem_cons.1 hb).resolve_left hne⟩
  | endLearn => exact absurd hb List.not_mem_nil

/-- A loop begins with all the learners that can be reached. -/
theorem ScoutStep.begin {laptop : LaptopInfo} {iter : List ℤ}
    (hs : ScoutStep i f inbox env pc e) (hpc : e.pc = .learn laptop v iter) :
    (∃ iter', pc = .learn laptop v iter') ∨ e.factory.commanderLearnerStubInit = true ∧
      ∀ b, open? e.factory.commanderLearnerStub b → b ∈ iter := by
  cases hs with
  | sendLearn | failLearn =>
    cases hpc
    exact .inl ⟨_, rfl⟩
  | command =>
    rw [commanderConnect] at hpc ⊢
    cases hpc
    refine .inr ⟨?_, fun b hb => StdMap.mem_keys.2 (mem_of_open? hb)⟩
    split_ifs with hinit
    · exact hinit
    · rfl
  | _ => cases hpc

/-- Only the loop sends to the learners. -/
theorem ScoutStep.announcing {m : PaxosMsg} (hs : ScoutStep i f inbox env pc e)
    (hm : e.toLearner = some (a, m)) : ∃ laptop v iter, pc = .learn laptop v iter ∧ m = .learn v := by
  cases hs with
  | sendLearn =>
    cases hm
    exact ⟨_, _, _, rfl, rfl⟩
  | connect => rw [scoutConnect] at hm; cases hm
  | command => rw [commanderConnect] at hm; cases hm
  | _ => cases hm

theorem PaxosMsg.learn_injective : Function.Injective PaxosMsg.learn :=
  Function.LeftInverse.injective getCommand_learn

theorem Wires.mem_push_of_mem {w : Wires} {o : Option (ℤ × PaxosMsg)} {m : PaxosMsg}
    (h : m ∈ w j b) : m ∈ w.push i o j b := by
  cases o with
  | none => exact h
  | some p =>
    rw [push, set_apply]
    split_ifs with heq
    · obtain ⟨rfl, rfl⟩ := heq
      exact List.mem_append_left _ h
    · exact h

namespace Cluster

theorem decisionMap_applyEffect (hs : ScoutStep i (c.factory i) (c.toScout i) env (c.scout i) e)
    (b : ℤ) : ((c.applyEffect i e).factory b).decisionMap = (c.factory b).decisionMap := by
  rw [factory_applyEffect]
  split_ifs with hb
  · subst hb
    exact hs.frame.2.1.decisionMap
  · rfl

theorem Announces.applyEffect (h : c.Announces j v)
    (hs : ScoutStep i (c.factory i) (c.toScout i) env (c.scout i) e) :
    (c.applyEffect i e).Announces j v := by
  obtain ⟨hinit, hgets⟩ := h
  have hstill : ∀ {b}, v.slot ∈ (c.factory b).decisionMap ∨ .learn v ∈ c.toLearner j b →
      (c.applyEffect i e).Gets j b v := by
    rintro b (hdec | hmem)
    · exact .inl ((decisionMap_applyEffect hs b).symm ▸ hdec)
    · exact .inr (.inl (Wires.mem_push_of_mem hmem))
  by_cases hj : j = i
  · subst hj
    obtain ⟨hinit', hshrinks⟩ := hs.commander hinit
    rw [Announces, factory_applyEffect, if_pos rfl]
    refine ⟨hinit', fun b hb => ?_⟩
    rcases hgets b (hshrinks b hb) with hdec | hmem | ⟨laptop, iter, hpc, hmem⟩
    · exact hstill (.inl hdec)
    · exact hstill (.inr hmem)
    · rw [hpc] at hs
      rcases hs.turn hmem hb with hsend | ⟨iter', hpc', hmem'⟩
      · refine .inr (.inl ?_)
        rw [toLearner_applyEffect, hsend, Wires.push, Wires.set_apply, if_pos ⟨rfl, rfl⟩]
        exact List.mem_append_right _ (List.mem_singleton_self _)
      · refine .inr (.inr ⟨laptop, iter', ?_, hmem'⟩)
        rw [scout_applyEffect, if_pos rfl]
        exact hpc'
  · rw [Announces, factory_applyEffect, if_neg hj]
    refine ⟨hinit, fun b hb => ?_⟩
    rcases hgets b hb with hdec | hmem | hturn
    · exact hstill (.inl hdec)
    · exact hstill (.inr hmem)
    · refine .inr (.inr ?_)
      rw [scout_applyEffect, if_neg hj]
      exact hturn

/-- An engineer does not touch the stubs, and takes a command off the wire by deciding it. -/
theorem Announces.engineer (h : c.Announces i v)
    (hstubs : ∀ j, SameStubs (c.factory j) (c'.factory j)) (hscout : ∀ j, c'.scout j = c.scout j)
    (hmap : ∀ b, ∀ slot ∈ (c.factory b).decisionMap, slot ∈ (c'.factory b).decisionMap)
    (hwire : ∀ b, .learn v ∈ c.toLearner i b →
      .learn v ∈ c'.toLearner i b ∨ v.slot ∈ (c'.factory b).decisionMap) : c'.Announces i v := by
  obtain ⟨hinit, hgets⟩ := h
  refine ⟨(hstubs i).commanderInit.trans hinit, fun b hb => ?_⟩
  rw [(hstubs i).commander] at hb
  rcases hgets b hb with hdec | hmem | hturn
  · exact .inl (hmap b _ hdec)
  · rcases hwire b hmem with hmem | hdec
    · exact .inr (.inl hmem)
    · exact .inl hdec
  · refine .inr (.inr ?_)
    rw [hscout]
    exact hturn

end Cluster

theorem announced_init (D : Deployment) : Announced D (Cluster.init D) where
  scout _ _ _ _ hpc := by cases hpc
  wire _ _ _ hmem := absurd hmem List.not_mem_nil
  decided a slot v hv := by
    obtain ⟨m, s, hf, -⟩ := D.factory_eq a
    change (D.factory a).decisionMap.find? slot = some v at hv
    rw [hf] at hv
    exact absurd (StdMap.mem_of_find? hv) (StdMap.not_mem_empty _)

theorem Announced.applyEffect (h : Announced D c) (hi : i ∈ D.ids)
    (hs : ScoutStep i (c.factory i) (c.toScout i) env (c.scout i) e) :
    Announced D (c.applyEffect i e) where
  scout j laptop v iter hpc := by
    rw [Cluster.scout_applyEffect] at hpc
    split_ifs at hpc with hj
    · subst hj
      rcases hs.begin hpc with ⟨iter', hold⟩ | ⟨hinit, hall⟩
      · exact ⟨hi, (h.scout j laptop v iter' hold).2.applyEffect hs⟩
      · rw [Cluster.Announces, Cluster.factory_applyEffect, if_pos rfl]
        refine ⟨hi, hinit, fun b hb => .inr (.inr ⟨laptop, iter, ?_, hall b hb⟩)⟩
        rw [Cluster.scout_applyEffect, if_pos rfl]
        exact hpc
    · exact (h.scout j laptop v iter hpc).imp_right fun hj => hj.applyEffect hs
  wire j a v hmem := by
    rcases Wires.mem_push hmem with hold | ⟨rfl, hsend⟩
    · obtain ⟨j', hj', hann⟩ := h.wire j a v hold
      exact ⟨j', hj', hann.applyEffect hs⟩
    · obtain ⟨laptop, v', iter, hpc, heq⟩ := hs.announcing hsend
      obtain rfl : v = v' := PaxosMsg.learn_injective heq
      exact ⟨j, hi, (h.scout j laptop v iter hpc).2.applyEffect hs⟩
  decided a slot v hv := by
    rw [Cluster.decisionMap_applyEffect hs] at hv
    obtain ⟨j, hj, hann⟩ := h.decided a slot v hv
    exact ⟨j, hj, hann.applyEffect hs⟩

theorem Announced.engineer (h : Announced D c)
    (hstubs : ∀ j, SameStubs (c.factory j) (c'.factory j)) (hscout : ∀ j, c'.scout j = c.scout j)
    (hmap : ∀ b, ∀ slot ∈ (c.factory b).decisionMap, slot ∈ (c'.factory b).decisionMap)
    (hwire : ∀ i b v, .learn v ∈ c.toLearner i b →
      .learn v ∈ c'.toLearner i b ∨ v.slot ∈ (c'.factory b).decisionMap)
    (hwire' : ∀ i b v, .learn v ∈ c'.toLearner i b → .learn v ∈ c.toLearner i b)
    (hdecided : ∀ b slot v, (c'.factory b).decisionMap.find? slot = some v →
      (c.factory b).decisionMap.find? slot = some v ∨ ∃ i, .learn v ∈ c.toLearner i b) :
    Announced D c' := by
  have hkeep : ∀ {j v}, c.Announces j v → c'.Announces j v :=
    fun hj => hj.engineer hstubs hscout hmap fun b => hwire _ b _
  refine ⟨fun i laptop v iter hpc => (h.scout i laptop v iter (hscout i ▸ hpc)).imp_right hkeep,
    fun i a v hmem => ?_, fun a slot v hv => ?_⟩
  · obtain ⟨j, hj, hann⟩ := h.wire i a v (hwire' i a v hmem)
    exact ⟨j, hj, hkeep hann⟩
  · rcases hdecided a slot v hv with hold | ⟨i, hmem⟩
    · obtain ⟨j, hj, hann⟩ := h.decided a slot v hold
      exact ⟨j, hj, hkeep hann⟩
    · obtain ⟨j, hj, hann⟩ := h.wire i a v hmem
      exact ⟨j, hj, hkeep hann⟩

/-- Only the Scouts touch the stubs. -/
theorem Step.stubs (h : Step D c act c') (hact : ∀ i env, act ≠ .scout i env) (j : ℤ) :
    SameStubs (c.factory j) (c'.factory j) := by
  cases h with
  | scout => exact absurd rfl (hact _ _)
  | request =>
    rw [Cluster.factory_requestMsg]
    split_ifs with hj
    · exact hj ▸ customerEngineer_stubs _ _ _
    · exact .refl _
  | backup _ hf =>
    rw [Cluster.factory_backupMsg]
    split_ifs with hj
    · exact hj ▸ backupEngineer_stubs hf
    · exact .refl _
  | acceptor =>
    rw [Cluster.factory_acceptMsg]
    split_ifs with hj
    · exact hj ▸ acceptorEngineer_stubs _ _
    · exact .refl _
  | learner =>
    rw [Cluster.factory_learnMsg]
    split_ifs with hj
    · exact hj ▸ learnerEngineer_stubs _ _
    · exact .refl _
  | crash =>
    rw [Cluster.factory_crash]
    exact .refl _

theorem Announced.quiet (h : Announced D c) (hq : Quiet c c')
    (hstubs : ∀ j, SameStubs (c.factory j) (c'.factory j)) : Announced D c' := by
  have hmap := fun b => (hq.sameReplica b).decisionMap
  refine h.engineer hstubs hq.scout (fun b slot hslot => (hmap b).symm ▸ hslot)
    (fun i b v hmem => .inl (hq.toLearner.symm ▸ hmem)) (fun i b v hmem => hq.toLearner ▸ hmem)
    fun b slot v hv => .inl ?_
  rw [← hmap]
  exact hv

theorem Announced.step (hr : (cluster D).Reachable c) (h : Announced D c)
    (hst : Step D c act c') : Announced D c' := by
  by_cases hact : ∃ i env, act = .scout i env
  · obtain ⟨i, env, rfl⟩ := hact
    cases hst with
    | scout hi hs => exact h.applyEffect hi hs
  · have hstubs := hst.stubs fun i env heq => hact ⟨i, env, heq⟩
    cases hst.replica with
    | quiet hq => exact h.quiet hq hstubs
    | scout => exact absurd ⟨_, _, rfl⟩ hact
    | @learner a i msg rest ha hmsg =>
      obtain ⟨w, m, rfl, -⟩ :=
        (deciding_of_reachable hr).toLearner i a msg (hmsg ▸ List.mem_cons_self)
      have hmap : ∀ b, ((c.learnMsg a i (.learn w) rest).factory b).decisionMap =
          if b = a then (c.factory a).decisionMap.insert w.slot w
          else (c.factory b).decisionMap := by
        intro b
        rw [Cluster.factory_learnMsg]
        split_ifs
        · rw [learnerEngineer_learn, learn_decisionMap]
        · rfl
      refine h.engineer hstubs (Cluster.scout_learnMsg a i _ rest) (fun b slot hslot => ?_)
        (fun j b v hmem => ?_) (fun j b v hmem => ?_) fun b slot v hv => ?_
      · rw [hmap]
        split_ifs with hb
        · exact StdMap.mem_insert.2 (.inr (hb ▸ hslot))
        · exact hslot
      · rw [Cluster.toLearner_learnMsg, Wires.set_apply]
        split_ifs with hb
        · obtain ⟨rfl, rfl⟩ := hb
          rw [hmsg] at hmem
          rcases List.mem_cons.1 hmem with heq | hmem
          · obtain rfl : v = w := PaxosMsg.learn_injective heq
            rw [hmap, if_pos rfl]
            exact .inr (StdMap.mem_insert.2 (.inl rfl))
          · exact .inl hmem
        · exact .inl hmem
      · rw [Cluster.toLearner_learnMsg, Wires.set_apply] at hmem
        split_ifs at hmem with hb
        · obtain ⟨rfl, rfl⟩ := hb
          rw [hmsg]
          exact List.mem_cons_of_mem _ hmem
        · exact hmem
      · rw [hmap] at hv
        split_ifs at hv with hb
        · subst hb
          rw [StdMap.find?_insert] at hv
          split_ifs at hv with hslot
          · cases hv
            exact .inr ⟨i, hmsg ▸ List.mem_cons_self⟩
          · exact .inl hv
        · exact .inl hv

theorem announced_of_reachable (h : (cluster D).Reachable c) : Announced D c :=
  reach_invariant h (announced_init D) fun hr _ hc hst => hc.step hr hst

end

/-! ### On the network -/

/-- The Commander of the Scout is in its loop. -/
def ScoutPc.announcing : ScoutPc → Bool
  | .learn .. => true
  | _ => false

namespace Net

/-- The learner `a` has read everything that the Commander of `i` has sent to it, and neither
    end of the connection is closed. -/
def InTouch (s : Net) (i a : ℤ) : Prop :=
  s.isOpen (.learner i a) = true ∧ ∃ k ∈ s.conn (.learner i a),
    k.engineer.isInitialized = true ∧ k.up.pending = []

instance (s : Net) (i a : ℤ) : Decidable (s.InTouch i a) :=
  inferInstanceAs (Decidable (_ ∧ ∃ k ∈ s.conn _, _ ∧ _))

/-- The server `a` has read everything from all the Commanders that have begun. -/
def UpToDate (H : Hosts) (s : Net) (a : ℤ) : Prop :=
  ∀ i ∈ H.ids, (s.node i).factory.commanderLearnerStubInit = true → s.InTouch i a

instance (H : Hosts) (s : Net) (a : ℤ) : Decidable (s.UpToDate H a) :=
  inferInstanceAs (Decidable (∀ i ∈ H.ids, _ → _))

section

variable {H : Hosts} {s : Net} {c : Cluster} {i a : ℤ} {v : Command}

/-- Nothing is on its way to a learner that has read everything. -/
theorem InTouch.toLearner (h : s.InTouch i a) (hR : s.Refines H c) : c.toLearner i a = [] := by
  obtain ⟨hopen, k, hk, hinit, hpending⟩ := h
  obtain ⟨ps, ⟨lost, rest, hps, -, -, -⟩, hq⟩ :=
    ((hR.wires i (.learner a) _ rfl).conveys k hk).up hinit
  obtain ⟨rfl, -⟩ := List.append_eq_nil_iff.1 (hps.symm.trans hpending)
  exact hq.symm

/-- A server that is up to date has decided every slot that has been announced. -/
theorem UpToDate.decided (h : s.UpToDate H a) (hR : s.Refines H c)
    (hloop : ∀ i ∈ H.ids, (s.node i).scout.announcing = false)
    (hi : i ∈ H.ids) (hv : c.Announces i v) : v.slot ∈ (s.node a).factory.decisionMap := by
  obtain ⟨hinit, hgets⟩ := hv
  rw [hR.factory] at hinit
  have htouch := h i hi hinit
  have hopen : open? (c.factory i).commanderLearnerStub a := by
    rw [hR.factory]
    exact of_decide_eq_true htouch.1
  rcases hgets a hopen with hdec | hmem | ⟨laptop, iter, hpc, -⟩
  · rw [← hR.factory]
    exact hdec
  · rw [htouch.toLearner hR] at hmem
    exact absurd hmem List.not_mem_nil
  · rw [hR.scout] at hpc
    have hfalse := hloop i hi
    rw [hpc] at hfalse
    cases hfalse

/-- The commit cursor is the first slot without a decision. -/
theorem slotOut_le (hs : (network H).ReachBy (Safe H) s) {b : ℤ}
    (h : (s.node a).factory.decisionMap = (s.node b).factory.decisionMap) :
    (s.node a).factory.slotOut ≤ (s.node b).factory.slotOut := by
  obtain ⟨_, ha⟩ := durable_of_reachBy hs a
  obtain ⟨_, hb⟩ := durable_of_reachBy hs b
  by_contra! hlt
  have hone := hb.count
  exact hb.free (h ▸ ha.below _ (by omega) hlt)

/-- In every run of safe choices, while no Commander is in its loop, a server that is up to
    date has the decisions of all servers, and any two such servers have the same decisions
    and the same commit cursor. -/
theorem up_to_date (hs : (network H).ReachBy (Safe H) s)
    (hloop : ∀ i ∈ H.ids, (s.node i).scout.announcing = false)
    (ha : s.UpToDate H a) :
    (∀ j slot v, (s.node j).factory.decisionMap.find? slot = some v →
        (s.node a).factory.decisionMap.find? slot = some v) ∧
      ∀ b, s.UpToDate H b → (s.node a).factory.decisionMap = (s.node b).factory.decisionMap ∧
        (s.node a).factory.slotOut = (s.node b).factory.slotOut := by
  obtain ⟨L, -, c, hc, hR, hL⟩ := (simulation_log H).reach hs
  have hlog : s.Decides L.log := Logs.decides ⟨c, hc, hR, hL⟩
  have hann := announced_of_reachable hc.reachable
  have hall : ∀ {b}, s.UpToDate H b → ∀ j slot v,
      (s.node j).factory.decisionMap.find? slot = some v →
        (s.node b).factory.decisionMap.find? slot = some v := by
    intro b hb j slot v hv
    have hv' := hv
    rw [← hR.factory] at hv'
    obtain ⟨i, hi, hv''⟩ := hann.decided j slot v hv'
    obtain ⟨rfl, -⟩ := (deciding_of_reachable hc.reachable).decided j slot v hv'
    obtain ⟨w, hw⟩ := StdMap.exists_find? (hb.decided hR hloop hi hv'')
    -- the log has one command for the slot
    obtain ⟨n, hn, hget⟩ := hlog j v.slot v hv
    obtain ⟨m, hm, hget'⟩ := hlog b v.slot w hw
    obtain rfl : n = m := by omega
    obtain rfl : v = w := Option.some.inj (hget.symm.trans hget')
    exact hw
  refine ⟨hall ha, fun b hb => ?_⟩
  have heq : (s.node a).factory.decisionMap = (s.node b).factory.decisionMap := by
    refine StdMap.ext_find? fun slot => ?_
    refine Option.ext fun v => ⟨hall hb a slot v, hall ha b slot v⟩
  exact ⟨heq, le_antisymm (slotOut_le hs heq) (slotOut_le hs heq.symm)⟩

end

theorem up_to_date_two : ∃ s : Net,
    (s.node 1).factory.decisionMap.find? 1 = some TwoServers.cmd ∧
    (s.node 1).factory.decisionMap = (s.node 2).factory.decisionMap := by
  have hinit : (network TwoServers.hosts).ReachBy (Safe TwoServers.hosts) TwoServers.init :=
    .init TwoServers.init_mem
  obtain ⟨s, hs, hdec, hloop, h₁, h₂⟩ := hinit.exists_of_runBy
    (P := fun s => (s.node 1).factory.decisionMap.find? 1 = some TwoServers.cmd ∧
      (∀ i ∈ TwoServers.hosts.ids, (s.node i).scout.announcing = false) ∧
      s.UpToDate TwoServers.hosts 1 ∧ s.UpToDate TwoServers.hosts 2) TwoServers.run
    (by decide +kernel)
  exact ⟨s, hdec, ((up_to_date hs hloop h₁).2 2 h₂).1⟩

end Net

end LaptopPaxos
