import LaptopPaxos.Accepted
import LaptopPaxos.Delivery
import LaptopPaxos.Lib.Simulation

/-!
# The desk of a server

On the network every server does what its queue and its threads do on their own
(`Net.refines_desk`): an engineer that decodes an order is called and pushes it, and the
promise that it waits for is the one that the Scout sets. So what is shown of one server
(`Delivering`) holds of each server of the network, with any clients and whatever becomes
of the connections.

The desk knows the engineers by their ids: that no two engineers of a server have one is
`Net.Distinct`.
-/

namespace LaptopPaxos

open LaptopFactory

/-- The request that the engineer has received last. -/
def Conn.Last (k : Conn) (q : CustomerRequest) : Prop :=
  k.up.decoded.getLast? = some (some (.message (.customerRequest q)))

/-- Outside of `CreateRegularLaptop`. -/
def EngineerPc.Out (pc : EngineerPc) : Prop := pc = .away ∨ ∃ order laptop, pc = .back order laptop

/-- The engineer of the connection is at `pc` on the desk of its server. -/
def Conn.OnDesk (k : Conn) (pc : EngineerPc) : Prop :=
  match k.engineer.pc with
  | .order => ∃ q, pc = .wait q ∧ k.Last q
  | .laptop laptop => ∃ q, pc = .back q laptop ∧ k.Last q
  | _ => pc.Out

/-- The engineers of the server `i` are at `pcs`. -/
structure Net.Seated (i : ℤ) (s : Net) (pcs : ℤ → EngineerPc) : Prop where
  engineer : ∀ ℓ k, s.conn ℓ = some k → k.server = i → k.OnDesk (pcs k.id)
  away : ∀ e : ℤ, s.accepted i ≤ e → pcs e = .away

/-- The server `i` is in the state `d`. -/
structure Net.AtDesk (i : ℤ) (s : Net) (d : Desk) : Prop where
  factory : d.factory = (s.node i).factory
  fut : d.fut = (s.node i).fut
  turn : d.turn = .head ∧ (s.node i).scout = .idle ∨ ∃ req, d.turn = .scout req (s.node i).scout
  seated : s.Seated i d.engineer

section

variable {H : Hosts} {s s' : Net} {i e : ℤ} {d d' : Desk} {ℓ : Link} {k k' : Conn}
  {f : LaptopFactory} {p : Parcel} {pcs pcs' : ℤ → EngineerPc} {role : Role} {o o' : ByteOrder}
  {r : EngineerEffect}

/-! ### Engineers -/

theorem Conn.SameEngineer.onDesk {pc : EngineerPc} (h : k.SameEngineer k') (hk : k.OnDesk pc) :
    k'.OnDesk pc := by
  rw [OnDesk, h.engineer]
  simpa only [OnDesk, Last, h.decoded] using hk

/-- An engineer that does not wait for a promise is out. -/
theorem Conn.OnDesk.out {pc : EngineerPc} (h : k.OnDesk pc) (hne : k.engineer.pc ≠ .order) :
    pc.Out := by
  rw [OnDesk] at h
  split at h
  · next hpc => exact absurd hpc hne
  · obtain ⟨q, rfl, -⟩ := h
    exact .inr ⟨_, _, rfl⟩
  · exact h

theorem Conn.onDesk_of_out {pc : EngineerPc} (h : pc.Out) (hne : k.engineer.pc ≠ .order)
    (hlaptop : ∀ l, k.engineer.pc ≠ .laptop l) : k.OnDesk pc := by
  rw [OnDesk]
  split
  · next hpc => exact absurd hpc hne
  · next hpc => exact absurd hpc (hlaptop _)
  · exact h

/-- A step of a Scout or of a client. -/
theorem Net.Seated.of_stems {dial : ℤ → Link} (h : s.Seated i pcs)
    (hle : ∀ j, s.accepted j ≤ s'.accepted j)
    (hstems : ∀ ℓ k', s'.conn ℓ = some k' → s.Stems dial s' ℓ k') : s'.Seated i pcs := by
  refine ⟨fun ℓ k' hk' hserver => ?_, fun e he => h.away e ?_⟩
  · cases hstems ℓ k' hk' with
    | old hk hsame =>
      rw [hsame.id]
      exact hsame.onDesk (h.engineer ℓ _ hk (hsame.server.symm.trans hserver))
    | @new j _ hsame _ =>
      obtain rfl : j = i := hsame.server.symm.trans hserver
      refine Conn.onDesk_of_out (.inl (h.away _ hsame.id.ge)) ?_ ?_ <;> rw [hsame.engineer]
      · exact SessionPc.noConfusion
      · exact fun _ => SessionPc.noConfusion
  · have hlt := hle i
    omega

/-- A step of the engineer of the connection `k`. -/
theorem Net.Seated.step (h : s.Seated i pcs) (hd : s.Distinct) (hk : s.conn ℓ = some k)
    (hk' : s'.conn ℓ = some k') (hid : k'.id = k.id)
    (hothers : ∀ ℓ', ℓ' ≠ ℓ → s'.conn ℓ' = s.conn ℓ') (hacc : s'.accepted = s.accepted)
    (hpc : k'.server = i → k'.OnDesk (pcs' k.id))
    (hpcs : ∀ e, pcs' e ≠ pcs e → k.server = i ∧ e = k.id) : s'.Seated i pcs' := by
  refine ⟨fun ℓ' k₁ hk₁ hserver => ?_, fun e he => ?_⟩
  · by_cases hℓ : ℓ' = ℓ
    · subst hℓ
      cases hk'.symm.trans hk₁
      rw [hid]
      exact hpc hserver
    · rw [hothers ℓ' hℓ] at hk₁
      have hsame : pcs' k₁.id = pcs k₁.id := by
        by_contra hne
        obtain ⟨hi, heq⟩ := hpcs _ hne
        exact hℓ (hd.inj ℓ' ℓ k₁ k hk₁ hk (hserver.trans hi.symm) heq)
      rw [hsame]
      exact h.engineer ℓ' k₁ hk₁ hserver
  · rw [hacc] at he
    have hsame : pcs' e = pcs e := by
      by_contra hne
      obtain ⟨rfl, rfl⟩ := hpcs e hne
      have hlt := hd.lt ℓ k hk
      omega
    rw [hsame]
    exact h.away e he

/-- What a step of an engineer is on the desk. -/
structure DeskMove (i : ℤ) (d : Desk) (k' : Conn) (r : EngineerEffect) (d' : Desk) : Prop where
  steps : (desk i).StepsBy (fun _ _ => True) d d'
  factory : d'.factory = r.factory
  fut : d'.fut = if r.engineer.pc = .order then Function.update d.fut k'.id none else d.fut
  turn : d'.turn = d.turn
  onDesk : k'.OnDesk (d'.engineer k'.id)
  others : ∀ e, e ≠ k'.id → d'.engineer e = d.engineer e

/-- An engineer that does nothing on the desk. -/
theorem DeskMove.stutter (hfac : d.factory = r.factory) (hr : k'.engineer = r.engineer)
    (hout : (d.engineer k'.id).Out) (hne : r.engineer.pc ≠ .order)
    (hlaptop : ∀ l, r.engineer.pc ≠ .laptop l) : DeskMove i d k' r d :=
  ⟨.refl, hfac, (if_neg hne).symm, rfl, Conn.onDesk_of_out hout (hr ▸ hne) (hr ▸ hlaptop),
    fun _ _ => rfl⟩

/-- An engineer of an acceptor or a learner. -/
theorem DeskMove.of_factory {a : DeskAction} (hst : d.step i a = some { d with factory := f })
    (hfac : f = r.factory) (hr : k'.engineer = r.engineer) (hout : (d.engineer k'.id).Out)
    (hfree : r.engineer.pc.Free) : DeskMove i d k' r { d with factory := f } := by
  obtain ⟨hne, hlaptop⟩ := hfree.ne
  exact ⟨.single (a := a) trivial hst, hfac, (if_neg hne).symm, rfl,
    Conn.onDesk_of_out hout (hr ▸ hne) (hr ▸ hlaptop), fun _ _ => rfl⟩

/-- An order is pushed by the engineer that has decoded it. -/
theorem DeskMove.order {q : CustomerRequest} (hout : (d.engineer k'.id).Out)
    (hturn : d.turn ≠ .asleep) (hfac : r.factory = d.factory.createRegularLaptop q k'.id)
    (hr : k'.engineer = r.engineer) (hpc : r.engineer.pc = .order) (hlast : k'.Last q) :
    ∃ d', DeskMove i d k' r d' := by
  let called := (d.setEngineer k'.id (.push q)).setFut k'.id none
  have hcall : d.step i (.call k'.id q) = some called := by
    rcases hout with h | ⟨o, l, h⟩ <;> rw [Desk.step, h]
  let pushed : Desk := { called.setEngineer k'.id (.wait q) with
    factory := d.factory.createRegularLaptop q k'.id
    turn := if d.turn = .asleep then .head else d.turn
    pushed := d.pushed ++ [clientRequest q k'.id] }
  have hat : called.engineer k'.id = .push q := Function.update_self ..
  have hpush : called.step i (.push k'.id) = some pushed := by
    rw [Desk.step, hat]
    rfl
  refine ⟨pushed, (Machine.StepsBy.single (a := .call k'.id q) trivial hcall).trans
    (Machine.StepsBy.single (a := .push k'.id) trivial hpush), hfac.symm, (if_pos hpc).symm, if_neg hturn, ?_,
    fun e he => ?_⟩
  · rw [Conn.OnDesk, hr, hpc]
    exact ⟨q, Function.update_self .., hlast⟩
  · change Function.update (Function.update d.engineer k'.id _) k'.id _ e = _
    rw [Function.update_of_ne he, Function.update_of_ne he]

/-- A step of an engineer is one of the desk, or none. -/
theorem EngineerMove.desk {fut : Option LaptopInfo}
    (h : EngineerMove o o' role k.id d.factory fut k r k') (hfut : d.fut k.id = fut)
    (hturn : d.turn ≠ .asleep) (hk : k.OnDesk (d.engineer k.id)) :
    ∃ d', DeskMove i d k' r d' := by
  cases h with
  | @send p t hp hfac _ _ heng =>
    have hne : k.engineer.pc ≠ .order := fun hpc => by rw [hpc] at hp; cases hp
    refine ⟨d, .stutter hfac.symm rfl (hk.out hne) ?_ ?_⟩ <;> rw [heng]
    · cases hpc : k.engineer.pc <;> rw [hpc] at hp <;> cases hp <;> exact SessionPc.noConfusion
    · cases hpc : k.engineer.pc <;> rw [hpc] at hp <;> cases hp <;>
        exact fun _ => SessionPc.noConfusion
  | @handle p _ _ _ hup hkind hfac heng =>
    have hout : (d.engineer k.id).Out :=
      hk.out fun hpc => by rw [hpc] at hkind; cases hkind
    have hcases := handle_cases (e := k.id) (f := d.factory) hup.not_logRequest hkind
    have hpc : r.engineer.pc = (LaptopPaxos.handle k.id d.factory k.engineer.pc p).2 :=
      congrArg _ heng
    generalize LaptopPaxos.handle k.id d.factory k.engineer.pc p = x at hcases hfac hpc
    cases hcases with
    | order hq =>
      subst hq
      exact DeskMove.order hout hturn hfac rfl hpc (List.getLast?_concat)
    | record hq =>
      refine ⟨d, .stutter hfac.symm rfl hout ?_ ?_⟩ <;> rw [hpc]
      · exact SessionPc.noConfusion
      · exact fun _ => SessionPc.noConfusion
    | @acceptor m pc hfree =>
      exact ⟨_, .of_factory (a := .acceptor m) rfl hfac.symm rfl hout (hpc ▸ hfree)⟩
    | @learner m pc hfree =>
      exact ⟨_, .of_factory (a := .learner m) rfl hfac.symm rfl hout (hpc ▸ hfree)⟩
    | free hfree =>
      obtain ⟨hne, hlaptop⟩ := hfree.ne
      exact ⟨d, .stutter hfac.symm rfl hout (hpc ▸ hne) (hpc ▸ hlaptop)⟩
  | fail hfac heng hkind =>
    have hout := hk.out fun hpc => by rw [hpc] at hkind; cases hkind
    refine ⟨d, .stutter hfac.symm rfl hout ?_ ?_⟩ <;> rw [heng]
    · exact SessionPc.noConfusion
    · exact fun _ => SessionPc.noConfusion
  | @wake laptop hpc hval hfac heng =>
    rw [Conn.OnDesk, hpc] at hk
    obtain ⟨q, hwait, hlast⟩ := hk
    have hget : d.step i (.get k.id) = some (d.setEngineer k.id (.back q laptop)) := by
      rw [Desk.step, hwait, hfut, hval]
    refine ⟨_, .single (a := .get k.id) trivial hget, hfac.symm, ?_, rfl, ?_,
      fun e he => Function.update_of_ne he ..⟩
    · rw [heng]
      exact (if_neg SessionPc.noConfusion).symm
    · rw [Conn.OnDesk, heng]
      exact ⟨q, Function.update_self .., hlast⟩
  | leave hpc hfac heng =>
    have hout := hk.out fun heq => by rw [hpc] at heq; cases heq
    refine ⟨d, .stutter hfac.symm rfl hout ?_ ?_⟩ <;> rw [heng]
    · exact SessionPc.noConfusion
    · exact fun _ => SessionPc.noConfusion

/-- When a promise is set, it is the one of the engineer that has made the request, and it
    has no value. -/
theorem Delivering.setting {req : ClientRequest} {laptop : LaptopInfo} (h : Delivering i d)
    (hturn : d.turn = .setValue req laptop) :
    laptop.engineerId = req.prom ∧ d.fut req.prom = none := by
  have hmem : req ∈ d.own req.prom := by
    refine List.mem_filter.2 ⟨?_, decide_eq_true rfl⟩
    rw [Desk.pending, hturn]
    exact List.mem_cons_self
  obtain ⟨order, -, hown, hnone⟩ := (h.engineer req.prom).of_mem hmem
  rw [hown, List.mem_singleton] at hmem
  obtain ⟨adminId, -, rfl⟩ := h.setValue req laptop hturn
  exact ⟨congrArg (fun req => req.laptop.engineerId) hmem, hnone⟩

namespace Net

theorem AtDesk.engineer {answers : Answers} (h : s.AtDesk i d) (hdist : s.Distinct)
    (hreg : s.Regular H) (hk : s.conn ℓ = some k)
    (hst : EngineerStep (H.order k.server) k.id (s.node k.server).factory
      ((s.node k.server).fut k.id) answers k.engineer r)
    (hu : ∀ u ∈ k.engineer.pc.use (s.node k.server).factory r.transfer,
      u.Allowed k.engineer.isInitialized k.up.flight) :
    ∃ d', (desk i).StepsBy (fun _ _ => True) d d' ∧ (s.applyEngineer H ℓ k r).AtDesk i d' := by
  have hothers : ∀ ℓ', ℓ' ≠ ℓ → (s.applyEngineer H ℓ k r).conn ℓ' = s.conn ℓ' :=
    fun _ => conn_applyEngineer_of_ne
  have hmove := hst.move (hreg.heard hk) hu
  have hk' : (s.applyEngineer H ℓ k r).conn ℓ = some _ := conn_applyEngineer_self
  generalize ({ k.useEngineer (H.order k.server)
    (k.engineer.pc.use (s.node k.server).factory r.transfer) with engineer := r.engineer } : Conn) =
    k' at hmove hk'
  have hsame : k'.server = k.server ∧ k'.id = k.id := by cases hmove <;> exact ⟨rfl, rfl⟩
  by_cases hi : k.server = i
  · subst hi
    have hturn : d.turn ≠ .asleep := by
      rcases h.turn with ⟨hturn, -⟩ | ⟨req, hturn⟩ <;> rw [hturn] <;> exact Turn.noConfusion
    rw [← h.factory, ← h.fut] at hmove
    obtain ⟨d', hd'⟩ := hmove.desk (i := k.server) rfl hturn (h.seated.engineer ℓ k hk rfl)
    obtain ⟨hsteps, hfac, hfut, hturn', hon, hrest⟩ := hd'
    rw [hsame.2] at hfut hon hrest
    refine ⟨d', hsteps, ?_, ?_, ?_, h.seated.step hdist hk hk' hsame.2 hothers rfl
      (fun _ => hon) fun e he => ⟨rfl, by_contra fun hne => he (hrest e hne)⟩⟩
    · rw [node_applyEngineer_self]
      exact hfac
    · rw [node_applyEngineer_self, hfut, h.fut]
    · rw [node_applyEngineer_self, hturn']
      exact h.turn
  · refine ⟨d, .refl, ?_, ?_, ?_, h.seated.step hdist hk hk' hsame.2 hothers rfl
      (fun hserver => absurd (hsame.1.symm.trans hserver) hi) fun _ he => absurd rfl he⟩ <;>
      rw [node_applyEngineer_of_ne fun heq => hi heq.symm]
    · exact h.factory
    · exact h.fut
    · exact h.turn

/-! ### Scouts -/

/-- A Scout that returns a laptop is done with its turn. -/
theorem pc_of_returned {inbox : ℤ → List PaxosMsg} {env : Env} {pc : ScoutPc} {x : Effect}
    {laptop : LaptopInfo} (hs : ScoutStep e f inbox env pc x)
    (hl : returnedLaptop x.events = some laptop) : x.pc = .idle := by
  cases hs with
  | giveUp => rfl
  | tooFew => rfl
  | record => rfl
  | connect => rw [scoutConnect] at hl; cases hl
  | command => rw [commanderConnect] at hl; cases hl
  | _ => cases hl

/-- A Scout takes a step on its desk, and sets the promise when it returns. -/
theorem AtDesk.scout {env : Env} {io : ScoutIo} {x : Effect}
    (h : s.AtDesk i d) (hd : (desk i).Reachable d)
    (hr : scoutStep i (s.node i).factory io.inbox (io.env env) (s.node i).scout = some x) :
    ∃ d', (desk i).StepsBy (fun _ _ => True) d d' ∧ (s.applyScout H i io x).AtDesk i d' := by
  have hseated : (s.applyScout H i io x).Seated i d.engineer :=
    h.seated.of_stems accepted_applyScout fun ℓ k' hk' => stems_applyScout hk'
  have hs := scoutStep_cases hr
  rw [← h.factory] at hr hs
  rcases h.turn with ⟨hturn, hidle⟩ | ⟨req, hturn⟩
  · rw [hidle] at hr
    cases herq : d.factory.erq with
    | nil =>
      rw [scoutStep, herq] at hr
      cases hr
    | cons req erq =>
      have hnone : returnedLaptop x.events = none := by
        rw [scoutStep, herq] at hr
        cases hr
        rfl
      have hstep : d.step i (.scout io.inbox (io.env env)) = some { d with
          factory := x.factory, turn := .scout req x.pc, popped := d.popped ++ [req] } := by
        rw [Desk.step, Desk.scoutTurn, hturn, herq, hr]
        rfl
      refine ⟨_, .single (a := .scout io.inbox (io.env env)) trivial hstep, ?_, ?_, ?_, hseated⟩ <;>
        rw [node_applyScout_self]
      · rw [hnone]
        exact h.fut
      · exact .inr ⟨req, rfl⟩
  · let d₁ : Desk := { d with
      factory := x.factory
      turn := (returnedLaptop x.events).elim (.scout req x.pc) (.setValue req) }
    have hstep : d.step i (.scout io.inbox (io.env env)) = some d₁ := by
      rw [Desk.step, Desk.scoutTurn, hturn]
      change (scoutStep i d.factory _ _ (s.node i).scout).map _ = _
      rw [hr, Option.map_some]
      cases hret : returnedLaptop x.events <;> simp only [d₁, hret, Option.elim]
    cases hret : returnedLaptop x.events with
    | none =>
      refine ⟨d₁, .single (a := .scout io.inbox (io.env env)) trivial hstep, ?_, ?_, ?_,
        hseated⟩ <;> rw [node_applyScout_self]
      · rw [hret]
        exact h.fut
      · refine .inr ⟨req, ?_⟩
        change (returnedLaptop x.events).elim _ _ = _
        rw [hret]
        rfl
    | some laptop =>
      have hset : d₁.turn = .setValue req laptop := by
        change (returnedLaptop x.events).elim _ _ = _
        rw [hret]
        rfl
      have hd₁ : (desk i).Reachable d₁ :=
        .step (a := .scout io.inbox (io.env env)) hd trivial hstep
      obtain ⟨hid, hnone⟩ := (delivering_of_reachable hd₁).setting hset
      have hstep₁ : d₁.step i (.scout io.inbox (io.env env)) =
          some { d₁.setFut req.prom (some laptop) with
            turn := .head, answered := d₁.answered ++ [(req, laptop)] } := by
        rw [Desk.step, Desk.scoutTurn, hset]
        exact if_pos hnone
      refine ⟨_, (Machine.StepsBy.single (a := .scout io.inbox (io.env env)) trivial hstep).trans
        (Machine.StepsBy.single (a := .scout io.inbox (io.env env)) trivial hstep₁), ?_, ?_, ?_,
        hseated⟩ <;> rw [node_applyScout_self]
      · rfl
      · rw [hret]
        change Function.update d.fut req.prom _ =
          Function.update (s.node i).fut laptop.engineerId _
        rw [hid, h.fut]
      · exact .inl ⟨rfl, pc_of_returned hs hret⟩

/-! ### The simulation -/

/-- Every server of the network refines a desk. -/
theorem refines_desk (H : Hosts) (i : ℤ) :
    (network H).Simulation (desk i) (fun _ _ => True) (fun _ _ => True) (AtDesk i) where
  init s hs := by
    obtain ⟨client, -, rfl⟩ := hs
    obtain ⟨m, config, hf, -⟩ := H.factory_eq i
    have herq : (H.factory i).erq = [] := by rw [hf]
    exact ⟨{ factory := H.factory i }, ⟨_, herq, rfl⟩, rfl, rfl, .inl ⟨rfl, rfl⟩,
      fun _ _ hk => (by cases hk), fun _ _ => rfl⟩
  step s act s' d hs hd h _ hst := by
    cases netStep_cases hst with
    | engineer hk hr hu =>
      exact h.engineer (distinct_of_reachable hs) (regular_of_reachable hs) hk hr hu
    | @scout j env answers io x hj hio hr hu =>
      by_cases hi : i = j
      · subst hi
        exact h.scout hd hr
      · refine ⟨d, .refl, ?_, ?_, ?_, h.seated.of_stems accepted_applyScout
          fun ℓ k' hk' => stems_applyScout hk'⟩ <;> rw [node_applyScout_of_ne hi]
        · exact h.factory
        · exact h.fut
        · exact h.turn
    | client hr hu hj =>
      refine ⟨d, .refl, ?_, ?_, ?_, h.seated.of_stems (fun i => accepted_applyClient)
        fun ℓ k' hk' => stems_applyClient hr hk'⟩ <;> rw [node_applyClient]
      · exact h.factory
      · exact h.fut
      · exact h.turn

end Net

end

end LaptopPaxos
