import LaptopPaxos.Slots

/-!
# Orders

How an order travels: from a customer's request to the queue, to the Scout, and
into the Scout's own command. What the Scouts, the acceptors and the learners
pass on are such commands, never a default value (`validity`).
-/

namespace LaptopPaxos

open LaptopFactory

/-- The pair that identifies an order. -/
def CustomerRequest.order (r : CustomerRequest) : ℤ × ℤ := (r.customerId, r.orderNumber)

/-- The order that the event places, if any. -/
def Event.order : Event → Option (ℤ × ℤ)
  | .submitted _ r => if r.isValid ∧ r.requestType = 1 then some r.order else none
  | _ => none

/-- The orders placed so far. -/
def orders (h : List Event) : List (ℤ × ℤ) := h.filterMap Event.order

/-- The order `P` was placed at the server `i`. -/
def OrderedAt (h : List Event) (i : ℤ) (P : ℤ × ℤ) : Prop :=
  ∃ r, .submitted i r ∈ h ∧ r.isValid ∧ r.requestType = 1 ∧ r.order = P

/-- The laptop that a Scout works on. -/
def ScoutPc.laptop : ScoutPc → Option LaptopInfo
  | .idle => none
  | .connect laptop | .p1a laptop _ _ | .p1b laptop _ _ _ | .propose laptop _ | .pickSlot laptop _
  | .p2a laptop _ _ | .p2b laptop _ _ _ | .command laptop _ | .learn laptop _ _ | .record laptop =>
    some laptop

/-- The Scout's own command is for the order it works on. -/
def ScoutPc.OwnOrder : ScoutPc → Prop
  | .p2a laptop ph _ | .p2b laptop ph _ _ => ph.own = true → ph.cmd.order = laptop.order
  | _ => True

/-- A Scout's own command carries an id just generated and an order placed at its server. -/
def Event.Ordered : Event → List Event → Prop
  | .proposed i _ v true _, h => (∃ clock, v.commandId = generateCommandID i clock) ∧
      .generated i v.commandId ∈ h ∧ OrderedAt h i v.order
  | _, _ => True

/-- The orders on the queues, those the Scouts work on and those they propose have been placed. -/
structure Ordering (c : Cluster) : Prop where
  queue : ∀ i, ∀ req ∈ (c.factory i).erq, OrderedAt c.hist i req.laptop.order
  scout : ∀ i laptop, (c.scout i).laptop = some laptop → OrderedAt c.hist i laptop.order
  own : ∀ i, (c.scout i).OwnOrder
  ordered : Justified Event.Ordered c.hist

/-! ### Steps seen from the orders -/

/-- What the customer engineers work on is the same. -/
structure SameDesk (f f' : LaptopFactory) : Prop where
  erq : f'.erq = f.erq
  customerRecord : f'.customerRecord = f.customerRecord

/-- A step that leaves the Scouts, the acceptors, their wires and the queues alone, and
    places no order. -/
structure Orderless (c c' : Cluster) : Prop extends Still c c' where
  erq : ∀ j, (c'.factory j).erq = (c.factory j).erq
  orders : orders c'.hist = orders c.hist

/-- The steps as the orders see them. -/
inductive OrderStep (D : Deployment) (c : Cluster) : Action → Cluster → Prop
  | quiet {act : Action} {c' : Cluster} : Orderless c c' → OrderStep D c act c'
  | request {i e r} : i ∈ D.ids → r.isValid → r.requestType = 1 →
      OrderStep D c (.request i e r) (c.requestMsg i e r)
  | scout {i env e} : i ∈ D.ids →
      ScoutStep i (c.factory i) (c.toScout i) env (c.scout i) e →
      OrderStep D c (.scout i env) (c.applyEffect i e)
  | acceptor {a i msg rest} : a ∈ D.ids → c.toAcceptor i a = msg :: rest →
      OrderStep D c (.acceptor a i) (c.acceptMsg a i msg rest)

section

variable {D : Deployment} {c c' : Cluster} {act : Action} {h evs : List Event} {i : ℤ} {P : ℤ × ℤ}

theorem orders_append (evs h : List Event) : orders (evs ++ h) = orders evs ++ orders h :=
  List.filterMap_append

theorem orders_eq_nil (hevs : ∀ ev ∈ evs, ev.order = none) : orders evs = [] :=
  List.filterMap_eq_nil_iff.2 hevs

theorem OrderedAt.mono (ho : OrderedAt h i P) (evs : List Event) : OrderedAt (evs ++ h) i P := by
  obtain ⟨r, hr, hr'⟩ := ho
  exact ⟨r, List.mem_append_right _ hr, hr'⟩

theorem OrderedAt.mem_orders (ho : OrderedAt h i P) : P ∈ orders h := by
  obtain ⟨r, hr, hv, ht, rfl⟩ := ho
  exact List.mem_filterMap.2 ⟨_, hr, if_pos ⟨hv, ht⟩⟩

/-- Where no order is placed twice, it is placed at one server. -/
theorem OrderedAt.unique {j : ℤ} (hnd : (orders h).Nodup) (hi : OrderedAt h i P)
    (hj : OrderedAt h j P) : i = j := by
  induction h with
  | nil => obtain ⟨r, hr, -⟩ := hi; cases hr
  | cons ev h ih =>
    obtain ⟨r, hr, hv, ht, hP⟩ := hi
    obtain ⟨r', hr', hv', ht', hP'⟩ := hj
    have hord : ∀ {k r}, r.isValid → r.requestType = 1 →
        orders (.submitted k r :: h) = r.order :: orders h := fun hv ht =>
      List.filterMap_cons_some (if_pos ⟨hv, ht⟩)
    -- the last event cannot place an order that is among those before it
    rcases List.mem_cons.1 hr with heq | hmem <;> rcases List.mem_cons.1 hr' with heq' | hmem'
    · cases heq.trans heq'.symm; rfl
    · rw [← heq, hord hv ht, hP] at hnd
      exact absurd (OrderedAt.mem_orders ⟨r', hmem', hv', ht', hP'⟩) (List.nodup_cons.1 hnd).1
    · rw [← heq', hord hv' ht', hP'] at hnd
      exact absurd (OrderedAt.mem_orders ⟨r, hmem, hv, ht, hP⟩) (List.nodup_cons.1 hnd).1
    · exact ih (hnd.sublist ((List.sublist_cons_self ev h).filterMap _)) ⟨r, hmem, hv, ht, hP⟩
        ⟨r', hmem', hv', ht', hP'⟩

theorem Orderless.of_still (hs : Still c c') (herq : ∀ j, (c'.factory j).erq = (c.factory j).erq)
    (hevs : c'.hist = evs ++ c.hist) (hnone : ∀ ev ∈ evs, ev.order = none) : Orderless c c' where
  toStill := hs
  erq := herq
  orders := by rw [hevs, orders_append, orders_eq_nil hnone, List.nil_append]

theorem learnerEngineer_desk (f : LaptopFactory) (msg : PaxosMsg) :
    SameDesk f (f.learnerEngineer msg) := by
  rw [learnerEngineer]
  split_ifs
  · obtain ⟨s, l, h⟩ := learn_eq f msg.getCommand
    rw [h]
    exact ⟨rfl, rfl⟩
  · exact ⟨rfl, rfl⟩

theorem erq_backupEngineer {f f' : LaptopFactory} {r : LogRequest}
    (h : f.backupEngineer r = some f') : f'.erq = f.erq := by
  simp only [backupEngineer] at h
  split_ifs at h
  · obtain ⟨op, -, rfl⟩ := Option.map_eq_some_iff.1 h
    rfl
  · cases h; rfl
  · cases h; rfl

theorem sameDesk_acceptMsg (c : Cluster) (a i : ℤ) (msg : PaxosMsg) (rest : List PaxosMsg) (j : ℤ) :
    SameDesk (c.factory j) ((c.acceptMsg a i msg rest).factory j) := by
  rw [Cluster.factory_acceptMsg]
  split_ifs with hj
  · subst hj
    have h := acceptorEngineer_cases (c.factory j) msg
    generalize ((c.factory j).acceptorEngineer msg).1 = f',
      ((c.factory j).acceptorEngineer msg).2 = o at h
    cases h <;> exact ⟨rfl, rfl⟩
  · exact ⟨rfl, rfl⟩

theorem sameDesk_learnMsg (c : Cluster) (a i : ℤ) (msg : PaxosMsg) (rest : List PaxosMsg) (j : ℤ) :
    SameDesk (c.factory j) ((c.learnMsg a i msg rest).factory j) := by
  rw [Cluster.factory_learnMsg]
  split_ifs with hj
  · exact hj ▸ learnerEngineer_desk (c.factory a) msg
  · exact ⟨rfl, rfl⟩

/-- A request that is not an order is answered or ignored. -/
theorem customerEngineer_of_not_order {f : LaptopFactory} {e : ℤ} {r : CustomerRequest}
    (h : ¬(r.isValid ∧ r.requestType = 1)) : (f.customerEngineer e r).1 = f := by
  rw [customerEngineer]
  split_ifs with h₁ h₂
  · exact absurd ⟨h₁, h₂⟩ h
  · rfl
  · rfl
  · rfl

theorem Step.order (h : Step D c act c') : OrderStep D c act c' := by
  cases h with
  | @request i e r hi =>
    by_cases hr : r.isValid ∧ r.requestType = 1
    · exact .request hi hr.1 hr.2
    · cases (Step.request hi : Step D c (.request i e r) _).paxos with
      | still hst =>
        obtain ⟨evs, hh, hevs⟩ := @Cluster.requestEvents c (fun ev => ev.order = none) i r
          (if_neg hr) (fun _ => rfl) e
        refine .quiet (.of_still hst (fun j => ?_) hh hevs)
        rw [Cluster.factory_requestMsg, customerEngineer_of_not_order hr]
        split_ifs with hj
        · rw [hj]
        · rfl
  | @backup i r f hi hf =>
    cases (Step.backup hi hf).paxos with
    | still hst =>
      refine .quiet (.of_still hst (fun j => ?_) (Cluster.hist_backupMsg i r f)
        (Cluster.forall_backupEvents (fun _ _ _ => rfl) i (c.factory i) r))
      rw [Cluster.factory_backupMsg]
      split_ifs with hj
      · rw [erq_backupEngineer hf, hj]
      · rfl
  | scout hi h => exact .scout hi h
  | acceptor ha h => exact .acceptor ha h
  | @learner a i msg rest ha hq =>
    cases (Step.learner ha hq).paxos with
    | still hst =>
      obtain ⟨evs, hh, hevs⟩ := @Cluster.learnEvents c (fun ev => ev.order = none) a
        (fun _ => rfl) i msg rest
      exact .quiet (.of_still hst (fun j => (sameDesk_learnMsg c a i msg rest j).erq) hh hevs)
  | @crash i hi =>
    cases (Step.crash hi : Step D c _ _).paxos with
    | still hst =>
      exact .quiet (.of_still hst (fun j => congrArg _ (Cluster.factory_crash i j))
        (List.nil_append _).symm fun ev hev => absurd hev List.not_mem_nil)

end

/-! ### The invariant -/

section

variable {i : ℤ} {f : LaptopFactory} {inbox : ℤ → List PaxosMsg} {env : Env} {pc : ScoutPc}
  {e : Effect} {h : List Event}

/-- A Scout takes an order off the queue, works on it, and gives it up. -/
theorem ScoutStep.laptop (hs : ScoutStep i f inbox env pc e) :
    (∃ req, pc = .idle ∧ f.erq = req :: e.factory.erq ∧ e.pc = .connect req.laptop) ∨
      e.factory.erq = f.erq ∧ (e.pc = .idle ∨ e.pc.laptop = pc.laptop) := by
  cases hs with
  | dequeue h => exact .inl ⟨_, rfl, h, rfl⟩
  | connect =>
    rw [scoutConnect]
    split_ifs <;> exact .inr ⟨rfl, .inr rfl⟩
  | command =>
    rw [commanderConnect]
    split_ifs <;> exact .inr ⟨rfl, .inr rfl⟩
  | giveUp => exact .inr ⟨rfl, .inl rfl⟩
  | tooFew => exact .inr ⟨rfl, .inl rfl⟩
  | record => exact .inr ⟨rfl, .inl rfl⟩
  | _ => exact .inr ⟨rfl, .inr rfl⟩

theorem ScoutStep.ownOrder (hs : ScoutStep i f inbox env pc e) (hpc : pc.OwnOrder) :
    e.pc.OwnOrder := by
  cases hs with
  | connect =>
    rw [scoutConnect]
    split_ifs <;> trivial
  | command =>
    rw [commanderConnect]
    split_ifs <;> trivial
  | chooseOther => exact fun hown => Bool.noConfusion hown
  | pickSlot => exact fun _ => rfl
  | sendP2a => exact hpc
  | failP2a => exact hpc
  | receiveP2b =>
    rw [Accept.receive]
    split_ifs <;> exact hpc
  | missP2b => exact hpc
  | _ => trivial

theorem ScoutStep.ordered (hs : ScoutStep i f inbox env pc e) (hid : f.factoryId = i)
    (hh : Justified Event.Ordered h)
    (hlaptop : ∀ laptop, pc.laptop = some laptop → OrderedAt h i laptop.order) :
    Justified Event.Ordered (e.events ++ h) := by
  cases hs with
  | @pickSlot laptop =>
    exact ⟨⟨⟨env.clock, hid ▸ rfl⟩, List.mem_cons_self, (hlaptop laptop rfl).mono [_]⟩, trivial, hh⟩
  | _ => first | exact hh | exact ⟨trivial, hh⟩ | exact ⟨trivial, trivial, hh⟩

end

section

variable {D : Deployment} {c c' : Cluster} {act : Action}

theorem ordering_init (D : Deployment) : Ordering (Cluster.init D) where
  queue i req hreq := by
    obtain ⟨m, s, h, -⟩ := D.factory_eq i
    change req ∈ (D.factory i).erq at hreq
    rw [h] at hreq
    cases hreq
  scout _ _ hl := by cases hl
  own _ := trivial
  ordered := trivial

theorem Ordering.step (hr : (cluster D).Reachable c) (hc : Ordering c)
    (h : OrderStep D c act c') : Ordering c' := by
  cases h with
  | quiet hst =>
    obtain ⟨evs, hh, hevs⟩ := hst.hist
    refine ⟨fun i req hreq => ?_, fun i laptop hl => ?_, fun i => ?_, ?_⟩
    · rw [hh]
      exact (hc.queue i req (hst.erq i ▸ hreq)).mono evs
    · rw [hh]
      exact (hc.scout i laptop (hst.scout i ▸ hl)).mono evs
    · exact hst.scout i ▸ hc.own i
    · rw [hh]
      refine hc.ordered.append fun ev hev _ => ?_
      have haside := hevs ev hev
      cases ev <;> trivial
  | @request i e r hi hv ht =>
    have hh : (c.requestMsg i e r).hist = .submitted i r :: c.hist := by
      simp [customerEngineer, hv, ht]
    have hnew : OrderedAt (.submitted i r :: c.hist) i r.order :=
      ⟨r, List.mem_cons_self, hv, ht, rfl⟩
    refine ⟨fun j req hreq => ?_, fun j laptop hl => ?_, fun j => ?_, ?_⟩
    · rw [hh]
      rw [Cluster.factory_requestMsg, customerEngineer, if_neg (not_not.2 hv), if_pos ht] at hreq
      split_ifs at hreq with hj
      · subst hj
        -- the queue has the orders it had, and the new one
        rcases List.mem_append.1 hreq with hreq | hreq
        · exact (hc.queue j req hreq).mono [_]
        · rw [List.mem_singleton.1 hreq]
          exact hnew
      · exact (hc.queue j req hreq).mono [_]
    · rw [hh]
      exact (hc.scout j laptop (Cluster.scout_requestMsg i e r j ▸ hl)).mono [_]
    · rw [Cluster.scout_requestMsg]
      exact hc.own j
    · rw [hh]
      exact ⟨trivial, hc.ordered⟩
  | @scout i env e _ hs =>
    refine ⟨fun j req hreq => ?_, fun j laptop hl => ?_, fun j => ?_,
      hs.ordered (deciding_of_reachable hr).factoryId hc.ordered (hc.scout i)⟩
    · rw [Cluster.factory_applyEffect] at hreq
      split_ifs at hreq with hj
      · subst hj
        rcases hs.laptop with ⟨req', -, hq, -⟩ | ⟨hq, -⟩
        · exact (hc.queue j req (hq ▸ List.mem_cons_of_mem _ hreq)).mono e.events
        · exact (hc.queue j req (hq ▸ hreq)).mono e.events
      · exact (hc.queue j req hreq).mono e.events
    · rw [Cluster.scout_applyEffect] at hl
      split_ifs at hl with hj
      · subst hj
        -- the order is the one taken off the queue, none, or the one before
        rcases hs.laptop with ⟨req', -, hq, hpc⟩ | ⟨-, hpc | hpc⟩
        · rw [hpc] at hl
          cases hl
          exact (hc.queue j req' (hq ▸ List.mem_cons_self)).mono e.events
        · rw [hpc] at hl; cases hl
        · exact (hc.scout j laptop (hpc ▸ hl)).mono e.events
      · exact (hc.scout j laptop hl).mono e.events
    · rw [Cluster.scout_applyEffect]
      split_ifs with hj
      · exact hs.ownOrder (hc.own i)
      · exact hc.own j
  | @acceptor a i msg rest ha hq =>
    have hscout := Cluster.scout_acceptMsg a i msg rest (c := c)
    refine ⟨fun j req hreq =>
        (hc.queue j req ((sameDesk_acceptMsg c a i msg rest j).erq ▸ hreq)).mono _,
      fun j laptop hl => (hc.scout j laptop (hscout j ▸ hl)).mono _,
      fun j => hscout j ▸ hc.own j, ?_⟩
    obtain ⟨r, hr', hv⟩ := vote_cases (c.factory a)
      ((voting_of_reachable hr).sent i a msg (hq ▸ List.mem_cons_self))
    rw [Cluster.hist_acceptMsg, hr']
    refine hc.ordered.append fun ev hev _ => ?_
    have hvoter := hv.voter ev hev
    cases ev <;> trivial

theorem ordering_of_reachable (h : (cluster D).Reachable c) : Ordering c :=
  reach_invariant h (ordering_init D) fun hr _ hc hst => hc.step hr hst.order

end

/-! ### Validity -/

/-- The command has a slot, an id that was generated, and an order that a customer has placed. -/
def Valid (h : List Event) (v : Command) : Prop :=
  1 ≤ v.slot ∧
    (∃ i clock, v.commandId = generateCommandID i clock ∧ .generated i v.commandId ∈ h) ∧
    ∃ i, OrderedAt h i v.order

/-- The command is in a message, in an acceptor that has accepted it, or decided. -/
inductive Carried (c : Cluster) : Command → Prop
  | p2a {i a : ℤ} {m : PaxosMsg} : m ∈ c.toAcceptor i a → m.phase = 3 → Carried c m.getCommand
  | learn {i a : ℤ} {m : PaxosMsg} : m ∈ c.toLearner i a → Carried c m.getCommand
  | accepted {a : ℤ} : (c.factory a).acceptedProposalNumber ≠ -1 →
      Carried c (c.factory a).acceptedValue
  | decided {i s : ℤ} {v : Command} : (c.factory i).decisionMap.find? s = some v → Carried c v

section

variable {D : Deployment} {c : Cluster} {v : Command}

/-- A command that is carried was proposed. -/
theorem Carried.proposed (hr : (cluster D).Reachable c) (hv : Carried c v) :
    ∃ i n own l, .proposed i n v own l ∈ c.hist := by
  have hh := explained_of_reachable hr
  have hd := deciding_of_reachable hr
  have hvote := voting_of_reachable hr
  have hchosen : ∀ {n w}, Chosen D c.hist n w → ∃ i n own l, .proposed i n w own l ∈ c.hist :=
    fun hn => by
      obtain ⟨a, ha⟩ := hn.exists_accepted
      obtain ⟨i, own, l, hl⟩ := hh.proposed_of_accepted ha
      exact ⟨i, _, own, l, hl⟩
  cases hv with
  | @p2a i a m hm hp =>
    obtain ⟨n, -, rfl | ⟨w, own, rfl, hs⟩⟩ := hvote.sent i a m hm
    · exact absurd hp (by simp)
    · obtain ⟨l, hl⟩ := hh.proposed_of_sent hs
      exact ⟨i, n, own, l, hl⟩
  | @learn i a m hm =>
    obtain ⟨w, n, rfl, hn⟩ := hd.toLearner i a m hm
    exact hchosen hn
  | @accepted a hk =>
    obtain ⟨i, own, l, hl⟩ :=
      hh.proposed_of_accepted ((hvote.acceptor a).reports.1.resolve_left hk)
    exact ⟨i, _, own, l, hl⟩
  | @decided i s v hv =>
    obtain ⟨n, hn⟩ := chosen_of_learned hh.backed (hd.decided i s v hv).2
    exact hchosen hn

theorem valid_of_proposed (hr : (cluster D).Reachable c) {i n : ℤ} {own : Bool} {l : Prepare}
    (hp : .proposed i n v own l ∈ c.hist) : Valid c.hist v := by
  have hh := explained_of_reachable hr
  refine ⟨(hh.noGap hp).1, ?_⟩
  obtain ⟨h₁, h₂, j, m, l', hsplit⟩ := hh.origin hp
  have hord := (ordering_of_reachable hr).ordered
  rw [hsplit] at hord ⊢
  obtain ⟨⟨clock, hid⟩, hgen, ho⟩ := hord.of_append
  exact ⟨⟨j, clock, hid, List.mem_append_right _ (List.mem_cons_of_mem _ hgen)⟩,
    j, (ho.mono [_]).mono h₁⟩

/-- Every command that is carried, was ever sent to an acceptor or was ever
    taken up for a proposal is valid. -/
theorem validity (hr : (cluster D).Reachable c) :
    (∀ v, Carried c v → Valid c.hist v) ∧
      (∀ i a n v own, .p2aSent i a n v own ∈ c.hist → Valid c.hist v) ∧
      ∀ i n v own l, .proposed i n v own l ∈ c.hist → Valid c.hist v := by
  refine ⟨fun v hv => ?_, fun i a n v own hs => ?_, fun i n v own l => valid_of_proposed hr⟩
  · obtain ⟨i, n, own, l, hp⟩ := hv.proposed hr
    exact valid_of_proposed hr hp
  · obtain ⟨l, hp⟩ := (explained_of_reachable hr).proposed_of_sent hs
    exact valid_of_proposed hr hp

theorem validity_reproposal : ∃ c : Cluster, (c.factory 1).acceptedProposalNumber = 1 ∧
    (c.factory 1).acceptedValue = Reproposal.z ∧ Valid c.hist Reproposal.z := by
  obtain ⟨c, hc, hk, hz⟩ := exists_run (.numbered 3) (fun _ _ => True)
    (fun c => (c.factory 1).acceptedProposalNumber = 1 ∧ (c.factory 1).acceptedValue = Reproposal.z)
    Reproposal.run (by decide +kernel)
  refine ⟨c, hk, hz, hz ▸ (validity hc).1 _ (.accepted ?_)⟩
  rw [hk]
  decide

end

end LaptopPaxos
