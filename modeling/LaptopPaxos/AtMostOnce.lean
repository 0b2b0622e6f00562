import LaptopPaxos.Orders

/-!
# At most once

A Scout that hears of no vote for its command restarts, and may propose its
order again, for another slot and with a new id. A vote whose reply was lost is
not heard of; another Scout may find the first command there and finish it, so
that the order is decided twice. Along the runs in which a Scout makes a new
command of its order only while no earlier one is alive (`FreshOrder`), all
live commands for an order are the same, and it is decided for one slot
(`at_most_once`).
-/

namespace LaptopPaxos

open LaptopFactory

/-! ### Commands that may still be chosen -/

/-- The command that the event is a vote for, or that it has sent on a message
    still on its way. -/
def Event.alive (c : Cluster) : Event → Option Command
  | .accepted _ _ v => some v
  | .p2aSent i a n v _ => if .p2a n v ∈ c.toAcceptor i a then some v else none
  | _ => none

/-- The commands that an acceptor has accepted, or that one may still accept. -/
def Cluster.alive (c : Cluster) : List Command := c.hist.filterMap (Event.alive c)

/-- A Scout that is about to make a command of its order finds no live command for it. -/
def FreshOrder (c : Cluster) (_ : ℤ) : ScoutPc → Prop
  | .pickSlot laptop _ => ∀ v ∈ c.alive, v.order ≠ laptop.order
  | _ => True

instance (c : Cluster) (i : ℤ) : (pc : ScoutPc) → Decidable (FreshOrder c i pc)
  | .pickSlot .. => inferInstanceAs (Decidable (∀ v ∈ c.alive, _))
  | .idle | .connect .. | .p1a .. | .p1b .. | .propose .. | .p2a .. | .p2b .. | .command ..
  | .learn .. | .record .. => isTrue trivial

/-- A Scout's own command is the only live one for its order; any other command
    that it proposes has been accepted before. -/
structure Accept.Sole (c : Cluster) (laptop : LaptopInfo) (ph : Accept) : Prop where
  own : ph.own = true → ∀ v ∈ c.alive, v.order = laptop.order → v = ph.cmd
  other : ph.own = false → ∃ a n, .accepted a n ph.cmd ∈ c.hist

def ScoutPc.Sole (c : Cluster) : ScoutPc → Prop
  | .p2a laptop ph _ | .p2b laptop ph _ _ => ph.Sole c laptop
  | _ => True

structure Sole (c : Cluster) : Prop where
  agree : ∀ v ∈ c.alive, ∀ w ∈ c.alive, v.order = w.order → v = w
  scout : ∀ i, (c.scout i).Sole c

section

variable {D : Deployment} {c c' : Cluster} {act : Action} {i a n : ℤ} {v : Command}

theorem Cluster.mem_alive : v ∈ c.alive ↔ (∃ a n, .accepted a n v ∈ c.hist) ∨
    ∃ i a n own, .p2aSent i a n v own ∈ c.hist ∧ .p2a n v ∈ c.toAcceptor i a := by
  rw [alive, List.mem_filterMap]
  constructor
  · rintro ⟨ev, hev, hv⟩
    cases ev with
    | accepted a n w => cases hv; exact .inl ⟨a, n, hev⟩
    | p2aSent i a n w own =>
      rw [Event.alive] at hv
      split_ifs at hv with hm
      cases hv
      exact .inr ⟨i, a, n, own, hev, hm⟩
    | _ => cases hv
  · rintro (⟨a, n, hev⟩ | ⟨i, a, n, own, hev, hm⟩)
    · exact ⟨_, hev, rfl⟩
    · exact ⟨_, hev, if_pos hm⟩

/-! ### What becomes alive in a step -/

theorem alive_of_still (hst : Still c c') (hv : v ∈ c'.alive) : v ∈ c.alive := by
  obtain ⟨evs, hh, hevs⟩ := hst.hist
  rw [Cluster.mem_alive, hh, hst.toAcceptor] at hv
  refine Cluster.mem_alive.2 (hv.imp ?_ ?_)
  · rintro ⟨a, n, ha⟩
    exact ⟨a, n, (List.mem_append.1 ha).resolve_left fun hev => hevs _ hev⟩
  · rintro ⟨i, a, n, own, hs, hm⟩
    exact ⟨i, a, n, own, (List.mem_append.1 hs).resolve_left fun hev => hevs _ hev, hm⟩

theorem Vote.eq_p2a {f f' : LaptopFactory} {msg r : PaxosMsg} {evs : List Event} {b : ℤ}
    (hv : Vote f a i msg f' r evs) (ha : .accepted b n v ∈ evs) : msg = .p2a n v := by
  cases hv with
  | accept => cases List.mem_singleton.1 ha; rfl
  | promise => cases List.mem_singleton.1 ha
  | refuse => cases ha
  | reject => cases ha

/-- An acceptor only accepts what was on its way. -/
theorem alive_of_acceptMsg (hc : Voting D c) {msg : PaxosMsg} {rest : List PaxosMsg}
    (hq : c.toAcceptor i a = msg :: rest) (hv : v ∈ (c.acceptMsg a i msg rest).alive) :
    v ∈ c.alive := by
  have hmsg : msg ∈ c.toAcceptor i a := hq ▸ List.mem_cons_self
  have hsent : Sent c.hist i a msg := hc.sent i a msg hmsg
  obtain ⟨r, hr, hvote⟩ := vote_cases (c.factory a) hsent
  rcases Cluster.mem_alive.1 hv with ⟨b, n, ha⟩ | ⟨j, b, n, own, hs, hm⟩
  · rw [Cluster.hist_acceptMsg, hr] at ha
    rcases List.mem_append.1 ha with ha | ha
    · obtain rfl := hvote.eq_p2a ha
      obtain ⟨-, own, hs⟩ := hsent.p2a
      exact Cluster.mem_alive.2 (.inr ⟨i, a, n, own, hs, hmsg⟩)
    · exact Cluster.mem_alive.2 (.inl ⟨b, n, ha⟩)
  · rw [Cluster.hist_acceptMsg, hr] at hs
    have hold := (List.mem_append.1 hs).resolve_left fun hev => by cases hvote.voter _ hev
    exact Cluster.mem_alive.2 (.inr ⟨j, b, n, own, hold, Wires.mem_of_mem_rest hq hm⟩)

theorem ScoutStep.p2aSent {f : LaptopFactory} {inbox : ℤ → List PaxosMsg} {env : Env}
    {pc : ScoutPc} {e : Effect} {j : ℤ} {own : Bool} (hs : ScoutStep i f inbox env pc e)
    (hev : .p2aSent j a n v own ∈ e.events) :
    ∃ laptop ph iter, pc = .p2a laptop ph (a :: iter) ∧ v = ph.cmd := by
  cases hs with
  | sendP2a => cases List.mem_singleton.1 hev; exact ⟨_, _, _, rfl, rfl⟩
  | _ =>
    simp [scoutReturn, LaptopPaxos.pickSlot, scoutConnect, commanderConnect, recordOrder] at hev

/-- A Scout makes the command alive that it sends, and no other. -/
theorem alive_of_applyEffect (hc : Voting D c) {env : Env} {e : Effect}
    (hs : ScoutStep i (c.factory i) (c.toScout i) env (c.scout i) e)
    (hv : v ∈ (c.applyEffect i e).alive) :
    v ∈ c.alive ∨ ∃ laptop ph a iter, c.scout i = .p2a laptop ph (a :: iter) ∧ v = ph.cmd := by
  have hnew : ∀ {j a n own}, .p2aSent j a n v own ∈ e.events →
      ∃ laptop ph a iter, c.scout i = .p2a laptop ph (a :: iter) ∧ v = ph.cmd := fun hev => by
    obtain ⟨laptop, ph, iter, h⟩ := hs.p2aSent hev
    exact ⟨laptop, ph, _, iter, h⟩
  rcases Cluster.mem_alive.1 hv with ⟨a, n, ha⟩ | ⟨j, a, n, own, hsent, hm⟩
  · rw [Cluster.hist_applyEffect] at ha
    have hold := (List.mem_append.1 ha).resolve_left fun hev => by cases hs.voter _ hev
    exact .inl (Cluster.mem_alive.2 (.inl ⟨a, n, hold⟩))
  · rcases List.mem_append.1 hsent with hev | hsent
    · exact .inr (hnew hev)
    · rcases Wires.mem_push hm with hold | ⟨rfl, hnow⟩
      · exact .inl (Cluster.mem_alive.2 (.inr ⟨j, a, n, own, hsent, hold⟩))
      · obtain ⟨-, own, hev⟩ := (hs.sent (hc.number j) hnow).p2a
        exact .inr (hnew hev)

/-! ### The invariant -/

theorem Accept.Sole.mono {laptop : LaptopInfo} {ph : Accept} (hph : ph.Sole c laptop)
    (halive : ∀ v ∈ c'.alive, v.order = laptop.order → v ∈ c.alive ∨ v = ph.cmd)
    (hh : ∃ evs, c'.hist = evs ++ c.hist) : ph.Sole c' laptop where
  own hown v hv ho := (halive v hv ho).elim (fun hold => hph.own hown v hold ho) id
  other hown := by
    obtain ⟨a, n, ha⟩ := hph.other hown
    obtain ⟨evs, hh⟩ := hh
    exact ⟨a, n, hh ▸ List.mem_append_right _ ha⟩

theorem ScoutPc.Sole.mono {pc : ScoutPc} (hpc : pc.Sole c)
    (halive : ∀ laptop, pc.laptop = some laptop → ∀ v ∈ c'.alive, v.order = laptop.order →
      v ∈ c.alive)
    (hh : ∃ evs, c'.hist = evs ++ c.hist) : pc.Sole c' := by
  cases pc with
  | p2a laptop => exact Accept.Sole.mono hpc (fun v hv ho => .inl (halive laptop rfl v hv ho)) hh
  | p2b laptop => exact Accept.Sole.mono hpc (fun v hv ho => .inl (halive laptop rfl v hv ho)) hh
  | _ => trivial

/-- The command that a Scout is proposing is the one alive for its order, if any. -/
theorem Sole.eq_of_proposing (hc : Sole c) (ho : Ordering c) {laptop : LaptopInfo} {ph : Accept}
    {iter : List ℤ} (hpc : c.scout i = .p2a laptop ph iter) (hv : v ∈ c.alive)
    (hord : v.order = ph.cmd.order) : v = ph.cmd := by
  have hsole := hc.scout i
  have hown := ho.own i
  rw [hpc] at hsole hown
  cases hph : ph.own with
  | true => exact hsole.own hph v hv (hord.trans (hown hph))
  | false =>
    -- a command of the system has been accepted, so it is alive itself
    obtain ⟨a, n, ha⟩ := hsole.other hph
    exact hc.agree v hv _ (Cluster.mem_alive.2 (.inl ⟨a, n, ha⟩)) hord

theorem ScoutStep.sole {f : LaptopFactory} {inbox : ℤ → List PaxosMsg} {env : Env} {e : Effect}
    {pc : ScoutPc} (hs : ScoutStep i f inbox env pc e) (hpc : pc.Sole c)
    (hok : FreshOrder c i pc)
    (hprep : ∀ laptop l, pc = .propose laptop l → l.acceptorAcceptedProposal ≠ -1 →
      ∃ a n, .accepted a n l.cmd ∈ c.hist)
    (halive : ∀ v ∈ c'.alive,
      v ∈ c.alive ∨ ∃ laptop ph a iter, pc = .p2a laptop ph (a :: iter) ∧ v = ph.cmd)
    (hh : ∃ evs, c'.hist = evs ++ c.hist) : e.pc.Sole c' := by
  -- where the Scout sends, its command may become alive, and elsewhere nothing does
  have hcmd : ∀ {laptop ph a iter}, pc = .p2a laptop ph (a :: iter) → ∀ v ∈ c'.alive,
      v ∈ c.alive ∨ v = ph.cmd := fun hpc v hv => by
    refine (halive v hv).imp_right ?_
    rintro ⟨_, _, _, _, heq, rfl⟩
    cases hpc.symm.trans heq
    rfl
  have hsame : (∀ laptop ph a iter, pc ≠ .p2a laptop ph (a :: iter)) →
      ∀ v ∈ c'.alive, v ∈ c.alive := fun hne v hv => by
    refine (halive v hv).resolve_right ?_
    rintro ⟨_, _, _, _, heq, _⟩
    exact hne _ _ _ _ heq
  cases hs with
  | connect =>
    rw [scoutConnect]
    split_ifs <;> trivial
  | command =>
    rw [commanderConnect]
    split_ifs <;> trivial
  | @chooseOther laptop l hk =>
    refine ⟨fun hown => Bool.noConfusion hown, fun _ => ?_⟩
    obtain ⟨a, n, ha⟩ := hprep laptop l rfl hk
    obtain ⟨evs, hh⟩ := hh
    exact ⟨a, n, hh ▸ List.mem_append_right _ ha⟩
  | pickSlot =>
    -- no command is alive for the order, so the new one will be the only one
    refine ⟨fun _ v hv ho => absurd ho (hok v (hsame ?_ v hv)), fun hown => Bool.noConfusion hown⟩
    exact fun _ _ _ _ heq => by cases heq
  | sendP2a =>
    have hph : Accept.Sole c' _ _ := Accept.Sole.mono hpc (fun v hv _ => hcmd rfl v hv) hh
    exact ⟨hph.own, hph.other⟩
  | failP2a => exact Accept.Sole.mono hpc (fun v hv _ => hcmd rfl v hv) hh
  | receiveP2b =>
    have hph : Accept.Sole c' _ _ :=
      Accept.Sole.mono hpc (fun v hv _ => .inl (hsame (fun _ _ _ _ heq => by cases heq) v hv)) hh
    rw [Accept.receive]
    split_ifs <;> exact ⟨hph.own, hph.other⟩
  | missP2b =>
    exact Accept.Sole.mono hpc
      (fun v hv _ => .inl (hsame (fun _ _ _ _ heq => by cases heq) v hv)) hh
  | _ => trivial

/-- What a step makes alive is the command of one Scout. Its order was placed at
    the server of that Scout, so no other Scout has a command for it. -/
theorem Sole.step (hr : (cluster D).Reachable c) (hc : Sole c) (hnd : (orders c.hist).Nodup)
    (hok : OnScout FreshOrder c act) (h : PaxosStep D c act c') : Sole c' := by
  have ho := ordering_of_reachable hr
  have hvoting := voting_of_reachable hr
  have hgrow : ∀ {c'}, (∀ v ∈ c'.alive, v ∈ c.alive) → (∀ j, c'.scout j = c.scout j) →
      (∃ evs, c'.hist = evs ++ c.hist) → Sole c' := fun halive hscout hh =>
    ⟨fun v hv w hw => hc.agree v (halive v hv) w (halive w hw),
      fun j => hscout j ▸ (hc.scout j).mono (fun _ _ v hv _ => halive v hv) hh⟩
  have hlater := (hvoting.later h).hist
  cases h with
  | still hst => exact hgrow (fun v => alive_of_still hst) hst.scout hlater
  | @acceptor a i msg rest _ hq =>
    exact hgrow (fun v => alive_of_acceptMsg hvoting hq) (Cluster.scout_acceptMsg a i msg rest)
      hlater
  | @scout i env e _ hs =>
    have halive := fun v => @alive_of_applyEffect D c i v hvoting env e hs
    -- a live command with the order of the one just sent is that one
    have hsent : ∀ v ∈ c.alive, ∀ w ∈ (c.applyEffect i e).alive, v.order = w.order → v = w :=
      fun v hv w hw hord => by
        rcases halive w hw with hw | ⟨laptop, ph, a, iter, hpc, rfl⟩
        · exact hc.agree v hv w hw hord
        · exact hc.eq_of_proposing ho hpc hv hord
    refine ⟨fun v hv w hw hord => ?_, fun j => ?_⟩
    · rcases halive v hv with hold | ⟨laptop, ph, a, iter, hpc, rfl⟩
      · exact hsent v hold w hw hord
      · rcases halive w hw with hold | ⟨laptop', ph', a', iter', hpc', rfl⟩
        · exact (hc.eq_of_proposing ho hpc hold hord.symm).symm
        · cases hpc.symm.trans hpc'; rfl
    · rw [Cluster.scout_applyEffect]
      split_ifs with hj
      · -- a command that the Scout has recovered was accepted
        refine hs.sole (hc.scout i) hok (fun laptop l hpc hk => ?_) halive hlater
        have hprep := (preparing_of_reachable hr).scout i
        rw [Cluster.Preparing, hpc] at hprep
        obtain ⟨p, -, hacc⟩ := Explained.accepted_of_recovered hprep.1 hk
        exact ⟨p.acceptor, _, hacc⟩
      · refine (hc.scout j).mono (fun laptop hl v hv hord => ?_) hlater
        rcases halive v hv with hold | ⟨laptop', ph, a, iter, hpc, rfl⟩
        · exact hold
        · cases hph : ph.own with
          | false =>
            have hsole := hc.scout i
            rw [hpc] at hsole
            obtain ⟨b, n, hb⟩ := hsole.other hph
            exact Cluster.mem_alive.2 (.inl ⟨b, n, hb⟩)
          | true =>
            -- the order of `j` was also placed at `i`
            have hown := ho.own i
            rw [hpc] at hown
            have hi := ho.scout i laptop' (hpc ▸ rfl)
            rw [← hown hph, hord] at hi
            exact absurd ((ho.scout j laptop hl).unique hnd hi) hj

theorem sole_of_reachBy (h : (cluster D).ReachBy (OnScout FreshOrder) c)
    (hnd : (orders c.hist).Nodup) : Sole c := by
  refine @reach_invariant D c _ (fun c => (orders c.hist).Nodup → Sole c) h
    (fun _ => ⟨fun v hv => absurd hv List.not_mem_nil, fun _ => trivial⟩) ?_ hnd
  intro c act c' hr hok ih hst hnd
  obtain ⟨evs, hh⟩ := ((voting_of_reachable hr.reachable).later hst.paxos).hist
  have hnd' : (orders c.hist).Nodup := by
    rw [hh, orders_append] at hnd
    exact hnd.of_append_right
  exact (ih hnd').step hr.reachable hnd' hok hst.paxos

/-- Along the runs in which the orders are placed once, and a Scout makes a new
    command of its order only while no other is alive, an order is decided for
    one slot. -/
theorem at_most_once (h : (cluster D).ReachBy (OnScout FreshOrder) c)
    (hnd : (orders c.hist).Nodup) {j : ℤ} {w : Command} (hv : .learned i v ∈ c.hist)
    (hw : .learned j w ∈ c.hist) (hord : v.order = w.order) : v.slot = w.slot := by
  have halive : ∀ {i v}, .learned i v ∈ c.hist → v ∈ c.alive := fun hv => by
    obtain ⟨n, hn⟩ := chosen_of_learned (explained_of_reachable h.reachable).backed hv
    obtain ⟨a, ha⟩ := hn.exists_accepted
    exact Cluster.mem_alive.2 (.inl ⟨a, n, ha⟩)
  rw [(sole_of_reachBy h hnd).agree v (halive hv) w (halive hw) hord]

end

namespace LostReply

/-- The first command for the order of server 1. -/
def v : Command := { slot := 1, commandId := 110000000, customerId := 7, orderId := 0 }

/-- The second command for it. -/
def w : Command := { slot := 2, commandId := 110000000, customerId := 7, orderId := 0 }

/-- Three servers. The acceptor 1 accepts `v`, and its reply is lost. Server 2
    finds `v` there and finishes it, so that the other acceptors reject the
    message of server 1, which restarts. -/
def restart : List Action :=
  open LaptopPaxos.Action in
  .order 1 7 0 :: scouts 1 2 ++ talk 1 1 ++ talk 1 2 ++ talk 1 3 ++ scouts 1 3 ++
    [.scout 1 {}, .acceptor 1 1, .scout 1 { alive := false }] ++
  .order 2 9 0 :: scouts 2 2 ++ talk 2 1 ++ talk 2 2 ++ talk 2 3 ++ scouts 2 1 ++
    talk 2 1 ++ talk 2 2 ++ talk 2 3 ++ scouts 2 2 ++ talk 2 1 ++ talk 2 2 ++ talk 2 3 ++
    scouts 2 7 ++ talk 1 2 ++ talk 1 3 ++ scouts 1 1

/-- Server 1 prepares again, without the acceptor 1. -/
def again : List Action :=
  open LaptopPaxos.Action in
  scouts 1 1 ++ talk 1 2 ++ talk 1 3 ++ scouts 1 1 ++ talk 1 2 ++ talk 1 3 ++ scouts 1 1

/-- Server 1 has not learned `v`, recovers it and finishes it again. -/
def finish : List Action :=
  open LaptopPaxos.Action in
  restart ++ again ++ scouts 1 1 ++ talk 1 2 ++ talk 1 3 ++ scouts 1 7 ++
    [.learner 1 2, .learner 2 1]

/-- Server 1 has learned `v`, and takes its order to be still open. -/
def repeated : List Action :=
  open LaptopPaxos.Action in
  restart ++ [.learner 1 2] ++ again ++ scouts 1 2 ++ talk 1 2 ++ talk 1 3 ++ scouts 1 5 ++
    [.learner 1 1]

/-- The order is placed once and learned for two slots. -/
def Shows (c : Cluster) : Prop :=
  (orders c.hist).Nodup ∧ .learned 1 v ∈ c.hist ∧ .learned 1 w ∈ c.hist

instance : DecidablePred Shows := fun _ => inferInstanceAs (Decidable (_ ∧ _ ∧ _))

theorem exists_run : ∃ c, (cluster (.numbered 3)).Reachable c ∧ Shows c :=
  LaptopPaxos.exists_run (.numbered 3) (fun _ _ => True) Shows repeated (by decide +kernel)

end LostReply

theorem at_most_once_restart : ∃ c : Cluster, .learned 1 LostReply.v ∈ c.hist ∧
    ∀ j w, .learned j w ∈ c.hist → w.order = (7, 0) → w.slot = 1 := by
  obtain ⟨c, hc, hnd, hv⟩ := exists_run (.numbered 3) (OnScout FreshOrder)
    (fun c => (orders c.hist).Nodup ∧ .learned 1 LostReply.v ∈ c.hist) LostReply.finish
    (by decide +kernel)
  exact ⟨c, hv, fun j w hw hord => at_most_once hc hnd hw hv hord⟩

theorem not_at_most_once : ¬∀ D c, (cluster D).Reachable c → (orders c.hist).Nodup →
    ∀ i j v w, .learned i v ∈ c.hist → .learned j w ∈ c.hist → v.order = w.order →
      v.slot = w.slot := by
  intro h
  obtain ⟨c, hc, hnd, hv, hw⟩ := LostReply.exists_run
  exact absurd (h _ c hc hnd 1 1 _ _ hv hw rfl) (by decide)

end LaptopPaxos
