import LaptopPaxos.Orders

/-!
# Acknowledgements

A customer gets the laptop when `ScoutBrocasting` returns 1. The order has then
been chosen if the Scout has learned about a majority for its own command. But
it also returns 1 after its own command was accepted by a few only, or by
hardly anyone, or after it has finished the command of somebody else. Along the
runs without these (`FinishesOwn`), acknowledgements are sound
(`acknowledged`).
-/

namespace LaptopPaxos

open LaptopFactory

/-- A Scout at the end of an accept phase has had its own command accepted by a
    majority or by no acceptor, or has had a command of the system accepted
    that is for the order it works on, or not by a majority. -/
def FinishesOwn (c : Cluster) (i : ℤ) : ScoutPc → Prop
  | .p2a laptop ph [] =>
    (ph.own = true → (c.factory i).numOfAcceptors / 2 < ph.activeAcceptors ∧
      (ph.acceptNumber = 0 ∨ (c.factory i).numOfAcceptors / 2 < ph.acceptNumber)) ∧
    (ph.own = false → (c.factory i).numOfAcceptors / 2 < ph.acceptNumber →
      ph.cmd.order = laptop.order)
  | _ => True

instance (c : Cluster) (i : ℤ) : (pc : ScoutPc) → Decidable (FinishesOwn c i pc)
  | .p2a _ _ [] => inferInstanceAs (Decidable (_ ∧ _))
  | .p2a _ _ (_ :: _) | .idle | .connect .. | .p1a .. | .p1b .. | .propose .. | .pickSlot ..
  | .p2b .. | .command .. | .learn .. | .record .. => isTrue trivial

/-- A command for the order has been chosen. -/
def OrderChosen (D : Deployment) (h : List Event) (P : ℤ × ℤ) : Prop :=
  ∃ n v, v.order = P ∧ Chosen D h n v

/-- What a Scout finishes is the order it works on. -/
def ScoutPc.Finishing (D : Deployment) (h : List Event) : ScoutPc → Prop
  | .command laptop cmd | .learn laptop cmd _ => cmd.order = laptop.order
  | .record laptop => OrderChosen D h laptop.order
  | _ => True

structure Acknowledging (D : Deployment) (c : Cluster) : Prop where
  scout : ∀ i, (c.scout i).Finishing D c.hist
  returned : ∀ i laptop, .returned i laptop 1 ∈ c.hist → OrderChosen D c.hist laptop.order

section

variable {D : Deployment} {c c' : Cluster} {act : Action} {i : ℤ} {f : LaptopFactory}
  {inbox : ℤ → List PaxosMsg} {env : Env} {pc : ScoutPc} {e : Effect} {h : List Event}

theorem OrderChosen.mono {P : ℤ × ℤ} (hc : OrderChosen D h P) (evs : List Event) :
    OrderChosen D (evs ++ h) P := by
  obtain ⟨n, v, hv, hn⟩ := hc
  exact ⟨n, v, hv, hn.mono evs⟩

theorem ScoutPc.Finishing.mono (hpc : pc.Finishing D h) (evs : List Event) :
    pc.Finishing D (evs ++ h) := by
  cases pc with
  | record => exact OrderChosen.mono hpc evs
  | command => exact hpc
  | learn => exact hpc
  | _ => trivial

theorem ScoutStep.finishing (hs : ScoutStep i (c.factory i) inbox env pc e)
    (hpc : pc.Finishing D h) (hd : pc.Deciding D h i n) (hown : pc.OwnOrder)
    (hok : FinishesOwn c i pc) : e.pc.Finishing D (e.events ++ h) := by
  cases hs with
  | connect =>
    rw [scoutConnect]
    split_ifs <;> trivial
  | @accept laptop ph hres =>
    change ph.cmd.order = laptop.order
    -- its own command is for its order, and another is by the condition
    cases hph : ph.own with
    | true => exact hown hph
    | false => exact hok.2 hph (acceptResult_eq_one.1 hres).2
  | @drop laptop ph hph hres =>
    -- a majority was active, and accepted or did not accept at all
    obtain ⟨hact, hnone | hmaj⟩ := hok.1 hph
    · rw [acceptResult_eq_zero.2 ⟨hact, hnone⟩] at hres
      exact absurd hres (by decide)
    · rw [acceptResult_eq_one.2 ⟨hact, hmaj⟩] at hres
      exact absurd hres (by decide)
  | command =>
    rw [commanderConnect]
    split_ifs <;> exact hpc
  | sendLearn => exact hpc
  | failLearn => exact hpc
  | @endLearn laptop cmd =>
    obtain ⟨n, hn⟩ := hd
    exact ⟨n, cmd, hpc, hn⟩
  | _ => trivial

theorem ScoutStep.returned (hs : ScoutStep i f inbox env pc e) {j : ℤ} {laptop : LaptopInfo}
    (hev : .returned j laptop 1 ∈ e.events) :
    ∃ laptop', pc = .record laptop' ∧ laptop.order = laptop'.order := by
  cases hs with
  | @record laptop' =>
    rcases List.mem_cons.1 hev with hev | hev
    · cases hev; exact ⟨laptop', rfl, rfl⟩
    · cases List.mem_singleton.1 hev
  | _ => simp [scoutReturn, LaptopPaxos.pickSlot, scoutConnect, commanderConnect] at hev

theorem Acknowledging.step (hr : (cluster D).Reachable c) (hc : Acknowledging D c)
    (hok : OnScout FinishesOwn c act) (h : ReplicaStep D c act c') : Acknowledging D c' := by
  obtain ⟨evs, hh⟩ := h.grows
  refine ⟨fun j => ?_, fun j laptop hl => ?_⟩
  · cases h with
    | quiet hst =>
      rw [hst.scout, hh]
      exact (hc.scout j).mono evs
    | @scout i env e _ hs =>
      rw [Cluster.scout_applyEffect]
      split_ifs with hj
      · exact hs.finishing (hc.scout i) ((deciding_of_reachable hr).scout i)
          ((ordering_of_reachable hr).own i) hok
      · exact (hc.scout j).mono e.events
    | learner =>
      rw [Cluster.scout_learnMsg, hh]
      exact (hc.scout j).mono evs
  · rw [hh]
    rcases h.mem_hist hl not_false (fun _ _ heq => by cases heq)
      with hold | ⟨i, env, e, rfl, hs, hev⟩
    · exact (hc.returned j laptop hold).mono evs
    · -- a Scout returns 1 after it has recorded the order it was finishing
      obtain ⟨laptop', hpc, ho⟩ := hs.returned hev
      have hfin := hc.scout i
      rw [hpc] at hfin
      exact ho ▸ OrderChosen.mono hfin evs

/-- Along the runs in which the Scouts finish the orders they work on, an order
    acknowledged has been chosen. -/
theorem acknowledged (h : (cluster D).ReachBy (OnScout FinishesOwn) c) {laptop : LaptopInfo}
    (hl : .returned i laptop 1 ∈ c.hist) :
    ∃ n v, v.order = laptop.order ∧ Chosen D c.hist n v := by
  have hc : Acknowledging D c :=
    reach_invariant h ⟨fun _ => trivial, fun _ _ hl => absurd hl List.not_mem_nil⟩
      fun hr hok hc hst => hc.step hr.reachable hok hst.replica
  exact hc.returned i laptop hl

end

theorem acknowledged_three : ∃ (c : Cluster) (laptop : LaptopInfo),
    .returned 1 laptop 1 ∈ c.hist ∧
      ∃ n v, v.order = laptop.order ∧ Chosen (.numbered 3) c.hist n v := by
  obtain ⟨c, hc, hl⟩ := exists_run (.numbered 3) (OnScout FinishesOwn)
    (fun c => .returned 1 ⟨7, 0, 1, 0, 1⟩ 1 ∈ c.hist) firstRun (by decide +kernel)
  exact ⟨c, _, hl, acknowledged hc hl⟩

namespace EarlyOrder

/-- The command of an event that is a vote. -/
def accepts : Event → Option Command
  | .accepted _ _ v => some v
  | _ => none

/-- A single server. The first order is chosen, but its learn message not
    handled, when the Scout takes up the second. So it recovers the command of
    the first, finishes it once more, and returns. -/
def run : List Action :=
  open LaptopPaxos.Action in
  .order 1 7 0 :: .order 1 7 1 :: scouts 1 2 ++ talk 1 1 ++ scouts 1 3 ++ talk 1 1 ++ scouts 1 5 ++
    scouts 1 2 ++ talk 1 1 ++ scouts 1 1 ++ talk 1 1 ++ scouts 1 2 ++ talk 1 1 ++ scouts 1 5

/-- The second order is acknowledged, and no command for it has been accepted. -/
def Shows (c : Cluster) : Prop :=
  .returned 1 ⟨7, 1, 1, 0, 1⟩ 1 ∈ c.hist ∧
    ∀ ev ∈ c.hist, (accepts ev).map Command.order ≠ some (7, 1)

instance : DecidablePred Shows := fun _ => inferInstanceAs (Decidable (_ ∧ _))

theorem exists_run : ∃ c, (cluster (.numbered 1)).Reachable c ∧ Shows c :=
  LaptopPaxos.exists_run (.numbered 1) (fun _ _ => True) Shows run (by decide +kernel)

end EarlyOrder

theorem not_acknowledged : ¬∀ D c, (cluster D).Reachable c → ∀ i laptop,
    .returned i laptop 1 ∈ c.hist → ∃ n v, v.order = laptop.order ∧ Chosen D c.hist n v := by
  intro h
  obtain ⟨c, hc, hl, hnone⟩ := EarlyOrder.exists_run
  obtain ⟨n, v, hv, hn⟩ := h _ c hc 1 _ hl
  obtain ⟨a, ha⟩ := hn.exists_accepted
  exact hnone _ ha (congrArg some hv)

end LaptopPaxos
