import LaptopPaxos.Recovery
import LaptopPaxos.Slots

/-!
# The logs of the servers

What the servers of a cluster write to their logs can be read back: every line is
for a command that the server has learned, which was once a Scout's own, and has
the address that the Scouts put there (`log_of_reachable`).
-/

namespace LaptopPaxos

open LaptopFactory Formatted

/-- The lines of the logs are for commands that have been learned; the Scouts' own
    commands have the default address. -/
structure Logged (c : Cluster) : Prop where
  log : ∀ i, ∃ saves, (c.factory i).log = logText saves ∧ ∀ e ∈ saves, .learned i e.2 ∈ c.hist
  own : ∀ i n v l, .proposed i n v true l ∈ c.hist → v.clientIp = ({} : PaxosMsg).clientIp

variable {D : Deployment} {c c' : Cluster} {act : Action}

theorem logged_init (D : Deployment) : Logged (Cluster.init D) where
  log i := by
    obtain ⟨m, s, h, -⟩ := D.factory_eq i
    refine ⟨[], ?_, List.forall_mem_nil _⟩
    change (D.factory i).log = ""
    rw [h]
  own _ _ _ _ hp := absurd hp List.not_mem_nil

/-- A step that leaves the logs alone. -/
theorem Logged.log_congr (hc : Logged c) (hlog : ∀ i, (c'.factory i).log = (c.factory i).log)
    (hh : ∃ evs, c'.hist = evs ++ c.hist) (i : ℤ) :
    ∃ saves, (c'.factory i).log = logText saves ∧ ∀ e ∈ saves, .learned i e.2 ∈ c'.hist := by
  obtain ⟨saves, hsaves, hlearned⟩ := hc.log i
  obtain ⟨evs, hh⟩ := hh
  exact ⟨saves, (hlog i).trans hsaves, fun e he =>
    hh ▸ List.mem_append_right _ (hlearned e he)⟩

theorem Logged.step (hd : Deciding D c) (hc : Logged c) (h : ReplicaStep D c act c') :
    Logged c' := by
  refine ⟨?_, fun i n v l hp => ?_⟩
  · have hgrows := h.grows
    cases h with
    | quiet hst => exact hc.log_congr (fun i => (hst.sameReplica i).log) hgrows
    | @scout i env e _ hs =>
      refine hc.log_congr (fun j => ?_) hgrows
      rw [Cluster.factory_applyEffect]
      split_ifs with hj
      · rw [hs.frame.2.1.log, hj]
      · rfl
    | @learner a i msg rest _ hq =>
      obtain ⟨v, n, rfl, -⟩ := hd.toLearner i a msg (hq ▸ List.mem_cons_self)
      intro j
      obtain ⟨saves, hsaves, hlearned⟩ := hc.log j
      rw [Cluster.factory_learnMsg]
      split_ifs with hj
      · subst hj
        -- the call writes lines for the command that it is called with
        obtain ⟨k, -, hlearn⟩ := learn_spec v (c.factory j)
        refine ⟨saves ++ linesFrom v (c.factory j).slotOut k, ?_, ?_⟩
        · rw [learnerEngineer_learn, hlearn, hsaves, logText_append]
        · rintro e he
          rcases List.mem_append.1 he with he | he
          · exact List.mem_cons_of_mem _ (hlearned e he)
          · exact (mem_linesFrom.1 he).1 ▸ List.mem_cons_self
      · exact ⟨saves, hsaves, fun e he => List.mem_cons_of_mem _ (hlearned e he)⟩
  · rcases h.mem_hist hp id (fun _ _ => Event.noConfusion) with hold | ⟨j, env, e, -, hs, hev⟩
    · exact hc.own i n v l hold
    · obtain ⟨-, -, laptop, ⟨hown, -⟩ | ⟨-, -, rfl⟩⟩ := hs.proposed hev
      · cases hown
      · rfl

theorem logged_of_reachable (h : (cluster D).Reachable c) : Logged c :=
  reach_invariant h (logged_init D) fun hr _ hc hst => hc.step (deciding_of_reachable hr) hst.replica

/-- In every run, the log of a server is a file of lines that can be read back, if
    their numbers are values of `int`. -/
theorem log_of_reachable (h : (cluster D).Reachable c) (i : ℤ) : ∃ saves,
    (c.factory i).log = savedFile saves ∧ ∀ e ∈ saves,
      (∀ n ∈ [e.1, e.2.slot, e.2.commandId, e.2.customerId, e.2.orderId], IsInt n) →
        Storable e := by
  have hh := explained_of_reachable h
  have hc := logged_of_reachable h
  obtain ⟨saves, hsaves, hlearned⟩ := hc.log i
  refine ⟨saves, hsaves.trans (savedFile_eq saves).symm, fun e he hints => ?_⟩
  -- the command was learned, so chosen, accepted and proposed
  obtain ⟨n, hn⟩ := chosen_of_learned hh.backed (hlearned e he)
  obtain ⟨a, ha⟩ := hn.exists_accepted
  obtain ⟨j, own, l, hl⟩ := hh.proposed_of_accepted ha
  obtain ⟨h₁, h₂, k, m, l', hsplit⟩ := hh.origin hl
  have hip := hc.own k m e.2 l' (hsplit ▸ List.mem_append_right _ List.mem_cons_self)
  simp only [List.forall_mem_cons] at hints
  obtain ⟨hkey, hslot, hid, hcustomer, horder, -⟩ := hints
  have hword : IsWord ({} : PaxosMsg).clientIp.toList := by decide +kernel
  exact ⟨hkey, hslot, hid, hip ▸ hword, hcustomer, horder⟩

end LaptopPaxos
