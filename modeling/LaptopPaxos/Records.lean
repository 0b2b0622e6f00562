import LaptopPaxos.Orders

/-!
# Customer records

The record of a customer is written where the order was taken: by the Scout of
that server when `ScoutBrocasting` returns 1, and by the backup engineer. A
query is answered with the last order written at the same server
(`customerRecord_eq`). Decisions do not enter, so that two servers with the
same decisions give the same answer only if the last orders written are the
same (`replicated_reads`).
-/

namespace LaptopPaxos

open LaptopFactory

/-- The order that the event writes to the record of the customer at the server
    `i`, if any. -/
def Event.recordAt (i customerId : ℤ) : Event → Option ℤ
  | .recorded j k orderId => if j = i ∧ k = customerId then some orderId else none
  | _ => none

/-- The event writes no record. -/
def Event.Unrecorded (ev : Event) : Prop := ∀ i customerId, ev.recordAt i customerId = none

/-- The last order written to the record of the customer at the server `i`. -/
def lastRecorded (i customerId : ℤ) (h : List Event) : Option ℤ :=
  h.findSome? (Event.recordAt i customerId)

section

variable {D : Deployment} {c c' : Cluster} {act : Action} {i customerId : ℤ} {evs h : List Event}

theorem lastRecorded_append :
    lastRecorded i customerId (evs ++ h) =
      (lastRecorded i customerId evs).or (lastRecorded i customerId h) :=
  List.findSome?_append

theorem lastRecorded_eq_none (hevs : ∀ ev ∈ evs, ev.recordAt i customerId = none) :
    lastRecorded i customerId evs = none :=
  List.findSome?_eq_none_iff.2 hevs

theorem lastRecorded_singleton (j k orderId : ℤ) :
    lastRecorded i customerId [.recorded j k orderId] =
      if j = i ∧ k = customerId then some orderId else none := by
  rw [lastRecorded, List.findSome?_singleton, Event.recordAt]

/-- Who writes the record of a customer. -/
def Writes (c : Cluster) (i customerId : ℤ) : Action → Prop
  | .scout j _ => j = i ∧ ∃ laptop, c.scout i = .record laptop ∧ laptop.customerId = customerId
  | .backup j _ => j = i
  | _ => False

/-- What a step writes to the records it tells in its events. -/
structure RecordStep (c : Cluster) (act : Action) (c' : Cluster) (evs : List Event) : Prop where
  hist : c'.hist = evs ++ c.hist
  find : ∀ i customerId, (c'.factory i).customerRecord.find? customerId =
    (lastRecorded i customerId evs).or ((c.factory i).customerRecord.find? customerId)
  writes : ∀ i customerId, lastRecorded i customerId evs ≠ none → Writes c i customerId act

theorem RecordStep.of_unrecorded (hh : c'.hist = evs ++ c.hist)
    (hevs : ∀ ev ∈ evs, ev.Unrecorded)
    (hf : ∀ j, (c'.factory j).customerRecord = (c.factory j).customerRecord) :
    RecordStep c act c' evs := by
  have hnone : ∀ i customerId, lastRecorded i customerId evs = none := fun i customerId =>
    lastRecorded_eq_none fun ev hev => hevs ev hev i customerId
  refine ⟨hh, fun i customerId => ?_, fun i customerId h => absurd (hnone i customerId) h⟩
  rw [hf, hnone, Option.none_or]

/-- One record is written at the server `i`. -/
theorem RecordStep.of_recorded (k orderId : ℤ) (hh : c'.hist = evs ++ c.hist)
    (hevs : ∀ j customerId, lastRecorded j customerId evs =
      if i = j ∧ k = customerId then some orderId else none)
    (hf : ∀ j, (c'.factory j).customerRecord =
      if j = i then (c.factory i).customerRecord.insert k orderId else (c.factory j).customerRecord)
    (hw : Writes c i k act) : RecordStep c act c' evs := by
  refine ⟨hh, fun j customerId => ?_, fun j customerId h => ?_⟩
  · rw [hf, hevs]
    by_cases hj : j = i
    · subst hj
      rw [if_pos rfl, StdMap.find?_insert]
      by_cases hk : customerId = k
      · rw [if_pos hk, if_pos ⟨rfl, hk.symm⟩, Option.some_or]
      · rw [if_neg hk, if_neg fun h => hk h.2.symm, Option.none_or]
    · rw [if_neg hj, if_neg fun h => hj h.1.symm, Option.none_or]
  · rw [hevs] at h
    split_ifs at h with hik
    · obtain ⟨rfl, rfl⟩ := hik
      exact hw
    · exact absurd rfl h

theorem ScoutStep.recording {f : LaptopFactory} {inbox : ℤ → List PaxosMsg} {env : Env}
    {pc : ScoutPc} {e : Effect} (hs : ScoutStep i f inbox env pc e) :
    (e.factory.customerRecord = f.customerRecord ∧
        ∀ ev ∈ e.events, ev.Unrecorded) ∨
      ∃ laptop, pc = .record laptop ∧ e = recordOrder i f laptop := by
  cases hs with
  | record => exact .inr ⟨_, rfl, rfl⟩
  | connect =>
    rw [scoutConnect]
    split_ifs <;> exact .inl ⟨rfl, fun ev hev => absurd hev List.not_mem_nil⟩
  | command =>
    rw [commanderConnect]
    split_ifs <;> exact .inl ⟨rfl, fun ev hev => absurd hev List.not_mem_nil⟩
  | pickSlot => exact .inl ⟨rfl, by simp [LaptopPaxos.pickSlot, Event.Unrecorded, Event.recordAt]⟩
  | _ => exact .inl ⟨rfl, by simp [Event.Unrecorded, Event.recordAt, scoutReturn]⟩

theorem backupEngineer_recording {f f' : LaptopFactory} {r : LogRequest}
    (h : f.backupEngineer r = some f') (i : ℤ) :
    (f'.customerRecord = f.customerRecord ∧ Cluster.backupEvents i f r = []) ∨
      ∃ op : MapOp, f'.customerRecord = f.customerRecord.insert op.arg1 op.arg2 ∧
        Cluster.backupEvents i f r = [.recorded i op.arg1 op.arg2] := by
  simp only [backupEngineer] at h
  rw [Cluster.backupEvents]
  split_ifs at h with hv hk
  · obtain ⟨op, hop, rfl⟩ := Option.map_eq_some_iff.1 h
    refine .inr ⟨op, rfl, ?_⟩
    rw [if_pos ⟨hv, hk⟩, hop]
    rfl
  · cases h
    exact .inl ⟨rfl, if_neg fun hc => hk hc.2⟩
  · cases h
    exact .inl ⟨rfl, if_neg fun hc => hv hc.1⟩

theorem Step.record (h : Step D c act c') : ∃ evs, RecordStep c act c' evs := by
  cases h with
  | @request i e r _ =>
    obtain ⟨evs, hh, hevs⟩ := @Cluster.requestEvents c Event.Unrecorded i r (fun _ _ => rfl)
      (fun _ _ _ => rfl) e
    refine ⟨evs, .of_unrecorded hh hevs fun j => ?_⟩
    rw [Cluster.factory_requestMsg]
    split_ifs with hj
    · rw [hj, customerEngineer]
      split_ifs <;> rfl
    · rfl
  | @backup i r f _ hf =>
    have hfac := @Cluster.factory_backupMsg c i r f
    rcases backupEngineer_recording hf i with ⟨hrec, hevs⟩ | ⟨op, hrec, hevs⟩
    · refine ⟨[], .of_unrecorded ?_ (fun ev hev => absurd hev List.not_mem_nil) fun j => ?_⟩
      · rw [Cluster.hist_backupMsg, hevs]
      · rw [hfac]
        split_ifs with hj
        · rw [hrec, hj]
        · rfl
    · refine ⟨[.recorded i op.arg1 op.arg2], .of_recorded op.arg1 op.arg2 ?_ (fun j customerId => ?_)
        (fun j => ?_) rfl⟩
      · rw [Cluster.hist_backupMsg, hevs]
      · exact lastRecorded_singleton i op.arg1 op.arg2
      · rw [hfac]
        split_ifs with hj
        · rw [hrec]
        · rfl
  | @scout i env e _ hs =>
    rcases hs.recording with ⟨hf, hevs⟩ | ⟨laptop, hpc, rfl⟩
    · refine ⟨e.events, .of_unrecorded rfl hevs fun j => ?_⟩
      rw [Cluster.factory_applyEffect]
      split_ifs with hj
      · rw [hf, hj]
      · rfl
    · refine ⟨_, .of_recorded laptop.customerId laptop.orderNumber rfl (fun j customerId => ?_)
        (fun j => ?_) ⟨rfl, laptop, hpc, rfl⟩⟩
      · exact lastRecorded_singleton i laptop.customerId laptop.orderNumber
      · rw [Cluster.factory_applyEffect]
        split_ifs <;> rfl
  | @acceptor a i msg rest _ _ =>
    exact ⟨_, .of_unrecorded (Cluster.hist_acceptMsg a i msg rest)
      (Cluster.forall_acceptorEvents (fun _ _ _ _ => rfl) (fun _ _ _ _ => rfl) i msg _) fun j =>
        (sameDesk_acceptMsg c a i msg rest j).customerRecord⟩
  | @learner a i msg rest _ _ =>
    obtain ⟨evs, hh, hevs⟩ :=
      @Cluster.learnEvents c Event.Unrecorded a (fun _ _ _ => rfl) i msg rest
    exact ⟨evs, .of_unrecorded hh hevs fun j => (sameDesk_learnMsg c a i msg rest j).customerRecord⟩
  | @crash i _ =>
    exact ⟨[], .of_unrecorded rfl (fun ev hev => absurd hev List.not_mem_nil) fun j =>
      congrArg _ (Cluster.factory_crash i j)⟩

/-- The record of a customer holds the last order written to it. -/
theorem customerRecord_eq (h : (cluster D).Reachable c) (i customerId : ℤ) :
    (c.factory i).customerRecord.find? customerId = lastRecorded i customerId c.hist := by
  refine @reach_invariant D c _ (fun c => (c.factory i).customerRecord.find? customerId =
    lastRecorded i customerId c.hist) h ?_ ?_
  · obtain ⟨m, s, hf, -⟩ := D.factory_eq i
    change (D.factory i).customerRecord.find? customerId = none
    rw [hf, StdMap.find?_empty]
  · intro c act c' _ _ ih hst
    obtain ⟨evs, hh, hfind, -⟩ := hst.record
    rw [hfind, ih, hh, lastRecorded_append]

/-- The answer to a query is the last order recorded, if any. -/
theorem createCustomerRecord_eq (h : (cluster D).Reachable c) (i : ℤ) (r : CustomerRequest) :
    (c.factory i).createCustomerRecord r =
      ((lastRecorded i r.customerId c.hist).map (CustomerRecord.mk r.customerId)).getD ⟨-1, -1⟩ := by
  rw [createCustomerRecord, customerRecord_eq h]
  cases lastRecorded i r.customerId c.hist <;> rfl

/-- Two servers give the same answer if and only if the last orders they have
    recorded for the customer are the same, whatever they have decided; and the
    answer of a server only changes where its Scout records an order of the
    customer, or its backup engineer handles a log request. -/
theorem replicated_reads (h : (cluster D).Reachable c) {r : CustomerRequest} (hr : r.isValid) :
    (∀ i j, (c.factory i).createCustomerRecord r = (c.factory j).createCustomerRecord r ↔
        lastRecorded i r.customerId c.hist = lastRecorded j r.customerId c.hist) ∧
      ∀ i act c', (cluster D).step c act = some c' →
        (c'.factory i).createCustomerRecord r ≠ (c.factory i).createCustomerRecord r →
          Writes c i r.customerId act := by
  refine ⟨fun i j => ?_, fun i act c' hst hne => ?_⟩
  · rw [createCustomerRecord_eq h, createCustomerRecord_eq h]
    refine ⟨fun heq => ?_, fun heq => by rw [heq]⟩
    -- the answer that there is no record is not a record of the customer
    have hid : ∀ {o}, CustomerRecord.mk r.customerId o ≠ ⟨-1, -1⟩ := fun hrec =>
      hr (congrArg CustomerRecord.customerId hrec)
    cases hi : lastRecorded i r.customerId c.hist with
    | none =>
      cases hj : lastRecorded j r.customerId c.hist with
      | none => rfl
      | some o => rw [hi, hj] at heq; exact absurd heq.symm hid
    | some o =>
      cases hj : lastRecorded j r.customerId c.hist with
      | none => rw [hi, hj] at heq; exact absurd heq hid
      | some o' =>
        rw [hi, hj] at heq
        exact congrArg (fun record => some record.lastOrder) heq
  · -- a step that writes no record of the customer keeps the answer
    obtain ⟨evs, hevs⟩ := (step_cases hst).record
    by_contra hw
    refine hne ?_
    have hnone : lastRecorded i r.customerId evs = none := by
      by_contra hsome
      exact hw (hevs.writes i r.customerId hsome)
    rw [createCustomerRecord, createCustomerRecord, hevs.find, hnone, Option.none_or]

end

namespace Failover

/-- Two servers. The order is placed at server 1, chosen and recorded there, and
    learned by both. -/
def run : List Action :=
  open LaptopPaxos.Action in
  .order 1 7 0 :: scouts 1 2 ++ talk 1 1 ++ talk 1 2 ++ scouts 1 3 ++ talk 1 1 ++ talk 1 2 ++
    scouts 1 6 ++ [.learner 1 1, .learner 2 1]

/-- The customer places the order once more, at server 2. -/
def again : List Action :=
  open LaptopPaxos.Action in
  run ++ .order 2 7 0 :: scouts 2 2 ++ talk 2 1 ++ talk 2 2 ++ scouts 2 1 ++ talk 2 1 ++ talk 2 2 ++
    scouts 2 3 ++ talk 2 1 ++ talk 2 2 ++ scouts 2 6

/-- A query for the record of the customer. -/
def query : CustomerRequest := ⟨7, -1, 2⟩

/-- The servers have decided the same, and answer differently. -/
def Shows (c : Cluster) : Prop :=
  (c.factory 1).slotOut = 2 ∧ (c.factory 2).slotOut = 2 ∧
    (c.factory 1).decisionMap = (c.factory 2).decisionMap ∧
    (c.factory 1).createCustomerRecord query ≠ (c.factory 2).createCustomerRecord query

instance : DecidablePred Shows := fun _ => inferInstanceAs (Decidable (_ ∧ _ ∧ _ ∧ _))

theorem exists_run : ∃ c, (cluster (.numbered 2)).Reachable c ∧ Shows c :=
  LaptopPaxos.exists_run (.numbered 2) (fun _ _ => True) Shows run (by decide +kernel)

end Failover

theorem replicated_reads_again : ∃ c : Cluster,
    (c.factory 1).createCustomerRecord Failover.query = ⟨7, 0⟩ ∧
      (c.factory 1).createCustomerRecord Failover.query =
        (c.factory 2).createCustomerRecord Failover.query := by
  obtain ⟨c, hc, hrec, hlast⟩ := exists_run (.numbered 2) (fun _ _ => True)
    (fun c => (c.factory 1).createCustomerRecord Failover.query = ⟨7, 0⟩ ∧
      lastRecorded 1 7 c.hist = lastRecorded 2 7 c.hist) Failover.again (by decide +kernel)
  exact ⟨c, hrec, ((replicated_reads hc (by decide)).1 1 2).2 hlast⟩

theorem not_replicated_reads : ¬∀ D c, (cluster D).Reachable c → ∀ i ∈ D.ids, ∀ j ∈ D.ids,
    (c.factory i).slotOut = (c.factory j).slotOut →
    (∀ s, s < (c.factory i).slotOut →
      (c.factory i).decisionMap.find? s = (c.factory j).decisionMap.find? s) →
    ∀ r, (c.factory i).createCustomerRecord r = (c.factory j).createCustomerRecord r := by
  intro h
  obtain ⟨c, hc, h₁, h₂, hmap, hne⟩ := Failover.exists_run
  exact hne (h _ c hc 1 (by decide) 2 (by decide) (h₁.trans h₂.symm) (fun s _ => by rw [hmap]) _)

end LaptopPaxos
