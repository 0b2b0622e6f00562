import LaptopPaxos.Records
import LaptopPaxos.Refinement

/-!
# Orders end to end

Nothing is made up on the way from the clients to the servers: every order that a server
has on its queue, works on or has recorded is one that an engineer of this server has
received from a client and that this client makes (`Net.Placed`), and every command that
a server has received, accepted or learned is for such an order (`orders_placed`).

What the queues, the Scouts, the acceptors and the learners hold is shown of the cluster
(`Ordering`, `Carried`) and holds on the network as this refines the cluster. The records,
and what the engineers have received, are what the network adds: `Kept` is an invariant of
its runs, and each step of it rests on the state of the cluster before.
-/

namespace LaptopPaxos

open LaptopFactory

namespace Net

/-- An engineer of the server `i` has received the order `P` of the client `cl`. -/
def Placed (s : Net) (cl i : ℤ) (P : ℤ × ℤ) : Prop :=
  (s.client cl).requestType = 1 ∧ ∃ x, 0 ≤ x ∧ x < (s.client cl).numOrders ∧
    P = (narrowInt (s.client cl).customerId, narrowInt x) ∧
    ∃ n k, s.conn (.customer cl n) = some k ∧ k.server = i ∧
      some (.message (.customerRequest ⟨P.1, P.2, 1⟩)) ∈ k.up.decoded

/-- The server `i` has the order on its queue, works on it or has recorded it. -/
inductive Serves (s : Net) (i : ℤ) : ℤ × ℤ → Prop
  | queue {req : ClientRequest} : req ∈ (s.node i).factory.erq → Serves s i req.laptop.order
  | scout {laptop : LaptopInfo} : (s.node i).scout.laptop = some laptop → Serves s i laptop.order
  | recorded {customerId orderId : ℤ} :
      (s.node i).factory.customerRecord.find? customerId = some orderId →
      Serves s i (customerId, orderId)

/-- The command has been received in a p2a message or by a learner, has been accepted or
    has been decided. -/
inductive Holds (s : Net) : Command → Prop
  | received {i : ℤ} {x : SocketId} {ℓ : Link} {k : Conn} {m : PaxosMsg} :
      Link.ofStub i x = some ℓ → s.conn ℓ = some k →
      some (.message (.paxosMsg m)) ∈ k.up.decoded → m.phase ≠ 1 → Holds s m.getCommand
  | accepted {a : ℤ} : (s.node a).factory.acceptedProposalNumber ≠ -1 →
      Holds s (s.node a).factory.acceptedValue
  | decided {i slot : ℤ} {v : Command} :
      (s.node i).factory.decisionMap.find? slot = some v → Holds s v

/-- What the network adds to the cluster. -/
structure Kept (s : Net) : Prop where
  records : ∀ i customerId orderId,
    (s.node i).factory.customerRecord.find? customerId = some orderId →
    ∃ cl, s.Placed cl i (customerId, orderId)
  received : ∀ i x ℓ k m, Link.ofStub i x = some ℓ → s.conn ℓ = some k →
    some (.message (.paxosMsg m)) ∈ k.up.decoded → m.phase ≠ 1 →
    1 ≤ m.getCommand.slot ∧ ∃ cl j, s.Placed cl j m.getCommand.order

section

variable {H : Hosts} {s s' : Net} {c : Cluster} {i cl : ℤ} {P : ℤ × ℤ} {v : Command} {ℓ : Link}
  {k : Conn} {x : SocketId} {m : PaxosMsg}

/-! ### Orders that have been placed -/

theorem Placed.mono (h : s.Placed cl i P) (hgrows : s.Grows s')
    (hargs : (s.client cl).SameArgs (s'.client cl)) : s'.Placed cl i P := by
  obtain ⟨htype, x, hx, hlt, hP, n, k, hk, hserver, hmem⟩ := h
  obtain ⟨k', hk', hserver', -, hpre⟩ := hgrows cl n k hk
  exact ⟨hargs.requestType.trans htype, x, hx, hargs.numOrders ▸ hlt, hargs.customerId ▸ hP, n, k',
    hk', hserver'.trans hserver, hpre.subset hmem⟩

/-- No step changes the arguments of a client. -/
theorem sameArgs_step {act : NetAction} (hst : s.step H act = some s') :
    (s.client cl).SameArgs (s'.client cl) := by
  cases netStep_cases hst with
  | engineer => exact ⟨rfl, rfl, rfl⟩
  | scout => exact ⟨rfl, rfl, rfl⟩
  | @client c env j r hr hu hj =>
    rw [client_applyClient]
    by_cases hc : cl = c
    · subst hc
      rw [Function.update_self]
      exact hr.sameArgs
    · rw [Function.update_of_ne hc]
      exact ⟨rfl, rfl, rfl⟩

/-- An order of the cluster has come from a client that makes it. -/
theorem Refines.placed (h : s.Refines H c) (hreg : s.Regular H) (ho : OrderedAt c.hist i P) :
    ∃ cl, s.Placed cl i P := by
  obtain ⟨r, hr, -, htype, rfl⟩ := ho
  obtain ⟨cl, n, k, hk, hserver, hmem⟩ := h.submitted i r hr
  have hcalled := (hreg.line cl n k hk).called
  obtain ⟨p, hp, heq⟩ := List.mem_map.1 (hcalled.up.ordered.subset hmem)
  cases heq
  obtain ⟨d, hd⟩ := List.getElem?_of_mem hp
  have hplan := hcalled.plan d _ hd
  cases d with
  | zero => cases hplan
  | succ d =>
    obtain ⟨q, ⟨x, hx, hhead, rfl⟩, heq⟩ := hplan
    cases heq
    -- only a client that places orders sends a request of this type
    have hone : (s.client cl).requestType = 1 := by
      by_contra hne
      have hq := (s.client cl).requestType_customerRequest x
      rw [if_neg hne] at hq
      change narrowInt ((s.client cl).customerRequest x).requestType = 1 at htype
      rw [hq] at htype
      exact absurd htype (by decide)
    have hlt : x < (s.client cl).numOrders := by
      rw [Client.head, if_pos (.inl hone)] at hhead
      split_ifs at hhead with hlt
      exact hlt
    have hreq : (s.client cl).customerRequest x = ⟨(s.client cl).customerId, x, 1⟩ := by
      rw [Client.customerRequest, if_pos hone, hone]
    rw [hreq] at hmem ⊢
    exact ⟨cl, hone, x, hx, hlt, rfl, n, k, hk, hserver, hmem⟩

/-- So has a command that is carried. -/
theorem Refines.valid (h : s.Refines H c) (hreg : s.Regular H)
    (hc : (cluster H.toDeployment).Reachable c) (hv : Carried c v) :
    1 ≤ v.slot ∧ ∃ cl j, s.Placed cl j v.order := by
  obtain ⟨i, n, own, l, hp⟩ := hv.proposed hc
  obtain ⟨hslot, -, j, ho⟩ := valid_of_proposed hc hp
  obtain ⟨cl, hcl⟩ := h.placed hreg ho
  exact ⟨hslot, cl, j, hcl⟩

/-! ### Records and received messages -/

/-- Only a log request would make an engineer write a record. -/
theorem records_handled {e : ℤ} {f : LaptopFactory} {p : Parcel} {r : LaptopFactory × SessionPc}
    (h : Handled e f p r) : r.1.customerRecord = f.customerRecord := by
  cases h with
  | @acceptor m =>
    have h := acceptorEngineer_cases f m
    generalize (f.acceptorEngineer m).1 = f', (f.acceptorEngineer m).2 = o at h
    cases h <;> rfl
  | @learner m => exact (learnerEngineer_desk f m).customerRecord
  | _ => rfl

theorem records_engineerMove {o o' : ByteOrder} {role : Role} {e : ℤ} {f : LaptopFactory}
    {fut : Option LaptopInfo} {r : EngineerEffect} {k' : Conn}
    (hmove : EngineerMove o o' role e f fut k r k') :
    r.factory.customerRecord = f.customerRecord := by
  cases hmove with
  | send _ hfac => rw [hfac]
  | fail hfac => rw [hfac]
  | wake _ _ hfac => rw [hfac]
  | leave _ hfac => rw [hfac]
  | @handle p hopen hp hpre hup hk hfac =>
    rw [hfac]
    exact records_handled (handle_cases hup.not_logRequest hk)

theorem records_step {act : NetAction} (hreg : s.Regular H) (hst : s.step H act = some s') :
    (s'.node i).factory.customerRecord = (s.node i).factory.customerRecord ∨
      ∃ laptop, (s.node i).scout = .record laptop ∧ (s'.node i).factory.customerRecord =
        (s.node i).factory.customerRecord.insert laptop.customerId laptop.orderNumber := by
  cases netStep_cases hst with
  | @engineer ℓ answers k r hk hr hu =>
    refine .inl ?_
    by_cases hi : i = k.server
    · subst hi
      obtain ⟨k', -, hmove⟩ := exists_move hreg hk hr hu
      rw [node_applyEngineer_self]
      exact records_engineerMove hmove
    · rw [node_applyEngineer_of_ne hi]
  | @scout j env answers io r hj hio hr hu =>
    by_cases hi : i = j
    · subst hi
      rw [node_applyScout_self]
      rcases (scoutStep_cases hr).recording with ⟨hsame, -⟩ | ⟨laptop, hpc, rfl⟩
      · exact .inl hsame
      · exact .inr ⟨laptop, hpc, rfl⟩
    · rw [node_applyScout_of_ne hi]
      exact .inl rfl
  | client =>
    rw [node_applyClient]
    exact .inl rfl

/-- A message that an engineer has received had been decoded before, or is the next one
    of the cluster. -/
theorem Refines.received {act : NetAction} {k' : Conn} (h : s.Refines H c) (hreg : s.Regular H)
    (hst : s.step H act = some s') (hx : Link.ofStub i x = some ℓ) (hk' : s'.conn ℓ = some k')
    (hmem : some (.message (.paxosMsg m)) ∈ k'.up.decoded) :
    (∃ k, s.conn ℓ = some k ∧ some (.message (.paxosMsg m)) ∈ k.up.decoded) ∨
      m ∈ c.toPeer i x := by
  cases netStep_cases hst with
  | @engineer ℓ' answers k r hk hr hu =>
    by_cases hℓ : ℓ = ℓ'
    · subst hℓ
      obtain ⟨k₁, hk₁, hmove⟩ := exists_move hreg hk hr hu
      cases hk₁.symm.trans hk'
      cases hmove with
      | @handle p hopen hp hpre hup hkind =>
        rcases List.mem_append.1 hmem with hmem | hmem
        · exact .inl ⟨k, hk, hmem⟩
        · cases List.mem_singleton.1 hmem
          obtain ⟨ps, hps, hq⟩ := ((h.wires i x ℓ hx).conveys k hk).up hopen
          rw [(clientEnd_ofStub hx).1] at hpre
          obtain ⟨ps', rfl, -⟩ :=
            hps.head hp hpre (hup.marshal_ne_nil (hreg.heard hk).engineer hkind)
          rw [← hq]
          exact .inr List.mem_cons_self
      | fail => exact .inl ⟨k, hk, by simpa using hmem⟩
      | _ => exact .inl ⟨k, hk, hmem⟩
    · rw [conn_applyEngineer_of_ne hℓ] at hk'
      exact .inl ⟨k', hk', hmem⟩
  | @scout j env answers io r hj hio hr hu =>
    cases stems_applyScout hk' with
    | old hk hsame => exact .inl ⟨_, hk, hsame.decoded ▸ hmem⟩
    | new _ hsame =>
      rw [hsame.decoded] at hmem
      cases hmem
  | client =>
    rw [conn_applyClient fun n hn => Link.ofStub_ne_customer (hx.trans (congrArg some hn))] at hk'
    exact .inl ⟨k', hk', hmem⟩

theorem kept_init (hs : s ∈ (network H).init) : s.Kept := by
  obtain ⟨client, -, rfl⟩ := hs
  refine ⟨fun i customerId orderId hfind => ?_, fun i x ℓ k m hx hk => by cases hk⟩
  obtain ⟨m, config, hf, -⟩ := H.factory_eq i
  change (H.factory i).customerRecord.find? customerId = _ at hfind
  rw [hf] at hfind
  cases hfind

theorem Kept.step {act : NetAction} (h : s.Kept) (hR : s.Refines H c)
    (hc : (cluster H.toDeployment).Reachable c) (hreg : s.Regular H)
    (hst : s.step H act = some s') : s'.Kept := by
  have hmono : ∀ {cl i P}, s.Placed cl i P → s'.Placed cl i P :=
    fun hp => hp.mono (grows hreg hst) (sameArgs_step hst)
  refine ⟨fun i customerId orderId hfind => ?_, fun i x ℓ k' m hx hk' hmem hphase => ?_⟩
  · rcases records_step (i := i) hreg hst with hsame | ⟨laptop, hpc, hinsert⟩
    · rw [hsame] at hfind
      obtain ⟨cl, hp⟩ := h.records i customerId orderId hfind
      exact ⟨cl, hmono hp⟩
    · rw [hinsert, StdMap.find?_insert] at hfind
      split_ifs at hfind with hid
      · -- the order that the Scout has worked on
        obtain rfl := hid
        cases hfind
        rw [← hR.scout] at hpc
        obtain ⟨cl, hp⟩ := hR.placed hreg
          ((ordering_of_reachable hc).scout i laptop (by rw [hpc]; rfl))
        exact ⟨cl, hmono hp⟩
      · obtain ⟨cl, hp⟩ := h.records i customerId orderId hfind
        exact ⟨cl, hmono hp⟩
  · have hvalid : 1 ≤ m.getCommand.slot ∧ ∃ cl j, s.Placed cl j m.getCommand.order := by
      rcases hR.received hreg hst hx hk' hmem with ⟨k, hk, hmem⟩ | hmem
      · exact h.received i x ℓ k m hx hk hmem hphase
      · cases x with
        | engineer => cases hx
        | acceptor a =>
          refine hR.valid hreg hc (.p2a hmem ?_)
          obtain ⟨n, -, rfl | ⟨w, own, rfl, -⟩⟩ := (voting_of_reachable hc).sent i a m hmem
          · exact absurd rfl hphase
          · rfl
        | learner a => exact hR.valid hreg hc (.learn hmem)
    obtain ⟨hslot, cl, j, hp⟩ := hvalid
    exact ⟨hslot, cl, j, hmono hp⟩

/-- The state of the cluster of a run whose Scouts send `int`s. -/
theorem exists_cluster (hs : (network H).ReachBy (OnScout fun _ f pc => pc.IntSized f) s) :
    ∃ c, (cluster H.toDeployment).Reachable c ∧ s.Refines H c := by
  have hsim := simulation H fun _ _ _ => True
  obtain ⟨c, hc, hR⟩ := hsim.reach (hs.mono fun s act hok => by
    cases act with
    | scout => exact ⟨hok, trivial⟩
    | engineer | client => trivial)
  exact ⟨c, hc.reachable, hR⟩

theorem kept_of_reachBy (hs : (network H).ReachBy (OnScout fun _ f pc => pc.IntSized f) s) :
    s.Kept :=
  hs.invariant (fun _ => kept_init) fun _ _ _ hs h _ hst => by
    obtain ⟨c, hc, hR⟩ := exists_cluster hs
    exact h.step hR hc (regular_of_reachable hs.reachable) hst

/-! ### End to end -/

/-- Every order that a server serves has been received there from a client that makes it,
    and so has, at some server, the order of every command that a server holds. -/
theorem orders_placed (hs : (network H).ReachBy (OnScout fun _ f pc => pc.IntSized f) s) :
    (∀ i P, s.Serves i P → ∃ cl, s.Placed cl i P) ∧
      ∀ v, s.Holds v → 1 ≤ v.slot ∧ ∃ cl i, s.Placed cl i v.order := by
  have hreg := regular_of_reachable hs.reachable
  have hkept := kept_of_reachBy hs
  obtain ⟨c, hc, hR⟩ := exists_cluster hs
  have hord := ordering_of_reachable hc
  refine ⟨fun i P hP => ?_, fun v hv => ?_⟩
  · cases hP with
    | @queue req hreq =>
      rw [← hR.factory] at hreq
      exact hR.placed hreg (hord.queue i req hreq)
    | @scout laptop hlaptop =>
      rw [← hR.scout] at hlaptop
      exact hR.placed hreg (hord.scout i laptop hlaptop)
    | recorded hfind => exact hkept.records i _ _ hfind
  · cases hv with
    | received hx hk hmem hphase => exact hkept.received _ _ _ _ _ hx hk hmem hphase
    | @accepted a ha =>
      rw [← hR.factory] at ha ⊢
      exact hR.valid hreg hc (.accepted ha)
    | @decided i slot v hfind =>
      rw [← hR.factory] at hfind
      exact hR.valid hreg hc (.decided hfind)

/-- After the run of an order, the learner holds a command for it. -/
theorem orders_placed_one : ∃ s : Net, s.Holds OneOrder.cmd ∧ ∃ cl i, s.Placed cl i (7, 0) := by
  have hinit : (network OneOrder.hosts).ReachBy (OnScout fun _ f pc => pc.IntSized f)
      OneOrder.init := .init OneOrder.init_mem
  obtain ⟨s, hs, hdec⟩ := hinit.exists_of_runBy
    (P := fun s => (s.node 1).factory.decisionMap.find? 1 = some OneOrder.cmd) OneOrder.run
    (by decide +kernel)
  exact ⟨s, .decided hdec, ((orders_placed hs).2 _ (.decided hdec)).2⟩

end

end Net

end LaptopPaxos
