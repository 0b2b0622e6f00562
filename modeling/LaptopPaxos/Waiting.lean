import LaptopPaxos.Desks
import LaptopPaxos.Refinement

/-!
# Orders that wait

What a server still has to answer, and who waits for it. The laptops that a server has not
made yet are that of its Scout and those of its queue (`Net.outstanding`). For each of them
an engineer waits, and each engineer that waits has its own there once, or the value of its
promise (`Net.orders_kept`): on the way of an order through the threads of a server
nothing is lost, made twice or made up, whatever becomes of the connections.
-/

namespace LaptopPaxos

open LaptopFactory

section

variable {i e : ℤ} {k k' : Conn} {f : LaptopFactory} {role : Role} {o o' : ByteOrder}
  {fut : Option LaptopInfo} {r : EngineerEffect} {laptop : LaptopInfo}

/-- A step of an engineer leaves the queue alone, or the engineer pushes its own order. -/
theorem EngineerMove.erq (h : EngineerMove o o' role e f fut k r k') :
    r.factory.erq = f.erq ∨ ∃ rt q, role = .customer rt ∧
      r.factory.erq = f.erq ++ [clientRequest q e] := by
  cases h with
  | send _ hfac | fail hfac | wake _ _ hfac | leave _ hfac => exact .inl (by rw [hfac])
  | @handle p _ _ _ hup hkind hfac =>
    have hcases := handle_cases (e := e) (f := f) hup.not_logRequest hkind
    generalize LaptopPaxos.handle e f k.engineer.pc p = x at hcases hfac
    cases hcases with
    | @order q hp =>
      refine .inr ?_
      cases role with
      | customer rt => exact ⟨rt, q, rfl, by rw [hfac]; rfl⟩
      | acceptor | learner =>
        subst hp
        cases hd : k.up.decoded.length <;> rw [hd] at hup
        · cases hup
        · obtain ⟨m, heq, -⟩ := hup
          cases heq
    | record | free => exact .inl (by rw [hfac])
    | acceptor => exact .inl (by rw [hfac, erq_acceptorEngineer])
    | learner => exact .inl (by rw [hfac, (learnerEngineer_desk _ _).erq])

/-- A Scout works on what was outstanding before. -/
theorem ScoutStep.mem_outstanding {inbox : ℤ → List PaxosMsg} {env : Env} {pc : ScoutPc}
    {x : Effect} (hs : ScoutStep i f inbox env pc x)
    (hl : laptop ∈ x.pc.laptop.toList ++ x.factory.erq.map (·.laptop)) :
    laptop ∈ pc.laptop.toList ++ f.erq.map (·.laptop) := by
  rcases hs.laptop with ⟨req, hpc, herq, hpc'⟩ | ⟨herq, hpc | hpc⟩
  · rw [hpc'] at hl
    rw [hpc, herq]
    exact hl
  · rw [hpc, herq] at hl
    exact List.mem_append_right _ hl
  · rw [hpc, herq] at hl
    exact hl

/-- A request on the desk is the one that its engineer waits with. -/
theorem Delivering.of_pending {d : Desk} {req : ClientRequest} (h : Delivering i d)
    (hreq : req ∈ d.pending) :
    ∃ q, d.engineer req.prom = .wait q ∧ req = clientRequest q req.prom := by
  have hown : req ∈ d.own req.prom := List.mem_filter.2 ⟨hreq, decide_eq_true rfl⟩
  obtain ⟨q, hwait, heq, -⟩ := (h.engineer req.prom).of_mem hown
  rw [heq] at hown
  exact ⟨q, hwait, List.mem_singleton.1 hown⟩

end

namespace Net

/-- The laptops that the server `i` still has to make, that of its Scout first. -/
def outstanding (s : Net) (i : ℤ) : List LaptopInfo :=
  (s.node i).scout.laptop.toList ++ (s.node i).factory.erq.map (·.laptop)

/-- The server `i` has the engineer `e`, for a client. -/
def Staffed (s : Net) (i e : ℤ) : Prop :=
  ∃ cl n k, s.conn (.customer cl n) = some k ∧ k.server = i ∧ k.id = e

/-- What the engineer of the connection waits for. -/
def Awaits (k : Conn) (laptop : LaptopInfo) : Prop :=
  k.engineer.pc = .order ∧ ∃ q, k.Last q ∧ laptop = (clientRequest q k.id).laptop

section

variable {H : Hosts} {s s' : Net} {d : Desk} {i e : ℤ} {laptop : LaptopInfo} {ℓ : Link} {k : Conn}

/-! ### At the desk -/

/-- What is outstanding is what is pending on the desk. -/
theorem AtDesk.outstanding (h : s.AtDesk i d) (hd : Delivering i d) :
    s.outstanding i = d.pending.map (·.laptop) := by
  rw [Net.outstanding, Desk.pending, List.map_append, h.factory]
  refine congrArg (· ++ _) ?_
  rcases h.turn with ⟨hturn, hidle⟩ | ⟨req, hturn⟩
  · rw [hturn, hidle]
    rfl
  · rw [hturn, hd.scout req _ hturn]
    rfl

/-- The outstanding laptops of the engineer `e` are those of its own requests. -/
theorem AtDesk.filter_outstanding (h : s.AtDesk i d) (hd : Delivering i d) (e : ℤ) :
    (s.outstanding i).filter (·.engineerId = e) = (d.own e).map (·.laptop) := by
  rw [h.outstanding hd, List.filter_map, Desk.own]
  refine congrArg (List.map _) (List.filter_congr fun req hreq => ?_)
  obtain ⟨q, -, heq⟩ := hd.of_pending hreq
  rw [Function.comp_apply, heq]
  rfl

/-! ### Engineers -/

theorem Staffed.mono (h : s.Staffed i e) (hs : s.Grows s') : s'.Staffed i e := by
  obtain ⟨cl, n, k, hk, hserver, hid⟩ := h
  obtain ⟨k', hk', hserver', hid', -⟩ := hs cl n k hk
  exact ⟨cl, n, k', hk', hserver'.trans hserver, hid'.trans hid⟩

/-- Each outstanding laptop is for an engineer of the server. -/
theorem staffed_of_reachable (hs : (network H).Reachable s) (hl : laptop ∈ s.outstanding i) :
    s.Staffed i laptop.engineerId := by
  induction hs generalizing i laptop with
  | init hs =>
    obtain ⟨client, -, rfl⟩ := hs
    obtain ⟨m, config, hf, -⟩ := H.factory_eq i
    change laptop ∈ (H.factory i).erq.map _ at hl
    rw [hf] at hl
    cases hl
  | @step s s' act hs _ hst ih =>
    have hreg := regular_of_reachable hs
    have hgrows := grows hreg hst
    cases netStep_cases hst with
    | @engineer ℓ answers k r hk hr hu =>
      by_cases hi : i = k.server
      · subst hi
        rw [outstanding, node_applyEngineer_self] at hl
        rcases (hr.move (hreg.heard hk) hu).erq with herq | ⟨rt, q, hrole, herq⟩
        · rw [herq] at hl
          exact (ih hl).mono hgrows
        · rw [herq, List.map_append, ← List.append_assoc] at hl
          rcases List.mem_append.1 hl with hl | hl
          · exact (ih hl).mono hgrows
          · cases ℓ with
            | customer cl n =>
              obtain rfl := List.mem_singleton.1 hl
              exact Staffed.mono ⟨cl, n, k, hk, rfl, rfl⟩ hgrows
            | acceptor | learner => cases hrole
      · rw [outstanding, node_applyEngineer_of_ne hi] at hl
        exact (ih hl).mono hgrows
    | @scout j env answers io x hj hio hr hu =>
      suffices hl : laptop ∈ s.outstanding i from (ih hl).mono hgrows
      by_cases hi : i = j
      · subst hi
        rw [outstanding, node_applyScout_self] at hl
        exact (scoutStep_cases hr).mem_outstanding hl
      · rw [outstanding, node_applyScout_of_ne hi] at hl
        exact hl
    | client hr hu hj =>
      rw [outstanding, node_applyClient] at hl
      exact (ih hl).mono hgrows

/-! ### The orders of a server -/

/-- An engineer that waits has its own order in the server, once, or the laptop in its
    promise. -/
theorem awaits_of_order (hs : (network H).Reachable s) (hk : s.conn ℓ = some k)
    (hpc : k.engineer.pc = .order) : ∃ laptop, Awaits k laptop ∧
      ((s.outstanding k.server).filter (·.engineerId = k.id) = [laptop] ∧
          (s.node k.server).fut k.id = none ∨
        (s.outstanding k.server).filter (·.engineerId = k.id) = [] ∧
          ∃ adminId, (adminId = k.server ∨ adminId = -5) ∧
            (s.node k.server).fut k.id = some { laptop with adminId := adminId }) := by
  obtain ⟨d, hd, hat⟩ := (refines_desk H k.server).reach hs
  have hdel := delivering_of_reachable hd
  have hon := hat.seated.engineer ℓ k hk rfl
  rw [Conn.OnDesk, hpc] at hon
  obtain ⟨q, hwait, hlast⟩ := hon
  refine ⟨(clientRequest q k.id).laptop, ⟨hpc, q, hlast, rfl⟩, ?_⟩
  have hserved := hdel.engineer k.id
  rw [hwait, hat.fut] at hserved
  rw [hat.filter_outstanding hdel]
  rcases hserved with ⟨hown, hfut⟩ | ⟨hown, l, hfut, adminId, hid, rfl⟩
  · exact .inl ⟨by rw [hown]; rfl, hfut⟩
  · exact .inr ⟨by rw [hown]; rfl, adminId, hid, hfut⟩

/-- Every engineer that waits has its own order in the server, once, or the laptop in its
    promise; and for every order in a server an engineer waits. -/
theorem orders_kept (hs : (network H).Reachable s) :
    (∀ ℓ k, s.conn ℓ = some k → k.engineer.pc = .order → ∃ laptop, Awaits k laptop ∧
        ((s.outstanding k.server).filter (·.engineerId = k.id) = [laptop] ∧
            (s.node k.server).fut k.id = none ∨
          (s.outstanding k.server).filter (·.engineerId = k.id) = [] ∧
            ∃ adminId, (adminId = k.server ∨ adminId = -5) ∧
              (s.node k.server).fut k.id = some { laptop with adminId := adminId })) ∧
      ∀ i, ∀ laptop ∈ s.outstanding i, ∃ cl n k, s.conn (.customer cl n) = some k ∧
        k.server = i ∧ Awaits k laptop := by
  refine ⟨fun ℓ k hk hpc => awaits_of_order hs hk hpc, fun i laptop hl => ?_⟩
  obtain ⟨cl, n, k, hk, rfl, hid⟩ := staffed_of_reachable hs hl
  obtain ⟨d, hd, hat⟩ := (refines_desk H k.server).reach hs
  have hdel := delivering_of_reachable hd
  rw [hat.outstanding hdel] at hl
  obtain ⟨req, hreq, rfl⟩ := List.mem_map.1 hl
  obtain ⟨q, hwait, heq⟩ := hdel.of_pending hreq
  have hprom : k.id = req.prom := by rw [hid, heq]; rfl
  have hon := hat.seated.engineer _ k hk rfl
  rw [hprom, hwait] at hon
  -- an engineer that waits at the desk waits on its connection
  refine ⟨cl, n, k, hk, rfl, ?_⟩
  rw [Conn.OnDesk] at hon
  split at hon
  · next hpc =>
    obtain ⟨q', hq', hlast⟩ := hon
    cases hq'
    exact ⟨hpc, q, hlast, by rw [hprom]; exact congrArg _ heq⟩
  · obtain ⟨q', hq', -⟩ := hon
    cases hq'
  · rcases hon with hq' | ⟨_, _, hq'⟩ <;> cases hq'

/-- Before the Scout has taken the order off the queue. -/
theorem orders_kept_one : ∃ (s : Net) (k : Conn) (laptop : LaptopInfo),
    s.conn (.customer 0 1) = some k ∧ Awaits k laptop ∧ laptop ∈ s.outstanding k.server := by
  have hinit : (network OneOrder.hosts).Reachable OneOrder.init := .init OneOrder.init_mem
  obtain ⟨s, hs, k, hk, hpc, hfut⟩ := hinit.exists_of_runBy
    (P := fun s => ∃ k ∈ s.conn (.customer 0 1), k.engineer.pc = .order ∧
      (s.node k.server).fut k.id = none) (OneOrder.run.take 9) (by decide +kernel)
  obtain ⟨laptop, hawaits, ⟨hone, -⟩ | ⟨-, _, -, hset⟩⟩ := (orders_kept hs).1 _ k hk hpc
  · exact ⟨s, k, laptop, hk, hawaits, List.mem_of_mem_filter (hone ▸ List.mem_singleton_self laptop)⟩
  · rw [hfut] at hset
    cases hset

end

end Net

end LaptopPaxos
