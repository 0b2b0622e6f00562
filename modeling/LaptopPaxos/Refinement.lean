import LaptopPaxos.Lib.Simulation
import LaptopPaxos.Queues
import LaptopPaxos.Returns

/-!
# The network refines the cluster

The servers on their sockets, byte by byte and among any clients, do what the cluster
does with its queues (`refines_cluster`). Most steps of the network do not matter to the
cluster; an engineer takes a step of the cluster when it has decoded a message, and a
Scout with each of its own.

The messages of the cluster are made of integers and those of the network of `int`s: no
Scout may send a number that is none (`ScoutPc.IntSized`). So what is shown of the runs of
the cluster holds on the network, and a condition on the Scouts becomes the same condition
there.
-/

namespace LaptopPaxos

open LaptopFactory

/-! ### The relation -/

/-- What is on its way to the other end of the stub `x` of `i`. -/
def Cluster.toPeer (c : Cluster) (i : ℤ) : SocketId → List PaxosMsg
  | .engineer _ => []
  | .acceptor a => c.toAcceptor i a
  | .learner a => c.toLearner i a

/-- What is on its way back. -/
def Cluster.fromPeer (c : Cluster) (i : ℤ) : SocketId → List PaxosMsg
  | .acceptor a => c.toScout i a
  | _ => []

section

variable {c : Cluster} {a i j : ℤ} {m : PaxosMsg} {rest : List PaxosMsg} {y : SocketId}
  {request : CustomerRequest}

theorem Cluster.toPeer_acceptMsg : (c.acceptMsg a i m rest).toPeer j y =
    if j = i ∧ y = .acceptor a then rest else c.toPeer j y := by
  cases y with
  | acceptor b =>
    simp only [toPeer, toAcceptor_acceptMsg, Wires.set_apply, SocketId.acceptor.injEq]
  | engineer | learner => exact (if_neg fun h => SocketId.noConfusion h.2).symm

theorem Cluster.fromPeer_acceptMsg : (c.acceptMsg a i m rest).fromPeer j y =
    if j = i ∧ y = .acceptor a then
      c.toScout i a ++ ((c.factory a).acceptorEngineer m).2.toList
    else c.fromPeer j y := by
  cases y with
  | acceptor b =>
    simp only [fromPeer, toScout_acceptMsg, Wires.set_apply, SocketId.acceptor.injEq]
  | engineer | learner => exact (if_neg fun h => SocketId.noConfusion h.2).symm

theorem Cluster.toPeer_learnMsg : (c.learnMsg a i m rest).toPeer j y =
    if j = i ∧ y = .learner a then rest else c.toPeer j y := by
  cases y with
  | learner b =>
    simp only [toPeer, toLearner_learnMsg, Wires.set_apply, SocketId.learner.injEq]
  | engineer | acceptor => exact (if_neg fun h => SocketId.noConfusion h.2).symm

/-- The acceptors and the learners submit nothing. -/
theorem Cluster.submitted_acceptMsg (h : .submitted j request ∈ (c.acceptMsg a i m rest).hist) :
    .submitted j request ∈ c.hist := by
  rw [hist_acceptMsg] at h
  refine (List.mem_append.1 h).resolve_left fun hmem => ?_
  exact forall_acceptorEvents (P := (· ≠ .submitted j request)) (fun _ _ => nofun)
    (fun _ _ => nofun) _ _ _ _ hmem rfl

theorem Cluster.submitted_learnMsg (h : .submitted j request ∈ (c.learnMsg a i m rest).hist) :
    .submitted j request ∈ c.hist := by
  rw [hist_learnMsg] at h
  refine (List.mem_append.1 h).resolve_left fun hmem => ?_
  split_ifs at hmem
  · cases List.mem_singleton.1 hmem
  · exact List.not_mem_nil hmem

/-- Nor does the Scout. -/
theorem ScoutStep.not_submitted {id : ℤ} {f : LaptopFactory} {inbox : ℤ → List PaxosMsg} {env : Env}
    {pc : ScoutPc} {e : Effect} (hs : ScoutStep id f inbox env pc e) :
    .submitted j request ∉ e.events := by
  cases hs <;> simp [scoutReturn, LaptopPaxos.pickSlot, scoutConnect, commanderConnect, recordOrder]

theorem Cluster.toPeer_applyEffect {e : Effect} :
    (c.applyEffect i e).toPeer i y = c.toPeer i y ++ e.puts y := by
  cases y with
  | engineer => rfl
  | acceptor a => exact Wires.push_self _
  | learner a => exact Wires.push_self _

theorem Cluster.fromPeer_applyEffect {e : Effect} :
    (e.Takes y → (c.applyEffect i e).fromPeer i y = (c.fromPeer i y).tail) ∧
      (¬e.Takes y → (c.applyEffect i e).fromPeer i y = c.fromPeer i y) := by
  refine ⟨?_, fun hno => ?_⟩
  · rintro ⟨a, rfl, ha⟩
    exact Wires.pop_self ha
  · cases y with
    | acceptor a => exact Wires.pop_of_ne_some fun ha => hno ⟨a, rfl, ha⟩
    | engineer | learner => rfl

theorem Cluster.peers_applyEffect_of_ne {e : Effect} (h : j ≠ i) :
    (c.applyEffect i e).toPeer j y = c.toPeer j y ∧
      (c.applyEffect i e).fromPeer j y = c.fromPeer j y := by
  cases y with
  | engineer => exact ⟨rfl, rfl⟩
  | acceptor a => exact ⟨Wires.push_of_ne h _ _, Wires.pop_of_ne h _ _⟩
  | learner a => exact ⟨Wires.push_of_ne h _ _, rfl⟩

end

namespace Net

/-- An engineer of the server `i` has decoded the request of a client. -/
def Received (s : Net) (i : ℤ) (request : CustomerRequest) : Prop :=
  ∃ c n k, s.conn (.customer c n) = some k ∧ k.server = i ∧
    some (.message (.customerRequest request)) ∈ k.up.decoded

/-- The state of the cluster that the network is in. -/
structure Refines (H : Hosts) (s : Net) (c : Cluster) : Prop where
  factory : ∀ j, c.factory j = (s.node j).factory
  scout : ∀ j, c.scout j = (s.node j).scout
  up : ∀ j, (c.server j).up = true
  wires : ∀ i x ℓ, Link.ofStub i x = some ℓ → s.OnWires H i x ℓ (c.toPeer i x) (c.fromPeer i x)
  submitted : ∀ i request, .submitted i request ∈ c.hist → s.Received i request
  reports : s.Reports (Returned c.hist)

section

variable {H : Hosts} {s s' : Net} {c c' : Cluster} {i j : ℤ} {request : CustomerRequest}
  {ℓ : Link} {k : Conn} {answers : Answers} {r : EngineerEffect}

/-- Connections stay, and what has been decoded stays decoded. -/
def Grows (s s' : Net) : Prop :=
  ∀ cl n k, s.conn (.customer cl n) = some k → ∃ k', s'.conn (.customer cl n) = some k' ∧
    k'.server = k.server ∧ k'.id = k.id ∧ k.up.decoded <+: k'.up.decoded

theorem Received.mono (h : s.Received i request) (hs : s.Grows s') : s'.Received i request := by
  obtain ⟨cl, n, k, hk, hserver, hmem⟩ := h
  obtain ⟨k', hk', hserver', -, hpre⟩ := hs cl n k hk
  exact ⟨cl, n, k', hk', hserver'.trans hserver, hpre.subset hmem⟩

theorem decoded_useEngineer {o : ByteOrder} {u : Option Use} {g : Engineer} :
    k.up.decoded <+: ({ k.useEngineer o u with engineer := g } : Conn).up.decoded := by
  cases u with
  | none => exact List.prefix_rfl
  | some u =>
    cases u with
    | send => exact List.prefix_rfl
    | recv => exact List.prefix_append _ _

/-- No step forgets a connection of a client. -/
theorem grows {act : NetAction} (h : s.Regular H) (hst : s.step H act = some s') : s.Grows s' := by
  intro cl n k hk
  cases netStep_cases hst with
  | @engineer ℓ answers k₁ r hk₁ hr hu =>
    by_cases hℓ : .customer cl n = ℓ
    · subst hℓ
      cases hk.symm.trans hk₁
      refine ⟨_, conn_applyEngineer_self, ?_, ?_, decoded_useEngineer⟩ <;>
        cases k.engineer.pc.use (s.node k.server).factory r.transfer <;> rfl
    · exact ⟨k, (conn_applyEngineer_of_ne hℓ).trans hk, rfl, rfl, List.prefix_rfl⟩
  | scout => exact ⟨k, hk, rfl, rfl, List.prefix_rfl⟩
  | @client c env j r hr hu hj =>
    by_cases hc : cl = c
    · subst hc
      cases hconn : r.connected with
      | none =>
        by_cases hn : n = s.made cl
        · subst hn
          refine ⟨k.useClient (H.customer cl) ((s.client cl).use r.transfer), ?_,
            Conn.sameEngineer_useClient.server, Conn.sameEngineer_useClient.id, ?_⟩
          · rw [(made_applyClient hconn).2, link, Function.update_self, hk]
            rfl
          · rw [Conn.sameEngineer_useClient.decoded]
        · refine ⟨k, ?_, rfl, rfl, List.prefix_rfl⟩
          rw [(made_applyClient hconn).2, link,
            Function.update_of_ne fun heq => hn (Link.customer.inj heq).2, hk]
      | some server =>
        have hle := (h.line cl n k hk).le_made
        refine ⟨k, ?_, rfl, rfl, List.prefix_rfl⟩
        rw [(made_applyClient_of_some hr hconn).2, Function.update_of_ne, hk]
        intro heq
        have hn := (Link.customer.inj heq).2
        omega
    · exact ⟨k, (conn_applyClient fun _ heq => hc (Link.customer.inj heq).1).trans hk, rfl, rfl,
        List.prefix_rfl⟩

/-! ### Engineers -/

theorem up_setFactory (f : LaptopFactory) (i j : ℤ) :
    ((c.setFactory i f).server j).up = (c.server j).up := by
  change (if j = i then { c.server i with factory := f } else c.server j).up = _
  split_ifs with h
  · rw [h]
  · rfl

/-- The stubs stay as they are in a step of an engineer. -/
theorem started_of_sameStubs {f f' : LaptopFactory} (h : SameStubs f f') (x : SocketId) :
    f'.started x = f.started x := by
  cases x with
  | engineer => rfl
  | acceptor => exact h.scoutInit
  | learner => exact h.commanderInit

/-- An engineer takes a step, on the network and in the cluster. -/
theorem Refines.engineer (h : s.Refines H c) (hst : EngineerStep (H.order k.server) k.id
      (s.node k.server).factory ((s.node k.server).fut k.id) answers k.engineer r)
    (hgrows : s.Grows (s.applyEngineer H ℓ k r))
    (hfactory : ∀ j, c'.factory j = if j = k.server then r.factory else c.factory j)
    (hscout : ∀ j, c'.scout j = c.scout j) (hup : ∀ j, (c'.server j).up = (c.server j).up)
    (hown : ∀ i x, Link.ofStub i x = some ℓ →
      (s.applyEngineer H ℓ k r).OnWires H i x ℓ (c'.toPeer i x) (c'.fromPeer i x))
    (hothers : ∀ i x ℓ', Link.ofStub i x = some ℓ' → ℓ' ≠ ℓ →
      c'.toPeer i x = c.toPeer i x ∧ c'.fromPeer i x = c.fromPeer i x)
    (hsubmitted : ∀ i request, .submitted i request ∈ c'.hist → .submitted i request ∈ c.hist ∨
      (s.applyEngineer H ℓ k r).Received i request)
    (hreports : (s.applyEngineer H ℓ k r).Reports (Returned c'.hist)) :
    (s.applyEngineer H ℓ k r).Refines H c' := by
  have hf := factory_applyEngineer (ℓ := ℓ) hst
  refine ⟨fun j => ?_, fun j => ?_, fun j => (hup j).trans (h.up j), fun i x ℓ' hx => ?_,
    fun i request hmem => ?_, hreports⟩
  · rw [hfactory]
    split_ifs with hj
    · subst hj
      rw [node_applyEngineer_self]
    · rw [node_applyEngineer_of_ne hj]
      exact h.factory j
  · rw [hscout, (hf j).2.2]
    exact h.scout j
  · by_cases hℓ : ℓ' = ℓ
    · subst hℓ
      exact hown i x hx
    · obtain ⟨hto, hfrom⟩ := hothers i x ℓ' hx hℓ
      rw [hto, hfrom]
      refine (h.wires i x ℓ' hx).congr (conn_applyEngineer_of_ne hℓ) ?_
        (started_of_sameStubs (hf i).1 x)
      rw [isOpen_ofStub hx, isOpen_ofStub hx]
      exact (hf i).1.isOpen x
  · rcases hsubmitted i request hmem with hmem | hrec
    · exact (h.submitted i request hmem).mono hgrows
    · exact hrec

/-- What becomes of the connection in a step of its engineer. -/
theorem exists_move (hreg : s.Regular H) (hk : s.conn ℓ = some k)
    (hst : EngineerStep (H.order k.server) k.id (s.node k.server).factory
      ((s.node k.server).fut k.id) answers k.engineer r)
    (hu : ∀ u ∈ k.engineer.pc.use (s.node k.server).factory r.transfer,
      u.Allowed k.engineer.isInitialized k.up.flight) :
    ∃ k', (s.applyEngineer H ℓ k r).conn ℓ = some k' ∧
      EngineerMove (s.clientEnd H ℓ).order (H.order k.server) (s.clientEnd H ℓ).role k.id
        (s.node k.server).factory ((s.node k.server).fut k.id) k r k' :=
  ⟨_, conn_applyEngineer_self, hst.move (hreg.heard hk) hu⟩

/-- An engineer of a client takes a step of the cluster for each request. -/
theorem Refines.customerEngineer {ok : Cluster → Action → Prop} {cl : ℤ} {n : ℕ}
    (hok : ∀ e request, ok c (.request k.server e request)) (h : s.Refines H c)
    (hreg : s.Regular H) (hk : s.conn (.customer cl n) = some k)
    (hst : EngineerStep (H.order k.server) k.id (s.node k.server).factory
      ((s.node k.server).fut k.id) answers k.engineer r)
    (hu : ∀ u ∈ k.engineer.pc.use (s.node k.server).factory r.transfer,
      u.Allowed k.engineer.isInitialized k.up.flight)
    (hgrows : s.Grows (s.applyEngineer H (.customer cl n) k r)) :
    ∃ c', (cluster H.toDeployment).MayStep ok c c' ∧
      (s.applyEngineer H (.customer cl n) k r).Refines H c' := by
  have hstub : ∀ {P : Prop} {i x}, Link.ofStub i x = some (.customer cl n) → P :=
    fun hx => absurd hx Link.ofStub_ne_customer
  obtain ⟨k', hk', hmove⟩ := exists_move hreg hk hst hu
  have hreports : ∀ {h'}, c.hist ⊆ h' →
      (s.applyEngineer H (.customer cl n) k r).Reports (Returned h') :=
    fun hsub => h.reports.engineer (fun _ _ hl => hl.mono hsub) hk hk' hmove
  have hstutter : r.factory = (s.node k.server).factory →
      ∃ c', (cluster H.toDeployment).MayStep ok c c' ∧
        (s.applyEngineer H (.customer cl n) k r).Refines H c' := by
    intro hfac
    refine ⟨c, .refl, h.engineer hst hgrows (fun j => ?_) (fun _ => rfl) (fun _ => rfl)
      (fun i x hx => hstub hx) (fun _ _ _ _ _ => ⟨rfl, rfl⟩) (fun _ _ hmem => .inl hmem)
      (hreports (List.Subset.refl _))⟩
    rw [hfac, ← h.factory]
    split_ifs with hj
    · rw [hj]
    · rfl
  cases hmove with
  | send _ hfac => exact hstutter hfac
  | fail hfac => exact hstutter hfac
  | wake _ _ hfac => exact hstutter hfac
  | leave _ hfac => exact hstutter hfac
  | @handle p hopen hp hpre hplan hkind hfac heng =>
    have hat := (hreg.heard hk).engineer
    cases hd : k.up.decoded.length with
    | zero =>
      rw [hd] at hplan
      obtain rfl : p = .word 0 := hplan
      refine hstutter (hfac.trans ?_)
      cases hpc : k.engineer.pc <;> rw [hpc] at hkind <;> cases hkind
      rfl
    | succ d =>
      rw [hd] at hplan
      obtain ⟨q, rfl, -⟩ := hplan
      have hpc : k.engineer.pc = .request := by
        cases hpc : k.engineer.pc <;> rw [hpc] at hkind <;> cases hkind
      rw [hpc] at hfac
      refine ⟨c.requestMsg k.server k.id q.narrow, .single (hok k.id q.narrow) (if_pos
        ⟨(hreg.line cl n k hk).called.host, h.up k.server⟩), h.engineer hst hgrows (fun j => ?_)
        (fun j => Cluster.scout_requestMsg ..) (fun j => up_setFactory ..)
        (fun i x hx => hstub hx) (fun _ x _ _ _ => by cases x <;> exact ⟨rfl, rfl⟩)
        (fun i request hmem => ?_) (hreports fun ev hev => ?_)⟩
      · rw [Cluster.factory_requestMsg, hfac, h.factory]
        rfl
      · rw [Cluster.hist_requestMsg] at hmem
        rcases List.mem_append.1 hmem with hmem | hmem
        · obtain ⟨record, -, heq⟩ := List.mem_map.1 hmem
          cases heq
        · rcases List.mem_cons.1 hmem with heq | hmem
          · cases heq
            refine .inr ⟨cl, n, _, hk', rfl, ?_⟩
            exact List.mem_append_right _ (List.mem_singleton_self _)
          · exact .inl hmem
      · rw [Cluster.hist_requestMsg]
        exact List.mem_append_right _ (List.mem_cons_of_mem _ hev)

/-- A stub after a step of the engineer at its other end. -/
theorem OnWires.engineer {x : SocketId} {q q' q₁ q₁' : List PaxosMsg} {k' : Conn}
    (h : s.OnWires H i x ℓ q q') (hx : Link.ofStub i x = some ℓ) (hk : s.conn ℓ = some k)
    (hst : EngineerStep (H.order k.server) k.id (s.node k.server).factory
      ((s.node k.server).fut k.id) answers k.engineer r)
    (hk' : (s.applyEngineer H ℓ k r).conn ℓ = some k') (hserver : k'.server = k.server)
    (hconv : k'.Conveys (H.order i) (H.order x.peer) (s.isOpen ℓ) q₁ q₁') :
    (s.applyEngineer H ℓ k r).OnWires H i x ℓ q₁ q₁' := by
  have hf := factory_applyEngineer (ℓ := ℓ) hst i
  refine ⟨fun hn => absurd (hk'.symm.trans hn) (Option.some_ne_none k'), fun k₁ hk₁ => ?_,
    fun _ _ => h.mem k hk, fun _ _ => ?_, fun k₁ hk₁ => ?_⟩
  · cases hk'.symm.trans hk₁
    exact hserver.trans (h.server k hk)
  · rw [started_of_sameStubs hf.1]
    exact h.started k hk
  · cases hk'.symm.trans hk₁
    rw [isOpen_ofStub hx, hf.1.isOpen, ← isOpen_ofStub hx]
    exact hconv

/-- An engineer of a server takes a step of the cluster for each message. -/
theorem Refines.stubEngineer {ok : Cluster → Action → Prop} {x : SocketId}
    (hok : ∀ a i, ok c (.acceptor a i) ∧ ok c (.learner a i)) (h : s.Refines H c)
    (hreg : s.Regular H) (hsized : s.Sized) (hx : Link.ofStub i x = some ℓ)
    (hk : s.conn ℓ = some k)
    (hst : EngineerStep (H.order k.server) k.id (s.node k.server).factory
      ((s.node k.server).fut k.id) answers k.engineer r)
    (hu : ∀ u ∈ k.engineer.pc.use (s.node k.server).factory r.transfer,
      u.Allowed k.engineer.isInitialized k.up.flight)
    (hgrows : s.Grows (s.applyEngineer H ℓ k r)) :
    ∃ c', (cluster H.toDeployment).MayStep ok c c' ∧ (s.applyEngineer H ℓ k r).Refines H c' := by
  have hw := h.wires i x ℓ hx
  have hpeer := hw.server k hk
  obtain ⟨horder, -, -, -⟩ := clientEnd_ofStub (s := s) (H := H) hx
  obtain ⟨k', hk', hmove⟩ := exists_move hreg hk hst hu
  have hreports : ∀ {h'}, c.hist ⊆ h' → (s.applyEngineer H ℓ k r).Reports (Returned h') :=
    fun hsub => h.reports.engineer (fun _ _ hl => hl.mono hsub) hk hk' hmove
  have hserver : k'.server = k.server := by cases hmove <;> rfl
  have hrole : (s.clientEnd H ℓ).role = .acceptor ∨ (s.clientEnd H ℓ).role = .learner := by
    cases x <;> cases hx
    · exact .inl rfl
    · exact .inr rfl
  have hdown : k.down.decoded.length ≤ k.down.sent.length :=
    (hreg.servers.conn ℓ k ((conn_servers_of_stub hx).trans hk)).down.length_decoded_le
  rw [horder, hpeer] at hmove
  obtain ⟨rest, replies, hstep, hconv⟩ := (hw.conveys k hk).engineer (horder ▸ hreg.heard hk) hdown
    hrole (fun m hm => hsized.reply ℓ k m hk hm) hmove
  have hown := hw.engineer hx hk hst hk' hserver hconv
  have hothers : ∀ {j y ℓ'}, Link.ofStub j y = some ℓ' → ℓ' ≠ ℓ → ¬(j = i ∧ y = x) := by
    rintro j y ℓ' hy hne ⟨rfl, rfl⟩
    exact hne (Option.some.inj (hy.symm.trans hx))
  have hself : ∀ {j y}, Link.ofStub j y = some ℓ → j = i ∧ y = x := by
    intro j y hy
    cases x <;> cases hx <;> cases y <;> cases hy <;> exact ⟨rfl, rfl⟩
  generalize hq : c.toPeer i x = q at hstep
  generalize hfac : r.factory = f' at hstep
  cases hstep with
  | stutter =>
    rw [List.append_nil, ← hq] at hown
    refine ⟨c, .refl, h.engineer hst hgrows (fun j => ?_) (fun _ => rfl) (fun _ => rfl)
      (fun j y hy => ?_) (fun _ _ _ _ _ => ⟨rfl, rfl⟩) (fun _ _ hmem => .inl hmem)
      (hreports (List.Subset.refl _))⟩
    · rw [hfac, ← hpeer, ← h.factory]
      split_ifs with hj
      · rw [hj]
      · rfl
    · obtain ⟨rfl, rfl⟩ := hself hy
      exact hown
  | @acceptor m rest hr =>
    obtain ⟨a, rfl⟩ : ∃ a, x = .acceptor a := by
      cases x <;> cases hx
      · exact ⟨_, rfl⟩
      · cases hr
    obtain rfl : k.server = a := hpeer
    have hstep : c.step H.toDeployment (.acceptor k.server i) =
        some (c.acceptMsg k.server i m rest) := by
      have hq' : c.toAcceptor i k.server = m :: rest := hq
      rw [Cluster.step, if_pos ⟨hw.mem k hk, h.up _⟩, hq']
    refine ⟨c.acceptMsg k.server i m rest, .single (hok _ _).1 hstep,
      h.engineer hst hgrows (fun j => ?_) (fun j => Cluster.scout_acceptMsg ..)
      (fun j => up_setFactory ..) (fun j y hy => ?_) (fun j y ℓ' hy hne => ?_)
      (fun j request hmem => ?_) (hreports (List.subset_append_right _ _))⟩
    · rw [Cluster.factory_acceptMsg, hfac, h.factory]
      rfl
    · obtain ⟨rfl, rfl⟩ := hself hy
      rw [Cluster.toPeer_acceptMsg, Cluster.fromPeer_acceptMsg, if_pos ⟨rfl, rfl⟩,
        if_pos ⟨rfl, rfl⟩, h.factory]
      exact hown
    · rw [Cluster.toPeer_acceptMsg, Cluster.fromPeer_acceptMsg, if_neg (hothers hy hne),
        if_neg (hothers hy hne)]
      exact ⟨rfl, rfl⟩
    · exact .inl (Cluster.submitted_acceptMsg hmem)
  | @learner m rest hr =>
    obtain ⟨a, rfl⟩ : ∃ a, x = .learner a := by
      cases x <;> cases hx
      · cases hr
      · exact ⟨_, rfl⟩
    obtain rfl : k.server = a := hpeer
    have hstep : c.step H.toDeployment (.learner k.server i) =
        some (c.learnMsg k.server i m rest) := by
      have hq' : c.toLearner i k.server = m :: rest := hq
      rw [Cluster.step, if_pos ⟨hw.mem k hk, h.up _⟩, hq']
    refine ⟨c.learnMsg k.server i m rest, .single (hok _ _).2 hstep,
      h.engineer hst hgrows (fun j => ?_) (fun j => Cluster.scout_learnMsg ..)
      (fun j => up_setFactory ..) (fun j y hy => ?_) (fun j y ℓ' hy hne => ?_)
      (fun j request hmem => ?_) (hreports (List.subset_append_right _ _))⟩
    · rw [Cluster.factory_learnMsg, hfac, h.factory]
      rfl
    · obtain ⟨rfl, rfl⟩ := hself hy
      rw [Cluster.toPeer_learnMsg, if_pos ⟨rfl, rfl⟩]
      rw [List.append_nil] at hown
      exact hown
    · rw [Cluster.toPeer_learnMsg, if_neg (hothers hy hne)]
      refine ⟨rfl, ?_⟩
      cases y <;> rfl
    · exact .inl (Cluster.submitted_learnMsg hmem)

/-! ### Scouts -/

/-- A Scout takes the same step in the cluster. -/
theorem Refines.scout_step {env : Env} {answers : ℤ → Answers} {io : ScoutIo} {r : Effect}
    (h : s.Refines H c) (hreg : s.Regular H) (hi : i ∈ H.ids)
    (hio : scoutIo (H.order i) (s.node i).factory env answers (s.node i).scout = some io)
    (hr : scoutStep i (s.node i).factory io.inbox (io.env env) (s.node i).scout = some r)
    (hu : s.ScoutAllowed i io) :
    c.step H.toDeployment (.scout i (io.env env)) = some (c.applyEffect i r) := by
  have hinbox : scoutStep i (s.node i).factory (c.toScout i) (io.env env) (s.node i).scout =
      some r := scoutStep_of_inbox hio hr fun a t ht huse hok => by
    have hst := stubStep hio hr (hreg.servers.scout i) (.acceptor a)
    obtain ⟨m, rest, k, hq, hin, -⟩ :=
      (h.wires i (.acceptor a) _ rfl).take hreg.servers hst hu ht huse hok
    have hq' : c.toScout i a = m :: rest := hq
    rw [hq', hin]
    rfl
  rw [Cluster.step, if_pos ⟨hi, h.up i⟩, h.factory, h.scout, hinbox]
  rfl

theorem Refines.applyScout {env : Env} {answers : ℤ → Answers} {io : ScoutIo} {r : Effect}
    (h : s.Refines H c) (hreg : s.Regular H)
    (hio : scoutIo (H.order i) (s.node i).factory env answers (s.node i).scout = some io)
    (hr : scoutStep i (s.node i).factory io.inbox (io.env env) (s.node i).scout = some r)
    (hu : s.ScoutAllowed i io) (hkeys : ∀ a ∈ (s.node i).factory.acceptorMap.keys, a ∈ H.ids)
    (hint : (s.node i).scout.IntSized (s.node i).factory) :
    (s.applyScout H i io r).Refines H (c.applyEffect i r) := by
  refine ⟨fun j => ?_, fun j => ?_, fun j => ?_, fun j x ℓ hx => ?_, fun j request hmem => ?_,
    h.reports.scout (fun _ _ hl => hl.mono (List.subset_append_right _ _)) fun laptop hl =>
      (returned_of_events (scoutStep_cases hr) hl).mono (List.subset_append_left _ _)⟩
  · rw [Cluster.factory_applyEffect]
    split_ifs with hj
    · subst hj
      rw [node_applyScout_self]
    · rw [node_applyScout_of_ne hj]
      exact h.factory j
  · rw [Cluster.scout_applyEffect]
    split_ifs with hj
    · subst hj
      rw [node_applyScout_self]
    · rw [node_applyScout_of_ne hj]
      exact h.scout j
  · change (if j = i then { c.server i with factory := r.factory, scout := r.pc }
      else c.server j).up = true
    split_ifs
    · exact h.up i
    · exact h.up j
  · by_cases hj : j = i
    · subst hj
      rw [Cluster.toPeer_applyEffect]
      exact (h.wires j x ℓ hx).scout hx hreg.servers hio hr hu hkeys hint
        Cluster.fromPeer_applyEffect.1 Cluster.fromPeer_applyEffect.2
    · have hne : ∀ y, Link.ofStub i y ≠ some ℓ := by
        intro y hy
        cases x <;> cases hx <;> cases y <;> cases hy <;> exact hj rfl
      obtain ⟨hto, hfrom⟩ := Cluster.peers_applyEffect_of_ne (c := c) (e := r) (y := x) hj
      rw [hto, hfrom]
      refine (h.wires j x ℓ hx).congr ?_ ?_ ?_
      · rcases conn_applyScout H s i io r ℓ with ⟨y, a, hy, -⟩ | ⟨-, heq⟩
        · exact absurd hy (hne y)
        · exact heq
      · rw [isOpen_ofStub hx, isOpen_ofStub hx, node_applyScout_of_ne hj]
      · rw [node_applyScout_of_ne hj]
  · rw [Cluster.hist_applyEffect] at hmem
    exact h.submitted j request
      ((List.mem_append.1 hmem).resolve_left (scoutStep_cases hr).not_submitted)

/-! ### The simulation -/

/-- The cluster does not see the clients. -/
theorem Refines.applyClient {cl : ℤ} {env : ClientEnv} {r : ClientEffect} (h : s.Refines H c)
    (hst : ClientStep (H.customer cl) env (s.client cl) r)
    (hgrows : s.Grows (s.applyClient H cl j r)) : (s.applyClient H cl j r).Refines H c := by
  refine ⟨fun j' => ?_, fun j' => ?_, h.up, fun i x ℓ hx => ?_, fun i request hmem => ?_,
    h.reports.of_stems (fun _ _ hl => hl) (fun ℓ k' hk' => stems_applyClient hst hk') ?_⟩
  · rw [node_applyClient]
    exact h.factory j'
  · rw [node_applyClient]
    exact h.scout j'
  · refine (h.wires i x ℓ hx).congr
      (conn_applyClient fun n hn => Link.ofStub_ne_customer (hx.trans (congrArg some hn))) ?_ ?_
    · rw [isOpen_ofStub hx, isOpen_ofStub hx, node_applyClient]
    · rw [node_applyClient]
  · exact (h.submitted i request hmem).mono hgrows
  · rw [node_applyClient]
    exact h.reports.fut

theorem refines_init (hs : s ∈ (network H).init) : s.Refines H (Cluster.init H.toDeployment) := by
  obtain ⟨client, -, rfl⟩ := hs
  refine ⟨fun j => rfl, fun j => rfl, fun j => rfl, fun i x ℓ hx => ?_, fun i request hmem => ?_,
    ⟨fun i e laptop hf => (by cases hf), fun ℓ k laptop hk => (by cases hk),
      fun ℓ k l hk => (by cases hk)⟩⟩
  · refine ⟨fun _ => ⟨?_, ?_⟩, fun k hk => ?_, fun k hk => ?_, fun k hk => ?_, fun k hk => ?_⟩
    · rw [isOpen_ofStub hx]
      obtain ⟨m, config, hf, -⟩ := H.factory_eq i
      change (H.factory i).isOpen x = false
      rw [hf]
      cases x <;> rfl
    · cases x <;> exact ⟨rfl, rfl⟩
    · cases hk
    · cases hk
    · cases hk
    · cases hk
  · exact absurd hmem List.not_mem_nil

/-- The acceptors that a Scout knows are those of the deployment. -/
theorem Refines.keys (h : s.Refines H c) (hc : (cluster H.toDeployment).Reachable c)
    (hi : i ∈ H.ids) : ∀ a ∈ (s.node i).factory.acceptorMap.keys, a ∈ H.ids := by
  intro a ha
  obtain ⟨m, config, hf, hm⟩ := H.factory_eq i
  rw [← h.factory, ((deciding_of_reachable hc).config i).acceptorMap, hf, StdMap.mem_keys] at ha
  rcases (hm a).1 ha with rfl | hmem
  · exact hi
  · exact hmem

/-- A step of the network is at most one of the cluster. -/
theorem Refines.step {P : ℤ → LaptopFactory → ScoutPc → Prop} {act : NetAction}
    (h : s.Refines H c) (hs : (network H).Reachable s) (hc : (cluster H.toDeployment).Reachable c)
    (hok : s.OnScout (fun i f pc => pc.IntSized f ∧ P i f pc) act)
    (hst : s.step H act = some s') :
    ∃ c', (cluster H.toDeployment).MayStep
      (LaptopPaxos.OnScout fun c i pc => P i (c.factory i) pc) c c' ∧ s'.Refines H c' := by
  have hreg := regular_of_reachable hs
  have hgrows := grows hreg hst
  cases netStep_cases hst with
  | @engineer ℓ answers k r hk hr hu =>
    by_cases hstub : ∃ i x, Link.ofStub i x = some ℓ
    · obtain ⟨i, x, hx⟩ := hstub
      exact h.stubEngineer (fun _ _ => ⟨trivial, trivial⟩) hreg (sized_of_reachable hs) hx hk hr hu
        hgrows
    · cases ℓ with
      | customer cl n => exact h.customerEngineer (fun _ _ => trivial) hreg hk hr hu hgrows
      | acceptor i a => exact absurd ⟨i, .acceptor a, rfl⟩ hstub
      | learner i a => exact absurd ⟨i, .learner a, rfl⟩ hstub
  | @scout i env answers io r hi hio hr hu =>
    obtain ⟨hint, hP⟩ := hok
    refine ⟨c.applyEffect i r, .single (a := .scout i (io.env env)) ?_
      (h.scout_step hreg hi hio hr hu), h.applyScout hreg hio hr hu (h.keys hc hi) hint⟩
    change P i (c.factory i) (c.scout i)
    rw [h.factory, h.scout]
    exact hP
  | client hr hu hj => exact ⟨c, .refl, h.applyClient hr hgrows⟩

/-- The network refines the cluster, also when the steps of the Scouts have to meet a
    condition on the server of the Scout. -/
theorem simulation (H : Hosts) (P : ℤ → LaptopFactory → ScoutPc → Prop) :
    (network H).Simulation (cluster H.toDeployment)
      (OnScout fun i f pc => pc.IntSized f ∧ P i f pc)
      (LaptopPaxos.OnScout fun c i pc => P i (c.factory i) pc) (Refines H) where
  init s hs := ⟨_, rfl, refines_init hs⟩
  step s act s' c hs hc h hok hst := by
    obtain ⟨c', hsteps, hR⟩ := h.step hs.reachable hc.reachable hok hst
    exact ⟨c', hsteps.to_reflTransGen, hR⟩

/-- Every run of the network is one of the cluster with the same servers. A laptop on its
    way to a customer has been returned there. -/
theorem refines_cluster {P : ℤ → LaptopFactory → ScoutPc → Prop}
    (hs : (network H).ReachBy (OnScout fun i f pc => pc.IntSized f ∧ P i f pc) s)
    (hsteps : (network H).StepsBy (OnScout fun i f pc => pc.IntSized f ∧ P i f pc) s s') :
    ∃ c c', (cluster H.toDeployment).ReachBy
        (LaptopPaxos.OnScout fun c i pc => P i (c.factory i) pc) c ∧
      (cluster H.toDeployment).StepsBy
        (LaptopPaxos.OnScout fun c i pc => P i (c.factory i) pc) c c' ∧
      (∀ i, c.factory i = (s.node i).factory ∧ c.scout i = (s.node i).scout) ∧
      (∀ i, c'.factory i = (s'.node i).factory ∧ c'.scout i = (s'.node i).scout) ∧
      ∀ ℓ k l, s'.conn ℓ = some k → .message (.laptopInfo l) ∈ k.down.sent →
        ∃ laptop result, l = laptop.narrow ∧ .returned k.server laptop result ∈ c'.hist := by
  have hsim := simulation H P
  obtain ⟨c, hc, hR⟩ := hsim.reach hs
  obtain ⟨c', hcsteps, hR'⟩ := hsim.steps hs hc hR hsteps
  refine ⟨c, c', hc, hcsteps, fun i => ⟨hR.factory i, hR.scout i⟩,
    fun i => ⟨hR'.factory i, hR'.scout i⟩, fun ℓ k l hk hl => ?_⟩
  obtain ⟨laptop, hl, result, hret⟩ := hR'.reports.sent ℓ k l hk hl
  exact ⟨laptop, result, hl, hret⟩

/-- The run of an order, in the cluster. -/
theorem refines_cluster_order : ∃ c, (cluster OneOrder.hosts.toDeployment).Reachable c ∧
    (c.factory 1).decisionMap.find? 1 = some OneOrder.cmd := by
  have hrun : ((network OneOrder.hosts).runBy (OnScout fun _ f pc => pc.IntSized f ∧ True)
      OneOrder.run OneOrder.init).any
        (fun s => (s.node 1).factory.decisionMap.find? 1 = some OneOrder.cmd) = true := by
    decide +kernel
  obtain ⟨s, hsteps, hdec⟩ := Machine.StepsBy.exists_of_runBy _ hrun
  obtain ⟨c, c', hc, hcsteps, -, hfac, -⟩ := refines_cluster (P := fun _ _ _ => True)
    (.init OneOrder.init_mem) hsteps
  refine ⟨c', (hc.of_stepsBy hcsteps).reachable, ?_⟩
  rw [(hfac 1).1]
  exact hdec

end

end Net

end LaptopPaxos
