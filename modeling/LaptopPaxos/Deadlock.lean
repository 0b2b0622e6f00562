import LaptopPaxos.Answers
import LaptopPaxos.Lib.WaitGraph
import LaptopPaxos.Placed
import LaptopPaxos.Waiting

/-!
# No deadlock

Who waits for whom (`Net.WaitsFor`): an end of a connection for the other end, when it has
to receive something, nothing is on its way and neither end is closed, and an engineer for
the Scout that makes its laptop. No threads wait for one another in a circle, and a thread
that has something to do is ready, or waits, by way of threads that have, for one that is
(`Net.no_deadlock`).

The two ends of a connection never wait for one another. A Scout has a question on its way,
or the reply to it; that comes from the wires of the cluster. A client and its engineer keep
the same tally of what has been sent and decoded (`ClientPc.Tally`).
-/

namespace LaptopPaxos

open LaptopFactory

/-! ### The tally of a client -/

/-- How many parcels a client has sent and decoded on its connection. -/
def ClientPc.Tally (sent decoded : ℕ) : ClientPc → Prop
  | .identify _ => sent = 0 ∧ decoded = 0
  | .header _ => sent = 1 ∧ decoded = 0
  | .config _ _ => sent = 1 ∧ decoded = 1
  | .request _ => decoded = sent + 1
  | .answer _ => decoded = sent
  | _ => True

section

@[simp] theorem Conn.decoded_down_useEngineer {o : ByteOrder} {k : Conn} {u : Option Use} :
    (k.useEngineer o u).down.decoded = k.down.decoded := by
  cases u with
  | none => rfl
  | some u => cases u <;> rfl

variable {o : ByteOrder} {c : Client} {env : ClientEnv} {r : ClientEffect} {k : Conn} {i : ℤ}
  {pc : ClientPc} {n : ℕ}

theorem Client.tally_head (i : ℤ) : (c.head i).Tally n (n + 1) := by
  rcases c.head_cases i with h | h <;> rw [h]
  · rfl
  · trivial

theorem Client.Answered.tally (h : c.Answered i pc) : pc.Tally n (n + 1) := by
  cases h with
  | next => exact Client.tally_head _
  | _ => trivial

/-- A client that receives has had no more from its engineer than it has sent. -/
theorem ClientPc.Tally.of_asks {sent decoded : ℕ} (h : c.pc.Tally sent decoded)
    (hsent : c.pc.Sent sent) (hasks : c.asks.isSome) : 0 < sent ∧ decoded ≤ sent := by
  rw [Client.asks] at hasks
  generalize c.pc = pc at h hsent hasks
  cases pc with
  | header i =>
    obtain ⟨rfl, rfl⟩ := h
    exact ⟨hsent, Nat.zero_le 1⟩
  | config i size =>
    obtain ⟨rfl, rfl⟩ := h
    exact ⟨hsent, le_rfl⟩
  | answer i => exact ⟨hsent, h.le⟩
  | _ => cases hasks

/-- A step on the connection, as long as the client's end stays open. -/
theorem ClientStep.tally (hst : ClientStep o env c r) (hconn : r.connected = none)
    (h : c.pc.Tally k.up.sent.length k.down.decoded.length)
    (hopen : r.client.isInitialized = true) :
    r.client.pc.Tally (k.useClient o (c.use r.transfer)).up.sent.length
      (k.useClient o (c.use r.transfer)).down.decoded.length := by
  have hpush : ∀ p, (k.up.sent ++ [p]).length = k.up.sent.length + 1 := fun p => by
    rw [List.length_append, List.length_singleton]
  have hpull : ∀ p, (k.down.decoded ++ [p]).length = k.down.decoded.length + 1 := fun p => by
    rw [List.length_append, List.length_singleton]
  rw [Client.use]
  cases hst with
  | identify hpc =>
    rw [hpc] at h ⊢
    obtain ⟨hsent, hdecoded⟩ := h
    exact ⟨(hpush _).trans (congrArg (· + 1) hsent), hdecoded⟩
  | @header i t hpc =>
    obtain ⟨-, hok⟩ := Bool.and_eq_true _ _ ▸ hopen
    rw [hpc] at h ⊢
    obtain ⟨hsent, hdecoded⟩ := h
    refine ⟨hsent, ?_⟩
    change (k.down.decoded ++ (if t.ok = true then _ else none).toList).length = 1
    rw [if_pos hok]
    exact (hpull _).trans (congrArg (· + 1) hdecoded)
  | @config i size t hpc =>
    have hok : t.ok = true := by
      rw [Client.receiveServerConfig] at hopen
      split at hopen
      · exact (Bool.and_eq_true _ _ ▸ hopen).2
      · exact (Bool.and_eq_true _ _ ▸ hopen).2
    rw [hpc] at h ⊢
    obtain ⟨hsent, hdecoded⟩ := h
    obtain ⟨config, b, heq | heq⟩ := c.receiveServerConfig_cases o i size t
    · rw [heq]
      change (c.head i).Tally k.up.sent.length
        (k.down.decoded ++ (if t.ok = true then _ else none).toList).length
      rw [if_pos hok, Option.toList_some, hpull, hdecoded, hsent]
      exact Client.tally_head i
    · rw [heq]
      trivial
  | @request i t hpc =>
    obtain ⟨-, hok⟩ := Bool.and_eq_true _ _ ▸ hopen
    rw [hpc] at h ⊢
    change (if t.ok = true then _ else _ : ClientPc).Tally _ _
    rw [if_pos hok]
    exact h.trans (hpush _).symm
  | @answer i t hpc =>
    obtain ⟨-, hok⟩ := Bool.and_eq_true _ _ ▸ hopen
    rw [hpc] at h ⊢
    change (c.answered o i _).Tally k.up.sent.length
      (k.down.decoded ++ (if t.ok = true then _ else none).toList).length
    rw [if_pos hok, if_pos hok, Option.toList_some, hpull]
    change k.down.decoded.length = k.up.sent.length at h
    rw [h]
    exact (c.answered_spec o i _).tally
  | init hpc =>
    rw [Client.reconnect_of_fails hconn] at hopen
    cases hopen
  | lost hpc => trivial
  | retry hpc =>
    rw [Client.reconnect_of_fails hconn] at hopen
    cases hopen

end

/-- A Scout receives a reply to its question. -/
theorem ScoutPc.asked_of_asks {pc : ScoutPc} {a : ℤ} (n : ℤ) (h : (pc.asks a).isSome) :
    ∃ m, pc.asked n = some (a, m) := by
  cases pc with
  | p1b laptop l b iter | p2b laptop ph b iter =>
    rw [ScoutPc.asks] at h
    split_ifs at h with hab
    · subst hab
      exact ⟨_, rfl⟩
    · cases h
  | _ => cases h

namespace Net

section

variable {H : Hosts} {s s' : Net} {ℓ : Link} {k : Conn} {c i : ℤ} {n : ℕ}

/-- The client keeps its tally on the connection on which it works. -/
def Tallied (s : Net) : Prop :=
  ∀ c k, s.conn (s.link c) = some k → (s.client c).isInitialized = true →
    (s.client c).pc.Tally k.up.sent.length k.down.decoded.length

theorem Tallied.client {env : ClientEnv} {j : ℤ} {r : ClientEffect} (h : s.Tallied)
    (hst : ClientStep (H.customer c) env (s.client c) r) : (s.applyClient H c j r).Tallied := by
  intro c' k hk hopen
  by_cases hc : c' = c
  · subst hc
    rw [client_applyClient, Function.update_self] at hopen ⊢
    cases hconn : r.connected with
    | none =>
      obtain ⟨hmade, hconns⟩ := made_applyClient (H := H) (s := s) (c := c') (j := j) hconn
      rw [link, hmade, hconns, link, Function.update_self] at hk
      obtain ⟨k₀, hk₀, rfl⟩ := Option.map_eq_some_iff.1 hk
      exact hst.tally hconn (h c' k₀ hk₀ (hst.isInitialized hconn hopen)) hopen
    | some server =>
      obtain ⟨hmade, hconns⟩ := made_applyClient_of_some (j := j) hst hconn
      obtain ⟨-, i, hpc⟩ := connected_of_clientStep hst hconn
      rw [link, hmade, hconns, Function.update_self, Function.update_self] at hk
      cases hk
      rw [hpc]
      exact ⟨rfl, rfl⟩
  · have hmade : (s.applyClient H c j r).made c' = s.made c' := by
      cases hconn : r.connected with
      | none => rw [(made_applyClient hconn).1]
      | some server => rw [(made_applyClient_of_some hst hconn).1, Function.update_of_ne hc]
    rw [link, hmade, conn_applyClient fun n hn => hc (Link.customer.inj hn).1] at hk
    rw [client_applyClient, Function.update_of_ne hc] at hopen ⊢
    exact h c' k hk hopen

theorem tallied_of_reachable (hs : (network H).Reachable s) : s.Tallied := by
  refine hs.invariant (fun s hs => ?_) fun s act s' _ h _ hst => ?_
  · obtain ⟨client, -, rfl⟩ := hs
    intro c k hk
    cases hk
  cases netStep_cases hst with
  | @engineer ℓ answers k₁ r hk₁ hr hu =>
    intro c k hk hopen
    by_cases hℓ : s.link c = ℓ
    · subst hℓ
      rw [show (s.applyEngineer H (s.link c) k₁ r).link c = s.link c from rfl,
        conn_applyEngineer_self] at hk
      cases hk
      have htally := h c k₁ hk₁ hopen
      change (s.client c).pc.Tally _ _
      rw [Conn.sent_useEngineer, Conn.decoded_down_useEngineer]
      exact htally
    · rw [show (s.applyEngineer H ℓ k₁ r).link c = s.link c from rfl,
        conn_applyEngineer_of_ne hℓ] at hk
      exact h c k hk hopen
  | scout hi hio hr hu => exact h
  | client hr hu hj => exact h.client hr

end

end Net

/-! ### Engineers that are gone -/

section

variable {i e : ℤ} {k k' : Conn} {f : LaptopFactory} {role : Role} {o o' : ByteOrder}
  {fut : Option LaptopInfo} {r : EngineerEffect} {p : Parcel} {pc : SessionPc}

/-- No parcel makes an engineer go without leaving. -/
theorem handle_ne_gone (hlog : ∀ q, p ≠ .message (.logRequest q)) (hk : pc.kind = some p.kind) :
    (handle e f pc p).2 ≠ .gone := by
  intro hgone
  rw [handle.eq_def] at hgone
  split at hgone
  · rw [onIdentity] at hgone
    split_ifs at hgone
  · next q =>
    rw [onRequest] at hgone
    split_ifs at hgone
    split at hgone <;> cases hgone
  · exact absurd rfl (hlog _)
  · next m =>
    rw [onAcceptorMsg] at hgone
    split_ifs at hgone
    generalize f.acceptorEngineer m = x at hgone
    obtain ⟨_, _ | _⟩ := x <;> cases hgone
  · rw [onLearnerMsg] at hgone
    split_ifs at hgone
  · rw [show pc = .gone from hgone] at hk
    cases hk

theorem EngineerMove.closed_of_gone (h : EngineerMove o o' role e f fut k r k')
    (hgone : r.engineer.pc = .gone) : r.engineer.isInitialized = false := by
  cases h with
  | send hp _ _ _ heq =>
    rw [heq] at hgone
    cases hpc : k.engineer.pc <;> rw [hpc] at hp hgone <;> cases hp <;> cases hgone
  | handle _ _ _ hup hkind _ heq =>
    rw [heq] at hgone
    exact absurd hgone (handle_ne_gone hup.not_logRequest hkind)
  | fail _ heq => rw [heq]
  | wake _ _ _ heq =>
    rw [heq] at hgone
    cases hgone
  | leave _ _ heq => rw [heq]

/-- An engineer that is gone has closed its end. -/
theorem Net.closed_of_gone {H : Hosts} {s : Net} {ℓ : Link} (hs : (network H).Reachable s)
    (hk : s.conn ℓ = some k) (hgone : k.engineer.pc = .gone) :
    k.engineer.isInitialized = false := by
  induction hs generalizing k with
  | init hs =>
    obtain ⟨client, -, rfl⟩ := hs
    cases hk
  | @step s s' act hs _ hst ih =>
    have hstems : ∀ {dial}, s.Stems dial s' ℓ k → k.engineer.isInitialized = false := by
      intro dial hstems
      cases hstems with
      | old hk hsame =>
        rw [hsame.engineer] at hgone ⊢
        exact ih hk hgone
      | new _ hsame =>
        rw [hsame.engineer] at hgone
        cases hgone
    cases netStep_cases hst with
    | @engineer ℓ' answers k₀ r hk₀ hr hu =>
      by_cases hℓ : ℓ = ℓ'
      · subst hℓ
        rw [conn_applyEngineer_self] at hk
        cases hk
        exact (hr.move ((regular_of_reachable hs).heard hk₀) hu).closed_of_gone hgone
      · rw [conn_applyEngineer_of_ne hℓ] at hk
        exact ih hk hgone
    | scout => exact hstems (stems_applyScout hk)
    | client hr => exact hstems (stems_applyClient hr hk)

end

/-! ### Threads that wait -/

/-- The threads of the servers and of the clients. -/
inductive Thread
  | client (c : ℤ)
  /-- At the end of the connection. -/
  | engineer (ℓ : Link)
  | scout (i : ℤ)
  deriving DecidableEq

/-- The thread that has made the connection. -/
def Link.caller : Link → Thread
  | .customer c _ => .client c
  | .acceptor i _ | .learner i _ => .scout i

namespace Net

variable (s : Net)

/-- The thread that has made the connection receives, and not all the bytes it asks for are
    on their way. -/
structure Expects (ℓ : Link) (k : Conn) : Prop where
  isOpen : s.isOpen ℓ = true
  isInitialized : k.engineer.isInitialized = true
  short : ∃ size ∈ s.asks ℓ, (k.down.flight.length : ℤ) < size

/-- The engineer receives, and not all the bytes it asks for are on their way. -/
structure Listens (ℓ : Link) (k : Conn) : Prop where
  isOpen : s.isOpen ℓ = true
  isInitialized : k.engineer.isInitialized = true
  short : ∃ size ∈ k.engineer.pc.wants, k.up.flight.length < size

/-- The engineer waits for its promise. -/
structure Promised (k : Conn) : Prop where
  order : k.engineer.pc = .order
  fut : (s.node k.server).fut k.id = none

instance (ℓ : Link) (k : Conn) : Decidable (s.Expects ℓ k) :=
  decidable_of_iff (s.isOpen ℓ = true ∧ k.engineer.isInitialized = true ∧
    ∃ size ∈ s.asks ℓ, (k.down.flight.length : ℤ) < size)
    ⟨fun h => ⟨h.1, h.2.1, h.2.2⟩, fun h => ⟨h.isOpen, h.isInitialized, h.short⟩⟩

instance (ℓ : Link) (k : Conn) : Decidable (s.Listens ℓ k) :=
  decidable_of_iff (s.isOpen ℓ = true ∧ k.engineer.isInitialized = true ∧
    ∃ size ∈ k.engineer.pc.wants, k.up.flight.length < size)
    ⟨fun h => ⟨h.1, h.2.1, h.2.2⟩, fun h => ⟨h.isOpen, h.isInitialized, h.short⟩⟩

instance (k : Conn) : Decidable (s.Promised k) :=
  decidable_of_iff (k.engineer.pc = .order ∧ (s.node k.server).fut k.id = none)
    ⟨fun h => ⟨h.1, h.2⟩, fun h => ⟨h.order, h.fut⟩⟩

/-- A thread waits for another: for bytes, on a connection of which both ends are open, or for
    a laptop. -/
inductive WaitsFor : Thread → Thread → Prop
  | answer {ℓ k} : s.conn ℓ = some k → s.Expects ℓ k → WaitsFor ℓ.caller (.engineer ℓ)
  | request {ℓ k} : s.conn ℓ = some k → s.Listens ℓ k → WaitsFor (.engineer ℓ) ℓ.caller
  | promise {ℓ k} : s.conn ℓ = some k → s.Promised k → WaitsFor (.engineer ℓ) (.scout k.server)

/-- The thread has something to do. Between two requests an engineer has not, and a Scout
    has not without an order. -/
def Works : Thread → Prop
  | .client c => (s.client c).pc ≠ .done ∧ (s.client c).pc ≠ .fault
  | .engineer ℓ => ∃ k, s.conn ℓ = some k ∧ k.engineer.pc ≠ .gone ∧ ¬s.Listens ℓ k
  | .scout i => (s.node i).scout ≠ .idle ∨ (s.node i).factory.erq ≠ []

/-- The two ends of a connection understand one another: no client takes its configuration
    out of the wrong bytes, and the Scouts send `int`s. -/
def Faithful (H : Hosts) (s : Net) (act : NetAction) : Prop :=
  s.Benign H act ∧ s.OnScout (fun _ f pc => pc.IntSized f) act

instance (H : Hosts) (s : Net) (act : NetAction) : Decidable (Faithful H s act) :=
  inferInstanceAs (Decidable (_ ∧ _))

section

variable {s} {H : Hosts} {ℓ : Link} {k : Conn} {a c i : ℤ} {n : ℕ}
  {t u : Thread}

/-- Nothing has been sent that is not received. -/
theorem Expects.pending (hinv : s.Inv H) (hk : s.conn ℓ = some k) (h : s.Expects ℓ k) :
    k.down.pending = [] := by
  obtain ⟨size, hasks, hlt⟩ := h.short
  have hdown := (hinv.conn ℓ k hk).down
  rw [h.isInitialized, isOpen_clientEnd, h.isOpen] at hdown
  refine hdown.pending_eq_nil fun p hp => ?_
  have hlen := (framed_of_inv hinv ℓ k hk).clientAsks size
    (by rw [if_pos h.isOpen]; exact hasks) p hp (H.order k.server)
  omega

theorem Listens.pending (hinv : s.Inv H) (hk : s.conn ℓ = some k) (h : s.Listens ℓ k) :
    k.up.pending = [] := by
  obtain ⟨size, hwants, hlt⟩ := h.short
  have hup := (hinv.conn ℓ k hk).up
  rw [h.isInitialized, isOpen_clientEnd, h.isOpen] at hup
  refine hup.pending_eq_nil fun p hp => ?_
  rw [(framed_of_inv hinv ℓ k hk).engineerAsks size hwants p hp]
  exact hlt

theorem Listens.kind (h : s.Listens ℓ k) : k.engineer.pc.kind.isSome := by
  obtain ⟨size, hwants, -⟩ := h.short
  exact (SessionPc.isSome_kind _).2 (Option.isSome_of_mem hwants)

theorem Expects.asked (h : s.Expects ℓ k) : (s.asks ℓ).isSome := by
  obtain ⟨size, hasks, -⟩ := h.short
  exact Option.isSome_of_mem hasks

/-- The engineer of a customer receives the identity, or has answered every request. -/
theorem count_of_kind {requestType : ℤ} {decoded sent : ℕ} {pc : SessionPc}
    (hat : (Role.customer requestType).At decoded sent pc) (hcount : pc.Count decoded sent)
    (hkind : pc.kind.isSome) : decoded = 0 ∨ sent = decoded + 1 := by
  cases pc with
  | identity => exact .inl hcount.1
  | request => exact .inr hcount
  | logRequest | acceptor | learner => exact hat.elim
  | _ => cases hkind

/-- A customer and its engineer do not wait for one another. -/
theorem not_listens_customer (hs : (network H).ReachBy (Benign H) s)
    (hk : s.conn (.customer c n) = some k) (h : s.Expects (.customer c n) k) :
    ¬s.Listens (.customer c n) k := by
  intro hl
  have hreg := regular_of_reachable hs.reachable
  have hinv := inv_of_reachBy hs
  have hup := (hinv.conn _ k hk).up.length_decoded (hl.pending hinv hk)
  have hdown := (hinv.conn _ k hk).down.length_decoded (h.pending hinv hk)
  have hturn := count_of_kind (hreg.heard hk).engineer
    (answering_of_reachable hs.reachable hk).count hl.kind
  -- the client works on this connection
  have hasks := h.asked
  rw [Net.asks] at hasks
  split_ifs at hasks with hn
  · subst hn
    have hopen : (s.client c).isInitialized = true := ((Bool.and_eq_true _ _).mp h.isOpen).2
    have htally := tallied_of_reachable hs.reachable c k hk hopen
    have hsent := (hreg.line c _ k hk).sent rfl
    obtain ⟨hpos, hle⟩ := htally.of_asks hsent hasks
    omega
  · cases hasks

/-- A Scout and the engineer of its acceptor do not wait for one another. -/
theorem not_listens_acceptor (hs : (network H).ReachBy (Faithful H) s)
    (hk : s.conn (.acceptor i a) = some k) (h : s.Expects (.acceptor i a) k) :
    ¬s.Listens (.acceptor i a) k := by
  intro hl
  have hinv := inv_of_reachBy (hs.mono fun _ _ hok => hok.1)
  obtain ⟨c, hc, hR⟩ := exists_cluster (hs.mono fun _ _ hok => hok.2)
  have hconv := (hR.wires i (.acceptor a) _ rfl).conveys k hk
  have hopen : c.opened i a := by
    rw [Cluster.opened, hR.factory]
    exact of_decide_eq_true h.isOpen
  -- nothing is on its way in either direction
  obtain ⟨ps, ⟨lost, rest, hps, -⟩, hq⟩ := hconv.up h.isInitialized
  obtain ⟨rfl, -⟩ := List.append_eq_nil_iff.1 (hps.symm.trans (hl.pending hinv hk))
  obtain ⟨ps', ms, ⟨lost', rest', hps', -⟩, hr, hms⟩ := hconv.down h.isOpen
  obtain ⟨rfl, -⟩ := List.append_eq_nil_iff.1 (hps'.symm.trans (h.pending hinv hk))
  have hreplies : ms = [] := by
    have hkind := hl.kind
    rw [hms h.isInitialized]
    cases hpc : k.engineer.pc <;> rw [hpc] at hkind <;> cases hkind <;> rfl
  obtain ⟨m, hasked⟩ := ScoutPc.asked_of_asks (c.factory i).proposalNumber h.asked
  rw [← hR.scout] at hasked
  rcases (wired_of_reachable hc).talk i a hopen with
    ⟨_, -, ⟨hto, -⟩ | ⟨-, _, hfrom⟩⟩ | ⟨hnone, -⟩
  · cases hto.symm.trans hq.symm
  · cases hfrom.symm.trans (hr.symm.trans hreplies)
  · exact hnone m hasked

/-- The ends of a connection do not wait for one another. -/
theorem not_listens (hs : (network H).ReachBy (Faithful H) s) (hk : s.conn ℓ = some k)
    (h : s.Expects ℓ k) : ¬s.Listens ℓ k := by
  cases ℓ with
  | customer c n => exact not_listens_customer (hs.mono fun _ _ hok => hok.1) hk h
  | acceptor i a => exact not_listens_acceptor hs hk h
  | learner i a => exact fun _ => Bool.noConfusion h.asked

/-- A thread that waits for its promise has an order in the Scout. -/
theorem Promised.works (hs : (network H).Reachable s) (hk : s.conn ℓ = some k)
    (h : s.Promised k) : s.Works (.scout k.server) := by
  obtain ⟨laptop, -, ⟨hone, -⟩ | ⟨-, _, -, hset⟩⟩ := awaits_of_order hs hk h.order
  · have hmem : laptop ∈ s.outstanding k.server :=
      List.mem_of_mem_filter (hone ▸ List.mem_singleton_self laptop)
    rw [outstanding, List.mem_append] at hmem
    rcases hmem with hmem | hmem
    · refine .inl fun hidle => ?_
      rw [hidle] at hmem
      cases hmem
    · refine .inr fun hnil => ?_
      rw [hnil] at hmem
      cases hmem
  · rw [h.fut] at hset
    cases hset

/-- A thread that has something to do waits for one that has. -/
theorem WaitsFor.works (hs : (network H).ReachBy (Faithful H) s) (h : s.WaitsFor t u)
    (ht : s.Works t) : s.Works u := by
  cases h with
  | answer hk h =>
    refine ⟨_, hk, fun hgone => ?_, not_listens hs hk h⟩
    have hclosed := closed_of_gone hs.reachable hk hgone
    rw [h.isInitialized] at hclosed
    cases hclosed
  | request hk h =>
    obtain ⟨k, hk', -, hne⟩ := ht
    cases hk.symm.trans hk'
    exact absurd h hne
  | promise hk h => exact h.works hs.reachable hk

/-- What goes down from a thread to the one that it waits for. -/
def depth (s : Net) : Thread → ℕ
  | .client _ => 3
  | .scout _ => 1
  | .engineer ℓ => (s.conn ℓ).elim 0 fun k =>
      if s.Listens ℓ k then 4 else if k.engineer.pc = .order then 2 else 0

theorem depth_engineer (hk : s.conn ℓ = some k) : s.depth (.engineer ℓ) =
    if s.Listens ℓ k then 4 else if k.engineer.pc = .order then 2 else 0 := by
  rw [depth, hk]
  rfl

/-- The engineer of an acceptor waits for no promise. -/
theorem order_ne (hs : (network H).Reachable s) (hk : s.conn (.acceptor i a) = some k) :
    k.engineer.pc ≠ .order := by
  intro hpc
  have hat := ((regular_of_reachable hs).heard hk).engineer
  rw [hpc] at hat
  exact hat

theorem WaitsFor.depth_lt (hs : (network H).ReachBy (Faithful H) s) (h : s.WaitsFor t u) :
    s.depth u < s.depth t := by
  cases h with
  | @answer ℓ k hk h =>
    rw [depth_engineer hk, if_neg (not_listens hs hk h)]
    cases ℓ with
    | customer c n =>
      change _ < 3
      split_ifs <;> omega
    | acceptor i a =>
      rw [if_neg (order_ne hs.reachable hk)]
      exact Nat.one_pos
    | learner i a => exact Bool.noConfusion h.asked
  | @request ℓ k hk h =>
    rw [depth_engineer hk, if_pos h]
    cases ℓ with
    | customer c n => exact Nat.lt_succ_self 3
    | acceptor i a | learner i a =>
      change 1 < 4
      omega
  | @promise ℓ k hk h =>
    have hne : ¬s.Listens ℓ k := by
      intro hl
      have hkind := hl.kind
      rw [h.order] at hkind
      cases hkind
    rw [depth_engineer hk, if_neg hne, if_pos h.order]
    exact Nat.lt_succ_self 1

/-- No threads wait for one another in a circle, and a thread that has something to do is
    ready, or waits, by way of threads that have, for one that is. -/
theorem no_deadlock (hs : (network H).ReachBy (Faithful H) s) :
    DeadlockFree s.WaitsFor s.Works :=
  .of_lt s.depth (fun _ _ h => h.depth_lt hs) fun _ _ h => h.works hs

/-- A client, its engineer and the Scout wait for an acceptor, which has a message to read. -/
theorem no_deadlock_one : ∃ s : Net, s.WaitsFor (.client 0) (.engineer (.customer 0 1)) ∧
    s.WaitsFor (.engineer (.customer 0 1)) (.scout 1) ∧
    s.WaitsFor (.scout 1) (.engineer (.acceptor 1 1)) ∧ DeadlockFree s.WaitsFor s.Works := by
  have hinit : (network OneOrder.hosts).ReachBy (Faithful OneOrder.hosts) OneOrder.init :=
    .init OneOrder.init_mem
  obtain ⟨s, hs, ⟨k, hk, hexpects, hpromised, hserver⟩, k', hk', hscout⟩ := hinit.exists_of_runBy
    (P := fun s => (∃ k ∈ s.conn (.customer 0 1), s.Expects (.customer 0 1) k ∧ s.Promised k ∧
        k.server = 1) ∧ ∃ k ∈ s.conn (.acceptor 1 1), s.Expects (.acceptor 1 1) k)
    (OneOrder.run.take 13) (by decide +kernel)
  refine ⟨s, .answer hk hexpects, ?_, .answer hk' hscout, no_deadlock hs⟩
  rw [← hserver]
  exact .promise hk hpromised

end

end Net

end LaptopPaxos
