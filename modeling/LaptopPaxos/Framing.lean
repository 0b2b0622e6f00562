import LaptopPaxos.Stubs

/-!
# Framing

No receiver reads across the boundary of a message: in every run of the network, on
every connection and in both directions, the messages decoded are those sent
(`framed`). Three things can spoil this, and must not happen in a step
(`Net.Benign`):

* a client that has failed to receive the size of the configuration goes on with
  the memory in which the size should be, and asks for no bytes or less, which
  it gets at once;
* a configuration is not portable from the host of the server to that of the
  client;
* the size of a configuration is not an `int`.

The induction is over runs (`Inv.step`). It needs all threads at once: that the
next message of an acceptor has the length that the Scout asks for depends on
every command that any Scout has ever sent.
-/

namespace LaptopPaxos

open LaptopFactory

/-! ### Framed connections -/

/-- On the connection, every message decoded is the next one sent, every Paxos message
    is as long as a default one, and the two ends ask for as many bytes as the next
    message has; `asks` is for the end that has made the connection. -/
structure Conn.Framed (asks : Option ℤ) (k : Conn) : Prop where
  up : k.up.decoded <+: k.up.sent.map some
  down : k.down.decoded <+: k.down.sent.map some
  paxosMsg : ∀ m, .message (.paxosMsg m) ∈ k.up.sent ++ k.down.sent →
    ∀ o, (m.marshal o).length = ({} : PaxosMsg).size
  engineerAsks : ∀ size, k.engineer.pc.wants = some size →
    ∀ p, k.up.pending.head? = some p → ∀ o, (p.marshal o).length = size
  clientAsks : ∀ size, asks = some size →
    ∀ p, k.down.pending.head? = some p → ∀ o, ((p.marshal o).length : ℤ) = size

namespace Net

variable (H : Hosts) (s : Net)

/-- All connections are framed. A closed end asks for nothing: the call fails. -/
def Framed : Prop :=
  ∀ ℓ k, s.conn ℓ = some k → k.Framed (if s.isOpen ℓ then s.asks ℓ else none)

/-- In the step, a configuration that is sent is shorter than 2³¹ bytes, and the
    client that receives it is `Client.Benign`. -/
def Benign : NetAction → Prop
  | .engineer ℓ _ => ∀ k ∈ s.conn ℓ, k.engineer.pc = .configSize →
      (s.node k.server).factory.serverConfig.size < 2147483648
  | .scout _ _ _ => True
  | .client c env _ => (s.client c).Benign (H.customer c) env (∀ k ∈ s.conn (s.link c),
      Message.Portable (H.order k.server) (H.customer c)
        (.serverConfig (s.node k.server).factory.serverConfig))

instance : (act : NetAction) → Decidable (s.Benign H act)
  | .engineer ℓ _ => inferInstanceAs (Decidable (∀ k ∈ s.conn ℓ, _ → _ < _))
  | .scout _ _ _ => .isTrue trivial
  | .client c env _ => inferInstanceAs (Decidable ((s.client c).Benign _ env _))

/-! ### The invariant -/

/-- The end that has made a connection, as its session sees it. -/
def clientEnd : Link → ClientEnd
  | .customer c n =>
    { order := H.customer c
      role := .customer (s.client c).requestType
      isOpen := s.isOpen (.customer c n)
      client := if n = s.made c then some (s.client c) else none }
  | .acceptor i a =>
    { order := H.order i, role := .acceptor, isOpen := s.isOpen (.acceptor i a), client := none }
  | .learner i a =>
    { order := H.order i, role := .learner, isOpen := s.isOpen (.learner i a), client := none }

/-- Every command is plain, the two ends of every connection agree, and every stub has
    sent its identity. -/
structure Inv : Prop where
  config : ∀ j, (s.node j).factory.serverConfig = H.config j
  value : ∀ j, (s.node j).factory.acceptedValue.IsPlain
  scout : ∀ j, (s.node j).scout.IsPlain
  conn : ∀ ℓ k, s.conn ℓ = some k → k.Inv H (s.clientEnd H ℓ)
  started : ∀ i x ℓ k, Link.ofStub i x = some ℓ → s.conn ℓ = some k → 0 < k.up.sent.length

variable {H s}

@[simp] theorem isOpen_clientEnd (ℓ : Link) : (s.clientEnd H ℓ).isOpen = s.isOpen ℓ := by
  cases ℓ <;> rfl

theorem arrived_eq {ℓ : Link} {k : Conn} (h : s.conn ℓ = some k) : s.arrived ℓ = k.down.flight := by
  rw [arrived, h]
  rfl

/-! ### Engineers -/

theorem serverConfig_received {o : ByteOrder} {e : ℤ} {f : LaptopFactory}
    {buffer? : Option (List UInt8)} {pc : SessionPc} :
    (received o e f buffer? pc).1.serverConfig = f.serverConfig := by
  refine received_factory (P := fun f' => f'.serverConfig = f.serverConfig) rfl (fun q => ?_)
    (fun q f' h => ?_) (fun m => ?_) fun m => ?_
  · rw [customerEngineer]
    split_ifs <;> rfl
  · simp only [backupEngineer] at h
    split_ifs at h
    · obtain ⟨op, -, rfl⟩ := Option.map_eq_some_iff.1 h
      rfl
    · cases h
      rfl
    · cases h
      rfl
  · have h := acceptorEngineer_cases f m
    generalize (f.acceptorEngineer m).1 = f', (f.acceptorEngineer m).2 = reply at h
    cases h <;> rfl
  · rw [learnerEngineer]
    split_ifs
    · obtain ⟨d, l, h⟩ := learn_eq f m.getCommand
      rw [h]
    · rfl

section

variable {ℓ : Link} {k : Conn} {answers : Answers} {r : EngineerEffect}

theorem factory_applyEngineer (h : EngineerStep (H.order k.server) k.id (s.node k.server).factory
    ((s.node k.server).fut k.id) answers k.engineer r) (j : ℤ) :
    SameStubs (s.node j).factory ((s.applyEngineer H ℓ k r).node j).factory ∧
      ((s.applyEngineer H ℓ k r).node j).factory.serverConfig = (s.node j).factory.serverConfig ∧
      ((s.applyEngineer H ℓ k r).node j).scout = (s.node j).scout := by
  by_cases hj : j = k.server
  · subst hj
    rw [node_applyEngineer_self]
    refine ⟨h.stubs, ?_, rfl⟩
    cases h with
    | recv => exact serverConfig_received
    | _ => rfl
  · rw [node_applyEngineer_of_ne hj]
    exact ⟨.refl _, rfl, rfl⟩

/-- An engineer leaves the ends alone that have made the connections. -/
theorem clientEnd_applyEngineer (h : EngineerStep (H.order k.server) k.id
    (s.node k.server).factory ((s.node k.server).fut k.id) answers k.engineer r) (ℓ' : Link) :
    (s.applyEngineer H ℓ k r).clientEnd H ℓ' = s.clientEnd H ℓ' := by
  have hopen : ∀ j x, ((s.applyEngineer H ℓ k r).node j).factory.isOpen x =
      (s.node j).factory.isOpen x := fun j x => (factory_applyEngineer h j).1.isOpen x
  cases ℓ' with
  | customer c n => rfl
  | acceptor i a =>
    rw [clientEnd, clientEnd, isOpen, hopen]
    rfl
  | learner i a =>
    rw [clientEnd, clientEnd, isOpen, hopen]
    rfl

theorem Inv.engineer (h : s.Inv H) (hk : s.conn ℓ = some k)
    (hst : EngineerStep (H.order k.server) k.id (s.node k.server).factory
      ((s.node k.server).fut k.id) answers k.engineer r)
    (hu : ∀ u ∈ k.engineer.pc.use (s.node k.server).factory r.transfer,
      u.Allowed k.engineer.isInitialized k.up.flight)
    (hben : k.engineer.pc = .configSize →
      (s.node k.server).factory.serverConfig.size < 2147483648) :
    (s.applyEngineer H ℓ k r).Inv H := by
  have hf := factory_applyEngineer (ℓ := ℓ) hst
  have hE := clientEnd_applyEngineer (ℓ := ℓ) hst
  rw [h.config] at hben
  obtain ⟨hconn, hval⟩ := (h.conn ℓ k hk).engineerStep hst (h.config _) (h.value _) hu hben
  refine ⟨fun j => (hf j).2.1.trans (h.config j), fun j => ?_, fun j => ?_, fun ℓ' k' hk' => ?_,
    fun i x ℓ' k' hx hk' => ?_⟩
  · by_cases hj : j = k.server
    · subst hj
      rw [node_applyEngineer_self]
      exact hval
    · rw [node_applyEngineer_of_ne hj]
      exact h.value j
  · rw [(hf j).2.2]
    exact h.scout j
  · rw [hE]
    by_cases hℓ : ℓ' = ℓ
    · subst hℓ
      rw [conn_applyEngineer_self] at hk'
      cases hk'
      exact hconn
    · rw [conn_applyEngineer_of_ne hℓ] at hk'
      exact h.conn ℓ' k' hk'
  · by_cases hℓ : ℓ' = ℓ
    · subst hℓ
      rw [conn_applyEngineer_self] at hk'
      cases hk'
      rw [Conn.sent_useEngineer]
      exact h.started i x ℓ' k hx hk
    · rw [conn_applyEngineer_of_ne hℓ] at hk'
      exact h.started i x ℓ' k' hx hk'

end

/-! ### Clients -/

section

variable {ℓ : Link} {c j : ℤ} {env : ClientEnv} {r : ClientEffect} {server : ServerInfo}

/-- A new connection is made before anything is sent on it. -/
theorem connected_of_clientStep (h : ClientStep (H.customer c) env (s.client c) r)
    (hconn : r.connected = some server) :
    (s.client c).use r.transfer = none ∧ ∃ i, r.client.pc = .identify i := by
  cases h with
  | init hpc =>
    rw [Client.reconnect] at hconn ⊢
    split_ifs at hconn ⊢
    exact ⟨by rw [Client.use, hpc], 0, rfl⟩
  | @retry i _ _ hpc =>
    rw [Client.reconnect] at hconn ⊢
    split_ifs at hconn ⊢
    exact ⟨by rw [Client.use, hpc], i + 1, rfl⟩
  | _ => cases hconn

/-- The ends of the other clients and of the stubs are the same. -/
theorem clientEnd_applyClient (hℓ : ∀ n, ℓ ≠ .customer c n) :
    (s.applyClient H c j r).clientEnd H ℓ = s.clientEnd H ℓ := by
  cases ℓ with
  | customer c' n =>
    have hc : c' ≠ c := fun hc => hℓ n (hc ▸ rfl)
    have hmade : (s.applyClient H c j r).made c' = s.made c' := by
      rw [applyClient]
      split
      · rfl
      · exact Function.update_of_ne hc ..
    rw [clientEnd, clientEnd, isOpen, isOpen, client_applyClient, Function.update_of_ne hc, hmade]
  | acceptor i a =>
    rw [clientEnd, clientEnd, isOpen, isOpen, node_applyClient]
  | learner i a =>
    rw [clientEnd, clientEnd, isOpen, isOpen, node_applyClient]

theorem conn_applyClient (hℓ : ∀ n, ℓ ≠ .customer c n) :
    (s.applyClient H c j r).conn ℓ = s.conn ℓ := by
  rw [applyClient]
  split
  · exact Function.update_of_ne (hℓ _) ..
  · exact (Function.update_of_ne (hℓ _) ..).trans (Function.update_of_ne (hℓ _) ..)

/-- The end of the client itself; `made` is how many connections it has made then. -/
theorem clientEnd_applyClient_self (hst : ClientStep (H.customer c) env (s.client c) r) {made n : ℕ}
    (hmade : (s.applyClient H c j r).made c = made) :
    (s.applyClient H c j r).clientEnd H (.customer c n) =
      { s.clientEnd H (.customer c n) with
        isOpen := n = made && r.client.isInitialized
        client := if n = made then some r.client else none } := by
  rw [clientEnd, clientEnd, isOpen, client_applyClient, Function.update_self, hmade,
    hst.requestType]

/-- The client goes on on its connection. -/
theorem Inv.conn_client (h : s.Inv H) (hst : ClientStep (H.customer c) env (s.client c) r)
    (hu : ∀ u ∈ (s.client c).use r.transfer, u.Allowed (s.isOpen (s.link c)) (s.arrived (s.link c)))
    (hben : s.Benign H (.client c env j)) (hconn : r.connected = none) {n : ℕ} {k : Conn}
    (hk : (s.applyClient H c j r).conn (.customer c n) = some k) :
    k.Inv H ((s.applyClient H c j r).clientEnd H (.customer c n)) := by
  have hmade : (s.applyClient H c j r).made c = s.made c := by
    rw [applyClient, hconn]
  have hconns : (s.applyClient H c j r).conn = Function.update s.conn (s.link c)
      ((s.conn (s.link c)).map fun k =>
        k.useClient (H.customer c) ((s.client c).use r.transfer)) := by
    rw [applyClient, hconn]
  rw [clientEnd_applyClient_self hst hmade]
  rw [hconns] at hk
  by_cases hn : n = s.made c
  · subst hn
    rw [link, Function.update_self] at hk
    obtain ⟨k₀, hk₀, rfl⟩ := Option.map_eq_some_iff.1 hk
    have hE : (s.clientEnd H (.customer c (s.made c))).isOpen = (s.client c).isInitialized := by
      change (decide (s.made c = s.made c) && _) = _
      rw [decide_eq_true rfl, Bool.true_and]
    rw [link, arrived_eq hk₀] at hu
    rw [if_pos rfl, decide_eq_true rfl, Bool.true_and]
    refine (h.conn _ k₀ hk₀).clientStep (if_pos rfl) hE hst hconn hu
      (Client.Benign.mono hben fun hport => ?_)
    rw [← h.config]
    exact hport k₀ hk₀
  · rw [link, Function.update_of_ne fun heq => hn (Link.customer.inj heq).2] at hk
    rw [if_neg hn, decide_eq_false hn, Bool.false_and]
    exact (h.conn _ k hk).close (fun h => absurd h Bool.false_ne_true)
      (fun _ hc => absurd hc (Option.not_mem_none _)) fun _ hc => absurd hc (Option.not_mem_none _)

/-- The client has made a new connection. -/
theorem Inv.conn_connect (h : s.Inv H) (hst : ClientStep (H.customer c) env (s.client c) r)
    (hj : j ∈ H.ids) (hconn : r.connected = some server) {n : ℕ} {k : Conn}
    (hk : (s.applyClient H c j r).conn (.customer c n) = some k) :
    k.Inv H ((s.applyClient H c j r).clientEnd H (.customer c n)) := by
  obtain ⟨huse, i, hpc⟩ := connected_of_clientStep hst hconn
  have hmade : (s.applyClient H c j r).made c = s.made c + 1 := by
    rw [applyClient, hconn]
    exact Function.update_self ..
  have hconns : (s.applyClient H c j r).conn =
      Function.update s.conn (.customer c (s.made c + 1)) (some (s.accept j)) := by
    have hsame : (s.conn (s.link c)).map (fun k => k.useClient (H.customer c) none) =
        s.conn (s.link c) := Option.map_id'
    rw [applyClient, hconn, huse]
    change Function.update (Function.update s.conn (s.link c) _) _ _ = _
    rw [hsame, Function.update_eq_self]
  rw [clientEnd_applyClient_self hst hmade]
  rw [hconns] at hk
  by_cases hn : n = s.made c + 1
  · subst hn
    rw [Function.update_self] at hk
    cases hk
    rw [if_pos rfl, decide_eq_true rfl, Bool.true_and]
    refine Conn.inv_new (fun _ _ => hj) ?_ ?_
    · rintro _ ⟨⟩
      rw [hst.requestType]
      rfl
    · rintro _ ⟨⟩
      rw [hpc]
      exact ⟨rfl, rfl⟩
  · rw [Function.update_of_ne fun heq => hn (Link.customer.inj heq).2] at hk
    rw [if_neg hn, decide_eq_false hn, Bool.false_and]
    exact (h.conn _ k hk).close (fun h => absurd h Bool.false_ne_true)
      (fun _ hc => absurd hc (Option.not_mem_none _)) fun _ hc => absurd hc (Option.not_mem_none _)

theorem Inv.client (h : s.Inv H) (hst : ClientStep (H.customer c) env (s.client c) r)
    (hu : ∀ u ∈ (s.client c).use r.transfer, u.Allowed (s.isOpen (s.link c)) (s.arrived (s.link c)))
    (hj : r.connected.isSome → j ∈ H.ids) (hben : s.Benign H (.client c env j)) :
    (s.applyClient H c j r).Inv H := by
  refine ⟨fun j' => ?_, fun j' => ?_, fun j' => ?_, fun ℓ k hk => ?_, fun i x ℓ k hx hk => ?_⟩
  · rw [node_applyClient]
    exact h.config j'
  · rw [node_applyClient]
    exact h.value j'
  · rw [node_applyClient]
    exact h.scout j'
  · by_cases hℓ : ∃ n, ℓ = .customer c n
    · obtain ⟨n, rfl⟩ := hℓ
      cases hconn : r.connected with
      | none => exact h.conn_client hst hu hben hconn hk
      | some server => exact h.conn_connect hst (hj (Option.isSome_of_eq_some hconn)) hconn hk
    · rw [not_exists] at hℓ
      rw [clientEnd_applyClient hℓ]
      rw [conn_applyClient hℓ] at hk
      exact h.conn ℓ k hk
  · rw [conn_applyClient fun n hn => Link.ofStub_ne_customer (hx.trans (congrArg some hn))] at hk
    exact h.started i x ℓ k hx hk

end

/-! ### Scouts -/

/-- What the Scout of `i` does on its connections is possible. -/
def ScoutAllowed (s : Net) (i : ℤ) (io : ScoutIo) : Prop :=
  ∀ p ∈ io.transfers, ∀ u ∈ (s.node i).scout.use (s.node i).factory p.1 p.2,
    ∀ ℓ ∈ Link.ofStub i p.1, u.Allowed ((s.node i).scout.connects || s.isOpen ℓ) (s.arrived ℓ)

section

variable {i a : ℤ} {x : SocketId} {ℓ : Link} {k : Conn} {io : ScoutIo} {env : Env}
  {answers : ℤ → Answers} {r : Effect} {t : Transfer} {u : Use}

theorem onStub_of_none (h : (io.transfers.lookup x).bind
    ((s.node i).scout.use (s.node i).factory x) = none) (k : Option Conn) :
    s.onStub H i io x a k = k := by
  rw [onStub, h]

theorem onStub_of_some (ht : io.transfers.lookup x = some t)
    (hu : (s.node i).scout.use (s.node i).factory x t = some u) (k : Option Conn) :
    s.onStub H i io x a k = (if (s.node i).scout.connects then some (s.accept a) else k).map
      fun k => k.useClient (H.order i) (some u) := by
  rw [onStub, ht, Option.bind_some, hu]

/-- The end of a stub, as its session sees it. -/
theorem clientEnd_ofStub (hx : Link.ofStub i x = some ℓ) :
    (s.clientEnd H ℓ).order = H.order i ∧ (s.clientEnd H ℓ).client = none ∧
      (s.clientEnd H ℓ).isOpen = (s.node i).factory.isOpen x ∧
      ∀ requestType, (s.clientEnd H ℓ).role ≠ .customer requestType := by
  cases x <;> cases hx <;> exact ⟨rfl, rfl, rfl, nofun⟩

/-- What the Scout sends is planned. -/
theorem up_of_plans (hx : Link.ofStub i x = some ℓ) {p : Parcel} {pc : ScoutPc} {n : ℕ}
    (h : pc.Plans x p) (hn : 0 < n) :
    (pc.connects = true → (s.clientEnd H ℓ).role.Up 0 p.narrow) ∧
      (pc.connects = false → (s.clientEnd H ℓ).role.Up n p.narrow) := by
  obtain ⟨n, rfl⟩ := Nat.exists_eq_add_one.2 hn
  constructor
  · intro hc
    have hid := h.first hc
    cases x <;> cases hx <;> cases hid <;> rfl
  · intro hc
    obtain ⟨m, rfl, hm⟩ := h.later hc
    cases x <;> cases hx <;> exact ⟨m, rfl, hm⟩

/-- What a stub does is possible. -/
theorem allowed_of_lookup (hu : s.ScoutAllowed i io)
    (hx : Link.ofStub i x = some ℓ) (ht : io.transfers.lookup x = some t)
    (huse : (s.node i).scout.use (s.node i).factory x t = some u) :
    u.Allowed ((s.node i).scout.connects || s.isOpen ℓ) (s.arrived ℓ) := by
  obtain ⟨l₁, l₂, heq, -⟩ := List.lookup_eq_some_iff.1 ht
  have hmem : (x, t) ∈ io.transfers := by
    rw [heq]
    exact List.mem_append_right _ List.mem_cons_self
  exact hu (x, t) hmem u huse ℓ hx

/-- A connection of the Scout after a step. -/
theorem Inv.onStub (h : s.Inv H) (hx : Link.ofStub i x = some ℓ)
    (hst : StubStep (H.order i) (s.node i).factory r.factory (s.node i).scout io x)
    (hu : s.ScoutAllowed i io)
    (hk : s.onStub H i io x a (s.conn ℓ) = some k) :
    k.Inv H { s.clientEnd H ℓ with isOpen := r.factory.isOpen x } ∧ 0 < k.up.sent.length := by
  obtain ⟨horder, hclient, hopen, hrole⟩ := clientEnd_ofStub (s := s) (H := H) hx
  have hnone : ∀ P : Client → Prop, ∀ c ∈ (s.clientEnd H ℓ).client, P c := by
    rw [hclient]
    exact fun P c hc => absurd hc (Option.not_mem_none _)
  cases hst with
  | idle hidle hopen' =>
    rw [onStub_of_none hidle] at hk
    exact ⟨(h.conn ℓ k hk).close (fun ho => hopen ▸ hopen' ho) (hnone _) (hnone _),
      h.started i x ℓ k hx hk⟩
  | @send p t ht huse hpre hok hplan hopen' =>
    have hall := allowed_of_lookup hu hx ht huse
    rw [onStub_of_some ht huse] at hk
    rw [← horder] at hpre hok
    obtain ⟨k₀, hk₀, rfl⟩ := Option.map_eq_some_iff.1 hk
    have hpos : 0 < (k₀.useClient (H.order i) (some (.send p t))).up.sent.length := by
      change 0 < (k₀.up.sent ++ [p.narrow]).length
      rw [List.length_append]
      exact Nat.succ_pos _
    refine ⟨?_, hpos⟩
    cases hc : (s.node i).scout.connects with
    | true =>
      -- A new connection, which begins with the identity.
      rw [hc] at hk₀ hopen'
      cases hk₀
      have hnew : (s.accept a).Inv H { s.clientEnd H ℓ with isOpen := true } :=
        Conn.inv_new (fun requestType hr => absurd hr (hrole requestType)) (hnone _) (hnone _)
      have hclosed : true = false → t.bytes = [] := fun h => absurd h.symm Bool.false_ne_true
      exact hnew.sendUp hpre hok hclosed ((up_of_plans hx hplan Nat.one_pos).1 hc) hopen'
        (hnone _) (hnone _)
    | false =>
      -- The identity was sent when the connection was made.
      rw [hc] at hk₀ hopen' hall
      rw [Bool.false_or, arrived_eq hk₀, ← isOpen_clientEnd (H := H)] at hall
      have hsent := h.started i x ℓ k₀ hx hk₀
      exact (h.conn ℓ k₀ hk₀).sendUp hpre hok hall ((up_of_plans hx hplan hsent).2 hc)
        (fun ho => by rw [hopen]; exact hopen' ho) (hnone _) (hnone _)
  | @recv t chunks ht huse hc hacc hrecv hopen' hmsg =>
    have hall := allowed_of_lookup hu hx ht huse
    rw [onStub_of_some ht huse, hc, if_neg Bool.false_ne_true] at hk
    obtain ⟨k₀, hk₀, rfl⟩ := Option.map_eq_some_iff.1 hk
    rw [hc, Bool.false_or, arrived_eq hk₀, ← isOpen_clientEnd (H := H)] at hall
    have hinv := h.conn ℓ k₀ hk₀
    refine ⟨?_, h.started i x ℓ k₀ hx hk₀⟩
    rcases Bool.eq_false_or_eq_true t.ok with hok | hok
    · have hrole' : (s.clientEnd H ℓ).role = .acceptor := by
        obtain ⟨b, rfl⟩ := hacc
        cases hx
        rfl
      obtain ⟨ho, m, -, hp, hbytes, hdec⟩ := hinv.nextPaxos hrole' hall hrecv hok
      exact hinv.recvDown hok ho hp hbytes hall (hdec _) (hnone _) (hnone _)
    · have hclosed : r.factory.isOpen x = false := by
        by_contra ho
        rw [Bool.not_eq_false] at ho
        exact Bool.noConfusion (hok.symm.trans (hopen' ho).2)
      rw [hclosed]
      exact hinv.failDown hok (hnone _) (hnone _)

/-- The acceptors send plain messages to the Scout. -/
theorem Inv.isPlain_inbox (h : s.Inv H)
    (hio : scoutIo (H.order i) (s.node i).factory env answers (s.node i).scout = some io)
    (hst : ∀ x, StubStep (H.order i) (s.node i).factory r.factory (s.node i).scout io x)
    (hu : s.ScoutAllowed i io)
    {b : ℤ} {m : PaxosMsg} {rest : List PaxosMsg} (hm : io.inbox b = m :: rest) : m.IsPlain := by
  rcases inbox_of_scoutIo hio with hnone | ⟨hc, a, t, hok, ht, huse⟩
  · rw [hnone b] at hm
    cases hm
  · have hx : Link.ofStub i (.acceptor a) = some (.acceptor i a) := rfl
    have hall := allowed_of_lookup hu hx ht huse
    rw [hc, Bool.false_or] at hall
    cases hst (.acceptor a) with
    | idle hidle =>
      rw [ht, Option.bind_some, huse] at hidle
      cases hidle
    | send ht' huse' =>
      cases ht.symm.trans ht'
      cases huse.symm.trans huse'
    | recv ht' _ _ _ hrecv _ hmsg =>
      cases ht.symm.trans ht'
      have hlen : 0 < t.bytes.length := by
        rw [(Socket.bytes_of_recv hrecv).1 hok]
        decide
      cases hk : s.conn (.acceptor i a) with
      | none =>
        -- Without a connection, nothing arrives.
        have hnil : t.bytes = [] := by
          have hpre := hall.1
          rw [arrived, hk] at hpre
          exact List.prefix_nil.1 hpre
        rw [hnil] at hlen
        exact absurd hlen (lt_irrefl _)
      | some k =>
        rw [arrived_eq hk, ← isOpen_clientEnd (H := H)] at hall
        obtain ⟨-, m', hm', -, -, hdec⟩ := (h.conn _ k hk).nextPaxos rfl hall hrecv hok
        obtain ⟨m₁, rest₁, hrun, hinbox⟩ := hmsg hok
        have hdec' : messageOf (PaxosMsg.unmarshal (H.order i)) {} (some t.bytes) = some m' :=
          messageOf_of_decode (fun _ _ => Message.paxosMsg.inj) (hdec _)
        change ((PaxosMsg.unmarshal (H.order i)).run t.bytes).map Prod.fst = some m' at hdec'
        rw [hrun] at hdec'
        cases hdec'
        rw [hinbox b] at hm
        cases hm
        exact hm'

/-- The ends of the other threads are the same. -/
theorem clientEnd_applyScout (hℓ : ∀ x, Link.ofStub i x ≠ some ℓ) :
    (s.applyScout H i io r).clientEnd H ℓ = s.clientEnd H ℓ := by
  have hnode : ∀ j x, Link.ofStub j x = some ℓ → (s.applyScout H i io r).node j = s.node j := by
    intro j x hx
    exact node_applyScout_of_ne fun hj => hℓ x (hj ▸ hx)
  cases ℓ with
  | customer c n => rfl
  | acceptor j a => rw [clientEnd, clientEnd, isOpen, isOpen, hnode j (.acceptor a) rfl]
  | learner j a => rw [clientEnd, clientEnd, isOpen, isOpen, hnode j (.learner a) rfl]

theorem clientEnd_applyScout_self (hx : Link.ofStub i x = some ℓ) :
    (s.applyScout H i io r).clientEnd H ℓ =
      { s.clientEnd H ℓ with isOpen := r.factory.isOpen x } := by
  cases x with
  | engineer e => cases hx
  | acceptor a =>
    cases hx
    rw [clientEnd, clientEnd, isOpen, node_applyScout_self]
  | learner a =>
    cases hx
    rw [clientEnd, clientEnd, isOpen, node_applyScout_self]

theorem Inv.applyScout (h : s.Inv H)
    (hio : scoutIo (H.order i) (s.node i).factory env answers (s.node i).scout = some io)
    (hr : scoutStep i (s.node i).factory io.inbox (io.env env) (s.node i).scout = some r)
    (hu : s.ScoutAllowed i io) :
    (s.applyScout H i io r).Inv H := by
  have hst := stubStep hio hr (h.scout i)
  have hstep := scoutStep_cases hr
  have hplain : r.pc.IsPlain :=
    hstep.isPlain (h.scout i) fun a m rest hm => h.isPlain_inbox hio hst hu hm
  have hconn : ∀ ℓ k, (s.applyScout H i io r).conn ℓ = some k →
      k.Inv H ((s.applyScout H i io r).clientEnd H ℓ) ∧
        ∀ j x, Link.ofStub j x = some ℓ → 0 < k.up.sent.length := by
    intro ℓ k hk
    rcases conn_applyScout H s i io r ℓ with ⟨x, a, hx, heq⟩ | ⟨hx, heq⟩
    · rw [heq] at hk
      obtain ⟨hinv, hpos⟩ := h.onStub hx (hst x) hu hk
      rw [clientEnd_applyScout_self hx]
      exact ⟨hinv, fun _ _ _ => hpos⟩
    · rw [heq] at hk
      rw [clientEnd_applyScout hx]
      exact ⟨h.conn ℓ k hk, fun j x hx => h.started j x ℓ k hx hk⟩
  refine ⟨fun j => ?_, fun j => ?_, fun j => ?_, fun ℓ k hk => (hconn ℓ k hk).1,
    fun j x ℓ k hx hk => (hconn ℓ k hk).2 j x hx⟩
  · by_cases hj : j = i
    · subst hj
      rw [node_applyScout_self]
      exact hstep.serverConfig.trans (h.config j)
    · rw [node_applyScout_of_ne hj]
      exact h.config j
  · by_cases hj : j = i
    · subst hj
      rw [node_applyScout_self]
      change r.factory.acceptedValue.IsPlain
      rw [hstep.frame.1.value]
      exact h.value j
    · rw [node_applyScout_of_ne hj]
      exact h.value j
  · by_cases hj : j = i
    · subst hj
      rw [node_applyScout_self]
      exact hplain
    · rw [node_applyScout_of_ne hj]
      exact h.scout j

end

/-! ### Runs -/

/-- Nothing is connected initially, and every command is a default one. -/
theorem inv_init (hs : s ∈ (network H).init) : s.Inv H := by
  obtain ⟨client, hclient, rfl⟩ := hs
  refine ⟨fun j => rfl, fun j => ?_, fun j => trivial, fun _ _ hk => absurd hk ?_,
    fun _ _ _ _ _ hk => absurd hk ?_⟩
  · obtain ⟨m, config, hf, -⟩ := H.factory_eq j
    change (H.factory j).acceptedValue.IsPlain
    rw [hf]
    exact rfl
  · exact Option.some_ne_none _ ∘ Eq.symm
  · exact Option.some_ne_none _ ∘ Eq.symm

theorem Inv.step {act : NetAction} {s' : Net} (h : s.Inv H) (hben : s.Benign H act)
    (hst : s.step H act = some s') : s'.Inv H := by
  cases netStep_cases hst with
  | engineer hk hr hu => exact h.engineer hk hr hu (hben _ hk)
  | scout hi hio hr hu => exact h.applyScout hio hr hu
  | client hr hu hj => exact h.client hr hu hj hben

theorem inv_of_reachBy (hs : (network H).ReachBy (Benign H) s) : s.Inv H :=
  hs.invariant (fun _ => inv_init) fun _ _ _ _ h hben hst => h.step hben hst

/-! ### Framing -/

theorem framed_of_inv (h : s.Inv H) : s.Framed := by
  intro ℓ k hk
  have hinv := h.conn ℓ k hk
  refine ⟨hinv.up.ordered, hinv.down.ordered, fun m hm o => hinv.length_paxosMsg hm o,
    fun size hw p hp o => hinv.engineerAsks hw hp o, fun size ha p hp o => ?_⟩
  split_ifs at ha with hopen
  cases ℓ with
  | customer c n =>
    rw [asks] at ha
    split_ifs at ha with hn
    exact hinv.clientAsks (if_pos hn) hopen ha hp o
  | acceptor i a => exact hinv.scoutAsks rfl ha hp o
  | learner i a => cases ha

/-- If every step is benign, all connections are framed. -/
theorem framed (hs : (network H).ReachBy (Benign H) s) : s.Framed :=
  framed_of_inv (inv_of_reachBy hs)

namespace OneOrder

/-- One server, and hosts of one order. -/
def hosts : Hosts where
  toDeployment := .numbered 1
  order _ := .little
  customer _ := .little
  fits := by decide

def init : Net where
  node i := { factory := hosts.factory i }
  client _ := { server := ⟨"127.0.0.1", 8001⟩, customerId := 7, numOrders := 1, requestType := 1 }

theorem init_mem : init ∈ (network hosts).init := ⟨_, fun _ => rfl, rfl⟩

def takes (p : Parcel) : Answers := { recv := [p.marshal .little] }

def gives (n : ℕ) : Answers := { send := [n] }

def customer (answers : Answers) : NetAction := .engineer (.customer 0 1) answers

def acceptor (answers : Answers) : NetAction := .engineer (.acceptor 1 1) answers

def learner (answers : Answers) : NetAction := .engineer (.learner 1 1) answers

def scout (answers : Answers) : NetAction := .scout 1 {} fun _ => answers

def client (answers : Answers) : NetAction := .client 0 { answers := answers } 1

def cmd : Command := { slot := 1, commandId := 110000000, customerId := 7, orderId := 0 }

/-- An order, from the client through the Scout, the acceptor and the learner and
    back to the client. -/
def run : List NetAction :=
  [client {}, client (gives 4), customer (takes (.word 0)),
    customer (gives 4), client (takes (.word 25)),
    customer (gives 25), client (takes (.message (.serverConfig (hosts.config 1)))),
    client (gives 12), customer (takes (.message (.customerRequest ⟨7, 0, 1⟩))),
    scout {}, scout (gives 4), acceptor (takes (.word 2)),
    scout (gives 51), acceptor (takes (.message (.paxosMsg (.p1a 0)))),
    acceptor (gives 51), scout (takes (.message (.paxosMsg { phase := 2, agree := 1 }))),
    scout {}, scout {}, scout {},
    scout (gives 51), acceptor (takes (.message (.paxosMsg (.p2a 0 cmd)))),
    acceptor (gives 51), scout (takes (.message (.paxosMsg { phase := 4, agree := 1 }))),
    scout {}, scout (gives 4), learner (takes (.word 3)),
    scout (gives 51), learner (takes (.message (.paxosMsg (.learn cmd)))),
    scout {}, scout {}, customer {},
    customer (gives 20), client (takes (.message (.laptopInfo ⟨7, 0, 1, 0, 1⟩)))]

/-- How many messages have been decoded on the connection. -/
def decodes (s : Net) (ℓ : Link) : Option (ℕ × ℕ) :=
  (s.conn ℓ).map fun k => (k.up.decoded.length, k.down.decoded.length)

end OneOrder

theorem framed_one_order : ∃ s : Net, s.Framed ∧
    OneOrder.decodes s (.customer 0 1) = some (2, 3) ∧
    OneOrder.decodes s (.acceptor 1 1) = some (3, 2) ∧
    OneOrder.decodes s (.learner 1 1) = some (2, 0) := by
  have hinit : (network OneOrder.hosts).ReachBy (Benign OneOrder.hosts) OneOrder.init :=
    .init OneOrder.init_mem
  obtain ⟨s, hs, hdec⟩ := hinit.exists_of_runBy
    (P := fun s => OneOrder.decodes s (.customer 0 1) = some (2, 3) ∧
      OneOrder.decodes s (.acceptor 1 1) = some (3, 2) ∧
      OneOrder.decodes s (.learner 1 1) = some (2, 0)) OneOrder.run (by decide +kernel)
  exact ⟨s, framed hs, hdec⟩

/-- The connection breaks before the client has received the size, and the memory
    for the size holds a zero. The client then takes a configuration out of no bytes
    at all. -/
theorem not_framed : ¬∀ H s, (network H).Reachable s → s.Framed := by
  intro h
  have hinit : (network OneOrder.hosts).Reachable OneOrder.init := .init OneOrder.init_mem
  obtain ⟨s, hs, hdec⟩ := hinit.exists_of_runBy
    (P := fun s => ∃ k ∈ s.conn (.customer 0 1), k.down.sent = [] ∧ k.down.decoded = [none])
    [OneOrder.client {}, OneOrder.client (OneOrder.gives 4), OneOrder.client { recv := [[]] },
      OneOrder.client {}] (by decide +kernel)
  obtain ⟨k, hk, hsent, hdecoded⟩ := hdec
  have hdown := (h _ s hs _ k hk).down
  rw [hsent, hdecoded] at hdown
  exact List.cons_ne_nil _ _ (List.prefix_nil.1 hdown)

end Net

end LaptopPaxos
