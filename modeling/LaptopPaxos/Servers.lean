import LaptopPaxos.ClientRuns
import LaptopPaxos.Framing

/-!
# The servers among any clients

What the servers can rely on in every run of the network, also when a client has taken
its configuration out of the wrong bytes (`framed` excludes that). The connections
between the servers do not depend on the clients: `Net.servers` leaves the clients'
connections out, and the invariant of the framed runs holds of it in all runs. On a
connection of a client only the direction to the server is framed (`Conn.Called`): the
client may read anything, but what it sends are its identity and its requests.

* `Net.Regular`: what holds in every run, and `Regular.step`;
* `Net.engineers_framed`: no engineer ever reads across the boundary of a message or
  leaves the role of its connection.
-/

namespace LaptopPaxos

open LaptopFactory

/-! ### Calls of a client -/

/-- What a client sends at the position `n`. -/
def Client.Up (c : Client) : ℕ → Parcel → Prop
  | 0, p => p = .word 0
  | _ + 1, p => ∃ q, c.Makes q ∧ p = .message (.customerRequest q.narrow)

/-- How much a client has sent at its control point. -/
def ClientPc.Sent (n : ℕ) : ClientPc → Prop
  | .identify _ => n = 0
  | .header _ | .config _ _ | .request _ | .answer _ => 0 < n
  | _ => True

/-- A connection of a client, as far as the server can rely on it. -/
structure Conn.Called (H : Hosts) (o : ByteOrder) (isOpen : Bool) (c : Client) (k : Conn) : Prop where
  host : k.server ∈ H.ids
  up : k.up.Sound (Parcel.marshal o) isOpen k.engineer.isInitialized
  plan : k.up.Follows c.Up
  engineer : (Role.customer c.requestType).At k.up.decoded.length k.down.sent.length k.engineer.pc

section

variable {H : Hosts} {o : ByteOrder} {isOpen isOpen' : Bool} {c c' : Client} {k : Conn} {n d : ℕ}
  {p : Parcel} {pc : SessionPc} {e : ℤ} {f : LaptopFactory} {fut : Option LaptopInfo}
  {answers : Answers} {r : EngineerEffect} {t : Transfer}

theorem Client.SameArgs.up (h : c.SameArgs c') : c'.Up = c.Up := by
  funext n p
  cases n with
  | zero => rfl
  | succ n =>
    rw [Client.Up, Client.Up]
    exact propext (exists_congr fun q => and_congr_left fun _ => h.makes)

/-- What a client sends is what its role has. -/
theorem Client.Up.role (h : c.Up n p) : (Role.customer c.requestType).Up n p := by
  cases n with
  | zero => exact h
  | succ n =>
    obtain ⟨q, ⟨i, -, -, rfl⟩, rfl⟩ := h
    exact ⟨_, rfl, c.requestType_customerRequest i⟩

theorem Conn.Called.upRole (h : k.Called H o isOpen c) :
    k.up.Follows (Role.customer c.requestType).Up :=
  fun n p hp => (h.plan n p hp).role

/-- After a `Send` an engineer is where the session is, also when the configuration is
    too long for an `int`. -/
theorem Role.At.sent {role : Role} (hat : role.At d n pc) (hp : pc.parcel f = some p) :
    role.At d (n + 1) pc.sent := by
  cases role <;> cases pc <;> cases hp <;> try exact hat.elim
  case customer.configSize =>
    obtain ⟨hd, rfl⟩ := hat
    exact ⟨hd, rfl⟩
  case customer.config =>
    obtain ⟨hd, rfl⟩ := hat
    exact ⟨hd, le_rfl⟩
  case customer.laptop =>
    obtain ⟨hd, hn, -⟩ := hat
    exact ⟨hd, by omega⟩
  case customer.record =>
    obtain ⟨hd, hn, -⟩ := hat
    exact ⟨hd, by omega⟩
  case acceptor.reply => exact hat.1

/-- What an engineer decodes is the next parcel, whatever it has sent itself. -/
theorem nextUp_of_sound {role : Role} {kd : Parcel.Kind} {size : ℕ} {chunks : List (List UInt8)}
    {up : Pipe Parcel UInt8} {isInitialized : Bool}
    (hup : up.Sound (Parcel.marshal o) isOpen isInitialized) (hplan : up.Follows role.Up)
    (hat : role.At up.decoded.length n pc) (hk : pc.kind = some kd)
    (hwants : pc.wants = some size)
    (hall : (Use.recv kd t).Allowed isInitialized up.flight)
    (hrecv : Socket.recv chunks (intOfSize size) = some t) (hok : t.ok = true) :
    isInitialized = true ∧ ∃ p, up.pending.head? = some p ∧
      t.bytes = p.marshal o ∧ p.kind = kd ∧ ∀ o', Parcel.decode o' kd t.bytes = some p := by
  have hexp : ∀ p, up.pending.head? = some p → p.kind = kd ∧ p.size = size ∧
      p.size < 2147483648 := by
    intro p hp
    have hup := hplan.head hp
    obtain ⟨hkd, hw⟩ := hup.expected hat hk
    rw [hwants] at hw
    exact ⟨hkd, (Option.some.inj hw).symm, hup.fits.2.2⟩
  obtain ⟨hint, hpos⟩ := intOfSize_wants hwants
  rw [hint] at hrecv
  obtain ⟨hopen, p, hp, hbytes⟩ := next_of_recv hup hrecv hok hpos hall fun p hp => (hexp p hp).2
  obtain ⟨hfits, hport, -⟩ := (hplan.head hp).fits
  obtain rfl : p.kind = kd := (hexp p hp).1
  refine ⟨hopen, p, hp, hbytes, rfl, fun o' => ?_⟩
  rw [hbytes]
  exact Parcel.decode_marshal hfits (hport _ _)

theorem Conn.Called.mono (h : k.Called H o isOpen c) (hs : c.SameArgs c')
    (hopen : isOpen' = true → isOpen = true) : k.Called H o isOpen' c' := by
  refine ⟨h.host, h.up.mono hopen fun hr => hr, ?_, ?_⟩
  · rw [hs.up]
    exact h.plan
  · rw [hs.requestType]
    exact h.engineer

/-- A step of the engineer. -/
theorem Conn.Called.engineerStep (h : k.Called H o isOpen c)
    (hst : EngineerStep (H.order k.server) e f fut answers k.engineer r)
    (hf : f.acceptedValue.IsPlain)
    (hu : ∀ u ∈ k.engineer.pc.use f r.transfer,
      u.Allowed k.engineer.isInitialized k.up.flight) :
    Conn.Called H o isOpen c { k.useEngineer (H.order k.server) (k.engineer.pc.use f r.transfer) with
      engineer := r.engineer } ∧ r.factory.acceptedValue.IsPlain := by
  have hat := h.engineer
  cases hst with
  | @send buffer size t hout ht =>
    rw [SessionPc.outgoing_eq] at hout
    obtain ⟨p, hp, -⟩ := Option.map_eq_some_iff.1 hout
    rw [SessionPc.use_of_parcel hp]
    refine ⟨⟨h.host, h.up.mono (fun hs => hs) fun hr => (Bool.and_eq_true _ _ ▸ hr).1, h.plan, ?_⟩,
      hf⟩
    change Role.At _ (k.down.sent ++ [p.narrow]).length _ _
    rw [List.length_append]
    exact hat.sent hp
  | @recv size t hwants ht =>
    obtain ⟨kd, hk⟩ := Option.isSome_iff_exists.1
      ((SessionPc.isSome_kind _).2 (Option.isSome_of_eq_some hwants))
    rw [SessionPc.use_of_kind hk] at hu ⊢
    rcases Bool.eq_false_or_eq_true t.ok with hok | hok
    · obtain ⟨hopen, p, hp, hbytes, hkd, hdec⟩ :=
        nextUp_of_sound h.up h.upRole hat hk hwants (hu _ rfl) ht hok
      obtain ⟨hat', hval⟩ := (h.upRole.head hp).received (e := e) (o := H.order k.server) hat
        (hkd ▸ hk) (hkd ▸ hdec _) hf
      have hpull : (Use.recv kd t).into (H.order k.server) k.up =
          k.up.pull t.bytes.length (some (some p)) := Use.into_ok hok (hdec _)
      have hup := h.up
      rw [hopen] at hup
      rw [if_pos hok, Conn.useEngineer, hpull]
      refine ⟨⟨h.host, ?_, h.plan.pull _ _, ?_⟩, hval⟩
      · rw [hbytes]
        exact hup.pull hp (hbytes ▸ (hu _ rfl).1)
      · rw [Pipe.decoded_pull, List.length_append]
        exact hat'
    · have hpull : (Use.recv kd t).into (H.order k.server) k.up = k.up.pull t.bytes.length none :=
        Use.into_fail hok
      rw [hok, if_neg Bool.false_ne_true, Bool.and_false, received_none (by rw [hwants]; exact Option.some_ne_none _),
        Conn.useEngineer, hpull]
      exact ⟨⟨h.host, h.up.fail _, h.plan.pull _ _, Role.at_leave _⟩, hf⟩
  | @wake laptop hpc hfut =>
    rw [hpc] at hat ⊢
    exact ⟨⟨h.host, h.up, h.plan, hat.laptop laptop⟩, hf⟩
  | leave hpc =>
    rw [hpc]
    exact ⟨⟨h.host, h.up.mono (fun hs => hs) fun hr => Bool.noConfusion hr, h.plan,
      Role.at_gone _⟩, hf⟩

theorem Conn.called_new {j : ℤ} (hj : j ∈ H.ids) :
    Conn.Called H o isOpen c { server := j, id := e } :=
  ⟨hj, .new, .new, rfl, rfl⟩

/-- The client receives something on the connection, or does nothing there. -/
theorem Conn.Called.down (h : k.Called H o isOpen c) (hs : c.SameArgs c')
    (hopen : isOpen' = true → isOpen = true) (n : ℕ) (result : Option (Option Parcel)) :
    Conn.Called H o isOpen' c' { k with down := k.down.pull n result } := by
  obtain ⟨hhost, hup, hplan, hat⟩ := h.mono hs hopen
  exact ⟨hhost, hup, hplan, hat⟩

/-- The client sends what comes next. -/
theorem Conn.Called.send (h : k.Called H o isOpen c) (hs : c.SameArgs c')
    (hsize : p.size < 2147483648) {answers : List ℤ}
    (ht : Socket.send answers (p.marshal o) (intOfSize p.size) = some t)
    (hu : (Use.send p t).Allowed isOpen k.down.flight) (hup : c.Up k.up.sent.length p.narrow) :
    Conn.Called H o (isOpen && t.ok) c' (k.useClient o (some (.send p t))) := by
  obtain ⟨hpre, hok⟩ := Parcel.bytes_of_send hsize ht
  rw [← Parcel.marshal_narrow] at hpre hok
  refine ⟨h.host, h.up.push hpre hok hu, ?_, ?_⟩
  · rw [hs.up]
    exact h.plan.push hup
  · rw [hs.requestType]
    exact h.engineer

theorem Client.sent_head (hn : 0 < n) (i : ℤ) : (c.head i).Sent n := by
  rcases c.head_cases i with h | h <;> rw [h]
  · exact hn
  · trivial

theorem Client.Answered.sent {i : ℤ} {pc : ClientPc} (h : c.Answered i pc) (hn : 0 < n) :
    pc.Sent n := by
  cases h with
  | next => exact Client.sent_head hn _
  | _ => trivial

/-- Without a new connection a client only closes its end. -/
theorem ClientStep.isInitialized {env : ClientEnv} {r : ClientEffect} (hst : ClientStep o env c r)
    (hconn : r.connected = none) (ho : r.client.isInitialized = true) : c.isInitialized = true := by
  cases hst with
  | init => rw [Client.reconnect_of_fails hconn] at ho; cases ho
  | retry => rw [Client.reconnect_of_fails hconn] at ho; cases ho
  | lost => exact ho
  | @config i size t =>
    rw [Client.receiveServerConfig] at ho
    split at ho <;> exact (Bool.and_eq_true _ _ ▸ ho).1
  | _ => exact (Bool.and_eq_true _ _ ▸ ho).1

/-- A step of the client that makes no new connection. -/
theorem Conn.Called.clientStep {env : ClientEnv} {r : ClientEffect}
    (h : k.Called H o c.isInitialized c) (hst : ClientStep o env c r) (hconn : r.connected = none)
    (hcount : c.Counting) (hsent : c.pc.Sent k.up.sent.length)
    (hu : ∀ u ∈ c.use r.transfer, u.Allowed c.isInitialized k.down.flight) :
    Conn.Called H o r.client.isInitialized r.client (k.useClient o (c.use r.transfer)) ∧
      r.client.pc.Sent (k.useClient o (c.use r.transfer)).up.sent.length := by
  have hs := hst.sameArgs
  have hopen := hst.isInitialized hconn
  have hpush : ∀ p, 0 < (k.up.sent ++ [p]).length := fun p => by
    rw [List.length_append]
    exact Nat.succ_pos _
  rw [Client.use] at hu ⊢
  cases hst with
  | @identify i t hpc ht =>
    rw [hpc] at hsent hu ⊢
    have hn : k.up.sent.length = 0 := hsent
    refine ⟨h.send hs (p := .word 0) (by decide) ht (hu _ rfl) ?_, hpush _⟩
    rw [hn]
    rfl
  | @header i t hpc ht =>
    rw [hpc] at hsent ⊢
    exact ⟨h.down hs hopen _ _, hsent⟩
  | @config i size t hpc ht =>
    rw [hpc] at hsent ⊢
    refine ⟨h.down hs hopen _ _, ?_⟩
    obtain ⟨config, b, heq | heq⟩ := c.receiveServerConfig_cases o i size t <;> rw [heq]
    · exact Client.sent_head hsent i
    · trivial
  | @request i t hpc ht =>
    have hi : c.pc.index = some (i, true) := by rw [hpc]; rfl
    have hmakes : c.Makes (c.customerRequest i) :=
      ⟨i, hcount.nonneg i true hi, hcount.turn i hi, rfl⟩
    rw [hpc] at hsent hu ⊢
    obtain ⟨n, hn⟩ := Nat.exists_eq_add_one.2 hsent
    refine ⟨h.send hs (p := .message (.customerRequest (c.customerRequest i)))
      (by change 12 < _; decide) ht (hu _ rfl) (hn ▸ ⟨_, hmakes, rfl⟩), ?_⟩
    rcases Bool.eq_false_or_eq_true t.ok with hok | hok <;> rw [hok]
    · exact hpush _
    · exact (c.answered_spec o i none).sent (hpush _)
  | @answer i t hpc ht =>
    rw [hpc] at hsent ⊢
    exact ⟨h.down hs hopen _ _, (c.answered_spec o i _).sent hsent⟩
  | init hpc =>
    rw [hpc]
    refine ⟨h.mono hs hopen, ?_⟩
    rw [Client.reconnect_of_fails hconn]
    trivial
  | lost hpc =>
    rw [hpc]
    exact ⟨h.mono hs hopen, trivial⟩
  | retry hpc =>
    rw [hpc]
    refine ⟨h.mono hs hopen, ?_⟩
    rw [Client.reconnect_of_fails hconn]
    trivial

end

/-! ### The invariant -/

/-- The network without the connections of the clients. -/
def Net.servers (s : Net) : Net :=
  { s with conn := fun ℓ => match ℓ with
      | .customer _ _ => none
      | .acceptor i a => s.conn (.acceptor i a)
      | .learner i a => s.conn (.learner i a) }

/-- The `n`-th connection of the client `c`. -/
structure Net.Line (H : Hosts) (s : Net) (c : ℤ) (n : ℕ) (k : Conn) : Prop where
  called : k.Called H (H.customer c) (s.isOpen (.customer c n)) (s.client c)
  le_made : n ≤ s.made c
  sent : n = s.made c → (s.client c).pc.Sent k.up.sent.length

/-- What holds in every run. -/
structure Net.Regular (H : Hosts) (s : Net) : Prop where
  servers : s.servers.Inv H
  line : ∀ c n k, s.conn (.customer c n) = some k → s.Line H c n k
  counting : ∀ c, (s.client c).Counting

namespace Net

section

variable {H : Hosts} {s s' : Net} {ℓ : Link} {i c j : ℤ} {x : SocketId} {k : Conn}
  {answers : Answers} {r : EngineerEffect}

theorem conn_servers_of_stub (hx : Link.ofStub i x = some ℓ) : s.servers.conn ℓ = s.conn ℓ := by
  cases x <;> cases hx <;> rfl

theorem conn_servers_eq_some (h : s.servers.conn ℓ = some k) :
    s.conn ℓ = some k ∧ ∃ i x, Link.ofStub i x = some ℓ := by
  cases ℓ with
  | customer c n => cases h
  | acceptor i a => exact ⟨h, i, .acceptor a, rfl⟩
  | learner i a => exact ⟨h, i, .learner a, rfl⟩

/-- The invariant of the framed runs says the same of fewer connections. -/
theorem Inv.servers (h : s.Inv H) : s.servers.Inv H := by
  refine ⟨h.config, h.value, h.scout, fun ℓ k hk => ?_, fun i x ℓ k hx hk => ?_⟩
  · obtain ⟨hk', i, x, hx⟩ := conn_servers_eq_some hk
    cases x <;> cases hx <;> exact h.conn _ k hk'
  · exact h.started i x ℓ k hx (conn_servers_eq_some hk).1

/-- The connections between the servers depend on nothing else. -/
theorem Inv.servers_congr (h : s.servers.Inv H)
    (hconfig : ∀ j, (s'.node j).factory.serverConfig = (s.node j).factory.serverConfig)
    (hvalue : ∀ j, (s'.node j).factory.acceptedValue.IsPlain)
    (hscout : ∀ j, (s'.node j).scout = (s.node j).scout)
    (hopen : ∀ j x, (s'.node j).factory.isOpen x = (s.node j).factory.isOpen x)
    (hconn : ∀ i x ℓ, Link.ofStub i x = some ℓ → s'.conn ℓ = s.conn ℓ) : s'.servers.Inv H := by
  refine ⟨fun j => (hconfig j).trans (h.config j), hvalue, fun j => ?_, fun ℓ k hk => ?_,
    fun i x ℓ k hx hk => ?_⟩
  · change (s'.node j).scout.IsPlain
    rw [hscout]
    exact h.scout j
  · obtain ⟨hk', i, x, hx⟩ := conn_servers_eq_some hk
    rw [hconn i x ℓ hx, ← conn_servers_of_stub hx] at hk'
    have hE : s'.servers.clientEnd H ℓ = s.servers.clientEnd H ℓ := by
      have ho : (s'.servers.node i).factory.isOpen x = (s.servers.node i).factory.isOpen x :=
        hopen i x
      cases x <;> cases hx
      · rw [clientEnd, clientEnd, isOpen, isOpen, ho]
      · rw [clientEnd, clientEnd, isOpen, isOpen, ho]
    rw [hE]
    exact h.conn ℓ k hk'
  · rw [conn_servers_of_stub hx, hconn i x ℓ hx, ← conn_servers_of_stub hx] at hk
    exact h.started i x ℓ k hx hk

theorem servers_applyEngineer (hx : Link.ofStub i x = some ℓ) :
    (s.applyEngineer H ℓ k r).servers = s.servers.applyEngineer H ℓ k r := by
  have hconn : (s.applyEngineer H ℓ k r).servers.conn = (s.servers.applyEngineer H ℓ k r).conn := by
    funext ℓ'
    by_cases hℓ : ℓ' = ℓ
    · subst hℓ
      rw [conn_servers_of_stub hx]
      exact conn_applyEngineer_self.trans (conn_applyEngineer_self (s := s.servers)).symm
    · rw [conn_applyEngineer_of_ne hℓ]
      cases ℓ' with
      | customer c n => rfl
      | acceptor i' a => exact conn_applyEngineer_of_ne hℓ
      | learner i' a => exact conn_applyEngineer_of_ne hℓ
  exact congrArg (fun conn => { s.applyEngineer H ℓ k r with conn := conn }) hconn

theorem servers_applyScout {io : ScoutIo} {r : Effect} :
    (s.applyScout H i io r).servers = s.servers.applyScout H i io r := by
  refine congrArg (fun conn => { s.applyScout H i io r with conn := conn }) ?_
  funext ℓ
  cases ℓ <;> rfl

theorem ScoutAllowed.servers {io : ScoutIo} (h : s.ScoutAllowed i io) :
    s.servers.ScoutAllowed i io := by
  intro p hp u hu ℓ hℓ
  have hall := h p hp u hu ℓ hℓ
  obtain ⟨x, t⟩ := p
  cases x <;> cases hℓ <;> exact hall

/-- On a connection between servers, no engineer is about to send a configuration. -/
theorem Regular.not_configSize (h : s.Regular H) (hx : Link.ofStub i x = some ℓ)
    (hk : s.conn ℓ = some k) : k.engineer.pc ≠ .configSize := by
  intro hpc
  have hat := (h.servers.conn ℓ k ((conn_servers_of_stub hx).trans hk)).engineer
  rw [hpc] at hat
  cases x <;> cases hx <;> exact hat

theorem Regular.engineer (h : s.Regular H) (hk : s.conn ℓ = some k)
    (hst : EngineerStep (H.order k.server) k.id (s.node k.server).factory
      ((s.node k.server).fut k.id) answers k.engineer r)
    (hu : ∀ u ∈ k.engineer.pc.use (s.node k.server).factory r.transfer,
      u.Allowed k.engineer.isInitialized k.up.flight) : (s.applyEngineer H ℓ k r).Regular H := by
  have hf := factory_applyEngineer (ℓ := ℓ) hst
  refine ⟨?_, fun c n k' hk' => ?_, h.counting⟩
  · by_cases hstub : ∃ i x, Link.ofStub i x = some ℓ
    · obtain ⟨i, x, hx⟩ := hstub
      rw [servers_applyEngineer hx]
      exact h.servers.engineer ((conn_servers_of_stub hx).trans hk) hst hu
        fun hpc => absurd hpc (h.not_configSize hx hk)
    · refine h.servers.servers_congr (fun j => (hf j).2.1) (fun j => ?_) (fun j => (hf j).2.2)
        (fun j x => (hf j).1.isOpen x) fun i x ℓ' hx => ?_
      · by_cases hj : j = k.server
        · subst hj
          rw [node_applyEngineer_self]
          cases ℓ with
          | customer c n => exact ((h.line c n k hk).called.engineerStep hst (h.servers.value _) hu).2
          | acceptor i a => exact absurd ⟨i, .acceptor a, rfl⟩ hstub
          | learner i a => exact absurd ⟨i, .learner a, rfl⟩ hstub
        · rw [node_applyEngineer_of_ne hj]
          exact h.servers.value j
      · exact conn_applyEngineer_of_ne fun heq => hstub ⟨i, x, heq ▸ hx⟩
  · by_cases hℓ : Link.customer c n = ℓ
    · subst hℓ
      rw [conn_applyEngineer_self] at hk'
      cases hk'
      obtain ⟨hcalled, hle, hsent⟩ := h.line c n k hk
      refine ⟨(hcalled.engineerStep hst (h.servers.value k.server) hu).1, hle, fun hn => ?_⟩
      change (s.client c).pc.Sent _
      rw [Conn.sent_useEngineer]
      exact hsent hn
    · rw [conn_applyEngineer_of_ne hℓ] at hk'
      obtain ⟨hcalled, hle, hsent⟩ := h.line c n k' hk'
      exact ⟨hcalled, hle, hsent⟩

/-! Clients -/

theorem made_applyClient {r : ClientEffect} (hconn : r.connected = none) :
    (s.applyClient H c j r).made = s.made ∧ (s.applyClient H c j r).conn =
      Function.update s.conn (s.link c)
        ((s.conn (s.link c)).map fun k =>
          k.useClient (H.customer c) ((s.client c).use r.transfer)) := by
  rw [applyClient, hconn]
  exact ⟨rfl, rfl⟩

/-- A new connection leaves the others alone. -/
theorem made_applyClient_of_some {env : ClientEnv} {r : ClientEffect} {server : ServerInfo}
    (hst : ClientStep (H.customer c) env (s.client c) r) (hconn : r.connected = some server) :
    (s.applyClient H c j r).made = Function.update s.made c (s.made c + 1) ∧
      (s.applyClient H c j r).conn =
        Function.update s.conn (.customer c (s.made c + 1)) (some (s.accept j)) := by
  obtain ⟨huse, -⟩ := connected_of_clientStep hst hconn
  have hsame : (s.conn (s.link c)).map (fun k => k.useClient (H.customer c) none) =
      s.conn (s.link c) := Option.map_id'
  rw [applyClient, hconn, huse]
  refine ⟨rfl, ?_⟩
  change Function.update (Function.update s.conn (s.link c) _) _ _ = _
  rw [hsame, Function.update_eq_self]

/-- The connections of the client that takes the step. -/
theorem Regular.line_client {env : ClientEnv} {r : ClientEffect} (h : s.Regular H)
    (hst : ClientStep (H.customer c) env (s.client c) r)
    (hu : ∀ u ∈ (s.client c).use r.transfer, u.Allowed (s.isOpen (s.link c)) (s.arrived (s.link c)))
    (hj : r.connected.isSome → j ∈ H.ids) {n : ℕ}
    (hk : (s.applyClient H c j r).conn (.customer c n) = some k) :
    (s.applyClient H c j r).Line H c n k := by
  have hs := hst.sameArgs
  have hopen : ∀ m, (s.applyClient H c j r).made c = m →
      (s.applyClient H c j r).isOpen (.customer c n) = (n = m && r.client.isInitialized) := by
    rintro m rfl
    rw [isOpen, client_applyClient, Function.update_self]
  -- a connection before the last one, in the new state
  have hold : ∀ {m : ℕ}, n ≠ m → (s.applyClient H c j r).made c = m → n ≤ m →
      s.conn (.customer c n) = some k → (s.applyClient H c j r).Line H c n k := by
    rintro _ hne rfl hle hk
    refine ⟨?_, hle, fun hn => absurd hn hne⟩
    rw [client_applyClient, Function.update_self, hopen _ rfl, decide_eq_false hne,
      Bool.false_and]
    exact (h.line c n k hk).called.mono hs fun ho => Bool.noConfusion ho
  cases hconn : r.connected with
  | none =>
    obtain ⟨hmade, hconns⟩ := made_applyClient (H := H) (s := s) (c := c) (j := j) hconn
    rw [hconns] at hk
    by_cases hn : n = s.made c
    · subst hn
      rw [link, Function.update_self] at hk
      obtain ⟨k₀, hk₀, rfl⟩ := Option.map_eq_some_iff.1 hk
      obtain ⟨hcalled, hle, hsent⟩ := h.line c _ k₀ hk₀
      have hE : s.isOpen (.customer c (s.made c)) = (s.client c).isInitialized := by
        rw [isOpen, decide_eq_true rfl, Bool.true_and]
      rw [link, arrived_eq hk₀, hE] at hu
      rw [hE] at hcalled
      obtain ⟨hcalled', hsent'⟩ :=
        hcalled.clientStep hst hconn (h.counting c) (hsent rfl) hu
      refine ⟨?_, by rw [hmade], fun _ => ?_⟩
      · rw [hopen _ (congrFun hmade c), decide_eq_true rfl, Bool.true_and, client_applyClient,
          Function.update_self]
        exact hcalled'
      · rw [client_applyClient, Function.update_self]
        exact hsent'
    · rw [link, Function.update_of_ne fun heq => hn (Link.customer.inj heq).2] at hk
      exact hold hn (congrFun hmade c) (h.line c n k hk).le_made hk
  | some server =>
    obtain ⟨hmade, hconns⟩ := made_applyClient_of_some (j := j) hst hconn
    have hmade' : (s.applyClient H c j r).made c = s.made c + 1 := by
      rw [hmade, Function.update_self]
    rw [hconns] at hk
    by_cases hn : n = s.made c + 1
    · subst hn
      rw [Function.update_self] at hk
      cases hk
      obtain ⟨-, i, hpc⟩ := connected_of_clientStep hst hconn
      refine ⟨Conn.called_new (hj (Option.isSome_of_eq_some hconn)), hmade'.ge, fun _ => ?_⟩
      rw [client_applyClient, Function.update_self, hpc]
      rfl
    · rw [Function.update_of_ne fun heq => hn (Link.customer.inj heq).2] at hk
      have hle := (h.line c n k hk).le_made
      exact hold hn hmade' (by omega) hk

theorem Regular.client {env : ClientEnv} {r : ClientEffect} (h : s.Regular H)
    (hst : ClientStep (H.customer c) env (s.client c) r)
    (hu : ∀ u ∈ (s.client c).use r.transfer, u.Allowed (s.isOpen (s.link c)) (s.arrived (s.link c)))
    (hj : r.connected.isSome → j ∈ H.ids) : (s.applyClient H c j r).Regular H := by
  refine ⟨?_, fun c' n k hk => ?_, fun c' => ?_⟩
  · refine h.servers.servers_congr ?_ ?_ ?_ ?_ fun i x ℓ hx =>
      conn_applyClient fun n hn => Link.ofStub_ne_customer (hx.trans (congrArg some hn))
    · exact fun j' => by rw [node_applyClient]
    · exact fun j' => by rw [node_applyClient]; exact h.servers.value j'
    · exact fun j' => by rw [node_applyClient]
    · exact fun j' x => by rw [node_applyClient]
  · by_cases hc : c' = c
    · subst hc
      exact h.line_client hst hu hj hk
    · have hmade : (s.applyClient H c j r).made c' = s.made c' := by
        cases hconn : r.connected with
        | none => rw [(made_applyClient hconn).1]
        | some server => rw [(made_applyClient_of_some hst hconn).1, Function.update_of_ne hc]
      have hclient : (s.applyClient H c j r).client c' = s.client c' := by
        rw [client_applyClient, Function.update_of_ne hc]
      rw [conn_applyClient fun n' hn => hc (Link.customer.inj hn).1] at hk
      obtain ⟨hcalled, hle, hsent⟩ := h.line c' n k hk
      refine ⟨?_, hmade ▸ hle, ?_⟩
      · rw [hclient, isOpen, hmade, hclient]
        exact hcalled
      · rw [hclient, hmade]
        exact hsent
  · rw [client_applyClient]
    by_cases hc : c' = c
    · subst hc
      rw [Function.update_self]
      exact (h.counting c').step hst.sameArgs hst.moves
    · rw [Function.update_of_ne hc]
      exact h.counting c'

theorem Regular.step {act : NetAction} (h : s.Regular H) (hst : s.step H act = some s') :
    s'.Regular H := by
  cases netStep_cases hst with
  | engineer hk hr hu => exact h.engineer hk hr hu
  | client hr hu hj => exact h.client hr hu hj
  | @scout i env answers io r hi hio hr hu =>
    have hall : s.ScoutAllowed i io := hu
    refine ⟨?_, fun c n k hk => ?_, h.counting⟩
    · rw [servers_applyScout]
      exact h.servers.applyScout hio hr hall.servers
    · obtain ⟨hcalled, hle, hsent⟩ := h.line c n k hk
      exact ⟨hcalled, hle, hsent⟩

theorem regular_of_reachable (hs : (network H).Reachable s) : s.Regular H := by
  refine hs.invariant (fun s hs => ?_) fun _ _ _ _ h _ hst => h.step hst
  refine ⟨(inv_init hs).servers, fun c n k hk => ?_, fun c => ?_⟩
  · obtain ⟨client, -, rfl⟩ := hs
    cases hk
  · obtain ⟨client, hclient, rfl⟩ := hs
    exact Client.counting_init (hclient c)

end

end Net

/-! ### The engineers -/

/-- The engineer of the connection decodes what was sent to it, asks for as many bytes
    as the next message has, and is where a session of this role is. -/
structure Conn.Attended (role : Role) (k : Conn) : Prop where
  up : k.up.decoded <+: k.up.sent.map some
  asks : ∀ size, k.engineer.pc.wants = some size →
    ∀ p, k.up.pending.head? = some p → ∀ o, (p.marshal o).length = size
  session : role.At k.up.decoded.length k.down.sent.length k.engineer.pc

section

variable {H : Hosts} {s : Net} {o : ByteOrder} {isOpen receiving : Bool} {k : Conn} {role : Role}

theorem Conn.attended (hup : k.up.Sound (Parcel.marshal o) isOpen receiving)
    (hplan : k.up.Follows role.Up)
    (hat : role.At k.up.decoded.length k.down.sent.length k.engineer.pc) : k.Attended role := by
  refine ⟨hup.ordered, fun size hw p hp o' => ?_, hat⟩
  obtain ⟨kd, hk⟩ := Option.isSome_iff_exists.1
    ((SessionPc.isSome_kind _).2 (Option.isSome_of_eq_some hw))
  have hnext := hplan.head hp
  have hsize := (hnext.expected hat hk).2
  rw [hw, Option.some_inj] at hsize
  rw [p.length_marshal hnext.fits.2.2, hsize]

/-- In every run, also if a client has lost the boundary of a message, every engineer
    serves the role of its connection and finds each message where it looks for it, and
    the connections between the servers are framed in both directions. -/
theorem Net.engineers_framed (hs : (network H).Reachable s) :
    (∀ ℓ k, s.conn ℓ = some k → k.Attended (s.clientEnd H ℓ).role) ∧
      ∀ i x ℓ k, Link.ofStub i x = some ℓ → s.conn ℓ = some k →
        k.Framed (if s.isOpen ℓ then s.asks ℓ else none) := by
  have h := regular_of_reachable hs
  have hstub : ∀ {i x ℓ k}, Link.ofStub i x = some ℓ → s.conn ℓ = some k →
      k.Inv H (s.servers.clientEnd H ℓ) :=
    fun hx hk => h.servers.conn _ _ ((conn_servers_of_stub hx).trans hk)
  refine ⟨fun ℓ k hk => ?_, fun i x ℓ k hx hk => ?_⟩
  · cases ℓ with
    | customer c n =>
      have hcalled := (h.line c n k hk).called
      exact Conn.attended hcalled.up hcalled.upRole hcalled.engineer
    | acceptor i a =>
      have hinv := hstub (i := i) (x := .acceptor a) rfl hk
      exact Conn.attended hinv.up hinv.upPlan hinv.engineer
    | learner i a =>
      have hinv := hstub (i := i) (x := .learner a) rfl hk
      exact Conn.attended hinv.up hinv.upPlan hinv.engineer
  · have hframed := framed_of_inv h.servers ℓ k ((conn_servers_of_stub hx).trans hk)
    cases x <;> cases hx <;> exact hframed

/-- After the run of an order, another client takes its configuration out of no bytes. -/
theorem Net.engineers_framed_astray : ∃ s : Net,
    (∃ k ∈ s.conn (.customer 1 1), k.down.sent = [] ∧ k.down.decoded = [none] ∧
      k.Attended (.customer 1)) ∧
    ∃ k ∈ s.conn (.acceptor 1 1), k.up.decoded.length = 3 ∧ k.Attended .acceptor := by
  have hinit : (network OneOrder.hosts).Reachable OneOrder.init := .init OneOrder.init_mem
  obtain ⟨s, hs, ⟨k, hk, hsent, hdec, htype⟩, k', hk', hlen⟩ := hinit.exists_of_runBy
    (P := fun s => (∃ k ∈ s.conn (.customer 1 1), k.down.sent = [] ∧ k.down.decoded = [none] ∧
        (s.client 1).requestType = 1) ∧
      ∃ k ∈ s.conn (.acceptor 1 1), k.up.decoded.length = 3)
    (OneOrder.run ++ [.client 1 {} 1, .client 1 { answers := OneOrder.gives 4 } 1,
      .client 1 { answers := { recv := [[]] } } 1, .client 1 {} 1]) (by decide +kernel)
  have hall := (engineers_framed hs).1
  refine ⟨s, ⟨k, hk, hsent, hdec, ?_⟩, k', hk', hlen, hall _ k' hk'⟩
  have hk := hall _ k hk
  rw [clientEnd, htype] at hk
  exact hk

end

end LaptopPaxos
