import LaptopPaxos.Turns

/-!
# Failover

What becomes of the list of servers of a client when it loses its connection in
the loop of `Orders`. An observer remembers what has been received completely,
and who has refused.

The list is overwritten with whatever `receiveServerConfig` returns, and this is
the empty one after a failure, and also after a size of `2^31` or more, for which
nothing is received. If all servers to which the client connects send their whole
configuration, it gives up only after all of them have refused (`gives_up_last`).
-/

namespace LaptopPaxos

open Reader

/-- What one knows who watches a client. -/
structure Pass where
  /-- The last configuration that has been received completely. -/
  known : ServerConfig := {}
  /-- The size of the next configuration has been received completely. -/
  sized : Bool := false
  /-- The servers that have not accepted a connection since the last loss. -/
  refused : List ServerInfo := []
  /-- The client has reported that it has lost the connection to all servers. -/
  gaveUp : Bool := false
  deriving DecidableEq

/-- The known servers in the order of their ids. -/
def ServerConfig.infos (config : ServerConfig) : List ServerInfo :=
  config.servers.entries.map Prod.snd

def passAfter (o : ByteOrder) (g : Pass) (c : Client) (r : ClientEffect) : Pass :=
  match c.pc with
  | .header _ => { g with sized := r.transfer.ok }
  | .config _ _ =>
    if g.sized ∧ r.transfer.ok then
      (messageOf (ServerConfig.unmarshal o) {} (some r.transfer.bytes)).elim g fun config =>
        { g with known := config }
    else g
  | .request _ | .answer _ => { g with refused := [] }
  | .reconnect _ (server :: _) =>
    if r.connected.isSome then g else { g with refused := server :: g.refused }
  | .reconnect _ [] => { g with gaveUp := true }
  | _ => g

def notePass (o : ByteOrder) (g : Pass) (c : Client) (env : ClientEnv) : Pass :=
  (clientStep o env c).elim g (passAfter o g c)

/-- The client together with what its watcher knows. -/
abbrev passes (o : ByteOrder) : Machine (Client × Pass) ClientEnv :=
  (customerOrders o).observe {} (notePass o)

/-- The client keeps the last configuration it has completely received, and gives
    up only if all servers of it have refused. -/
structure Persistent (p : Client × Pass) : Prop where
  kept : p.1.serverConfig = p.2.known
  tried : p.2.gaveUp = true → ∀ server ∈ p.2.known.infos, server ∈ p.2.refused

/-- The server to which the client has connected sends the size, below `2^31`, and
    the whole of its configuration. As long as the client has none, it may also fail
    to, or announce a size that is not positive as an `int`. -/
def SendsConfig (p : Client × Pass) (env : ClientEnv) : Prop :=
  ∀ i size, p.1.pc = .config i size → ∀ t ∈ Socket.recv env.answers.recv (intOfSize size),
    (p.2.sized = true ∧ size < 2147483648 ∧ t.ok = true) ∨
      ((t.ok = false ∨ intOfSize size ≤ 0) ∧ p.1.serverConfig = {})

instance (p : Client × Pass) (env : ClientEnv) : Decidable (SendsConfig p env) :=
  match h : p.1.pc with
  | .config i size => decidable_of_iff (∀ t ∈ Socket.recv env.answers.recv (intOfSize size),
      (p.2.sized = true ∧ size < 2147483648 ∧ t.ok = true) ∨
        ((t.ok = false ∨ intOfSize size ≤ 0) ∧ p.1.serverConfig = {}))
      ⟨fun ht _ _ hpc => by cases h.symm.trans hpc; exact ht, fun ht => ht i size h⟩
  | .reconnect _ _ | .init | .identify _ | .header _ | .request _ | .answer _ | .done | .fault =>
    .isTrue fun _ _ hpc => by cases h.symm.trans hpc

section

variable {o : ByteOrder} {c : Client} {env : ClientEnv} {r : ClientEffect} {i : ℤ} {t : Transfer}
  {p p' : Client × Pass}

theorem step_passes (h : (passes o).step p env = some p') :
    ∃ r, ClientStep o env p.1 r ∧ p'.1 = r.client ∧ p'.2 = passAfter o p.2 p.1 r := by
  obtain ⟨hst, hnote⟩ := Machine.step_observe.1 h
  obtain ⟨r, hr, hc⟩ := Option.map_eq_some_iff.1 hst
  refine ⟨r, clientStep_cases hr, hc.symm, ?_⟩
  rw [hnote, notePass, hr]
  rfl

/-- In a pass, each known server has refused or is still to be tried. -/
structure InPass (p : Client × Pass) : Prop where
  requestType : p.1.requestType = 1
  kept : p.1.serverConfig = p.2.known
  tried : ∀ i servers, p.1.pc = .reconnect i servers →
    ∀ server ∈ p.2.known.infos, server ∈ p.2.refused ∨ server ∈ servers
  gaveUp : p.2.gaveUp = true → p.1.pc = .done ∧ ∀ server ∈ p.2.known.infos, server ∈ p.2.refused

/-- A pass begins with the servers that the client has in its list. -/
theorem Client.servers_of_answered (h1 : c.requestType = 1) {buffer? : Option (List UInt8)} {j : ℤ}
    {servers : List ServerInfo} (h : c.answered o i buffer? = .reconnect j servers) :
    servers = c.serverConfig.infos := by
  rw [Client.answered, if_pos h1] at h
  cases hm : messageOf (LaptopInfo.unmarshal o) {} buffer? with
  | none =>
    rw [hm] at h
    cases h
  | some laptop =>
    rw [hm, Option.elim_some, onLaptop] at h
    split_ifs at h with hadmin hvalid
    · rcases c.head_cases (i + 1) with hhead | hhead <;> rw [hhead] at h <;> cases h
    · cases h
      rfl

/-- The configuration of a server, if it has been received completely. -/
theorem InPass.serverConfig (h : InPass p) {size : ℕ} (hpc : p.1.pc = .config i size)
    (ht : Socket.recv env.answers.recv (intOfSize size) = some t)
    (hok : (p.2.sized = true ∧ size < 2147483648 ∧ t.ok = true) ∨
      ((t.ok = false ∨ intOfSize size ≤ 0) ∧ p.1.serverConfig = {})) :
    (p.1.receiveServerConfig o i size t).serverConfig =
      (passAfter o p.2 p.1
        { client := p.1.receiveServerConfig o i size t, transfer := t }).known := by
  rw [passAfter, hpc, Client.receiveServerConfig]
  dsimp only
  rcases hok with ⟨hsized, hlt, hok⟩ | ⟨hfail | hneg, hempty⟩
  · rw [serverConfigOf_of_lt ht hlt, if_pos hok, if_pos ⟨hsized, hok⟩]
    cases messageOf (ServerConfig.unmarshal o) {} (some t.bytes) with
    | none => exact h.kept
    | some config => rfl
  · rw [serverConfigOf, hfail, if_neg Bool.false_ne_true,
      if_neg fun hboth => Bool.false_ne_true hboth.2]
    exact hempty.symm.trans h.kept
  · -- nothing has been received, and the client goes on without a list
    obtain ⟨rfl, hconfig⟩ := serverConfigOf_of_nonpos (o := o) ht hneg
    have hnone : messageOf (ServerConfig.unmarshal o) {} (some []) = none := by cases o <;> rfl
    rw [hconfig, hnone, Option.elim_none, ite_self, ← h.kept, hempty]
    split_ifs <;> first | exact hempty | rfl

/-- Outside of a pass, nobody has to be tried, as the client has not given up. -/
theorem InPass.of_ne_reconnect (h1 : p.1.requestType = 1) (hkept : p.1.serverConfig = p.2.known)
    (hpc : ∀ i servers, p.1.pc ≠ .reconnect i servers) (hgave : ¬p.2.gaveUp = true) : InPass p :=
  ⟨h1, hkept, fun i servers hpc' => absurd hpc' (hpc i servers), fun hg => absurd hg hgave⟩

/-- The order is lost, and with the list of the servers a pass may begin. -/
theorem InPass.lose (h : InPass p) (h1 : r.client.requestType = 1)
    (hconfig : r.client.serverConfig = p.1.serverConfig) (hgave : ¬p.2.gaveUp = true)
    (hpc : ∀ j servers, r.client.pc = .reconnect j servers → ∃ buffer?,
      p.1.answered o i buffer? = .reconnect j servers) :
    InPass (r.client, { p.2 with refused := [] }) := by
  refine ⟨h1, hconfig.trans h.kept, fun j servers hpc' server hmem => .inr ?_,
    fun hg => absurd hg hgave⟩
  obtain ⟨buffer?, hanswered⟩ := hpc j servers hpc'
  rw [Client.servers_of_answered h.requestType hanswered, h.kept]
  exact hmem

theorem InPass.step (h : InPass p) (hok : SendsConfig p env)
    (hst : (passes o).step p env = some p') : InPass p' := by
  obtain ⟨c, g⟩ := p
  obtain ⟨c', g'⟩ := p'
  obtain ⟨r, hr, rfl, rfl⟩ := step_passes hst
  have h1 : r.client.requestType = 1 := hr.requestType.trans h.requestType
  -- The client has not yet given up.
  have hgave : ∀ {pc}, c.pc = pc → pc ≠ .done → ¬g.gaveUp = true :=
    fun hpc hne hg => hne (hpc.symm.trans (h.gaveUp hg).1)
  cases hr with
  | init hpc =>
    rw [passAfter, hpc]
    dsimp only
    refine .of_ne_reconnect h1 ?_ ?_ (hgave hpc ClientPc.noConfusion)
    · rw [Client.reconnect]
      split_ifs <;> exact h.kept
    · rw [Client.reconnect]
      split_ifs <;> exact fun _ _ => ClientPc.noConfusion
  | @identify i t hpc ht =>
    rw [passAfter, hpc]
    exact .of_ne_reconnect h1 h.kept (fun _ _ => ClientPc.noConfusion)
      (hgave hpc ClientPc.noConfusion)
  | @header i t hpc ht =>
    rw [passAfter, hpc]
    exact .of_ne_reconnect h1 h.kept (fun _ _ => ClientPc.noConfusion)
      (hgave hpc ClientPc.noConfusion)
  | @config i size t hpc ht =>
    have hgave' : (passAfter o g c
        { client := c.receiveServerConfig o i size t, transfer := t }).gaveUp = g.gaveUp := by
      rw [passAfter, hpc]
      dsimp only
      split_ifs
      · cases messageOf (ServerConfig.unmarshal o) {} (some t.bytes) <;> rfl
      · rfl
    refine .of_ne_reconnect h1 (h.serverConfig hpc ht (hok i size hpc t ht))
      (fun j servers hpc' => ?_) fun hg => hgave hpc ClientPc.noConfusion (hgave'.symm.trans hg)
    rcases c.pc_receiveServerConfig i size t with hpc'' | hpc'' | hpc'' <;>
      cases hpc''.symm.trans hpc'
  | @request i t hpc ht =>
    rw [passAfter, hpc]
    have hanswered : ∀ j servers,
        (if t.ok then .answer i else c.answered o i none : ClientPc) = .reconnect j servers →
          ∃ buffer?, c.answered o i buffer? = .reconnect j servers := by
      intro j servers hpc'
      split_ifs at hpc'
      exact ⟨none, hpc'⟩
    exact h.lose h1 rfl (hgave hpc ClientPc.noConfusion) hanswered
  | @answer i t hpc ht =>
    rw [passAfter, hpc]
    exact h.lose h1 rfl (hgave hpc ClientPc.noConfusion) fun j servers hpc' => ⟨_, hpc'⟩
  | @lost i hpc =>
    rw [passAfter, hpc]
    refine ⟨h1, h.kept, by rintro j servers ⟨⟩, fun _ => ⟨rfl, fun server hmem => ?_⟩⟩
    exact (h.tried i [] hpc server hmem).resolve_right List.not_mem_nil
  | @retry i server servers hpc =>
    rw [passAfter, hpc]
    dsimp only
    by_cases haccepted : env.accepted = true
    · rw [Client.reconnect, if_pos haccepted] at h1 ⊢
      exact .of_ne_reconnect h1 h.kept (fun _ _ => ClientPc.noConfusion)
        (hgave hpc ClientPc.noConfusion)
    · rw [Client.reconnect, if_neg haccepted] at h1 ⊢
      refine ⟨h1, h.kept, fun j servers' hpc' info hmem => ?_,
        fun hg => absurd hg (hgave hpc ClientPc.noConfusion)⟩
      cases hpc'
      rcases h.tried i _ hpc info hmem with hrefused | hleft
      · exact .inl (List.mem_cons_of_mem _ hrefused)
      · rcases List.mem_cons.1 hleft with rfl | hleft
        · exact .inl List.mem_cons_self
        · exact .inr hleft

/-- If the servers send their whole configurations, the client keeps its list, and
    gives up only after all servers in it have refused. -/
theorem gives_up_last (h : (passes o).ReachBy SendsConfig p) : Persistent p := by
  have hin : InPass p := by
    refine h.invariant (fun p hp => ?_) fun p env p' _ hinv hok hst => hinv.step hok hst
    obtain ⟨⟨hpc, h1, hconfig⟩, hg⟩ := hp
    obtain ⟨c, g⟩ := p
    cases hg
    refine ⟨h1, hconfig, ?_, nofun⟩
    rw [hpc]
    rintro i servers ⟨⟩
  exact ⟨hin.kept, fun hg => (hin.gaveUp hg).2⟩

/-- A client that has connected and waited in vain for the configuration, or been
    told a size of `2^31` or more, has lost its list. -/
theorem not_persistent_of_failure {size : ℕ} (h : Persistent p) (hpc : p.1.pc = .config i size)
    (ht : Socket.recv env.answers.recv (intOfSize size) = some t)
    (hfail : t.ok = false ∨ 0 < size ∧ intOfSize size ≤ 0)
    (hne : p.1.serverConfig ≠ {}) (hst : (passes o).step p env = some p') : ¬Persistent p' := by
  obtain ⟨c, g⟩ := p
  obtain ⟨c', g'⟩ := p'
  obtain ⟨hstep, hnote⟩ := Machine.step_observe.1 hst
  have hr : clientStep o env c =
      some { client := c.receiveServerConfig o i size t, transfer := t } := by
    rw [clientStep, show c.pc = _ from hpc]
    dsimp only
    rw [ht]
    rfl
  have hc' : c' = c.receiveServerConfig o i size t := by
    have hmap : (clientStep o env c).map ClientEffect.client = some c' := hstep
    rw [hr] at hmap
    exact (Option.some.inj hmap).symm
  have hg' : g' = g := by
    rw [show g' = notePass o g c env from hnote, notePass, hr, Option.elim_some, passAfter,
      show c.pc = _ from hpc]
    rcases hfail with hok | ⟨-, hneg⟩
    · exact if_neg fun hboth => Bool.noConfusion (hok.symm.trans hboth.2)
    · obtain ⟨rfl, -⟩ := serverConfigOf_of_nonpos (o := o) ht hneg
      have hnone : messageOf (ServerConfig.unmarshal o) {} (some []) = none := by cases o <;> rfl
      dsimp only
      rw [hnone, Option.elim_none, ite_self]
  have hempty : (c.receiveServerConfig o i size t).serverConfig = {} := by
    have hconfig : serverConfigOf o size t = some {} := by
      rcases hfail with hok | ⟨hpos, hneg⟩
      · rw [serverConfigOf, hok]
        rfl
      · rw [(serverConfigOf_of_nonpos ht hneg).2, if_neg hpos.ne']
    rw [Client.receiveServerConfig, hconfig]
  rintro ⟨hkept, -⟩
  refine hne (h.kept.trans ?_)
  rw [← hempty, ← hc', ← hg']
  exact hkept.symm

end

namespace Failover

/-- The server sends the size of its configuration, and no more. -/
def halfHandshake : List ClientEnv := [{}, gives 4, takes (putInt .little config.size), takes []]

/-- The connection is lost before the order goes out, and there is no server to try. -/
def lastLoss : List ClientEnv := [{ answers := { send := [-1] } }, {}]

end Failover

/-- The only server is lost and refuses. -/
theorem gives_up_last_refused : ∃ p : Client × Pass, p.2.gaveUp = true ∧
    p.2.known = Failover.config ∧ p.2.refused = [⟨"127.0.0.1", 8001⟩] ∧ Persistent p := by
  have hinit : (passes .little).ReachBy SendsConfig (Failover.client, {}) :=
    .init ⟨⟨rfl, rfl, rfl⟩, rfl⟩
  obtain ⟨p, hp, hgave, hknown, hrefused⟩ := hinit.exists_of_runBy
    (P := fun p => p.2.gaveUp = true ∧ p.2.known = Failover.config ∧
      p.2.refused = [⟨"127.0.0.1", 8001⟩])
    (Failover.handshake ++ Failover.order 0 ++ Failover.loss ++ [Failover.refused, {}])
    (by decide +kernel)
  exact ⟨p, hgave, hknown, hrefused, gives_up_last hp⟩

/-- The server accepts a new connection and dies before it has sent its
    configuration. With the next loss, the client gives up without another try. -/
theorem not_gives_up_last : ¬∀ o p, (passes o).Reachable p → Persistent p := by
  intro h
  have hinit : (passes .little).Reachable (Failover.client, {}) := .init ⟨⟨rfl, rfl, rfl⟩, rfl⟩
  obtain ⟨p, hp, hgave, hknown, hrefused⟩ := hinit.exists_of_runBy
    (P := fun p => p.2.gaveUp = true ∧ p.2.known = Failover.config ∧ p.2.refused = [])
    (Failover.handshake ++ Failover.loss ++ Failover.halfHandshake ++ Failover.lastLoss)
    (by decide +kernel)
  have htried := (h _ p hp).tried hgave ⟨"127.0.0.1", 8001⟩
  rw [hknown, hrefused] at htried
  exact absurd (htried (by decide +kernel)) List.not_mem_nil

end LaptopPaxos
