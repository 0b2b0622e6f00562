import LaptopPaxos.Sessions

/-!
# The ends of a connection

`Conn.Inv` ties the two ends of a connection together: both are where their
session is, what has been sent is planned, and on both pipes the receiver is at
the boundary of a message. Every step of a thread keeps it on the connection it
works on: of an engineer (`Conn.Inv.engineerStep`), of a client
(`Conn.Inv.clientStep`) if it is `Client.Benign`, and of a Scout by the same moves
(`sendUp`, `recvDown`, `failDown`).
-/

namespace LaptopPaxos

open LaptopFactory Reader

/-! ### Connections -/

/-- The end that has made a connection. -/
structure ClientEnd where
  order : ByteOrder
  role : Role
  isOpen : Bool
  /-- The client at work on the connection. -/
  client : Option Client

/-- The two ends of a connection agree, and neither is within a message. -/
structure Conn.Inv (H : Hosts) (E : ClientEnd) (k : Conn) : Prop where
  host : ∀ requestType, E.role = .customer requestType → k.server ∈ H.ids
  up : k.up.Sound (Parcel.marshal E.order) E.isOpen k.engineer.isInitialized
  down : k.down.Sound (Parcel.marshal (H.order k.server)) k.engineer.isInitialized E.isOpen
  upPlan : k.up.Follows E.role.Up
  downPlan : k.down.Follows (E.role.Down (H.config k.server))
  engineer : E.role.At k.up.decoded.length k.down.sent.length k.engineer.pc
  requestType : ∀ c ∈ E.client, E.role = .customer c.requestType
  client : ∀ c ∈ E.client,
    c.pc.At (H.config k.server) E.isOpen k.up.sent.length k.down.decoded.length

section

variable {H : Hosts} {E : ClientEnd} {k : Conn} {f : LaptopFactory} {e : ℤ} {o : ByteOrder}
  {fut : Option LaptopInfo} {answers : Answers} {r : EngineerEffect} {p : Parcel} {t : Transfer}
  {kd : Parcel.Kind} {isOpen : Bool} {client : Option Client} {g : Engineer}

theorem Use.into_ok {pipe : Pipe Parcel UInt8} (hok : t.ok = true)
    (hdec : Parcel.decode o kd t.bytes = some p) :
    (Use.recv kd t).into o pipe = pipe.pull t.bytes.length (some (some p)) := by
  rw [into, if_pos hok, hdec]

theorem Use.into_fail {pipe : Pipe Parcel UInt8} (hok : t.ok = false) :
    (Use.recv kd t).into o pipe = pipe.pull t.bytes.length none := by
  rw [into, hok, if_neg Bool.false_ne_true]

/-- A client's engineer sends the configuration only after its size. -/
theorem Conn.Inv.short (h : k.Inv H E) {requestType : ℤ} (hr : E.role = .customer requestType)
    (hpc : k.engineer.pc = .config) : (H.config k.server).size < 2147483648 := by
  have hat := h.engineer
  rw [hr, hpc] at hat
  obtain ⟨m, hm⟩ := List.exists_mem_of_length_pos (hat.2 ▸ Nat.one_pos)
  obtain ⟨n, hn, rfl⟩ := List.mem_iff_getElem.1 hm
  obtain rfl : n = 0 := by
    rw [hat.2] at hn
    omega
  have hdown := h.downPlan 0 _ (List.getElem?_eq_getElem hn)
  rw [hr] at hdown
  exact hdown.2

/-! ### Engineers -/

/-- The engineer stays where it is on the connection, or closes its end. -/
theorem Conn.Inv.closeDown (h : k.Inv H E)
    (hopen : g.isInitialized = true → k.engineer.isInitialized = true)
    (hat : E.role.At k.up.decoded.length k.down.sent.length g.pc) :
    Conn.Inv H E { k with engineer := g } :=
  ⟨h.host, h.up.mono (fun hs => hs) hopen, h.down.mono hopen fun hr => hr, h.upPlan, h.downPlan, hat,
    h.requestType, h.client⟩

/-- The engineer sends the next parcel of the session. -/
theorem Conn.Inv.sendDown (h : k.Inv H E) (hpre : t.bytes <+: p.marshal (H.order k.server))
    (hok : t.ok = true → t.bytes = p.marshal (H.order k.server))
    (hu : (Use.send p t).Allowed k.engineer.isInitialized k.up.flight)
    (hplan : E.role.Down (H.config k.server) k.down.sent.length p.narrow)
    (hopen : g.isInitialized = true → (k.engineer.isInitialized && t.ok) = true)
    (hat : E.role.At k.up.decoded.length (k.down.sent.length + 1) g.pc) :
    Conn.Inv H E { k.useEngineer o (some (.send p t)) with engineer := g } := by
  rw [← Parcel.marshal_narrow] at hpre hok
  refine ⟨h.host, h.up.mono (fun hs => hs) fun hr => ?_,
    (h.down.push hpre hok hu).mono hopen fun hr => hr, h.upPlan, h.downPlan.push hplan, ?_,
    h.requestType, h.client⟩
  · exact (Bool.and_eq_true _ _ ▸ hopen hr).1
  · change E.role.At _ (k.down.sent ++ [p.narrow]).length _
    rw [List.length_append]
    exact hat

/-- The engineer decodes the next parcel of the session. -/
theorem Conn.Inv.recvUp (h : k.Inv H E) (hok : t.ok = true) (hg : k.engineer.isInitialized = true)
    (hp : k.up.pending.head? = some p) (hbytes : t.bytes = p.marshal E.order)
    (hu : (Use.recv kd t).Allowed k.engineer.isInitialized k.up.flight)
    (hdec : Parcel.decode o kd t.bytes = some p)
    (hat : E.role.At (k.up.decoded.length + 1) k.down.sent.length g.pc) :
    Conn.Inv H E { k.useEngineer o (some (.recv kd t)) with engineer := g } := by
  have hpull : (Use.recv kd t).into o k.up = k.up.pull t.bytes.length (some (some p)) :=
    Use.into_ok hok hdec
  have hup := h.up
  rw [hg] at hup
  rw [Conn.useEngineer, hpull]
  refine ⟨h.host, ?_, h.down.mono (fun _ => hg) fun hr => hr, h.upPlan.pull _ _, h.downPlan, ?_,
    h.requestType, h.client⟩
  · rw [hbytes]
    exact hup.pull hp (hbytes ▸ hu.1)
  · rw [Pipe.decoded_pull, List.length_append]
    exact hat

/-- The engineer fails to receive, and closes its end. -/
theorem Conn.Inv.failUp (h : k.Inv H E) (hok : t.ok = false) (hg : g.isInitialized = false)
    (hat : E.role.At k.up.decoded.length k.down.sent.length g.pc) :
    Conn.Inv H E { k.useEngineer o (some (.recv kd t)) with engineer := g } := by
  have hpull : (Use.recv kd t).into o k.up = k.up.pull t.bytes.length none := Use.into_fail hok
  have hclosed : g.isInitialized = true → k.engineer.isInitialized = true := by
    rw [hg]
    exact fun h => absurd h Bool.false_ne_true
  rw [Conn.useEngineer, hpull]
  refine ⟨h.host, ?_, h.down.mono hclosed fun hr => hr, h.upPlan.pull _ _, h.downPlan, ?_,
    h.requestType, h.client⟩
  · rw [hg]
    exact h.up.fail _
  · rw [Pipe.decoded_pull, Option.toList_none, List.append_nil]
    exact hat

/-- What an engineer decodes is the next parcel of its session. -/
theorem Conn.Inv.nextUp (h : k.Inv H E) (hk : k.engineer.pc.kind = some kd) {size : ℕ}
    {chunks : List (List UInt8)} (hwants : k.engineer.pc.wants = some size)
    (hall : (Use.recv kd t).Allowed k.engineer.isInitialized k.up.flight)
    (hrecv : Socket.recv chunks (intOfSize size) = some t) (hok : t.ok = true) :
    k.engineer.isInitialized = true ∧ ∃ p, k.up.pending.head? = some p ∧
      t.bytes = p.marshal E.order ∧ p.kind = kd ∧ Parcel.decode o kd t.bytes = some p ∧
      E.role.Up k.up.decoded.length p := by
  have hsize : ∀ p, k.up.pending.head? = some p → p.size = size ∧ p.size < 2147483648 := by
    intro p hp
    have hup := h.upPlan.head hp
    have hw := (hup.expected h.engineer hk).2
    rw [hwants] at hw
    exact ⟨(Option.some.inj hw).symm, hup.fits.2.2⟩
  obtain ⟨hint, hpos⟩ := intOfSize_wants hwants
  rw [hint] at hrecv
  obtain ⟨hopen, p, hp, hbytes⟩ := next_of_recv h.up hrecv hok hpos hall hsize
  have hup := h.upPlan.head hp
  obtain ⟨hfits, hport, -⟩ := hup.fits
  obtain rfl : p.kind = kd := (hup.expected h.engineer hk).1
  refine ⟨hopen, p, hp, hbytes, rfl, ?_, hup⟩
  rw [hbytes]
  exact Parcel.decode_marshal hfits (hport _ _)

/-- A step of the engineer. -/
theorem Conn.Inv.engineerStep (h : k.Inv H E)
    (hst : EngineerStep (H.order k.server) e f fut answers k.engineer r)
    (hconfig : f.serverConfig = H.config k.server) (hf : f.acceptedValue.IsPlain)
    (hu : ∀ u ∈ k.engineer.pc.use f r.transfer,
      u.Allowed k.engineer.isInitialized k.up.flight)
    (hshort : k.engineer.pc = .configSize → (H.config k.server).size < 2147483648) :
    Conn.Inv H E { k.useEngineer (H.order k.server) (k.engineer.pc.use f r.transfer) with
      engineer := r.engineer } ∧ r.factory.acceptedValue.IsPlain := by
  have hat := h.engineer
  cases hst with
  | @send buffer size t hout ht =>
    rw [SessionPc.outgoing_eq] at hout
    obtain ⟨p, hp, heq⟩ := Option.map_eq_some_iff.1 hout
    cases heq
    obtain ⟨hdown, hat', hsize⟩ := hat.send hp hconfig fun requestType hr hpc =>
      hpc.elim hshort (h.short hr)
    obtain ⟨hpre, hok⟩ := Parcel.bytes_of_send hsize ht
    rw [SessionPc.use_of_parcel hp] at hu ⊢
    exact ⟨h.sendDown hpre hok (hu _ rfl) hdown (fun hs => hs) hat', hf⟩
  | @recv size t hwants ht =>
    obtain ⟨kd, hk⟩ := Option.isSome_iff_exists.1
      ((SessionPc.isSome_kind _).2 (Option.isSome_of_eq_some hwants))
    rw [SessionPc.use_of_kind hk] at hu ⊢
    rcases Bool.eq_false_or_eq_true t.ok with hok | hok
    · obtain ⟨hopen, p, hp, hbytes, hkd, hdec, hup⟩ := h.nextUp hk hwants (hu _ rfl) ht hok
      obtain ⟨hat', hval⟩ := hup.received (e := e) hat (hkd ▸ hk) (hkd ▸ hdec) hf
      rw [if_pos hok]
      exact ⟨h.recvUp hok hopen hp hbytes (hu _ rfl) hdec hat', hval⟩
    · rw [hok, if_neg Bool.false_ne_true, Bool.and_false, received_none (by rw [hwants]; nofun)]
      exact ⟨h.failUp hok rfl E.role.at_leave, hf⟩
  | @wake laptop hpc hfut =>
    rw [hpc] at hat ⊢
    exact ⟨h.closeDown (fun hopen => hopen) (hat.laptop laptop), hf⟩
  | leave hpc =>
    rw [hpc]
    exact ⟨h.closeDown (fun hopen => absurd hopen Bool.false_ne_true) E.role.at_gone, hf⟩

/-! ### The ends that have made the connections -/

/-- That end closes, or another connection is made. -/
theorem Conn.Inv.close (h : k.Inv H E) (hopen : isOpen = true → E.isOpen = true)
    (hr : ∀ c ∈ client, E.role = .customer c.requestType)
    (hc : ∀ c ∈ client,
      c.pc.At (H.config k.server) isOpen k.up.sent.length k.down.decoded.length) :
    k.Inv H { E with isOpen := isOpen, client := client } :=
  ⟨h.host, h.up.mono hopen fun hr => hr, h.down.mono (fun hs => hs) hopen, h.upPlan, h.downPlan,
    h.engineer, hr, hc⟩

/-- That end sends the next parcel of the session. -/
theorem Conn.Inv.sendUp (h : k.Inv H E) (hpre : t.bytes <+: p.marshal E.order)
    (hok : t.ok = true → t.bytes = p.marshal E.order)
    (hu : (Use.send p t).Allowed E.isOpen k.down.flight)
    (hplan : E.role.Up k.up.sent.length p.narrow)
    (hopen : isOpen = true → (E.isOpen && t.ok) = true)
    (hr : ∀ c ∈ client, E.role = .customer c.requestType)
    (hc : ∀ c ∈ client,
      c.pc.At (H.config k.server) isOpen (k.up.sent.length + 1) k.down.decoded.length) :
    (k.useClient o (some (.send p t))).Inv H { E with isOpen := isOpen, client := client } := by
  rw [← Parcel.marshal_narrow] at hpre hok
  have hlen : (k.up.sent ++ [p.narrow]).length = k.up.sent.length + 1 := List.length_append
  refine ⟨h.host, (h.up.push hpre hok hu).mono hopen fun hr => hr,
    h.down.mono (fun hs => hs) fun hr => ?_, h.upPlan.push hplan, h.downPlan, h.engineer, hr,
    fun c hmem => ?_⟩
  · exact (Bool.and_eq_true _ _ ▸ hopen hr).1
  · change c.pc.At _ _ (k.up.sent ++ [p.narrow]).length _
    rw [hlen]
    exact hc c hmem

/-- That end decodes the next parcel of the session. -/
theorem Conn.Inv.recvDown (h : k.Inv H E) (hok : t.ok = true) (hE : E.isOpen = true)
    (hp : k.down.pending.head? = some p) (hbytes : t.bytes = p.marshal (H.order k.server))
    (hu : (Use.recv kd t).Allowed E.isOpen k.down.flight)
    (hdec : Parcel.decode o kd t.bytes = some p)
    (hr : ∀ c ∈ client, E.role = .customer c.requestType)
    (hc : ∀ c ∈ client,
      c.pc.At (H.config k.server) isOpen k.up.sent.length (k.down.decoded.length + 1)) :
    (k.useClient o (some (.recv kd t))).Inv H { E with isOpen := isOpen, client := client } := by
  have hpull : (Use.recv kd t).into o k.down = k.down.pull t.bytes.length (some (some p)) :=
    Use.into_ok hok hdec
  have hdown := h.down
  rw [hE] at hdown
  rw [Conn.useClient, hpull]
  refine ⟨h.host, h.up.mono (fun _ => hE) fun hr => hr, ?_, h.upPlan, h.downPlan.pull _ _,
    h.engineer, hr, fun c hmem => ?_⟩
  · rw [hbytes]
    exact hdown.pull hp (hbytes ▸ hu.1)
  · rw [Pipe.decoded_pull, List.length_append]
    exact hc c hmem

/-- That end fails to receive, and closes. -/
theorem Conn.Inv.failDown (h : k.Inv H E) (hok : t.ok = false)
    (hr : ∀ c ∈ client, E.role = .customer c.requestType)
    (hc : ∀ c ∈ client,
      c.pc.At (H.config k.server) false k.up.sent.length k.down.decoded.length) :
    (k.useClient o (some (.recv kd t))).Inv H { E with isOpen := false, client := client } := by
  have hpull : (Use.recv kd t).into o k.down = k.down.pull t.bytes.length none :=
    Use.into_fail hok
  rw [Conn.useClient, hpull]
  refine ⟨h.host, h.up.mono nofun fun hr => hr, h.down.fail _, h.upPlan, h.downPlan.pull _ _,
    h.engineer, hr, fun c hmem => ?_⟩
  rw [Pipe.decoded_pull, Option.toList_none, List.append_nil]
  exact hc c hmem

/-- A connection that has just been accepted. -/
theorem Conn.inv_new {j e : ℤ} (hj : ∀ requestType, E.role = .customer requestType → j ∈ H.ids)
    (hr : ∀ c ∈ E.client, E.role = .customer c.requestType)
    (hc : ∀ c ∈ E.client, c.pc.At (H.config j) E.isOpen 0 0) :
    Conn.Inv H E { server := j, id := e } := by
  refine ⟨hj, .new, .new, .new, .new, ?_, hr, hc⟩
  cases E.role with
  | customer requestType => exact ⟨rfl, rfl⟩
  | acceptor | learner => rfl

end

/-- In a step of a client: if it has not received the size of the configuration, then
    the memory for the size holds a positive `int`; and a configuration that it
    receives is portable. -/
def Client.Benign (o : ByteOrder) (env : ClientEnv) (portable : Prop) (c : Client) : Prop :=
  match c.pc with
  | .header _ => ∀ t ∈ Socket.recv env.answers.recv 4, t.ok = false →
      0 < intOfSize (messageSize o env.indet t)
  | .config _ size => ∀ t ∈ Socket.recv env.answers.recv (intOfSize size), t.ok = true → portable
  | _ => True

instance (o : ByteOrder) (env : ClientEnv) (portable : Prop) [Decidable portable] (c : Client) :
    Decidable (c.Benign o env portable) :=
  match h : c.pc with
  | .header _ => decidable_of_iff (∀ t ∈ Socket.recv env.answers.recv 4, t.ok = false →
      0 < intOfSize (messageSize o env.indet t)) (by rw [Client.Benign, h])
  | .config _ size => decidable_of_iff (∀ t ∈ Socket.recv env.answers.recv (intOfSize size),
      t.ok = true → portable) (by rw [Client.Benign, h])
  | .init | .identify _ | .request _ | .answer _ | .reconnect _ _ | .done | .fault =>
    .isTrue (by rw [Client.Benign, h]; trivial)

section

variable {H : Hosts} {E : ClientEnd} {k : Conn} {c : Client} {o : ByteOrder} {env : ClientEnv}
  {r : ClientEffect} {i : ℤ} {t : Transfer} {portable : Prop}

theorem Client.Benign.mono {portable' : Prop} (h : c.Benign o env portable)
    (hp : portable → portable') : c.Benign o env portable' := by
  rw [Benign] at h ⊢
  split at h
  · exact h
  · exact fun t ht hok => hp (h t ht hok)
  · trivial

/-- A connection that is not accepted. -/
theorem Client.reconnect_of_fails {server : ServerInfo} {success failure : ClientPc}
    (h : (c.reconnect env server success failure).connected = none) :
    c.reconnect env server success failure =
      { client := { c with pc := failure, isInitialized := false } } := by
  rw [reconnect] at h ⊢
  split_ifs at h ⊢
  rfl

/-- What a client decodes is the next parcel of its session. -/
theorem Conn.Inv.next (h : k.Inv H E) (hc : E.client = some c)
    {kd : Parcel.Kind} {chunks : List (List UInt8)} {size : ℤ} (hu : c.use t = some (.recv kd t))
    (hall : (Use.recv kd t).Allowed E.isOpen k.down.flight) (hasks : c.asks = some size)
    (hpos : 0 < size) (hrecv : Socket.recv chunks size = some t) (hok : t.ok = true)
    (hport : kd = .message .serverConfig →
      Message.Portable (H.order k.server) o (.serverConfig (H.config k.server))) :
    E.isOpen = true ∧ ∃ p, k.down.pending.head? = some p ∧
      t.bytes = p.marshal (H.order k.server) ∧ Parcel.decode o kd t.bytes = some p ∧
      E.role.Down (H.config k.server) k.down.decoded.length p := by
  have hat := h.client c hc
  have hrole := h.requestType c hc
  have hhost := H.config_fits (h.host _ hrole)
  obtain ⟨n, rfl⟩ := Int.eq_ofNat_of_zero_le hpos.le
  have hEopen : E.isOpen = true := by
    cases hE : E.isOpen with
    | true => rfl
    | false =>
      have hlen := (Socket.bytes_of_recv hrecv).1 hok
      rw [hall.2 hE, List.length_nil, Int.toNat_natCast] at hlen
      omega
  rw [hEopen] at hat
  have hexp : ∀ p, k.down.pending.head? = some p →
      p.kind = kd ∧ c.asks = some (p.size : ℤ) ∧ p.size < 2147483648 ∧ 0 < p.size := by
    intro p hp
    have hdown := h.downPlan.head hp
    rw [hrole] at hdown
    exact hdown.expected hat hu
  obtain ⟨-, p, hp, hbytes⟩ := next_of_recv h.down hrecv hok (by omega) hall fun p hp => by
    obtain ⟨-, hsize, hlt, -⟩ := hexp p hp
    rw [hasks, Option.some_inj] at hsize
    exact ⟨by omega, hlt⟩
  have hdown := h.downPlan.head hp
  obtain ⟨hkind, -⟩ := hexp p hp
  refine ⟨hEopen, p, hp, hbytes, ?_, hdown⟩
  rw [hbytes, ← hkind]
  refine Parcel.decode_marshal (hdown.fits hhost.1 hhost.2) (hdown.portable fun heq => ?_)
  rw [heq]
  refine hport ?_
  rw [← hkind, heq]
  rfl

/-! The steps of a client, one for each of its control points on a connection. -/

/-- It sends its identity. -/
theorem Conn.Inv.clientIdentify (h : k.Inv H E) (hc : E.client = some c)
    (hE : E.isOpen = c.isInitialized) (hpc : c.pc = .identify i)
    (ht : Socket.send env.answers.send (putInt E.order 0) 4 = some t)
    (hu : (Use.send (.word 0) t).Allowed E.isOpen k.down.flight) :
    (k.useClient E.order (some (.send (.word 0) t))).Inv H
      { E with
        isOpen := c.isInitialized && t.ok
        client := some
          { c with pc := .header i, isInitialized := c.isInitialized && t.ok } } := by
  have hat := h.client c hc
  have hrole := h.requestType c hc
  rw [hpc] at hat
  obtain ⟨hsent, hdec⟩ := hat
  obtain ⟨hpre, hok⟩ := Parcel.bytes_of_send (p := .word 0) (by decide) ht
  refine h.sendUp hpre hok hu ?_ (fun hopen => hE ▸ hopen) ?_ ?_
  · rw [hrole, hsent]
    rfl
  · rintro _ ⟨⟩
    exact hrole
  · rintro _ ⟨⟩
    exact ⟨Nat.succ_pos _, hdec⟩

/-- It receives the size of the configuration, or goes on without it. -/
theorem Conn.Inv.clientHeader (h : k.Inv H E) (hc : E.client = some c) (hpc : c.pc = .header i)
    (ht : Socket.recv env.answers.recv 4 = some t)
    (hu : (Use.recv .word t).Allowed E.isOpen k.down.flight)
    (hben : t.ok = false → 0 < intOfSize (messageSize E.order env.indet t)) :
    (k.useClient E.order (some (.recv .word t))).Inv H
      { E with
        isOpen := c.isInitialized && t.ok
        client := some
          { c with
            pc := .config i (messageSize E.order env.indet t)
            isInitialized := c.isInitialized && t.ok } } := by
  have hat := h.client c hc
  have hrole := h.requestType c hc
  have huse : c.use t = some (.recv .word t) := by rw [Client.use, hpc]
  have hasks : c.asks = some 4 := by rw [Client.asks, hpc]
  have hr : ∀ c' ∈ some { c with
      pc := .config i (messageSize E.order env.indet t)
      isInitialized := c.isInitialized && t.ok }, E.role = .customer c'.requestType := by
    rintro _ ⟨⟩
    exact hrole
  rcases Bool.eq_false_or_eq_true t.ok with hok | hok
  · obtain ⟨hopen, p, hp, hbytes, hdec, hdown⟩ :=
      h.next hc huse hu hasks (by decide) ht hok Parcel.Kind.noConfusion
    rw [hpc, hopen] at hat
    obtain ⟨hsent, hd⟩ := hat
    rw [hrole, hd] at hdown
    obtain ⟨rfl, hlt⟩ := hdown
    have hsize : messageSize E.order env.indet t = (H.config k.server).size :=
      messageSize_of_bytes hlt hbytes
    refine h.recvDown hok hopen hp hbytes hu hdec hr ?_
    rintro _ ⟨⟩
    rw [hsize]
    refine ⟨hsent, ?_, fun _ => ⟨by rw [hd], rfl, hlt⟩⟩
    rw [intOfSize_eq hlt, ServerConfig.size]
    omega
  · rw [hpc] at hat
    rw [hok, Bool.and_false] at hr ⊢
    refine h.failDown hok hr ?_
    rintro _ ⟨⟩
    exact ⟨hat.1, hben hok, fun h => absurd h Bool.false_ne_true⟩

/-- It receives the configuration, or goes on with the empty one. -/
theorem Conn.Inv.clientConfig (h : k.Inv H E) (hc : E.client = some c) {size : ℕ}
    (hpc : c.pc = .config i size)
    (ht : Socket.recv env.answers.recv (intOfSize size) = some t)
    (hu : (Use.recv (.message .serverConfig) t).Allowed E.isOpen k.down.flight)
    (hben : t.ok = true →
      Message.Portable (H.order k.server) E.order (.serverConfig (H.config k.server))) :
    (k.useClient E.order (some (.recv (.message .serverConfig) t))).Inv H
      { E with
        isOpen := (c.receiveServerConfig E.order i size t).isInitialized
        client := some (c.receiveServerConfig E.order i size t) } := by
  have hat := h.client c hc
  have hrole := h.requestType c hc
  have huse : c.use t = some (.recv (.message .serverConfig) t) := by rw [Client.use, hpc]
  have hasks : c.asks = some (intOfSize size) := by rw [Client.asks, hpc]
  have hr : ∀ c' ∈ some (c.receiveServerConfig E.order i size t),
      E.role = .customer c'.requestType := by
    rintro _ ⟨⟩
    rw [c.requestType_receiveServerConfig]
    exact hrole
  rw [hpc] at hat
  obtain ⟨hsent, hpos, hopen⟩ := hat
  rcases Bool.eq_false_or_eq_true t.ok with hok | hok
  · obtain ⟨hEopen, p, hp, hbytes, hdec, hdown⟩ :=
      h.next hc huse hu hasks hpos ht hok fun _ => hben hok
    obtain ⟨hd, rfl, hlt⟩ := hopen hEopen
    rw [hrole, hd] at hdown
    obtain rfl : p = .message (.serverConfig (H.config k.server)) := hdown
    have hmsg : messageOf (ServerConfig.unmarshal E.order) {} (some t.bytes) =
        some (H.config k.server) :=
      messageOf_of_decode (fun _ _ => Message.serverConfig.inj) hdec
    refine h.recvDown hok hEopen hp hbytes hu hdec hr ?_
    rintro _ ⟨⟩
    rw [Client.receiveServerConfig, serverConfigOf_of_lt ht hlt, if_pos hok, hmsg]
    exact Client.at_head hsent fun _ => by omega
  · rw [Client.receiveServerConfig_of_fails hok] at hr ⊢
    refine h.failDown hok hr ?_
    rintro _ ⟨⟩
    exact Client.at_head hsent fun h => absurd h Bool.false_ne_true

/-- It sends a request. -/
theorem Conn.Inv.clientRequest (h : k.Inv H E) (hc : E.client = some c)
    (hE : E.isOpen = c.isInitialized) (hpc : c.pc = .request i)
    (ht : Socket.send env.answers.send ((c.customerRequest i).marshal E.order)
      (c.customerRequest i).size = some t)
    (hu : (Use.send (.message (.customerRequest (c.customerRequest i))) t).Allowed E.isOpen
      k.down.flight) :
    (k.useClient E.order (some (.send (.message (.customerRequest (c.customerRequest i))) t))).Inv H
      { E with
        isOpen := c.isInitialized && t.ok
        client := some
          { c with
            pc := if t.ok then .answer i else c.answered E.order i none
            isInitialized := c.isInitialized && t.ok } } := by
  have hat := h.client c hc
  have hrole := h.requestType c hc
  rw [hpc] at hat
  obtain ⟨hsent, hd⟩ := hat
  obtain ⟨hpre, hok⟩ := Parcel.bytes_of_send
    (p := .message (.customerRequest (c.customerRequest i))) (by change 12 < _; decide) ht
  refine h.sendUp hpre hok hu ?_ (fun hopen => hE ▸ hopen) ?_ ?_
  · rw [hrole]
    obtain ⟨n, hn⟩ := Nat.exists_eq_add_one.2 hsent
    rw [hn]
    exact ⟨c.customerRequest i, rfl, c.requestType_customerRequest i⟩
  · rintro _ ⟨⟩
    exact hrole
  · rintro _ ⟨⟩
    rcases Bool.eq_false_or_eq_true t.ok with hok | hok
    · rw [hok, if_pos rfl]
      refine ⟨Nat.succ_pos _, fun hopen => hd ?_⟩
      rw [Bool.and_true] at hopen
      exact hE.trans hopen
    · rw [hok, if_neg Bool.false_ne_true, Bool.and_false]
      exact Client.at_answered_none (Nat.succ_pos _)

/-- It receives the answer to a request. -/
theorem Conn.Inv.clientAnswer (h : k.Inv H E) (hc : E.client = some c) {kd : Parcel.Kind}
    (hkd : kd = .message (if c.requestType = 1 then .laptopInfo else .customerRecord))
    (hpc : c.pc = .answer i) (ht : Socket.recv env.answers.recv c.answerSize = some t)
    (hu : (Use.recv kd t).Allowed E.isOpen k.down.flight) :
    (k.useClient E.order (some (.recv kd t))).Inv H
      { E with
        isOpen := c.isInitialized && t.ok
        client := some
          { c with
            pc := c.answered E.order i (if t.ok then some t.bytes else none)
            isInitialized := c.isInitialized && t.ok } } := by
  have hat := h.client c hc
  have hrole := h.requestType c hc
  have huse : c.use t = some (.recv kd t) := by rw [Client.use, hpc, hkd]
  have hasks : c.asks = some (c.answerSize : ℤ) := by rw [Client.asks, hpc]
  have hr : ∀ c' ∈ some { c with
      pc := c.answered E.order i (if t.ok then some t.bytes else none)
      isInitialized := c.isInitialized && t.ok }, E.role = .customer c'.requestType := by
    rintro _ ⟨⟩
    exact hrole
  have hother : kd ≠ .message .serverConfig := by
    rw [hkd]
    split_ifs
    · exact fun heq => Message.Kind.noConfusion (Parcel.Kind.message.inj heq)
    · exact fun heq => Message.Kind.noConfusion (Parcel.Kind.message.inj heq)
  have hpos : 0 < (c.answerSize : ℤ) := Int.natCast_pos.2 c.answerSize_pos
  rw [hpc] at hat
  obtain ⟨hsent, hd⟩ := hat
  rcases Bool.eq_false_or_eq_true t.ok with hok | hok
  · obtain ⟨hopen, p, hp, hbytes, hdec, hdown⟩ :=
      h.next hc huse hu hasks hpos ht hok fun heq => absurd heq hother
    rw [hrole] at hdown
    refine h.recvDown hok hopen hp hbytes hu hdec hr ?_
    rintro _ ⟨⟩
    rw [if_pos hok]
    exact Client.at_answered hsent (hd hopen) hdown (hkd ▸ hdec)
  · rw [hok, Bool.and_false] at hr ⊢
    refine h.failDown hok hr ?_
    rintro _ ⟨⟩
    exact Client.at_answered_none hsent

/-- A step of the client that makes no new connection. -/
theorem Conn.Inv.clientStep (h : k.Inv H E) (hc : E.client = some c)
    (hE : E.isOpen = c.isInitialized) (hst : ClientStep E.order env c r)
    (hconn : r.connected = none) (hu : ∀ u ∈ c.use r.transfer, u.Allowed E.isOpen k.down.flight)
    (hben : c.Benign E.order env
      (Message.Portable (H.order k.server) E.order (.serverConfig (H.config k.server)))) :
    (k.useClient E.order (c.use r.transfer)).Inv H
      { E with isOpen := r.client.isInitialized, client := some r.client } := by
  have hr : ∀ c' ∈ some r.client, E.role = .customer c'.requestType := by
    rintro _ ⟨⟩
    rw [hst.requestType]
    exact h.requestType c hc
  rw [Client.use] at hu ⊢
  rw [Client.Benign] at hben
  cases hst with
  | identify hpc ht =>
    rw [hpc] at hu ⊢
    exact h.clientIdentify hc hE hpc ht (hu _ rfl)
  | header hpc ht =>
    rw [hpc] at hu hben ⊢
    exact h.clientHeader hc hpc ht (hu _ rfl) (hben _ ht)
  | config hpc ht =>
    rw [hpc] at hu hben ⊢
    exact h.clientConfig hc hpc ht (hu _ rfl) (hben _ ht)
  | request hpc ht =>
    rw [hpc] at hu ⊢
    exact h.clientRequest hc hE hpc ht (hu _ rfl)
  | answer hpc ht =>
    rw [hpc] at hu ⊢
    exact h.clientAnswer hc rfl hpc ht (hu _ rfl)
  | init hpc =>
    rw [Client.reconnect_of_fails hconn] at hr ⊢
    rw [hpc]
    refine h.close (fun h => absurd h Bool.false_ne_true) hr ?_
    rintro _ ⟨⟩
    trivial
  | lost hpc =>
    rw [hpc]
    refine h.close (fun hopen => hE ▸ hopen) hr ?_
    rintro _ ⟨⟩
    trivial
  | retry hpc =>
    rw [Client.reconnect_of_fails hconn] at hr ⊢
    rw [hpc]
    refine h.close (fun h => absurd h Bool.false_ne_true) hr ?_
    rintro _ ⟨⟩
    trivial

/-! ### Scouts -/

/-- What a Scout decodes is the next message of an acceptor. -/
theorem Conn.Inv.nextPaxos (h : k.Inv H E) (hrole : E.role = .acceptor)
    {chunks : List (List UInt8)}
    (hall : (Use.recv (.message .paxosMsg) t).Allowed E.isOpen k.down.flight)
    (hrecv : Socket.recv chunks (intOfSize ({} : PaxosMsg).size) = some t) (hok : t.ok = true) :
    E.isOpen = true ∧ ∃ m : PaxosMsg, m.IsPlain ∧
      k.down.pending.head? = some (.message (.paxosMsg m)) ∧
      t.bytes = Parcel.marshal (H.order k.server) (.message (.paxosMsg m)) ∧
      ∀ o, Parcel.decode o (.message .paxosMsg) t.bytes = some (.message (.paxosMsg m)) := by
  have hplain : ∀ p, k.down.pending.head? = some p →
      ∃ m : PaxosMsg, p = .message (.paxosMsg m.narrow) ∧ m.IsPlain := by
    intro p hp
    have hdown := h.downPlan.head hp
    rw [hrole] at hdown
    exact hdown
  obtain ⟨hopen, p, hp, hbytes⟩ := next_of_recv h.down hrecv hok (by decide) hall fun p hp => by
    obtain ⟨m, rfl, hm⟩ := hplain p hp
    have hsize : m.narrow.size = ({} : PaxosMsg).size := (PaxosMsg.isPlain_narrow.2 hm).size
    change m.narrow.size = _ ∧ m.narrow.size < _
    rw [hsize]
    decide
  obtain ⟨m, rfl, hm⟩ := hplain p hp
  refine ⟨hopen, m.narrow, PaxosMsg.isPlain_narrow.2 hm, hp, hbytes, fun o => ?_⟩
  rw [hbytes]
  exact Parcel.decode_marshal hm.fits (hm.portable _ _)

end

/-! ### Boundaries -/

section

variable {H : Hosts} {k : Conn} {E : ClientEnd} {n size : ℕ} {p : Parcel} {m : PaxosMsg}

/-- Every Paxos message on a connection is as long as a default one. -/
theorem Conn.Inv.length_paxosMsg (h : k.Inv H E)
    (hm : .message (.paxosMsg m) ∈ k.up.sent ++ k.down.sent) (o : ByteOrder) :
    (m.marshal o).length = ({} : PaxosMsg).size := by
  have hplain : m.IsPlain := by
    rcases List.mem_append.1 hm with hup | hdown
    · obtain ⟨n, hn⟩ := List.mem_iff_getElem?.1 hup
      exact Role.Up.isPlain (h.upPlan n _ hn)
    · obtain ⟨n, hn⟩ := List.mem_iff_getElem?.1 hdown
      exact Role.Down.isPlain (h.downPlan n _ hn)
  have hlen := (Parcel.message (.paxosMsg m)).length_marshal (o := o) (by
    change m.size < _
    rw [hplain.size]
    decide)
  exact hlen.trans hplain.size

/-- The engineer asks for as many bytes as the next parcel has. -/
theorem Conn.Inv.engineerAsks (h : k.Inv H E)
    (hw : k.engineer.pc.wants = some size) (hp : k.up.pending.head? = some p) (o : ByteOrder) :
    (p.marshal o).length = size := by
  obtain ⟨kd, hk⟩ := Option.isSome_iff_exists.1
    ((SessionPc.isSome_kind _).2 (Option.isSome_of_eq_some hw))
  have hup := h.upPlan.head hp
  have hsize := (hup.expected h.engineer hk).2
  rw [hw, Option.some_inj] at hsize
  rw [p.length_marshal hup.fits.2.2, hsize]

/-- So does a client. -/
theorem Conn.Inv.clientAsks {c : Client} {size : ℤ} (h : k.Inv H E)
    (hc : E.client = some c) (hopen : E.isOpen = true) (ha : c.asks = some size)
    (hp : k.down.pending.head? = some p) (o : ByteOrder) : ((p.marshal o).length : ℤ) = size := by
  have hat := h.client c hc
  have hdown := h.downPlan.head hp
  rw [hopen] at hat
  rw [h.requestType c hc] at hdown
  obtain ⟨kd, hu⟩ : ∃ kd, c.use {} = some (.recv kd {}) := by
    rw [Client.asks] at ha
    rw [Client.use]
    cases hpc : c.pc <;> rw [hpc] at ha <;> cases ha <;> exact ⟨_, rfl⟩
  obtain ⟨-, hasks, hlt, -⟩ := hdown.expected hat hu
  rw [p.length_marshal hlt]
  exact Option.some_inj.1 (hasks.symm.trans ha)

/-- And so does a Scout. -/
theorem Conn.Inv.scoutAsks {a : ℤ} {pc : ScoutPc} {size : ℤ} (h : k.Inv H E)
    (hrole : E.role = .acceptor) (ha : pc.asks a = some size)
    (hp : k.down.pending.head? = some p) (o : ByteOrder) : ((p.marshal o).length : ℤ) = size := by
  have hsize : size = (({} : PaxosMsg).size : ℕ) := by
    cases pc
    case p1b laptop l b iter | p2b laptop ph b iter =>
      rw [ScoutPc.asks] at ha
      split_ifs at ha
      exact (Option.some_inj.1 ha).symm
    all_goals cases ha
  have hdown := h.downPlan.head hp
  rw [hrole] at hdown
  obtain ⟨m, rfl, hm⟩ := hdown
  have hlen := h.length_paxosMsg (List.mem_append_right _
    (List.mem_of_mem_drop (List.mem_of_mem_head? hp))) o
  rw [hsize]
  exact congrArg Nat.cast hlen

end

end LaptopPaxos
