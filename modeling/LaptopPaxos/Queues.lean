import LaptopPaxos.Lib.Carriage
import LaptopPaxos.Lib.Simulation
import LaptopPaxos.Sized

/-!
# The queues of the cluster

What a connection between two servers is in the cluster. A queue of the cluster holds the
messages that are whole on their way, and those that an engineer has still to send
(`Conn.Conveys`). The stubs of a Scout and the engineers at their other ends keep it so,
each with the steps of the cluster that its own steps are (`Net.OnWires`,
`OnWires.scout`, `Conveys.engineer`).
-/

namespace LaptopPaxos

open LaptopFactory

/-! ### One connection -/

/-- The reply that an engineer has still to send. -/
def SessionPc.replies : SessionPc → List PaxosMsg
  | .reply m => [m]
  | _ => []

/-- The messages of the cluster on a connection of the host `o` to the host `o'`, as long
    as the end that would receive them is open. What an engineer has not sent before it
    closed its end is lost. -/
structure Conn.Conveys (o o' : ByteOrder) (isOpen : Bool) (toPeer fromPeer : List PaxosMsg)
    (k : Conn) : Prop where
  up : k.engineer.isInitialized = true → ∃ ps, k.up.Carries (Parcel.marshal o) isOpen ps ∧
    ps.filterMap Parcel.paxosMsg? = toPeer
  down : isOpen = true → ∃ ps ms,
    k.down.Carries (Parcel.marshal o') k.engineer.isInitialized ps ∧
      ps.filterMap Parcel.paxosMsg? ++ ms = fromPeer ∧
      (k.engineer.isInitialized = true → ms = k.engineer.pc.replies)

/-- What an engineer does in the cluster in a step: nothing, or it handles the message
    `m`. -/
inductive PeerStep (role : Role) (f : LaptopFactory) :
    List PaxosMsg → LaptopFactory → List PaxosMsg → List PaxosMsg → Prop
  | stutter {q} : PeerStep role f q f q []
  | acceptor {m rest} : role = .acceptor → PeerStep role f (m :: rest)
      (f.acceptorEngineer m).1 rest (f.acceptorEngineer m).2.toList
  | learner {m rest} : role = .learner →
      PeerStep role f (m :: rest) (f.learnerEngineer m) rest []

section

variable {o o' : ByteOrder} {isOpen isOpen' : Bool} {role : Role} {k k' : Conn} {e : ℤ}
  {f : LaptopFactory} {fut : Option LaptopInfo} {r : EngineerEffect}
  {toPeer fromPeer : List PaxosMsg} {p : Parcel} {m : PaxosMsg} {t : Transfer} {d n : ℕ}
  {pc : SessionPc}

/-- The connection is new. -/
theorem Conn.conveys_new {j : ℤ} : Conn.Conveys o o' isOpen [] [] { server := j, id := e } :=
  ⟨fun _ => ⟨[], .new, rfl⟩, fun _ => ⟨[], [], .new, rfl, fun _ => rfl⟩⟩

/-- The end that has made the connection may close. -/
theorem Conn.Conveys.mono (h : k.Conveys o o' isOpen toPeer fromPeer)
    (hopen : isOpen' = true → isOpen = true) : k.Conveys o o' isOpen' toPeer fromPeer := by
  refine ⟨fun he => ?_, fun ho => h.down (hopen ho)⟩
  obtain ⟨ps, hps, hq⟩ := h.up he
  exact ⟨ps, hps.mono hopen, hq⟩

/-- A message of a negative phase is no message to the acceptor, and makes the engineer
    leave. -/
theorem onAcceptorMsg_eq (f : LaptopFactory) (m : PaxosMsg) :
    (onAcceptorMsg f m).1 = (f.acceptorEngineer m).1 ∧
      (onAcceptorMsg f m).2.replies = (f.acceptorEngineer m).2.toList := by
  rw [onAcceptorMsg]
  split_ifs with hphase
  · rw [LaptopFactory.acceptorEngineer, if_neg (by omega), if_neg (by omega)]
    exact ⟨rfl, rfl⟩
  · refine ⟨rfl, ?_⟩
    dsimp only
    cases (f.acceptorEngineer m).2 <;> rfl

theorem onLearnerMsg_eq (f : LaptopFactory) (m : PaxosMsg) :
    (onLearnerMsg f m).1 = f.learnerEngineer m ∧ (onLearnerMsg f m).2.replies = [] := by
  rw [onLearnerMsg]
  split_ifs with hphase
  · rw [LaptopFactory.learnerEngineer, if_neg (by omega)]
    exact ⟨rfl, rfl⟩
  · exact ⟨rfl, rfl⟩

/-- A parcel that has been decoded is the next message of the cluster, or none. -/
theorem handle_peer (hrole : role = .acceptor ∨ role = .learner) (hat : role.At d n pc)
    (hk : pc.kind = some p.kind) (hup : role.Up d p) (q : List PaxosMsg) :
    PeerStep role f (p.paxosMsg?.toList ++ q) (handle e f pc p).1 q
      (handle e f pc p).2.replies := by
  rcases hrole with rfl | rfl <;> cases pc <;> cases hk' : p.kind <;> rw [hk'] at hk <;>
    cases hk <;> try exact hat.elim
  case inl.identity.word.refl =>
    obtain rfl : d = 0 := hat
    obtain rfl : p = .word 2 := hup
    exact .stutter
  case inr.identity.word.refl =>
    obtain rfl : d = 0 := hat
    obtain rfl : p = .word 3 := hup
    exact .stutter
  case inl.acceptor.message.refl =>
    obtain ⟨d, rfl⟩ := Nat.exists_eq_add_one.2 hat
    obtain ⟨m, rfl, -⟩ := hup
    obtain ⟨hfac, hrep⟩ := onAcceptorMsg_eq f m.narrow
    change PeerStep _ f (m.narrow :: q) (onAcceptorMsg f m.narrow).1 q
      (onAcceptorMsg f m.narrow).2.replies
    rw [hfac, hrep]
    exact .acceptor rfl
  case inr.learner.message.refl =>
    obtain ⟨d, rfl⟩ := Nat.exists_eq_add_one.2 hat
    obtain ⟨m, rfl, -⟩ := hup
    obtain ⟨hfac, hrep⟩ := onLearnerMsg_eq f m.narrow
    change PeerStep _ f (m.narrow :: q) (onLearnerMsg f m.narrow).1 q
      (onLearnerMsg f m.narrow).2.replies
    rw [hfac, hrep]
    exact .learner rfl

/-- An acceptor sends its reply, and a learner nothing. -/
theorem Role.At.reply (hrole : role = .acceptor ∨ role = .learner) (hat : role.At d n pc)
    (hp : pc.parcel f = some p) : ∃ m, pc = .reply m ∧ p = .message (.paxosMsg m) ∧ m.IsPlain := by
  rcases hrole with rfl | rfl <;> cases pc <;> cases hp <;> try exact hat.elim
  exact ⟨_, rfl, rfl, hat.2⟩

/-- An engineer that waits for a message has no reply. -/
theorem SessionPc.replies_of_kind {kd : Parcel.Kind} (h : pc.kind = some kd) : pc.replies = [] := by
  cases pc with
  | reply => cases h
  | _ => rfl

/-- No engineer waits for an empty parcel. -/
theorem Role.Up.marshal_ne_nil (hup : role.Up d p) (hat : role.At d n pc)
    (hk : pc.kind = some p.kind) : p.marshal o ≠ [] := by
  obtain ⟨-, hwants⟩ := hup.expected hat hk
  have hpos := (intOfSize_wants hwants).2
  rw [← p.length_marshal (o := o) hup.fits.2.2] at hpos
  exact List.ne_nil_of_length_pos hpos

/-- A step of an engineer, on its connection and in the cluster. -/
theorem Conn.Conveys.engineer (h : k.Conveys o o' isOpen toPeer fromPeer)
    (hk : k.Heard o isOpen role) (hdown : k.down.decoded.length ≤ k.down.sent.length)
    (hrole : role = .acceptor ∨ role = .learner)
    (hsized : ∀ m, k.engineer.pc = .reply m → m.IntSized)
    (hst : EngineerMove o o' role e f fut k r k') :
    ∃ rest replies, PeerStep role f toPeer r.factory rest replies ∧
      k'.Conveys o o' isOpen rest (fromPeer ++ replies) := by
  cases hst with
  | @send p t hp hfac hbytes hclosed heng =>
    obtain ⟨m, hpc, rfl, hm⟩ := hk.engineer.reply hrole hp
    have hsize : m.size < 2147483648 := by
      rw [hm.size]
      decide
    obtain ⟨hok, hfail⟩ := hbytes hsize
    refine ⟨toPeer, [], hfac ▸ .stutter, ?_⟩
    rw [List.append_nil, heng]
    refine ⟨fun he => h.up (Bool.and_eq_true _ _ ▸ he).1, fun ho => ?_⟩
    obtain ⟨ps, ms, hps, hq, hms⟩ := h.down ho
    have hnarrow : (Parcel.message (.paxosMsg m)).narrow = .message (.paxosMsg m) :=
      congrArg (fun m => Parcel.message (.paxosMsg m)) (hsized m hpc).narrow
    rw [hnarrow]
    rcases Bool.eq_false_or_eq_true t.ok with ht | ht
    · -- on a closed end no message goes out
      have hinit : k.engineer.isInitialized = true := by
        by_contra hinit
        have hlen := (Parcel.message (.paxosMsg m)).length_marshal (o := o') hsize
        rw [← hok ht, hclosed (Bool.eq_false_of_not_eq_true hinit)] at hlen
        change 0 = m.size at hlen
        rw [hm.size] at hlen
        exact absurd hlen (by decide)
      have hms' := hms hinit
      rw [hpc] at hms'
      rw [hinit] at hps
      refine ⟨ps ++ [.message (.paxosMsg m)], [], ?_, ?_, fun _ => ?_⟩
      · rw [hinit, ht, hok ht]
        exact hps.push hdown
      · rw [List.filterMap_append, List.append_nil, ← hq, hms']
        rfl
      · rw [hpc]
        rfl
    · refine ⟨ps, ms, ?_, hq, fun he => ?_⟩
      · rw [ht, Bool.and_false]
        exact hps.lose hdown (hfail ht) hclosed
      · rw [ht, Bool.and_false] at he
        cases he
  | @handle p hopen hp hpre hup hkind hfac heng =>
    obtain ⟨ps, hps, hq⟩ := h.up hopen
    obtain ⟨ps', rfl, hps'⟩ := hps.head hp hpre (hup.marshal_ne_nil hk.engineer hkind)
    refine ⟨ps'.filterMap Parcel.paxosMsg?, (handle e f k.engineer.pc p).2.replies, ?_, ?_⟩
    · have hpeer := handle_peer (e := e) (f := f) hrole hk.engineer hkind hup
        (ps'.filterMap Parcel.paxosMsg?)
      rw [hfac, ← hq]
      cases hmsg : p.paxosMsg? with
      | none =>
        rw [hmsg] at hpeer
        rw [List.filterMap_cons_none hmsg]
        exact hpeer
      | some m =>
        rw [hmsg] at hpeer
        rw [List.filterMap_cons_some hmsg]
        exact hpeer
    · rw [heng]
      refine ⟨fun _ => ⟨ps', hps', rfl⟩, fun ho => ?_⟩
      obtain ⟨qs, ms, hqs, hq', hms⟩ := h.down ho
      rw [hms hopen, SessionPc.replies_of_kind hkind, List.append_nil] at hq'
      rw [hopen] at hqs
      exact ⟨qs, _, hqs, congrArg (· ++ _) hq', fun _ => rfl⟩
  | @fail n _ hfac heng =>
    refine ⟨toPeer, [], hfac ▸ .stutter, ?_⟩
    rw [List.append_nil, heng]
    refine ⟨fun he => absurd he Bool.false_ne_true, fun ho => ?_⟩
    obtain ⟨ps, ms, hps, hq, -⟩ := h.down ho
    exact ⟨ps, ms, hps.mono nofun, hq, nofun⟩
  | @wake laptop hpc hfut hfac heng =>
    refine ⟨toPeer, [], hfac ▸ .stutter, ?_⟩
    rw [List.append_nil, heng]
    refine ⟨h.up, fun ho => ?_⟩
    obtain ⟨ps, ms, hps, hq, hms⟩ := h.down ho
    rw [hpc] at hms
    exact ⟨ps, ms, hps, hq, hms⟩
  | leave hpc hfac heng =>
    refine ⟨toPeer, [], hfac ▸ .stutter, ?_⟩
    rw [List.append_nil, heng]
    refine ⟨fun he => absurd he Bool.false_ne_true, fun ho => ?_⟩
    obtain ⟨ps, ms, hps, hq, -⟩ := h.down ho
    exact ⟨ps, ms, hps.mono nofun, hq, nofun⟩

/-! What the end that has made the connection does on it, and on the wires. -/

variable {s : ByteOrder} {q q' : List PaxosMsg} {kd : Parcel.Kind}

theorem Conn.Conveys.send (h : k.Conveys o o' true q q')
    (hup : k.up.decoded.length ≤ k.up.sent.length) (hp : p.narrow = p)
    (hbytes : t.bytes = p.marshal o) :
    (k.useClient s (some (.send p t))).Conveys o o' true (q ++ p.paxosMsg?.toList) q' := by
  refine ⟨fun he => ?_, h.down⟩
  obtain ⟨ps, hps, hq⟩ := h.up he
  refine ⟨ps ++ [p], ?_, ?_⟩
  · change (k.up.push p.narrow t.bytes).Carries _ _ _
    rw [hp, hbytes]
    exact hps.push hup
  · rw [List.filterMap_append, hq]
    cases hmsg : p.paxosMsg? with
    | none => rw [List.filterMap_cons_none hmsg]; rfl
    | some m => rw [List.filterMap_cons_some hmsg]; rfl

theorem Conn.Conveys.lose (h : k.Conveys o o' isOpen q q')
    (hup : k.up.decoded.length ≤ k.up.sent.length) (hp : p.narrow = p)
    (hlt : t.bytes.length < (p.marshal o).length) (hclosed : isOpen = false → t.bytes = []) :
    (k.useClient s (some (.send p t))).Conveys o o' false q q' := by
  refine ⟨fun he => ?_, nofun⟩
  obtain ⟨ps, hps, hq⟩ := h.up he
  refine ⟨ps, ?_, hq⟩
  change (k.up.push p.narrow t.bytes).Carries _ _ _
  rw [hp]
  exact hps.lose hup hlt hclosed

theorem Conn.Conveys.recv (h : k.Conveys o o' true q q')
    (hm : k.down.pending.head? = some (.message (.paxosMsg m)))
    (hbytes : t.bytes = Parcel.marshal o' (.message (.paxosMsg m))) (hne : t.bytes ≠ [])
    (hpre : t.bytes <+: k.down.flight) (hok : t.ok = true)
    (hdec : Parcel.decode s kd t.bytes = some (.message (.paxosMsg m))) :
    ∃ rest, q' = m :: rest ∧ (k.useClient s (some (.recv kd t))).Conveys o o' true q rest := by
  obtain ⟨ps, ms, hps, hq, hms⟩ := h.down rfl
  have hpull : (Use.recv kd t).into s k.down = k.down.pull t.bytes.length (some (some _)) :=
    Use.into_ok hok hdec
  rw [hbytes] at hne hpre
  obtain ⟨ps, rfl, hps'⟩ := hps.head hm hpre hne
  have hmsg : Parcel.paxosMsg? (.message (.paxosMsg m)) = some m := rfl
  rw [List.filterMap_cons_some hmsg, List.cons_append] at hq
  refine ⟨_, hq.symm, h.up, fun _ => ⟨ps, ms, ?_, rfl, hms⟩⟩
  change ((Use.recv kd t).into s k.down).Carries _ _ _
  rw [hpull, hbytes]
  exact hps'

theorem Conn.Conveys.miss (h : k.Conveys o o' isOpen q q') :
    (k.useClient s (some (.recv kd t))).Conveys o o' false q q' := by
  have hclosed : k.Conveys o o' false q q' := h.mono nofun
  exact ⟨hclosed.up, nofun⟩

end

/-! ### One stub -/

/-- Whether the stubs of this kind have been connected. -/
def LaptopFactory.started (f : LaptopFactory) : SocketId → Bool
  | .engineer _ => false
  | .acceptor _ => f.scoutAcceptorStubInit
  | .learner _ => f.commanderLearnerStubInit

/-- The connection of the stub `x` of `i`, and the queues of the cluster. -/
structure Net.OnWires (H : Hosts) (s : Net) (i : ℤ) (x : SocketId) (ℓ : Link)
    (toPeer fromPeer : List PaxosMsg) : Prop where
  fresh : s.conn ℓ = none → s.isOpen ℓ = false ∧ toPeer = [] ∧ fromPeer = []
  server : ∀ k, s.conn ℓ = some k → k.server = x.peer
  mem : ∀ k, s.conn ℓ = some k → x.peer ∈ H.ids
  started : ∀ k, s.conn ℓ = some k → (s.node i).factory.started x = true
  conveys : ∀ k, s.conn ℓ = some k →
    k.Conveys (H.order i) (H.order x.peer) (s.isOpen ℓ) toPeer fromPeer

section

variable {o : ByteOrder} {id i a : ℤ} {f : LaptopFactory} {env : Env} {answers : ℤ → Answers}
  {pc : ScoutPc} {io : ScoutIo} {x : SocketId} {r : Effect} {t : Transfer} {H : Hosts} {s : Net}
  {ℓ : Link} {q q' : List PaxosMsg} {k : Conn}

/-- The stubs stay connected. -/
theorem ScoutStep.started {inbox : ℤ → List PaxosMsg} (h : ScoutStep id f inbox env pc r)
    (hs : f.started x = true) : r.factory.started x = true := by
  cases h with
  | connect =>
    rw [scoutConnect]
    split_ifs
    · exact hs
    · cases x with
      | acceptor a => rfl
      | _ => exact hs
  | command =>
    rw [commanderConnect]
    split_ifs
    · exact hs
    · cases x with
      | learner a => rfl
      | _ => exact hs
  | _ => cases x <;> exact hs

/-- A stub that is connected has not been connected before, and its peer is configured. -/
theorem started_of_connects (hio : scoutIo o f env answers pc = some io)
    (hr : scoutStep id f io.inbox (io.env env) pc = some r) (hc : pc.connects = true)
    (ht : io.transfers.lookup x = some t) {u : Use} (hu : pc.use f x t = some u) :
    f.started x = false ∧ r.factory.started x = true ∧ x.peer ∈ f.acceptorMap.keys := by
  have hkeys : ∀ {mk role io a}, Function.Injective mk →
      connectIo o mk role env answers f.acceptorMap.keys = some io →
      io.transfers.lookup (mk a) = some t → a ∈ f.acceptorMap.keys := by
    intro mk role io a hmk hio ht
    obtain ⟨ts, hts, rfl⟩ := Option.map_eq_some_iff.1 hio
    rcases lookup_identifyAll hts a with ⟨hkey, -⟩ | ⟨-, hnone⟩
    · exact hkey
    · rw [lookup_map_of_injective hmk, hnone] at ht
      cases ht
  cases pc with
  | connect laptop =>
    cases hr
    rw [scoutIo] at hio
    by_cases hi : f.scoutAcceptorStubInit = true
    · rw [if_pos hi] at hio
      cases hio
      cases ht
    · rw [if_neg hi] at hio
      rw [scoutConnect, if_neg hi]
      cases x with
      | acceptor a =>
        exact ⟨Bool.eq_false_of_not_eq_true hi, rfl, hkeys (fun _ _ => SocketId.acceptor.inj) hio ht⟩
      | engineer | learner => cases hu
  | command laptop cmd =>
    cases hr
    rw [scoutIo] at hio
    by_cases hi : f.commanderLearnerStubInit = true
    · rw [if_pos hi] at hio
      cases hio
      cases ht
    · rw [if_neg hi] at hio
      rw [commanderConnect, if_neg hi]
      cases x with
      | learner a =>
        exact ⟨Bool.eq_false_of_not_eq_true hi, rfl, hkeys (fun _ _ => SocketId.learner.inj) hio ht⟩
      | engineer | acceptor => cases hu
  | _ => cases hc

theorem Net.isOpen_ofStub (hx : Link.ofStub i x = some ℓ) :
    s.isOpen ℓ = (s.node i).factory.isOpen x := by
  cases x <;> cases hx <;> rfl

/-- What `StubStep` says of a stub that is used so. -/
theorem StubStep.isOpen_of_idle (h : StubStep o f r.factory pc io x)
    (hidle : (io.transfers.lookup x).bind (pc.use f x) = none)
    (ho : r.factory.isOpen x = true) : f.isOpen x = true := by
  cases h with
  | idle _ hopen => exact hopen ho
  | send ht hu =>
    rw [ht, Option.bind_some, hu] at hidle
    cases hidle
  | recv ht hu =>
    rw [ht, Option.bind_some, hu] at hidle
    cases hidle

theorem StubStep.isOpen_of_send (h : StubStep o f r.factory pc io x)
    (ht : io.transfers.lookup x = some t) {p : Parcel} (hu : pc.use f x t = some (.send p t))
    (ho : r.factory.isOpen x = true) : ((pc.connects || f.isOpen x) && t.ok) = true := by
  cases h with
  | idle hidle =>
    rw [ht, Option.bind_some, hu] at hidle
    cases hidle
  | send ht' hu' _ _ _ hopen =>
    cases ht.symm.trans ht'
    exact hopen ho
  | recv ht' hu' =>
    cases ht.symm.trans ht'
    cases hu.symm.trans hu'

theorem StubStep.isOpen_of_recv (h : StubStep o f r.factory pc io x)
    (ht : io.transfers.lookup x = some t) {kd : Parcel.Kind}
    (hu : pc.use f x t = some (.recv kd t)) :
    pc.connects = false ∧ (r.factory.isOpen x = true → t.ok = true) := by
  cases h with
  | idle hidle =>
    rw [ht, Option.bind_some, hu] at hidle
    cases hidle
  | send ht' hu' =>
    cases ht.symm.trans ht'
    cases hu.symm.trans hu'
  | recv ht' _ hc _ _ hopen =>
    cases ht.symm.trans ht'
    exact ⟨hc, fun ho => (hopen ho).2⟩

namespace Net

/-- What the Scout receives is the first message of the queue. -/
theorem OnWires.take (h : s.OnWires H i (.acceptor a) (.acceptor i a) q q')
    (hinv : s.servers.Inv H) (hst : StubStep (H.order i) (s.node i).factory r.factory
      (s.node i).scout io (.acceptor a)) (hu : s.ScoutAllowed i io)
    (ht : io.transfers.lookup (.acceptor a) = some t)
    (huse : (s.node i).scout.use (s.node i).factory (.acceptor a) t =
      some (.recv (.message .paxosMsg) t)) (hok : t.ok = true) :
    ∃ m rest k, q' = m :: rest ∧ (∀ b, io.inbox b = [m]) ∧ s.conn (.acceptor i a) = some k ∧
      (k.useClient (H.order i) (some (.recv (.message .paxosMsg) t))).Conveys (H.order i)
        (H.order a) true q rest := by
  have hx : Link.ofStub i (.acceptor a) = some (.acceptor i a) := rfl
  have hall := allowed_of_lookup hu hx ht huse
  cases hst with
  | idle hidle =>
    rw [ht, Option.bind_some, huse] at hidle
    cases hidle
  | send ht' huse' =>
    cases ht.symm.trans ht'
    cases huse.symm.trans huse'
  | recv ht' _ hc _ hrecv _ hmsg =>
    cases ht.symm.trans ht'
    have hlen : 0 < t.bytes.length := by
      rw [(Socket.bytes_of_recv hrecv).1 hok]
      decide
    rw [hc, Bool.false_or] at hall
    cases hk : s.conn (.acceptor i a) with
    | none =>
      -- without a connection, nothing arrives
      have hpre := hall.1
      rw [arrived, hk] at hpre
      have hnil : t.bytes = [] := List.prefix_nil.1 hpre
      rw [hnil] at hlen
      exact absurd hlen (lt_irrefl _)
    | some k =>
      rw [arrived_eq hk] at hall
      obtain ⟨hopen, m, -, hp, hbytes, hdec⟩ :=
        (hinv.conn (.acceptor i a) k hk).nextPaxos rfl hall hrecv hok
      obtain ⟨m₁, rest₁, hrun, hinbox⟩ := hmsg hok
      have hdec' : messageOf (PaxosMsg.unmarshal (H.order i)) {} (some t.bytes) = some m :=
        messageOf_of_decode (fun _ _ => Message.paxosMsg.inj) (hdec _)
      change ((PaxosMsg.unmarshal (H.order i)).run t.bytes).map Prod.fst = some m at hdec'
      rw [hrun] at hdec'
      cases hdec'
      have hconv := h.conveys k hk
      have hopen' : s.isOpen (.acceptor i a) = true := hopen
      rw [hopen'] at hconv
      rw [h.server k hk] at hbytes
      obtain ⟨rest, hq, hconv'⟩ := hconv.recv hp hbytes (List.ne_nil_of_length_pos hlen) hall.1 hok
        (hdec (H.order i))
      exact ⟨_, rest, k, hq, hinbox, rfl, hconv'⟩

/-- A stub after a step of its Scout. -/
theorem OnWires.scout (h : s.OnWires H i x ℓ q q') (hx : Link.ofStub i x = some ℓ)
    (hinv : s.servers.Inv H)
    (hio : scoutIo (H.order i) (s.node i).factory env answers (s.node i).scout = some io)
    (hr : scoutStep i (s.node i).factory io.inbox (io.env env) (s.node i).scout = some r)
    (hu : s.ScoutAllowed i io) (hkeys : ∀ a ∈ (s.node i).factory.acceptorMap.keys, a ∈ H.ids)
    (hint : (s.node i).scout.IntSized (s.node i).factory) {q'' : List PaxosMsg}
    (htakes : r.Takes x → q'' = q'.tail) (hnot : ¬r.Takes x → q'' = q') :
    (s.applyScout H i io r).OnWires H i x ℓ (q ++ r.puts x) q'' := by
  have hstub := stubStep hio hr (hinv.scout i) x
  have hopen : (s.applyScout H i io r).isOpen ℓ = r.factory.isOpen x := by
    rw [isOpen_ofStub hx, node_applyScout_self]
  have hstarted : (s.node i).factory.started x = true →
      ((s.applyScout H i io r).node i).factory.started x = true := by
    rw [node_applyScout_self]
    exact (scoutStep_cases hr).started
  have hconn : (s.applyScout H i io r).conn ℓ = _ := conn_applyScout_ofStub hx
  have hk' : ∀ {k}, s.conn ℓ = some k → s.servers.conn ℓ = some k :=
    fun hk => (conn_servers_of_stub hx).trans hk
  -- a new connection
  have hnew : ∀ {t : Transfer} {u : Use}, (s.node i).scout.connects = true →
      io.transfers.lookup x = some t → (s.node i).scout.use (s.node i).factory x t = some u →
      q = [] ∧ q' = [] ∧ x.peer ∈ H.ids ∧
        ((s.applyScout H i io r).node i).factory.started x = true := by
    intro t u hc ht hu
    obtain ⟨hold, hstarted', hkey⟩ := started_of_connects hio hr hc ht hu
    have hnone : s.conn ℓ = none := by
      cases hk : s.conn ℓ with
      | none => rfl
      | some k => exact absurd (hold.symm.trans (h.started k hk)) Bool.false_ne_true
    rw [node_applyScout_self]
    exact ⟨(h.fresh hnone).2.1, (h.fresh hnone).2.2, hkeys _ hkey, hstarted'⟩
  have hfresh : ∀ {k : Conn} {q₁ q₂ : List PaxosMsg}, (s.applyScout H i io r).conn ℓ = some k →
      k.server = x.peer → x.peer ∈ H.ids →
      ((s.applyScout H i io r).node i).factory.started x = true →
      k.Conveys (H.order i) (H.order x.peer) (r.factory.isOpen x) q₁ q₂ →
      (s.applyScout H i io r).OnWires H i x ℓ q₁ q₂ := by
    intro k q₁ q₂ hk hserver hmem hstarted' hconv
    refine ⟨fun hn => absurd (hk.symm.trans hn) (Option.some_ne_none k), fun k' hk' => ?_,
      fun _ _ => hmem, fun _ _ => hstarted', fun k' hk' => ?_⟩
    · cases hk.symm.trans hk'
      exact hserver
    · cases hk.symm.trans hk'
      rw [hopen]
      exact hconv
  -- the end closes, and there is no connection
  have hlost : ∀ {q₁ q₂ : List PaxosMsg}, s.conn ℓ = none →
      (s.applyScout H i io r).conn ℓ = none → r.factory.isOpen x = false → q₁ = q → q₂ = q' →
      (s.applyScout H i io r).OnWires H i x ℓ q₁ q₂ := by
    rintro _ _ hk hn hclosed rfl rfl
    refine ⟨fun _ => ⟨hopen.trans hclosed, (h.fresh hk).2⟩, fun k' hk' => ?_, fun k' hk' => ?_,
      fun k' hk' => ?_, fun k' hk' => ?_⟩ <;> exact absurd (hn.symm.trans hk') (Option.some_ne_none k').symm
  cases wireStep hio hr (hinv.scout i) x with
  | idle hidle hputs hno =>
    rw [onStub_of_none hidle] at hconn
    rw [hputs, List.append_nil, hnot hno]
    have hidle' : r.factory.isOpen x = true → s.isOpen ℓ = true := fun ho => by
      rw [isOpen_ofStub hx]
      exact hstub.isOpen_of_idle hidle ho
    refine ⟨fun hn => ?_, fun k hk => h.server k (hconn ▸ hk),
      fun k hk => h.mem k (hconn ▸ hk), fun k hk => hstarted (h.started k (hconn ▸ hk)),
      fun k hk => ?_⟩
    · obtain ⟨hclosed, hq⟩ := h.fresh (hconn ▸ hn)
      rw [hopen]
      exact ⟨Bool.eq_false_of_not_eq_true fun ho => Bool.noConfusion (hclosed.symm.trans (hidle' ho)),
        hq⟩
    · rw [hopen]
      exact (h.conveys k (hconn ▸ hk)).mono hidle'
  | @sent p t ht huse hok hcan hbytes hputs hno =>
    have hp := hint.narrow huse
    rw [onStub_of_some ht huse] at hconn
    rw [hputs]
    cases hc : (s.node i).scout.connects with
    | true =>
      rw [hc, if_pos rfl] at hconn
      obtain ⟨rfl, hq, hmem, hstarted'⟩ := hnew hc ht huse
      rw [hnot hno, hq]
      have hconv : ((s.accept x.peer).useClient (H.order i) (some (.send p t))).Conveys (H.order i)
          (H.order x.peer) true _ [] := Conn.conveys_new.send le_rfl hp hbytes
      exact hfresh hconn rfl hmem hstarted' (hconv.mono fun _ => rfl)
    | false =>
      rw [hc, if_neg Bool.false_ne_true] at hconn
      rw [hc, Bool.false_or, ← isOpen_ofStub hx] at hcan
      cases hk : s.conn ℓ with
      | none => exact absurd ((h.fresh hk).1.symm.trans hcan) Bool.false_ne_true
      | some k =>
        rw [hk] at hconn
        have hconv := h.conveys k hk
        rw [hcan] at hconv
        rw [hnot hno]
        exact hfresh hconn (h.server k hk) (h.mem k hk) (hstarted (h.started k hk))
          ((hconv.send (hinv.conn ℓ k (hk' hk)).up.length_decoded_le hp hbytes).mono fun _ => rfl)
  | @lost p t ht huse hok hlt hputs hno =>
    have hp := hint.narrow huse
    have hclosed : r.factory.isOpen x = false := by
      refine Bool.eq_false_of_not_eq_true fun ho => ?_
      exact Bool.noConfusion (hok.symm.trans (Bool.and_eq_true _ _ ▸ hstub.isOpen_of_send ht huse ho).2)
    rw [onStub_of_some ht huse] at hconn
    rw [hputs, List.append_nil, hnot hno]
    cases hc : (s.node i).scout.connects with
    | true =>
      rw [hc, if_pos rfl] at hconn
      obtain ⟨rfl, rfl, hmem, hstarted'⟩ := hnew hc ht huse
      have hconv : ((s.accept x.peer).useClient (H.order i) (some (.send p t))).Conveys (H.order i)
          (H.order x.peer) false [] [] :=
        (show Conn.Conveys _ _ true [] [] _ from Conn.conveys_new).lose le_rfl hp hlt
          fun h => Bool.noConfusion h
      exact hfresh hconn rfl hmem hstarted' (hclosed ▸ hconv)
    | false =>
      rw [hc, if_neg Bool.false_ne_true] at hconn
      have hall := allowed_of_lookup hu hx ht huse
      rw [hc, Bool.false_or] at hall
      cases hk : s.conn ℓ with
      | none => exact hlost hk (by rw [hconn, hk]; rfl) hclosed rfl rfl
      | some k =>
        rw [hk] at hconn
        exact hfresh hconn (h.server k hk) (h.mem k hk) (hstarted (h.started k hk))
          (hclosed ▸ (h.conveys k hk).lose (hinv.conn ℓ k (hk' hk)).up.length_decoded_le hp hlt hall)
  | @recv t ht huse hputs htake =>
    obtain ⟨hc, hclosed⟩ := hstub.isOpen_of_recv ht huse
    rw [onStub_of_some ht huse, hc, if_neg Bool.false_ne_true] at hconn
    rw [hputs, List.append_nil]
    rcases Bool.eq_false_or_eq_true t.ok with hok | hok
    · obtain ⟨a, rfl, -⟩ := htake.2 hok
      cases hx
      obtain ⟨m, rest, k, rfl, -, hk, hconv⟩ := h.take hinv hstub hu ht huse hok
      rw [hk] at hconn
      rw [htakes (htake.2 hok)]
      exact hfresh hconn (h.server k hk) (h.mem k hk) (hstarted (h.started k hk))
        (hconv.mono fun _ => rfl)
    · have hno : ¬r.Takes x := fun htk => Bool.noConfusion (hok.symm.trans (htake.1 htk))
      have hclosed' : r.factory.isOpen x = false :=
        Bool.eq_false_of_not_eq_true fun ho => Bool.noConfusion (hok.symm.trans (hclosed ho))
      rw [hnot hno]
      cases hk : s.conn ℓ with
      | none => exact hlost hk (by rw [hconn, hk]; rfl) hclosed' rfl rfl
      | some k =>
        rw [hk] at hconn
        exact hfresh hconn (h.server k hk) (h.mem k hk) (hstarted (h.started k hk))
          (hclosed' ▸ (h.conveys k hk).miss)

/-- A stub whose Scout takes no step. -/
theorem OnWires.congr {s' : Net} (h : s.OnWires H i x ℓ q q') (hconn : s'.conn ℓ = s.conn ℓ)
    (hopen : s'.isOpen ℓ = s.isOpen ℓ)
    (hstarted : (s'.node i).factory.started x = (s.node i).factory.started x) :
    s'.OnWires H i x ℓ q q' := by
  refine ⟨?_, ?_, ?_, ?_, ?_⟩
  · rw [hconn, hopen]
    exact h.fresh
  · rw [hconn]
    exact h.server
  · rw [hconn]
    exact h.mem
  · rw [hconn, hstarted]
    exact h.started
  · rw [hconn, hopen]
    exact h.conveys

end Net

/-- The Scout takes the same step in the cluster. -/
theorem scoutStep_of_inbox {inbox : ℤ → List PaxosMsg}
    (hio : scoutIo o f env answers pc = some io)
    (hr : scoutStep id f io.inbox (io.env env) pc = some r)
    (hin : ∀ a t, io.transfers.lookup (.acceptor a) = some t →
      pc.use f (.acceptor a) t = some (.recv (.message .paxosMsg) t) → t.ok = true →
      (inbox a).head? = (io.inbox a).head?) :
    scoutStep id f inbox (io.env env) pc = some r := by
  have hhead : ∀ {a}, receiveIo o answers a = some io → (io.env env).alive = true →
      (∀ t, pc.use f (.acceptor a) t = some (.recv (.message .paxosMsg) t)) →
      (inbox a).head? = (io.inbox a).head? := by
    intro a h halive huse
    obtain ⟨t, -, h⟩ := Option.bind_eq_some_iff.1 h
    split_ifs at h with hok
    · obtain ⟨p, -, rfl⟩ := Option.map_eq_some_iff.1 h
      exact hin a t List.lookup_cons_self (huse t) hok
    · cases h
      cases halive
  cases pc with
  | p1b laptop l a iter =>
    rw [scoutStep, receiveP1b] at hr ⊢
    split_ifs at hr ⊢ with halive
    · rw [hhead hio halive fun t => if_pos rfl]
      exact hr
    · exact hr
  | p2b laptop ph a iter =>
    rw [scoutStep, receiveP2b] at hr ⊢
    split_ifs at hr ⊢ with halive
    · rw [hhead hio halive fun t => if_pos rfl]
      exact hr
    · exact hr
  | p1a laptop l iter => cases iter <;> exact hr
  | p2a laptop ph iter => cases iter <;> exact hr
  | learn laptop cmd iter => cases iter <;> exact hr
  | _ => exact hr

end

end LaptopPaxos
