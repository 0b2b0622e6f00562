import LaptopPaxos.Descriptors
import LaptopPaxos.Network

/-!
# Sessions

The two ends of a connection agree on what comes next, although no message says
what it is. A session has a `Role`, which fixes what may be sent at each position
(`Role.Up`, `Role.Down`), and the control points of the threads fix where they
are (`Role.At`, `ClientPc.At`). What a thread asks for is then what comes next
(`Role.Up.expected`, `Role.Down.expected`), and after it the thread is where the
session is (`Role.Up.received`, `Role.At.send`, `Client.at_answered`).

All lengths are known beforehand but for two. The size of a configuration is sent
before it. A Paxos message is as long as a default one only if its address is,
and addresses travel with the commands through acceptors and Scouts: every
command everywhere is `IsPlain`.
-/

namespace LaptopPaxos

open LaptopFactory Reader

/-! ### Addresses -/

/-- The address of the command is the default one. -/
def Command.IsPlain (cmd : Command) : Prop := cmd.clientIp = ({} : PaxosMsg).clientIp

/-- The address in the message is the default one. -/
def PaxosMsg.IsPlain (m : PaxosMsg) : Prop := m.clientIp = ({} : PaxosMsg).clientIp

namespace PaxosMsg

variable {m : PaxosMsg}

theorem isPlain_narrow : m.narrow.IsPlain ↔ m.IsPlain := Iff.rfl

/-- A plain message is as long as the receivers assume. -/
theorem IsPlain.size (h : m.IsPlain) : m.size = ({} : PaxosMsg).size := by
  rw [PaxosMsg.size, PaxosMsg.size, h]

theorem IsPlain.fits (h : m.IsPlain) : (Parcel.message (.paxosMsg m.narrow)).Fits := by
  refine ⟨⟨forall_isInt_map m.ints, ?_⟩, ?_⟩
  · change IsByteString m.clientIp
    rw [h]
    decide
  · change NulFree m.clientIp
    rw [h]
    decide

theorem IsPlain.portable (h : m.IsPlain) (s r : ByteOrder) :
    (Parcel.message (.paxosMsg m.narrow)).Portable s r := by
  change m.clientIp.length + 1 < 2147483648
  rw [h]
  decide

end PaxosMsg

/-- The command that the Scout works with is plain. -/
def ScoutPc.IsPlain : ScoutPc → Prop
  | .p1a _ l _ | .p1b _ l _ _ | .propose _ l | .pickSlot _ l => l.cmd.IsPlain
  | .p2a _ ph _ | .p2b _ ph _ _ => ph.cmd.IsPlain
  | .command _ cmd | .learn _ cmd _ => cmd.IsPlain
  | _ => True

/-! ### Configurations -/

/-- The configuration that the server `j` sends. -/
def Hosts.config (H : Hosts) (j : ℤ) : ServerConfig := (H.toDeployment.factory j).serverConfig

/-- What holds of a server that is added holds of all of them. -/
theorem forall_entries_addAcceptor {P : ℤ × ServerInfo → Prop} {f : LaptopFactory}
    (h : ∀ pair ∈ f.serverConfig.servers.entries, P pair) {id : ℤ} {addr : ServerAddress}
    (hP : P (id, ⟨addr.ip, addr.port⟩)) :
    ∀ pair ∈ (f.addAcceptor id addr).serverConfig.servers.entries, P pair := by
  intro pair hpair
  rw [addAcceptor, ServerConfig.setServer] at hpair
  obtain ⟨k, info⟩ := pair
  have hfind := StdMap.find?_eq_some.2 hpair
  rw [StdMap.find?_insertNew] at hfind
  split_ifs at hfind with hk
  · subst hk
    cases hold : f.serverConfig.servers.find? k with
    | none =>
      rw [hold] at hfind
      cases hfind
      exact hP
    | some info' =>
      rw [hold] at hfind
      cases hfind
      exact h _ (StdMap.find?_eq_some.1 hold)
  · exact h _ (StdMap.find?_eq_some.1 hfind)

/-- The configuration of a server is made of the command line. -/
theorem Hosts.config_fits (H : Hosts) {j : ℤ} (hj : j ∈ H.ids) :
    (H.config j).Fits ∧ (H.config j).IsNulFree := by
  have hall : ∀ pair ∈ (H.config j).servers.entries,
      (IsInt pair.1 ∧ pair.2.Fits) ∧ NulFree pair.2.ipAddress := by
    rw [config, Deployment.factory, configured]
    have hpeers : ∀ peer ∈ (H.ids.filter (· ≠ j)).map fun i => (i, H.addr i),
        (IsInt peer.1 ∧ (⟨peer.2.ip, peer.2.port⟩ : ServerInfo).Fits) ∧ NulFree peer.2.ip := by
      intro peer hpeer
      obtain ⟨i, hi, rfl⟩ := List.mem_map.1 hpeer
      obtain ⟨hid, hport, hip, hnul⟩ := H.fits i (List.mem_of_mem_filter hi)
      exact ⟨⟨hid, hip, hport⟩, hnul⟩
    obtain ⟨hid, hport, -⟩ := H.fits j hj
    have hself : ∀ pair ∈ (addAcceptor { factoryId := j, acceptedValue := { slot := H.indet j } } j
        ⟨"127.0.0.1", (H.addr j).port⟩).serverConfig.servers.entries,
        (IsInt pair.1 ∧ pair.2.Fits) ∧ NulFree pair.2.ipAddress := by
      refine forall_entries_addAcceptor (fun pair hpair => ?_) ⟨⟨hid, ?_, hport⟩, ?_⟩
      · exact absurd hpair List.not_mem_nil
      · change IsByteString "127.0.0.1"
        decide
      · change NulFree "127.0.0.1"
        decide
    generalize addAcceptor { factoryId := j, acceptedValue := { slot := H.indet j } } j
      ⟨"127.0.0.1", (H.addr j).port⟩ = f at hself ⊢
    generalize (H.ids.filter (· ≠ j)).map (fun i => (i, H.addr i)) = peers at hpeers ⊢
    induction peers generalizing f with
    | nil => exact hself
    | cons peer peers ih =>
      obtain ⟨hpeer, hpeers⟩ := List.forall_mem_cons.1 hpeers
      exact ih _ (forall_entries_addAcceptor hself hpeer) hpeers
  exact ⟨fun pair hpair => (hall pair hpair).1, fun pair hpair => (hall pair hpair).2⟩

/-! ### Roles -/

/-- What a connection is for. -/
inductive Role
  /-- Of a client with its type of requests. -/
  | customer (requestType : ℤ)
  | acceptor
  | learner

namespace Role

/-- What is sent to the engineer at the position `n`. -/
def Up : Role → ℕ → Parcel → Prop
  | .customer _, 0, p => p = .word 0
  | .acceptor, 0, p => p = .word 2
  | .learner, 0, p => p = .word 3
  | .customer requestType, _ + 1, p => ∃ q : CustomerRequest,
      p = .message (.customerRequest q.narrow) ∧ q.requestType = if requestType = 1 then 1 else 2
  | .acceptor, _ + 1, p | .learner, _ + 1, p =>
    ∃ m : PaxosMsg, p = .message (.paxosMsg m.narrow) ∧ m.IsPlain

/-- What the engineer sends at the position `n`; `config` is the configuration of
    its server. -/
def Down (config : ServerConfig) : Role → ℕ → Parcel → Prop
  | .customer _, 0, p => p = .word config.size ∧ config.size < 2147483648
  | .customer _, 1, p => p = .message (.serverConfig config)
  | .customer requestType, _ + 2, p =>
    if requestType = 1 then ∃ l : LaptopInfo, p = .message (.laptopInfo l.narrow)
    else ∃ r : CustomerRecord, p = .message (.customerRecord r.narrow)
  | .acceptor, _, p => ∃ m : PaxosMsg, p = .message (.paxosMsg m.narrow) ∧ m.IsPlain
  | .learner, _, _ => False

/-- Where the engineer is after it has decoded and sent so many parcels. -/
def At (decoded sent : ℕ) : Role → SessionPc → Prop
  | .customer _, .identity => decoded = 0 ∧ sent = 0
  | .customer _, .configSize => 0 < decoded ∧ sent = 0
  | .customer _, .config => 0 < decoded ∧ sent = 1
  | .customer _, .request => 0 < decoded ∧ 2 ≤ sent
  | .customer requestType, .order | .customer requestType, .laptop _ =>
    0 < decoded ∧ 2 ≤ sent ∧ requestType = 1
  | .customer requestType, .record _ => 0 < decoded ∧ 2 ≤ sent ∧ requestType ≠ 1
  | .acceptor, .identity | .learner, .identity => decoded = 0
  | .acceptor, .acceptor | .learner, .learner => 0 < decoded
  | .acceptor, .reply m => 0 < decoded ∧ m.IsPlain
  | _, .leave | _, .gone => True
  | _, _ => False

end Role

/-- Where a client is after it has sent and decoded so many parcels. -/
def ClientPc.At (config : ServerConfig) (isOpen : Bool) (sent decoded : ℕ) : ClientPc → Prop
  | .identify _ => sent = 0 ∧ decoded = 0
  | .header _ => 0 < sent ∧ decoded = 0
  | .config _ size => 0 < sent ∧ 0 < intOfSize size ∧
      (isOpen = true → decoded = 1 ∧ size = config.size ∧ config.size < 2147483648)
  | .request _ | .answer _ => 0 < sent ∧ (isOpen = true → 2 ≤ decoded)
  | _ => True

/-! ### What comes next -/

section

variable {role : Role} {n d : ℕ} {p : Parcel} {pc : SessionPc} {o : ByteOrder} {e : ℤ}
  {f : LaptopFactory} {bs : List UInt8} {kd : Parcel.Kind} {config : ServerConfig}

theorem Role.Up.fits (h : role.Up n p) :
    p.Fits ∧ (∀ s r, p.Portable s r) ∧ p.size < 2147483648 := by
  have hplain : ∀ {m : PaxosMsg}, m.IsPlain → p = .message (.paxosMsg m.narrow) →
      p.Fits ∧ (∀ s r, p.Portable s r) ∧ p.size < 2147483648 := by
    rintro m hm rfl
    refine ⟨hm.fits, hm.portable, ?_⟩
    change m.narrow.size < _
    rw [(PaxosMsg.isPlain_narrow.2 hm).size]
    decide
  cases role <;> cases n
  case customer.succ =>
    obtain ⟨q, rfl, -⟩ := h
    refine ⟨⟨forall_isInt_map q.ints, trivial⟩, fun _ _ => trivial, ?_⟩
    change 12 < _
    decide
  case acceptor.succ =>
    obtain ⟨m, hp, hm⟩ := h
    exact hplain hm hp
  case learner.succ =>
    obtain ⟨m, hp, hm⟩ := h
    exact hplain hm hp
  all_goals
    cases h
    refine ⟨?_, fun _ _ => trivial, by decide⟩
    change IsInt _
    decide

/-- An engineer asks for the bytes of the next parcel. -/
theorem Role.Up.expected (h : role.Up d p) (hat : role.At d n pc) (hk : pc.kind = some kd) :
    p.kind = kd ∧ pc.wants = some p.size := by
  have hplain : ∀ {m : PaxosMsg}, m.IsPlain → p = .message (.paxosMsg m.narrow) →
      some p.size = some ({} : PaxosMsg).size := by
    rintro m hm rfl
    exact congrArg some (PaxosMsg.isPlain_narrow.2 hm).size
  cases role <;> cases pc <;> cases hk <;> try exact hat.elim
  case customer.identity =>
    obtain ⟨rfl, -⟩ := hat
    cases h
    exact ⟨rfl, rfl⟩
  case customer.request =>
    obtain ⟨d, rfl⟩ := Nat.exists_eq_add_one.2 hat.1
    obtain ⟨q, rfl, -⟩ := h
    exact ⟨rfl, rfl⟩
  case acceptor.identity =>
    obtain rfl : d = 0 := hat
    cases h
    exact ⟨rfl, rfl⟩
  case learner.identity =>
    obtain rfl : d = 0 := hat
    cases h
    exact ⟨rfl, rfl⟩
  case acceptor.acceptor =>
    obtain ⟨d, rfl⟩ := Nat.exists_eq_add_one.2 hat
    obtain ⟨m, hp, hm⟩ := h
    exact ⟨hp ▸ rfl, (hplain hm hp).symm⟩
  case learner.learner =>
    obtain ⟨d, rfl⟩ := Nat.exists_eq_add_one.2 hat
    obtain ⟨m, hp, hm⟩ := h
    exact ⟨hp ▸ rfl, (hplain hm hp).symm⟩

/-! ### Engineers -/

theorem messageOf_of_decode {α : Type} {u : Reader α} {inj : α → Message}
    (hinj : Function.Injective inj) {default a : α}
    (h : (((inj <$> u).run bs).map Prod.fst).map Parcel.message = some (.message (inj a))) :
    messageOf u default (some bs) = some a := by
  obtain ⟨m, hm, heq⟩ := Option.map_eq_some_iff.1 h
  obtain ⟨⟨m', rest⟩, hrun, rfl⟩ := Option.map_eq_some_iff.1 hm
  obtain rfl : m' = inj a := Parcel.message.inj heq
  rw [run_map_eq_some hinj] at hrun
  change (u.run bs).map Prod.fst = _
  rw [hrun]
  rfl

@[simp] theorem Role.at_leave (role : Role) : role.At d n .leave := by
  cases role <;> trivial

@[simp] theorem Role.at_gone (role : Role) : role.At d n .gone := by
  cases role <;> trivial

/-- The promise of an order has got its value. -/
theorem Role.At.laptop (h : role.At d n .order) (l : LaptopInfo) : role.At d n (.laptop l) := by
  cases role with
  | customer requestType => exact h
  | acceptor | learner => exact h.elim

/-- An order or a query of a client is answered with what its role has. -/
theorem at_onRequest {requestType : ℤ} {q : CustomerRequest} (hd : 0 < d) (hn : 2 ≤ n)
    (hq : q.requestType = if requestType = 1 then 1 else 2) :
    (Role.customer requestType).At d n (onRequest f e q.narrow).2 := by
  have htype : q.narrow.requestType = if requestType = 1 then 1 else 2 := by
    change narrowInt q.requestType = _
    rw [hq]
    split_ifs <;> rfl
  rw [onRequest]
  by_cases hv : q.narrow.isValid
  · rw [if_neg (not_not.2 hv)]
    by_cases h1 : requestType = 1
    · rw [if_pos h1] at htype
      rw [if_pos htype]
      exact ⟨hd, hn, h1⟩
    · rw [if_neg h1] at htype
      have hrec : (f.customerEngineer e q.narrow).2 = some (f.createCustomerRecord q.narrow) := by
        rw [customerEngineer, if_neg (not_not.2 hv), if_neg (by omega), if_pos htype]
      rw [if_neg (by omega), hrec]
      exact ⟨hd, hn, h1⟩
  · rw [if_pos hv]
    trivial

theorem at_onAcceptorMsg {m : PaxosMsg} (hd : 0 < d) (hm : m.IsPlain)
    (hf : f.acceptedValue.IsPlain) :
    Role.acceptor.At d n (onAcceptorMsg f m).2 ∧ (onAcceptorMsg f m).1.acceptedValue.IsPlain := by
  rw [onAcceptorMsg]
  split_ifs
  · exact ⟨trivial, hf⟩
  · simp only [acceptorEngineer]
    split_ifs
    · exact ⟨⟨hd, hf⟩, hf⟩
    · exact ⟨⟨hd, rfl⟩, hf⟩
    · exact ⟨⟨hd, rfl⟩, hf⟩
    · exact ⟨⟨hd, rfl⟩, hm⟩
    · exact ⟨⟨hd, rfl⟩, hf⟩
    · exact ⟨hd, hf⟩

theorem acceptedValue_onRequest (q : CustomerRequest) :
    (onRequest f e q).1.acceptedValue = f.acceptedValue := by
  change (f.customerEngineer e q).1.acceptedValue = _
  rw [customerEngineer]
  split_ifs <;> rfl

theorem at_onLearnerMsg {m : PaxosMsg} (hd : 0 < d) : Role.learner.At d n (onLearnerMsg f m).2 ∧
    (onLearnerMsg f m).1.acceptedValue = f.acceptedValue := by
  rw [onLearnerMsg]
  split_ifs
  · exact ⟨trivial, rfl⟩
  · exact ⟨hd, (learnerEngineer_frame f m).2.1.value⟩

/-- After the next parcel an engineer is where the session is. -/
theorem Role.Up.received (h : role.Up d p) (hat : role.At d n pc) (hk : pc.kind = some p.kind)
    (hdec : Parcel.decode o p.kind bs = some p) (hf : f.acceptedValue.IsPlain) :
    role.At (d + 1) n (received o e f (some bs) pc).2 ∧
      (received o e f (some bs) pc).1.acceptedValue.IsPlain := by
  have hidentity : ∀ {v : ℤ}, p = .word v → messageOf (readInt o) (-1) (some bs) = some v := by
    rintro v rfl
    obtain ⟨q, hq, heq⟩ := Option.map_eq_some_iff.1 hdec
    obtain rfl : q.1 = v := Parcel.word.inj heq
    exact congrArg (Option.map Prod.fst) hq
  have hpaxos : ∀ {m : PaxosMsg}, p = .message (.paxosMsg m) →
      messageOf (PaxosMsg.unmarshal o) {} (some bs) = some m := by
    rintro m rfl
    exact messageOf_of_decode (fun _ _ => Message.paxosMsg.inj) hdec
  cases role <;> cases pc <;> cases hk' : p.kind <;> rw [hk'] at hk <;> cases hk <;>
    try exact hat.elim
  case customer.identity =>
    obtain ⟨rfl, rfl⟩ := hat
    rw [LaptopPaxos.received, hidentity h]
    exact ⟨⟨Nat.one_pos, rfl⟩, hf⟩
  case customer.request =>
    obtain ⟨d, rfl⟩ := Nat.exists_eq_add_one.2 hat.1
    obtain ⟨q, rfl, hq⟩ := h
    rw [LaptopPaxos.received,
      messageOf_of_decode (a := q.narrow) (fun _ _ => Message.customerRequest.inj) hdec]
    exact ⟨at_onRequest (Nat.succ_pos _) hat.2 hq, (acceptedValue_onRequest _).symm ▸ hf⟩
  case acceptor.identity =>
    obtain rfl : d = 0 := hat
    rw [LaptopPaxos.received, hidentity h]
    exact ⟨Nat.one_pos, hf⟩
  case learner.identity =>
    obtain rfl : d = 0 := hat
    rw [LaptopPaxos.received, hidentity h]
    exact ⟨Nat.one_pos, hf⟩
  case acceptor.acceptor =>
    obtain ⟨d, rfl⟩ := Nat.exists_eq_add_one.2 hat
    obtain ⟨m, hp, hm⟩ := h
    rw [LaptopPaxos.received, hpaxos hp]
    exact at_onAcceptorMsg (Nat.succ_pos _) hm hf
  case learner.learner =>
    obtain ⟨d, rfl⟩ := Nat.exists_eq_add_one.2 hat
    obtain ⟨m, hp, hm⟩ := h
    rw [LaptopPaxos.received, hpaxos hp]
    obtain ⟨hat', hval⟩ := at_onLearnerMsg (Nat.succ_pos _)
    exact ⟨hat', hval.symm ▸ hf⟩

/-- What an engineer sends is what comes next in its session. -/
theorem Role.At.send (hat : role.At d n pc) (hp : pc.parcel f = some p)
    (hconfig : f.serverConfig = config)
    (hshort : ∀ requestType, role = .customer requestType → pc = .configSize ∨ pc = .config →
      config.size < 2147483648) :
    role.Down config n p.narrow ∧ role.At d (n + 1) pc.sent ∧ p.size < 2147483648 := by
  subst hconfig
  cases role <;> cases pc <;> cases hp <;> try exact hat.elim
  case customer.configSize =>
    obtain ⟨hd, rfl⟩ := hat
    have hlt := hshort _ rfl (.inl rfl)
    refine ⟨⟨congrArg Parcel.word (narrowInt_eq_self ⟨by omega, by omega⟩), hlt⟩, ⟨hd, rfl⟩, ?_⟩
    change 4 < _
    decide
  case customer.config =>
    obtain ⟨hd, rfl⟩ := hat
    exact ⟨rfl, ⟨hd, le_rfl⟩, hshort _ rfl (.inr rfl)⟩
  case customer.laptop l =>
    obtain ⟨hd, hn, h1⟩ := hat
    obtain ⟨n, rfl⟩ := Nat.exists_eq_add_of_le' hn
    refine ⟨?_, ⟨hd, by omega⟩, ?_⟩
    · rw [Role.Down, if_pos h1]
      exact ⟨l, rfl⟩
    · change 20 < _
      decide
  case customer.record r =>
    obtain ⟨hd, hn, h1⟩ := hat
    obtain ⟨n, rfl⟩ := Nat.exists_eq_add_of_le' hn
    refine ⟨?_, ⟨hd, by omega⟩, ?_⟩
    · rw [Role.Down, if_neg h1]
      exact ⟨r, rfl⟩
    · change 8 < _
      decide
  case acceptor.reply m =>
    obtain ⟨hd, hm⟩ := hat
    refine ⟨⟨m, rfl, hm⟩, hd, ?_⟩
    change m.size < _
    rw [hm.size]
    decide

/-- What goes out of a `Send` of a parcel. -/
theorem Parcel.bytes_of_send {answers : List ℤ} {t : Transfer} (hsize : p.size < 2147483648)
    (h : Socket.send answers (p.marshal o) (intOfSize p.size) = some t) :
    t.bytes <+: p.marshal o ∧ (t.ok = true → t.bytes = p.marshal o) := by
  have hlen : (p.marshal o).length = p.size := p.length_marshal hsize
  rw [intOfSize_eq hsize] at h
  obtain ⟨hpre, hok, -⟩ := Socket.bytes_of_send h (by rw [hlen])
  refine ⟨hpre, fun ht => hpre.eq_of_length ?_⟩
  rw [hok ht, hlen, Int.toNat_natCast]

/-- The parcel in the bytes that a `Recv` takes out of a pipe, at an open end that asks
    for as many as the next parcel has. -/
theorem next_of_recv {pipe : Pipe Parcel UInt8} {isOpen sending : Bool} {size : ℕ}
    {chunks : List (List UInt8)} {t : Transfer} (h : pipe.Sound (Parcel.marshal o) sending isOpen)
    (hrecv : Socket.recv chunks size = some t) (hok : t.ok = true) (hpos : 0 < size)
    (hu : (Use.recv kd t).Allowed isOpen pipe.flight)
    (hsize : ∀ p, pipe.pending.head? = some p → p.size = size ∧ p.size < 2147483648) :
    isOpen = true ∧ ∃ p, pipe.pending.head? = some p ∧ t.bytes = p.marshal o := by
  have hlen : t.bytes.length = size := by
    rw [(Socket.bytes_of_recv hrecv).1 hok, Int.toNat_natCast]
  have hne : t.bytes ≠ [] := List.ne_nil_of_length_pos (hlen ▸ hpos)
  cases isOpen with
  | false => exact absurd (hu.2 rfl) hne
  | true =>
    refine ⟨rfl, h.head hu.1 hne fun p hp => ?_⟩
    rw [p.length_marshal (hsize p hp).2, hlen, (hsize p hp).1]

end

/-! ### Clients -/

section

variable {role : Role} {n d : ℕ} {p : Parcel} {o s : ByteOrder} {config : ServerConfig} {c : Client}
  {kd : Parcel.Kind} {t : Transfer} {isOpen : Bool} {i : ℤ}

theorem Role.Down.fits (h : role.Down config n p) (hf : config.Fits) (hn : config.IsNulFree) :
    p.Fits := by
  have hplain : (∃ m : PaxosMsg, p = .message (.paxosMsg m.narrow) ∧ m.IsPlain) → p.Fits := by
    rintro ⟨m, rfl, hm⟩
    exact hm.fits
  cases role with
  | customer requestType =>
    match n with
    | 0 =>
      obtain ⟨rfl, hlt⟩ := h
      exact ⟨by omega, by omega⟩
    | 1 =>
      cases h
      exact ⟨hf, hn⟩
    | _ + 2 =>
      rw [Role.Down] at h
      split_ifs at h
      · obtain ⟨l, rfl⟩ := h
        exact ⟨forall_isInt_map l.ints, trivial⟩
      · obtain ⟨r, rfl⟩ := h
        exact ⟨forall_isInt_map r.ints, trivial⟩
  | acceptor => exact hplain h
  | learner => exact h.elim

/-- A client asks for the bytes of the next parcel. -/
theorem Role.Down.expected (h : (Role.customer c.requestType).Down config d p)
    (hat : c.pc.At config true n d) (hu : c.use t = some (.recv kd t)) :
    p.kind = kd ∧ c.asks = some (p.size : ℤ) ∧ p.size < 2147483648 ∧ 0 < p.size := by
  cases hpc : c.pc <;> rw [Client.use, hpc] at hu <;> cases hu <;> rw [hpc] at hat
  case header =>
    obtain ⟨-, rfl⟩ := hat
    obtain ⟨rfl, -⟩ := h
    refine ⟨rfl, ?_, ?_⟩
    · rw [Client.asks, hpc]
      rfl
    · change 4 < _ ∧ 0 < 4
      decide
  case config i size =>
    obtain ⟨-, -, hopen⟩ := hat
    obtain ⟨rfl, rfl, hlt⟩ := hopen rfl
    cases h
    refine ⟨rfl, ?_, hlt, ?_⟩
    · rw [Client.asks, hpc]
      exact congrArg some (intOfSize_eq hlt)
    · change 0 < config.size
      rw [ServerConfig.size]
      omega
  case answer =>
    obtain ⟨d, rfl⟩ := Nat.exists_eq_add_of_le' (hat.2 rfl)
    rw [Role.Down] at h
    rw [Client.asks, hpc]
    change _ ∧ some (c.answerSize : ℤ) = _ ∧ _
    rw [Client.answerSize]
    by_cases h1 : c.requestType = 1
    · rw [if_pos h1] at h ⊢
      rw [if_pos h1]
      obtain ⟨l, rfl⟩ := h
      refine ⟨rfl, rfl, ?_⟩
      change 20 < _ ∧ 0 < 20
      decide
    · rw [if_neg h1] at h ⊢
      rw [if_neg h1]
      obtain ⟨r, rfl⟩ := h
      refine ⟨rfl, rfl, ?_⟩
      change 8 < _ ∧ 0 < 8
      decide

/-- Everything but a configuration is portable. -/
theorem Role.Down.portable (h : role.Down config n p) {r : ByteOrder}
    (hconfig : p = .message (.serverConfig config) → p.Portable s r) : p.Portable s r := by
  have hplain : (∃ m : PaxosMsg, p = .message (.paxosMsg m.narrow) ∧ m.IsPlain) →
      p.Portable s r := by
    rintro ⟨m, rfl, hm⟩
    exact hm.portable s r
  cases role with
  | customer requestType =>
    match n with
    | 0 =>
      obtain ⟨rfl, -⟩ := h
      trivial
    | 1 => exact hconfig h
    | _ + 2 =>
      rw [Role.Down] at h
      split_ifs at h
      · obtain ⟨l, rfl⟩ := h
        trivial
      · obtain ⟨r, rfl⟩ := h
        trivial
  | acceptor => exact hplain h
  | learner => exact h.elim

/-- The size in a header that has been received. -/
theorem messageSize_of_bytes {size : ℕ} {indet : BitVec 32} (hlt : size < 2147483648)
    (ht : t.bytes = putInt s size) : messageSize o indet t = size := by
  have hdrop : (o.store indet).drop t.bytes.length = [] := by
    rw [List.drop_eq_nil_iff, ht, length_putInt, o.length_store]
  rw [messageSize, hdrop, List.append_nil, ht, putInt, s.store_htonl, o.ntohl_load_store_big,
    BitVec.ofInt_natCast, BitVec.toNat_ofNat, Nat.mod_eq_of_lt (by omega)]

/-- After an answer, or before the first request. -/
theorem Client.at_head (hn : 0 < n) (hd : isOpen = true → 2 ≤ d) :
    (c.head i).At config isOpen n d := by
  rw [head]
  split_ifs
  · exact ⟨hn, hd⟩
  · trivial
  · exact ⟨hn, hd⟩
  · trivial

theorem Client.at_onLaptop (hn : 0 < n) (hd : isOpen = true → 2 ≤ d) (laptop : LaptopInfo) :
    (c.onLaptop i laptop).At config isOpen n d := by
  rw [onLaptop]
  split_ifs
  · trivial
  · exact at_head hn hd
  · trivial

theorem Client.at_onRecord (hn : 0 < n) (hd : isOpen = true → 2 ≤ d) :
    (c.onRecord i).At config isOpen n d := by
  rw [onRecord]
  split_ifs
  · exact at_head hn hd
  · trivial

theorem Client.answerSize_pos (c : Client) : 0 < c.answerSize := by
  rw [answerSize]
  split_ifs <;> decide

theorem Client.requestType_customerRequest (c : Client) (i : ℤ) :
    (c.customerRequest i).requestType = if c.requestType = 1 then 1 else 2 := by
  rw [customerRequest]
  split_ifs with h1 h2
  · exact h1
  · rfl
  · rfl

/-- After a failure, the client goes on with the empty configuration. -/
theorem Client.receiveServerConfig_of_fails {size : ℕ} (hok : t.ok = false) :
    c.receiveServerConfig o i size t =
      { c with isInitialized := false, serverConfig := {}, pc := c.head i } := by
  rw [receiveServerConfig, serverConfigOf, hok, Bool.and_false]
  rfl

/-- A request or an answer that fails is answered with a default message. -/
theorem Client.at_answered_none (hn : 0 < n) : (c.answered o i none).At config false n d := by
  have hd : false = true → 2 ≤ d := nofun
  rw [answered]
  split_ifs
  · exact at_onLaptop hn hd _
  · exact at_onRecord hn hd

/-- An answer that has been decoded. -/
theorem Client.at_answered (hn : 0 < n) (hd : 2 ≤ d)
    (h : (Role.customer c.requestType).Down config d p)
    (hdec : Parcel.decode o (.message (if c.requestType = 1 then .laptopInfo else .customerRecord))
      t.bytes = some p) : (c.answered o i (some t.bytes)).At config isOpen n (d + 1) := by
  obtain ⟨d, rfl⟩ := Nat.exists_eq_add_of_le' hd
  rw [Role.Down] at h
  rw [answered]
  by_cases h1 : c.requestType = 1
  · rw [if_pos h1] at h hdec ⊢
    obtain ⟨l, rfl⟩ := h
    rw [messageOf_of_decode (a := l.narrow) (fun _ _ => Message.laptopInfo.inj) hdec]
    exact at_onLaptop hn (fun _ => by omega) _
  · rw [if_neg h1] at h hdec ⊢
    obtain ⟨r, rfl⟩ := h
    rw [messageOf_of_decode (a := r.narrow) (fun _ _ => Message.customerRecord.inj) hdec]
    exact at_onRecord hn fun _ => by omega

end

/-! ### Paxos messages -/

section

variable {role : Role} {n : ℕ} {m : PaxosMsg} {config : ServerConfig}

theorem Role.Up.isPlain (h : role.Up n (.message (.paxosMsg m))) : m.IsPlain := by
  cases role <;> cases n
  case acceptor.succ | learner.succ =>
    obtain ⟨m', heq, hm⟩ := h
    cases heq
    exact PaxosMsg.isPlain_narrow.2 hm
  case customer.succ =>
    obtain ⟨q, heq, -⟩ := h
    cases heq
  all_goals cases h

theorem Role.Down.isPlain (h : role.Down config n (.message (.paxosMsg m))) :
    m.IsPlain := by
  cases role with
  | customer requestType =>
    match n with
    | 0 => cases h.1
    | 1 => cases h
    | _ + 2 =>
      rw [Role.Down] at h
      split_ifs at h
      · obtain ⟨l, heq⟩ := h
        cases heq
      · obtain ⟨r, heq⟩ := h
        cases heq
  | acceptor =>
    obtain ⟨m', heq, hm⟩ := h
    cases heq
    exact PaxosMsg.isPlain_narrow.2 hm
  | learner => exact h.elim

end

end LaptopPaxos
