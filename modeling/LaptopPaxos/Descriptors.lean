import LaptopPaxos.Process

/-!
# Descriptors

`Close` keeps the number of the descriptor, and `Send` and `Recv` do not look
whether the socket is open. Whether a closed descriptor is used again thus
depends on the loops around them:

* a failed send of the Scout or the Commander removes the stub from its map,
  and a failed receive of an engineer ends its thread: nothing is used again;
* a failed receive of the Scout and a failed `Identify` leave the stub in its
  map, and an engineer does not look at the result of a send: the next turn of
  the loop uses the closed descriptor.

Every call is disciplined along the runs without failures of the second kind
(`disciplined`).
-/

namespace LaptopPaxos

open LaptopFactory

/-- After an object has closed its descriptor, it makes no call on it. -/
def Disciplined (calls : List (SocketId × Syscall)) : Prop :=
  calls.Pairwise fun x y => x.2 = .close → y.1 ≠ x.1

instance (calls : List (SocketId × Syscall)) : Decidable (Disciplined calls) := by
  unfold Disciplined
  infer_instance

section

variable {calls cs ds : List (SocketId × Syscall)} {x : SocketId} {t : Transfer} {c : Syscall}

theorem disciplined_append : Disciplined (calls ++ cs) ↔ Disciplined calls ∧ Disciplined cs ∧
    ∀ p ∈ cs, (p.1, .close) ∉ calls := by
  rw [Disciplined, List.pairwise_append]
  refine and_congr_right' (and_congr_right' ⟨fun h p hp hmem => ?_, fun h p hp q hq hc heq => ?_⟩)
  · exact h _ hmem p hp rfl rfl
  · refine h q hq ?_
    rw [heq, ← hc]
    exact hp

theorem disciplined_of_forall (h : ∀ p ∈ cs, p.2 ≠ .close) : Disciplined cs :=
  List.pairwise_iff_forall_sublist.2 fun hsub hclose =>
    absurd hclose (h _ (hsub.subset List.mem_cons_self))

/-- The calls of the transfer, by the object `x`. -/
def callsOf (x : SocketId) (t : Transfer) : List (SocketId × Syscall) := t.calls.map fun c => (x, c)

theorem mem_callsOf {p : SocketId × Syscall} (h : p ∈ callsOf x t) : p.1 = x := by
  obtain ⟨c, -, rfl⟩ := List.mem_map.1 h
  rfl

/-- A transfer closes the descriptor only when it fails, and then at the end. -/
theorem disciplined_callsOf (hc : c ≠ .close) (h : Socket.IsTransfer c t) :
    Disciplined (callsOf x t) ∧ (t.ok = true → (x, .close) ∉ callsOf x t) := by
  obtain ⟨n, hn⟩ := h
  have hrep : ∀ p ∈ (List.replicate n c).map fun c => (x, c), p.2 ≠ .close := by
    intro p hp
    obtain ⟨c', hc', rfl⟩ := List.mem_map.1 hp
    rw [List.eq_of_mem_replicate hc']
    exact hc
  have hfirst : Disciplined ((List.replicate n c).map fun c => (x, c)) := disciplined_of_forall hrep
  rw [callsOf, hn, List.map_append]
  constructor
  · refine disciplined_append.2 ⟨hfirst, ?_, fun p hp hmem => hrep _ hmem rfl⟩
    cases t.ok <;> simp [Disciplined, Socket.close]
  · intro hok hmem
    rw [if_pos hok, List.map_nil, List.append_nil] at hmem
    exact hrep _ hmem rfl

end

/-! ### The objects that may be used -/

/-- The stub has not obtained its descriptor yet, or it is in its map with an open
    socket. -/
def LaptopFactory.Usable (f : LaptopFactory) : SocketId → Prop
  | .engineer _ => False
  | .acceptor a => f.scoutAcceptorStubInit = false ∨ open? f.scoutAcceptorStub a
  | .learner a => f.commanderLearnerStubInit = false ∨ open? f.commanderLearnerStub a

/-- The calls of a step are disciplined and on objects that may be used, and
    those that may be used afterwards have not been closed by them. -/
structure Proper (before after : SocketId → Prop) (cs : List (SocketId × Syscall)) : Prop where
  disciplined : Disciplined cs
  usable : ∀ p ∈ cs, before p.1
  kept : ∀ x, after x → before x ∧ (x, .close) ∉ cs

/-- The ids that the loops still have to visit are in their map, each once. -/
def ScoutPc.Visits (f : LaptopFactory) : ScoutPc → Prop
  | .p1a _ _ iter | .p2a _ _ iter => iter.Nodup ∧ ∀ a ∈ iter, a ∈ f.scoutAcceptorStub
  | .p1b _ _ a iter | .p2b _ _ a iter =>
    (a :: iter).Nodup ∧ ∀ b ∈ a :: iter, b ∈ f.scoutAcceptorStub
  | .learn _ _ iter => iter.Nodup ∧ ∀ a ∈ iter, a ∈ f.commanderLearnerStub
  | _ => True

/-- The stubs in the maps are open, and the maps are empty before they are connected. -/
structure Connected (f : LaptopFactory) (pc : ScoutPc) : Prop where
  acceptor : ∀ a ∈ f.scoutAcceptorStub, open? f.scoutAcceptorStub a
  learner : ∀ a ∈ f.commanderLearnerStub, open? f.commanderLearnerStub a
  noAcceptor : f.scoutAcceptorStubInit = false → ∀ a, a ∉ f.scoutAcceptorStub
  noLearner : f.commanderLearnerStubInit = false → ∀ a, a ∉ f.commanderLearnerStub
  visits : pc.Visits f

/-- The stubs are the same. -/
structure SameStubs (f f' : LaptopFactory) : Prop where
  scoutInit : f'.scoutAcceptorStubInit = f.scoutAcceptorStubInit
  commanderInit : f'.commanderLearnerStubInit = f.commanderLearnerStubInit
  scout : f'.scoutAcceptorStub = f.scoutAcceptorStub
  commander : f'.commanderLearnerStub = f.commanderLearnerStub

/-- In a step of the Scout, the failures that leave a closed stub in its map do not
    happen: those of `Identify` and of the receives. -/
def ScoutPc.Harmless (f : LaptopFactory) (env : Env) (answers : ℤ → Answers) : ScoutPc → Prop
  | .connect _ => f.scoutAcceptorStubInit = false →
      ∀ a ∈ f.acceptorMap.keys, a ∉ env.refused → ∀ n ∈ (answers a).send, 0 ≤ n
  | .command _ _ => f.commanderLearnerStubInit = false →
      ∀ a ∈ f.acceptorMap.keys, a ∉ env.refused → ∀ n ∈ (answers a).send, 0 ≤ n
  | .p1b _ _ a _ | .p2b _ _ a _ => [] ∉ (answers a).recv
  | _ => True

instance (f : LaptopFactory) (env : Env) (answers : ℤ → Answers) (pc : ScoutPc) :
    Decidable (pc.Harmless f env answers) := by
  unfold ScoutPc.Harmless
  split <;> infer_instance

section

variable {o : ByteOrder} {id : ℤ} {f f' : LaptopFactory} {env : Env} {answers : ℤ → Answers}
  {pc pc' : ScoutPc} {io : ScoutIo} {r : Effect} {a : ℤ} {stubs others : StdMap ℤ ClientStub}
  {mk other : ℤ → SocketId} {msg : PaxosMsg} {role : ℤ} {keys : List ℤ}

theorem open?_connectStubs (f : LaptopFactory) (stubs : StdMap ℤ ClientStub) (env : Env)
    (hd : env.dropped = []) (hopen : ∀ a ∈ stubs, open? stubs a) :
    ∀ a ∈ f.connectStubs stubs env, open? (f.connectStubs stubs env) a := by
  rw [connectStubs]
  generalize f.acceptorMap.keys = keys
  induction keys generalizing stubs with
  | nil => exact hopen
  | cons b keys ih =>
    rw [List.foldl_cons]
    refine ih _ fun a ha => ?_
    rw [hd] at ha ⊢
    split_ifs at ha ⊢
    · rw [StdMap.mem_erase] at ha
      rw [open?, StdMap.find?_erase, if_neg ha.1]
      exact hopen a ha.2
    · rw [open?, StdMap.find?_insert]
      split_ifs with hab
      · exact congrArg some (congrArg _ (decide_eq_true List.not_mem_nil))
      · exact hopen a ((StdMap.mem_insert.1 ha).resolve_left hab)

theorem visits_keys (m : StdMap ℤ ClientStub) : m.keys.Nodup ∧ ∀ a ∈ m.keys, a ∈ m :=
  ⟨m.keys_nodup, fun _ => StdMap.mem_keys.1⟩

theorem visits_erase {a : ℤ} {iter : List ℤ} {m : StdMap ℤ ClientStub}
    (h : (a :: iter).Nodup ∧ ∀ b ∈ a :: iter, b ∈ m) : iter.Nodup ∧ ∀ b ∈ iter, b ∈ m.erase a := by
  obtain ⟨hnd, hmem⟩ := h
  obtain ⟨ha, hnd⟩ := List.nodup_cons.1 hnd
  refine ⟨hnd, fun b hb => StdMap.mem_erase.2 ⟨?_, hmem b (List.mem_cons_of_mem _ hb)⟩⟩
  rintro rfl
  exact ha hb

theorem visits_tail {a : ℤ} {iter : List ℤ} {m : StdMap ℤ ClientStub}
    (h : (a :: iter).Nodup ∧ ∀ b ∈ a :: iter, b ∈ m) : iter.Nodup ∧ ∀ b ∈ iter, b ∈ m :=
  ⟨(List.nodup_cons.1 h.1).2, (List.forall_mem_cons.1 h.2).2⟩

/-! ### What the Scout does on its stubs -/

theorem sendIo_cases (h : sendIo o mk other stubs others answers a msg = some io) :
    (open? stubs a ∧ io.alive = true ∧ ∃ t, t.ok = true ∧ Socket.IsTransfer .send t ∧
      io.calls = callsOf (mk a) t) ∨
    (io.alive = false ∧ ∃ t, Socket.IsTransfer .send t ∧
      io.calls = callsOf (mk a) t ++
        callsOf (other a) { calls := Socket.destroy (open? others a) }) := by
  obtain ⟨t, ht, h⟩ := Option.bind_eq_some_iff.1 h
  have hcalls := Socket.isTransfer_send ht
  split_ifs at h with hok hopen
  · cases h
    exact .inl ⟨hopen, rfl, t, hok, hcalls, List.append_nil _⟩
  · cases h
    refine .inr ⟨rfl, t, hcalls, ?_⟩
    rw [ScoutIo.calls, List.flatMap_cons, List.flatMap_cons, List.flatMap_nil, List.append_nil]
    rfl

theorem calls_of_receiveIo (h : receiveIo o answers a = some io) (hn : [] ∉ (answers a).recv) :
    io.alive = true ∧ ∃ t, t.ok = true ∧ Socket.IsTransfer .recv t ∧
      io.calls = callsOf (.acceptor a) t := by
  obtain ⟨t, ht, h⟩ := Option.bind_eq_some_iff.1 h
  have hok := Socket.ok_of_recv ht hn
  rw [if_pos hok] at h
  obtain ⟨p, -, rfl⟩ := Option.map_eq_some_iff.1 h
  exact ⟨rfl, t, hok, Socket.isTransfer_recv ht, List.append_nil _⟩

theorem calls_of_identifyAll {ts : List (ℤ × Transfer)}
    (h : identifyAll o role env answers keys = some ts)
    (hn : ∀ a ∈ keys, a ∉ env.refused → ∀ n ∈ (answers a).send, 0 ≤ n) :
    ∀ p ∈ ts, p.2.ok = true ∧ Socket.IsTransfer .send p.2 := by
  induction keys generalizing ts with
  | nil =>
    cases h
    exact fun p hp => absurd hp List.not_mem_nil
  | cons a keys ih =>
    obtain ⟨hna, hn⟩ := List.forall_mem_cons.1 hn
    rw [identifyAll] at h
    split_ifs at h with hr
    · exact ih h hn
    · obtain ⟨t, ht, h⟩ := Option.bind_eq_some_iff.1 h
      obtain ⟨ts, hts, rfl⟩ := Option.map_eq_some_iff.1 h
      exact List.forall_mem_cons.2
        ⟨⟨Socket.ok_of_send ht (hna hr), Socket.isTransfer_send ht⟩, ih hts hn⟩

theorem calls_of_connectIo (h : connectIo o mk role env answers keys = some io)
    (hn : ∀ a ∈ keys, a ∉ env.refused → ∀ n ∈ (answers a).send, 0 ≤ n) :
    io.dropped = [] ∧ ∀ p ∈ io.calls, p.2 ≠ .close ∧ ∃ a, p.1 = mk a := by
  obtain ⟨ts, hts, rfl⟩ := Option.map_eq_some_iff.1 h
  have hall := calls_of_identifyAll hts hn
  constructor
  · refine List.map_eq_nil_iff.2 (List.filter_eq_nil_iff.2 fun p hp => ?_)
    simp [(hall p hp).1]
  · intro p hp
    obtain ⟨_, hq, hp⟩ := List.mem_flatMap.1 hp
    obtain ⟨q, hmem, rfl⟩ := List.mem_map.1 hq
    obtain ⟨hok, htr⟩ := hall q hmem
    have hmk : p.1 = mk q.1 := mem_callsOf hp
    refine ⟨fun hclose => ?_, q.1, hmk⟩
    have hcall : (p.1, p.2) ∈ callsOf (mk q.1) q.2 := hp
    rw [hmk, hclose] at hcall
    exact (disciplined_callsOf (by decide) htr).2 hok hcall

/-! ### Steps of the Scout -/

theorem SameStubs.usable (h : SameStubs f f') (x : SocketId) : f'.Usable x ↔ f.Usable x := by
  cases x with
  | engineer => rfl
  | acceptor => rw [Usable, Usable, h.scoutInit, h.scout]
  | learner => rw [Usable, Usable, h.commanderInit, h.commander]

theorem SameStubs.visits (h : SameStubs f f') (hv : pc.Visits f) : pc.Visits f' := by
  cases pc with
  | p1a | p1b | p2a | p2b => exact ⟨hv.1, h.scout ▸ hv.2⟩
  | learn => exact ⟨hv.1, h.commander ▸ hv.2⟩
  | _ => trivial

/-- A step that does not touch the stubs. -/
theorem Connected.same (h : Connected f pc) (hf : SameStubs f f') (hv : pc'.Visits f') :
    Connected f' pc' :=
  ⟨hf.scout ▸ h.acceptor, hf.commander ▸ h.learner,
    fun hi => hf.scout ▸ h.noAcceptor (hf.scoutInit ▸ hi), fun hi => hf.commander ▸ h.noLearner (hf.commanderInit ▸ hi), hv⟩

theorem Proper.nil {before after : SocketId → Prop} (h : ∀ x, after x → before x) :
    Proper before after [] :=
  ⟨.nil, fun _ hp => absurd hp List.not_mem_nil, fun x hx => ⟨h x hx, List.not_mem_nil⟩⟩

/-- A transfer that succeeds. -/
theorem Proper.ok {before after : SocketId → Prop} {x : SocketId} {t : Transfer} {c : Syscall}
    (hc : c ≠ .close) (ht : Socket.IsTransfer c t) (hok : t.ok = true) (hx : before x)
    (h : ∀ x, after x → before x) : Proper before after (callsOf x t) := by
  obtain ⟨hd, hno⟩ := disciplined_callsOf (x := x) hc ht
  refine ⟨hd, fun p hp => mem_callsOf hp ▸ hx, fun y hy => ⟨h y hy, fun hmem => ?_⟩⟩
  have hxy : y = x := mem_callsOf hmem
  exact hno hok (hxy ▸ hmem)

/-- A transfer that fails, after which the object and another are dropped. -/
theorem Proper.fail {before after : SocketId → Prop} {x y : SocketId} {t : Transfer} {c : Syscall}
    {isOpen : Bool} (hc : c ≠ .close) (ht : Socket.IsTransfer c t) (hxy : x ≠ y) (hx : before x)
    (hx' : ¬after x) (hy : isOpen = true → before y ∧ ¬after y) (h : ∀ x, after x → before x) :
    Proper before after (callsOf x t ++ callsOf y { calls := Socket.destroy isOpen }) := by
  obtain ⟨hd, -⟩ := disciplined_callsOf (x := x) hc ht
  have hdestroy : ∀ p ∈ callsOf y { calls := Socket.destroy isOpen }, isOpen = true := by
    intro p hp
    cases isOpen with
    | true => rfl
    | false => exact absurd hp List.not_mem_nil
  refine ⟨disciplined_append.2 ⟨hd, ?_, fun p hp hmem => ?_⟩, ?_,
    fun z hz => ⟨h z hz, fun hmem => ?_⟩⟩
  · cases isOpen <;> simp [Disciplined, callsOf, Socket.destroy, Socket.close]
  · have hpx := mem_callsOf hmem
    have hpy := mem_callsOf hp
    exact hxy (hpx.symm.trans hpy)
  · refine List.forall_mem_append.2 ⟨fun p hp => mem_callsOf hp ▸ hx, fun p hp => ?_⟩
    rw [mem_callsOf hp]
    exact (hy (hdestroy p hp)).1
  · rcases List.mem_append.1 hmem with hmem | hmem
    · exact hx' (mem_callsOf hmem ▸ hz)
    · exact (hy (hdestroy _ hmem)).2 (mem_callsOf hmem ▸ hz)

theorem usable_of_eraseStubs (x : SocketId) (h : (f.eraseStubs a).Usable x) : f.Usable x := by
  cases x with
  | engineer => exact h
  | acceptor b => exact h.imp_right fun ho => (open?_erase ho).2
  | learner b => exact h.imp_right fun ho => (open?_erase ho).2

theorem Connected.erase (h : Connected f pc) (hv : pc'.Visits (f.eraseStubs a)) :
    Connected (f.eraseStubs a) pc' := by
  have hopen : ∀ {stubs : StdMap ℤ ClientStub}, (∀ b ∈ stubs, open? stubs b) →
      ∀ b ∈ stubs.erase a, open? (stubs.erase a) b := by
    intro stubs hs b hb
    rw [StdMap.mem_erase] at hb
    rw [open?, StdMap.find?_erase, if_neg hb.1]
    exact hs b hb.2
  exact ⟨hopen h.acceptor, hopen h.learner,
    fun hi b hb => h.noAcceptor hi b (StdMap.mem_erase.1 hb).2, fun hi b hb => h.noLearner hi b (StdMap.mem_erase.1 hb).2, hv⟩

/-- Once it is erased, a stub is not usable. -/
theorem Connected.not_usable_acceptor (h : Connected f pc) (ha : a ∈ f.scoutAcceptorStub) :
    ¬(f.eraseStubs a).Usable (.acceptor a) := by
  rintro (hi | ho)
  · exact h.noAcceptor hi a ha
  · exact (open?_erase ho).1 rfl

theorem Connected.not_usable_learner (h : Connected f pc) (ha : a ∈ f.commanderLearnerStub) :
    ¬(f.eraseStubs a).Usable (.learner a) := by
  rintro (hi | ho)
  · exact h.noLearner hi a ha
  · exact (open?_erase ho).1 rfl

/-- A send of the Scout on one of its stubs; after a failure both stubs of `a` are dropped. -/
theorem proper_sendIo (hio : sendIo o mk other stubs others answers a msg = some io)
    (hne : mk a ≠ other a) (hx : f.Usable (mk a)) (hx' : ¬(f.eraseStubs a).Usable (mk a))
    (hy : open? others a → f.Usable (other a) ∧ ¬(f.eraseStubs a).Usable (other a)) :
    (io.alive = true ∧ open? stubs a ∧ Proper f.Usable f.Usable io.calls) ∨
      (io.alive = false ∧ Proper f.Usable (f.eraseStubs a).Usable io.calls) := by
  rcases sendIo_cases hio with ⟨hopen, halive, t, hok, ht, hcs⟩ | ⟨halive, t, ht, hcs⟩
  · rw [hcs]
    exact .inl ⟨halive, hopen, .ok (by decide) ht hok hx fun _ => id⟩
  · rw [hcs]
    exact .inr ⟨halive, .fail (by decide) ht hne hx hx' (fun ho => hy (of_decide_eq_true ho))
      usable_of_eraseStubs⟩

theorem Connected.sendAcceptor (h : Connected f pc) (ha : a ∈ f.scoutAcceptorStub)
    (hio : sendIo o .acceptor .learner f.scoutAcceptorStub f.commanderLearnerStub answers a msg =
      some io) :
    (io.alive = true ∧ open? f.scoutAcceptorStub a ∧ Proper f.Usable f.Usable io.calls) ∨
      (io.alive = false ∧ Proper f.Usable (f.eraseStubs a).Usable io.calls) :=
  proper_sendIo hio SocketId.noConfusion (.inr (h.acceptor a ha)) (h.not_usable_acceptor ha)
    fun ho => ⟨.inr ho, h.not_usable_learner (mem_of_open? ho)⟩

theorem Connected.sendLearner (h : Connected f pc) (ha : a ∈ f.commanderLearnerStub)
    (hio : sendIo o .learner .acceptor f.commanderLearnerStub f.scoutAcceptorStub answers a msg =
      some io) :
    (io.alive = true ∧ open? f.commanderLearnerStub a ∧ Proper f.Usable f.Usable io.calls) ∨
      (io.alive = false ∧ Proper f.Usable (f.eraseStubs a).Usable io.calls) :=
  proper_sendIo hio SocketId.noConfusion (.inr (h.learner a ha)) (h.not_usable_learner ha)
    fun ho => ⟨.inr ho, h.not_usable_acceptor (mem_of_open? ho)⟩

/-- A receive of the Scout that does not fail. -/
theorem Connected.receive (h : Connected f pc) (ha : a ∈ f.scoutAcceptorStub)
    (hio : receiveIo o answers a = some io) (hn : [] ∉ (answers a).recv) :
    io.alive = true ∧ Proper f.Usable f.Usable io.calls := by
  obtain ⟨halive, t, hok, ht, hcs⟩ := calls_of_receiveIo hio hn
  rw [hcs]
  exact ⟨halive, .ok (by decide) ht hok (.inr (h.acceptor a ha)) fun _ => id⟩

/-- A step of the Scout without calls that leaves the stubs alone. -/
theorem Connected.quiet (h : Connected f pc) (hio : some {} = some io) (hf : SameStubs f r.factory)
    (hv : r.pc.Visits r.factory) :
    Connected r.factory r.pc ∧ Proper f.Usable r.factory.Usable io.calls := by
  cases hio
  exact ⟨h.same hf hv, .nil fun x => (hf.usable x).1⟩

/-- The sends of the identity, none of which fails. -/
theorem Proper.identify {before after : SocketId → Prop}
    (hcs : ∀ p ∈ io.calls, p.2 ≠ .close ∧ ∃ a, p.1 = mk a) (hmk : ∀ a, before (mk a))
    (h : ∀ x, after x → before x) : Proper before after io.calls := by
  refine ⟨disciplined_of_forall fun p hp => (hcs p hp).1, fun p hp => ?_,
    fun x hx => ⟨h x hx, fun hmem => (hcs _ hmem).1 rfl⟩⟩
  obtain ⟨a, ha⟩ := (hcs p hp).2
  rw [ha]
  exact hmk a

/-- The Scout connects its stubs, if they are not there yet. -/
theorem Connected.scoutConnect (h : Connected f pc) {laptop : LaptopInfo}
    (hio : scoutIo o f env answers (.connect laptop) = some io)
    (hharm : (ScoutPc.connect laptop).Harmless f env answers) :
    Connected (scoutConnect f laptop (io.env env)).factory
        (scoutConnect f laptop (io.env env)).pc ∧
      Proper f.Usable (scoutConnect f laptop (io.env env)).factory.Usable io.calls := by
  by_cases hi : f.scoutAcceptorStubInit = true
  · rw [scoutIo, if_pos hi] at hio
    rw [LaptopPaxos.scoutConnect, if_pos hi]
    exact h.quiet (r := { factory := _, pc := _ }) hio ⟨rfl, rfl, rfl, rfl⟩ (visits_keys _)
  · rw [scoutIo, if_neg hi] at hio
    rw [Bool.not_eq_true] at hi
    obtain ⟨hd, hcs⟩ := calls_of_connectIo hio (hharm hi)
    have hopen := open?_connectStubs f f.scoutAcceptorStub (io.env env) hd h.acceptor
    rw [LaptopPaxos.scoutConnect, if_neg fun ht => Bool.noConfusion (hi.symm.trans ht)]
    refine ⟨⟨hopen, h.learner, fun ht => Bool.noConfusion ht, h.noLearner, visits_keys _⟩,
      .identify hcs (fun _ => .inl hi) fun x hx => ?_⟩
    cases x with
    | engineer => exact hx
    | acceptor => exact .inl hi
    | learner => exact hx

/-- The Commander connects its stubs, if they are not there yet. -/
theorem Connected.commanderConnect (h : Connected f pc) {laptop : LaptopInfo} {cmd : Command}
    (hio : scoutIo o f env answers (.command laptop cmd) = some io)
    (hharm : (ScoutPc.command laptop cmd).Harmless f env answers) :
    Connected (commanderConnect f laptop cmd (io.env env)).factory
        (commanderConnect f laptop cmd (io.env env)).pc ∧
      Proper f.Usable (commanderConnect f laptop cmd (io.env env)).factory.Usable io.calls := by
  by_cases hi : f.commanderLearnerStubInit = true
  · rw [scoutIo, if_pos hi] at hio
    rw [LaptopPaxos.commanderConnect, if_pos hi]
    exact h.quiet (r := { factory := _, pc := _ }) hio ⟨rfl, rfl, rfl, rfl⟩ (visits_keys _)
  · rw [scoutIo, if_neg hi] at hio
    rw [Bool.not_eq_true] at hi
    obtain ⟨hd, hcs⟩ := calls_of_connectIo hio (hharm hi)
    have hopen := open?_connectStubs f f.commanderLearnerStub (io.env env) hd h.learner
    rw [LaptopPaxos.commanderConnect, if_neg fun ht => Bool.noConfusion (hi.symm.trans ht)]
    refine ⟨⟨h.acceptor, hopen, h.noAcceptor, fun ht => Bool.noConfusion ht, visits_keys _⟩,
      .identify hcs (fun _ => .inl hi) fun x hx => ?_⟩
    cases x with
    | engineer => exact hx
    | acceptor => exact hx
    | learner => exact .inl hi

theorem Connected.scout (h : Connected f pc) (hio : scoutIo o f env answers pc = some io)
    (hst : scoutStep id f io.inbox (io.env env) pc = some r) (hharm : pc.Harmless f env answers) :
    Connected r.factory r.pc ∧ Proper f.Usable r.factory.Usable io.calls := by
  cases pc with
  | idle =>
    cases scoutStep_cases hst with
    | dequeue => exact h.quiet hio ⟨rfl, rfl, rfl, rfl⟩ trivial
  | connect laptop =>
    cases hst
    exact h.scoutConnect hio hharm
  | p1a laptop l iter =>
    cases iter with
    | nil =>
      cases scoutStep_cases hst with
      | giveUp => exact h.quiet hio ⟨rfl, rfl, rfl, rfl⟩ trivial
      | retry => exact h.quiet hio ⟨rfl, rfl, rfl, rfl⟩ (visits_keys _)
      | leave => exact h.quiet hio ⟨rfl, rfl, rfl, rfl⟩ trivial
    | cons a iter =>
      cases hst
      rcases h.sendAcceptor (List.forall_mem_cons.1 h.visits.2).1 hio with
        ⟨halive, hopen, hcs⟩ | ⟨halive, hcs⟩
      · rw [sendP1a, if_pos ⟨halive, hopen⟩]
        exact ⟨h.same ⟨rfl, rfl, rfl, rfl⟩ h.visits, hcs⟩
      · rw [sendP1a, if_neg fun ha => Bool.noConfusion (halive.symm.trans ha.1)]
        exact ⟨h.erase (visits_erase h.visits), hcs⟩
  | p1b laptop l a iter =>
    obtain ⟨halive, hcs⟩ := h.receive (List.forall_mem_cons.1 h.visits.2).1 hio hharm
    rw [scoutStep, receiveP1b, if_pos (show (io.env env).alive = true from halive)] at hst
    obtain ⟨m, -, rfl⟩ := Option.map_eq_some_iff.1 hst
    exact ⟨h.same ⟨rfl, rfl, rfl, rfl⟩ (visits_tail h.visits), hcs⟩
  | propose laptop l =>
    cases scoutStep_cases hst with
    | chooseOwn => exact h.quiet hio ⟨rfl, rfl, rfl, rfl⟩ trivial
    | chooseOther => exact h.quiet hio ⟨rfl, rfl, rfl, rfl⟩ (visits_keys _)
  | pickSlot laptop l =>
    cases scoutStep_cases hst with
    | pickSlot => exact h.quiet hio ⟨rfl, rfl, rfl, rfl⟩ (visits_keys _)
  | p2a laptop ph iter =>
    cases iter with
    | nil =>
      cases scoutStep_cases hst with
      | accept => exact h.quiet hio ⟨rfl, rfl, rfl, rfl⟩ trivial
      | restart => exact h.quiet hio ⟨rfl, rfl, rfl, rfl⟩ (visits_keys _)
      | tooFew => exact h.quiet hio ⟨rfl, rfl, rfl, rfl⟩ trivial
      | drop => exact h.quiet hio ⟨rfl, rfl, rfl, rfl⟩ trivial
    | cons a iter =>
      cases hst
      rcases h.sendAcceptor (List.forall_mem_cons.1 h.visits.2).1 hio with
        ⟨halive, hopen, hcs⟩ | ⟨halive, hcs⟩
      · rw [sendP2a, if_pos ⟨halive, hopen⟩]
        exact ⟨h.same ⟨rfl, rfl, rfl, rfl⟩ h.visits, hcs⟩
      · rw [sendP2a, if_neg fun ha => Bool.noConfusion (halive.symm.trans ha.1)]
        exact ⟨h.erase (visits_erase h.visits), hcs⟩
  | p2b laptop ph a iter =>
    obtain ⟨halive, hcs⟩ := h.receive (List.forall_mem_cons.1 h.visits.2).1 hio hharm
    rw [scoutStep, receiveP2b, if_pos (show (io.env env).alive = true from halive)] at hst
    obtain ⟨m, -, rfl⟩ := Option.map_eq_some_iff.1 hst
    exact ⟨h.same ⟨rfl, rfl, rfl, rfl⟩ (visits_tail h.visits), hcs⟩
  | command laptop cmd =>
    cases hst
    exact h.commanderConnect hio hharm
  | learn laptop cmd iter =>
    cases iter with
    | nil =>
      cases scoutStep_cases hst with
      | endLearn => exact h.quiet hio ⟨rfl, rfl, rfl, rfl⟩ trivial
    | cons a iter =>
      cases hst
      rcases h.sendLearner (List.forall_mem_cons.1 h.visits.2).1 hio with
        ⟨halive, hopen, hcs⟩ | ⟨halive, hcs⟩
      · rw [sendLearn, if_pos ⟨halive, hopen⟩]
        exact ⟨h.same ⟨rfl, rfl, rfl, rfl⟩ (visits_tail h.visits), hcs⟩
      · rw [sendLearn, if_neg fun ha => Bool.noConfusion (halive.symm.trans ha.1)]
        exact ⟨h.erase (visits_erase h.visits), hcs⟩
  | record laptop =>
    cases scoutStep_cases hst with
    | record => exact h.quiet hio ⟨rfl, rfl, rfl, rfl⟩ trivial

end

/-! ### Engineers -/

section

variable {o : ByteOrder} {e : ℤ} {f f' : LaptopFactory} {fut : Option LaptopInfo}
  {answers : Answers} {g : Engineer} {r : EngineerEffect} {pc : SessionPc}
  {buffer? : Option (List UInt8)}

theorem SameStubs.refl (f : LaptopFactory) : SameStubs f f := ⟨rfl, rfl, rfl, rfl⟩

theorem customerEngineer_stubs (f : LaptopFactory) (e : ℤ) (request : CustomerRequest) :
    SameStubs f (f.customerEngineer e request).1 := by
  rw [customerEngineer]
  split_ifs <;> exact ⟨rfl, rfl, rfl, rfl⟩

theorem backupEngineer_stubs {logReq : LogRequest} (h : f.backupEngineer logReq = some f') :
    SameStubs f f' := by
  simp only [backupEngineer] at h
  split_ifs at h
  · obtain ⟨op, -, rfl⟩ := Option.map_eq_some_iff.1 h
    exact ⟨rfl, rfl, rfl, rfl⟩
  · cases h
    exact ⟨rfl, rfl, rfl, rfl⟩
  · cases h
    exact ⟨rfl, rfl, rfl, rfl⟩

theorem acceptorEngineer_stubs (f : LaptopFactory) (msg : PaxosMsg) :
    SameStubs f (f.acceptorEngineer msg).1 := by
  have h := acceptorEngineer_cases f msg
  generalize (f.acceptorEngineer msg).1 = f', (f.acceptorEngineer msg).2 = reply at h
  cases h <;> exact ⟨rfl, rfl, rfl, rfl⟩

theorem learnerEngineer_stubs (f : LaptopFactory) (msg : PaxosMsg) :
    SameStubs f (f.learnerEngineer msg) := by
  rw [learnerEngineer]
  split_ifs
  · obtain ⟨s, l, h⟩ := learn_eq f msg.getCommand
    rw [h]
    exact ⟨rfl, rfl, rfl, rfl⟩
  · exact .refl f

/-- The engineers do not touch the stubs. -/
theorem received_stubs (o : ByteOrder) (e : ℤ) (f : LaptopFactory) (buffer? : Option (List UInt8))
    (pc : SessionPc) : SameStubs f (received o e f buffer? pc).1 :=
  received_factory (.refl f) (customerEngineer_stubs f e) (fun _ _ => backupEngineer_stubs)
    (acceptorEngineer_stubs f) (learnerEngineer_stubs f)

theorem EngineerStep.stubs (h : EngineerStep o e f fut answers g r) : SameStubs f r.factory := by
  cases h with
  | recv => exact received_stubs o e f _ _
  | _ => exact .refl f

/-- An engineer with a closed socket does nothing but leave. -/
def Engineer.Settled (g : Engineer) : Prop :=
  g.isInitialized = false → g.pc = .leave ∨ g.pc = .gone

/-- The calls of a step of an engineer. -/
structure EngineerCalls (x : SocketId) (g g' : Engineer) (cs : List (SocketId × Syscall)) :
    Prop where
  settled : g'.Settled
  disciplined : Disciplined cs
  own : ∀ p ∈ cs, p.1 = x ∧ g.isInitialized = true
  kept : g'.isInitialized = true → g.isInitialized = true ∧ (x, .close) ∉ cs

theorem EngineerStep.calls (h : EngineerStep o e f fut answers g r) (hg : g.Settled)
    (hharm : g.pc.wants = none → ∀ n ∈ answers.send, 0 ≤ n) (x : SocketId) :
    EngineerCalls x g r.engineer (callsOf x r.transfer) := by
  have hopen : g.pc ≠ .leave → g.pc ≠ .gone → g.isInitialized = true := by
    intro h₁ h₂
    by_contra hi
    exact (hg (Bool.not_eq_true _ ▸ hi)).elim h₁ h₂
  cases h with
  | @send buffer size t hout ht =>
    have hwants := SessionPc.wants_of_outgoing hout
    have hi : g.isInitialized = true :=
      hopen (fun hpc => by rw [hpc] at hout; cases hout) fun hpc => by rw [hpc] at hout; cases hout
    have hok := Socket.ok_of_send ht (hharm hwants)
    obtain ⟨hd, hno⟩ := disciplined_callsOf (x := x) (by decide) (Socket.isTransfer_send ht)
    refine ⟨fun hi' => ?_, hd, fun p hp => ⟨mem_callsOf hp, hi⟩, fun _ => ⟨hi, hno hok⟩⟩
    rw [hi, hok] at hi'
    cases hi'
  | @recv size t hwants ht =>
    have hi : g.isInitialized = true :=
      hopen (fun hpc => by rw [hpc] at hwants; cases hwants)
        fun hpc => by rw [hpc] at hwants; cases hwants
    obtain ⟨hd, hno⟩ := disciplined_callsOf (x := x) (by decide) (Socket.isTransfer_recv ht)
    refine ⟨fun hi' => .inl ?_, hd, fun p hp => ⟨mem_callsOf hp, hi⟩, fun hi' => ⟨hi, hno ?_⟩⟩
    · have hok : t.ok = false := by
        rw [hi] at hi'
        exact hi'
      change (received o e f (if t.ok = true then some t.bytes else none) g.pc).2 = _
      rw [hok, if_neg nofun, received_none (by rw [hwants]; nofun)]
    · exact (Bool.and_eq_true_iff.1 hi').2
  | @wake laptop hpc =>
    have hi : g.isInitialized = true := hopen (by rw [hpc]; nofun) (by rw [hpc]; nofun)
    exact ⟨fun hi' => Bool.noConfusion (hi.symm.trans hi'), .nil,
      fun p hp => absurd hp List.not_mem_nil, fun _ => ⟨hi, List.not_mem_nil⟩⟩
  | leave hpc =>
    refine ⟨fun _ => .inr rfl, ?_, fun p hp => ⟨mem_callsOf hp, ?_⟩, nofun⟩
    · change Disciplined (callsOf x { calls := Socket.destroy g.isInitialized })
      cases g.isInitialized <;> simp [Disciplined, callsOf, Socket.destroy, Socket.close]
    · by_contra hi
      rw [Bool.not_eq_true] at hi
      change p ∈ callsOf x { calls := Socket.destroy g.isInitialized } at hp
      rw [hi] at hp
      cases hp

end

/-! ### A server -/

/-- The socket object may still be used. -/
def Process.Usable (s : Process) : SocketId → Prop
  | .engineer e => (s.engineer e).isInitialized = true
  | x => s.factory.Usable x

/-- The failures that leave a closed socket in use do not happen in a step: those
    of the Scout's receives, of `Identify`, and of the sends of an engineer. -/
def Process.Harmless (s : Process) : ProcessAction → Prop
  | .engineer e answers => (s.engineer e).pc.wants = none → ∀ n ∈ answers.send, 0 ≤ n
  | .scout env answers => s.scout.Harmless s.factory env answers

instance (s : Process) : (act : ProcessAction) → Decidable (s.Harmless act)
  | .engineer e answers =>
    inferInstanceAs (Decidable ((s.engineer e).pc.wants = none → ∀ n ∈ answers.send, 0 ≤ n))
  | .scout env answers => inferInstanceAs (Decidable (s.scout.Harmless s.factory env answers))

/-- The sockets of a server are in order. -/
structure Tidy (s : Process) : Prop where
  disciplined : Disciplined s.calls
  usable : ∀ x, s.Usable x → (x, .close) ∉ s.calls
  connected : Connected s.factory s.scout
  engineer : ∀ e, (s.engineer e).Settled

section

variable {o : ByteOrder} {id i : ℤ} {s s' : Process} {act : ProcessAction} {D : Deployment}

/-- After a step with proper calls, no object that may still be used is closed. -/
theorem Tidy.append (hs : Tidy s) {after : SocketId → Prop} {cs : List (SocketId × Syscall)}
    (h : Proper s.Usable after cs) :
    Disciplined (s.calls ++ cs) ∧ ∀ x, after x → (x, .close) ∉ s.calls ++ cs := by
  refine ⟨disciplined_append.2 ⟨hs.disciplined, h.disciplined, fun p hp => ?_⟩, fun x hx hmem => ?_⟩
  · exact hs.usable p.1 (h.usable p hp)
  · obtain ⟨hx, hno⟩ := h.kept x hx
    exact (List.mem_append.1 hmem).elim (hs.usable x hx) hno

theorem Tidy.step (hs : Tidy s) (hharm : s.Harmless act) (h : ProcessStep o id s act s') :
    Tidy s' := by
  cases h with
  | @engineer e answers r hr =>
    have hcalls := hr.calls (hs.engineer e) hharm (.engineer e)
    have hproper : Proper s.Usable (s.applyEngineer e r).Usable
        (callsOf (.engineer e) r.transfer) := by
      refine ⟨hcalls.disciplined, fun p hp => ?_, fun x hx => ?_⟩
      · obtain ⟨hpx, hi⟩ := hcalls.own p hp
        rw [hpx]
        exact hi
      · cases x with
        | engineer j =>
          have hi : (Function.update s.engineer e r.engineer j).isInitialized = true := hx
          rw [Function.update_apply] at hi
          split_ifs at hi with hj
          · rw [hj]
            exact hcalls.kept hi
          · refine ⟨hi, fun hmem => hj ?_⟩
            have hje := mem_callsOf hmem
            exact SocketId.engineer.inj hje
        | acceptor a =>
          exact ⟨(hr.stubs.usable (.acceptor a)).1 hx, fun hmem => nomatch mem_callsOf hmem⟩
        | learner a =>
          exact ⟨(hr.stubs.usable (.learner a)).1 hx, fun hmem => nomatch mem_callsOf hmem⟩
    obtain ⟨hd, husable⟩ := hs.append hproper
    refine ⟨hd, husable, hs.connected.same hr.stubs (hr.stubs.visits hs.connected.visits),
      fun j => ?_⟩
    change (Function.update s.engineer e r.engineer j).Settled
    rw [Function.update_apply]
    split_ifs
    · exact hcalls.settled
    · exact hs.engineer j
  | @scout env answers io r hio hr =>
    obtain ⟨hconn, hcalls⟩ := hs.connected.scout hio hr hharm
    have hproper : Proper s.Usable (s.applyScout io r).Usable io.calls := by
      refine ⟨hcalls.disciplined, fun p hp => ?_, fun x hx => ?_⟩
      · have hp := hcalls.usable p hp
        revert hp
        cases p.1 with
        | engineer => exact False.elim
        | _ => exact fun h => h
      · cases x with
        | engineer j => exact ⟨hx, fun hmem => hcalls.usable _ hmem⟩
        | acceptor a => exact hcalls.kept (.acceptor a) hx
        | learner a => exact hcalls.kept (.learner a) hx
    obtain ⟨hd, husable⟩ := hs.append hproper
    exact ⟨hd, husable, hconn, hs.engineer⟩

theorem tidy_of_reachBy (h : (process o D i).ReachBy Process.Harmless s) : Tidy s := by
  refine h.invariant ?_ fun s act s' _ hs hharm hst => hs.step hharm (processStep_cases hst)
  rintro _ rfl
  obtain ⟨m, c, hf, -⟩ := D.factory_eq i
  have hempty : ∀ (a : ℤ), a ∉ (StdMap.empty : StdMap ℤ ClientStub) := StdMap.not_mem_empty
  refine ⟨.nil, fun _ _ => List.not_mem_nil, ?_, fun _ => nofun⟩
  change Connected (D.factory i) .idle
  rw [hf]
  exact ⟨fun a ha => absurd ha (hempty a), fun a ha => absurd ha (hempty a), fun _ => hempty,
    fun _ => hempty, trivial⟩

/-- In the runs without those failures, no object makes a call on a descriptor
    that it has closed; in particular it closes it at most once. -/
theorem disciplined (h : (process o D i).ReachBy Process.Harmless s) : Disciplined s.calls :=
  (tidy_of_reachBy h).disciplined

end

/-! ### Small runs -/

namespace LostReply

/-- The customer of the engineer 0 of the server 1 places an order. -/
def order : List ProcessAction :=
  [.engineer 0 { recv := [[0, 0, 0, 0]] }, .engineer 0 { send := [4] },
    .engineer 0 { send := [25] }, .engineer 0 { recv := [(⟨7, 0, 1⟩ : CustomerRequest).marshal .little] }]

/-- The Scout takes the order, connects to its own acceptor, and sends a p1a message. -/
def ask : List ProcessAction :=
  [.scout {} fun _ => {}, .scout {} fun _ => { send := [4] }, .scout {} fun _ => { send := [51] }]

/-- The Scout sends a p1a message, which fails. -/
def askAgain : ProcessAction := .scout {} fun _ => { send := [-1] }

/-- The state in which a server is started. -/
def start : Process := { factory := (Deployment.numbered 1).factory 1 }

theorem reachBy_start (ok : Process → ProcessAction → Prop) :
    (process .little (.numbered 1) 1).ReachBy ok start := .init rfl

end LostReply

open LostReply

/-- A send of the Scout fails, and its stub is dropped. -/
theorem disciplined_send_fails : ∃ s,
    (process .little (.numbered 1) 1).ReachBy Process.Harmless s ∧
    (.acceptor 1, .close) ∈ s.calls ∧ Disciplined s.calls := by
  obtain ⟨s, hs, hmem⟩ := (reachBy_start Process.Harmless).exists_of_runBy
    (P := fun s => (.acceptor 1, .close) ∈ s.calls)
    (order ++ ask.take 2 ++ [askAgain]) (by decide +kernel)
  exact ⟨s, hs, hmem, disciplined hs⟩

/-- A receive of the Scout fails, and in the next round the Scout sends on the
    descriptor that it has closed, and closes it once more. -/
theorem not_disciplined : ∃ s, (process .little (.numbered 1) 1).Reachable s ∧
    ¬Disciplined s.calls ∧ s.calls.count (.acceptor 1, .close) = 2 := by
  obtain ⟨s, hs, hd, hcount⟩ := (reachBy_start fun _ _ => True).exists_of_runBy
    (P := fun s => ¬Disciplined s.calls ∧ s.calls.count (.acceptor 1, .close) = 2)
    (order ++ ask ++ [.scout {} fun _ => { recv := [[]] }, .scout {} fun _ => {}, askAgain])
    (by decide +kernel)
  exact ⟨s, hs, hd, hcount⟩

end LaptopPaxos
