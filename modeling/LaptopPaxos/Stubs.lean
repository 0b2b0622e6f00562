import LaptopPaxos.Ends

/-!
# The stubs of a Scout

A step of the Scout as one of its stubs sees it (`StubStep`): nothing, one
`Send` or one `Recv`. What is sent is planned for the session: the identity
when the connection is made, and after it plain Paxos messages, as long as those
that the Scout receives are plain (`ScoutStep.isPlain`).
-/

namespace LaptopPaxos

open LaptopFactory Reader

/-! ### Plain commands -/

section

variable {id : ℤ} {f : LaptopFactory} {inbox : ℤ → List PaxosMsg} {env : Env} {pc : ScoutPc}
  {e : Effect}

theorem isPlain_receive {l : Prepare} {a n : ℤ} {m : PaxosMsg} (hl : l.cmd.IsPlain)
    (hm : m.IsPlain) : (l.receive a n m).cmd.IsPlain := by
  simp only [Prepare.receive]
  split_ifs
  · exact hm
  · exact hl
  · exact hl

/-- The Scout works with plain commands if the acceptors send plain messages. -/
theorem ScoutStep.isPlain (h : ScoutStep id f inbox env pc e) (hpc : pc.IsPlain)
    (hin : ∀ a m rest, inbox a = m :: rest → m.IsPlain) : e.pc.IsPlain := by
  cases h with
  | connect =>
    rw [scoutConnect]
    exact rfl
  | command =>
    rw [commanderConnect]
    exact hpc
  | receiveP1b hm => exact isPlain_receive hpc (hin _ _ _ hm)
  | missP1b => exact isPlain_receive hpc rfl
  | receiveP2b hm =>
    change (Accept.receive _ _).cmd.IsPlain
    rw [Accept.cmd_receive]
    exact hpc
  | missP2b =>
    change (Accept.receive _ _).cmd.IsPlain
    rw [Accept.cmd_receive]
    exact hpc
  | pickSlot => exact rfl
  | restart => exact rfl
  | dequeue | giveUp | tooFew | drop | endLearn | record => trivial
  | _ => exact hpc

theorem ScoutStep.serverConfig (h : ScoutStep id f inbox env pc e) :
    e.factory.serverConfig = f.serverConfig := by
  cases h with
  | connect =>
    rw [scoutConnect]
    split_ifs <;> rfl
  | command =>
    rw [commanderConnect]
    split_ifs <;> rfl
  | _ => rfl

end

/-! ### One stub -/

/-- What the role of a stub is as an identity. -/
def SocketId.Identity : SocketId → Parcel → Prop
  | .engineer _, _ => False
  | .acceptor _, p => p = .word 2
  | .learner _, p => p = .word 3

/-- What is sent on a stub: the identity first, then plain messages. -/
structure ScoutPc.Plans (pc : ScoutPc) (x : SocketId) (p : Parcel) : Prop where
  first : pc.connects = true → x.Identity p
  later : pc.connects = false → ∃ m : PaxosMsg, p = .message (.paxosMsg m) ∧ m.IsPlain

/-- The stub that the Scout works on in a loop. -/
def ScoutPc.stub : ScoutPc → Option SocketId
  | .p1a _ _ (a :: _) | .p2a _ _ (a :: _) | .p1b _ _ a _ | .p2b _ _ a _ => some (.acceptor a)
  | .learn _ _ (a :: _) => some (.learner a)
  | _ => none

/-- A step of the Scout, as the stub `x` sees it. -/
inductive StubStep (o : ByteOrder) (f f' : LaptopFactory) (pc : ScoutPc) (io : ScoutIo)
    (x : SocketId) : Prop
  | idle : (io.transfers.lookup x).bind (pc.use f x) = none →
      (f'.isOpen x = true → f.isOpen x = true) → StubStep o f f' pc io x
  | send {p t} : io.transfers.lookup x = some t → pc.use f x t = some (.send p t) →
      t.bytes <+: p.marshal o → (t.ok = true → t.bytes = p.marshal o) → pc.Plans x p →
      (f'.isOpen x = true → ((pc.connects || f.isOpen x) && t.ok) = true) →
      StubStep o f f' pc io x
  | recv {t chunks} : io.transfers.lookup x = some t →
      pc.use f x t = some (.recv (.message .paxosMsg) t) → pc.connects = false →
      (∃ a, x = .acceptor a) → Socket.recv chunks (intOfSize ({} : PaxosMsg).size) = some t →
      (f'.isOpen x = true → f.isOpen x = true ∧ t.ok = true) →
      (t.ok = true → ∃ m rest, (PaxosMsg.unmarshal o).run t.bytes = some (m, rest) ∧
        ∀ a, io.inbox a = [m]) →
      StubStep o f f' pc io x

section

variable {o : ByteOrder} {id : ℤ} {f f' : LaptopFactory} {env : Env} {answers : ℤ → Answers}
  {pc : ScoutPc} {io : ScoutIo} {a : ℤ} {stubs others : StdMap ℤ ClientStub}
  {mk other : ℤ → SocketId} {msg : PaxosMsg} {role : ℤ} {keys : List ℤ} {x : SocketId}

theorem SameStubs.isOpen (h : SameStubs f f') (x : SocketId) : f'.isOpen x = f.isOpen x := by
  cases x with
  | engineer => rfl
  | acceptor a => rw [LaptopFactory.isOpen, LaptopFactory.isOpen, h.scout]
  | learner a => rw [LaptopFactory.isOpen, LaptopFactory.isOpen, h.commander]

theorem isOpen_eraseStubs (h : (f.eraseStubs a).isOpen x = true) :
    f.isOpen x = true ∧ x ≠ .acceptor a ∧ x ≠ .learner a := by
  cases x with
  | engineer => cases h
  | acceptor b =>
    obtain ⟨hba, hopen⟩ := open?_erase (of_decide_eq_true h)
    exact ⟨decide_eq_true hopen, fun heq => hba (SocketId.acceptor.inj heq), nofun⟩
  | learner b =>
    obtain ⟨hba, hopen⟩ := open?_erase (of_decide_eq_true h)
    exact ⟨decide_eq_true hopen, nofun, fun heq => hba (SocketId.learner.inj heq)⟩

theorem isOpen_closeScoutStub (h : (f.closeScoutStub a).isOpen x = true) :
    f.isOpen x = true ∧ x ≠ .acceptor a := by
  cases x with
  | engineer => cases h
  | acceptor b =>
    obtain ⟨hba, hopen⟩ := open?_close (of_decide_eq_true h)
    exact ⟨decide_eq_true hopen, fun heq => hba (SocketId.acceptor.inj heq)⟩
  | learner b => exact ⟨h, nofun⟩

/-- The other stubs are left alone. -/
theorem ScoutPc.use_of_ne {t : Transfer} {y : SocketId} (h : pc.stub = some y) (hx : x ≠ y) :
    pc.use f x t = none := by
  have hacceptor : ∀ {a b} {u : Use}, x = .acceptor b → y = .acceptor a →
      (if a = b then some u else none) = none := by
    rintro a b u rfl rfl
    exact if_neg fun hab => hx (congrArg _ hab.symm)
  have hlearner : ∀ {a b} {u : Use}, x = .learner b → y = .learner a →
      (if a = b then some u else none) = none := by
    rintro a b u rfl rfl
    exact if_neg fun hab => hx (congrArg _ hab.symm)
  cases pc with
  | p1b | p2b =>
    cases h
    cases x with
    | acceptor b => exact hacceptor rfl rfl
    | _ => rfl
  | p1a _ _ iter | p2a _ _ iter =>
    cases iter <;> cases h
    cases x with
    | acceptor b => exact hacceptor rfl rfl
    | _ => rfl
  | learn _ _ iter =>
    cases iter <;> cases h
    cases x with
    | learner b => exact hlearner rfl rfl
    | _ => rfl
  | _ => cases h

/-- A stub that is left alone. -/
theorem StubStep.idle_of_use (huse : ∀ t, pc.use f x t = none)
    (hopen : f'.isOpen x = true → f.isOpen x = true) : StubStep o f f' pc io x := by
  refine .idle ?_ hopen
  cases io.transfers.lookup x with
  | none => rfl
  | some t => exact huse t

/-- A step without transfers. -/
theorem StubStep.quiet (hio : some {} = some io) (hf : SameStubs f f') :
    StubStep o f f' pc io x := by
  cases hio
  exact .idle rfl fun h => hf.isOpen x ▸ h

/-- The stubs of `a` are sent a message, or erased. -/
theorem StubStep.of_sendIo (hio : sendIo o mk other stubs others answers a msg = some io)
    (huse : ∀ t, pc.use f (mk a) t = some (.send (.message (.paxosMsg msg)) t))
    (hstub : pc.stub = some (mk a)) (hc : pc.connects = false)
    (hmsg : msg.IsPlain) (hmk : mk a = .acceptor a ∨ mk a = .learner a)
    (hopen : f.isOpen (mk a) = true ↔ open? stubs a)
    (hf : f' = if io.alive = true ∧ open? stubs a then f else f.eraseStubs a) :
    StubStep o f f' pc io x := by
  obtain ⟨t, ht, h⟩ := Option.bind_eq_some_iff.1 hio
  obtain ⟨hpre, hok⟩ := Parcel.bytes_of_send (p := .message (.paxosMsg msg))
    (by change msg.size < _; rw [hmsg.size]; decide) ht
  have hplan : pc.Plans (mk a) (.message (.paxosMsg msg)) :=
    ⟨fun hc' => Bool.noConfusion (hc.symm.trans hc'), fun _ => ⟨msg, rfl, hmsg⟩⟩
  by_cases hx : x = mk a
  · subst hx
    split_ifs at h with hok' hstub
    · cases h
      refine .send (List.lookup_cons_self) (huse t) hpre hok hplan fun hopen' => ?_
      rw [hc, Bool.false_or, hopen.2 hstub, hok']
      rfl
    · cases h
      refine .send (List.lookup_cons_self) (huse t) hpre hok hplan fun hopen' => ?_
      rw [hf, if_neg fun h => Bool.noConfusion h.1] at hopen'
      obtain ⟨-, hacc, hlearn⟩ := isOpen_eraseStubs hopen'
      exact absurd hmk (not_or.2 ⟨hacc, hlearn⟩)
  · refine .idle_of_use (fun t => ScoutPc.use_of_ne hstub hx) fun hopen' => ?_
    rw [hf] at hopen'
    split_ifs at hopen'
    · exact hopen'
    · exact (isOpen_eraseStubs hopen').1

/-- A message is received on the stub of `a`, or the stub closed. -/
theorem StubStep.of_receiveIo (hio : receiveIo o answers a = some io)
    (huse : ∀ t, pc.use f (.acceptor a) t = some (.recv (.message .paxosMsg) t))
    (hstub : pc.stub = some (.acceptor a)) (hc : pc.connects = false)
    (hf : f' = if io.alive = true then f else f.closeScoutStub a) : StubStep o f f' pc io x := by
  obtain ⟨t, ht, h⟩ := Option.bind_eq_some_iff.1 hio
  by_cases hx : x = .acceptor a
  · subst hx
    split_ifs at h with hok
    · obtain ⟨⟨m, rest⟩, hm, rfl⟩ := Option.map_eq_some_iff.1 h
      refine .recv List.lookup_cons_self (huse t) hc ⟨a, rfl⟩ ht (fun hopen => ⟨?_, hok⟩)
        fun _ => ⟨m, rest, hm, fun _ => rfl⟩
      rw [hf, if_pos rfl] at hopen
      exact hopen
    · cases h
      refine .recv List.lookup_cons_self (huse t) hc ⟨a, rfl⟩ ht (fun hopen => ?_)
        fun hok' => absurd hok' hok
      rw [hf, if_neg Bool.false_ne_true] at hopen
      exact absurd rfl (isOpen_closeScoutStub hopen).2
  · refine .idle_of_use (fun t => ScoutPc.use_of_ne hstub hx) fun hopen' => ?_
    rw [hf] at hopen'
    split_ifs at hopen'
    · exact hopen'
    · exact (isOpen_closeScoutStub hopen').1

/-! ### New connections -/

/-- A new stub is open if it has been connected and identified. -/
theorem open?_connectStubs_cases (h : open? (f.connectStubs stubs env) a) :
    (a ∈ f.acceptorMap.keys ∧ a ∉ env.refused ∧ a ∉ env.dropped) ∨
      (a ∉ f.acceptorMap.keys ∧ open? stubs a) := by
  rw [connectStubs] at h
  generalize f.acceptorMap.keys = keys at h ⊢
  induction keys generalizing stubs with
  | nil => exact .inr ⟨List.not_mem_nil, h⟩
  | cons b keys ih =>
    rw [List.foldl_cons] at h
    rcases ih h with ⟨hmem, hrest⟩ | ⟨hmem, hopen⟩
    · exact .inl ⟨List.mem_cons_of_mem _ hmem, hrest⟩
    · split_ifs at hopen with hr
      · obtain ⟨hab, hopen⟩ := open?_erase hopen
        exact .inr ⟨mt List.mem_cons.1 (not_or.2 ⟨hab, hmem⟩), hopen⟩
      · rw [open?, StdMap.find?_insert] at hopen
        split_ifs at hopen with hab
        · subst hab
          cases hopen' : decide (a ∉ env.dropped) with
          | true => exact .inl ⟨List.mem_cons_self, hr, of_decide_eq_true hopen'⟩
          | false =>
            rw [hopen'] at hopen
            cases hopen
        · exact .inr ⟨mt List.mem_cons.1 (not_or.2 ⟨hab, hmem⟩), hopen⟩

/-- Every server that does not refuse is sent the identity. -/
theorem lookup_identifyAll {ts : List (ℤ × Transfer)}
    (h : identifyAll o role env answers keys = some ts) (a : ℤ) :
    (a ∈ keys ∧ ∃ t, ts.lookup a = some t ∧
        Socket.send (answers a).send (putInt o role) 4 = some t) ∨
      (¬(a ∈ keys ∧ a ∉ env.refused) ∧ ts.lookup a = none) := by
  induction keys generalizing ts with
  | nil =>
    cases h
    exact .inr ⟨fun ha => absurd ha.1 List.not_mem_nil, rfl⟩
  | cons b keys ih =>
    rw [identifyAll] at h
    split_ifs at h with hr
    · refine (ih h).imp (And.imp_left (List.mem_cons_of_mem _)) (And.imp_left fun ha hmem => ?_)
      rcases List.mem_cons.1 hmem.1 with rfl | hmem'
      · exact hmem.2 hr
      · exact ha ⟨hmem', hmem.2⟩
    · obtain ⟨t, ht, h⟩ := Option.bind_eq_some_iff.1 h
      obtain ⟨ts, hts, rfl⟩ := Option.map_eq_some_iff.1 h
      rw [List.lookup_cons]
      by_cases hab : a = b
      · subst hab
        rw [beq_self_eq_true]
        exact .inl ⟨List.mem_cons_self, t, rfl, ht⟩
      · rw [beq_false_of_ne hab]
        refine (ih hts).imp (And.imp_left (List.mem_cons_of_mem _)) (And.imp_left fun ha hmem => ?_)
        exact ha ⟨(List.mem_cons.1 hmem.1).resolve_left hab, hmem.2⟩

theorem lookup_map_of_injective (hmk : Function.Injective mk) (ts : List (ℤ × Transfer)) (a : ℤ) :
    (ts.map fun p => (mk p.1, p.2)).lookup (mk a) = ts.lookup a := by
  induction ts with
  | nil => rfl
  | cons p ts ih =>
    rw [List.map_cons, List.lookup_cons, List.lookup_cons, ih]
    by_cases h : a = p.1
    · rw [h, beq_self_eq_true, beq_self_eq_true]
    · rw [beq_false_of_ne h, beq_false_of_ne (hmk.ne h)]

/-- The stubs of one kind are connected and identified. -/
theorem StubStep.of_connectIo
    (hio : connectIo o mk role env answers f.acceptorMap.keys = some io)
    (hmk : Function.Injective mk) (huse : ∀ a t, pc.use f (mk a) t = some (.send (.word role) t))
    (hother : ∀ x t, (∀ a, x ≠ mk a) → pc.use f x t = none) (hc : pc.connects = true)
    (hplan : ∀ a, (mk a).Identity (.word role))
    (hopen : ∀ a, f.isOpen (mk a) = true ↔ open? stubs a)
    (hopen' : ∀ a, f'.isOpen (mk a) = true ↔ open? (f.connectStubs stubs (io.env env)) a)
    (hrest : ∀ x, (∀ a, x ≠ mk a) → f'.isOpen x = f.isOpen x) : StubStep o f f' pc io x := by
  obtain ⟨ts, hts, rfl⟩ := Option.map_eq_some_iff.1 hio
  by_cases hx : ∃ a, x = mk a
  · obtain ⟨a, rfl⟩ := hx
    have hmap := lookup_map_of_injective hmk ts a
    rcases lookup_identifyAll hts a with ⟨hkey, t, hlook, ht⟩ | ⟨ha, hlook⟩
    · obtain ⟨hpre, hok⟩ := Parcel.bytes_of_send (p := .word role) (by change 4 < _; decide) ht
      refine .send (hmap.trans hlook) (huse a t) hpre hok ⟨fun _ => hplan a, fun hc' => ?_⟩
        fun h => ?_
      · exact Bool.noConfusion (hc.symm.trans hc')
      · rw [hc, Bool.true_or, Bool.true_and]
        rcases open?_connectStubs_cases ((hopen' a).1 h) with ⟨-, -, hd⟩ | ⟨hkey', -⟩
        · by_contra hfail
          obtain ⟨l₁, l₂, rfl, -⟩ := List.lookup_eq_some_iff.1 hlook
          exact hd (List.mem_map.2 ⟨(a, t), List.mem_filter.2 ⟨by simp, decide_eq_true hfail⟩, rfl⟩)
        · exact absurd hkey hkey'
    · refine .idle ?_ fun h => ?_
      · change ((ts.map fun p => (mk p.1, p.2)).lookup (mk a)).bind _ = none
        rw [hmap, hlook]
        rfl
      · rcases open?_connectStubs_cases ((hopen' a).1 h) with ⟨hmem, hr, -⟩ | ⟨-, hold⟩
        · exact absurd ⟨hmem, hr⟩ ha
        · exact (hopen a).2 hold
  · rw [not_exists] at hx
    exact .idle_of_use (fun t => hother x t hx) fun h => hrest x hx ▸ h

/-! ### Steps -/

variable {r : Effect}

/-- What holds of the other socket objects. -/
theorem forall_ne_acceptor {P : SocketId → Prop} (he : ∀ e, P (.engineer e))
    (hl : ∀ a, P (.learner a)) (x : SocketId) (hx : ∀ a, x ≠ .acceptor a) : P x := by
  cases x with
  | acceptor a => exact absurd rfl (hx a)
  | engineer e => exact he e
  | learner a => exact hl a

theorem forall_ne_learner {P : SocketId → Prop} (he : ∀ e, P (.engineer e))
    (ha : ∀ a, P (.acceptor a)) (x : SocketId) (hx : ∀ a, x ≠ .learner a) : P x := by
  cases x with
  | learner a => exact absurd rfl (hx a)
  | engineer e => exact he e
  | acceptor a => exact ha a

/-- Each stub sees a step of the Scout as nothing, one `Send` or one `Recv`. -/
theorem stubStep (hio : scoutIo o f env answers pc = some io)
    (hst : scoutStep id f io.inbox (io.env env) pc = some r) (hpc : pc.IsPlain) (x : SocketId) :
    StubStep o f r.factory pc io x := by
  cases pc with
  | connect laptop =>
    cases hst
    by_cases hi : f.scoutAcceptorStubInit = true
    · rw [scoutIo, if_pos hi] at hio
      rw [scoutConnect, if_pos hi]
      exact .quiet hio ⟨rfl, rfl, rfl, rfl⟩
    · rw [scoutIo, if_neg hi] at hio
      rw [scoutConnect, if_neg hi]
      exact .of_connectIo hio (fun _ _ => SocketId.acceptor.inj) (fun _ _ => rfl)
        (fun x t => forall_ne_acceptor (P := fun x => ScoutPc.use f (.connect laptop) x t = none)
          (fun _ => rfl) (fun _ => rfl) x) rfl (fun _ => rfl)
        (fun a => decide_eq_true_iff) (fun a => decide_eq_true_iff)
        (forall_ne_acceptor (fun _ => rfl) fun _ => rfl)
  | p1a laptop l iter =>
    cases iter with
    | nil =>
      cases scoutStep_cases hst with
      | giveUp => exact .quiet hio ⟨rfl, rfl, rfl, rfl⟩
      | retry => exact .quiet hio ⟨rfl, rfl, rfl, rfl⟩
      | leave => exact .quiet hio ⟨rfl, rfl, rfl, rfl⟩
    | cons a iter =>
      cases hst
      refine .of_sendIo hio (fun t => if_pos rfl) rfl rfl rfl (.inl rfl) decide_eq_true_iff ?_
      rw [sendP1a]
      exact apply_ite _ _ _ _
  | p1b laptop l a iter =>
    refine .of_receiveIo hio (fun t => if_pos rfl) rfl rfl ?_
    rw [scoutStep, receiveP1b] at hst
    split_ifs at hst with halive
    · obtain ⟨m, -, rfl⟩ := Option.map_eq_some_iff.1 hst
      exact (if_pos halive).symm
    · cases hst
      exact (if_neg halive).symm
  | p2a laptop ph iter =>
    cases iter with
    | nil =>
      cases scoutStep_cases hst with
      | accept => exact .quiet hio ⟨rfl, rfl, rfl, rfl⟩
      | restart => exact .quiet hio ⟨rfl, rfl, rfl, rfl⟩
      | tooFew => exact .quiet hio ⟨rfl, rfl, rfl, rfl⟩
      | drop => exact .quiet hio ⟨rfl, rfl, rfl, rfl⟩
    | cons a iter =>
      cases hst
      refine .of_sendIo hio (fun t => if_pos rfl) rfl rfl hpc (.inl rfl) decide_eq_true_iff ?_
      rw [sendP2a]
      exact apply_ite _ _ _ _
  | p2b laptop ph a iter =>
    refine .of_receiveIo hio (fun t => if_pos rfl) rfl rfl ?_
    rw [scoutStep, receiveP2b] at hst
    split_ifs at hst with halive
    · obtain ⟨m, -, rfl⟩ := Option.map_eq_some_iff.1 hst
      exact (if_pos halive).symm
    · cases hst
      exact (if_neg halive).symm
  | command laptop cmd =>
    cases hst
    by_cases hi : f.commanderLearnerStubInit = true
    · rw [scoutIo, if_pos hi] at hio
      rw [commanderConnect, if_pos hi]
      exact .quiet hio ⟨rfl, rfl, rfl, rfl⟩
    · rw [scoutIo, if_neg hi] at hio
      rw [commanderConnect, if_neg hi]
      exact .of_connectIo hio (fun _ _ => SocketId.learner.inj) (fun _ _ => rfl)
        (fun x t => forall_ne_learner (P := fun x => ScoutPc.use f (.command laptop cmd) x t = none)
          (fun _ => rfl) (fun _ => rfl) x) rfl (fun _ => rfl)
        (fun a => decide_eq_true_iff) (fun a => decide_eq_true_iff)
        (forall_ne_learner (fun _ => rfl) fun _ => rfl)
  | learn laptop cmd iter =>
    cases iter with
    | nil =>
      cases scoutStep_cases hst with
      | endLearn => exact .quiet hio ⟨rfl, rfl, rfl, rfl⟩
    | cons a iter =>
      cases hst
      refine .of_sendIo hio (fun t => if_pos rfl) rfl rfl hpc (.inr rfl) decide_eq_true_iff ?_
      rw [sendLearn]
      exact apply_ite _ _ _ _
  | idle =>
    cases scoutStep_cases hst with
    | dequeue => exact .quiet hio ⟨rfl, rfl, rfl, rfl⟩
  | propose laptop l =>
    cases scoutStep_cases hst with
    | chooseOwn => exact .quiet hio ⟨rfl, rfl, rfl, rfl⟩
    | chooseOther => exact .quiet hio ⟨rfl, rfl, rfl, rfl⟩
  | pickSlot laptop l =>
    cases hst
    exact .quiet hio ⟨rfl, rfl, rfl, rfl⟩
  | record laptop =>
    cases hst
    exact .quiet hio ⟨rfl, rfl, rfl, rfl⟩

/-- What has arrived has been received on the stub of an acceptor. -/
theorem inbox_of_scoutIo (hio : scoutIo o f env answers pc = some io) :
    (∀ a, io.inbox a = []) ∨ pc.connects = false ∧ ∃ a t, t.ok = true ∧
      io.transfers.lookup (.acceptor a) = some t ∧
      pc.use f (.acceptor a) t = some (.recv (.message .paxosMsg) t) := by
  have hsend : ∀ {mk other stubs others a msg},
      sendIo o mk other stubs others answers a msg = some io → ∀ a, io.inbox a = [] := by
    intro mk other stubs others a msg h
    obtain ⟨t, -, h⟩ := Option.bind_eq_some_iff.1 h
    split_ifs at h <;> cases h <;> exact fun _ => rfl
  have hrecv : ∀ {a}, receiveIo o answers a = some io → (∀ a, io.inbox a = []) ∨
      ∃ t, t.ok = true ∧ io.transfers.lookup (.acceptor a) = some t := by
    intro a h
    obtain ⟨t, -, h⟩ := Option.bind_eq_some_iff.1 h
    split_ifs at h with hok
    · obtain ⟨p, -, rfl⟩ := Option.map_eq_some_iff.1 h
      exact .inr ⟨t, hok, List.lookup_cons_self⟩
    · cases h
      exact .inl fun _ => rfl
  have hconnect : ∀ {b : Prop} [Decidable b] {mk role},
      (if b then some {} else connectIo o mk role env answers f.acceptorMap.keys) = some io →
        ∀ a, io.inbox a = [] := by
    intro b _ mk role h
    split_ifs at h
    · cases h
      exact fun _ => rfl
    · obtain ⟨ts, -, rfl⟩ := Option.map_eq_some_iff.1 h
      exact fun _ => rfl
  cases pc with
  | connect => exact .inl (hconnect hio)
  | command => exact .inl (hconnect hio)
  | p1b laptop l a iter =>
    refine (hrecv hio).imp_right fun ⟨t, hok, ht⟩ => ⟨rfl, a, t, hok, ht, if_pos rfl⟩
  | p2b laptop ph a iter =>
    refine (hrecv hio).imp_right fun ⟨t, hok, ht⟩ => ⟨rfl, a, t, hok, ht, if_pos rfl⟩
  | p1a laptop l iter =>
    cases iter with
    | nil => cases hio; exact .inl fun _ => rfl
    | cons a iter => exact .inl (hsend hio)
  | p2a laptop ph iter =>
    cases iter with
    | nil => cases hio; exact .inl fun _ => rfl
    | cons a iter => exact .inl (hsend hio)
  | learn laptop cmd iter =>
    cases iter with
    | nil => cases hio; exact .inl fun _ => rfl
    | cons a iter => exact .inl (hsend hio)
  | idle | propose | pickSlot | record =>
    cases hio
    exact .inl fun _ => rfl

end

end LaptopPaxos
