import LaptopPaxos.Stubs

/-!
# Stubs and wires

A step of the Scout has two sides: what it does on its stubs (`scoutIo`) and what it
puts on the wires of the cluster or takes off them (`Effect`). They agree, stub by stub
(`WireStep`, `wireStep`): a message is put on the wire if its `Send` succeeds, and taken
off if its `Recv` does. The identity is not a message of the cluster.
-/

namespace LaptopPaxos

open LaptopFactory Reader

/-! ### Wires of a stub -/

/-- The Paxos message in a parcel. -/
def Parcel.paxosMsg? : Parcel → Option PaxosMsg
  | .message (.paxosMsg m) => some m
  | _ => none

/-- The messages for `a` among those that are put on the wires. -/
def addressed (a : ℤ) : Option (ℤ × PaxosMsg) → List PaxosMsg
  | none => []
  | some (b, m) => if b = a then [m] else []

namespace Effect

variable (r : Effect)

/-- What a step puts on the wire of a stub. -/
def puts : SocketId → List PaxosMsg
  | .engineer _ => []
  | .acceptor a => addressed a r.toAcceptor
  | .learner a => addressed a r.toLearner

/-- A step takes a message off the wire to a stub. -/
def Takes (x : SocketId) : Prop := ∃ a, x = .acceptor a ∧ r.received = some a

end Effect

section

variable {w : Wires} {i a : ℤ}

theorem Wires.push_self (o : Option (ℤ × PaxosMsg)) : w.push i o i a = w i a ++ addressed a o := by
  cases o with
  | none => exact (List.append_nil _).symm
  | some p =>
    rw [push, set_apply, addressed]
    by_cases h : a = p.1
    · rw [if_pos ⟨rfl, h⟩, if_pos h.symm, h]
    · rw [if_neg fun hp => h hp.2, if_neg (Ne.symm h), List.append_nil]

theorem Wires.pop_self {o : Option ℤ} (h : o = some a) : w.pop i o i a = (w i a).tail := by
  rw [h, pop, set_apply, if_pos ⟨rfl, rfl⟩]

theorem Wires.pop_of_ne_some {o : Option ℤ} (h : o ≠ some a) : w.pop i o i a = w i a := by
  cases o with
  | none => rfl
  | some b =>
    rw [pop, set_apply, if_neg]
    rintro ⟨-, rfl⟩
    exact h rfl

end

/-- A step of the Scout on the stub `x` and on its wires. -/
inductive WireStep (o : ByteOrder) (f : LaptopFactory) (pc : ScoutPc) (io : ScoutIo) (r : Effect)
    (x : SocketId) : Prop
  | idle : (io.transfers.lookup x).bind (pc.use f x) = none → r.puts x = [] → ¬r.Takes x →
      WireStep o f pc io r x
  | sent {p t} : io.transfers.lookup x = some t → pc.use f x t = some (.send p t) →
      t.ok = true → (pc.connects || f.isOpen x) = true → t.bytes = p.marshal o →
      r.puts x = p.paxosMsg?.toList → ¬r.Takes x → WireStep o f pc io r x
  | lost {p t} : io.transfers.lookup x = some t → pc.use f x t = some (.send p t) →
      t.ok = false → t.bytes.length < (p.marshal o).length → r.puts x = [] → ¬r.Takes x →
      WireStep o f pc io r x
  | recv {t} : io.transfers.lookup x = some t →
      pc.use f x t = some (.recv (.message .paxosMsg) t) → r.puts x = [] →
      (r.Takes x ↔ t.ok = true) → WireStep o f pc io r x

section

variable {o : ByteOrder} {id : ℤ} {f : LaptopFactory} {env : Env} {answers : ℤ → Answers}
  {pc : ScoutPc} {io : ScoutIo} {a : ℤ} {stubs others : StdMap ℤ ClientStub}
  {mk other : ℤ → SocketId} {msg : PaxosMsg} {role : ℤ} {keys : List ℤ} {x : SocketId}
  {r : Effect} {p : Parcel} {t : Transfer}

/-- After a `Send` that fails, a part of the parcel has not gone out. -/
theorem Parcel.length_of_send {sends : List ℤ} (hsize : p.size < 2147483648)
    (h : Socket.send sends (p.marshal o) (intOfSize p.size) = some t) (hok : t.ok = false) :
    t.bytes.length < (p.marshal o).length := by
  have hlen : (p.marshal o).length = p.size := p.length_marshal hsize
  rw [intOfSize_eq hsize] at h
  have hlt := (Socket.bytes_of_send h (by rw [hlen])).2.2 hok
  omega

theorem not_takes (h : r.received = none) (x : SocketId) : ¬r.Takes x := by
  rintro ⟨a, -, ha⟩
  exact Option.some_ne_none a (ha.symm.trans h)

/-- A stub that is left alone. -/
theorem WireStep.idle_of_use (huse : ∀ t, pc.use f x t = none) (hputs : r.puts x = [])
    (htakes : ¬r.Takes x) : WireStep o f pc io r x := by
  refine .idle ?_ hputs htakes
  cases io.transfers.lookup x with
  | none => rfl
  | some t => exact huse t

/-- A step without transfers. -/
theorem WireStep.quiet (hio : some {} = some io) (hacceptor : r.toAcceptor = none)
    (hlearner : r.toLearner = none) (hreceived : r.received = none) : WireStep o f pc io r x := by
  cases hio
  refine .idle rfl ?_ (not_takes hreceived x)
  cases x with
  | engineer => rfl
  | acceptor a => rw [Effect.puts, hacceptor]; rfl
  | learner a => rw [Effect.puts, hlearner]; rfl

/-- The peer `a` is sent a message. -/
theorem WireStep.of_sendIo (hio : sendIo o mk other stubs others answers a msg = some io)
    (huse : ∀ t, pc.use f (mk a) t = some (.send (.message (.paxosMsg msg)) t))
    (hstub : pc.stub = some (mk a)) (hmsg : msg.IsPlain)
    (hopen : f.isOpen (mk a) = true ↔ open? stubs a)
    (hputs : r.puts (mk a) = if io.alive = true ∧ open? stubs a then [msg] else [])
    (hothers : ∀ x, x ≠ mk a → r.puts x = []) (htakes : r.received = none) :
    WireStep o f pc io r x := by
  obtain ⟨t, ht, h⟩ := Option.bind_eq_some_iff.1 hio
  have hsize : (Parcel.message (.paxosMsg msg)).size < 2147483648 := by
    change msg.size < _
    rw [hmsg.size]
    decide
  by_cases hx : x = mk a
  · subst hx
    split_ifs at h with hok hstub
    · cases h
      refine .sent List.lookup_cons_self (huse t) hok ?_
        ((Parcel.bytes_of_send hsize ht).2 hok) ?_ (not_takes htakes _)
      · rw [hopen.2 hstub, Bool.or_true]
      · rw [hputs, if_pos ⟨rfl, hstub⟩]
        rfl
    · cases h
      refine .lost List.lookup_cons_self (huse t) (Bool.eq_false_of_not_eq_true hok)
        (Parcel.length_of_send hsize ht (Bool.eq_false_of_not_eq_true hok)) ?_ (not_takes htakes _)
      rw [hputs, if_neg fun h => Bool.noConfusion h.1]
  · exact .idle_of_use (fun t => ScoutPc.use_of_ne hstub hx) (hothers x hx) (not_takes htakes x)

/-- The acceptor `a` is waited for. -/
theorem WireStep.of_receiveIo (hio : receiveIo o answers a = some io)
    (huse : ∀ t, pc.use f (.acceptor a) t = some (.recv (.message .paxosMsg) t))
    (hstub : pc.stub = some (.acceptor a)) (hputs : ∀ x, r.puts x = [])
    (htakes : r.received = if io.alive = true then some a else none) : WireStep o f pc io r x := by
  obtain ⟨t, ht, h⟩ := Option.bind_eq_some_iff.1 hio
  by_cases hx : x = .acceptor a
  · subst hx
    split_ifs at h with hok
    · obtain ⟨p, -, rfl⟩ := Option.map_eq_some_iff.1 h
      rw [if_pos rfl] at htakes
      exact .recv List.lookup_cons_self (huse t) (hputs _) (iff_of_true ⟨a, rfl, htakes⟩ hok)
    · cases h
      rw [if_neg Bool.false_ne_true] at htakes
      exact .recv List.lookup_cons_self (huse t) (hputs _) (iff_of_false (not_takes htakes _) hok)
  · refine .idle_of_use (fun t => ScoutPc.use_of_ne hstub hx) (hputs x) ?_
    rintro ⟨b, rfl, hb⟩
    rw [htakes] at hb
    split_ifs at hb
    cases hb
    exact hx rfl

/-- The stubs of one kind are connected and identified. -/
theorem WireStep.of_connectIo (hio : connectIo o mk role env answers keys = some io)
    (hmk : Function.Injective mk) (huse : ∀ a t, pc.use f (mk a) t = some (.send (.word role) t))
    (hother : ∀ x t, (∀ a, x ≠ mk a) → pc.use f x t = none) (hc : pc.connects = true)
    (hputs : ∀ x, r.puts x = []) (htakes : r.received = none) : WireStep o f pc io r x := by
  obtain ⟨ts, hts, rfl⟩ := Option.map_eq_some_iff.1 hio
  by_cases hx : ∃ a, x = mk a
  · obtain ⟨a, rfl⟩ := hx
    have hmap := lookup_map_of_injective hmk ts a
    rcases lookup_identifyAll hts a with ⟨-, t, hlook, ht⟩ | ⟨-, hlook⟩
    · have hsize : (Parcel.word role).size < 2147483648 := by
        change 4 < _
        decide
      rcases Bool.eq_false_or_eq_true t.ok with hok | hok
      · refine .sent (hmap.trans hlook) (huse a t) hok ?_
          ((Parcel.bytes_of_send (p := .word role) hsize ht).2 hok) (hputs _) (not_takes htakes _)
        rw [hc, Bool.true_or]
      · exact .lost (hmap.trans hlook) (huse a t) hok
          (Parcel.length_of_send (p := .word role) hsize ht hok) (hputs _) (not_takes htakes _)
    · refine .idle ?_ (hputs _) (not_takes htakes _)
      change ((ts.map fun p => (mk p.1, p.2)).lookup (mk a)).bind _ = none
      rw [hmap, hlook]
      rfl
  · rw [not_exists] at hx
    exact .idle_of_use (fun t => hother x t hx) (hputs x) (not_takes htakes x)

theorem addressed_ite (alive : Prop) [Decidable alive] :
    addressed a (if alive then some (a, msg) else none) = if alive then [msg] else [] := by
  split_ifs
  · exact if_pos rfl
  · rfl

theorem addressed_ite_of_ne {alive : Prop} [Decidable alive] {b : ℤ} (h : b ≠ a) :
    addressed b (if alive then some (a, msg) else none) = [] := by
  split_ifs
  · exact if_neg h.symm
  · rfl

/-- A step that sends to the acceptor `a` or fails to. -/
theorem puts_of_toAcceptor {m : PaxosMsg} {alive : Prop} [Decidable alive]
    (ha : r.toAcceptor = if alive then some (a, m) else none) (hl : r.toLearner = none) :
    r.puts (.acceptor a) = (if alive then [m] else []) ∧ ∀ x, x ≠ .acceptor a → r.puts x = [] := by
  refine ⟨by rw [Effect.puts, ha, addressed_ite], fun x hx => ?_⟩
  cases x with
  | engineer => rfl
  | acceptor b =>
    rw [Effect.puts, ha]
    exact addressed_ite_of_ne fun hb => hx (congrArg _ hb)
  | learner b => rw [Effect.puts, hl]; rfl

/-- A step that sends to the learner `a` or fails to. -/
theorem puts_of_toLearner {m : PaxosMsg} {alive : Prop} [Decidable alive]
    (hl : r.toLearner = if alive then some (a, m) else none) (ha : r.toAcceptor = none) :
    r.puts (.learner a) = (if alive then [m] else []) ∧ ∀ x, x ≠ .learner a → r.puts x = [] := by
  refine ⟨by rw [Effect.puts, hl, addressed_ite], fun x hx => ?_⟩
  cases x with
  | engineer => rfl
  | acceptor b => rw [Effect.puts, ha]; rfl
  | learner b =>
    rw [Effect.puts, hl]
    exact addressed_ite_of_ne fun hb => hx (congrArg _ hb)

/-- The stubs and the wires agree on what the Scout does. -/
theorem wireStep (hio : scoutIo o f env answers pc = some io)
    (hst : scoutStep id f io.inbox (io.env env) pc = some r) (hpc : pc.IsPlain) (x : SocketId) :
    WireStep o f pc io r x := by
  have hnil : ∀ {e : Effect}, e.toAcceptor = none → e.toLearner = none → ∀ x, e.puts x = [] := by
    intro e ha hl x
    cases x with
    | engineer => rfl
    | acceptor b => rw [Effect.puts, ha]; rfl
    | learner b => rw [Effect.puts, hl]; rfl
  cases pc with
  | connect laptop =>
    cases hst
    by_cases hi : f.scoutAcceptorStubInit = true
    · rw [scoutIo, if_pos hi] at hio
      exact .quiet hio rfl rfl rfl
    · rw [scoutIo, if_neg hi] at hio
      exact .of_connectIo hio (fun _ _ => SocketId.acceptor.inj) (fun _ _ => rfl)
        (fun x t => forall_ne_acceptor (P := fun x => ScoutPc.use f (.connect laptop) x t = none)
          (fun _ => rfl) (fun _ => rfl) x) rfl (hnil rfl rfl) rfl
  | p1a laptop l iter =>
    cases iter with
    | nil =>
      cases scoutStep_cases hst with
      | giveUp => exact .quiet hio rfl rfl rfl
      | retry => exact .quiet hio rfl rfl rfl
      | leave => exact .quiet hio rfl rfl rfl
    | cons a iter =>
      cases hst
      obtain ⟨hputs, hothers⟩ := puts_of_toAcceptor (m := .p1a f.proposalNumber)
        (r := sendP1a id f laptop l a iter (io.env env)) (apply_ite Effect.toAcceptor _ _ _)
        ((apply_ite Effect.toLearner _ _ _).trans (ite_self none))
      exact .of_sendIo hio (fun t => if_pos rfl) rfl rfl decide_eq_true_iff hputs hothers
        ((apply_ite Effect.received _ _ _).trans (ite_self none))
  | p1b laptop l a iter =>
    rw [scoutStep, receiveP1b] at hst
    split_ifs at hst with halive
    · obtain ⟨m, -, rfl⟩ := Option.map_eq_some_iff.1 hst
      exact .of_receiveIo hio (fun t => if_pos rfl) rfl (hnil rfl rfl) (if_pos halive).symm
    · cases hst
      exact .of_receiveIo hio (fun t => if_pos rfl) rfl (hnil rfl rfl) (if_neg halive).symm
  | p2a laptop ph iter =>
    cases iter with
    | nil =>
      cases scoutStep_cases hst with
      | accept => exact .quiet hio rfl rfl rfl
      | restart => exact .quiet hio rfl rfl rfl
      | tooFew => exact .quiet hio rfl rfl rfl
      | drop => exact .quiet hio rfl rfl rfl
    | cons a iter =>
      cases hst
      obtain ⟨hputs, hothers⟩ := puts_of_toAcceptor (m := .p2a f.proposalNumber ph.cmd)
        (r := sendP2a id f laptop ph a iter (io.env env)) (apply_ite Effect.toAcceptor _ _ _)
        ((apply_ite Effect.toLearner _ _ _).trans (ite_self none))
      exact .of_sendIo hio (fun t => if_pos rfl) rfl hpc decide_eq_true_iff hputs hothers
        ((apply_ite Effect.received _ _ _).trans (ite_self none))
  | p2b laptop ph a iter =>
    rw [scoutStep, receiveP2b] at hst
    split_ifs at hst with halive
    · obtain ⟨m, -, rfl⟩ := Option.map_eq_some_iff.1 hst
      exact .of_receiveIo hio (fun t => if_pos rfl) rfl (hnil rfl rfl) (if_pos halive).symm
    · cases hst
      exact .of_receiveIo hio (fun t => if_pos rfl) rfl (hnil rfl rfl) (if_neg halive).symm
  | command laptop cmd =>
    cases hst
    by_cases hi : f.commanderLearnerStubInit = true
    · rw [scoutIo, if_pos hi] at hio
      exact .quiet hio rfl rfl rfl
    · rw [scoutIo, if_neg hi] at hio
      exact .of_connectIo hio (fun _ _ => SocketId.learner.inj) (fun _ _ => rfl)
        (fun x t => forall_ne_learner (P := fun x => ScoutPc.use f (.command laptop cmd) x t = none)
          (fun _ => rfl) (fun _ => rfl) x) rfl (hnil rfl rfl) rfl
  | learn laptop cmd iter =>
    cases iter with
    | nil =>
      cases scoutStep_cases hst with
      | endLearn => exact .quiet hio rfl rfl rfl
    | cons a iter =>
      cases hst
      obtain ⟨hputs, hothers⟩ := puts_of_toLearner (m := .learn cmd)
        (r := sendLearn f laptop cmd a iter (io.env env)) (apply_ite Effect.toLearner _ _ _)
        ((apply_ite Effect.toAcceptor _ _ _).trans (ite_self none))
      exact .of_sendIo hio (fun t => if_pos rfl) rfl hpc decide_eq_true_iff hputs hothers
        ((apply_ite Effect.received _ _ _).trans (ite_self none))
  | idle =>
    cases scoutStep_cases hst with
    | dequeue => exact .quiet hio rfl rfl rfl
  | propose laptop l =>
    cases scoutStep_cases hst with
    | chooseOwn => exact .quiet hio rfl rfl rfl
    | chooseOther => exact .quiet hio rfl rfl rfl
  | pickSlot laptop l =>
    cases hst
    exact .quiet hio rfl rfl rfl
  | record laptop =>
    cases hst
    exact .quiet hio rfl rfl rfl

end

end LaptopPaxos
