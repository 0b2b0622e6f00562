import LaptopPaxos.Desks
import LaptopPaxos.Lib.Carriage

/-!
# Requests and answers

What a customer's engineer sends after the configuration are answers: one for each request
that it has decoded, in their order, and each to its own request (`Net.answers_in_order`).
No condition is needed, for the engineer only depends on what it receives.

That the laptop is the one of the request is known from the desk of the server; that it is
the last request that it answers is a matter of counting (`SessionPc.Count`).
-/

namespace LaptopPaxos

open LaptopFactory

/-- What the engineer `e` of the server `i` answers to a request. -/
inductive Answer (i e : ℤ) (q : CustomerRequest) : Parcel → Prop
  | laptop {l : LaptopInfo} : OwnLaptop i e q l → Answer i e q (.message (.laptopInfo l.narrow))
  | record {r : CustomerRecord} : r.customerId = q.customerId ∨ r = ⟨-1, -1⟩ →
      Answer i e q (.message (.customerRecord r.narrow))

/-- How many parcels the engineer of a customer has decoded and sent. -/
def SessionPc.Count (decoded sent : ℕ) : SessionPc → Prop
  | .identity => decoded = 0 ∧ sent = 0
  | .configSize => decoded = 1 ∧ sent = 0
  | .config => decoded = 1 ∧ sent = 1
  | .request => sent = decoded + 1
  | .order | .laptop _ | .record _ => sent = decoded
  | _ => sent ≤ decoded + 1

/-- A connection of a customer. The first two parcels that are sent are the configuration,
    and the first one decoded is the identity. -/
structure Conn.Answering (k : Conn) : Prop where
  count : k.engineer.pc.Count k.up.decoded.length k.down.sent.length
  answers : ∀ m p, k.down.sent[m + 2]? = some p → ∃ q,
    k.up.decoded[m + 1]? = some (some (.message (.customerRequest q))) ∧ Answer k.server k.id q p
  record : ∀ r, k.engineer.pc = .record r → ∃ q, k.Last q ∧
    (r.customerId = q.customerId ∨ r = ⟨-1, -1⟩)

/-- What is about to be sent as a laptop is the one of the last request. -/
def Conn.LaptopLast (k : Conn) : Prop :=
  ∀ l, k.engineer.pc = .laptop l → ∃ q, k.Last q ∧ OwnLaptop k.server k.id q l

section

variable {H : Hosts} {s s' : Net} {i e : ℤ} {ℓ : Link} {k k' : Conn} {o o' : ByteOrder}
  {f : LaptopFactory} {fut : Option LaptopInfo} {r : EngineerEffect} {p : Parcel}
  {requestType : ℤ} {decoded sent : ℕ} {pc : SessionPc}

theorem SessionPc.Count.le (h : pc.Count decoded sent) : sent ≤ decoded + 1 := by
  cases pc <;> simp only [SessionPc.Count] at h <;> omega

/-- Nothing has been decoded or sent. -/
theorem Conn.Answering.same (h : k.Answering) (hserver : k'.server = k.server) (hid : k'.id = k.id)
    (hdec : k'.up.decoded = k.up.decoded) (hsent : k'.down.sent = k.down.sent)
    (hcount : k'.engineer.pc.Count k.up.decoded.length k.down.sent.length)
    (hrecord : ∀ r, k'.engineer.pc ≠ .record r) : k'.Answering := by
  refine ⟨?_, fun m p hp => ?_, fun r hr => absurd hr (hrecord r)⟩
  · rw [hdec, hsent]
    exact hcount
  · rw [hsent] at hp
    rw [hserver, hid, hdec]
    exact h.answers m p hp

/-- What the engineer of a customer sends. -/
theorem Role.At.sends (hat : (Role.customer requestType).At decoded sent pc)
    (hp : pc.parcel f = some p) : pc = .configSize ∨ pc = .config ∨
      (∃ l, pc = .laptop l ∧ p = .message (.laptopInfo l)) ∨
      ∃ r, pc = .record r ∧ p = .message (.customerRecord r) := by
  cases pc <;> cases hp <;> try exact hat.elim
  · exact .inl rfl
  · exact .inr (.inl rfl)
  · exact .inr (.inr (.inl ⟨_, rfl, rfl⟩))
  · exact .inr (.inr (.inr ⟨_, rfl, rfl⟩))

/-- The last request is the one at the end. -/
theorem Conn.Last.getElem? {q : CustomerRequest} {m : ℕ} (h : k.Last q)
    (hm : k.up.decoded.length = m + 2) :
    k.up.decoded[m + 1]? = some (some (.message (.customerRequest q))) := by
  rw [Last, List.getLast?_eq_getElem?, hm] at h
  exact h

/-- The engineer sends the configuration or an answer. -/
theorem Conn.Answering.send {t : List UInt8} {b : Bool} (h : k.Answering) (hl : k.LaptopLast)
    (hat : (Role.customer requestType).At k.up.decoded.length k.down.sent.length k.engineer.pc)
    (hp : k.engineer.pc.parcel f = some p) :
    Conn.Answering { k with
      engineer := ⟨k.engineer.pc.sent, b⟩, down := k.down.push p.narrow t } := by
  have hcount := h.count
  have hsends := hat.sends hp
  refine ⟨?_, fun m q hq => ?_, fun r hr => ?_⟩
  · change k.engineer.pc.sent.Count k.up.decoded.length (k.down.sent ++ [p.narrow]).length
    rw [List.length_append, List.length_singleton]
    rcases hsends with hpc | hpc | ⟨l, hpc, -⟩ | ⟨r, hpc, -⟩ <;> rw [hpc] at hcount ⊢
    · exact ⟨hcount.1, congrArg (· + 1) hcount.2⟩
    · obtain ⟨hd, hs⟩ := hcount
      exact congrArg (· + 1) (hs.trans hd.symm)
    · exact congrArg (· + 1) hcount
    · exact congrArg (· + 1) hcount
  · change (k.down.sent ++ [p.narrow])[m + 2]? = some q at hq
    by_cases hm : m + 2 < k.down.sent.length
    · rw [List.getElem?_append_left hm] at hq
      exact h.answers m q hq
    · -- the parcel is the answer to the last request
      rw [List.getElem?_append_right (not_lt.1 hm)] at hq
      obtain ⟨hlt, heq⟩ := List.getElem?_eq_some_iff.1 hq
      rw [List.length_singleton] at hlt
      rw [List.getElem_singleton] at heq
      subst heq
      rcases hsends with hpc | hpc | ⟨l, hpc, rfl⟩ | ⟨r, hpc, rfl⟩ <;> rw [hpc] at hcount
      · have hs := hcount.2
        omega
      · have hs := hcount.2
        omega
      · obtain ⟨q, hq, hown⟩ := hl l hpc
        have hlen : k.down.sent.length = k.up.decoded.length := hcount
        exact ⟨q, hq.getElem? (by omega), .laptop hown⟩
      · obtain ⟨q, hq, hrec⟩ := h.record r hpc
        have hlen : k.down.sent.length = k.up.decoded.length := hcount
        exact ⟨q, hq.getElem? (by omega), .record hrec⟩
  · change k.engineer.pc.sent = _ at hr
    rcases hsends with hpc | hpc | ⟨l, hpc, -⟩ | ⟨r, hpc, -⟩ <;> rw [hpc] at hr <;> cases hr

/-- A request of a client is an order, is answered with a record or is refused. -/
theorem onRequest_cases {q : CustomerRequest}
    (hq : q.requestType = if requestType = 1 then 1 else 2) :
    (onRequest f e q.narrow).2 = .leave ∨ (onRequest f e q.narrow).2 = .order ∨
      ∃ r, (onRequest f e q.narrow).2 = .record r ∧
        (r.customerId = q.narrow.customerId ∨ r = ⟨-1, -1⟩) := by
  have htype : q.narrow.requestType = 1 ∨ q.narrow.requestType = 2 := by
    change narrowInt q.requestType = 1 ∨ narrowInt q.requestType = 2
    rw [hq]
    split_ifs
    · exact .inl rfl
    · exact .inr rfl
  rw [onRequest, customerEngineer]
  by_cases hv : q.narrow.isValid
  · rw [if_neg (not_not.2 hv), if_neg (not_not.2 hv)]
    split_ifs with h₁ h₂
    · exact .inr (.inl rfl)
    · refine .inr (.inr ⟨_, rfl, ?_⟩)
      rw [createCustomerRecord]
      split
      · exact .inl rfl
      · exact .inr rfl
    · exact absurd htype (not_or.2 ⟨h₁, h₂⟩)
  · exact .inl (if_pos hv)

/-- The engineer has decoded the identity or a request. -/
theorem Conn.Answering.handle {n : ℕ} (h : k.Answering)
    (hup : (Role.customer requestType).Up k.up.decoded.length p)
    (hkind : k.engineer.pc.kind = some p.kind) :
    Conn.Answering { k with
      engineer := ⟨(LaptopPaxos.handle e f k.engineer.pc p).2, true⟩
      up := k.up.pull n (some (some p)) } := by
  have hcount := h.count
  have hlen : (k.up.decoded ++ [some p]).length = k.up.decoded.length + 1 := by
    rw [List.length_append, List.length_singleton]
  have hpc : (LaptopPaxos.handle e f k.engineer.pc p).2.Count (k.up.decoded.length + 1)
      k.down.sent.length ∧ ∀ r, (LaptopPaxos.handle e f k.engineer.pc p).2 = .record r →
        ∃ q, p = .message (.customerRequest q) ∧ (r.customerId = q.customerId ∨ r = ⟨-1, -1⟩) := by
    cases hd : k.up.decoded.length with
    | zero =>
      rw [hd] at hup hcount
      obtain rfl : p = .word 0 := hup
      cases hpc : k.engineer.pc <;> rw [hpc] at hkind hcount <;> cases hkind
      exact ⟨⟨rfl, hcount.2⟩, fun r hr => by cases hr⟩
    | succ d =>
      rw [hd] at hup hcount
      obtain ⟨q, rfl, hq⟩ := hup
      cases hpc : k.engineer.pc <;> rw [hpc] at hkind hcount <;> cases hkind
      change (onRequest f e q.narrow).2.Count _ _ ∧ ∀ r, (onRequest f e q.narrow).2 = _ → _
      have hsent : k.down.sent.length = d + 1 + 1 := hcount
      rcases onRequest_cases hq with heq | heq | ⟨r, heq, hr⟩ <;> rw [heq]
      · exact ⟨by simp only [SessionPc.Count]; omega, fun r hr => by cases hr⟩
      · exact ⟨hsent, fun r hr => by cases hr⟩
      · refine ⟨hsent, ?_⟩
        rintro _ ⟨⟩
        exact ⟨_, rfl, hr⟩
  refine ⟨?_, fun m q hq => ?_, fun r hr => ?_⟩
  · change (LaptopPaxos.handle e f k.engineer.pc p).2.Count (k.up.decoded ++ [some p]).length _
    rw [hlen]
    exact hpc.1
  · obtain ⟨q', hq', hans⟩ := h.answers m q hq
    refine ⟨q', ?_, hans⟩
    change (k.up.decoded ++ [some p])[m + 1]? = _
    rw [List.getElem?_append_left (List.getElem?_eq_some_iff.1 hq').1]
    exact hq'
  · obtain ⟨q, rfl, hrec⟩ := hpc.2 r hr
    exact ⟨q, List.getLast?_concat, hrec⟩

/-- A step of the engineer of a customer. -/
theorem Conn.Answering.move (h : k.Answering) (hl : k.LaptopLast)
    (hat : (Role.customer requestType).At k.up.decoded.length k.down.sent.length k.engineer.pc)
    (hmove : EngineerMove o o' (.customer requestType) e f fut k r k') : k'.Answering := by
  have hcount := h.count
  cases hmove with
  | @send p t hp hfac _ _ heng =>
    rw [heng]
    exact h.send hl hat hp
  | @handle p _ _ _ hup hkind hfac heng =>
    rw [heng]
    exact h.handle hup hkind
  | fail hfac heng hkind =>
    refine h.same rfl rfl (List.append_nil _) rfl ?_ fun r hr => ?_
    · change r.engineer.pc.Count _ _
      rw [heng]
      exact hcount.le
    · change _ = _ at hr
      rw [heng] at hr
      cases hr
  | wake hpc hval hfac heng =>
    rw [hpc] at hcount
    refine h.same rfl rfl rfl rfl ?_ fun r hr => ?_
    · change r.engineer.pc.Count _ _
      rw [heng]
      exact hcount
    · change _ = _ at hr
      rw [heng] at hr
      cases hr
  | leave hpc hfac heng =>
    refine h.same rfl rfl rfl rfl ?_ fun r hr => ?_
    · change r.engineer.pc.Count _ _
      rw [heng]
      exact hcount.le
    · change _ = _ at hr
      rw [heng] at hr
      cases hr

/-- A connection that has just been accepted. -/
theorem Conn.answering_accept (j : ℤ) : (s.accept j).Answering :=
  ⟨⟨rfl, rfl⟩, fun m p hp => (by cases hp), fun r hr => (by cases hr)⟩

theorem Conn.SameEngineer.answering (h : k.SameEngineer k') (hk : k.Answering) : k'.Answering := by
  refine ⟨?_, ?_, fun r hr => ?_⟩
  · rw [h.engineer, h.decoded, h.sent]
    exact hk.count
  · rw [h.server, h.id, h.decoded, h.sent]
    exact hk.answers
  · rw [h.engineer] at hr
    simpa only [Conn.Last, h.decoded] using hk.record r hr

namespace Net

/-- The laptop that an engineer is about to send is known from the desk. -/
theorem laptopLast_of_reachable (hs : (network H).Reachable s) (hk : s.conn ℓ = some k) :
    k.LaptopLast := by
  intro l hl
  obtain ⟨d, hd, hat⟩ := (refines_desk H k.server).reach hs
  have hon := hat.seated.engineer ℓ k hk rfl
  rw [Conn.OnDesk, hl] at hon
  obtain ⟨q, hback, hlast⟩ := hon
  have hserved := (delivering_of_reachable hd).engineer k.id
  rw [hback] at hserved
  exact ⟨q, hlast, hserved.2.ownLaptop⟩

theorem answering_of_reachable (hs : (network H).Reachable s) {c : ℤ} {n : ℕ}
    (hk : s.conn (.customer c n) = some k) : k.Answering := by
  induction hs generalizing k n with
  | init hs =>
    obtain ⟨client, -, rfl⟩ := hs
    cases hk
  | @step s s' act hs _ hst ih =>
    have hstems : ∀ {dial}, s.Stems dial s' (.customer c n) k → k.Answering := by
      intro dial hstems
      cases hstems with
      | old hk hsame => exact hsame.answering (ih hk)
      | new _ hsame => exact hsame.answering (Conn.answering_accept _)
    cases netStep_cases hst with
    | @engineer ℓ answers k₀ r hk₀ hr hu =>
      by_cases hℓ : .customer c n = ℓ
      · subst hℓ
        rw [conn_applyEngineer_self] at hk
        cases hk
        have hheard := (regular_of_reachable hs).heard hk₀
        exact (ih hk₀).move (laptopLast_of_reachable hs hk₀) hheard.engineer (hr.move hheard hu)
      · rw [conn_applyEngineer_of_ne hℓ] at hk
        exact ih hk
    | scout => exact hstems (stems_applyScout hk)
    | client hr => exact hstems (stems_applyClient hr hk)

/-- On every connection of a customer, the answers that have been sent are the answers to
    the requests that have been decoded, one for each and in their order. -/
theorem answers_in_order (hs : (network H).Reachable s) {c : ℤ} {n : ℕ} {k : Conn}
    (hk : s.conn (.customer c n) = some k) :
    k.down.sent.length ≤ k.up.decoded.length + 1 ∧
      ∀ m p, k.down.sent[m + 2]? = some p → ∃ q,
        k.up.decoded[m + 1]? = some (some (.message (.customerRequest q))) ∧
          Answer k.server k.id q p :=
  have h := answering_of_reachable hs hk
  ⟨h.count.le, h.answers⟩

/-- After the run of an order. -/
theorem answers_in_order_one : ∃ (s : Net) (k : Conn), s.conn (.customer 0 1) = some k ∧
    k.down.sent[2]? = some (.message (.laptopInfo ⟨7, 0, 1, 0, 1⟩)) ∧ ∃ q,
      k.up.decoded[1]? = some (some (.message (.customerRequest q))) ∧
        Answer k.server k.id q (.message (.laptopInfo ⟨7, 0, 1, 0, 1⟩)) := by
  have hinit : (network OneOrder.hosts).Reachable OneOrder.init := .init OneOrder.init_mem
  obtain ⟨s, hs, k, hk, hsent⟩ := hinit.exists_of_runBy
    (P := fun s => ∃ k ∈ s.conn (.customer 0 1),
      k.down.sent[2]? = some (.message (.laptopInfo ⟨7, 0, 1, 0, 1⟩))) OneOrder.run
    (by decide +kernel)
  exact ⟨s, k, hk, hsent, (answers_in_order hs hk).2 0 _ hsent⟩

/-- In the framed runs, what a client receives is the answer to its own request. -/
theorem own_answers (hs : (network H).ReachBy (Benign H) s) {c : ℤ} {n m : ℕ} {k : Conn}
    (hk : s.conn (.customer c n) = some k) (hp : k.down.decoded[m + 2]? = some (some p)) :
    ∃ q, (s.client c).Makes q ∧
      k.up.sent[m + 1]? = some (.message (.customerRequest q.narrow)) ∧
      Answer k.server k.id q.narrow p := by
  have hinv := (inv_of_reachBy hs).conn _ k hk
  have hcalled := ((regular_of_reachable hs.reachable).line c n k hk).called
  obtain ⟨q', hq', hans⟩ := (answering_of_reachable hs.reachable hk).answers m p
    (hinv.down.sent_of_decoded hp)
  have hup := hcalled.up.sent_of_decoded hq'
  obtain ⟨q, hq, heq⟩ := hcalled.plan (m + 1) _ hup
  cases heq
  exact ⟨q, hq, hup, hans⟩

theorem own_answers_one : ∃ (s : Net) (k : Conn) (q : CustomerRequest),
    s.conn (.customer 0 1) = some k ∧ (s.client 0).Makes q ∧
      Answer k.server k.id q.narrow (.message (.laptopInfo ⟨7, 0, 1, 0, 1⟩)) := by
  have hinit : (network OneOrder.hosts).ReachBy (Benign OneOrder.hosts) OneOrder.init :=
    .init OneOrder.init_mem
  obtain ⟨s, hs, k, hk, hdec⟩ := hinit.exists_of_runBy
    (P := fun s => ∃ k ∈ s.conn (.customer 0 1),
      k.down.decoded[2]? = some (some (.message (.laptopInfo ⟨7, 0, 1, 0, 1⟩)))) OneOrder.run
    (by decide +kernel)
  obtain ⟨q, hq, -, hans⟩ := own_answers (m := 0) hs hk hdec
  exact ⟨s, k, q, hk, hq, hans⟩

end Net

end

end LaptopPaxos
