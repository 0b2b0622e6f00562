import LaptopPaxos.ClientThread

/-!
# Orders in turn

What becomes of the orders of a client when it loses its connection in the loop
of `Orders`. An observer keeps the history of the orders.

The jump to `continue_outer` behind a reconnection leads to the increment of
the loop, so that the outstanding order is skipped. As long as no server accepts
a new connection, the orders are taken in turn (`orders_in_turn`), and never
after a failover (`not_inTurn_of_failover`).
-/

namespace LaptopPaxos

open Reader

/-- A client that orders laptops, with servers that send anything. -/
def customerOrders (o : ByteOrder) : Machine Client ClientEnv where
  init := {c | c.pc = .init ∧ c.requestType = 1 ∧ c.serverConfig = {}}
  step := (customer o).step

/-! ### Turns -/

/-- What happens to the orders of a client. -/
inductive OrderEvent
  /-- `Orders` is at the head of its loop, with the loop variable `i`. -/
  | turn (i : ℤ)
  /-- The order `i` has gone out. -/
  | sent (i : ℤ)
  /-- A valid laptop has been received for the order `i`. -/
  | answered (i : ℤ)
  /-- A server has accepted a new connection while the order `i` was outstanding. -/
  | reconnected (i : ℤ)
  deriving DecidableEq

/-- The order after the order `i` has its turn only once `i` has been answered.
    After a reconnection, the outstanding order is sent before any later one. -/
def OrderEvent.InTurn : OrderEvent → List OrderEvent → Prop
  | turn j, h => ∀ i, j = i + 1 → 0 ≤ i → answered i ∈ h
  | sent j, h => ∀ i h₁ h₂, h = h₁ ++ reconnected i :: h₂ → i < j → sent i ∈ h₁
  | _, _ => True

/-- What a step of `Orders` means for the orders, the newest event first. -/
def orderEvents (o : ByteOrder) (c : Client) (r : ClientEffect) : List OrderEvent :=
  match c.pc with
  | .config i _ => if r.client.pc = .fault then [] else [.turn i]
  | .request i => if r.transfer.ok then [.sent i] else []
  | .answer i =>
    (messageOf (LaptopInfo.unmarshal o) {}
      (if r.transfer.ok then some r.transfer.bytes else none)).elim [] fun laptop =>
        if ¬laptop.isValid then []
        else if laptop.adminId = -5 then [.answered i]
        else [.turn (i + 1), .answered i]
  | .reconnect i _ => if r.connected.isSome then [.reconnected i] else []
  | _ => []

def noteOrders (o : ByteOrder) (h : List OrderEvent) (c : Client) (env : ClientEnv) :
    List OrderEvent :=
  ((clientStep o env c).elim [] (orderEvents o c)) ++ h

/-- The client together with the history of its orders. -/
abbrev turns (o : ByteOrder) : Machine (Client × List OrderEvent) ClientEnv :=
  (customerOrders o).observe [] (noteOrders o)

/-- The server that the client tries next does not accept the connection. -/
def Client.Refused (c : Client) (env : ClientEnv) : Prop :=
  ∀ i server servers, c.pc = .reconnect i (server :: servers) → env.accepted = false

instance (c : Client) (env : ClientEnv) : Decidable (c.Refused env) :=
  match h : c.pc with
  | .reconnect _ (_ :: _) => decidable_of_iff (env.accepted = false)
      ⟨fun he _ _ _ _ => he, fun he => he _ _ _ h⟩
  | .reconnect _ [] | .init | .identify _ | .header _ | .config _ _ | .request _ | .answer _ | .done
  | .fault => .isTrue fun _ _ _ hpc => by cases h.symm.trans hpc

/-- The order before which the thread gets ready to send. -/
def ClientPc.handshake : ClientPc → Option ℤ
  | identify i | header i | config i _ => some i
  | _ => none

/-- The first order that has not been answered. -/
def ClientPc.outstanding : ClientPc → Option ℤ
  | init => some (-1)
  | identify i | header i | config i _ => some (i - 1)
  | request i | answer i | reconnect i _ => some i
  | done | fault => none

section

variable {o : ByteOrder} {c : Client} {env : ClientEnv} {r : ClientEffect} {i : ℤ} {t : Transfer}
  {p p' : Client × List OrderEvent}

theorem Client.head_cases (c : Client) (i : ℤ) : c.head i = .request i ∨ c.head i = .done := by
  rw [head]
  split_ifs
  · exact .inl rfl
  · exact .inr rfl
  · exact .inl rfl
  · exact .inr rfl

/-- After the configuration, the loop goes on with its next order. -/
theorem Client.pc_receiveServerConfig (c : Client) (i : ℤ) (size : ℕ) (t : Transfer) :
    (c.receiveServerConfig o i size t).pc = .fault ∨
      (c.receiveServerConfig o i size t).pc = .request i ∨
        (c.receiveServerConfig o i size t).pc = .done := by
  rw [receiveServerConfig]
  split
  · exact .inl rfl
  · exact .inr (Client.head_cases _ i)

/-- What a step of the observed client is. -/
theorem step_turns (h : (turns o).step p env = some p') :
    ∃ r, ClientStep o env p.1 r ∧ p'.1 = r.client ∧ p'.2 = orderEvents o p.1 r ++ p.2 := by
  obtain ⟨hst, hnote⟩ := Machine.step_observe.1 h
  obtain ⟨r, hr, hc⟩ := Option.map_eq_some_iff.1 hst
  refine ⟨r, clientStep_cases hr, hc.symm, ?_⟩
  rw [hnote, noteOrders, hr]
  rfl

/-- Where `Orders` goes on with the answer to the order `i`, and what has happened. -/
theorem Client.answered_cases (h1 : c.requestType = 1) (hpc : c.pc = .answer i)
    (hr : r.client.pc = c.answered o i (if r.transfer.ok then some r.transfer.bytes else none)) :
    (∃ servers, r.client.pc = .reconnect i servers ∧ orderEvents o c r = []) ∨
      ((r.client.pc = .done ∨ r.client.pc = .fault) ∧
        (orderEvents o c r = [] ∨ orderEvents o c r = [.answered i])) ∨
      r.client.pc = c.head (i + 1) ∧ orderEvents o c r = [.turn (i + 1), .answered i] := by
  rw [Client.answered, if_pos h1] at hr
  rw [hr, orderEvents, hpc]
  dsimp only
  cases messageOf (LaptopInfo.unmarshal o) {}
      (if r.transfer.ok = true then some r.transfer.bytes else none) with
  | none => exact .inr (.inl ⟨.inr rfl, .inl rfl⟩)
  | some laptop =>
    rw [Option.elim_some, Option.elim_some, onLaptop]
    by_cases hadmin : laptop.adminId = -5
    · rw [if_pos hadmin, if_pos hadmin]
      refine .inr (.inl ⟨.inl rfl, ?_⟩)
      by_cases hvalid : laptop.isValid
      · exact .inr (if_neg (not_not.2 hvalid))
      · exact .inl (if_pos hvalid)
    · rw [if_neg hadmin, if_neg hadmin]
      by_cases hvalid : laptop.isValid
      · rw [if_neg (not_not.2 hvalid), if_neg (not_not.2 hvalid)]
        exact .inr (.inr ⟨rfl, rfl⟩)
      · rw [if_pos hvalid, if_pos hvalid]
        exact .inl ⟨_, rfl, rfl⟩

/-- An order that has not gone out has no answer. -/
theorem Client.answered_none (h1 : c.requestType = 1) (i : ℤ) :
    c.answered o i none = .reconnect i (c.serverConfig.servers.entries.map Prod.snd) := by
  rw [Client.answered, if_pos h1]
  rfl

/-! ### Runs without a failover -/

/-- The orders are taken in turn, and there has been no reconnection. -/
structure InOrder (p : Client × List OrderEvent) : Prop where
  requestType : p.1.requestType = 1
  inTurn : Justified OrderEvent.InTurn p.2
  not_reconnected : ∀ i, .reconnected i ∉ p.2
  first : ∀ i ∈ p.1.pc.handshake, i = 0

/-- A step that adds no event and makes no new connection. -/
theorem InOrder.quiet (h : InOrder p) (h1 : r.client.requestType = 1)
    (hev : orderEvents o p.1 r = []) (hhand : ∀ i ∈ r.client.pc.handshake, i = 0) :
    InOrder (r.client, orderEvents o p.1 r ++ p.2) := by
  rw [hev]
  exact ⟨h1, h.inTurn, h.not_reconnected, hhand⟩

theorem InOrder.answer (h : InOrder p) (hpc : p.1.pc = .answer i) (h1 : r.client.requestType = 1)
    (hr : r.client.pc = p.1.answered o i (if r.transfer.ok then some r.transfer.bytes else none)) :
    InOrder (r.client, orderEvents o p.1 r ++ p.2) := by
  rcases Client.answered_cases h.requestType hpc hr with
    ⟨servers, hpc', hev⟩ | ⟨hpc', hev⟩ | ⟨hpc', hev⟩
  · exact h.quiet h1 hev (by rw [hpc']; rintro j ⟨⟩)
  · have hhand : ∀ j ∈ r.client.pc.handshake, j = 0 := by
      rcases hpc' with hpc' | hpc' <;> rw [hpc'] <;> rintro j ⟨⟩
    rcases hev with hev | hev
    · exact h.quiet h1 hev hhand
    · rw [hev]
      exact ⟨h1, ⟨trivial, h.inTurn⟩, fun j hj => h.not_reconnected j
        (List.mem_of_ne_of_mem OrderEvent.noConfusion hj), hhand⟩
  · have hhand : ∀ j ∈ r.client.pc.handshake, j = 0 := by
      rw [hpc']
      rcases p.1.head_cases (i + 1) with hhead | hhead <;> rw [hhead] <;> rintro j ⟨⟩
    rw [hev]
    refine ⟨h1, ⟨fun j hj _ => ?_, trivial, h.inTurn⟩, fun j hj => h.not_reconnected j ?_, hhand⟩
    · obtain rfl : i = j := by omega
      exact List.mem_cons_self
    · exact List.mem_of_ne_of_mem OrderEvent.noConfusion
        (List.mem_of_ne_of_mem OrderEvent.noConfusion hj)

theorem InOrder.step (h : InOrder p) (hok : p.1.Refused env) (hst : (turns o).step p env = some p') :
    InOrder p' := by
  obtain ⟨c, hist⟩ := p
  obtain ⟨c', hist'⟩ := p'
  obtain ⟨r, hr, rfl, rfl⟩ := step_turns hst
  have h1 : r.client.requestType = 1 := hr.requestType.trans h.requestType
  have hfirst : ∀ i ∈ c.pc.handshake, i = 0 := h.first
  cases hr with
  | init hpc =>
    refine h.quiet h1 (by rw [orderEvents, hpc]) ?_
    rw [Client.reconnect]
    split_ifs
    · rintro i ⟨⟩
      rfl
    · rintro i ⟨⟩
  | identify hpc =>
    rw [hpc] at hfirst
    exact h.quiet h1 (by rw [orderEvents, hpc]) hfirst
  | header hpc =>
    rw [hpc] at hfirst
    exact h.quiet h1 (by rw [orderEvents, hpc]) hfirst
  | @config i size t hpc ht =>
    -- This is the first handshake, and the loop begins.
    rw [hpc] at hfirst
    obtain rfl : i = 0 := hfirst i rfl
    have hhand : ∀ i ∈ (c.receiveServerConfig o 0 size t).pc.handshake, i = 0 := by
      rcases c.pc_receiveServerConfig 0 size t with h | h | h <;> rw [h] <;> rintro i ⟨⟩
    by_cases hfault : (c.receiveServerConfig o 0 size t).pc = .fault
    · refine h.quiet h1 ?_ hhand
      rw [orderEvents, hpc]
      exact if_pos hfault
    · have hev : orderEvents o c { client := c.receiveServerConfig o 0 size t, transfer := t } =
          [.turn 0] := by
        rw [orderEvents, hpc]
        exact if_neg hfault
      rw [hev]
      refine ⟨h1, ⟨fun i hi h0 => by omega, h.inTurn⟩, fun i hi => ?_, hhand⟩
      exact h.not_reconnected i (List.mem_of_ne_of_mem OrderEvent.noConfusion hi)
  | @request i t hpc ht =>
    have hhand : ∀ j ∈ (if t.ok then .answer i else c.answered o i none : ClientPc).handshake,
        j = 0 := by
      rw [Client.answered_none h.requestType]
      split_ifs <;> rintro j ⟨⟩
    by_cases hok : t.ok = true
    · have hev : orderEvents o c { client := { c with
            pc := if t.ok then .answer i else c.answered o i none
            isInitialized := c.isInitialized && t.ok }, transfer := t } = [.sent i] := by
        rw [orderEvents, hpc]
        exact if_pos hok
      rw [hev]
      refine ⟨h1, ⟨fun j h₁ h₂ hh _ => ?_, h.inTurn⟩, fun j hj => ?_, hhand⟩
      · have hmem : .reconnected j ∈ h₁ ++ .reconnected j :: h₂ :=
          List.mem_append_right h₁ List.mem_cons_self
        rw [← hh] at hmem
        exact absurd hmem (h.not_reconnected j)
      · exact h.not_reconnected j (List.mem_of_ne_of_mem OrderEvent.noConfusion hj)
    · refine h.quiet h1 ?_ hhand
      rw [orderEvents, hpc]
      exact if_neg hok
  | answer hpc => exact h.answer hpc h1 rfl
  | lost hpc => exact h.quiet h1 (by rw [orderEvents, hpc]; rfl) (by rintro i ⟨⟩)
  | @retry i server servers hpc =>
    have hrefused : ¬env.accepted = true := ne_true_of_eq_false (hok i server servers hpc)
    rw [Client.reconnect, if_neg hrefused] at h1 ⊢
    exact h.quiet h1 (by rw [orderEvents, hpc]; rfl) (by rintro i ⟨⟩)

/-- As long as no reconnection succeeds, the orders are taken in turn. -/
theorem orders_in_turn (h : (turns o).ReachBy (fun p env => p.1.Refused env) p) :
    Justified OrderEvent.InTurn p.2 := by
  refine InOrder.inTurn (h.invariant (fun p hp => ?_) fun p env p' _ hinv hok hst =>
    hinv.step hok hst)
  obtain ⟨⟨hpc, h1, -⟩, hhist⟩ := hp
  obtain ⟨c, hist⟩ := p
  cases hhist
  refine ⟨h1, trivial, fun i => List.not_mem_nil, ?_⟩
  rw [hpc]
  rintro i ⟨⟩

namespace Failover

/-- A customer with two orders, who knows the server `1` only. -/
def client : Client :=
  { server := ⟨"127.0.0.1", 8001⟩, customerId := 7, numOrders := 2, requestType := 1 }

def config : ServerConfig := ⟨StdMap.empty.insert 1 ⟨"127.0.0.1", 8001⟩⟩

/-- The next `Send` takes `n` bytes. -/
def gives (n : ℕ) : ClientEnv := { answers := { send := [n] } }

/-- The next `Recv` finds these bytes. -/
def takes (bs : List UInt8) : ClientEnv := { answers := { recv := [bs] } }

/-- A connection is made, and the server sends its configuration. -/
def handshake : List ClientEnv :=
  [{}, gives 4, takes (putInt .little config.size), takes (config.marshal .little)]

/-- An order is answered with a valid laptop. -/
def order (i : ℤ) : List ClientEnv := [gives 12, takes (LaptopInfo.marshal .little ⟨7, i, 1, 0, 1⟩)]

/-- An order goes out, and the connection is lost. -/
def loss : List ClientEnv := [gives 12, takes []]

def refused : ClientEnv := { accepted := false }

end Failover

/-- The connection is lost with the second order, and the server does not come back. -/
theorem orders_in_turn_refused : ∃ p : Client × List OrderEvent,
    p.2 = [.sent 1, .turn 1, .answered 0, .sent 0, .turn 0] ∧ p.1.pc = .done ∧
      Justified OrderEvent.InTurn p.2 := by
  have hinit : (turns .little).ReachBy (fun p env => p.1.Refused env) (Failover.client, []) :=
    .init ⟨⟨rfl, rfl, rfl⟩, rfl⟩
  obtain ⟨p, hp, hhist, hpc⟩ := hinit.exists_of_runBy
    (P := fun p => p.2 = [.sent 1, .turn 1, .answered 0, .sent 0, .turn 0] ∧ p.1.pc = .done)
    (Failover.handshake ++ Failover.order 0 ++ Failover.loss ++ [Failover.refused, {}])
    (by decide +kernel)
  exact ⟨p, hhist, hpc, orders_in_turn hp⟩

/-- The connection is lost with the first order, and the client goes on with the
    second one after it has connected again. -/
theorem not_orders_in_turn : ¬∀ o p, (turns o).Reachable p → Justified OrderEvent.InTurn p.2 := by
  intro h
  have hinit : (turns .little).Reachable (Failover.client, []) := .init ⟨⟨rfl, rfl, rfl⟩, rfl⟩
  obtain ⟨p, hp, hhist⟩ := hinit.exists_of_runBy
    (P := fun p => p.2 = [.turn 1, .reconnected 0, .sent 0, .turn 0])
    (Failover.handshake ++ Failover.loss ++ Failover.handshake) (by decide +kernel)
  have hturn := h _ p hp
  rw [hhist] at hturn
  exact absurd (hturn.1 0 rfl le_rfl) (by decide)

/-! ### After a failover -/

/-- The outstanding order and the later ones have no answer. -/
structure Unanswered (p : Client × List OrderEvent) : Prop where
  requestType : p.1.requestType = 1
  lt : ∀ i ∈ p.1.pc.outstanding, ∀ k, .answered k ∈ p.2 → k < i

/-- Only a step that waits for an answer gets one. -/
theorem answered_not_mem (hpc : ∀ i, c.pc ≠ .answer i) (r : ClientEffect) (k : ℤ) :
    .answered k ∉ orderEvents o c r := by
  have hsingle : ∀ ev, .answered k ≠ ev → OrderEvent.answered k ∉ [ev] :=
    fun ev hne hk => hne (List.mem_singleton.1 hk)
  rw [orderEvents.eq_def]
  split
  · split_ifs
    · exact List.not_mem_nil
    · exact hsingle _ OrderEvent.noConfusion
  · split_ifs
    · exact hsingle _ OrderEvent.noConfusion
    · exact List.not_mem_nil
  · next heq => exact absurd heq (hpc _)
  · split_ifs
    · exact hsingle _ OrderEvent.noConfusion
    · exact List.not_mem_nil
  · exact List.not_mem_nil

/-- A step without an answer, which goes back to no earlier order. -/
theorem Unanswered.quiet (h : Unanswered p) (h1 : r.client.requestType = 1)
    (hpc : ∀ i, p.1.pc ≠ .answer i)
    (hle : ∀ j ∈ r.client.pc.outstanding, ∃ i ∈ p.1.pc.outstanding, i ≤ j) :
    Unanswered (r.client, orderEvents o p.1 r ++ p.2) := by
  refine ⟨h1, fun j hj k hk => ?_⟩
  obtain ⟨i, hi, hij⟩ := hle j hj
  rcases List.mem_append.1 hk with hk | hk
  · exact absurd hk (answered_not_mem hpc r k)
  · exact (h.lt i hi k hk).trans_le hij

theorem Unanswered.answer (h : Unanswered p) (hpc : p.1.pc = .answer i)
    (h1 : r.client.requestType = 1)
    (hr : r.client.pc = p.1.answered o i (if r.transfer.ok then some r.transfer.bytes else none)) :
    Unanswered (r.client, orderEvents o p.1 r ++ p.2) := by
  rcases Client.answered_cases h.requestType hpc hr with
    ⟨servers, hpc', hev⟩ | ⟨hpc', -⟩ | ⟨hpc', hev⟩
  · rw [hev]
    refine ⟨h1, fun j hj k hk => ?_⟩
    rw [hpc'] at hj
    cases hj
    exact h.lt i (by rw [hpc]; rfl) k hk
  · refine ⟨h1, ?_⟩
    rcases hpc' with hpc' | hpc' <;> rw [hpc'] <;> rintro j ⟨⟩
  · have hlt : ∀ k, .answered k ∈ orderEvents o p.1 r ++ p.2 → k < i + 1 := by
      intro k hk
      rw [hev] at hk
      rcases List.mem_cons.1 hk with hk | hk
      · cases hk
      · rcases List.mem_cons.1 hk with hk | hk
        · cases hk
          exact Int.lt_succ _
        · exact (h.lt i (by rw [hpc]; rfl) k hk).trans (Int.lt_succ i)
    refine ⟨h1, ?_⟩
    rw [hpc']
    rcases p.1.head_cases (i + 1) with hhead | hhead <;> rw [hhead] <;> rintro j ⟨⟩
    exact hlt

theorem Unanswered.step (h : Unanswered p) (hst : (turns o).step p env = some p') :
    Unanswered p' := by
  obtain ⟨c, hist⟩ := p
  obtain ⟨c', hist'⟩ := p'
  obtain ⟨r, hr, rfl, rfl⟩ := step_turns hst
  have h1 : r.client.requestType = 1 := hr.requestType.trans h.requestType
  -- Where the client does not wait for an answer.
  have hno : ∀ {pc}, c.pc = pc → (∀ i, pc ≠ .answer i) → ∀ i, c.pc ≠ .answer i :=
    fun hpc hne i hi => hne i (hpc.symm.trans hi)
  cases hr with
  | init hpc =>
    refine h.quiet h1 (hno hpc fun _ => ClientPc.noConfusion) ?_
    rw [hpc, Client.reconnect]
    split_ifs
    · rintro j ⟨⟩
      exact ⟨-1, rfl, le_rfl⟩
    · rintro j ⟨⟩
  | @identify i t hpc ht =>
    refine h.quiet h1 (hno hpc fun _ => ClientPc.noConfusion) ?_
    rw [hpc]
    rintro j ⟨⟩
    exact ⟨i - 1, rfl, le_rfl⟩
  | @header i t hpc ht =>
    refine h.quiet h1 (hno hpc fun _ => ClientPc.noConfusion) ?_
    rw [hpc]
    rintro j ⟨⟩
    exact ⟨i - 1, rfl, le_rfl⟩
  | @config i size t hpc ht =>
    refine h.quiet h1 (hno hpc fun _ => ClientPc.noConfusion) ?_
    rw [hpc]
    rcases c.pc_receiveServerConfig i size t with hpc' | hpc' | hpc' <;> rw [hpc'] <;> rintro j ⟨⟩
    exact ⟨i - 1, rfl, Int.sub_le_self _ Int.one_nonneg⟩
  | @request i t hpc ht =>
    refine h.quiet h1 (hno hpc fun _ => ClientPc.noConfusion) ?_
    rw [hpc, Client.answered_none h.requestType]
    split_ifs <;> rintro j ⟨⟩ <;> exact ⟨i, rfl, le_rfl⟩
  | answer hpc => exact h.answer hpc h1 rfl
  | lost hpc => exact h.quiet h1 (hno hpc fun _ => ClientPc.noConfusion) (by rintro j ⟨⟩)
  | @retry i server servers hpc =>
    refine h.quiet h1 (hno hpc fun _ => ClientPc.noConfusion) ?_
    rw [hpc, Client.reconnect]
    split_ifs
    · rintro j ⟨⟩
      exact ⟨i, rfl, (add_sub_cancel_right i 1).ge⟩
    · rintro j ⟨⟩
      exact ⟨i, rfl, le_rfl⟩

/-- Once the configuration of a new server has been received, the orders are no
    longer taken in turn. -/
theorem not_inTurn_of_failover {size : ℕ} (h : (turns o).Reachable p) (h0 : 0 ≤ i)
    (hpc : p.1.pc = .config (i + 1) size) (hst : (turns o).step p env = some p')
    (hfault : p'.1.pc ≠ .fault) : ¬Justified OrderEvent.InTurn p'.2 := by
  have hun : Unanswered p := by
    refine h.invariant (fun p hp => ?_) fun p env p' _ hinv _ hst => hinv.step hst
    obtain ⟨⟨hpc, h1, -⟩, hhist⟩ := hp
    obtain ⟨c, hist⟩ := p
    cases hhist
    exact ⟨h1, fun i _ k hk => absurd hk List.not_mem_nil⟩
  obtain ⟨c, hist⟩ := p
  obtain ⟨c', hist'⟩ := p'
  obtain ⟨r, -, rfl, rfl⟩ := step_turns hst
  have hev : orderEvents o c r = [.turn (i + 1)] := by
    rw [orderEvents, show c.pc = _ from hpc]
    exact if_neg hfault
  rw [hev]
  rintro ⟨hturn, -⟩
  have hlt := hun.lt (i + 1 - 1) (by rw [show c.pc = _ from hpc]; rfl) i (hturn i rfl h0)
  omega

end

end LaptopPaxos
