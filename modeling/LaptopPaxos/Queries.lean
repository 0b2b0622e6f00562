import LaptopPaxos.Answers
import LaptopPaxos.Logged

/-!
# Queries after an order

What a customer can rely on when it asks for its record. Once a server has answered an order
of the customer, and not with the sign that there are too few acceptors, it has a record of
the customer, and keeps one. So every query that it receives from then on, on whichever
connection, is answered with the record of the customer, and the order in it is one that this
server has received (`Net.read_your_orders`). Another server may know nothing of it.
-/

namespace LaptopPaxos

open LaptopFactory

/-! ### A record for each answer -/

/-- The server has recorded an order of every customer to which a laptop has been returned with
    success. -/
def Noted (h : List Event) : Prop :=
  ∀ i laptop, .returned i laptop 1 ∈ h → ∃ n, .recorded i laptop.customerId n ∈ h

section

variable {D : Deployment} {c c' : Cluster} {act : Action} {i : ℤ} {laptop : LaptopInfo}
  {h : List Event} {customerId n : ℤ}

theorem ScoutStep.noted {f : LaptopFactory} {inbox : ℤ → List PaxosMsg} {env : Env} {pc : ScoutPc}
    {e : Effect} {j : ℤ} (hs : ScoutStep i f inbox env pc e) (hev : .returned j laptop 1 ∈ e.events) :
    .recorded j laptop.customerId laptop.orderNumber ∈ e.events := by
  cases hs with
  | record =>
    rcases List.mem_cons.1 hev with hev | hev
    · cases hev
      exact List.mem_cons_of_mem _ List.mem_cons_self
    · cases List.mem_singleton.1 hev
  | _ => simp [LaptopPaxos.pickSlot, scoutConnect, commanderConnect, scoutReturn] at hev

theorem Noted.step (hn : Noted c.hist) (hst : Step D c act c') : Noted c'.hist := by
  intro i laptop hl
  cases hst.replica with
  | quiet hq =>
    obtain ⟨evs, hh, hevs⟩ := hq.hist
    rw [hh] at hl ⊢
    obtain ⟨n, hmem⟩ := hn i laptop ((List.mem_append.1 hl).resolve_left fun hnew => hevs _ hnew)
    exact ⟨n, List.mem_append_right _ hmem⟩
  | scout _ hs =>
    rcases List.mem_append.1 hl with hnew | hold
    · exact ⟨_, List.mem_append_left _ (hs.noted hnew)⟩
    · obtain ⟨n, hmem⟩ := hn i laptop hold
      exact ⟨n, List.mem_append_right _ hmem⟩
  | @learner a i msg rest _ _ =>
    obtain ⟨evs, hh, hevs⟩ := @Cluster.learnEvents c (fun ev => ∃ v, ev = .learned a v) a
      (fun v => ⟨v, rfl⟩) i msg rest
    rw [hh] at hl ⊢
    rcases List.mem_append.1 hl with hnew | hold
    · obtain ⟨v, heq⟩ := hevs _ hnew
      cases heq
    · obtain ⟨n, hmem⟩ := hn _ laptop hold
      exact ⟨n, List.mem_append_right _ hmem⟩

theorem noted_of_reachable (hc : (cluster D).Reachable c) : Noted c.hist :=
  @reach_invariant D c _ (fun c => Noted c.hist) hc (fun _ _ hl => absurd hl List.not_mem_nil)
    fun _ _ hn hst => hn.step hst

/-- A server has a record of every customer to which its Scout has returned a laptop with
    success. -/
theorem isSome_customerRecord (hc : (cluster D).Reachable c) (hl : .returned i laptop 1 ∈ c.hist) :
    ∃ n, (c.factory i).customerRecord.find? laptop.customerId = some n := by
  obtain ⟨n, hmem⟩ := noted_of_reachable hc i laptop hl
  rw [customerRecord_eq hc, ← Option.isSome_iff_exists, lastRecorded, List.findSome?_isSome_iff]
  exact ⟨_, hmem, by rw [Event.recordAt, if_pos ⟨rfl, rfl⟩]; rfl⟩

end

/-! ### What an engineer answers -/

/-- From its `n`-th parcel on, the engineer answers every query for the customer `x` with a
    record that meets `P`. -/
structure Conn.Recalls (n : ℕ) (x : ℤ) (P : CustomerRecord → Prop) (k : Conn) : Prop where
  sent : ∀ m q r, n ≤ m → k.up.decoded[m]? = some (some (.message (.customerRequest q))) →
    q.customerId = x → k.down.sent[m + 1]? = some (.message (.customerRecord r)) → P r
  hand : ∀ q r, n < k.up.decoded.length → k.Last q → q.customerId = x →
    k.engineer.pc = .record r → P r

section

variable {n : ℕ} {x e : ℤ} {P Q : CustomerRecord → Prop} {k k' : Conn} {o o' : ByteOrder}
  {f : LaptopFactory} {fut : Option LaptopInfo} {r : EngineerEffect} {p : Parcel}
  {requestType : ℤ}

theorem Conn.Recalls.mono (h : k.Recalls n x P) (hPQ : ∀ r, P r → Q r) : k.Recalls n x Q :=
  ⟨fun m q r hn hq hx hr => hPQ r (h.sent m q r hn hq hx hr),
    fun q r hn hq hx hr => hPQ r (h.hand q r hn hq hx hr)⟩

/-- Nothing has been decoded since. -/
theorem Conn.recalls_new (hn : k.up.decoded.length ≤ n) : k.Recalls n x P := by
  refine ⟨fun m q r hm hq => ?_, fun q r hlt => absurd hn (not_le.2 hlt)⟩
  rw [List.getElem?_eq_none (hn.trans hm)] at hq
  cases hq

theorem Conn.SameEngineer.recalls (hs : k.SameEngineer k') (h : k.Recalls n x P) :
    k'.Recalls n x P := by
  refine ⟨fun m q r => ?_, fun q r => ?_⟩
  · rw [hs.decoded, hs.sent]
    exact h.sent m q r
  · rw [hs.decoded, hs.engineer, Conn.Last, hs.decoded]
    exact h.hand q r

/-- Only a record is sent as one. -/
theorem SessionPc.record_of_parcel {pc : SessionPc} {r : CustomerRecord}
    (hp : pc.parcel f = some p) (hr : p.narrow = .message (.customerRecord r)) :
    ∃ r', pc = .record r' ∧ r = r'.narrow := by
  cases pc <;> cases hp <;> cases hr
  exact ⟨_, rfl, rfl⟩

/-- A record in hand is the one that the server has. -/
theorem Handled.record_eq {q : CustomerRequest} {x : LaptopFactory × SessionPc} {r : CustomerRecord}
    (h : Handled e f (.message (.customerRequest q)) x) (hr : x.2 = .record r) :
    r = f.createCustomerRecord q := by
  cases h with
  | order => cases hr
  | record hq =>
    cases hq
    cases hr
    rfl
  | @acceptor m pc hfree | @learner m pc hfree | @free pc hfree =>
    obtain rfl : pc = .record r := hr
    exact hfree.elim

/-- A step of the engineer. -/
theorem Conn.Recalls.move (h : k.Recalls n x P) (hans : k.Answering)
    (hmove : EngineerMove o o' (.customer requestType) e f fut k r k')
    (hnarrow : ∀ r, P r → r.narrow = r)
    (hknown : ∀ q, q.customerId = x → P (f.createCustomerRecord q)) : k'.Recalls n x P := by
  have hcount := hans.count
  -- without a query in hand
  have hfree : ∀ {k' : Conn}, k'.up.decoded = k.up.decoded → k'.down.sent = k.down.sent →
      (∀ r, k'.engineer.pc ≠ .record r) → k'.Recalls n x P := by
    intro k' hdec hsent hpc
    refine ⟨fun m q r => ?_, fun q r _ _ _ hr => absurd hr (hpc r)⟩
    rw [hdec, hsent]
    exact h.sent m q r
  cases hmove with
  | @send p t hp hfac _ _ heng =>
    refine ⟨fun m q r hn hq hx hr => ?_, fun q r' hn hq hx hr => ?_⟩
    · change (k.down.sent ++ [p.narrow])[m + 1]? = _ at hr
      by_cases hm : m + 1 < k.down.sent.length
      · rw [List.getElem?_append_left hm] at hr
        exact h.sent m q r hn hq hx hr
      · -- the record in hand goes out
        rw [List.getElem?_append_right (not_lt.1 hm)] at hr
        obtain ⟨hlt, heq⟩ := List.getElem?_eq_some_iff.1 hr
        rw [List.length_singleton] at hlt
        rw [List.getElem_singleton] at heq
        obtain ⟨r', hpc, rfl⟩ := SessionPc.record_of_parcel hp heq
        rw [hpc] at hcount
        have hlen : k.down.sent.length = k.up.decoded.length := hcount
        have hlast : k.Last q := by
          rw [Conn.Last, List.getLast?_eq_getElem?, ← hlen, ← hq]
          congr 1
          omega
        have hP := h.hand q r' (by omega) hlast hx hpc
        rw [hnarrow r' hP]
        exact hP
    · change r.engineer.pc = _ at hr
      rw [heng] at hr
      cases hpc : k.engineer.pc <;> rw [hpc] at hp hr <;> cases hp <;> cases hr
  | @handle p _ _ _ hup hkind hfac heng =>
    refine ⟨fun m q r hn hq hx hr => ?_, fun q r' hn hq hx hr => ?_⟩
    · -- no answer to this parcel has been sent
      have hm : m < k.up.decoded.length := by
        have hlt := (List.getElem?_eq_some_iff.1 hr).1
        have hle := hcount.le
        change m + 1 < k.down.sent.length at hlt
        omega
      change (k.up.decoded ++ [some p])[m]? = _ at hq
      rw [List.getElem?_append_left hm] at hq
      exact h.sent m q r hn hq hx hr
    · change r.engineer.pc = _ at hr
      change (k.up.decoded ++ [some p]).getLast? = _ at hq
      rw [List.getLast?_concat] at hq
      cases hq
      rw [heng] at hr
      rw [(handle_cases (e := e) (f := f) hup.not_logRequest hkind).record_eq hr]
      exact hknown q hx
  | fail hfac heng hkind =>
    refine hfree (List.append_nil _) rfl fun r' hr => ?_
    change r.engineer.pc = _ at hr
    rw [heng] at hr
    cases hr
  | wake hpc hval hfac heng =>
    refine hfree rfl rfl fun r' hr => ?_
    change r.engineer.pc = _ at hr
    rw [heng] at hr
    cases hr
  | leave hpc hfac heng =>
    refine hfree rfl rfl fun r' hr => ?_
    change r.engineer.pc = _ at hr
    rw [heng] at hr
    cases hr

end

namespace Net

namespace OneQuery

/-- As before `OneOrder.run`, but the client 1 asks for the record of the customer. -/
def init : Net :=
  { OneOrder.init with
    client := fun c => { OneOrder.init.client c with requestType := if c = 1 then 2 else 1 } }

theorem init_mem : init ∈ (network OneOrder.hosts).init := ⟨init.client, fun _ => rfl, rfl⟩

def client (answers : Answers) : NetAction := .client 1 { answers := answers } 1

def customer (answers : Answers) : NetAction := .engineer (.customer 1 1) answers

def run : List NetAction :=
  open OneOrder in
  [client {}, client (gives 4), customer (takes (.word 0)),
    customer (gives 4), client (takes (.word 25)),
    customer (gives 25), client (takes (.message (.serverConfig (hosts.config 1)))),
    client (gives 12), customer (takes (.message (.customerRequest ⟨7, -1, 2⟩))),
    customer (gives 8)]

end OneQuery

/-- How many parcels the engineer of the connection has decoded. -/
def decodedOn (s : Net) (ℓ : Link) : ℕ := (s.conn ℓ).elim 0 fun k => k.up.decoded.length

/-- A record of the customer `x` at the server `i`, with an order that was received there. -/
def IsRecord (s : Net) (i x : ℤ) (r : CustomerRecord) : Prop :=
  r.customerId = x ∧ ∃ cl, s.Placed cl i (x, r.lastOrder)

section

variable {H : Hosts} {s s' : Net} {i x cl : ℤ} {ℓ : Link} {k : Conn} {l : LaptopInfo}
  {r : CustomerRecord} {P : ℤ × ℤ}

/-- An order comes in a message, so its numbers are `int`s. -/
theorem Placed.narrow (h : s.Placed cl i P) : narrowInt P.1 = P.1 ∧ narrowInt P.2 = P.2 := by
  obtain ⟨-, y, -, -, rfl, -⟩ := h
  exact ⟨narrowInt_eq_self (isInt_narrowInt _), narrowInt_eq_self (isInt_narrowInt _)⟩

theorem IsRecord.narrow (h : s.IsRecord i x r) : r.narrow = r := by
  obtain ⟨rfl, cl, hplaced⟩ := h
  obtain ⟨hcustomer, horder⟩ := hplaced.narrow
  rw [CustomerRecord.narrow, hcustomer, horder]

/-- A customer that has been sent a laptop without the sign is known at the server. -/
theorem exists_record (hs : (network H).ReachBy (OnScout fun _ f pc => pc.IntSized f) s)
    (hk : s.conn ℓ = some k) (hl : .message (.laptopInfo l) ∈ k.down.sent) (hid : l.adminId ≠ -5) :
    ∃ n, (s.node k.server).factory.customerRecord.find? l.customerId = some n := by
  obtain ⟨c, hc, hR⟩ := exists_cluster hs
  obtain ⟨laptop, rfl, result, hret⟩ := hR.reports.sent ℓ k l hk hl
  obtain rfl : result = 1 := by
    refine (signed_of_reachable hc _ _ _ hret).resolve_right fun hsign => hid ?_
    change narrowInt laptop.adminId = -5
    rw [hsign]
    decide
  obtain ⟨n, hn⟩ := isSome_customerRecord hc hret
  rw [hR.factory] at hn
  obtain ⟨cl, hplaced⟩ := (kept_of_reachBy hs).records _ _ _ hn
  change ∃ n, (s.node k.server).factory.customerRecord.find? (narrowInt laptop.customerId) = some n
  rw [hplaced.narrow.1]
  exact ⟨n, hn⟩

/-- What is known stays known. -/
theorem known_step {act : NetAction} (hreg : s.Regular H) (hst : s.step H act = some s')
    (h : ∃ n, (s.node i).factory.customerRecord.find? x = some n) :
    ∃ n, (s'.node i).factory.customerRecord.find? x = some n := by
  rcases records_step (i := i) hreg hst with hsame | ⟨laptop, -, hinsert⟩
  · rw [hsame]
    exact h
  · rw [hinsert, StdMap.find?_insert]
    split_ifs
    · exact ⟨_, rfl⟩
    · exact h

/-- The server of a customer that is known answers with its record. -/
theorem isRecord_createCustomerRecord {q : CustomerRequest} (hkept : s.Kept)
    (h : ∃ n, (s.node i).factory.customerRecord.find? x = some n) (hq : q.customerId = x) :
    s.IsRecord i x ((s.node i).factory.createCustomerRecord q) := by
  obtain ⟨n, hn⟩ := h
  subst hq
  rw [LaptopFactory.createCustomerRecord, hn]
  exact ⟨rfl, hkept.records _ _ _ hn⟩

theorem recalls (hs : (network H).ReachBy (OnScout fun _ f pc => pc.IntSized f) s)
    (hsteps : (network H).StepsBy (OnScout fun _ f pc => pc.IntSized f) s s')
    (h : ∃ n, (s.node i).factory.customerRecord.find? x = some n) :
    (∃ n, (s'.node i).factory.customerRecord.find? x = some n) ∧
      ∀ c n k, s'.conn (.customer c n) = some k → k.server = i →
        k.Recalls (s.decodedOn (.customer c n)) x (s'.IsRecord i x) := by
  induction hsteps with
  | refl =>
    refine ⟨h, fun c n k hk _ => Conn.recalls_new ?_⟩
    rw [decodedOn, hk]
    exact le_rfl
  | @tail s₁ s' hsteps hst ih =>
    obtain ⟨act, hok, hst⟩ := hst
    obtain ⟨hknown, hrecalls⟩ := ih
    have hs₁ := hs.of_stepsBy hsteps
    have hreg := regular_of_reachable hs₁.reachable
    have hmono : ∀ r, s₁.IsRecord i x r → s'.IsRecord i x r := by
      rintro r ⟨hr, cl, hplaced⟩
      exact ⟨hr, cl, hplaced.mono (grows hreg hst) (sameArgs_step hst)⟩
    refine ⟨known_step hreg hst hknown, fun c n k hk hserver => ?_⟩
    have hstems : ∀ {dial}, s₁.Stems dial s' (.customer c n) k →
        k.Recalls (s.decodedOn (.customer c n)) x (s'.IsRecord i x) := by
      intro dial hstems
      cases hstems with
      | old hk hsame =>
        exact hsame.recalls ((hrecalls c n _ hk (hsame.server ▸ hserver)).mono hmono)
      | new _ hsame =>
        refine hsame.recalls (Conn.recalls_new (Nat.zero_le _))
    cases netStep_cases hst with
    | @engineer ℓ answers k₀ r hk₀ hr hu =>
      by_cases hℓ : .customer c n = ℓ
      · subst hℓ
        obtain ⟨k', hk', hmove⟩ := exists_move hreg hk₀ hr hu
        cases hk'.symm.trans hk
        have hsame : k.server = k₀.server := by cases hmove <;> rfl
        rw [hsame] at hserver
        subst hserver
        have hold := hrecalls c n k₀ hk₀ rfl
        have hnew := hold.move (answering_of_reachable hs₁.reachable hk₀) hmove
          (fun _ hr => hr.narrow)
          (fun q hq => isRecord_createCustomerRecord (kept_of_reachBy hs₁) hknown hq)
        exact hnew.mono hmono
      · rw [conn_applyEngineer_of_ne hℓ] at hk
        exact (hrecalls c n k hk hserver).mono hmono
    | scout => exact hstems (stems_applyScout hk)
    | client hr => exact hstems (stems_applyClient hr hk)

/-- Once a server has answered an order of a customer without the sign that there are too few
    acceptors, it answers every query for the customer that it receives later, on whichever
    connection, with a record of the customer and an order that it has received. -/
theorem read_your_orders (hs : (network H).ReachBy (OnScout fun _ f pc => pc.IntSized f) s)
    (hsteps : (network H).StepsBy (OnScout fun _ f pc => pc.IntSized f) s s')
    (hk : s.conn ℓ = some k) (hl : .message (.laptopInfo l) ∈ k.down.sent) (hid : l.adminId ≠ -5)
    {c : ℤ} {n m : ℕ} {k' : Conn} {q : CustomerRequest} (hk' : s'.conn (.customer c n) = some k')
    (hserver : k'.server = k.server) (hm : s.decodedOn (.customer c n) ≤ m)
    (hq : k'.up.decoded[m]? = some (some (.message (.customerRequest q))))
    (hcustomer : q.customerId = l.customerId)
    (hr : k'.down.sent[m + 1]? = some (.message (.customerRecord r))) :
    r.customerId = l.customerId ∧ ∃ cl, s'.Placed cl k.server (l.customerId, r.lastOrder) := by
  have hrecalls := (recalls hs hsteps (exists_record hs hk hl hid)).2 c n k' hk' hserver
  exact hrecalls.sent m q r hm hq hcustomer hr

/-- The query of another client, after the order. -/
theorem read_your_orders_query : ∃ (s : Net) (k : Conn) (r : CustomerRecord),
    s.conn (.customer 1 1) = some k ∧ k.down.sent[2]? = some (.message (.customerRecord r)) ∧
      r.customerId = 7 ∧ ∃ cl, s.Placed cl 1 (7, r.lastOrder) := by
  have hinit : (network OneOrder.hosts).ReachBy (OnScout fun _ f pc => pc.IntSized f)
      OneQuery.init := .init OneQuery.init_mem
  obtain ⟨s, hs, ⟨k, hk, hserver, hl⟩, hm, hrun⟩ := hinit.exists_of_runBy
    (P := fun s => (∃ k ∈ s.conn (.customer 0 1), k.server = 1 ∧
        .message (.laptopInfo ⟨7, 0, 1, 0, 1⟩) ∈ k.down.sent) ∧
      s.decodedOn (.customer 1 1) ≤ 1 ∧
      ((network OneOrder.hosts).runBy (OnScout fun _ f pc => pc.IntSized f) OneQuery.run s).any
        (fun s' => ∃ k ∈ s'.conn (.customer 1 1), k.server = 1 ∧
          k.up.decoded[1]? = some (some (.message (.customerRequest ⟨7, -1, 2⟩))) ∧
          k.down.sent[2]? = some (.message (.customerRecord ⟨7, 0⟩))) = true)
    OneOrder.run (by decide +kernel)
  obtain ⟨s', hsteps, k', hk', hserver', hq, hr⟩ := Machine.StepsBy.exists_of_runBy _ hrun
  have hread := read_your_orders hs hsteps hk hl (by decide) hk' (hserver'.trans hserver.symm) hm hq
    rfl hr
  rw [hserver] at hread
  exact ⟨s', k', ⟨7, 0⟩, hk', hr, hread⟩

end

end Net

end LaptopPaxos
