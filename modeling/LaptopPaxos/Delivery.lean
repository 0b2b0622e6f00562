import LaptopPaxos.Orders

/-!
# The order queue

One server from the inside: engineers that call `CreateRegularLaptop`, any
number of them at any time, and the `ScoutThread`, which takes the requests off
the queue, works on them, and sets their promises. What comes over the network
is arbitrary, and the other engineers of the server take part as well.

Each push and each pop is done under the lock of the queue, in one step. The
Scout waits on the condition variable only if the queue is empty; a push wakes
it, and it may also wake up for no reason.

The requests are answered in the order in which they were pushed, each once,
and every engineer gets its own laptop back (`delivery`). To say so, the state
keeps what was pushed, popped and answered, the oldest first.

`ScoutBrocasting` may go on for ever, so that an answer cannot be promised. But the Scout
is never stuck with a request (`scout_moves`), and the next one on the queue can always be
answered, since the network may fail (`canReach_answer`).
-/

namespace LaptopPaxos

open LaptopFactory

/-- Where an engineer is. -/
inductive EngineerPc
  /-- Not in `CreateRegularLaptop`. -/
  | away
  /-- Before the lock of the queue, with the request and its promise. -/
  | push (order : CustomerRequest)
  /-- In `fut.get()`. -/
  | wait (order : CustomerRequest)
  /-- Back from `CreateRegularLaptop`, with its result. -/
  | back (order : CustomerRequest) (laptop : LaptopInfo)
  deriving DecidableEq

/-- Where the `ScoutThread` is in its loop, with the local `req`. -/
inductive Turn
  /-- Before the lock of the queue. -/
  | head
  /-- In `erq_cv.wait`. -/
  | asleep
  /-- In `ScoutBrocasting`. -/
  | scout (req : ClientRequest) (pc : ScoutPc)
  /-- Before `set_value`. -/
  | setValue (req : ClientRequest) (laptop : LaptopInfo)
  deriving DecidableEq

/-- The request in hand. -/
def Turn.current : Turn → List ClientRequest
  | .head | .asleep => []
  | .scout req _ | .setValue req _ => [req]

/-- The threads of a server. An engineer is known by its id, and waits for one
    promise at a time. -/
structure Desk where
  factory : LaptopFactory
  turn : Turn := .head
  engineer : ℤ → EngineerPc := fun _ => .away
  /-- The value of the promise of an engineer. -/
  fut : ℤ → Option LaptopInfo := fun _ => none
  pushed : List ClientRequest := []
  popped : List ClientRequest := []
  answered : List (ClientRequest × LaptopInfo) := []

inductive DeskAction
  /-- The engineer `e` is called, and makes its request. -/
  | call (e : ℤ) (order : CustomerRequest)
  /-- The engineer `e` pushes its request. -/
  | push (e : ℤ)
  /-- The engineer `e` gets the value of its promise. -/
  | get (e : ℤ)
  /-- The Scout wakes up for no reason. -/
  | wake
  /-- The Scout takes a step; `inbox` is what has arrived from the acceptors. -/
  | scout (inbox : ℤ → List PaxosMsg) (env : Env)
  /-- An acceptor engineer handles a message. -/
  | acceptor (msg : PaxosMsg)
  /-- A learner engineer handles a message. -/
  | learner (msg : PaxosMsg)
  /-- A backup engineer handles a log request. -/
  | backup (r : LogRequest)

/-- The request that the engineer `e` makes of an order. -/
def clientRequest (order : CustomerRequest) (e : ℤ) : ClientRequest where
  laptop := { ({} : LaptopInfo).copyOrder order with engineerId := e, adminId := -1 }
  prom := e

/-- The laptop with which `ScoutBrocasting` has returned, if it has. -/
def returnedLaptop : List Event → Option LaptopInfo
  | [] => none
  | .returned _ laptop _ :: _ => some laptop
  | _ :: evs => returnedLaptop evs

namespace Desk

variable (s : Desk)

/-- The engineer `e` goes on to `pc`. -/
def setEngineer (e : ℤ) (pc : EngineerPc) : Desk :=
  { s with engineer := Function.update s.engineer e pc }

/-- The promise of the engineer `e` gets the state `o`. -/
def setFut (e : ℤ) (o : Option LaptopInfo) : Desk := { s with fut := Function.update s.fut e o }

/-- The loop of the `ScoutThread` of the server `id`. -/
def scoutTurn (id : ℤ) (inbox : ℤ → List PaxosMsg) (env : Env) : Option Desk :=
  match s.turn with
  | .head =>
    match s.factory.erq with
    | [] => some { s with turn := .asleep }
    | req :: _ => (scoutStep id s.factory inbox env .idle).map fun e =>
      { s with factory := e.factory, turn := .scout req e.pc, popped := s.popped ++ [req] }
  | .asleep => none
  | .scout req pc => (scoutStep id s.factory inbox env pc).map fun e =>
    { s with
      factory := e.factory
      turn := match returnedLaptop e.events with
        | none => .scout req e.pc
        | some laptop => .setValue req laptop }
  | .setValue req laptop =>
    -- a promise cannot be set twice
    if s.fut req.prom = none then
      some { s.setFut req.prom (some laptop) with
        turn := .head
        answered := s.answered ++ [(req, laptop)] }
    else none

def step (id : ℤ) : DeskAction → Option Desk
  | .call e order =>
    match s.engineer e with
    | .away | .back .. => some ((s.setEngineer e (.push order)).setFut e none)
    | _ => none
  | .push e =>
    match s.engineer e with
    | .push order => some { s.setEngineer e (.wait order) with
        factory := s.factory.createRegularLaptop order e
        -- notify_one
        turn := if s.turn = .asleep then .head else s.turn
        pushed := s.pushed ++ [clientRequest order e] }
    | _ => none
  | .get e =>
    match s.engineer e, s.fut e with
    | .wait order, some laptop => some (s.setEngineer e (.back order laptop))
    | _, _ => none
  | .wake => if s.turn = .asleep then some { s with turn := .head } else none
  | .scout inbox env => s.scoutTurn id inbox env
  | .acceptor msg => some { s with factory := (s.factory.acceptorEngineer msg).1 }
  | .learner msg => some { s with factory := s.factory.learnerEngineer msg }
  | .backup r => (s.factory.backupEngineer r).map fun f => { s with factory := f }

/-- The requests that are not answered yet. -/
def pending : List ClientRequest := s.turn.current ++ s.factory.erq

end Desk

/-- The threads of the server `id`. They start with an empty queue. -/
def desk (id : ℤ) : Machine Desk DeskAction where
  init := {s | ∃ f : LaptopFactory, f.erq = [] ∧ s = { factory := f }}
  step s := s.step id

/-- The laptop of the request, with the id of the Scout or the sign that there
    are too few acceptors. -/
def IsAnswer (id : ℤ) (req : ClientRequest) (laptop : LaptopInfo) : Prop :=
  ∃ adminId, (adminId = id ∨ adminId = -5) ∧ laptop = { req.laptop with adminId := adminId }

/-! ### Steps, case by case -/

/-- The branches of a step. The engineers on the network leave the queue alone. -/
inductive DeskStep (id : ℤ) (s : Desk) : Desk → Prop
  | call {e order} : s.engineer e = .away ∨ (∃ o l, s.engineer e = .back o l) →
      DeskStep id s ((s.setEngineer e (.push order)).setFut e none)
  | push {e order} : s.engineer e = .push order →
      DeskStep id s { s.setEngineer e (.wait order) with
        factory := s.factory.createRegularLaptop order e
        turn := if s.turn = .asleep then .head else s.turn
        pushed := s.pushed ++ [clientRequest order e] }
  | get {e order laptop} : s.engineer e = .wait order → s.fut e = some laptop →
      DeskStep id s (s.setEngineer e (.back order laptop))
  | wake : s.turn = .asleep → DeskStep id s { s with turn := .head }
  | sleep : s.turn = .head → s.factory.erq = [] → DeskStep id s { s with turn := .asleep }
  | pop {req erq f} : s.turn = .head → s.factory.erq = req :: erq → f.erq = erq →
      DeskStep id s { s with
        factory := f
        turn := .scout req (.connect req.laptop)
        popped := s.popped ++ [req] }
  | scout {req pc f pc'} : s.turn = .scout req pc →
      (pc.laptop = some req.laptop → f.erq = s.factory.erq ∧ pc'.laptop = some req.laptop) →
      DeskStep id s { s with factory := f, turn := .scout req pc' }
  | finish {req pc f laptop} : s.turn = .scout req pc →
      (pc.laptop = some req.laptop → f.erq = s.factory.erq ∧ IsAnswer id req laptop) →
      DeskStep id s { s with factory := f, turn := .setValue req laptop }
  | setValue {req laptop} : s.turn = .setValue req laptop → s.fut req.prom = none →
      DeskStep id s { s.setFut req.prom (some laptop) with
        turn := .head
        answered := s.answered ++ [(req, laptop)] }
  | other {f} : f.erq = s.factory.erq → DeskStep id s { s with factory := f }

section

variable {id i : ℤ} {f : LaptopFactory} {inbox : ℤ → List PaxosMsg} {env : Env} {pc : ScoutPc}
  {e : Effect} {s s' : Desk} {act : DeskAction}

theorem erq_acceptorEngineer (f : LaptopFactory) (msg : PaxosMsg) :
    (f.acceptorEngineer msg).1.erq = f.erq := by
  have h := acceptorEngineer_cases f msg
  generalize (f.acceptorEngineer msg).1 = f', (f.acceptorEngineer msg).2 = o at h
  cases h <;> rfl

/-- What a turn that returns no laptop has to keep. -/
theorem keepsLaptop_of_silent {es : List Event} {P : Prop}
    {Q : LaptopInfo → Prop} (hp : P) (hes : returnedLaptop es = none) :
    (returnedLaptop es = none → P) ∧
      ∀ laptop', returnedLaptop es = some laptop' → Q laptop' := by
  refine ⟨fun _ => hp, fun laptop' h => ?_⟩
  rw [hes] at h
  cases h

/-- The Scout works on one laptop, until it returns it with the admin id. -/
theorem ScoutStep.keepsLaptop (hs : ScoutStep i f inbox env pc e) {laptop : LaptopInfo}
    (hpc : pc.laptop = some laptop) :
    (returnedLaptop e.events = none → e.pc.laptop = some laptop) ∧
      ∀ laptop', returnedLaptop e.events = some laptop' →
        ∃ adminId, (adminId = i ∨ adminId = -5) ∧ laptop' = { laptop with adminId := adminId } := by
  cases hs with
  | dequeue => cases hpc
  | connect =>
    rw [scoutConnect]
    exact keepsLaptop_of_silent hpc rfl
  | command =>
    rw [commanderConnect]
    exact keepsLaptop_of_silent hpc rfl
  | giveUp =>
    cases hpc
    exact ⟨fun h => absurd h (Option.some_ne_none _),
      fun laptop' h => ⟨-5, .inr rfl, (Option.some.inj h).symm⟩⟩
  | tooFew =>
    cases hpc
    exact ⟨fun h => absurd h (Option.some_ne_none _),
      fun laptop' h => ⟨-5, .inr rfl, (Option.some.inj h).symm⟩⟩
  | record =>
    cases hpc
    exact ⟨fun h => absurd h (Option.some_ne_none _),
      fun laptop' h => ⟨i, .inl rfl, (Option.some.inj h).symm⟩⟩
  | _ => exact keepsLaptop_of_silent hpc rfl

theorem deskStep_cases (h : s.step id act = some s') : DeskStep id s s' := by
  cases act with
  | call e order =>
    rw [Desk.step] at h
    split at h
    · next heq => cases h; exact .call (.inl heq)
    · next heq => cases h; exact .call (.inr ⟨_, _, heq⟩)
    · cases h
  | push e =>
    rw [Desk.step] at h
    split at h
    · next heq => cases h; exact .push heq
    · cases h
  | get e =>
    rw [Desk.step] at h
    split at h
    · next heq hfut => cases h; exact .get heq hfut
    · cases h
  | wake =>
    rw [Desk.step] at h
    split_ifs at h with hturn
    cases h
    exact .wake hturn
  | scout inbox env =>
    rw [Desk.step, Desk.scoutTurn] at h
    split at h
    · next hturn =>
      split at h
      · next herq => cases h; exact .sleep hturn herq
      · next req erq herq =>
        obtain ⟨e, he, rfl⟩ := Option.map_eq_some_iff.1 h
        rw [scoutStep, herq] at he
        cases he
        exact .pop hturn herq rfl
    · cases h
    · next req pc hturn =>
      obtain ⟨e, he, rfl⟩ := Option.map_eq_some_iff.1 h
      have hs := scoutStep_cases he
      have herq : pc.laptop = some req.laptop → e.factory.erq = s.factory.erq := by
        intro hl
        rcases hs.laptop with ⟨_, rfl, -⟩ | ⟨herq, -⟩
        · cases hl
        · exact herq
      cases hret : returnedLaptop e.events with
      | none => exact .scout hturn fun hl => ⟨herq hl, (hs.keepsLaptop hl).1 hret⟩
      | some laptop => exact .finish hturn fun hl => ⟨herq hl, (hs.keepsLaptop hl).2 laptop hret⟩
    · next req laptop hturn =>
      split_ifs at h with hfut
      cases h
      exact .setValue hturn hfut
  | acceptor msg => cases h; exact .other (erq_acceptorEngineer _ msg)
  | learner msg => cases h; exact .other (learnerEngineer_desk _ msg).erq
  | backup r =>
    obtain ⟨f, hf, rfl⟩ := Option.map_eq_some_iff.1 h
    exact .other (erq_backupEngineer hf)

end

/-! ### The invariant -/

/-- What the engineer `e` can rely on at `pc`: `own` are its requests that are
    not answered yet, and `value` is the value of its promise. -/
def EngineerPc.Served (id e : ℤ) (own : List ClientRequest) (value : Option LaptopInfo) :
    EngineerPc → Prop
  | .away => own = []
  | .push _ => own = [] ∧ value = none
  | .wait order => own = [clientRequest order e] ∧ value = none ∨
      own = [] ∧ ∃ laptop, value = some laptop ∧ IsAnswer id (clientRequest order e) laptop
  | .back order laptop => own = [] ∧ IsAnswer id (clientRequest order e) laptop

/-- The requests of the engineer `e` that are not answered yet. -/
def Desk.own (s : Desk) (e : ℤ) : List ClientRequest := s.pending.filter (·.prom = e)

/-- Requests are answered in order, and every engineer gets its answer. -/
structure Delivering (id : ℤ) (s : Desk) : Prop where
  pushed : s.pushed = s.popped ++ s.factory.erq
  popped : s.popped = s.answered.map Prod.fst ++ s.turn.current
  scout : ∀ req pc, s.turn = .scout req pc → pc.laptop = some req.laptop
  setValue : ∀ req laptop, s.turn = .setValue req laptop → IsAnswer id req laptop
  answered : ∀ p ∈ s.answered, IsAnswer id p.1 p.2
  engineer : ∀ e, (s.engineer e).Served id e (s.own e) (s.fut e)
  asleep : s.turn = .asleep → s.factory.erq = []

section

variable {id e : ℤ} {s s' : Desk} {act : DeskAction} {own : List ClientRequest}
  {value : Option LaptopInfo} {pc : EngineerPc}

/-- Only an engineer that waits has a request, and its promise is not set yet. -/
theorem EngineerPc.Served.of_mem (h : pc.Served id e own value) {req : ClientRequest}
    (hreq : req ∈ own) :
    ∃ order, pc = .wait order ∧ own = [clientRequest order e] ∧ value = none := by
  cases pc with
  | away => rw [show own = [] from h] at hreq; cases hreq
  | push order => rw [h.1] at hreq; cases hreq
  | wait order =>
    rcases h with ⟨hown, hval⟩ | ⟨hown, -⟩
    · exact ⟨order, rfl, hown, hval⟩
    · rw [hown] at hreq; cases hreq
  | back order laptop => rw [h.1] at hreq; cases hreq

/-! What the steps do for the engineer that they concern. -/

theorem EngineerPc.Served.call (h : pc.Served id e own value)
    (hpc : pc = .away ∨ ∃ o l, pc = .back o l) (order : CustomerRequest) :
    (EngineerPc.push order).Served id e own none := by
  rcases hpc with rfl | ⟨o, l, rfl⟩
  · exact ⟨h, rfl⟩
  · exact ⟨h.1, rfl⟩

theorem EngineerPc.Served.push {order : CustomerRequest}
    (h : (EngineerPc.push order).Served id e own value) :
    (EngineerPc.wait order).Served id e (own ++ [clientRequest order e]) value := by
  rw [h.1]
  exact .inl ⟨rfl, h.2⟩

theorem EngineerPc.Served.get {order : CustomerRequest} {laptop : LaptopInfo}
    (h : (EngineerPc.wait order).Served id e own (some laptop)) :
    (EngineerPc.back order laptop).Served id e own value := by
  rcases h with ⟨-, hnone⟩ | ⟨hown, l, hl, hans⟩
  · cases hnone
  · cases hl
    exact ⟨hown, hans⟩

/-- The request at the front is the one that the engineer waits for. -/
theorem EngineerPc.Served.setValue {req : ClientRequest} {rest : List ClientRequest}
    {laptop : LaptopInfo} (h : pc.Served id e (req :: rest) value) (hans : IsAnswer id req laptop) :
    pc.Served id e rest (some laptop) := by
  obtain ⟨order, rfl, hone, -⟩ := h.of_mem List.mem_cons_self
  obtain ⟨rfl, hrest⟩ := List.cons.inj hone
  exact .inr ⟨hrest, laptop, rfl, hans⟩

theorem filter_prom (req : ClientRequest) (j : ℤ) :
    [req].filter (·.prom = j) = if j = req.prom then [req] else [] := by
  split_ifs with hj
  · exact List.filter_cons_of_pos (decide_eq_true hj.symm)
  · exact List.filter_cons_of_neg (by rw [decide_eq_true_eq]; exact Ne.symm hj)

/-! Steps. -/

/-- Nothing changes for the engineers. -/
theorem Delivering.served_of_pending (hs : Delivering id s) (hp : s'.pending = s.pending)
    (he : s'.engineer = s.engineer) (hf : s'.fut = s.fut) (j : ℤ) :
    (s'.engineer j).Served id j (s'.own j) (s'.fut j) := by
  rw [he, hf, Desk.own, hp]
  exact hs.engineer j

theorem Delivering.call (hs : Delivering id s) {order : CustomerRequest}
    (hpc : s.engineer e = .away ∨ ∃ o l, s.engineer e = .back o l) :
    Delivering id ((s.setEngineer e (.push order)).setFut e none) := by
  refine ⟨hs.pushed, hs.popped, hs.scout, hs.setValue, hs.answered, fun j => ?_, hs.asleep⟩
  change (Function.update s.engineer e _ j).Served id j (s.own j) (Function.update s.fut e none j)
  rw [Function.update_apply, Function.update_apply]
  split_ifs with hj
  · subst hj
    exact (hs.engineer j).call hpc order
  · exact hs.engineer j

theorem Delivering.push (hs : Delivering id s) {order : CustomerRequest}
    (hpc : s.engineer e = .push order) :
    Delivering id { s.setEngineer e (.wait order) with
      factory := s.factory.createRegularLaptop order e
      turn := if s.turn = .asleep then .head else s.turn
      pushed := s.pushed ++ [clientRequest order e] } := by
  have hcur : (if s.turn = .asleep then Turn.head else s.turn).current = s.turn.current := by
    split_ifs with hturn
    · rw [hturn]; rfl
    · rfl
  have hturn : ∀ {t}, (if s.turn = .asleep then Turn.head else s.turn) = t → t ≠ .head →
      s.turn = t := by
    intro t ht hne
    split_ifs at ht
    · exact absurd ht.symm hne
    · exact ht
  refine ⟨?_, hs.popped.trans (congrArg _ hcur.symm), fun req pc ht => ?_, fun req l ht => ?_,
    hs.answered, fun j => ?_, fun ht => ?_⟩
  · change s.pushed ++ _ = s.popped ++ (s.factory.erq ++ [clientRequest order e])
    rw [hs.pushed, List.append_assoc]
  · exact hs.scout req pc (hturn ht Turn.noConfusion)
  · exact hs.setValue req l (hturn ht Turn.noConfusion)
  · change (Function.update s.engineer e _ j).Served id j
      ((Turn.current _ ++ (s.factory.erq ++ [clientRequest order e])).filter (·.prom = j))
      (s.fut j)
    rw [hcur, ← List.append_assoc, List.filter_append, filter_prom, Function.update_apply]
    change (if j = e then _ else _ : EngineerPc).Served id j
      (s.own j ++ if j = e then _ else _) (s.fut j)
    split_ifs with hj
    · subst hj
      exact (hpc ▸ hs.engineer j).push
    · rw [List.append_nil]
      exact hs.engineer j
  · change (if s.turn = .asleep then Turn.head else s.turn) = .asleep at ht
    split_ifs at ht with hasleep
    exact absurd ht hasleep

theorem Delivering.get (hs : Delivering id s) {order : CustomerRequest} {laptop : LaptopInfo}
    (hpc : s.engineer e = .wait order) (hfut : s.fut e = some laptop) :
    Delivering id (s.setEngineer e (.back order laptop)) := by
  refine ⟨hs.pushed, hs.popped, hs.scout, hs.setValue, hs.answered, fun j => ?_, hs.asleep⟩
  change (Function.update s.engineer e _ j).Served id j (s.own j) (s.fut j)
  rw [Function.update_apply]
  split_ifs with hj
  · subst hj
    have hserved := hs.engineer j
    rw [hpc, hfut] at hserved
    exact hserved.get
  · exact hs.engineer j

theorem Delivering.answer (hs : Delivering id s) {req : ClientRequest} {laptop : LaptopInfo}
    (hturn : s.turn = .setValue req laptop) :
    Delivering id { s.setFut req.prom (some laptop) with
      turn := .head
      answered := s.answered ++ [(req, laptop)] } := by
  have hans := hs.setValue req laptop hturn
  refine ⟨hs.pushed, ?_, fun _ _ => Turn.noConfusion, fun _ _ => Turn.noConfusion, ?_, fun j => ?_,
    Turn.noConfusion⟩
  · change s.popped = (s.answered ++ [(req, laptop)]).map Prod.fst ++ []
    rw [hs.popped, hturn, List.map_append, List.append_nil]
    rfl
  · exact List.forall_mem_append.2 ⟨hs.answered, List.forall_mem_singleton.2 hans⟩
  · have hserved := hs.engineer j
    have hown : s.own j = [req].filter (·.prom = j) ++ s.factory.erq.filter (·.prom = j) := by
      rw [Desk.own, Desk.pending, hturn, List.filter_append]
      rfl
    rw [hown, filter_prom] at hserved
    change (s.engineer j).Served id j (s.factory.erq.filter (·.prom = j))
      (Function.update s.fut req.prom _ j)
    rw [Function.update_apply]
    split_ifs at hserved ⊢
    · exact hserved.setValue hans
    · exact hserved

theorem Delivering.step (hs : Delivering id s) (h : DeskStep id s s') : Delivering id s' := by
  cases h with
  | call hpc => exact hs.call hpc
  | push hpc => exact hs.push hpc
  | get hpc hfut => exact hs.get hpc hfut
  | setValue hturn => exact hs.answer hturn
  | wake hturn =>
    exact ⟨hs.pushed, hs.popped.trans (by rw [hturn]; rfl), fun _ _ => nofun, fun _ _ => nofun,
      hs.answered, hs.served_of_pending (by rw [Desk.pending, Desk.pending, hturn]; rfl) rfl rfl,
      nofun⟩
  | sleep hturn herq =>
    exact ⟨hs.pushed, hs.popped.trans (by rw [hturn]; rfl), fun _ _ => nofun, fun _ _ => nofun,
      hs.answered, hs.served_of_pending (by rw [Desk.pending, Desk.pending, hturn]; rfl) rfl rfl,
      fun _ => herq⟩
  | @pop req erq f hturn herq hf =>
    refine ⟨?_, ?_, ?_, fun _ _ => nofun, hs.answered,
      hs.served_of_pending (by rw [Desk.pending, Desk.pending, hturn, herq, hf]; rfl) rfl rfl,
      nofun⟩
    · rw [hs.pushed, herq, hf, List.append_assoc]
      rfl
    · rw [hs.popped, hturn]
      exact congrArg (· ++ [req]) (List.append_nil _)
    · rintro _ _ ⟨⟩
      rfl
  | @scout req pc f pc' hturn hpc =>
    obtain ⟨hf, hpc'⟩ := hpc (hs.scout req pc hturn)
    refine ⟨hs.pushed.trans (by rw [hf]), hs.popped.trans (by rw [hturn]; rfl), ?_,
      fun _ _ => nofun, hs.answered,
      hs.served_of_pending (by rw [Desk.pending, Desk.pending, hturn, hf]; rfl) rfl rfl, nofun⟩
    rintro _ _ ⟨⟩
    exact hpc'
  | @finish req pc f laptop hturn hpc =>
    obtain ⟨hf, hans⟩ := hpc (hs.scout req pc hturn)
    refine ⟨hs.pushed.trans (by rw [hf]), hs.popped.trans (by rw [hturn]; rfl), fun _ _ => nofun,
      ?_, hs.answered,
      hs.served_of_pending (by rw [Desk.pending, Desk.pending, hturn, hf]; rfl) rfl rfl, nofun⟩
    rintro _ _ ⟨⟩
    exact hans
  | @other f hf =>
    exact ⟨hs.pushed.trans (by rw [hf]), hs.popped, hs.scout, hs.setValue, hs.answered,
      hs.served_of_pending (by rw [Desk.pending, Desk.pending, hf]) rfl rfl,
      fun ht => hf.trans (hs.asleep ht)⟩

theorem delivering_of_reachable (h : (desk id).Reachable s) : Delivering id s := by
  refine h.invariant ?_ fun _ _ _ _ hinv _ hst => hinv.step (deskStep_cases hst)
  rintro _ ⟨f, hf, rfl⟩
  exact ⟨hf.symm, rfl, fun _ _ => nofun, fun _ _ => nofun, fun _ => nofun,
    fun _ => congrArg (List.filter _) hf, fun _ => hf⟩

end

/-! ### Delivery -/

/-- The laptop of the engineer `e` for an order, with the id of the Scout or -5. -/
structure OwnLaptop (id e : ℤ) (order : CustomerRequest) (laptop : LaptopInfo) : Prop where
  customerId : laptop.customerId = order.customerId
  orderNumber : laptop.orderNumber = order.orderNumber
  requestType : laptop.requestType = order.requestType
  engineerId : laptop.engineerId = e
  adminId : laptop.adminId = id ∨ laptop.adminId = -5

theorem IsAnswer.ownLaptop {id e : ℤ} {order : CustomerRequest} {laptop : LaptopInfo}
    (h : IsAnswer id (clientRequest order e) laptop) : OwnLaptop id e order laptop := by
  obtain ⟨adminId, hid, rfl⟩ := h
  exact ⟨rfl, rfl, rfl, rfl, hid⟩

section

variable {id : ℤ} {s : Desk} {req : ClientRequest} {rest : List ClientRequest}
  {laptop : LaptopInfo}

/-- A promise is not set yet when the Scout is about to set it. -/
theorem Delivering.unset (hs : Delivering id s) (hturn : s.turn = .setValue req laptop) :
    s.fut req.prom = none := by
  have hmem : req ∈ s.own req.prom := by
    refine List.mem_filter.2 ⟨?_, decide_eq_true rfl⟩
    rw [Desk.pending, hturn]
    exact List.mem_cons_self
  obtain ⟨-, -, -, hnone⟩ := (hs.engineer req.prom).of_mem hmem
  exact hnone

/-! ### Progress -/

/-- The steps of the Scout. -/
def DeskAction.OfScout : DeskAction → Prop
  | .scout .. => True
  | _ => False

/-- A step of the Scout in which its send or its receive fails. -/
def DeskAction.failing : DeskAction := .scout (fun _ => []) { alive := false }

/-- After `s`, the Scout has answered the request `req` and set its promise. -/
def Desk.Answered (s s' : Desk) (req : ClientRequest) : Prop :=
  s'.popped = s.popped ∧
    ∃ laptop, s'.answered = s.answered ++ [(req, laptop)] ∧ s'.fut req.prom = some laptop

theorem Desk.step_setValue (id : ℤ) (inbox : ℤ → List PaxosMsg) (env : Env)
    (hturn : s.turn = .setValue req laptop) (hfut : s.fut req.prom = none) :
    ∃ s', s.step id (.scout inbox env) = some s' ∧ s.Answered s' req := by
  refine ⟨{ s.setFut req.prom (some laptop) with
    turn := .head, answered := s.answered ++ [(req, laptop)] }, ?_, rfl, laptop, rfl, ?_⟩
  · rw [Desk.step, Desk.scoutTurn, hturn]
    exact if_pos hfut
  · exact Function.update_self ..

/-- When its sends and receives fail, the Scout does not wait. -/
theorem scoutStep_isSome {i : ℤ} {f : LaptopFactory} {inbox : ℤ → List PaxosMsg} {pc : ScoutPc}
    (hpc : pc ≠ .idle) : (scoutStep i f inbox { alive := false } pc).isSome := by
  cases pc with
  | idle => exact absurd rfl hpc
  | p1a _ _ iter | p2a _ _ iter | learn _ _ iter => cases iter <;> rfl
  | _ => rfl

/-- With a request on the queue or in hand, the Scout is awake and can take a step. -/
theorem scout_moves (hs : Delivering id s) (hp : s.pending ≠ []) :
    ∃ inbox env, (s.step id (.scout inbox env)).isSome := by
  refine ⟨fun _ => [], { alive := false }, ?_⟩
  cases hturn : s.turn with
  | head =>
    rw [Desk.step, Desk.scoutTurn, hturn]
    cases herq : s.factory.erq with
    | nil => rfl
    | cons req erq =>
      change (Option.map _ (scoutStep id s.factory _ _ .idle)).isSome = true
      rw [scoutStep, herq]
      rfl
  | asleep =>
    rw [Desk.pending, hturn, hs.asleep hturn] at hp
    exact absurd rfl hp
  | scout req pc =>
    rw [Desk.step, Desk.scoutTurn, hturn]
    change (Option.map _ (scoutStep id s.factory _ _ pc)).isSome = true
    rw [Option.isSome_map]
    refine scoutStep_isSome fun hidle => ?_
    have hlaptop := hs.scout req pc hturn
    rw [hidle] at hlaptop
    cases hlaptop
  | setValue req laptop =>
    obtain ⟨s', hst, -⟩ := Desk.step_setValue id (fun _ => []) { alive := false } hturn
      (hs.unset hturn)
    exact Option.isSome_iff_exists.2 ⟨s', hst⟩

/-- In the first round, the Scout can give up: all its sends may fail. -/
theorem canReach_giveUp (hs : (desk id).Reachable s) {l : Prepare} {iter : List ℤ}
    (hturn : s.turn = .scout req (.p1a laptop l iter)) (hactive : l.activeAcceptor = 0) :
    (desk id).CanReach (fun _ act => act.OfScout) (s.Answered · req) s := by
  induction iter generalizing s with
  | nil =>
    have hst : (desk id).step s .failing =
        some { s with turn := .setValue req { laptop with adminId := -5 } } := by
      change s.scoutTurn id _ _ = _
      rw [Desk.scoutTurn, hturn]
      change Option.map _ (some (endRound id s.factory laptop l)) = _
      rw [endRound, if_pos (hactive ▸ Nat.zero_le _)]
      rfl
    have hs' := hs.step trivial hst
    obtain ⟨s', hst', hans⟩ := Desk.step_setValue id (fun _ => []) { alive := false } rfl
      ((delivering_of_reachable hs').unset rfl)
    exact .step (a := .failing) trivial hst (.step (a := .failing) trivial hst' (.now hans))
  | cons a iter ih =>
    have hst : (desk id).step s .failing = some { s with
        factory := s.factory.eraseStubs a, turn := .scout req (.p1a laptop l iter) } := by
      change s.scoutTurn id _ _ = _
      rw [Desk.scoutTurn, hturn]
      change Option.map _ (some (sendP1a id s.factory laptop l a iter _)) = _
      rw [sendP1a, if_neg (by simp)]
      rfl
    have hgiveUp := ih (hs.step trivial hst) rfl
    exact .step (a := .failing) trivial hst hgiveUp

/-- The Scout can pop the next request on the queue and answer it. -/
theorem canReach_answer (hs : (desk id).Reachable s) (hturn : s.turn = .head)
    (herq : s.factory.erq = req :: rest) :
    (desk id).CanReach (fun _ act => act.OfScout)
      (fun s' => { s with popped := s.popped ++ [req] }.Answered s' req) s := by
  let f : LaptopFactory := { s.factory with erq := rest }
  let s₁ : Desk := { s with
    factory := f, turn := .scout req (.connect req.laptop), popped := s.popped ++ [req] }
  have hst₁ : (desk id).step s .failing = some s₁ := by
    change s.scoutTurn id _ _ = _
    rw [Desk.scoutTurn, hturn]
    dsimp only
    rw [herq]
    change Option.map _ (scoutStep id s.factory _ _ .idle) = _
    rw [scoutStep, herq]
    rfl
  have hst₂ : (desk id).step s₁ .failing = some { s₁ with
      factory := (scoutConnect f req.laptop { alive := false }).factory
      turn := .scout req (scoutConnect f req.laptop { alive := false }).pc } := rfl
  have hs₂ := (hs.step trivial hst₁).step trivial hst₂
  have hgiveUp := canReach_giveUp hs₂ rfl rfl
  exact .step (a := .failing) trivial hst₁ (.step (a := .failing) trivial hst₂ hgiveUp)

/-- The requests pushed are, in this order, those answered, the one in hand and
    those on the queue; a promise is not set yet when the Scout sets it; an
    engineer that waits has either one request among those not answered yet, and
    then the Scout is not asleep, or its answer; and what it gets back is its own laptop.
    With a request on the queue or in hand the Scout can take a step; at the head of its
    loop it can pop the next request and answer it, and one that it is about to answer
    it can answer in any case. -/
theorem delivery (h : (desk id).Reachable s) :
    s.pushed = s.popped ++ s.factory.erq ∧
    s.popped = s.answered.map Prod.fst ++ s.turn.current ∧
    (∀ req laptop, s.turn = .setValue req laptop → s.fut req.prom = none ∧
      ∀ inbox env, ∃ s', s.step id (.scout inbox env) = some s' ∧ s.Answered s' req) ∧
    (∀ e order, s.engineer e = .wait order →
      s.own e = [clientRequest order e] ∧ s.fut e = none ∧ s.turn ≠ .asleep ∨
        s.own e = [] ∧ ∃ laptop, s.fut e = some laptop ∧ OwnLaptop id e order laptop) ∧
    (∀ e order laptop, s.engineer e = .back order laptop → OwnLaptop id e order laptop) ∧
    (s.pending ≠ [] → ∃ inbox env, (s.step id (.scout inbox env)).isSome) ∧
    ∀ req rest, s.turn = .head → s.factory.erq = req :: rest →
      (desk id).CanReach (fun _ act => act.OfScout)
        (fun s' => { s with popped := s.popped ++ [req] }.Answered s' req) s := by
  have hs := delivering_of_reachable h
  refine ⟨hs.pushed, hs.popped, fun req laptop hturn => ?_, fun e order hpc => ?_,
    fun e order laptop hpc => ?_, scout_moves hs, fun req rest => canReach_answer h⟩
  · exact ⟨hs.unset hturn, fun inbox env => Desk.step_setValue id inbox env hturn (hs.unset hturn)⟩
  · have hserved := hs.engineer e
    rw [hpc] at hserved
    rcases hserved with ⟨hown, hfut⟩ | ⟨hown, laptop, hfut, hans⟩
    · refine .inl ⟨hown, hfut, fun hturn => ?_⟩
      -- an empty queue has no request of the engineer
      rw [Desk.own, Desk.pending, hturn, hs.asleep hturn] at hown
      cases hown
    · exact .inr ⟨hown, laptop, hfut, hans.ownLaptop⟩
  · have hserved := hs.engineer e
    rw [hpc] at hserved
    exact hserved.2.ownLaptop

end

/-- Two engineers of a single server, whose own acceptor refuses the connection:
    the engineer 1 pushes first and is answered first. -/
theorem delivery_two_engineers : ∃ s, (desk 1).Reachable s ∧
    s.engineer 0 = .wait ⟨7, 0, 1⟩ ∧
    s.pushed = [clientRequest ⟨8, 0, 1⟩ 1, clientRequest ⟨7, 0, 1⟩ 0] ∧
    s.pushed = s.popped ++ s.factory.erq ∧ OwnLaptop 1 1 ⟨8, 0, 1⟩ ⟨8, 0, 1, 1, -5⟩ := by
  have hinit : (desk 1).Reachable { factory := (Deployment.numbered 1).factory 1 } :=
    .init ⟨_, by decide +kernel, rfl⟩
  let scout : DeskAction := .scout (fun _ => []) { refused := [1] }
  obtain ⟨s, hs, hwait, hback, hpushed⟩ := hinit.exists_of_runBy
    (P := fun s => s.engineer 0 = .wait ⟨7, 0, 1⟩ ∧
      s.engineer 1 = .back ⟨8, 0, 1⟩ ⟨8, 0, 1, 1, -5⟩ ∧
      s.pushed = [clientRequest ⟨8, 0, 1⟩ 1, clientRequest ⟨7, 0, 1⟩ 0])
    [scout, .call 0 ⟨7, 0, 1⟩, .call 1 ⟨8, 0, 1⟩, .push 1, scout, .push 0, scout, scout, scout,
      .get 1] (by decide +kernel)
  obtain ⟨horder, -, -, -, hown, -⟩ := delivery hs
  exact ⟨s, hs, hwait, hpushed, horder, hown 1 _ _ hback⟩

end LaptopPaxos
