import Mathlib.Logic.Relation
import LaptopPaxos.Lib.Iterators
import LaptopPaxos.Scout

/-!
# Broadcasts

The loops of `ScoutBrocasting`, `AcceptPhaseBrocasting` and `CommanderBrocasting`
over the stubs, with their iterators: a failed send erases the element under the
iterator, and the stub of the same peer from the other map.

* `broadcast_loops`: a loop visits every peer of its map once and erases those to
  whom a send fails from both maps;
* `p1aLoop_steps`, `p2aLoop_steps` and `learnLoop_steps`: the loops are runs of the
  Scout, which keeps in a list what is ahead of the iterator.
-/

namespace LaptopPaxos

open LaptopFactory

/-- What the network does when a peer is sent a message: whether it takes the
    message, and the reply, if there is one. -/
structure Contact where
  alive : Bool
  reply : Option PaxosMsg
  deriving DecidableEq

/-- An attempt to send a message to a peer, and whether the send has succeeded. -/
structure Attempt where
  id : ℤ
  message : PaxosMsg
  sent : Bool
  deriving DecidableEq, Repr

/-- A loop with the locals `σ`: what it sends, and what it does with the reply, if
    it waits for one. -/
structure BroadcastLoop (σ : Type) where
  message : PaxosMsg
  onReply : Option (σ → ℤ → PaxosMsg → σ)

/-- The state of a loop over the map `own`. The attempts are a history. -/
structure Broadcasting (σ : Type) where
  own : StdMap ℤ ClientStub
  other : StdMap ℤ ClientStub
  iter : Option ℤ
  locals : σ
  attempts : List Attempt := []

namespace BroadcastLoop

variable {σ : Type} (B : BroadcastLoop σ)

/-- The stubs after a message has been sent to `a`. A failed receive closes the
    socket and leaves the stub in the map. -/
def stubsAfter (own : StdMap ℤ ClientStub) (a : ℤ) (contact : Contact) : StdMap ℤ ClientStub :=
  match B.onReply with
  | none => own
  | some _ => if contact.reply.isSome then own else own.insert a ⟨false⟩

/-- The locals after that. Where the receive has failed, the message is the default one. -/
def localsAfter (locals : σ) (a : ℤ) (contact : Contact) : σ :=
  match B.onReply with
  | none => locals
  | some onReply => onReply locals a (contact.reply.getD {})

/-- The send to the peer `a` has succeeded. -/
def sent (s : Broadcasting σ) (a : ℤ) (contact : Contact) : Broadcasting σ :=
  let own := B.stubsAfter s.own a contact
  { s with
    own := own
    iter := own.next? a
    locals := B.localsAfter s.locals a contact
    attempts := s.attempts ++ [⟨a, B.message, true⟩] }

/-- The send to the peer `a` has failed. -/
def failed (s : Broadcasting σ) (a : ℤ) : Broadcasting σ :=
  { s with
    iter := s.own.next? a
    own := s.own.erase a
    other := s.other.erase a
    attempts := s.attempts ++ [⟨a, B.message, false⟩] }

/-- A turn with the iterator on `a`. There is no result if the iterator is invalid. -/
def turn (s : Broadcasting σ) (a : ℤ) (contact : Contact) : Option (Broadcasting σ) :=
  (s.own.find? a).map fun stub =>
    if contact.alive ∧ stub.isInitialized then B.sent s a contact else B.failed s a

/-- The loop, if it ends within `n` turns; `env` has what the network does at each attempt. -/
def run (env : ℕ → Contact) : ℕ → Broadcasting σ → Option (Broadcasting σ)
  | 0, s => if s.iter.isNone then some s else none
  | n + 1, s =>
    match s.iter with
    | none => some s
    | some a => (B.turn s a (env s.attempts.length)).bind (run env n)

/-- The loop from the beginning of the map. -/
def pass (own other : StdMap ℤ ClientStub) (locals : σ) (env : ℕ → Contact) : Option (Broadcasting σ) :=
  B.run env own.size { own := own, other := other, iter := own.begin?, locals := locals }

end BroadcastLoop

/-! ### The three loops -/

section Loops

variable (f : LaptopFactory) (env : ℕ → Contact)

def p1aBroadcast : BroadcastLoop Prepare where
  message := .p1a f.proposalNumber
  onReply := some fun l a p1bMsg =>
    { l with activeAcceptor := l.activeAcceptor + 1 }.receive a f.proposalNumber p1bMsg

def p2aBroadcast (cmd : Command) : BroadcastLoop Accept where
  message := .p2a f.proposalNumber cmd
  onReply := some fun ph _ p2bMsg =>
    { ph with activeAcceptors := ph.activeAcceptors + 1 }.receive p2bMsg

def learnBroadcast (cmd : Command) : BroadcastLoop Unit where
  message := .learn cmd
  onReply := none

/-- The p1a loop of `ScoutBrocasting`. -/
def p1aLoop (l : Prepare) : Option (LaptopFactory × Prepare × List Attempt) :=
  ((p1aBroadcast f).pass f.scoutAcceptorStub f.commanderLearnerStub l env).map fun s =>
    ({ f with scoutAcceptorStub := s.own, commanderLearnerStub := s.other }, s.locals, s.attempts)

/-- The p2a loop of `AcceptPhaseBrocasting`. -/
def p2aLoop (ph : Accept) : Option (LaptopFactory × Accept × List Attempt) :=
  ((p2aBroadcast f ph.cmd).pass f.scoutAcceptorStub f.commanderLearnerStub ph env).map fun s =>
    ({ f with scoutAcceptorStub := s.own, commanderLearnerStub := s.other }, s.locals, s.attempts)

/-- The loop of `CommanderBrocasting`. -/
def learnLoop (cmd : Command) : Option (LaptopFactory × Unit × List Attempt) :=
  ((learnBroadcast cmd).pass f.commanderLearnerStub f.scoutAcceptorStub () env).map fun s =>
    ({ f with commanderLearnerStub := s.own, scoutAcceptorStub := s.other }, s.locals, s.attempts)

end Loops

/-! ### One turn -/

/-- The peers to whom a send has failed. -/
def failedIds (attempts : List Attempt) : List ℤ :=
  (attempts.filter fun t => !t.sent).map Attempt.id

theorem mem_failedIds_append {attempts : List Attempt} {t : Attempt} {k : ℤ} :
    k ∈ failedIds (attempts ++ [t]) ↔ k ∈ failedIds attempts ∨ k = t.id ∧ t.sent = false := by
  rw [failedIds, List.filter_append, List.map_append, List.mem_append, ← failedIds]
  refine or_congr_right ?_
  cases h : t.sent <;> simp [h]

namespace BroadcastLoop

variable {σ : Type} {B : BroadcastLoop σ} {s s' : Broadcasting σ} {a : ℤ} {contact : Contact}

/-- What a turn with the iterator on `a` does; `ok` is whether the send succeeds. -/
structure Turned (s s' : Broadcasting σ) (a : ℤ) (message : PaxosMsg) (ok : Bool) : Prop where
  attempts : s'.attempts = s.attempts ++ [⟨a, message, ok⟩]
  ahead : s.own.ahead (some a) = a :: s'.own.ahead s'.iter
  valid : ∀ b ∈ s'.iter, b ∈ s'.own
  mem : ∀ k, k ∈ s'.own ↔ k ∈ s.own ∧ (k = a → ok = true)
  find? : ∀ k, k ≠ a → s'.own.find? k = s.own.find? k
  other : ∀ k, s'.other.find? k = if k = a ∧ ok = false then none else s.other.find? k

theorem stubsAfter_cases (B : BroadcastLoop σ) (own : StdMap ℤ ClientStub) (a : ℤ)
    (contact : Contact) :
    B.stubsAfter own a contact = own ∨ B.stubsAfter own a contact = own.insert a ⟨false⟩ := by
  rw [stubsAfter]
  split
  · exact .inl rfl
  · split_ifs
    · exact .inl rfl
    · exact .inr rfl

theorem ahead_stubsAfter (B : BroadcastLoop σ) {own : StdMap ℤ ClientStub} (ha : a ∈ own)
    (contact : Contact) :
    (B.stubsAfter own a contact).ahead ((B.stubsAfter own a contact).next? a) =
      own.ahead (own.next? a) := by
  rcases B.stubsAfter_cases own a contact with h | h
  · rw [h]
  · rw [h, StdMap.next?_insert_of_mem ha, StdMap.ahead_insert_of_mem ha]

theorem turned_sent (ha : a ∈ s.own) (contact : Contact) :
    Turned s (B.sent s a contact) a B.message true := by
  -- the stub may have been closed, but its key stays in the map
  have hmem : ∀ k, k ∈ B.stubsAfter s.own a contact ↔ k ∈ s.own := fun k => by
    rcases B.stubsAfter_cases s.own a contact with h | h
    · rw [h]
    · rw [h, StdMap.mem_insert, or_iff_right_of_imp]
      rintro rfl
      exact ha
  have hfind : ∀ k, k ≠ a → (B.stubsAfter s.own a contact).find? k = s.own.find? k := by
    intro k hk
    rcases B.stubsAfter_cases s.own a contact with h | h
    · rw [h]
    · rw [h, StdMap.find?_insert, if_neg hk]
  exact
    { attempts := rfl
      ahead := by
        rw [StdMap.ahead_some ha]
        exact congrArg _ (B.ahead_stubsAfter ha contact).symm
      valid := fun b hb => (StdMap.mem_of_next? hb).1
      mem := fun k => (hmem k).trans (and_iff_left fun _ => rfl).symm
      find? := hfind
      other := fun k => (if_neg fun h => Bool.noConfusion h.2).symm }

theorem turned_failed (ha : a ∈ s.own) : Turned s (B.failed s a) a B.message false where
  attempts := rfl
  ahead := by
    rw [StdMap.ahead_some ha]
    exact congrArg _ (s.own.ahead_erase_next? a).symm
  valid b hb := by
    obtain ⟨hmem, hlt⟩ := StdMap.mem_of_next? hb
    exact StdMap.mem_erase.2 ⟨hlt.ne', hmem⟩
  mem k := by
    refine StdMap.mem_erase.trans ?_
    rw [and_comm]
    simp
  find? k hk := (StdMap.find?_erase _ _ _).trans (if_neg hk)
  other k := by
    refine (StdMap.find?_erase _ _ _).trans ?_
    simp

/-- A turn with a valid iterator has a result; the send succeeds if the network
    takes the message and the socket is open. -/
theorem turn_eq (ha : a ∈ s.own) (contact : Contact) : B.turn s a contact =
    some (if contact.alive ∧ open? s.own a then B.sent s a contact else B.failed s a) := by
  obtain ⟨⟨isOpen⟩, hstub⟩ := StdMap.exists_find? ha
  have hopen : open? s.own a ↔ isOpen = true := by
    rw [open?, hstub, Option.some_inj, ClientStub.mk.injEq]
  rw [turn, hstub, Option.map_some]
  exact congrArg some (if_congr (and_congr_right' hopen.symm) rfl rfl)

theorem turn_spec (ha : a ∈ s.own) (contact : Contact) : ∃ s', B.turn s a contact = some s' ∧
    Turned s s' a B.message (contact.alive && decide (open? s.own a)) := by
  refine ⟨_, turn_eq ha contact, ?_⟩
  split_ifs with h
  · rw [h.1, decide_eq_true h.2]
    exact turned_sent ha contact
  · have hfail : (contact.alive && decide (open? s.own a)) = false := by
      rw [Bool.and_eq_false_iff, decide_eq_false_iff_not, ← Bool.not_eq_true]
      exact not_and_or.1 h
    rw [hfail]
    exact turned_failed ha

/-! ### One pass -/

/-- What a loop over `own` has done after some attempts, `iter` being where it is. -/
structure Visited (B : BroadcastLoop σ) (env : ℕ → Contact) (own other : StdMap ℤ ClientStub)
    (s : Broadcasting σ) : Prop where
  ids : s.attempts.map Attempt.id ++ s.own.ahead s.iter = own.keys
  valid : ∀ a ∈ s.iter, a ∈ s.own
  outcome : ∀ j t, s.attempts[j]? = some t →
    t.message = B.message ∧ (t.sent = true ↔ (env j).alive = true ∧ open? own t.id)
  mem : ∀ k, k ∈ s.own ↔ k ∈ own ∧ k ∉ failedIds s.attempts
  find? : ∀ k ∈ s.own.ahead s.iter, s.own.find? k = own.find? k
  other : ∀ k, s.other.find? k = if k ∈ failedIds s.attempts then none else other.find? k

variable {env : ℕ → Contact} {own other : StdMap ℤ ClientStub}

theorem visited_start (B : BroadcastLoop σ) (env : ℕ → Contact) (own other : StdMap ℤ ClientStub)
    (locals : σ) : B.Visited env own other
      { own := own, other := other, iter := own.begin?, locals := locals } where
  ids := own.ahead_begin?
  valid a ha := StdMap.mem_keys.1 (List.mem_of_mem_head? ha)
  outcome j t h := absurd h (by simp)
  mem k := (and_iff_left List.not_mem_nil).symm
  find? _ _ := rfl
  other k := (if_neg List.not_mem_nil).symm

theorem Visited.turn (h : B.Visited env own other s) (hiter : s.iter = some a) : ∃ s',
    B.turn s a (env s.attempts.length) = some s' ∧ B.Visited env own other s' ∧
      s.own.ahead s.iter = a :: s'.own.ahead s'.iter := by
  have ha := h.valid a hiter
  obtain ⟨s', hturn, ht⟩ := turn_spec (B := B) ha (env s.attempts.length)
  have hahead : s.own.ahead s.iter = a :: s'.own.ahead s'.iter := hiter ▸ ht.ahead
  have hfind : s.own.find? a = own.find? a := h.find? a (hahead ▸ List.mem_cons_self)
  have hsorted := hahead ▸ s.own.ahead_sorted s.iter
  refine ⟨s', hturn, ?_, hahead⟩
  exact
    { ids := by
        rw [ht.attempts, List.map_append, List.append_assoc, ← h.ids, hahead]
        rfl
      valid := ht.valid
      outcome := by
        intro j t hj
        rw [ht.attempts, List.getElem?_append] at hj
        split_ifs at hj with hlt
        · exact h.outcome j t hj
        · rw [List.getElem?_singleton] at hj
          split_ifs at hj with hzero
          cases hj
          obtain rfl : j = s.attempts.length := by omega
          simp [open?, hfind]
      mem := by
        intro k
        rw [ht.mem, h.mem, ht.attempts, mem_failedIds_append, not_or, and_assoc, not_and,
          Bool.not_eq_false]
      find? := by
        intro k hk
        have hne : k ≠ a := ((List.pairwise_cons.1 hsorted).1 k hk).ne'
        rw [ht.find? k hne]
        exact h.find? k (hahead ▸ List.mem_cons_of_mem _ hk)
      other := by
        intro k
        rw [ht.other, h.other, ht.attempts]
        simp only [mem_failedIds_append]
        split_ifs <;> simp_all }

/-- The loop ends at the end of the map, when it has visited every id ahead of it. -/
theorem Visited.run {n : ℕ} (h : B.Visited env own other s)
    (hn : (s.own.ahead s.iter).length ≤ n) : ∃ s',
      B.run env n s = some s' ∧ B.Visited env own other s' ∧ s'.iter = none := by
  induction n generalizing s with
  | zero =>
    cases hiter : s.iter with
    | none => exact ⟨s, by rw [BroadcastLoop.run, hiter]; rfl, h, hiter⟩
    | some a =>
      rw [hiter, StdMap.ahead_some (h.valid a hiter), List.length_cons] at hn
      omega
  | succ n ih =>
    cases hiter : s.iter with
    | none => exact ⟨s, by rw [BroadcastLoop.run, hiter], h, hiter⟩
    | some a =>
      obtain ⟨s', hturn, hs', hahead⟩ := h.turn hiter
      rw [hahead, List.length_cons] at hn
      obtain ⟨s'', hrun, hs''⟩ := ih hs' (by omega)
      refine ⟨s'', ?_, hs''⟩
      simp only [BroadcastLoop.run, hiter, hturn, Option.bind_some, hrun]

end BroadcastLoop

/-- What one pass over `own` does: every peer of the map is sent the message once,
    and those to whom the send fails are gone from both maps. -/
structure OnePass (message : PaxosMsg) (env : ℕ → Contact)
    (own other own' other' : StdMap ℤ ClientStub) (attempts : List Attempt) : Prop where
  ids : attempts.map Attempt.id = own.keys
  once : (attempts.map Attempt.id).Nodup
  outcome : ∀ j t, attempts[j]? = some t →
    t.message = message ∧ (t.sent = true ↔ (env j).alive = true ∧ open? own t.id)
  own : ∀ k, k ∈ own' ↔ k ∈ own ∧ k ∉ failedIds attempts
  other : ∀ k, other'.find? k = if k ∈ failedIds attempts then none else other.find? k

theorem BroadcastLoop.pass_spec {σ : Type} (B : BroadcastLoop σ) (env : ℕ → Contact)
    (own other : StdMap ℤ ClientStub) (locals : σ) : ∃ s, B.pass own other locals env = some s ∧
      OnePass B.message env own other s.own s.other s.attempts := by
  have hlen : (own.ahead own.begin?).length ≤ own.size := by
    rw [own.ahead_begin?, StdMap.keys, List.length_map, StdMap.size]
  obtain ⟨s, hrun, hs, hiter⟩ := (visited_start B env own other locals).run hlen
  have hids : s.attempts.map Attempt.id = own.keys := by
    rw [← hs.ids, hiter]
    exact (List.append_nil _).symm
  exact ⟨s, hrun, hids, hids ▸ own.keys_nodup, hs.outcome, hs.mem, hs.other⟩

/-- Each of the loops ends, goes over its map once and changes nothing but the two
    maps: the number of acceptors that a majority is counted against stays. -/
theorem broadcast_loops (f : LaptopFactory) (env : ℕ → Contact) :
    (∀ l, ∃ f' l' attempts, p1aLoop f env l = some (f', l', attempts) ∧
      OnePass (.p1a f.proposalNumber) env f.scoutAcceptorStub f.commanderLearnerStub
        f'.scoutAcceptorStub f'.commanderLearnerStub attempts ∧
      f'.numOfAcceptors = f.numOfAcceptors) ∧
    (∀ ph, ∃ f' ph' attempts, p2aLoop f env ph = some (f', ph', attempts) ∧
      OnePass (.p2a f.proposalNumber ph.cmd) env f.scoutAcceptorStub f.commanderLearnerStub
        f'.scoutAcceptorStub f'.commanderLearnerStub attempts ∧
      f'.numOfAcceptors = f.numOfAcceptors) ∧
    ∀ cmd, ∃ f' attempts, learnLoop f env cmd = some (f', (), attempts) ∧
      OnePass (.learn cmd) env f.commanderLearnerStub f.scoutAcceptorStub
        f'.commanderLearnerStub f'.scoutAcceptorStub attempts ∧
      f'.numOfAcceptors = f.numOfAcceptors := by
  refine ⟨fun l => ?_, fun ph => ?_, fun cmd => ?_⟩
  · obtain ⟨s, hpass, h⟩ := (p1aBroadcast f).pass_spec env f.scoutAcceptorStub
      f.commanderLearnerStub l
    exact ⟨_, s.locals, s.attempts, congrArg (Option.map _) hpass, h, rfl⟩
  · obtain ⟨s, hpass, h⟩ := (p2aBroadcast f ph.cmd).pass_spec env f.scoutAcceptorStub
      f.commanderLearnerStub ph
    exact ⟨_, s.locals, s.attempts, congrArg (Option.map _) hpass, h, rfl⟩
  · obtain ⟨s, hpass, h⟩ := (learnBroadcast cmd).pass_spec env f.commanderLearnerStub
      f.scoutAcceptorStub ()
    exact ⟨_, s.attempts, congrArg (Option.map _) hpass, h, rfl⟩

/-! ### The steps of the Scout -/

/-- Some steps of the Scout of the server `id`, in some environment. -/
def ScoutSteps (id : ℤ) : LaptopFactory × ScoutPc → LaptopFactory × ScoutPc → Prop :=
  Relation.ReflTransGen fun x y =>
    ∃ inbox env, (scoutStep id x.1 inbox env x.2).map (fun e => (e.factory, e.pc)) = some y

section Steps

variable {id : ℤ} {f f' : LaptopFactory} {laptop : LaptopInfo} {env : ℕ → Contact}
  {attempts : List Attempt}

theorem ScoutSteps.single {x y : LaptopFactory × ScoutPc} (inbox : ℤ → List PaxosMsg) (env : Env)
    (h : (scoutStep id x.1 inbox env x.2).map (fun e => (e.factory, e.pc)) = some y) :
    ScoutSteps id x y := Relation.ReflTransGen.single ⟨inbox, env, h⟩

theorem ScoutSteps.trans {x y z : LaptopFactory × ScoutPc} (h : ScoutSteps id x y)
    (h' : ScoutSteps id y z) : ScoutSteps id x z := Relation.ReflTransGen.trans h h'

/-- The Scout can take the turns of a loop: `state` is a server with the two maps,
    and `pc l iter` the head of the loop. -/
structure TakesTurns {σ : Type} (id : ℤ) (B : BroadcastLoop σ)
    (state : StdMap ℤ ClientStub → StdMap ℤ ClientStub → LaptopFactory)
    (pc : σ → List ℤ → ScoutPc) : Prop where
  sent : ∀ own other l a iter contact, open? own a →
    ScoutSteps id (state own other, pc l (a :: iter))
      (state (B.stubsAfter own a contact) other, pc (B.localsAfter l a contact) iter)
  failed : ∀ own other l a iter alive, ¬(alive = true ∧ open? own a) →
    ScoutSteps id (state own other, pc l (a :: iter))
      (state (own.erase a) (other.erase a), pc l iter)

section Turns

variable {σ : Type} {B : BroadcastLoop σ}
  {state : StdMap ℤ ClientStub → StdMap ℤ ClientStub → LaptopFactory} {pc : σ → List ℤ → ScoutPc}

theorem TakesTurns.turn {s s' : Broadcasting σ} {a : ℤ} {contact : Contact}
    (h : TakesTurns id B state pc) (hiter : s.iter = some a)
    (hturn : B.turn s a contact = some s') :
    ScoutSteps id (state s.own s.other, pc s.locals (s.own.ahead s.iter))
      (state s'.own s'.other, pc s'.locals (s'.own.ahead s'.iter)) := by
  have ha : a ∈ s.own := by
    obtain ⟨stub, hstub, -⟩ := Option.map_eq_some_iff.1 hturn
    exact StdMap.mem_of_find? hstub
  rw [BroadcastLoop.turn_eq ha] at hturn
  rw [hiter, StdMap.ahead_some ha]
  split_ifs at hturn with hok <;> cases hturn
  · have hahead := B.ahead_stubsAfter ha contact
    exact hahead ▸ h.sent s.own s.other s.locals a _ _ hok.2
  · have hahead := s.own.ahead_erase_next? a
    exact hahead ▸ h.failed s.own s.other s.locals a _ _ hok

theorem TakesTurns.run {n : ℕ} {s s' : Broadcasting σ} (h : TakesTurns id B state pc)
    (hrun : B.run env n s = some s') :
    ScoutSteps id (state s.own s.other, pc s.locals (s.own.ahead s.iter))
      (state s'.own s'.other, pc s'.locals []) := by
  induction n generalizing s with
  | zero =>
    rw [BroadcastLoop.run] at hrun
    split_ifs at hrun with hiter
    cases hrun
    rw [Option.isNone_iff_eq_none.1 hiter]
    exact .refl
  | succ n ih =>
    rw [BroadcastLoop.run] at hrun
    split at hrun
    · next hiter =>
      cases hrun
      rw [hiter]
      exact .refl
    · next a hiter =>
      obtain ⟨t, hturn, hrun⟩ := Option.bind_eq_some_iff.1 hrun
      exact (h.turn hiter hturn).trans (ih hrun)

/-- The Scout goes through the loop, from the head of it with all peers to visit to
    that with none. -/
theorem TakesTurns.pass {own other : StdMap ℤ ClientStub} {l : σ} {s : Broadcasting σ}
    (h : TakesTurns id B state pc) (hpass : B.pass own other l env = some s) :
    ScoutSteps id (state own other, pc l own.keys) (state s.own s.other, pc s.locals []) := by
  have hsteps := h.run hpass
  rwa [own.ahead_begin?] at hsteps

end Turns

theorem p1a_takesTurns (id : ℤ) (f : LaptopFactory) (laptop : LaptopInfo) :
    TakesTurns id (p1aBroadcast f) (fun own other =>
      { f with scoutAcceptorStub := own, commanderLearnerStub := other }) (.p1a laptop) where
  sent own other l a iter contact ha := by
    refine ScoutSteps.trans (ScoutSteps.single (fun _ => []) {}
      (congrArg (Option.map _) (congrArg some (if_pos ⟨rfl, ha⟩)))) ?_
    obtain ⟨alive, reply⟩ := contact
    cases reply with
    | none => exact ScoutSteps.single (fun _ => []) { alive := false } rfl
    | some m => exact ScoutSteps.single (fun _ => [m]) {} rfl
  failed own other l a iter alive hfail := ScoutSteps.single (fun _ => []) { alive := alive }
    (congrArg (Option.map _) (congrArg some (if_neg hfail)))

theorem p2a_takesTurns (id : ℤ) (f : LaptopFactory) (laptop : LaptopInfo) (cmd : Command) :
    TakesTurns id (p2aBroadcast f cmd) (fun own other =>
      { f with scoutAcceptorStub := own, commanderLearnerStub := other }) (.p2a laptop) where
  sent own other ph a iter contact ha := by
    refine ScoutSteps.trans (ScoutSteps.single (fun _ => []) {}
      (congrArg (Option.map _) (congrArg some (if_pos ⟨rfl, ha⟩)))) ?_
    obtain ⟨alive, reply⟩ := contact
    cases reply with
    | none => exact ScoutSteps.single (fun _ => []) { alive := false } rfl
    | some m => exact ScoutSteps.single (fun _ => [m]) {} rfl
  failed own other ph a iter alive hfail := ScoutSteps.single (fun _ => []) { alive := alive }
    (congrArg (Option.map _) (congrArg some (if_neg hfail)))

theorem learn_takesTurns (id : ℤ) (f : LaptopFactory) (laptop : LaptopInfo) (cmd : Command) :
    TakesTurns id (learnBroadcast cmd) (fun own other =>
      { f with commanderLearnerStub := own, scoutAcceptorStub := other })
      (fun _ => .learn laptop cmd) where
  sent _ _ _ _ _ _ ha := ScoutSteps.single (fun _ => []) {}
    (congrArg (Option.map _) (congrArg some (if_pos ⟨rfl, ha⟩)))
  failed _ _ _ _ _ alive hfail := ScoutSteps.single (fun _ => []) { alive := alive }
    (congrArg (Option.map _) (congrArg some (if_neg hfail)))

/-- The loops are runs of the Scout. -/
theorem p1aLoop_steps {l l' : Prepare} (h : p1aLoop f env l = some (f', l', attempts)) :
    ScoutSteps id (f, .p1a laptop l f.scoutAcceptorStub.keys) (f', .p1a laptop l' []) := by
  obtain ⟨s, hpass, hs⟩ := Option.map_eq_some_iff.1 h
  cases hs
  exact (p1a_takesTurns id f laptop).pass hpass

theorem p2aLoop_steps {ph ph' : Accept} (h : p2aLoop f env ph = some (f', ph', attempts)) :
    ScoutSteps id (f, .p2a laptop ph f.scoutAcceptorStub.keys) (f', .p2a laptop ph' []) := by
  obtain ⟨s, hpass, hs⟩ := Option.map_eq_some_iff.1 h
  cases hs
  exact (p2a_takesTurns id f laptop ph.cmd).pass hpass

theorem learnLoop_steps {cmd : Command} (h : learnLoop f env cmd = some (f', (), attempts)) :
    ScoutSteps id (f, .learn laptop cmd f.commanderLearnerStub.keys) (f', .learn laptop cmd []) := by
  obtain ⟨s, hpass, hs⟩ := Option.map_eq_some_iff.1 h
  cases hs
  exact (learn_takesTurns id f laptop cmd).pass hpass

end Steps

end LaptopPaxos
