import LaptopPaxos.Steps

/-!
# The connections

A Scout talks to its acceptors one at a time: it sends a question and waits for
the reply before it goes on. So as long as its end of a connection is open, the
two wires of the connection together hold at most one message, the question or
the reply to it, and only while the Scout waits (`Wired`). A reply that fails
to arrive closes the connection for good, so that a late one is never read.

`reply_cases` is what the later invariants use: a reply that the Scout waits
for was there before the step, or has just been given by the acceptor to the
very question asked.
-/

namespace LaptopPaxos

open LaptopFactory

section

variable {w : Wires} {i a j b : ℤ} {m : PaxosMsg}

theorem Wires.mem_push {o : Option (ℤ × PaxosMsg)} (h : m ∈ w.push i o j b) :
    m ∈ w j b ∨ j = i ∧ o = some (b, m) := by
  cases o with
  | none => exact .inl h
  | some p =>
    rw [push, set_apply] at h
    split_ifs at h with hjb
    · obtain ⟨rfl, rfl⟩ := hjb
      rcases List.mem_append.1 h with h | h
      · exact .inl h
      · exact .inr ⟨rfl, by rw [List.mem_singleton.1 h]⟩
    · exact .inl h

theorem Wires.mem_of_mem_rest {msg : PaxosMsg} {rest : List PaxosMsg} (hq : w i a = msg :: rest)
    (h : m ∈ w.set i a rest j b) : m ∈ w j b := by
  rw [set_apply] at h
  split_ifs at h with hjb
  · rw [hjb.1, hjb.2, hq]; exact List.mem_cons_of_mem _ h
  · exact h

end

/-- The acceptor a Scout waits for and the question it has asked; `n` is its
    proposal number. -/
def ScoutPc.asked (n : ℤ) : ScoutPc → Option (ℤ × PaxosMsg)
  | .p1b _ _ a _ => some (a, .p1a n)
  | .p2b _ ph a _ => some (a, .p2a n ph.cmd)
  | _ => none

theorem ScoutPc.phase_of_asked {pc : ScoutPc} {n a : ℤ} {m : PaxosMsg}
    (h : pc.asked n = some (a, m)) : m.phase = 1 ∨ m.phase = 3 := by
  cases pc <;> cases h
  · exact .inl rfl
  · exact .inr rfl

theorem ScoutPc.eq_p1b {pc : ScoutPc} {k n a : ℤ} (h : pc.asked k = some (a, .p1a n)) :
    ∃ laptop l iter, pc = .p1b laptop l a iter ∧ n = k := by
  cases pc with
  | p1b laptop l b iter => cases h; exact ⟨laptop, l, iter, rfl, rfl⟩
  | p2b laptop ph b iter =>
    exact absurd (congrArg (fun p => p.2.phase) (Option.some.inj h)) (by simp)
  | _ => cases h

namespace Cluster

variable (c : Cluster)

def asked (i : ℤ) : Option (ℤ × PaxosMsg) := (c.scout i).asked (c.factory i).proposalNumber

/-- The Scout of `i` has an open connection to the acceptor `a`. -/
def opened (i a : ℤ) : Prop := open? (c.factory i).scoutAcceptorStub a

end Cluster

theorem open?_erase {stubs : StdMap ℤ ClientStub} {a b : ℤ} (h : open? (stubs.erase a) b) :
    b ≠ a ∧ open? stubs b := by
  rw [open?, StdMap.find?_erase] at h
  split_ifs at h with hb
  exact ⟨hb, h⟩

theorem open?_close {stubs : StdMap ℤ ClientStub} {a b : ℤ}
    (h : open? (stubs.insert a ⟨false⟩) b) : b ≠ a ∧ open? stubs b := by
  rw [open?, StdMap.find?_insert] at h
  split_ifs at h with hb
  · cases h
  · exact ⟨hb, h⟩

theorem mem_of_open? {stubs : StdMap ℤ ClientStub} {a : ℤ} (h : open? stubs a) : a ∈ stubs :=
  StdMap.mem_of_find? h

/-! ### The Scout on the network -/

/-- A step of the Scout as its connections see it. -/
inductive ScoutNet (f : LaptopFactory) (inbox : ℤ → List PaxosMsg) (pc : ScoutPc) (e : Effect) :
    Prop
  | idle : pc.asked f.proposalNumber = none → e.pc.asked e.factory.proposalNumber = none →
      e.toAcceptor = none → e.received = none →
      e.factory.scoutAcceptorStub = f.scoutAcceptorStub →
      e.factory.scoutAcceptorStubInit = f.scoutAcceptorStubInit → ScoutNet f inbox pc e
  | connect : pc.asked f.proposalNumber = none → e.pc.asked e.factory.proposalNumber = none →
      e.toAcceptor = none → e.received = none → f.scoutAcceptorStubInit = false →
      e.factory.scoutAcceptorStubInit = true → ScoutNet f inbox pc e
  | send {a m} : pc.asked f.proposalNumber = none →
      e.pc.asked e.factory.proposalNumber = some (a, m) → e.toAcceptor = some (a, m) →
      e.received = none → open? f.scoutAcceptorStub a → e.factory = f → ScoutNet f inbox pc e
  | erase {a} : pc.asked f.proposalNumber = none → e.pc.asked e.factory.proposalNumber = none →
      e.toAcceptor = none → e.received = none →
      e.factory.scoutAcceptorStub = f.scoutAcceptorStub.erase a →
      e.factory.scoutAcceptorStubInit = f.scoutAcceptorStubInit → ScoutNet f inbox pc e
  | receive {a m r rest} : pc.asked f.proposalNumber = some (a, m) → inbox a = r :: rest →
      e.pc.asked e.factory.proposalNumber = none → e.toAcceptor = none →
      e.received = some a → e.factory = f → ScoutNet f inbox pc e
  | close {a m} : pc.asked f.proposalNumber = some (a, m) →
      e.pc.asked e.factory.proposalNumber = none → e.toAcceptor = none → e.received = none →
      e.factory.scoutAcceptorStub = f.scoutAcceptorStub.insert a ⟨false⟩ →
      e.factory.scoutAcceptorStubInit = f.scoutAcceptorStubInit → ScoutNet f inbox pc e

theorem ScoutStep.net {id : ℤ} {f : LaptopFactory} {inbox : ℤ → List PaxosMsg} {env : Env}
    {pc : ScoutPc} {e : Effect} (h : ScoutStep id f inbox env pc e) : ScoutNet f inbox pc e := by
  cases h with
  | connect =>
    rw [scoutConnect]
    by_cases hi : f.scoutAcceptorStubInit
    · rw [if_pos hi]
      exact .idle rfl rfl rfl rfl rfl rfl
    · rw [if_neg hi]
      exact .connect rfl rfl rfl rfl (Bool.eq_false_iff.2 hi) rfl
  | sendP1a ho => exact .send rfl rfl rfl rfl ho rfl
  | sendP2a ho => exact .send rfl rfl rfl rfl ho rfl
  | failP1a => exact .erase rfl rfl rfl rfl rfl rfl
  | failP2a => exact .erase rfl rfl rfl rfl rfl rfl
  | failLearn => exact .erase rfl rfl rfl rfl rfl rfl
  | receiveP1b hm => exact .receive rfl hm rfl rfl rfl rfl
  | receiveP2b hm => exact .receive rfl hm rfl rfl rfl rfl
  | missP1b => exact .close rfl rfl rfl rfl rfl rfl
  | missP2b => exact .close rfl rfl rfl rfl rfl rfl
  | command =>
    rw [commanderConnect]
    split_ifs <;> exact .idle rfl rfl rfl rfl rfl rfl
  | _ => exact .idle rfl rfl rfl rfl rfl rfl

/-! ### The wires of an open connection -/

/-- The wires `q` to and `r` from the acceptor `a`, when the connection is open. -/
def Talk (asked : Option (ℤ × PaxosMsg)) (a : ℤ) (q r : List PaxosMsg) : Prop :=
  (∃ m, asked = some (a, m) ∧ (q = [m] ∧ r = [] ∨ q = [] ∧ ∃ m', r = [m'])) ∨
    ((∀ m, asked ≠ some (a, m)) ∧ q = [] ∧ r = [])

theorem Talk.of_none {a : ℤ} {q r : List PaxosMsg} (h : q = [] ∧ r = []) : Talk none a q r :=
  .inr ⟨fun _ => (Option.some_ne_none _).symm, h⟩

theorem Talk.silent {asked : Option (ℤ × PaxosMsg)} {a : ℤ} {q r : List PaxosMsg}
    (h : Talk asked a q r) (ha : ∀ m, asked ≠ some (a, m)) : q = [] ∧ r = [] := by
  rcases h with ⟨m, hm, _⟩ | ⟨_, h⟩
  · exact absurd hm (ha m)
  · exact h

/-- A message on its way to the acceptor is the question asked. -/
theorem Talk.question {asked : Option (ℤ × PaxosMsg)} {a : ℤ} {q r rest : List PaxosMsg}
    {msg : PaxosMsg} (h : Talk asked a q r) (hq : q = msg :: rest) :
    asked = some (a, msg) ∧ rest = [] ∧ r = [] := by
  rcases h with ⟨m, hm, ⟨hq', hr⟩ | ⟨hq', _⟩⟩ | ⟨_, hq', _⟩
  · rw [hq'] at hq
    cases hq
    exact ⟨hm, rfl, hr⟩
  · rw [hq'] at hq; cases hq
  · rw [hq'] at hq; cases hq

/-- A reply on its way is the only one, and has left no question behind. -/
theorem Talk.reply {asked : Option (ℤ × PaxosMsg)} {a : ℤ} {q r rest : List PaxosMsg}
    {m : PaxosMsg} (h : Talk asked a q r) (hr : r = m :: rest) : q = [] ∧ rest = [] := by
  rcases h with ⟨_, _, ⟨_, hr'⟩ | ⟨hq, _, hr'⟩⟩ | ⟨_, _, hr'⟩
  · rw [hr'] at hr; cases hr
  · rw [hr'] at hr
    cases hr
    exact ⟨hq, rfl⟩
  · rw [hr'] at hr; cases hr

/-- The connections are in order. -/
structure Wired (c : Cluster) : Prop where
  asked : ∀ i a m, c.asked i = some (a, m) → c.opened i a
  talk : ∀ i a, c.opened i a → Talk (c.asked i) a (c.toAcceptor i a) (c.toScout i a)
  fresh : ∀ i, (c.factory i).scoutAcceptorStubInit = false →
    ∀ a, ¬c.opened i a ∧ c.toAcceptor i a = [] ∧ c.toScout i a = []

section

variable {D : Deployment} {c c' : Cluster} {act : Action} {i : ℤ}

theorem asked_congr (hs : c'.scout i = c.scout i) (hf : SameScout (c.factory i) (c'.factory i)) :
    c'.asked i = c.asked i := by
  rw [Cluster.asked, Cluster.asked, hs, hf.proposalNumber]

theorem opened_congr (hf : SameScout (c.factory i) (c'.factory i)) (a : ℤ) :
    c'.opened i a ↔ c.opened i a := by
  rw [Cluster.opened, Cluster.opened, hf.stub]

/-- A step of an acceptor is not seen by the Scouts. -/
theorem sameScout_acceptMsg (c : Cluster) (a i : ℤ) (msg : PaxosMsg) (rest : List PaxosMsg) (j : ℤ) :
    SameScout (c.factory j) ((c.acceptMsg a i msg rest).factory j) := by
  rw [Cluster.factory_acceptMsg]
  split_ifs with h
  · subst h
    exact (acceptorEngineer_cases _ _).frame.1
  · exact .refl _

/-- A step of an acceptor does not change the configurations. -/
theorem sameConfig_acceptMsg (c : Cluster) (a i : ℤ) (msg : PaxosMsg) (rest : List PaxosMsg)
    (j : ℤ) : SameConfig (c.factory j) ((c.acceptMsg a i msg rest).factory j) := by
  rw [Cluster.factory_acceptMsg]
  split_ifs with h
  · subst h
    exact (acceptorEngineer_cases _ _).frame.2.2
  · exact .refl _

/-- The acceptor has an answer to every question of a Scout. -/
theorem exists_reply {a : ℤ} {m : PaxosMsg} (ha : c.asked i = some (a, m)) (f : LaptopFactory) :
    ∃ r, (f.acceptorEngineer m).2 = some r := by
  have hph := ScoutPc.phase_of_asked ha
  have h := acceptorEngineer_cases f m
  generalize (f.acceptorEngineer m).1 = f', (f.acceptorEngineer m).2 = o at h
  cases h with
  | ignore h₁ h₃ => exact absurd hph (by simp [h₁, h₃])
  | _ => exact ⟨_, rfl⟩

theorem wired_init (D : Deployment) : Wired (Cluster.init D) where
  asked _ _ _ := nofun
  talk _ _ _ := .of_none ⟨rfl, rfl⟩
  fresh i _ a := by
    obtain ⟨m, s, h, -⟩ := D.factory_eq i
    refine ⟨fun ho => ?_, rfl, rfl⟩
    change open? (D.factory i).scoutAcceptorStub a at ho
    rw [h, open?, StdMap.find?_empty] at ho
    cases ho

section

variable {e : Effect} (hw : Wired c)
  (h : ScoutNet (c.factory i) (c.toScout i) (c.scout i) e)

include h

theorem asked_scout {a : ℤ} {m : PaxosMsg} (ha : e.pc.asked e.factory.proposalNumber = some (a, m)) :
    open? e.factory.scoutAcceptorStub a := by
  cases h with
  | send _ hn _ _ ho hf =>
    rw [ha] at hn
    cases hn
    rwa [hf]
  | idle _ hn => rw [ha] at hn; cases hn
  | connect _ hn => rw [ha] at hn; cases hn
  | erase _ hn => rw [ha] at hn; cases hn
  | receive _ _ hn => rw [ha] at hn; cases hn
  | close _ hn => rw [ha] at hn; cases hn

include hw

theorem talk_scout {a : ℤ} (ho : open? e.factory.scoutAcceptorStub a) :
    Talk (e.pc.asked e.factory.proposalNumber) a (c.toAcceptor.push i e.toAcceptor i a)
      (c.toScout.pop i e.received i a) := by
  -- a connection on which nothing was asked is silent before the step
  have hsilent : ∀ a, open? (c.factory i).scoutAcceptorStub a → (∀ m, c.asked i ≠ some (a, m)) →
      c.toAcceptor i a = [] ∧ c.toScout i a = [] := fun a ho => (hw.talk i a ho).silent
  rw [Cluster.asked] at hsilent
  cases h with
  | idle hn hn' hq hr hst _ =>
    rw [hn] at hsilent
    rw [hn', hq, hr]
    exact .of_none (hsilent a (hst ▸ ho) fun _ => (Option.some_ne_none _).symm)
  | connect _ hn' hq hr hfr _ =>
    rw [hn', hq, hr]
    exact .of_none (hw.fresh i hfr a).2
  | @send b m hn hn' hq hr hob hf =>
    rw [hn] at hsilent
    rw [hn', hq, hr]
    obtain ⟨hq₀, hr₀⟩ := hsilent a (hf ▸ ho) fun _ => (Option.some_ne_none _).symm
    by_cases hab : a = b
    · -- the question is on its way, and no reply to it
      subst hab
      exact .inl ⟨m, rfl, .inl ⟨by simp [Wires.push, hq₀], hr₀⟩⟩
    · refine .inr ⟨fun m' h' => hab ?_, by simp [Wires.push, hab, hq₀], hr₀⟩
      cases h'
      rfl
  | erase hn hn' hq hr hst _ =>
    rw [hn] at hsilent
    rw [hst] at ho
    rw [hn', hq, hr]
    exact .of_none (hsilent a (open?_erase ho).2 fun _ => (Option.some_ne_none _).symm)
  | @receive b m r rest hn hin hn' hq hr hf =>
    rw [hn] at hsilent
    rw [hf] at ho
    rw [hn', hq, hr]
    by_cases hab : a = b
    · subst hab
      obtain ⟨hq₀, hrest⟩ := (hw.talk i a ho).reply hin
      exact .of_none ⟨hq₀, by simp [Wires.pop, hin, hrest]⟩
    · obtain ⟨hq₀, hr₀⟩ := hsilent a ho fun m' h' => hab (by cases h'; rfl)
      exact .of_none ⟨hq₀, by simp [Wires.pop, hab, hr₀]⟩
  | @close b m hn hn' hq hr hst _ =>
    rw [hn] at hsilent
    rw [hst] at ho
    rw [hn', hq, hr]
    obtain ⟨hab, ho⟩ := open?_close ho
    exact .of_none (hsilent a ho fun m' h' => hab (by cases h'; rfl))

theorem fresh_scout (hi : e.factory.scoutAcceptorStubInit = false) (a : ℤ) :
    ¬open? e.factory.scoutAcceptorStub a ∧ c.toAcceptor.push i e.toAcceptor i a = [] ∧
      c.toScout.pop i e.received i a = [] := by
  cases h with
  | idle _ _ hq hr hst hi' =>
    rw [hq, hr, hst]
    exact hw.fresh i (hi' ▸ hi) a
  | connect _ _ _ _ _ hi' => rw [hi'] at hi; cases hi
  | send _ _ _ _ ho hf => exact absurd ho (hw.fresh i (hf ▸ hi) _).1
  | erase _ _ hq hr hst hi' =>
    obtain ⟨ho, hf⟩ := hw.fresh i (hi' ▸ hi) a
    rw [hq, hr, hst]
    exact ⟨fun h => ho (open?_erase h).2, hf⟩
  | receive _ hin _ _ _ hf =>
    -- without stubs there is no reply to receive
    rw [hf] at hi
    rw [(hw.fresh i hi _).2.2] at hin
    cases hin
  | close _ _ hq hr hst hi' =>
    obtain ⟨ho, hf⟩ := hw.fresh i (hi' ▸ hi) a
    rw [hq, hr, hst]
    exact ⟨fun h => ho (open?_close h).2, hf⟩

/-- A Scout that asks finds no reply on the wire. -/
theorem toScout_eq_nil_of_asks {a : ℤ} {m : PaxosMsg} (ha : e.toAcceptor = some (a, m)) :
    (c.applyEffect i e).toScout i a = [] := by
  cases h with
  | send hn _ hta hrec ho _ =>
    rw [hta] at ha
    cases ha
    rw [Cluster.toScout_applyEffect, hrec]
    refine ((hw.talk i a ho).silent ?_).2
    rw [Cluster.asked, hn]
    exact fun _ => (Option.some_ne_none _).symm
  | idle _ _ hta => rw [hta] at ha; cases ha
  | connect _ _ hta => rw [hta] at ha; cases ha
  | erase _ _ hta => rw [hta] at ha; cases ha
  | receive _ _ _ hta => rw [hta] at ha; cases ha
  | close _ _ hta => rw [hta] at ha; cases ha

theorem wired_scout : Wired (c.applyEffect i e) := by
  -- the connections of the other Scouts are the same
  have hask : ∀ j ≠ i, (c.applyEffect i e).asked j = c.asked j := fun j hj => by
    simp [Cluster.asked, hj]
  have hopen : ∀ j ≠ i, ∀ a, (c.applyEffect i e).opened j a ↔ c.opened j a := fun j hj a => by
    simp [Cluster.opened, hj]
  have hask' : (c.applyEffect i e).asked i = e.pc.asked e.factory.proposalNumber := by
    simp [Cluster.asked]
  have hopen' : ∀ a, (c.applyEffect i e).opened i a ↔ open? e.factory.scoutAcceptorStub a :=
    fun a => by simp [Cluster.opened]
  refine ⟨fun j a m ha => ?_, fun j a ho => ?_, fun j hj a => ?_⟩ <;> by_cases hji : j = i
  · subst hji
    exact (hopen' a).2 (asked_scout h (hask' ▸ ha))
  · exact (hopen j hji a).2 (hw.asked j a m (hask j hji ▸ ha))
  · subst hji
    rw [hask']
    exact talk_scout hw h ((hopen' a).1 ho)
  · rw [hask j hji, Cluster.toAcceptor_applyEffect, Cluster.toScout_applyEffect,
      Wires.push_of_ne hji, Wires.pop_of_ne hji]
    exact hw.talk j a ((hopen j hji a).1 ho)
  · subst hji
    rw [Cluster.factory_applyEffect, if_pos rfl] at hj
    rw [hopen']
    exact fresh_scout hw h hj a
  · rw [Cluster.factory_applyEffect, if_neg hji] at hj
    rw [hopen j hji, Cluster.toAcceptor_applyEffect, Cluster.toScout_applyEffect, Wires.push_of_ne hji,
      Wires.pop_of_ne hji]
    exact hw.fresh j hj a

end

theorem wired_acceptor (hw : Wired c) {a : ℤ} {msg : PaxosMsg} {rest : List PaxosMsg}
    (hq : c.toAcceptor i a = msg :: rest) : Wired (c.acceptMsg a i msg rest) := by
  have hask : ∀ j, (c.acceptMsg a i msg rest).asked j = c.asked j := fun j =>
    asked_congr (Cluster.scout_acceptMsg a i msg rest j) (sameScout_acceptMsg c a i msg rest j)
  have hopen := fun j => opened_congr (sameScout_acceptMsg c a i msg rest j)
  refine ⟨fun j b m ha => (hopen j b).2 (hw.asked j b m (hask j ▸ ha)), fun j b ho => ?_,
    fun j hj b => ?_⟩
  · have ho' := (hopen j b).1 ho
    rw [hask, Cluster.toAcceptor_acceptMsg, Cluster.toScout_acceptMsg, Wires.set_apply,
      Wires.set_apply]
    split_ifs with hjb
    · obtain ⟨rfl, rfl⟩ := hjb
      -- the message is the question asked, and the reply is the only one
      obtain ⟨ha, rfl, hr⟩ := (hw.talk j b ho').question hq
      obtain ⟨r, hr'⟩ := exists_reply ha (c.factory b)
      exact .inl ⟨msg, ha, .inr ⟨rfl, r, by rw [hr, hr']; rfl⟩⟩
    · exact hw.talk j b ho'
  · obtain ⟨ho, hta, hts⟩ := hw.fresh j ((sameScout_acceptMsg c a i msg rest j).stubInit ▸ hj) b
    have hjb : ¬(j = i ∧ b = a) := by
      rintro ⟨rfl, rfl⟩
      rw [hq] at hta
      cases hta
    rw [hopen, Cluster.toAcceptor_acceptMsg, Cluster.toScout_acceptMsg, Wires.set_apply,
      Wires.set_apply, if_neg hjb, if_neg hjb]
    exact ⟨ho, hta, hts⟩

theorem Wired.step (hw : Wired c) (h : PaxosStep D c act c') : Wired c' := by
  cases h with
  | still hst =>
    have hask := fun j => asked_congr (hst.scout j) (hst.sameScout j)
    have hopen := fun j => opened_congr (hst.sameScout j)
    refine ⟨fun j b m ha => (hopen j b).2 (hw.asked j b m (hask j ▸ ha)), fun j b ho => ?_,
      fun j hj b => ?_⟩
    · rw [hask, hst.toAcceptor, hst.toScout]
      exact hw.talk j b ((hopen j b).1 ho)
    · rw [hopen, hst.toAcceptor, hst.toScout]
      exact hw.fresh j ((hst.sameScout j).stubInit ▸ hj) b
  | scout _ hs => exact wired_scout hw hs.net
  | acceptor _ hq => exact wired_acceptor hw hq

theorem wired_of_reachable (h : (cluster D).Reachable c) : Wired c :=
  paxos_invariant h (wired_init D) fun _ hw hst => hw.step hst

/-- A reply that a Scout waits for was there before the step, or the acceptor
    has just given it to the question asked. -/
theorem PaxosStep.reply_cases (hw : Wired c) (h : PaxosStep D c act c') {a : ℤ} {m r : PaxosMsg}
    (ha : c'.asked i = some (a, m)) (hr : r ∈ c'.toScout i a) :
    (c.asked i = some (a, m) ∧ r ∈ c.toScout i a ∧ c'.scout i = c.scout i ∧
        SameScout (c.factory i) (c'.factory i)) ∨
      (c.asked i = some (a, m) ∧ c.toAcceptor i a = [m] ∧ c' = c.acceptMsg a i m [] ∧
        ((c.factory a).acceptorEngineer m).2 = some r) := by
  cases h with
  | still hst =>
    rw [asked_congr (hst.scout i) (hst.sameScout i)] at ha
    exact .inl ⟨ha, hst.toScout ▸ hr, hst.scout i, hst.sameScout i⟩
  | @scout j env e _ hs =>
    by_cases hij : i = j
    · subst hij
      -- the Scout has just asked, so the connection was silent
      have ha' : e.pc.asked e.factory.proposalNumber = some (a, m) := by
        simpa [Cluster.asked] using ha
      rw [Cluster.toScout_applyEffect] at hr
      have hn := hs.net
      cases hn with
      | send hn hn' _ hrec ho _ =>
        rw [ha'] at hn'
        cases hn'
        rw [hrec] at hr
        have hask : c.asked i = none := hn
        obtain ⟨-, hsil⟩ := (hw.talk i a ho).silent fun _ => hask ▸ (Option.some_ne_none _).symm
        exact absurd hr (by rw [Wires.pop, hsil]; exact List.not_mem_nil)
      | idle _ hn => rw [ha'] at hn; cases hn
      | connect _ hn => rw [ha'] at hn; cases hn
      | erase _ hn => rw [ha'] at hn; cases hn
      | receive _ _ hn => rw [ha'] at hn; cases hn
      | close _ hn => rw [ha'] at hn; cases hn
    · refine .inl ⟨?_, ?_, ?_, ?_⟩
      · simpa [Cluster.asked, hij] using ha
      · rwa [Cluster.toScout_applyEffect, Wires.pop_of_ne hij] at hr
      · simp [hij]
      · simp [hij, SameScout.refl]
  | @acceptor b j msg rest _ hq =>
    rw [asked_congr (Cluster.scout_acceptMsg b j msg rest i)
      (sameScout_acceptMsg c b j msg rest i)] at ha
    rw [Cluster.toScout_acceptMsg, Wires.set_apply] at hr
    split_ifs at hr with hij
    · obtain ⟨rfl, rfl⟩ := hij
      obtain ⟨hm, rfl, hsil⟩ := (hw.talk i a (hw.asked i a m ha)).question hq
      rw [ha] at hm
      cases hm
      rw [hsil, List.nil_append] at hr
      exact .inr ⟨ha, hq, rfl, Option.mem_toList.1 hr⟩
    · exact .inl ⟨ha, hr, Cluster.scout_acceptMsg b j msg rest i,
        sameScout_acceptMsg c b j msg rest i⟩

end

end LaptopPaxos
