import LaptopPaxos.Cluster
import LaptopPaxos.Learn

/-!
# The steps, case by case

What a step can do, said once: `Step` lists the steps of the cluster and
`ScoutStep` the branches of the Scout, each with its guards and its effect.
Every invariant below is a case analysis of one of them (`step_cases`,
`scoutStep_cases`).

Most steps leave most of a server alone. The frame lemmas say so: the Scout does
not touch the acceptor and the decisions of its server (`ScoutStep.frame`), an
acceptor engineer only its promise and its accepted proposal
(`AcceptorStep.frame`), a learner engineer only the decisions
(`learnerEngineer_frame`).
-/

namespace LaptopPaxos

open LaptopFactory

/-! ### Start-up -/

theorem foldl_addAcceptor (peers : List (ℤ × ServerAddress)) (f : LaptopFactory) : ∃ m s,
    peers.foldl (fun f peer => f.addAcceptor peer.1 peer.2) f = { f with
      acceptorMap := m, serverConfig := s, numOfAcceptors := f.numOfAcceptors + peers.length } ∧
    ∀ a, a ∈ m ↔ a ∈ f.acceptorMap ∨ a ∈ peers.map Prod.fst := by
  induction peers generalizing f with
  | nil => exact ⟨_, _, rfl, fun a => by simp⟩
  | cons peer peers ih =>
    obtain ⟨m, s, h, hm⟩ := ih (f.addAcceptor peer.1 peer.2)
    refine ⟨m, s, ?_, fun a => ?_⟩
    · rw [List.foldl_cons, h, List.length_cons, addAcceptor]
      simp only [Nat.add_assoc, Nat.add_comm 1]
    · rw [hm, addAcceptor, StdMap.mem_insert, List.map_cons, List.mem_cons]
      tauto

/-- A server starts with the configured acceptors, and everything else empty. -/
theorem Deployment.factory_eq (D : Deployment) (i : ℤ) : ∃ m s,
    D.factory i =
      { factoryId := i
        acceptedValue := { slot := D.indet i }
        acceptorMap := m
        serverConfig := s
        numOfAcceptors := (D.ids.filter (· ≠ i)).length + 1 } ∧
    ∀ a, a ∈ m ↔ a = i ∨ a ∈ D.ids := by
  obtain ⟨m, s, h, hm⟩ := foldl_addAcceptor ((D.ids.filter (· ≠ i)).map fun j => (j, D.addr j))
    (addAcceptor { factoryId := i, acceptedValue := { slot := D.indet i } } i
      ⟨"127.0.0.1", (D.addr i).port⟩)
  refine ⟨m, s, ?_, fun a => ?_⟩
  · rw [Deployment.factory, configured, h, List.length_map, addAcceptor, Nat.zero_add, Nat.add_comm]
  · rw [hm, addAcceptor, StdMap.mem_insert, List.map_map]
    simp [Function.comp_def]
    tauto

theorem Deployment.numOfAcceptors_eq (D : Deployment) {i : ℤ} (hi : i ∈ D.ids) :
    (D.ids.filter (· ≠ i)).length + 1 = D.acceptors.card := by
  rw [acceptors, List.toFinset_card_of_nodup D.nodup, ← List.length_erase_add_one hi,
    D.nodup.erase_eq_filter]
  exact congrArg (fun l => List.length l + 1)
    (List.filter_congr fun j _ => by simp [bne, beq_eq_decide])

/-! ### Results of the accept phase -/

section

variable {f : LaptopFactory} {ph : Accept}

theorem acceptResult_eq_one : acceptResult f ph = 1 ↔
    f.numOfAcceptors / 2 < ph.activeAcceptors ∧ f.numOfAcceptors / 2 < ph.acceptNumber := by
  rw [acceptResult]
  split_ifs <;> simp <;> omega

theorem acceptResult_eq_zero : acceptResult f ph = 0 ↔
    f.numOfAcceptors / 2 < ph.activeAcceptors ∧ ph.acceptNumber = 0 := by
  rw [acceptResult]
  split_ifs <;> simp <;> omega

theorem acceptResult_cases : acceptResult f ph = 1 ∨ acceptResult f ph = 0 ∨
    acceptResult f ph = -1 ∨ acceptResult f ph = -2 := by
  rw [acceptResult]
  split_ifs <;> simp

theorem Accept.cmd_receive (ph : Accept) (m : PaxosMsg) : (ph.receive m).cmd = ph.cmd := by
  rw [Accept.receive]
  split_ifs <;> rfl

end

/-! ### The Scout -/

/-- The branches of a step of the Scout. -/
inductive ScoutStep (id : ℤ) (f : LaptopFactory) (inbox : ℤ → List PaxosMsg) (env : Env) :
    ScoutPc → Effect → Prop
  | dequeue {req erq} : f.erq = req :: erq →
      ScoutStep id f inbox env .idle { factory := { f with erq := erq }, pc := .connect req.laptop }
  | connect {laptop} : ScoutStep id f inbox env (.connect laptop) (scoutConnect f laptop env)
  | sendP1a {laptop l a iter} : open? f.scoutAcceptorStub a →
      ScoutStep id f inbox env (.p1a laptop l (a :: iter))
        { factory := f
          pc := .p1b laptop { l with activeAcceptor := l.activeAcceptor + 1 } a iter
          toAcceptor := some (a, .p1a f.proposalNumber)
          events := [.p1aSent id a f.proposalNumber] }
  | failP1a {laptop l a iter} : ScoutStep id f inbox env (.p1a laptop l (a :: iter))
      { factory := f.eraseStubs a, pc := .p1a laptop l iter }
  | receiveP1b {laptop l a iter m rest} : inbox a = m :: rest →
      ScoutStep id f inbox env (.p1b laptop l a iter)
        { factory := f
          pc := .p1a laptop (l.receive a f.proposalNumber m) iter
          received := some a }
  | missP1b {laptop l a iter} : ScoutStep id f inbox env (.p1b laptop l a iter)
      { factory := f.closeScoutStub a, pc := .p1a laptop (l.receive a f.proposalNumber {}) iter }
  | giveUp {laptop l} : l.activeAcceptor ≤ f.numOfAcceptors / 2 →
      ScoutStep id f inbox env (.p1a laptop l []) (scoutReturn id f laptop 0)
  | retry {laptop l} : f.numOfAcceptors / 2 < l.activeAcceptor →
      l.promisedNum ≤ f.numOfAcceptors / 2 →
      ScoutStep id f inbox env (.p1a laptop l [])
        { factory := { f with proposalNumber := l.highestProposlNum + 1 }
          pc := .p1a laptop l f.scoutAcceptorStub.keys
          events := [.roundFailed id f.proposalNumber] }
  | leave {laptop l} : f.numOfAcceptors / 2 < l.activeAcceptor →
      f.numOfAcceptors / 2 < l.promisedNum →
      ScoutStep id f inbox env (.p1a laptop l []) { factory := f, pc := .propose laptop l }
  | chooseOwn {laptop l} : l.acceptorAcceptedProposal = -1 ∨ l.cmd.slot ∈ f.decisionMap →
      ScoutStep id f inbox env (.propose laptop l) { factory := f, pc := .pickSlot laptop l }
  | chooseOther {laptop l} : l.acceptorAcceptedProposal ≠ -1 → l.cmd.slot ∉ f.decisionMap →
      ScoutStep id f inbox env (.propose laptop l)
        { factory := f
          pc := .p2a laptop { cmd := l.cmd, own := false } f.scoutAcceptorStub.keys
          events := [.proposed id f.proposalNumber l.cmd false l] }
  | pickSlot {laptop l} :
      ScoutStep id f inbox env (.pickSlot laptop l) (pickSlot id f laptop l env)
  | sendP2a {laptop ph a iter} : open? f.scoutAcceptorStub a →
      ScoutStep id f inbox env (.p2a laptop ph (a :: iter))
        { factory := f
          pc := .p2b laptop { ph with activeAcceptors := ph.activeAcceptors + 1 } a iter
          toAcceptor := some (a, .p2a f.proposalNumber ph.cmd)
          events := [.p2aSent id a f.proposalNumber ph.cmd ph.own] }
  | failP2a {laptop ph a iter} : ScoutStep id f inbox env (.p2a laptop ph (a :: iter))
      { factory := f.eraseStubs a, pc := .p2a laptop ph iter }
  | receiveP2b {laptop ph a iter m rest} : inbox a = m :: rest →
      ScoutStep id f inbox env (.p2b laptop ph a iter)
        { factory := f, pc := .p2a laptop (ph.receive m) iter, received := some a }
  | missP2b {laptop ph a iter} : ScoutStep id f inbox env (.p2b laptop ph a iter)
      { factory := f.closeScoutStub a, pc := .p2a laptop (ph.receive {}) iter }
  | accept {laptop ph} : acceptResult f ph = 1 →
      ScoutStep id f inbox env (.p2a laptop ph []) { factory := f, pc := .command laptop ph.cmd }
  | restart {laptop ph} : acceptResult f ph = 0 ∨ (ph.own = false ∧ acceptResult f ph = -1) →
      ScoutStep id f inbox env (.p2a laptop ph [])
        { factory := f, pc := startProposalNumCompete f laptop env }
  | tooFew {laptop ph} : ph.own = false → acceptResult f ph = -2 →
      ScoutStep id f inbox env (.p2a laptop ph []) (scoutReturn id f laptop 0)
  | drop {laptop ph} : ph.own = true → (acceptResult f ph = -1 ∨ acceptResult f ph = -2) →
      ScoutStep id f inbox env (.p2a laptop ph []) { factory := f, pc := .record laptop }
  | command {laptop cmd} :
      ScoutStep id f inbox env (.command laptop cmd) (commanderConnect f laptop cmd env)
  | sendLearn {laptop cmd a iter} :
      ScoutStep id f inbox env (.learn laptop cmd (a :: iter))
        { factory := f, pc := .learn laptop cmd iter, toLearner := some (a, .learn cmd) }
  | failLearn {laptop cmd a iter} : ScoutStep id f inbox env (.learn laptop cmd (a :: iter))
      { factory := f.eraseStubs a, pc := .learn laptop cmd iter }
  | endLearn {laptop cmd} :
      ScoutStep id f inbox env (.learn laptop cmd []) { factory := f, pc := .record laptop }
  | record {laptop} : ScoutStep id f inbox env (.record laptop) (recordOrder id f laptop)

theorem scoutStep_cases {id : ℤ} {f : LaptopFactory} {inbox : ℤ → List PaxosMsg} {env : Env}
    {pc : ScoutPc} {e : Effect} (h : scoutStep id f inbox env pc = some e) :
    ScoutStep id f inbox env pc e := by
  cases pc with
  | idle =>
    rw [scoutStep] at h
    split at h
    · cases h
    · next heq => cases h; exact .dequeue heq
  | connect laptop => cases h; exact .connect
  | p1a laptop l iter =>
    cases iter with
    | nil =>
      cases h
      rw [endRound]
      split_ifs with h₁ h₂
      · exact .giveUp h₁
      · exact .retry (not_le.1 h₁) h₂
      · exact .leave (not_le.1 h₁) (not_le.1 h₂)
    | cons a iter =>
      cases h
      rw [sendP1a]
      split_ifs with h₁
      · exact .sendP1a h₁.2
      · exact .failP1a
  | p1b laptop l a iter =>
    rw [scoutStep, receiveP1b] at h
    split_ifs at h
    · obtain ⟨m, hm, rfl⟩ := Option.map_eq_some_iff.1 h
      obtain ⟨rest, hrest⟩ := List.head?_eq_some_iff.1 hm
      exact .receiveP1b hrest
    · cases h; exact .missP1b
  | propose laptop l =>
    cases h
    rw [chooseCommand]
    split_ifs with h₁
    · exact .chooseOwn h₁
    · push Not at h₁
      exact .chooseOther h₁.1 h₁.2
  | pickSlot laptop l => cases h; exact .pickSlot
  | p2a laptop ph iter =>
    cases iter with
    | nil =>
      cases h
      split_ifs with hown
      · -- for the Scout's own command only the results 1 and 0 are tested for
        rw [endOwnAccept]
        rcases @acceptResult_cases f ph with hr | hr | hr | hr <;>
          simp only [hr]
        · exact .accept hr
        · exact .restart (.inl hr)
        · exact .drop hown (.inl hr)
        · exact .drop hown (.inr hr)
      · rw [Bool.not_eq_true] at hown
        rw [endOtherAccept]
        rcases @acceptResult_cases f ph with hr | hr | hr | hr <;>
          simp only [hr]
        · exact .accept hr
        · exact .restart (.inl hr)
        · exact .restart (.inr ⟨hown, hr⟩)
        · exact .tooFew hown hr
    | cons a iter =>
      cases h
      rw [sendP2a]
      split_ifs with h₁
      · exact .sendP2a h₁.2
      · exact .failP2a
  | p2b laptop ph a iter =>
    rw [scoutStep, receiveP2b] at h
    split_ifs at h
    · obtain ⟨m, hm, rfl⟩ := Option.map_eq_some_iff.1 h
      obtain ⟨rest, hrest⟩ := List.head?_eq_some_iff.1 hm
      exact .receiveP2b hrest
    · cases h; exact .missP2b
  | command laptop cmd => cases h; exact .command
  | learn laptop cmd iter =>
    cases iter with
    | nil => cases h; exact .endLearn
    | cons a iter =>
      cases h
      rw [sendLearn]
      split_ifs with h₁
      · exact .sendLearn
      · exact .failLearn
  | record laptop => cases h; exact .record

/-! ### The acceptor engineer -/

/-- The branches of an acceptor engineer: the new state and the reply. An
    acceptor that has not accepted anything reports the number `-1`. -/
inductive AcceptorStep (f : LaptopFactory) (msg : PaxosMsg) :
    LaptopFactory → Option PaxosMsg → Prop
  | promise {r} : msg.phase = 1 → f.promisedProposalNumber < msg.proposeNumber → r.isAgree →
      r.proposeNumber = -1 → r.acceptedProposal = f.acceptedProposalNumber →
      (f.acceptedProposalNumber ≠ -1 → r.getCommand = f.acceptedValue) →
      AcceptorStep f msg { f with promisedProposalNumber := msg.proposeNumber } (some r)
  | refuse {r} : msg.phase = 1 → msg.proposeNumber ≤ f.promisedProposalNumber → ¬r.isAgree →
      r.proposeNumber = f.promisedProposalNumber → AcceptorStep f msg f (some r)
  | accept {r} : msg.phase = 3 → msg.proposeNumber = f.promisedProposalNumber → r.isAgree →
      AcceptorStep f msg
        { f with
          acceptedProposalNumber := msg.proposeNumber
          acceptedValue := msg.getCommand } (some r)
  | reject {r} : msg.phase = 3 → msg.proposeNumber ≠ f.promisedProposalNumber → ¬r.isAgree →
      AcceptorStep f msg f (some r)
  | ignore : msg.phase ≠ 1 → msg.phase ≠ 3 → AcceptorStep f msg f none

theorem acceptorEngineer_cases (f : LaptopFactory) (msg : PaxosMsg) :
    AcceptorStep f msg (f.acceptorEngineer msg).1 (f.acceptorEngineer msg).2 := by
  simp only [acceptorEngineer]
  split_ifs with h₁ h₂ h₃ h₄ h₅
  · exact .promise h₁ h₂ one_ne_zero rfl rfl fun _ => rfl
  · exact .promise h₁ h₂ one_ne_zero rfl (not_not.1 h₃).symm fun h => absurd h h₃
  · exact .refuse h₁ (not_lt.1 h₂) (not_not.2 rfl) rfl
  · exact .accept h₄ h₅ one_ne_zero
  · exact .reject h₄ h₅ (not_not.2 rfl)
  · exact .ignore h₁ h₄

/-! ### Frames -/

/-- What the Scout works on is the same. -/
structure SameScout (f f' : LaptopFactory) : Prop where
  proposalNumber : f'.proposalNumber = f.proposalNumber
  stub : f'.scoutAcceptorStub = f.scoutAcceptorStub
  stubInit : f'.scoutAcceptorStubInit = f.scoutAcceptorStubInit
  slotIn : f'.slotIn = f.slotIn

/-- What the acceptor engineers work on is the same. -/
structure SameAcceptor (f f' : LaptopFactory) : Prop where
  promised : f'.promisedProposalNumber = f.promisedProposalNumber
  number : f'.acceptedProposalNumber = f.acceptedProposalNumber
  value : f'.acceptedValue = f.acceptedValue

/-- What the learner engineers work on is the same. -/
structure SameReplica (f f' : LaptopFactory) : Prop where
  decisionMap : f'.decisionMap = f.decisionMap
  slotOut : f'.slotOut = f.slotOut
  log : f'.log = f.log

/-- What the start-up has set is the same. -/
structure SameConfig (f f' : LaptopFactory) : Prop where
  acceptorMap : f'.acceptorMap = f.acceptorMap
  numOfAcceptors : f'.numOfAcceptors = f.numOfAcceptors
  factoryId : f'.factoryId = f.factoryId

theorem SameScout.refl (f : LaptopFactory) : SameScout f f := ⟨rfl, rfl, rfl, rfl⟩
theorem SameAcceptor.refl (f : LaptopFactory) : SameAcceptor f f := ⟨rfl, rfl, rfl⟩
theorem SameReplica.refl (f : LaptopFactory) : SameReplica f f := ⟨rfl, rfl, rfl⟩
theorem SameConfig.refl (f : LaptopFactory) : SameConfig f f := ⟨rfl, rfl, rfl⟩

section

variable {id : ℤ} {f f' : LaptopFactory} {inbox : ℤ → List PaxosMsg} {env : Env} {pc : ScoutPc}
  {e : Effect}

/-- The Scout leaves the acceptor, the decisions and the configuration alone. -/
theorem ScoutStep.frame (h : ScoutStep id f inbox env pc e) :
    SameAcceptor f e.factory ∧ SameReplica f e.factory ∧ SameConfig f e.factory := by
  cases h
  case connect =>
    rw [scoutConnect]
    split_ifs <;> exact ⟨⟨rfl, rfl, rfl⟩, ⟨rfl, rfl, rfl⟩, rfl, rfl, rfl⟩
  case command =>
    rw [commanderConnect]
    split_ifs <;> exact ⟨⟨rfl, rfl, rfl⟩, ⟨rfl, rfl, rfl⟩, rfl, rfl, rfl⟩
  all_goals exact ⟨⟨rfl, rfl, rfl⟩, ⟨rfl, rfl, rfl⟩, rfl, rfl, rfl⟩

/-- A proposal is made where the Scout chooses its command. -/
theorem ScoutStep.proposed (h : ScoutStep id f inbox env pc e) {j n : ℤ} {cmd : Command}
    {own : Bool} {l : Prepare} (hev : .proposed j n cmd own l ∈ e.events) :
    j = id ∧ n = f.proposalNumber ∧ ∃ laptop,
      (own = false ∧ pc = .propose laptop l ∧ cmd = l.cmd ∧ l.acceptorAcceptedProposal ≠ -1 ∧
          l.cmd.slot ∉ f.decisionMap) ∨
        (own = true ∧ pc = .pickSlot laptop l ∧ cmd = selfCommand f laptop env) := by
  cases h with
  | @chooseOther laptop l hk hs =>
    cases List.mem_singleton.1 hev
    exact ⟨rfl, rfl, laptop, .inl ⟨rfl, rfl, rfl, hk, hs⟩⟩
  | @pickSlot laptop l =>
    rcases List.mem_cons.1 hev with hev | hev
    · cases hev
      exact ⟨rfl, rfl, laptop, .inr ⟨rfl, rfl, rfl⟩⟩
    · cases List.mem_singleton.1 hev
  | _ => simp [scoutReturn, recordOrder, scoutConnect, commanderConnect] at hev

theorem AcceptorStep.frame {msg : PaxosMsg} {r : Option PaxosMsg} (h : AcceptorStep f msg f' r) :
    SameScout f f' ∧ SameReplica f f' ∧ SameConfig f f' := by
  cases h <;> exact ⟨⟨rfl, rfl, rfl, rfl⟩, ⟨rfl, rfl, rfl⟩, rfl, rfl, rfl⟩

theorem learnerEngineer_frame (f : LaptopFactory) (msg : PaxosMsg) :
    SameScout f (f.learnerEngineer msg) ∧ SameAcceptor f (f.learnerEngineer msg) ∧
      SameConfig f (f.learnerEngineer msg) := by
  rw [learnerEngineer]
  split_ifs
  · obtain ⟨s, l, h⟩ := learn_eq f msg.getCommand
    rw [h]
    exact ⟨⟨rfl, rfl, rfl, rfl⟩, ⟨rfl, rfl, rfl⟩, rfl, rfl, rfl⟩
  · exact ⟨.refl f, .refl f, .refl f⟩

/-- A customer engineer writes the queue only. -/
theorem customerEngineer_frame (f : LaptopFactory) (id : ℤ) (r : CustomerRequest) :
    SameScout f (f.customerEngineer id r).1 ∧ SameAcceptor f (f.customerEngineer id r).1 ∧
      SameReplica f (f.customerEngineer id r).1 ∧ SameConfig f (f.customerEngineer id r).1 := by
  rw [customerEngineer]
  split_ifs <;> exact ⟨⟨rfl, rfl, rfl, rfl⟩, ⟨rfl, rfl, rfl⟩, ⟨rfl, rfl, rfl⟩, rfl, rfl, rfl⟩

/-- A backup engineer writes the old log and the customer records only. -/
theorem backupEngineer_frame {r : LogRequest} (h : f.backupEngineer r = some f') :
    SameScout f f' ∧ SameAcceptor f f' ∧ SameReplica f f' ∧ SameConfig f f' := by
  simp only [backupEngineer] at h
  split_ifs at h
  · obtain ⟨op, -, rfl⟩ := Option.map_eq_some_iff.1 h
    exact ⟨⟨rfl, rfl, rfl, rfl⟩, ⟨rfl, rfl, rfl⟩, ⟨rfl, rfl, rfl⟩, rfl, rfl, rfl⟩
  · cases h; exact ⟨⟨rfl, rfl, rfl, rfl⟩, ⟨rfl, rfl, rfl⟩, ⟨rfl, rfl, rfl⟩, rfl, rfl, rfl⟩
  · cases h; exact ⟨⟨rfl, rfl, rfl, rfl⟩, ⟨rfl, rfl, rfl⟩, ⟨rfl, rfl, rfl⟩, rfl, rfl, rfl⟩

end

/-! ### The cluster -/

section

variable {D : Deployment} {c c' : Cluster} {act : Action}

@[simp] theorem Wires.set_apply (w : Wires) (i a j b : ℤ) (q : List PaxosMsg) :
    w.set i a q j b = if j = i ∧ b = a then q else w j b := rfl

theorem Wires.push_of_ne {w : Wires} {i j : ℤ} (h : j ≠ i) (o : Option (ℤ × PaxosMsg)) (b : ℤ) :
    w.push i o j b = w j b := by
  cases o <;> simp [push, h]

theorem Wires.pop_of_ne {w : Wires} {i j : ℤ} (h : j ≠ i) (o : Option ℤ) (b : ℤ) :
    w.pop i o j b = w j b := by
  cases o <;> simp [pop, h]

/-- The steps of the cluster. -/
inductive Step (D : Deployment) (c : Cluster) : Action → Cluster → Prop
  | request {i e r} : i ∈ D.ids → Step D c (.request i e r) (c.requestMsg i e r)
  | backup {i r f} : i ∈ D.ids → (c.factory i).backupEngineer r = some f →
      Step D c (.backup i r) (c.backupMsg i r f)
  | scout {i env e} : i ∈ D.ids →
      ScoutStep i (c.factory i) (c.toScout i) env (c.scout i) e →
      Step D c (.scout i env) (c.applyEffect i e)
  | acceptor {a i msg rest} : a ∈ D.ids → c.toAcceptor i a = msg :: rest →
      Step D c (.acceptor a i) (c.acceptMsg a i msg rest)
  | learner {a i msg rest} : a ∈ D.ids → c.toLearner i a = msg :: rest →
      Step D c (.learner a i) (c.learnMsg a i msg rest)
  | crash {i} : i ∈ D.ids →
      Step D c (.crash i) (c.setServer i { c.server i with up := false })

theorem step_cases (h : c.step D act = some c') : Step D c act c' := by
  cases act with
  | request i e r =>
    rw [Cluster.step] at h
    split_ifs at h with hi
    cases h; exact .request hi.1
  | backup i r =>
    rw [Cluster.step] at h
    split_ifs at h with hi
    obtain ⟨f, hf, rfl⟩ := Option.map_eq_some_iff.1 h
    exact .backup hi.1 hf
  | scout i env =>
    rw [Cluster.step] at h
    split_ifs at h with hi
    obtain ⟨e, he, rfl⟩ := Option.map_eq_some_iff.1 h
    exact .scout hi.1 (scoutStep_cases he)
  | acceptor a i =>
    rw [Cluster.step] at h
    split_ifs at h with ha
    split at h
    · cases h
    · next heq => cases h; exact .acceptor ha.1 heq
  | learner a i =>
    rw [Cluster.step] at h
    split_ifs at h with ha
    split at h
    · cases h
    · next heq => cases h; exact .learner ha.1 heq
  | crash i =>
    rw [Cluster.step] at h
    split_ifs at h with hi
    cases h; exact .crash hi

/-! #### The components after a step -/

namespace Cluster

@[simp] theorem factory_setServer (i j : ℤ) (s : Server) :
    (c.setServer i s).factory j = if j = i then s.factory else c.factory j := by
  change (if j = i then s else c.server j).factory = _
  split_ifs <;> rfl

@[simp] theorem scout_setServer (i j : ℤ) (s : Server) :
    (c.setServer i s).scout j = if j = i then s.scout else c.scout j := by
  change (if j = i then s else c.server j).scout = _
  split_ifs <;> rfl

@[simp] theorem factory_setFactory (i j : ℤ) (f : LaptopFactory) :
    (c.setFactory i f).factory j = if j = i then f else c.factory j := factory_setServer i j _

@[simp] theorem scout_setFactory (i j : ℤ) (f : LaptopFactory) :
    (c.setFactory i f).scout j = c.scout j := by
  rw [setFactory, scout_setServer]; split_ifs with h
  · rw [h]; rfl
  · rfl

@[simp] theorem factory_crash (i j : ℤ) :
    (c.setServer i { c.server i with up := false }).factory j = c.factory j := by
  rw [factory_setServer]; split_ifs with h
  · rw [h]; rfl
  · rfl

@[simp] theorem scout_crash (i j : ℤ) :
    (c.setServer i { c.server i with up := false }).scout j = c.scout j := by
  rw [scout_setServer]; split_ifs with h
  · rw [h]; rfl
  · rfl

@[simp] theorem factory_applyEffect (i j : ℤ) (e : Effect) :
    (c.applyEffect i e).factory j = if j = i then e.factory else c.factory j :=
  factory_setServer i j _

@[simp] theorem scout_applyEffect (i j : ℤ) (e : Effect) :
    (c.applyEffect i e).scout j = if j = i then e.pc else c.scout j := scout_setServer i j _

@[simp] theorem toAcceptor_applyEffect (i : ℤ) (e : Effect) :
    (c.applyEffect i e).toAcceptor = c.toAcceptor.push i e.toAcceptor := rfl

@[simp] theorem toScout_applyEffect (i : ℤ) (e : Effect) :
    (c.applyEffect i e).toScout = c.toScout.pop i e.received := rfl

@[simp] theorem toLearner_applyEffect (i : ℤ) (e : Effect) :
    (c.applyEffect i e).toLearner = c.toLearner.push i e.toLearner := rfl

@[simp] theorem hist_applyEffect (i : ℤ) (e : Effect) :
    (c.applyEffect i e).hist = e.events ++ c.hist := rfl

variable (a i : ℤ) (msg : PaxosMsg) (rest : List PaxosMsg)

@[simp] theorem factory_acceptMsg (j : ℤ) : (c.acceptMsg a i msg rest).factory j =
    if j = a then ((c.factory a).acceptorEngineer msg).1 else c.factory j :=
  factory_setFactory a j _

@[simp] theorem scout_acceptMsg (j : ℤ) : (c.acceptMsg a i msg rest).scout j = c.scout j :=
  scout_setFactory a j _

@[simp] theorem toAcceptor_acceptMsg :
    (c.acceptMsg a i msg rest).toAcceptor = c.toAcceptor.set i a rest := rfl

@[simp] theorem toScout_acceptMsg : (c.acceptMsg a i msg rest).toScout =
    c.toScout.set i a (c.toScout i a ++ ((c.factory a).acceptorEngineer msg).2.toList) := rfl

@[simp] theorem toLearner_acceptMsg : (c.acceptMsg a i msg rest).toLearner = c.toLearner := rfl

@[simp] theorem hist_acceptMsg : (c.acceptMsg a i msg rest).hist =
    acceptorEvents a i msg ((c.factory a).acceptorEngineer msg).2 ++ c.hist := rfl

@[simp] theorem factory_learnMsg (j : ℤ) : (c.learnMsg a i msg rest).factory j =
    if j = a then (c.factory a).learnerEngineer msg else c.factory j := factory_setFactory a j _

@[simp] theorem scout_learnMsg (j : ℤ) : (c.learnMsg a i msg rest).scout j = c.scout j :=
  scout_setFactory a j _

@[simp] theorem toLearner_learnMsg :
    (c.learnMsg a i msg rest).toLearner = c.toLearner.set i a rest := rfl

@[simp] theorem hist_learnMsg : (c.learnMsg a i msg rest).hist =
    (if msg.phase = 5 then [.learned a msg.getCommand] else []) ++ c.hist := rfl

@[simp] theorem factory_requestMsg (e : ℤ) (r : CustomerRequest) (j : ℤ) :
    (c.requestMsg i e r).factory j =
      if j = i then ((c.factory i).customerEngineer e r).1 else c.factory j :=
  factory_setFactory i j _

@[simp] theorem scout_requestMsg (e : ℤ) (r : CustomerRequest) (j : ℤ) :
    (c.requestMsg i e r).scout j = c.scout j := scout_setFactory i j _

@[simp] theorem hist_requestMsg (e : ℤ) (r : CustomerRequest) : (c.requestMsg i e r).hist =
    ((c.factory i).customerEngineer e r).2.toList.map (.answered i r) ++
      .submitted i r :: c.hist := rfl

@[simp] theorem factory_backupMsg (r : LogRequest) (f : LaptopFactory) (j : ℤ) :
    (c.backupMsg i r f).factory j = if j = i then f else c.factory j := factory_setFactory i j _

@[simp] theorem scout_backupMsg (r : LogRequest) (f : LaptopFactory) (j : ℤ) :
    (c.backupMsg i r f).scout j = c.scout j := scout_setFactory i j _

@[simp] theorem hist_backupMsg (r : LogRequest) (f : LaptopFactory) :
    (c.backupMsg i r f).hist = backupEvents i (c.factory i) r ++ c.hist := rfl

end Cluster

/-! #### The events of a step -/

namespace Cluster

variable {P : Event → Prop} {a : ℤ}

theorem requestEvents {i : ℤ} {r : CustomerRequest} (hs : P (.submitted i r))
    (ha : ∀ record, P (.answered i r record)) (e : ℤ) :
    ∃ evs, (c.requestMsg i e r).hist = evs ++ c.hist ∧ ∀ ev ∈ evs, P ev := by
  refine ⟨((c.factory i).customerEngineer e r).2.toList.map (.answered i r) ++ [.submitted i r],
    by simp, fun ev hev => ?_⟩
  rcases List.mem_append.1 hev with hev | hev
  · obtain ⟨record, -, rfl⟩ := List.mem_map.1 hev
    exact ha record
  · rw [List.mem_singleton.1 hev]
    exact hs

theorem forall_backupEvents (h : ∀ i k orderId, P (.recorded i k orderId)) (i : ℤ)
    (f : LaptopFactory) (r : LogRequest) : ∀ ev ∈ backupEvents i f r, P ev := by
  intro ev hev
  rw [backupEvents] at hev
  split_ifs at hev
  · obtain ⟨op, -, rfl⟩ := by simpa using hev
    exact h i _ _
  · exact absurd hev List.not_mem_nil

theorem forall_acceptorEvents (hp : ∀ i n, P (.promised a i n)) (ha : ∀ n v, P (.accepted a n v))
    (i : ℤ) (msg : PaxosMsg) (o : Option PaxosMsg) : ∀ ev ∈ acceptorEvents a i msg o, P ev := by
  intro ev hev
  rw [acceptorEvents.eq_def] at hev
  split at hev
  · exact absurd hev List.not_mem_nil
  · split_ifs at hev
    · rw [List.mem_singleton.1 hev]
      exact hp i _
    · rw [List.mem_singleton.1 hev]
      exact ha _ _
    · exact absurd hev List.not_mem_nil

theorem learnEvents (h : ∀ v, P (.learned a v)) (i : ℤ) (msg : PaxosMsg) (rest : List PaxosMsg) :
    ∃ evs, (c.learnMsg a i msg rest).hist = evs ++ c.hist ∧ ∀ ev ∈ evs, P ev := by
  refine ⟨_, hist_learnMsg a i msg rest, fun ev hev => ?_⟩
  split_ifs at hev
  · rw [List.mem_singleton.1 hev]
    exact h _
  · exact absurd hev List.not_mem_nil

end Cluster

/-! #### Steps seen from the protocol -/

/-- An event that the prepare and accept phases have no part in. -/
def Event.aside : Event → Prop
  | .submitted .. | .answered .. | .learned .. | .recorded .. => True
  | _ => False

/-- A step that leaves the Scouts, the acceptors and their wires alone. -/
structure Still (c c' : Cluster) : Prop where
  scout : ∀ j, c'.scout j = c.scout j
  sameScout : ∀ j, SameScout (c.factory j) (c'.factory j)
  sameAcceptor : ∀ j, SameAcceptor (c.factory j) (c'.factory j)
  sameConfig : ∀ j, SameConfig (c.factory j) (c'.factory j)
  toAcceptor : c'.toAcceptor = c.toAcceptor
  toScout : c'.toScout = c.toScout
  hist : ∃ evs, c'.hist = evs ++ c.hist ∧ ∀ ev ∈ evs, ev.aside

/-- The steps as the prepare and accept phases see them. -/
inductive PaxosStep (D : Deployment) (c : Cluster) : Action → Cluster → Prop
  | still {act : Action} {c' : Cluster} : Still c c' → PaxosStep D c act c'
  | scout {i env e} : i ∈ D.ids →
      ScoutStep i (c.factory i) (c.toScout i) env (c.scout i) e →
      PaxosStep D c (.scout i env) (c.applyEffect i e)
  | acceptor {a i msg rest} : a ∈ D.ids → c.toAcceptor i a = msg :: rest →
      PaxosStep D c (.acceptor a i) (c.acceptMsg a i msg rest)

/-- A change of one factory that its Scout and its acceptor do not see is still. -/
theorem Still.of_setFactory {i : ℤ} {f : LaptopFactory} (hs : SameScout (c.factory i) f)
    (ha : SameAcceptor (c.factory i) f) (hc : SameConfig (c.factory i) f)
    (hf : ∀ j, c'.factory j = if j = i then f else c.factory j)
    (hsc : ∀ j, c'.scout j = c.scout j) (hta : c'.toAcceptor = c.toAcceptor)
    (hts : c'.toScout = c.toScout)
    (hh : ∃ evs, c'.hist = evs ++ c.hist ∧ ∀ ev ∈ evs, ev.aside) : Still c c' := by
  refine ⟨hsc, fun j => ?_, fun j => ?_, fun j => ?_, hta, hts, hh⟩ <;> rw [hf] <;> split_ifs with h
  · exact h ▸ hs
  · exact .refl _
  · exact h ▸ ha
  · exact .refl _
  · exact h ▸ hc
  · exact .refl _

theorem Step.paxos (h : Step D c act c') : PaxosStep D c act c' := by
  cases h with
  | @request i e r _ =>
    obtain ⟨hs, ha, -, hc⟩ := customerEngineer_frame (c.factory i) e r
    exact .still (.of_setFactory hs ha hc (Cluster.factory_requestMsg i e r) (fun j => by simp) rfl
      rfl (Cluster.requestEvents trivial (fun _ => trivial) e))
  | @backup i r f _ hf =>
    obtain ⟨hs, ha, -, hc⟩ := backupEngineer_frame hf
    exact .still (.of_setFactory hs ha hc (Cluster.factory_backupMsg i r f) (fun j => by simp) rfl
      rfl ⟨_, rfl, Cluster.forall_backupEvents (fun _ _ _ => trivial) i (c.factory i) r⟩)
  | scout hi h => exact .scout hi h
  | acceptor ha h => exact .acceptor ha h
  | @learner a i msg rest _ _ =>
    obtain ⟨hs, ha, hc⟩ := learnerEngineer_frame (c.factory a) msg
    exact .still (.of_setFactory hs ha hc (Cluster.factory_learnMsg a i msg rest)
      (fun j => by simp) rfl rfl (Cluster.learnEvents (fun _ => trivial) i msg rest))
  | @crash i _ =>
    exact .still (.of_setFactory (.refl _) (.refl _) (.refl _)
      (fun j => Cluster.factory_setServer i j _) (Cluster.scout_crash i) rfl rfl
      ⟨[], rfl, fun ev hev => absurd hev List.not_mem_nil⟩)

/-! #### Steps seen from the replicas -/

/-- An event in which neither a Scout nor a learner has a part. -/
def Event.quiet : Event → Prop
  | .submitted .. | .answered .. | .recorded .. | .promised .. | .accepted .. => True
  | _ => False

/-- A step that leaves the Scouts, the decisions and the wires to the learners alone. -/
structure Quiet (c c' : Cluster) : Prop where
  scout : ∀ j, c'.scout j = c.scout j
  sameScout : ∀ j, SameScout (c.factory j) (c'.factory j)
  sameReplica : ∀ j, SameReplica (c.factory j) (c'.factory j)
  sameConfig : ∀ j, SameConfig (c.factory j) (c'.factory j)
  toLearner : c'.toLearner = c.toLearner
  hist : ∃ evs, c'.hist = evs ++ c.hist ∧ ∀ ev ∈ evs, ev.quiet

/-- The steps as the learn phase and the replicas see them. -/
inductive ReplicaStep (D : Deployment) (c : Cluster) : Action → Cluster → Prop
  | quiet {act : Action} {c' : Cluster} : Quiet c c' → ReplicaStep D c act c'
  | scout {i env e} : i ∈ D.ids →
      ScoutStep i (c.factory i) (c.toScout i) env (c.scout i) e →
      ReplicaStep D c (.scout i env) (c.applyEffect i e)
  | learner {a i msg rest} : a ∈ D.ids → c.toLearner i a = msg :: rest →
      ReplicaStep D c (.learner a i) (c.learnMsg a i msg rest)

/-- A change of one factory that its Scout and its learner do not see is quiet. -/
theorem Quiet.of_setFactory {i : ℤ} {f : LaptopFactory} (hs : SameScout (c.factory i) f)
    (hr : SameReplica (c.factory i) f) (hc : SameConfig (c.factory i) f)
    (hf : ∀ j, c'.factory j = if j = i then f else c.factory j)
    (hsc : ∀ j, c'.scout j = c.scout j) (htl : c'.toLearner = c.toLearner)
    (hh : ∃ evs, c'.hist = evs ++ c.hist ∧ ∀ ev ∈ evs, ev.quiet) : Quiet c c' := by
  refine ⟨hsc, fun j => ?_, fun j => ?_, fun j => ?_, htl, hh⟩ <;> rw [hf] <;> split_ifs with h
  · exact h ▸ hs
  · exact .refl _
  · exact h ▸ hr
  · exact .refl _
  · exact h ▸ hc
  · exact .refl _

/-- A step of a learner is not seen by the Scouts. -/
theorem sameScout_learnMsg (c : Cluster) (a i : ℤ) (msg : PaxosMsg) (rest : List PaxosMsg) (j : ℤ) :
    SameScout (c.factory j) ((c.learnMsg a i msg rest).factory j) := by
  rw [Cluster.factory_learnMsg]
  split_ifs with h
  · exact h ▸ (learnerEngineer_frame (c.factory a) msg).1
  · exact .refl _

theorem Step.replica (h : Step D c act c') : ReplicaStep D c act c' := by
  cases h with
  | @request i e r _ =>
    obtain ⟨hs, -, hr, hc⟩ := customerEngineer_frame (c.factory i) e r
    exact .quiet (.of_setFactory hs hr hc (Cluster.factory_requestMsg i e r) (fun j => by simp) rfl
      (Cluster.requestEvents trivial (fun _ => trivial) e))
  | @backup i r f _ hf =>
    obtain ⟨hs, -, hr, hc⟩ := backupEngineer_frame hf
    exact .quiet (.of_setFactory hs hr hc (Cluster.factory_backupMsg i r f) (fun j => by simp) rfl
      ⟨_, rfl, Cluster.forall_backupEvents (fun _ _ _ => trivial) i (c.factory i) r⟩)
  | scout hi h => exact .scout hi h
  | @acceptor a i msg rest _ _ =>
    obtain ⟨hs, hr, hc⟩ := (acceptorEngineer_cases (c.factory a) msg).frame
    exact .quiet (.of_setFactory hs hr hc (Cluster.factory_acceptMsg a i msg rest)
      (Cluster.scout_acceptMsg a i msg rest) rfl ⟨_, rfl,
        Cluster.forall_acceptorEvents (fun _ _ => trivial) (fun _ _ => trivial) i msg _⟩)
  | learner ha h => exact .learner ha h
  | @crash i _ =>
    exact .quiet (.of_setFactory (.refl _) (.refl _) (.refl _)
      (fun j => Cluster.factory_setServer i j _) (Cluster.scout_crash i) rfl
      ⟨[], rfl, fun ev hev => absurd hev List.not_mem_nil⟩)

theorem ReplicaStep.grows (h : ReplicaStep D c act c') : ∃ evs, c'.hist = evs ++ c.hist := by
  cases h with
  | quiet hst =>
    obtain ⟨evs, hh, -⟩ := hst.hist
    exact ⟨evs, hh⟩
  | scout => exact ⟨_, rfl⟩
  | learner => exact ⟨_, rfl⟩

/-- An event that only a Scout tells was there before the step, or a Scout has
    just told it. -/
theorem ReplicaStep.mem_hist (h : ReplicaStep D c act c') {ev : Event} (hev : ev ∈ c'.hist)
    (hquiet : ¬ev.quiet) (hlearned : ∀ a v, ev ≠ .learned a v) :
    ev ∈ c.hist ∨ ∃ i env e, act = .scout i env ∧
      ScoutStep i (c.factory i) (c.toScout i) env (c.scout i) e ∧ ev ∈ e.events := by
  cases h with
  | quiet hst =>
    obtain ⟨evs, hh, hevs⟩ := hst.hist
    rw [hh] at hev
    exact .inl ((List.mem_append.1 hev).resolve_left fun hnew => hquiet (hevs ev hnew))
  | @scout i env e _ hs =>
    rcases List.mem_append.1 hev with hnew | hold
    · exact .inr ⟨i, env, e, rfl, hs, hnew⟩
    · exact .inl hold
  | @learner a i msg rest _ _ =>
    obtain ⟨evs, hh, hevs⟩ := @Cluster.learnEvents c (fun ev => ∃ v, ev = .learned a v) a
      (fun v => ⟨v, rfl⟩) i msg rest
    rw [hh] at hev
    refine .inl ((List.mem_append.1 hev).resolve_left fun hnew => ?_)
    obtain ⟨v, rfl⟩ := hevs ev hnew
    exact hlearned a v rfl

/-- The induction over the runs whose steps meet `ok`. -/
theorem reach_invariant {ok : Cluster → Action → Prop} {Inv : Cluster → Prop}
    (h : (cluster D).ReachBy ok c) (init : Inv (Cluster.init D))
    (step : ∀ {c act c'}, (cluster D).ReachBy ok c → ok c act → Inv c → Step D c act c' → Inv c') :
    Inv c :=
  h.invariant (fun _ hs => Set.mem_singleton_iff.1 hs ▸ init)
    fun _ _ _ hr hinv hok hst => step hr hok hinv (step_cases hst)

/-- A state with a property that an evaluation finds at the end of a run. -/
theorem exists_run (D : Deployment) (ok : Cluster → Action → Prop) [∀ c act, Decidable (ok c act)]
    (P : Cluster → Prop) [DecidablePred P] (l : List Action)
    (h : (((cluster D).runBy ok l (Cluster.init D)).any fun c => P c) = true) :
    ∃ c, (cluster D).ReachBy ok c ∧ P c :=
  Machine.ReachBy.exists_of_runBy (.init rfl) l h

/-- The induction over all runs, as the prepare and accept phases see them. -/
theorem paxos_invariant {Inv : Cluster → Prop} (h : (cluster D).Reachable c)
    (init : Inv (Cluster.init D))
    (step : ∀ {c act c'}, (cluster D).Reachable c → Inv c → PaxosStep D c act c' → Inv c') :
    Inv c :=
  reach_invariant h init fun hr _ hinv hst => step hr hinv hst.paxos

end

end LaptopPaxos
