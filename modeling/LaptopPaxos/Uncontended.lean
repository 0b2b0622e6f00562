import LaptopPaxos.Phases

/-!
# An uncontended Scout finishes

An undisturbed call of `ScoutBrocasting` takes two prepare rounds at most and one
accept phase, returns `1` and tells the learners the command of its accept phase
(`uncontended`). It can always go on, as soon as the acceptor it waits for has
replied, and the number of its steps is bounded.
-/

namespace LaptopPaxos

open LaptopFactory

/-- The Scout of `i` can take a step that is undisturbed. -/
def CanStep (D : Deployment) (i : ℤ) (K : List ℤ) (c : Cluster) : Prop :=
  ∃ env c', Undisturbed i K c (.scout i env) ∧ c.step D (.scout i env) = some c'

/-- An undisturbed run leads to the end of the call. -/
def CanReturn (D : Deployment) (i : ℤ) (K : List ℤ) (c₀ : Cluster) : Cluster × Call → Prop :=
  (calls D i c₀).CanReach (fun p => Undisturbed i K p.1) fun p => p.2.result = some 1

/-- A call to the acceptors `K` comes to its end, as it should. -/
structure Finishes (D : Deployment) (i : ℤ) (K : List ℤ) (c : Cluster) (g : Call) : Prop where
  rounds : g.rounds ≤ 2
  restarts : g.restarts = 0
  accepts : g.accepted.length ≤ 1
  /-- The numbers do not overflow. -/
  number : IsInt (c.factory i).proposalNumber
  bound : g.steps ≤ 6 * K.length + 9 + g.learners.length
  /-- Until it returns, the call goes on, at the latest when the acceptor that it
      waits for has replied. -/
  goesOn : g.result = none → CanStep D i K c ∨
    ∃ a ∈ K, ∃ c', c.step D (.acceptor a i) = some c' ∧ CanStep D i K c'
  /-- A run that lets the Scout take its steps comes to the end of the call. -/
  canReturn : CanReturn D i K c (c, g)
  /-- It returns `1`. The Commander has visited all learners that it had to tell,
      and sent each the command of the accept phase, unless that could not be sent. -/
  returns : ∀ res ∈ g.result, res = 1 ∧ ∃ cmd, g.accepted = [cmd] ∧
    g.addressees ⊆ g.learners ∧ Spread cmd g.learners g.learned g.missed

section

variable {D : Deployment} {K : List ℤ} {i a : ℤ} {c c' : Cluster} {act : Action} {g : Call}

section

variable {n : ℤ} {P : ℤ → ℤ} {inbox : ℤ → List PaxosMsg} {pc : ScoutPc}

theorem Phase.rounds_le (h : Phase K n P inbox pc g) : g.rounds ≤ 2 := by
  cases h <;> dsimp only <;> omega

theorem Phase.steps_le (h : Phase K n P inbox pc g) :
    g.steps ≤ 6 * K.length + 9 + g.learners.length := by
  cases h <;> dsimp only <;> omega

theorem Phase.no_restart (h : Phase K n P inbox pc g) : g.restarts = 0 := by
  cases h <;> rfl

theorem Phase.accepted_length (h : Phase K n P inbox pc g) : g.accepted.length ≤ 1 := by
  cases h <;> simp

theorem Phase.returns (h : Phase K n P inbox pc g) {res : ℤ} (hres : res ∈ g.result) :
    res = 1 ∧ ∃ cmd, g.accepted = [cmd] ∧ g.addressees ⊆ g.learners ∧
      Spread cmd g.learners g.learned g.missed := by
  cases h with
  | returned ha hs =>
    cases hres
    exact ⟨rfl, _, rfl, ha, hs⟩
  | _ => cases hres

/-- Before it tells the learners, a call has a bounded number of steps. -/
theorem Phase.cases_steps (h : Phase K n P inbox pc g) : g.steps < 6 * K.length + 9 ∨
    (∃ laptop cmd todo, pc = .learn laptop cmd todo) ∨ (∃ laptop, pc = .record laptop) ∨
      g.result = some 1 := by
  cases h with
  | learn => exact .inr (.inl ⟨_, _, _, rfl⟩)
  | record => exact .inr (.inr (.inl ⟨_, rfl⟩))
  | returned => exact .inr (.inr (.inr rfl))
  | _ => exact .inl (by dsimp only; omega)

/-- A call returns when the Scout becomes idle. -/
theorem Phase.result_cases (h : Phase K n P inbox pc g) :
    pc = .idle ∧ g.result = some 1 ∨ pc ≠ .idle ∧ g.result = none := by
  cases h with
  | returned => exact .inl ⟨rfl, rfl⟩
  | _ => exact .inr ⟨ScoutPc.noConfusion, rfl⟩

/-- The Scout waits for an acceptor among `K`. -/
theorem Phase.mem_of_asked (h : Phase K n P inbox pc g) {m : PaxosMsg}
    (hask : pc.asked n = some (a, m)) : a ∈ K := by
  cases h with
  | firstReply hK | secondReply hK | acceptReply hK =>
    cases hask
    exact hK ▸ List.mem_append_right _ List.mem_cons_self
  | _ => cases hask

/-- Before and after its talk with the acceptors, the call does not depend on what
    they do. -/
theorem Phase.cases_connected {f : LaptopFactory} (h : Phase K n P inbox pc g)
    (hc : pc.Connected K f) : FullyConnected f.scoutAcceptorStub K ∨
      FullyConnected (f.connected {}) K ∨ ∀ P' inbox', Phase K n P' inbox' pc g := by
  cases h with
  | connect => exact .inr (.inl hc)
  | first | firstReply | second | secondReply | propose | pickSlot | accept | acceptReply =>
    exact .inl hc
  | command hr hk => exact .inr (.inr fun _ _ => .command hr hk)
  | learn ha hs hr hk => exact .inr (.inr fun _ _ => .learn ha hs hr hk)
  | record ha hs hr hk => exact .inr (.inr fun _ _ => .record ha hs hr hk)
  | returned ha hs hr hk => exact .inr (.inr fun _ _ => .returned ha hs hr hk)

/-- The Scout does not wait if the reply is there. -/
theorem Phase.exists_scoutStep (h : Phase K n P inbox pc g) (hres : g.result = none)
    {f : LaptopFactory} (hc : pc.Connected K f)
    (hreply : ∀ a m, pc.asked n = some (a, m) → inbox a ≠ []) :
    pc.Undisturbed K f {} ∧ ∃ e, scoutStep i f inbox {} pc = some e := by
  have hwait : ∀ {a m} {F : PaxosMsg → Effect}, pc.asked n = some (a, m) →
      ∃ e, (inbox a).head?.map F = some e := by
    intro a m F hask
    obtain ⟨r, rest, hr⟩ := List.exists_cons_of_ne_nil (hreply a m hask)
    exact ⟨F r, by rw [hr]; rfl⟩
  cases h with
  | connect => exact ⟨hc, _, rfl⟩
  | @first _ _ _ todo | @second _ _ _ todo | @accept _ _ _ todo =>
    cases todo <;> exact ⟨rfl, _, rfl⟩
  | firstReply | secondReply | acceptReply => exact ⟨rfl, hwait rfl⟩
  | propose | pickSlot | command | record => exact ⟨trivial, _, rfl⟩
  | @learn _ _ _ _ todo => cases todo <;> exact ⟨trivial, _, rfl⟩
  | returned => cases hres

end

/-- No other action than a crash stops a server. -/
theorem up_of_step (h : Step D c act c') (hact : act ≠ .crash a) :
    (c'.server a).up = (c.server a).up := by
  have hset : ∀ (j : ℤ) (s : Server), s.up = (c.server j).up →
      ((c.setServer j s).server a).up = (c.server a).up := by
    intro j s hs
    change (if a = j then s else c.server a).up = _
    split_ifs with haj
    · rw [haj, hs]
    · rfl
  cases h with
  | request | backup | scout | acceptor | learner => exact hset _ _ rfl
  | @crash j _ =>
    have haj : a ≠ j := fun haj => hact (haj ▸ rfl)
    change (if a = j then _ else c.server a).up = _
    rw [if_neg haj]

/-! ### The cluster in a call -/

theorem ScoutPc.Connected.congr {pc : ScoutPc} {f f' : LaptopFactory} (h : pc.Connected K f)
    (hs : SameScout f f') (hc : SameConfig f f') : pc.Connected K f' := by
  have hfull : FullyConnected f.scoutAcceptorStub K → FullyConnected f'.scoutAcceptorStub K :=
    fun hf => hs.stub.symm ▸ hf
  cases pc with
  | connect =>
    change FullyConnected (f'.connected {}) K
    rw [connected, connectStubs, hs.stubInit, hs.stub, hc.acceptorMap]
    exact h
  | p1a | p1b | propose | pickSlot | p2a | p2b => exact hfull h
  | idle | command | learn | record => trivial

/-- The Scout of `i` is in an undisturbed call to the acceptors `K`. -/
structure InCall (i : ℤ) (K : List ℤ) (c : Cluster) (g : Call) : Prop where
  wired : Wired c
  up : (c.server i).up = true
  acceptors : ∀ a ∈ K, (c.server a).up = true
  num : (c.factory i).numOfAcceptors = K.length
  number : IsInt (c.factory i).proposalNumber
  connected : (c.scout i).Connected K (c.factory i)
  phase : Phase K (c.factory i).proposalNumber c.promised (c.toScout i) (c.scout i) g

/-- A change that neither the Scout of `i` nor the acceptors see. -/
theorem InCall.congr (h : InCall i K c g) (hw : Wired c')
    (hup : ∀ b, b = i ∨ b ∈ K → (c'.server b).up = (c.server b).up)
    (hscout : c'.scout i = c.scout i) (hs : SameScout (c.factory i) (c'.factory i))
    (hc : SameConfig (c.factory i) (c'.factory i)) (hP : ∀ b ∈ K, c'.promised b = c.promised b)
    (hin : ∀ b ∈ K, c'.toScout i b = c.toScout i b) : InCall i K c' g where
  wired := hw
  up := (hup i (.inl rfl)).trans h.up
  acceptors b hb := (hup b (.inr hb)).trans (h.acceptors b hb)
  num := hc.numOfAcceptors.trans h.num
  number := hs.proposalNumber.symm ▸ h.number
  connected := by
    rw [hscout]
    exact h.connected.congr hs hc
  phase := by
    rw [hscout, hs.proposalNumber]
    exact h.phase.congr hP hin

theorem InCall.still (h : InCall i K c g) (hst : Step D c act c') (hstill : Still c c')
    (hok : Undisturbed i K c act) : InCall i K c' g := by
  refine h.congr (h.wired.step hst.paxos) (fun b hb => up_of_step hst ?_) (hstill.scout i)
    (hstill.sameScout i) (hstill.sameConfig i) (fun b _ => (hstill.sameAcceptor b).promised)
    fun b _ => by rw [hstill.toScout]
  rintro rfl
  rcases hb with rfl | hb
  · exact hok.1 rfl
  · exact hok.2 hb

/-- The Scout of another server takes a step. -/
theorem InCall.scout_of_ne (h : InCall i K c g) {j : ℤ} (hj : j ≠ i) {env : Env} {e : Effect}
    (hst : Step D c (.scout j env) (c.applyEffect j e))
    (hs : ScoutStep j (c.factory j) (c.toScout j) env (c.scout j) e) :
    InCall i K (c.applyEffect j e) g := by
  have hij : i ≠ j := Ne.symm hj
  have hfactory : (c.applyEffect j e).factory i = c.factory i := by
    rw [Cluster.factory_applyEffect, if_neg hij]
  refine h.congr (h.wired.step hst.paxos) (fun b _ => up_of_step hst Action.noConfusion) ?_ ?_ ?_
    (fun b _ => ?_) fun b _ => ?_
  · rw [Cluster.scout_applyEffect, if_neg hij]
  · rw [hfactory]
    exact .refl _
  · rw [hfactory]
    exact .refl _
  · rw [Cluster.promised, Cluster.promised, Cluster.factory_applyEffect]
    split_ifs with hbj
    · rw [hs.frame.1.promised, hbj]
    · rfl
  · rw [Cluster.toScout_applyEffect, Wires.pop_of_ne hij]

/-- The Scout takes a step in its call. -/
theorem InCall.scout (h : InCall i K c g) (hK : K ≠ []) {env : Env} {e : Effect}
    (hok : (c.scout i).Undisturbed K (c.factory i) env)
    (hst : Step D c (.scout i env) (c.applyEffect i e))
    (he : scoutStep i (c.factory i) (c.toScout i) env (c.scout i) = some e) :
    InCall i K (c.applyEffect i e) (g.after (c.factory i) env (c.scout i) e) := by
  have hs := scoutStep_cases he
  have hfactory : (c.applyEffect i e).factory i = e.factory := by
    rw [Cluster.factory_applyEffect, if_pos rfl]
  have hscout : (c.applyEffect i e).scout i = e.pc := by
    rw [Cluster.scout_applyEffect, if_pos rfl]
  have hP : ∀ b, (c.applyEffect i e).promised b = c.promised b := by
    intro b
    rw [Cluster.promised, Cluster.promised, Cluster.factory_applyEffect]
    split_ifs with hbi
    · rw [hs.frame.1.promised, hbi]
    · rfl
  have hup : ∀ b, ((c.applyEffect i e).server b).up = (c.server b).up :=
    fun b => up_of_step hst Action.noConfusion
  have hgo : GoesOn K c.promised ((c.applyEffect i e).toScout i) e
      (g.after (c.factory i) env (c.scout i) e) :=
    h.phase.scout hK h.num h.connected h.number hok he
      fun a m ha => toScout_eq_nil_of_asks h.wired hs.net ha
  refine ⟨h.wired.step hst.paxos, (hup i).trans h.up, fun b hb => (hup b).trans (h.acceptors b hb),
    ?_, ?_, ?_, ?_⟩
  · rw [hfactory, hs.frame.2.2.numOfAcceptors]
    exact h.num
  · rw [hfactory]
    exact hgo.number
  · rw [hfactory, hscout]
    exact hgo.connected
  · rw [hfactory, hscout]
    exact hgo.phase.congr (fun b _ => hP b) fun _ _ => rfl

/-- An acceptor handles the next message of the Scout. -/
theorem InCall.acceptor (h : InCall i K c g) (hnodup : K.Nodup) {msg : PaxosMsg}
    {rest : List PaxosMsg} (hst : Step D c (.acceptor a i) (c.acceptMsg a i msg rest))
    (hq : c.toAcceptor i a = msg :: rest) : InCall i K (c.acceptMsg a i msg rest) g := by
  have hs := sameScout_acceptMsg c a i msg rest i
  have hc := sameConfig_acceptMsg c a i msg rest i
  have hscout := Cluster.scout_acceptMsg (c := c) a i msg rest i
  have hup : ∀ b, ((c.acceptMsg a i msg rest).server b).up = (c.server b).up :=
    fun b => up_of_step hst Action.noConfusion
  have hP : ∀ b, (c.acceptMsg a i msg rest).promised b =
      if b = a then ((c.factory a).acceptorEngineer msg).1.promisedProposalNumber
      else c.promised b := by
    intro b
    rw [Cluster.promised, Cluster.factory_acceptMsg]
    split_ifs <;> rfl
  refine ⟨h.wired.step hst.paxos, (hup i).trans h.up, fun b hb => (hup b).trans (h.acceptors b hb),
    hc.numOfAcceptors.trans h.num, hs.proposalNumber.symm ▸ h.number, ?_, ?_⟩
  · rw [hscout]
    exact h.connected.congr hs hc
  rw [hscout, hs.proposalNumber]
  by_cases hopen : c.opened i a
  · -- The message is the question of the Scout.
    obtain ⟨hask, rfl, hempty⟩ := (h.wired.talk i a hopen).question hq
    refine h.phase.reply hnodup hask hempty rfl hP ?_
    rw [Cluster.toScout_acceptMsg, Wires.set_apply, if_pos ⟨rfl, rfl⟩, hempty, List.nil_append]
  · -- An old message, which comes from a connection that has been closed.
    have hother : a ∉ K → Phase K (c.factory i).proposalNumber (c.acceptMsg a i msg rest).promised
        ((c.acceptMsg a i msg rest).toScout i) (c.scout i) g := by
      intro ha
      refine h.phase.congr (fun b hb => ?_) fun b hb => ?_
      · rw [hP, if_neg fun hba : b = a => ha (hba ▸ hb)]
      · rw [Cluster.toScout_acceptMsg, Wires.set_apply,
          if_neg fun hba : i = i ∧ b = a => ha (hba.2 ▸ hb)]
    rcases h.phase.cases_connected h.connected with hfull | hfull | hphase
    · exact hother fun ha => hopen (hfull.isOpen a ha)
    · refine hother fun ha => ?_
      have hopen' := hfull.isOpen a ha
      rw [LaptopFactory.connected] at hopen'
      split_ifs at hopen' with hinit
      · exact hopen hopen'
      · rw [(h.wired.fresh i (Bool.eq_false_iff.2 hinit) a).2.1] at hq
        cases hq
    · exact hphase _ _

theorem Ready.inCall (h : Ready D i K c) : InCall i K c {} := by
  obtain ⟨laptop, hpc⟩ := h.calls
  refine ⟨h.wired, h.up, fun b hb => (h.acceptors b hb).2, h.num, h.number.1, ?_, ?_⟩
  · rw [hpc]
    exact h.connects
  · rw [hpc]
    exact .connect (fun b hb => (h.promised b hb).2) h.number.2

/-- The call of the Scout goes on in every undisturbed step. -/
theorem InCall.step (h : InCall i K c g) (hK : K ≠ []) (hnodup : K.Nodup)
    (hok : Undisturbed i K c act) (hst : c.step D act = some c') :
    InCall i K c' (noteCall i g c act) := by
  have hcases := step_cases hst
  cases act with
  | request | backup | learner | crash =>
    cases hcases.paxos with
    | still hstill => exact h.still hcases hstill hok
  | scout j env =>
    rw [Cluster.step] at hst
    split_ifs at hst
    obtain ⟨e, he, rfl⟩ := Option.map_eq_some_iff.1 hst
    by_cases hji : j = i
    · subst hji
      rw [noteCall, if_pos rfl, he]
      exact h.scout hK (hok rfl) hcases he
    · rw [noteCall, if_neg hji]
      exact h.scout_of_ne hji hcases (scoutStep_cases he)
  | acceptor b j =>
    obtain rfl : j = i := hok
    cases hcases with
    | acceptor _ hq => exact h.acceptor hnodup (.acceptor ‹_› hq) hq

/-- The Scout can take a step unless it waits for a reply. -/
theorem InCall.canStep (h : InCall i K c g) (hi : i ∈ D.ids) (hres : g.result = none)
    (hreply : ∀ a m, c.asked i = some (a, m) → c.toScout i a ≠ []) : CanStep D i K c := by
  obtain ⟨hok, e, he⟩ := h.phase.exists_scoutStep hres h.connected hreply
  refine ⟨{}, c.applyEffect i e, fun _ => hok, ?_⟩
  rw [Cluster.step, if_pos ⟨hi, h.up⟩, he, Option.map_some]

/-- An acceptor has replied, or it can. -/
theorem InCall.goesOn (h : InCall i K c g) (hnodup : K.Nodup) (hi : i ∈ D.ids)
    (hids : ∀ a ∈ K, a ∈ D.ids) (hres : g.result = none) : CanStep D i K c ∨
      ∃ a ∈ K, ∃ c', c.step D (.acceptor a i) = some c' ∧ CanStep D i K c' := by
  by_cases hreply : ∀ a m, c.asked i = some (a, m) → c.toScout i a ≠ []
  · exact .inl (h.canStep hi hres hreply)
  push Not at hreply
  obtain ⟨a, m, hask, hempty⟩ := hreply
  have ha : a ∈ K := h.phase.mem_of_asked hask
  obtain ⟨r, hr⟩ := exists_reply hask (c.factory a)
  -- The question is still on its way.
  have hq : c.toAcceptor i a = [m] := by
    rcases h.wired.talk i a (h.wired.asked i a m hask) with
      ⟨m', hm', ⟨hq, -⟩ | ⟨-, r', hr'⟩⟩ | ⟨hne, -⟩
    · rw [hask] at hm'
      cases hm'
      exact hq
    · rw [hempty] at hr'
      cases hr'
    · exact absurd hask (hne m)
  have hst : c.step D (.acceptor a i) = some (c.acceptMsg a i m []) := by
    rw [Cluster.step, if_pos ⟨hids a ha, h.acceptors a ha⟩, hq]
  refine .inr ⟨a, ha, _, hst, (h.acceptor hnodup (step_cases hst) hq).canStep hi hres ?_⟩
  intro b m' hask'
  have hsame : (c.acceptMsg a i m []).asked i = c.asked i :=
    asked_congr (Cluster.scout_acceptMsg a i m [] i) (sameScout_acceptMsg c a i m [] i)
  rw [hsame, hask] at hask'
  cases hask'
  rw [Cluster.toScout_acceptMsg, Wires.set_apply, if_pos ⟨rfl, rfl⟩, hr]
  exact List.append_ne_nil_of_right_ne_nil _ (List.cons_ne_nil _ _)

theorem InCall.result_eq_none (h : InCall i K c g) (hne : c.scout i ≠ .idle) : g.result = none :=
  (h.phase.result_cases.resolve_left fun hidle => hne hidle.1).2

theorem step_calls (c₀ : Cluster) (i : ℤ) (g : Call) (h : c.step D act = some c') :
    (calls D i c₀).step (c, g) act = some (c', noteCall i g c act) := by
  change (c.step D act).map _ = _
  rw [h, Option.map_some]

/-- The call after one more step of the Scout. -/
def Moved (i : ℤ) (pc : ScoutPc) (g : Call) (p : Cluster × Call) : Prop :=
  ∃ f inbox env e, scoutStep i f inbox env pc = some e ∧ p.1.scout i = e.pc ∧
    p.2 = g.after f env pc e

theorem Moved.steps {pc : ScoutPc} {p : Cluster × Call} (h : Moved i pc g p) :
    p.2.steps = g.steps + 1 := by
  obtain ⟨f, inbox, env, e, -, -, hg⟩ := h
  rw [hg, Call.after.eq_def]
  dsimp only
  split <;> (try split) <;> rfl

section

variable {c₀ : Cluster} {Q : Cluster × Call → Prop} (hK : K ≠ []) (hnodup : K.Nodup)
  (hi : i ∈ D.ids) (hids : ∀ a ∈ K, a ∈ D.ids)

include hK hnodup hi hids

/-- What can be reached after the next step of the Scout can be reached. -/
theorem InCall.canReach (h : InCall i K c g) (hres : g.result = none)
    (hnext : ∀ p, InCall i K p.1 p.2 → Moved i (c.scout i) g p →
      (calls D i c₀).CanReach (fun p => Undisturbed i K p.1) Q p) :
    (calls D i c₀).CanReach (fun p => Undisturbed i K p.1) Q (c, g) := by
  have hscout : ∀ {c'}, InCall i K c' g → c'.scout i = c.scout i → CanStep D i K c' →
      (calls D i c₀).CanReach (fun p => Undisturbed i K p.1) Q (c', g) := by
    rintro c' h' hsame ⟨env, c'', hok, hst⟩
    refine .step hok (step_calls c₀ i g hst) (hnext _ (h'.step hK hnodup hok hst) ?_)
    rw [Cluster.step] at hst
    split_ifs at hst
    obtain ⟨e, he, rfl⟩ := Option.map_eq_some_iff.1 hst
    rw [noteCall.eq_def]
    dsimp only
    rw [if_pos rfl, he]
    rw [hsame] at he ⊢
    exact ⟨_, _, env, e, he, by rw [Cluster.scout_applyEffect, if_pos rfl], rfl⟩
  rcases h.goesOn hnodup hi hids hres with hcan | ⟨a, -, c', hst, hcan⟩
  · exact hscout h rfl hcan
  · have hok : Undisturbed i K c (.acceptor a i) := rfl
    have hsame : c'.scout i = c.scout i := by
      cases step_cases hst with
      | acceptor => exact Cluster.scout_acceptMsg a i _ _ i
    exact .step hok (step_calls c₀ i g hst) (hscout (h.step hK hnodup hok hst) hsame hcan)

theorem InCall.canReturn_record {laptop : LaptopInfo} (h : InCall i K c g)
    (hpc : c.scout i = .record laptop) : CanReturn D i K c₀ (c, g) := by
  have hres := h.result_eq_none (hpc ▸ ScoutPc.noConfusion)
  refine h.canReach hK hnodup hi hids hres fun p hp hmoved => .now ?_
  obtain ⟨f, inbox, env, e, he, hpc', -⟩ := hmoved
  rw [hpc] at he
  cases he
  exact (hp.phase.result_cases.resolve_right fun hidle => hidle.1 hpc').2

/-- In the learn phase, the Scout visits the learners that are left. -/
theorem InCall.canReturn_learn {laptop : LaptopInfo} {cmd : Command} {todo : List ℤ}
    (h : InCall i K c g) (hpc : c.scout i = .learn laptop cmd todo) :
    CanReturn D i K c₀ (c, g) := by
  induction todo generalizing c g with
  | nil =>
    have hres := h.result_eq_none (hpc ▸ ScoutPc.noConfusion)
    refine h.canReach hK hnodup hi hids hres fun p hp hmoved => ?_
    obtain ⟨f, inbox, env, e, he, hpc', -⟩ := hmoved
    rw [hpc] at he
    cases he
    exact hp.canReturn_record hK hnodup hi hids hpc'
  | cons a todo ih =>
    have hres := h.result_eq_none (hpc ▸ ScoutPc.noConfusion)
    refine h.canReach hK hnodup hi hids hres fun p hp hmoved => ?_
    obtain ⟨f, inbox, env, e, he, hpc', -⟩ := hmoved
    rw [hpc] at he
    cases he
    refine ih hp ?_
    rw [hpc', sendLearn]
    split_ifs <;> rfl

/-- The steps that are left before the learn phase become fewer. -/
theorem InCall.canReturn (h : InCall i K c g) : CanReturn D i K c₀ (c, g) := by
  obtain ⟨m, hm⟩ : ∃ m, 6 * K.length + 9 - g.steps = m := ⟨_, rfl⟩
  induction m generalizing c g with
  | zero =>
    rcases h.phase.cases_steps with hlt | ⟨laptop, cmd, todo, hpc⟩ | ⟨laptop, hpc⟩ | hres
    · omega
    · exact h.canReturn_learn hK hnodup hi hids hpc
    · exact h.canReturn_record hK hnodup hi hids hpc
    · exact .now hres
  | succ m ih =>
    rcases h.phase.result_cases with ⟨-, hres⟩ | ⟨-, hres⟩
    · exact .now hres
    · refine h.canReach hK hnodup hi hids hres fun p hp hmoved => ih hp ?_
      rw [hmoved.steps]
      omega

end

/-- A call of `ScoutBrocasting` whose acceptors all reply, and handle no messages of
    other Scouts, takes two prepare rounds at most and one accept phase, is never
    sent back, and returns `1`. -/
theorem uncontended {c₀ : Cluster} {p : Cluster × Call} (hready : Ready D i K c₀)
    (h : (calls D i c₀).ReachBy (fun p => Undisturbed i K p.1) p) : Finishes D i K p.1 p.2 := by
  have hnodup : K.Nodup := hready.connects.keys ▸ StdMap.keys_nodup _
  have hids : ∀ a ∈ K, a ∈ D.ids := fun a ha => (hready.acceptors a ha).1
  have hin : InCall i K p.1 p.2 := by
    induction h with
    | init hp =>
      obtain ⟨hc, hg⟩ := hp
      rw [Set.mem_singleton_iff.1 hc, hg]
      exact hready.inCall
    | step _ hok hst hinv =>
      obtain ⟨hst', hg⟩ := Machine.step_observe.1 hst
      rw [hg]
      exact hinv.step hready.nonempty hnodup hok hst'
  exact ⟨hin.phase.rounds_le, hin.phase.no_restart, hin.phase.accepted_length, hin.number,
    hin.phase.steps_le, hin.goesOn hnodup hready.mem hids,
    hin.canReturn hready.nonempty hnodup hready.mem hids, fun _ hres => hin.phase.returns hres⟩

end

namespace Uncontended

/-- The Scout of `2` has been with all acceptors when a call of the Scout of `1` begins. -/
def before : List Action :=
  .order 2 20 1 :: Action.scouts 2 2 ++ Action.talk 2 1 ++ Action.talk 2 2 ++ Action.talk 2 3 ++
    .order 1 10 1 :: Action.scouts 1 1

/-- The three acceptors reply, in two prepare rounds and one accept phase. -/
def call : List Action :=
  let round := Action.talk 1 1 ++ Action.talk 1 2 ++ Action.talk 1 3
  Action.scouts 1 1 ++ round ++ Action.scouts 1 1 ++ round ++ Action.scouts 1 3 ++ round ++
    Action.scouts 1 7

/-- The state in which the call begins. -/
def start : Option Cluster :=
  (cluster (.numbered 3)).runBy (fun _ _ => True) before (.init (.numbered 3))

theorem isSome_start : start.isSome := by decide +kernel

theorem ready : Ready (.numbered 3) 1 [1, 2, 3] (start.get isSome_start) where
  wired := wired_of_reachable (D := .numbered 3)
    (Machine.ReachBy.of_runBy (.init rfl) (Option.some_get isSome_start).symm)
  calls := ⟨_, rfl⟩
  mem := by decide +kernel
  up := by decide +kernel
  num := by decide +kernel
  nonempty := by decide
  connects := by decide +kernel
  acceptors := by decide +kernel
  number := by decide +kernel
  promised := by decide +kernel

end Uncontended

/-- All acceptors have promised the number with which the Scout begins. -/
theorem uncontended_same_number : ∃ p : Cluster × Call, p.2.result = some 1 ∧ p.2.rounds = 2 ∧
    p.2.addressees = [1, 2, 3] ∧ p.2.learned.length = 3 ∧ p.2.missed = [] ∧
    Finishes (.numbered 3) 1 [1, 2, 3] p.1 p.2 := by
  have hinit : (calls (.numbered 3) 1 (Uncontended.start.get Uncontended.isSome_start)).ReachBy
      (fun p => Undisturbed 1 [1, 2, 3] p.1) (_, {}) := .init ⟨rfl, rfl⟩
  obtain ⟨p, hp, hres, hrounds, hall, hsent, hmissed⟩ := hinit.exists_of_runBy
    (P := fun p => p.2.result = some 1 ∧ p.2.rounds = 2 ∧ p.2.addressees = [1, 2, 3] ∧
      p.2.learned.length = 3 ∧ p.2.missed = []) Uncontended.call (by decide +kernel)
  exact ⟨p, hres, hrounds, hall, hsent, hmissed, uncontended Uncontended.ready hp⟩

end LaptopPaxos
