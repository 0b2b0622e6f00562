import LaptopPaxos.Steps

/-!
# One acceptor

The acceptor engineers of one server, one for each connection, which share the
numbers of the acceptor. Nothing is assumed about the messages but that they are
of phase 1 or 3: a message may have any contents, and reach any engineer at any
time. A run keeps the `Exchange`s, the newest first.

* the two numbers never decrease, and the accepted one is never above the
  promised one;
* what has been promised is not promised again, and nothing smaller is accepted
  later;
* a promise reports the latest vote, if there is one that counts: a vote for
  `-1`, which an acceptor that has promised nothing gives, does not.
-/

namespace LaptopPaxos

open LaptopFactory

/-- A message that an engineer has handled, and its reply. -/
structure Exchange where
  connection : ℤ
  msg : PaxosMsg
  reply : Option PaxosMsg
  deriving DecidableEq

namespace Exchange

variable (x : Exchange)

def Agreed : Prop := ∃ r ∈ x.reply, r.isAgree

instance : Decidable x.Agreed := inferInstanceAs (Decidable (∃ r ∈ x.reply, _))

/-- The number promised in the exchange. -/
def promise : Option ℤ :=
  if x.msg.phase = 1 ∧ x.Agreed then some x.msg.proposeNumber else none

/-- The number and the command accepted in the exchange. -/
def vote : Option (ℤ × Command) :=
  if x.msg.phase = 3 ∧ x.Agreed then some (x.msg.proposeNumber, x.msg.getCommand) else none

end Exchange

def promises (h : List Exchange) : List ℤ := h.filterMap Exchange.promise

def latestVote (h : List Exchange) : Option (ℤ × Command) := h.findSome? Exchange.vote

/-- The acceptor engineers of one server. The engineer of a connection handles a
    message without interruption. -/
def acceptorEngineers : Machine (LaptopFactory × List Exchange) (ℤ × PaxosMsg) where
  init := {s | s.1.promisedProposalNumber = -1 ∧ s.1.acceptedProposalNumber = -1 ∧ s.2 = []}
  step s act :=
    if act.2.phase = 1 ∨ act.2.phase = 3 then
      let r := s.1.acceptorEngineer act.2
      some (r.1, ⟨act.1, act.2, r.2⟩ :: s.2)
    else none

/-! ### Steps -/

/-- What one message does to the acceptor, and what is told of it. -/
inductive Handling (f : LaptopFactory) (x : Exchange) : LaptopFactory → Prop
  | promise {n : ℤ} {r : PaxosMsg} : f.promisedProposalNumber < n →
      x.promise = some n → x.vote = none → x.reply = some r →
      (f.acceptedProposalNumber ≠ -1 →
        (r.acceptedProposal, r.getCommand) = (f.acceptedProposalNumber, f.acceptedValue)) →
      Handling f x { f with promisedProposalNumber := n }
  | accept {n : ℤ} {v : Command} : f.promisedProposalNumber = n →
      x.promise = none → x.vote = some (n, v) →
      Handling f x { f with acceptedProposalNumber := n, acceptedValue := v }
  | reject : x.promise = none → x.vote = none → Handling f x f

theorem handling_of_step {s s' : LaptopFactory × List Exchange} {act : ℤ × PaxosMsg}
    (h : acceptorEngineers.step s act = some s') :
    ∃ x, s'.2 = x :: s.2 ∧ Handling s.1 x s'.1 := by
  change (if act.2.phase = 1 ∨ act.2.phase = 3 then _ else none) = some s' at h
  split_ifs at h with hphase
  cases h
  refine ⟨_, rfl, ?_⟩
  have hst := acceptorEngineer_cases s.1 act.2
  generalize s.1.acceptorEngineer act.2 = res at hst
  obtain ⟨f', reply⟩ := res
  change AcceptorStep s.1 act.2 f' reply at hst
  change Handling s.1 ⟨act.1, act.2, reply⟩ f'
  cases hst with
  | @promise r h₁ hn hr _ hk hv =>
    refine .promise (r := r) hn (if_pos ⟨h₁, r, rfl, hr⟩) (if_neg fun h₃ => ?_) rfl fun hne => ?_
    · exact absurd (h₁.symm.trans h₃.1) (by decide)
    · rw [hk, hv hne]
  | @refuse r h₁ _ hr =>
    refine .reject (if_neg ?_) (if_neg ?_) <;> rintro ⟨-, r', ⟨⟩, hr'⟩ <;> exact hr hr'
  | @accept r h₃ hn hr =>
    refine .accept hn.symm (if_neg fun h₁ => ?_) (if_pos ⟨h₃, r, rfl, hr⟩)
    exact absurd (h₁.1.symm.trans h₃) (by decide)
  | @reject r h₃ _ hr =>
    refine .reject (if_neg ?_) (if_neg ?_) <;> rintro ⟨-, r', ⟨⟩, hr'⟩ <;> exact hr hr'
  | ignore h₁ h₃ => exact (hphase.elim h₁ h₃).elim

/-! ### The invariant -/

/-- Nothing smaller than a number promised before is accepted. -/
def Exchange.KeepsPromises (x : Exchange) (h : List Exchange) : Prop :=
  ∀ m v, x.vote = some (m, v) → ∀ n ∈ promises h, n ≤ m

/-- What the exchanges `h` say about the acceptor. -/
structure OneAcceptor (f : LaptopFactory) (h : List Exchange) : Prop where
  le : f.acceptedProposalNumber ≤ f.promisedProposalNumber
  promised : ∀ n ∈ promises h, n ≤ f.promisedProposalNumber
  nodup : (promises h).Nodup
  kept : Justified Exchange.KeepsPromises h
  latest : f.acceptedProposalNumber ≠ -1 →
    latestVote h = some (f.acceptedProposalNumber, f.acceptedValue)

section

variable {f f' : LaptopFactory} {x : Exchange} {h : List Exchange}
  {s s' : LaptopFactory × List Exchange} {act : ℤ × PaxosMsg}

theorem promises_cons_of_some {n : ℤ} (hx : x.promise = some n) :
    promises (x :: h) = n :: promises h := List.filterMap_cons_some hx

theorem promises_cons_of_none (hx : x.promise = none) : promises (x :: h) = promises h :=
  List.filterMap_cons_none hx

theorem latestVote_cons_of_none (hx : x.vote = none) : latestVote (x :: h) = latestVote h :=
  List.findSome?_cons_of_isNone (by rw [hx]; rfl)

theorem Exchange.keepsPromises_of_none (hx : x.vote = none) : x.KeepsPromises h := by
  intro m v hv
  rw [hx] at hv
  cases hv

theorem OneAcceptor.step (ha : OneAcceptor f h) (hx : Handling f x f') :
    OneAcceptor f' (x :: h) := by
  cases hx with
  | @promise n r hlt hprom hvote _ _ =>
    -- the new promise is above the old one, so above all earlier ones
    have hbelow : ∀ k ∈ promises h, k < n := fun k hk => (ha.promised k hk).trans_lt hlt
    refine ⟨ha.le.trans hlt.le, ?_, ?_, ⟨x.keepsPromises_of_none hvote, ha.kept⟩, fun hne => ?_⟩
    · rw [promises_cons_of_some hprom]
      exact List.forall_mem_cons.2 ⟨le_refl n, fun k hk => (hbelow k hk).le⟩
    · rw [promises_cons_of_some hprom]
      exact List.nodup_cons.2 ⟨fun hn => (hbelow n hn).false, ha.nodup⟩
    · rw [latestVote_cons_of_none hvote]
      exact ha.latest hne
  | @accept n v hn hprom hvote =>
    refine ⟨hn.ge, ?_, ?_, ⟨fun m w hw k hk => ?_, ha.kept⟩, fun _ => ?_⟩
    · rw [promises_cons_of_none hprom]
      exact ha.promised
    · rw [promises_cons_of_none hprom]
      exact ha.nodup
    · -- the number accepted is the one promised last
      rw [hvote] at hw
      cases hw
      exact (ha.promised k hk).trans hn.le
    · exact List.findSome?_cons_of_isSome (by rw [hvote]; rfl) |>.trans hvote
  | reject hprom hvote =>
    refine ⟨ha.le, ?_, ?_, ⟨x.keepsPromises_of_none hvote, ha.kept⟩, fun hne => ?_⟩
    · rw [promises_cons_of_none hprom]
      exact ha.promised
    · rw [promises_cons_of_none hprom]
      exact ha.nodup
    · rw [latestVote_cons_of_none hvote]
      exact ha.latest hne

theorem oneAcceptor_of_reachable (hs : acceptorEngineers.Reachable s) : OneAcceptor s.1 s.2 := by
  refine @Machine.ReachBy.invariant _ _ _ _ (fun s => OneAcceptor s.1 s.2) s hs
    (fun s hinit => ?_) fun s act s' _ ha _ hst => ?_
  · obtain ⟨hp, hn, hh⟩ := hinit
    rw [hh]
    exact ⟨(hn.trans hp.symm).le, nofun, .nil, trivial, fun hne => absurd hn hne⟩
  · obtain ⟨x, hh, hx⟩ := handling_of_step hst
    rw [hh]
    exact ha.step hx

/-- A message lowers neither number. -/
theorem Handling.le (hx : Handling f x f')
    (hle : f.acceptedProposalNumber ≤ f.promisedProposalNumber) :
    f.promisedProposalNumber ≤ f'.promisedProposalNumber ∧
      f.acceptedProposalNumber ≤ f'.acceptedProposalNumber := by
  cases hx with
  | promise hlt => exact ⟨hlt.le, le_rfl⟩
  | accept hn => exact ⟨le_rfl, hle.trans hn.le⟩
  | reject => exact ⟨le_rfl, le_rfl⟩

/-- What an acceptor that has accepted something tells with a promise. -/
theorem Handling.reports (hx : Handling f x f') (hprom : x.promise.isSome) {r : PaxosMsg}
    (hr : x.reply = some r) (hne : f.acceptedProposalNumber ≠ -1) :
    (r.acceptedProposal, r.getCommand) = (f.acceptedProposalNumber, f.acceptedValue) := by
  cases hx with
  | promise _ _ _ hr' hrep =>
    cases hr.symm.trans hr'
    exact hrep hne
  | accept _ hnone => rw [hnone] at hprom; cases hprom
  | reject hnone => rw [hnone] at hprom; cases hprom

end

/-! ### Safety -/

/-- What has happened later respects the promises given before. -/
theorem le_of_before {h : List Exchange} (hh : Justified Exchange.KeepsPromises h)
    {x y : Exchange} (hb : Before x y h) {n m : ℤ} {v : Command} (hx : x.promise = some n)
    (hy : y.vote = some (m, v)) : n ≤ m := by
  obtain ⟨h₁, h₂, rfl, hmem⟩ := before_iff.1 hb
  exact hh.of_append m v hy n (List.mem_filterMap.2 ⟨x, hmem, hx⟩)

theorem acceptor_safe {s : LaptopFactory × List Exchange} (hs : acceptorEngineers.Reachable s) :
    s.1.acceptedProposalNumber ≤ s.1.promisedProposalNumber ∧
    (∀ l s', acceptorEngineers.runBy (fun _ _ => True) l s = some s' →
      s.1.promisedProposalNumber ≤ s'.1.promisedProposalNumber ∧
        s.1.acceptedProposalNumber ≤ s'.1.acceptedProposalNumber) ∧
    (promises s.2).Nodup ∧
    (∀ x y n m v, Before x y s.2 → x.promise = some n → y.vote = some (m, v) → n ≤ m) ∧
    ∀ act s' x r, acceptorEngineers.step s act = some s' → s'.2 = x :: s.2 →
      x.promise.isSome → x.reply = some r → s.1.acceptedProposalNumber ≠ -1 →
      latestVote s.2 = some (r.acceptedProposal, r.getCommand) := by
  have hinv := oneAcceptor_of_reachable hs
  have hstep : ∀ s act s', acceptorEngineers.Reachable s → acceptorEngineers.step s act = some s' →
      s.1.promisedProposalNumber ≤ s'.1.promisedProposalNumber ∧
        s.1.acceptedProposalNumber ≤ s'.1.acceptedProposalNumber := by
    intro s act s' hs hst
    obtain ⟨x, -, hx⟩ := handling_of_step hst
    exact hx.le (oneAcceptor_of_reachable hs).le
  refine ⟨hinv.le, fun l s' hl => ⟨?_, ?_⟩, hinv.nodup,
    fun x y n m v hb hx hy => le_of_before hinv.kept hb hx hy, ?_⟩
  · exact hs.le_of_runBy (f := fun s => s.1.promisedProposalNumber)
      (fun s act s' hs _ hst => (hstep s act s' hs hst).1) hl
  · exact hs.le_of_runBy (f := fun s => s.1.acceptedProposalNumber)
      (fun s act s' hs _ hst => (hstep s act s' hs hst).2) hl
  · intro act s' x r hst hx hprom hr hne
    obtain ⟨x', hx', hhand⟩ := handling_of_step hst
    obtain rfl : x = x' := (List.cons.inj (hx.symm.trans hx')).1
    rw [hinv.latest hne, hhand.reports hprom hr hne]

theorem acceptor_safe_two_scouts : ∃ s : LaptopFactory × List Exchange,
    promises s.2 = [2, 0] ∧ latestVote s.2 = some (0, { slot := 1 }) ∧
      s.1.acceptedProposalNumber ≤ s.1.promisedProposalNumber ∧ (promises s.2).Nodup := by
  have hinit : acceptorEngineers.Reachable ({ factoryId := 1, acceptedValue := { slot := 0 } }, []) :=
    .init ⟨rfl, rfl, rfl⟩
  obtain ⟨s, hs, hp, hv⟩ := hinit.exists_of_runBy
    (P := fun s => promises s.2 = [2, 0] ∧ latestVote s.2 = some (0, { slot := 1 }))
    [(1, .p1a 0), (1, .p2a 0 { slot := 1 }), (2, .p1a 2), (1, .p1a 0)] (by decide)
  exact ⟨s, hp, hv, (acceptor_safe hs).1, (acceptor_safe hs).2.2.1⟩

end LaptopPaxos
