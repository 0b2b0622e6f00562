import LaptopPaxos.Accepted

/-!
# Numbers that fit

What travels between the servers is made of `int`s. What an acceptor holds has arrived
in a message, so that it is made of `int`s as well, and so is each of its replies
(`Net.Sized`). Only a Scout puts new numbers into its messages (`ScoutPc.IntSized`).
-/

namespace LaptopPaxos

open LaptopFactory

/-- Made of `int`s. -/
def Command.IntSized (cmd : Command) : Prop :=
  ∀ v ∈ [cmd.slot, cmd.commandId, cmd.customerId, cmd.orderId], IsInt v

/-- Made of `int`s. -/
def PaxosMsg.IntSized (m : PaxosMsg) : Prop := ∀ v ∈ m.ints, IsInt v

instance (cmd : Command) : Decidable cmd.IntSized := inferInstanceAs (Decidable (∀ v ∈ _, _))

instance (m : PaxosMsg) : Decidable m.IntSized := inferInstanceAs (Decidable (∀ v ∈ _, _))

/-- What an acceptor holds is made of `int`s. -/
structure LaptopFactory.Sized (f : LaptopFactory) : Prop where
  promised : IsInt f.promisedProposalNumber
  number : IsInt f.acceptedProposalNumber
  value : f.acceptedProposalNumber ≠ -1 → f.acceptedValue.IntSized

/-- The message that the Scout is about to send. -/
def ScoutPc.message (f : LaptopFactory) : ScoutPc → Option PaxosMsg
  | .p1a _ _ (_ :: _) => some (.p1a f.proposalNumber)
  | .p2a _ ph (_ :: _) => some (.p2a f.proposalNumber ph.cmd)
  | .learn _ cmd (_ :: _) => some (.learn cmd)
  | _ => none

/-- The message that the Scout is about to send is made of `int`s. -/
def ScoutPc.IntSized (f : LaptopFactory) (pc : ScoutPc) : Prop := ∀ m ∈ pc.message f, m.IntSized

instance (f : LaptopFactory) (pc : ScoutPc) : Decidable (pc.IntSized f) :=
  inferInstanceAs (Decidable (∀ m ∈ _, _))

/-- The condition `P` on the server whose Scout takes the step. -/
def Net.OnScout (P : ℤ → LaptopFactory → ScoutPc → Prop) (s : Net) : NetAction → Prop
  | .scout i _ _ => P i (s.node i).factory (s.node i).scout
  | _ => True

instance (P : ℤ → LaptopFactory → ScoutPc → Prop) [∀ i f pc, Decidable (P i f pc)] (s : Net) :
    (act : NetAction) → Decidable (s.OnScout P act)
  | .scout i _ _ => inferInstanceAs (Decidable (P i _ _))
  | .engineer .. | .client .. => isTrue trivial

section

variable {m : PaxosMsg} {f f' : LaptopFactory} {cmd : Command} {e : ℤ} {pc : SessionPc} {p : Parcel}

theorem PaxosMsg.IntSized.narrow (h : m.IntSized) : m.narrow = m := by
  simp only [IntSized, ints, List.forall_mem_cons] at h
  obtain ⟨h₁, h₂, h₃, h₄, h₅, h₆, h₇, h₈, -⟩ := h
  rw [PaxosMsg.narrow, narrowInt_eq_self h₁, narrowInt_eq_self h₂, narrowInt_eq_self h₃,
    narrowInt_eq_self h₄, narrowInt_eq_self h₅, narrowInt_eq_self h₆, narrowInt_eq_self h₇,
    narrowInt_eq_self h₈]

theorem PaxosMsg.intSized_narrow (m : PaxosMsg) : m.narrow.IntSized := forall_isInt_map m.ints

theorem PaxosMsg.intSized_iff : m.IntSized ↔ IsInt m.phase ∧ IsInt m.agree ∧
    IsInt m.proposeNumber ∧ IsInt m.acceptedProposal ∧ m.getCommand.IntSized := by
  simp only [IntSized, Command.IntSized, ints, getCommand, List.forall_mem_cons]

theorem LaptopFactory.Sized.frame (h : f.Sized) (hs : SameAcceptor f f') : f'.Sized := by
  refine ⟨hs.promised ▸ h.promised, hs.number ▸ h.number, fun hne => ?_⟩
  rw [hs.value]
  exact h.value (hs.number ▸ hne)

/-- The acceptor keeps numbers that it has received, and replies with them. -/
theorem LaptopFactory.Sized.acceptorEngineer (h : f.Sized) (hm : m.IntSized) :
    (f.acceptorEngineer m).1.Sized ∧ ∀ reply ∈ (f.acceptorEngineer m).2, reply.IntSized := by
  obtain ⟨-, -, hnumber, -, hcmd⟩ := PaxosMsg.intSized_iff.1 hm
  have hpromise : Sized { f with promisedProposalNumber := m.proposeNumber } :=
    ⟨hnumber, h.number, h.value⟩
  have h0 : IsInt 0 := by decide
  have h1 : IsInt 1 := by decide
  have h2 : IsInt 2 := by decide
  have hneg : IsInt (-1) := by decide
  have hdefault : ({} : PaxosMsg).getCommand.IntSized := by decide
  simp only [LaptopFactory.acceptorEngineer]
  split_ifs with h₁ h₂ h₃ h₄ h₅
  · refine ⟨hpromise, ?_⟩
    rintro _ ⟨⟩
    exact PaxosMsg.intSized_iff.2 ⟨h2, h1, hneg, h.number, h.value h₃⟩
  · refine ⟨hpromise, ?_⟩
    rintro _ ⟨⟩
    decide
  · refine ⟨h, ?_⟩
    rintro _ ⟨⟩
    exact PaxosMsg.intSized_iff.2 ⟨h2, h0, h.promised, hneg, hdefault⟩
  · refine ⟨⟨h.promised, hnumber, fun _ => hcmd⟩, ?_⟩
    rintro _ ⟨⟩
    decide
  · refine ⟨h, ?_⟩
    rintro _ ⟨⟩
    decide
  · exact ⟨h, fun _ hm => by cases hm⟩

/-- What an engineer does with a parcel that has arrived. -/
theorem LaptopFactory.Sized.handle (h : f.Sized) (hp : ∀ m ∈ p.paxosMsg?, m.IntSized)
    (hpc : ∀ m, pc ≠ .reply m) : (handle e f pc p).1.Sized ∧
      ∀ m, (LaptopPaxos.handle e f pc p).2 = .reply m → m.IntSized := by
  rw [LaptopPaxos.handle.eq_def]
  split
  · refine ⟨h, fun m hm => ?_⟩
    change onIdentity _ = _ at hm
    rw [onIdentity] at hm
    split_ifs at hm
  · next q =>
    refine ⟨h.frame (customerEngineer_frame f e q).2.1, fun m hm => ?_⟩
    change (onRequest f e q).2 = _ at hm
    rw [onRequest] at hm
    split_ifs at hm
    split at hm <;> cases hm
  · next q =>
    rw [onLogRequest]
    split
    · exact ⟨h, fun _ hm => by cases hm⟩
    · next f' hf =>
      refine ⟨h.frame (backupEngineer_frame hf).2.1, fun m hm => ?_⟩
      change (if _ then _ else _) = _ at hm
      split_ifs at hm
  · next msg =>
    obtain ⟨hf, hreply⟩ := h.acceptorEngineer (hp msg rfl)
    rw [onAcceptorMsg]
    split_ifs
    · exact ⟨h, fun _ hm => by cases hm⟩
    · refine ⟨hf, fun m hm => ?_⟩
      dsimp only at hm
      split at hm
      · next heq =>
        cases hm
        exact hreply m heq
      · cases hm
  · next msg =>
    rw [onLearnerMsg]
    split_ifs
    · exact ⟨h, fun _ hm => by cases hm⟩
    · exact ⟨h.frame (learnerEngineer_frame f msg).2.1, fun _ hm => by cases hm⟩
  · exact ⟨h, fun m hm => absurd hm (hpc m)⟩

/-- What the Scout sends is in the pipe as it is. -/
theorem ScoutPc.IntSized.narrow {pc : ScoutPc} {x : SocketId} {t : Transfer} (h : pc.IntSized f)
    (hu : pc.use f x t = some (.send p t)) : p.narrow = p := by
  have hmsg : ∀ {a b : ℤ} {m : PaxosMsg}, pc.message f = some m →
      (if a = b then some (Use.send (.message (.paxosMsg m)) t) else none) = some (.send p t) →
      p.narrow = p := by
    intro a b m hm hu
    split_ifs at hu
    cases hu
    exact congrArg (fun m => Parcel.message (.paxosMsg m)) (h m hm).narrow
  cases pc with
  | connect | command =>
    cases x <;> cases hu
    rfl
  | p1a _ _ iter | p2a _ _ iter =>
    cases iter <;> cases x <;> try cases hu
    exact hmsg rfl hu
  | learn _ _ iter =>
    cases iter <;> cases x <;> try cases hu
    exact hmsg rfl hu
  | p1b | p2b =>
    cases x with
    | acceptor b =>
      rw [use] at hu
      split_ifs at hu
      cases hu
    | engineer | learner => cases hu
  | _ => cases x <;> cases hu

end

/-! ### Runs -/

/-- The acceptors hold `int`s, and so do the replies that are not sent yet. -/
structure Net.Sized (s : Net) : Prop where
  acceptor : ∀ j, (s.node j).factory.Sized
  reply : ∀ ℓ k m, s.conn ℓ = some k → k.engineer.pc = .reply m → m.IntSized

section

variable {H : Hosts} {s s' : Net} {ℓ : Link} {k k' : Conn} {answers : Answers} {r : EngineerEffect}
  {role : Role} {o o' : ByteOrder} {d : ℕ} {p : Parcel} {e : ℤ} {f : LaptopFactory}
  {fut : Option LaptopInfo}

/-- The Paxos messages that arrive are made of `int`s. -/
theorem Role.Up.intSized (h : role.Up d p) : ∀ m ∈ p.paxosMsg?, m.IntSized := by
  cases role <;> cases d
  case acceptor.succ | learner.succ =>
    obtain ⟨m, rfl, -⟩ := h
    rintro _ ⟨⟩
    exact m.intSized_narrow
  case customer.succ =>
    obtain ⟨q, rfl, -⟩ := h
    exact fun _ hm => by cases hm
  all_goals
    cases h
    exact fun _ hm => by cases hm

theorem EngineerMove.sized (h : EngineerMove o o' role e f fut k r k') (hf : f.Sized) :
    r.factory.Sized ∧ ∀ m, k'.engineer.pc = .reply m → m.IntSized := by
  cases h with
  | @send p t hp hfac hbytes hclosed heng =>
    refine ⟨hfac ▸ hf, fun m hm => ?_⟩
    change r.engineer.pc = _ at hm
    rw [heng] at hm
    cases hpc : k.engineer.pc <;> rw [hpc] at hp hm <;> cases hp <;> cases hm
  | @handle p hopen hp hpre hup hk hfac heng =>
    have hpc : ∀ m, k.engineer.pc ≠ .reply m := by
      intro m hm
      rw [hm] at hk
      cases hk
    obtain ⟨hf', hm'⟩ := hf.handle (e := e) hup.intSized hpc
    refine ⟨hfac ▸ hf', fun m hm => hm' m ?_⟩
    change r.engineer.pc = _ at hm
    rw [heng] at hm
    exact hm
  | fail hfac heng =>
    refine ⟨hfac ▸ hf, fun m hm => ?_⟩
    change r.engineer.pc = _ at hm
    rw [heng] at hm
    cases hm
  | wake hpc hfut hfac heng =>
    refine ⟨hfac ▸ hf, fun m hm => ?_⟩
    change r.engineer.pc = _ at hm
    rw [heng] at hm
    cases hm
  | leave hpc hfac heng =>
    refine ⟨hfac ▸ hf, fun m hm => ?_⟩
    change r.engineer.pc = _ at hm
    rw [heng] at hm
    cases hm

theorem Net.sized_init (hs : s ∈ (network H).init) : s.Sized := by
  obtain ⟨client, -, rfl⟩ := hs
  refine ⟨fun j => ?_, fun ℓ k m hk => ?_⟩
  · obtain ⟨m, config, hf, -⟩ := H.factory_eq j
    change (H.factory j).Sized
    rw [hf]
    have hneg : IsInt (-1) := by decide
    exact ⟨hneg, hneg, fun hne => absurd rfl hne⟩
  · cases hk

/-- An engineer with a reply has had it before. -/
theorem Net.Sized.reply_of_stems (h : s.Sized) {m : PaxosMsg} {dial : ℤ → Link}
    (hk : s.Stems dial s' ℓ k) (hm : k.engineer.pc = .reply m) : m.IntSized := by
  cases hk with
  | old hk hsame => exact h.reply ℓ _ m hk (hsame.engineer ▸ hm)
  | new _ hsame =>
    rw [hsame.engineer] at hm
    cases hm

theorem Net.Sized.step {act : NetAction} (h : s.Sized) (hreg : s.Regular H)
    (hst : s.step H act = some s') : s'.Sized := by
  cases netStep_cases hst with
  | @engineer ℓ answers k r hk hr hu =>
    obtain ⟨hfac, hrep⟩ := (hr.move (hreg.heard hk) hu).sized (h.acceptor _)
    refine ⟨fun j => ?_, fun ℓ' k' m hk' hm => ?_⟩
    · by_cases hj : j = k.server
      · subst hj
        rw [node_applyEngineer_self]
        exact hfac
      · rw [node_applyEngineer_of_ne hj]
        exact h.acceptor j
    · by_cases hℓ : ℓ' = ℓ
      · subst hℓ
        rw [conn_applyEngineer_self] at hk'
        cases hk'
        exact hrep m hm
      · rw [conn_applyEngineer_of_ne hℓ] at hk'
        exact h.reply ℓ' k' m hk' hm
  | @scout i env answers io r hi hio hr hu =>
    refine ⟨fun j => ?_, fun ℓ k m hk hm => ?_⟩
    · by_cases hj : j = i
      · subst hj
        rw [node_applyScout_self]
        exact (h.acceptor j).frame (scoutStep_cases hr).frame.1
      · rw [node_applyScout_of_ne hj]
        exact h.acceptor j
    · exact h.reply_of_stems (stems_applyScout hk) hm
  | @client c env j r hr hu hj =>
    refine ⟨fun j' => ?_, fun ℓ k m hk hm => ?_⟩
    · rw [node_applyClient]
      exact h.acceptor j'
    · exact h.reply_of_stems (stems_applyClient hr hk) hm

theorem Net.sized_of_reachable (hs : (network H).Reachable s) : s.Sized := by
  induction hs with
  | init hs => exact sized_init hs
  | step hs _ hst ih => exact ih.step (regular_of_reachable hs) hst

end

end LaptopPaxos
