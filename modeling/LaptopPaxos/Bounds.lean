import LaptopPaxos.ClientRuns
import LaptopPaxos.Portability
import LaptopPaxos.Process

/-!
# Reading within bounds

When the threads that decode what a peer has sent leave the bytes received or
the log. The lengths and the index come from the peer:

* the length of the address in a Paxos message, which the acceptor and the
  learner engineers use unchecked;
* the committed index of a log request, unchecked from above;
* the lengths of the addresses in a configuration, and the number of its
  entries.

A server and a client stay within bounds along the runs in which all of them
fit (`in_bounds_iff`). A client decodes a buffer of zeros when nothing has been
received for a size of `2^31` or more; an observer tells whether it has decoded
nothing but bytes received.
-/

namespace LaptopPaxos

open LaptopFactory Reader

/-! ### Decoding -/

section

variable {o : ByteOrder} {bs : List UInt8}

theorem CustomerRequest.run_unmarshal_bytes (h : bs.length = 12) :
    (unmarshal o).run bs = some (⟨getInt bs 0, getInt bs 4, getInt bs 8⟩, []) := by
  rw [unmarshal, ← List.drop_zero (l := bs),
    run_bind_of_eq_some _ (run_readInt_drop (by omega)),
    run_bind_of_eq_some _ (run_readInt_drop (by omega)),
    run_bind_of_eq_some _ (run_readInt_drop (by omega)), List.drop_zero, run_pure,
    List.drop_of_length_le (by omega)]

theorem CustomerRecord.run_unmarshal_bytes (h : bs.length = 8) :
    (unmarshal o).run bs = some (⟨getInt bs 0, getInt bs 4⟩, []) := by
  rw [unmarshal, ← List.drop_zero (l := bs),
    run_bind_of_eq_some _ (run_readInt_drop (by omega)),
    run_bind_of_eq_some _ (run_readInt_drop (by omega)), List.drop_zero, run_pure,
    List.drop_of_length_le (by omega)]

theorem LaptopInfo.run_unmarshal_bytes (h : bs.length = 20) :
    (unmarshal o).run bs =
      some (⟨getInt bs 0, getInt bs 4, getInt bs 8, getInt bs 12, getInt bs 16⟩, []) := by
  rw [unmarshal, ← List.drop_zero (l := bs),
    run_bind_of_eq_some _ (run_readInt_drop (by omega)),
    run_bind_of_eq_some _ (run_readInt_drop (by omega)),
    run_bind_of_eq_some _ (run_readInt_drop (by omega)),
    run_bind_of_eq_some _ (run_readInt_drop (by omega)),
    run_bind_of_eq_some _ (run_readInt_drop (by omega)), List.drop_zero, run_pure,
    List.drop_of_length_le (by omega)]

theorem LogRequest.run_unmarshal_bytes (h : bs.length = 24) :
    (unmarshal o).run bs =
      some (⟨getInt bs 0, getInt bs 4, getInt bs 8, ⟨getInt bs 12, getInt bs 16, getInt bs 20⟩⟩,
        []) := by
  have hop : (MapOp.unmarshal o).run (bs.drop 12) =
      some (⟨getInt bs 12, getInt bs 16, getInt bs 20⟩, []) := by
    rw [MapOp.unmarshal, run_bind_of_eq_some _ (run_readInt_drop (by omega)),
      run_bind_of_eq_some _ (run_readInt_drop (by omega)),
      run_bind_of_eq_some _ (run_readInt_drop (by omega)), run_pure,
      List.drop_of_length_le (by omega)]
  rw [unmarshal, ← List.drop_zero (l := bs),
    run_bind_of_eq_some _ (run_readInt_drop (by omega)),
    run_bind_of_eq_some _ (run_readInt_drop (by omega)),
    run_bind_of_eq_some _ (run_readInt_drop (by omega)), List.drop_zero]
  exact run_bind_of_eq_some _ hop

/-- The address in a Paxos message must leave room for the two integers behind it. -/
theorem PaxosMsg.isSome_run_unmarshal (h : 28 ≤ bs.length) :
    ((unmarshal o).run bs).isSome ↔
      0 ≤ getInt bs 24 ∧ IsInt (getInt bs 24 + 1) ∧ getInt bs 24 + 36 ≤ bs.length := by
  rw [unmarshal, ← List.drop_zero (l := bs),
    run_bind_of_eq_some _ (run_readInt_drop (by omega)),
    run_bind_of_eq_some _ (run_readInt_drop (by omega)),
    run_bind_of_eq_some _ (run_readInt_drop (by omega)),
    run_bind_of_eq_some _ (run_readInt_drop (by omega)),
    run_bind_of_eq_some _ (run_readInt_drop (by omega)),
    run_bind_of_eq_some _ (run_readInt_drop (by omega)),
    run_bind_of_eq_some _ (run_readInt_drop (by omega)), List.drop_zero]
  change ((require (0 ≤ getInt bs 24 ∧ IsInt (getInt bs 24 + 1)) >>= _).run (bs.drop 28)).isSome ↔ _
  generalize getInt bs 24 = ipLength
  rw [← and_assoc]
  constructor
  · intro hsome
    obtain ⟨m, hm⟩ := Option.isSome_iff_exists.1 hsome
    obtain ⟨_, bs₁, hreq, hm⟩ := (run_bind_eq_some _).1 hm
    obtain ⟨tempIp, bs₂, hip, hm⟩ := (run_bind_eq_some _).1 hm
    obtain ⟨customerId, bs₃, hcust, hm⟩ := (run_bind_eq_some _).1 hm
    obtain ⟨orderId, bs₄, hord, -⟩ := (run_bind_eq_some _).1 hm
    obtain ⟨hlen, rfl⟩ := run_require_eq_some.1 hreq
    obtain ⟨hle, -, rfl⟩ := run_memcpy_eq_some.1 hip
    have h₁ := length_of_run_readInt hcust
    have h₂ := length_of_run_readInt hord
    rw [List.drop_drop, List.length_drop] at h₁
    exact ⟨hlen, by omega⟩
  · rintro ⟨hlen, hle⟩
    have hip : (memcpy ipLength.toNat).run (bs.drop 28) =
        some ((bs.drop 28).take ipLength.toNat, bs.drop (28 + ipLength.toNat)) :=
      run_memcpy_eq_some.2 ⟨by rw [List.length_drop]; omega, rfl, List.drop_drop.symm⟩
    rw [run_bind_of_eq_some _ (run_require hlen _), run_bind_of_eq_some _ hip,
      run_bind_of_eq_some _ (run_readInt_drop (by omega)),
      run_bind_of_eq_some _ (run_readInt_drop (by omega)), run_pure]
    rfl

end

/-- The length of the address in the entry at the front of the bytes. -/
def entryIpLength (o : ByteOrder) (bs : List UInt8) : ℕ := (o.load ((bs.drop 4).take 4)).toNat

/-- What `n` entries need: the address of each and its port lie in the bytes.
    The next entry is looked for behind the first zero byte of the address. -/
def EntriesFit (o : ByteOrder) : ℕ → List UInt8 → Prop
  | 0, _ => True
  | n + 1, bs =>
    entryIpLength o bs + 12 ≤ bs.length ∧
      EntriesFit o n (bs.drop (12 + (cString ((bs.drop 8).take (entryIpLength o bs))).length))

/-- The bytes of a configuration hold as many entries as their head says. -/
def ConfigFits (o : ByteOrder) (bs : List UInt8) : Prop :=
  4 ≤ bs.length ∧ EntriesFit o (getInt bs 0).toNat (bs.drop 4)

section

variable {o : ByteOrder} {bs rest : List UInt8} {n : ℕ} {acc : StdMap ℤ ServerInfo}
  {info : ServerInfo}

/-- The entry whose key is at the front of the bytes. -/
theorem ServerInfo.run_unmarshal_drop (hlt : bs.length + 1 < 4294967296) :
    (∃ after, (unmarshal o).run (bs.drop 4) = some (info, after)) ↔
      entryIpLength o bs + 12 ≤ bs.length ∧
      info.ipAddress = bytesString (cString ((bs.drop 8).take (entryIpLength o bs))) ∧
      info.portNumber = (o.load ((bs.drop (8 + entryIpLength o bs)).take 4)).toInt := by
  by_cases h : 8 ≤ bs.length
  · have hlen : ((bs.drop 4).take 4).length = 4 := by
      rw [List.length_take, List.length_drop]
      omega
    have hsplit : bs.drop 4 = o.store (o.load ((bs.drop 4).take 4)) ++ bs.drop 8 := by
      rw [o.store_load hlen]
      exact (List.take_append_drop 4 (bs.drop 4)).symm.trans (congrArg _ List.drop_drop)
    rw [hsplit]
    simp only [run_unmarshal, o.load_store, List.length_drop, List.drop_drop]
    change (∃ after, entryIpLength o bs + 1 < _ ∧ entryIpLength o bs + 4 ≤ _ ∧
      _ = bytesString (cString (List.take (entryIpLength o bs) _)) ∧ _ ∧ _) ↔ _
    constructor
    · rintro ⟨after, hlt, hle, hip, hport, -⟩
      exact ⟨by omega, hip, hport⟩
    · rintro ⟨hle, hip, hport⟩
      exact ⟨_, by omega, by omega, hip, hport, rfl⟩
  · refine iff_of_false (fun hrun => h ?_) (fun hfit => h (by omega))
    -- the word of the length alone is not there
    obtain ⟨after, hrun⟩ := hrun
    obtain ⟨w, _, hw, -⟩ := (run_bind_eq_some _).1 hrun
    obtain ⟨bytes, _, hbytes, -⟩ := (run_bind_eq_some _).1 hw
    have hle := (run_memcpy_eq_some.1 hbytes).1
    rw [List.length_drop] at hle
    omega

theorem isSome_run_readServers (hlt : bs.length + 1 < 4294967296) :
    ((readServers o n acc).run bs).isSome ↔ EntriesFit o n bs := by
  induction n generalizing acc bs with
  | zero => exact iff_of_true rfl trivial
  | succ n ih =>
    -- where the next entry is looked for
    have hnext : ∀ info : ServerInfo,
        info.ipAddress = bytesString (cString ((bs.drop 8).take (entryIpLength o bs))) →
        (bs.drop 4).drop info.size =
          bs.drop (12 + (cString ((bs.drop 8).take (entryIpLength o bs))).length) := by
      intro info hip
      rw [List.drop_drop, ServerInfo.size, hip, length_bytesString]
      congr 1
      omega
    have hshort : ∀ k, (bs.drop k).length + 1 < 4294967296 := fun k => by
      rw [List.length_drop]
      omega
    rw [Option.isSome_iff_exists, EntriesFit]
    simp only [run_readServers_succ]
    constructor
    · rintro ⟨p, key, info, buffer, after, hkey, hinfo, hrest⟩
      have hlen := length_of_run_readInt hkey
      rw [run_readInt_front (by omega)] at hkey
      cases hkey
      obtain ⟨hle, hip, -⟩ := (ServerInfo.run_unmarshal_drop hlt).1 ⟨after, hinfo⟩
      rw [hnext info hip] at hrest
      exact ⟨hle, (ih (hshort _)).1 (Option.isSome_iff_exists.2 ⟨p, hrest⟩)⟩
    · rintro ⟨hle, hfit⟩
      obtain ⟨after, hinfo⟩ : ∃ after, (ServerInfo.unmarshal o).run (bs.drop 4) =
          some (⟨_, _⟩, after) := (ServerInfo.run_unmarshal_drop hlt).2 ⟨hle, rfl, rfl⟩
      obtain ⟨p, hp⟩ : ∃ p, (readServers o n (acc.insert _ _)).run _ = some p :=
        Option.isSome_iff_exists.1 ((ih (hshort _)).2 hfit)
      refine ⟨p, _, _, _, after, run_readInt_front (by omega), hinfo, ?_⟩
      rw [hnext _ rfl]
      exact hp

theorem ServerConfig.isSome_run_unmarshal (hlt : bs.length + 1 < 4294967296) :
    ((unmarshal o).run bs).isSome ↔ ConfigFits o bs := by
  have hshort : (bs.drop 4).length + 1 < 4294967296 := by
    rw [List.length_drop]
    omega
  rw [ConfigFits, ← @isSome_run_readServers o _ _ .empty hshort, Option.isSome_iff_exists,
    Option.isSome_iff_exists, unmarshal]
  constructor
  · rintro ⟨p, hp⟩
    obtain ⟨serverCount, rest, hcount, hp⟩ := (run_bind_eq_some _).1 hp
    obtain ⟨servers, rest', hread, -⟩ := (run_bind_eq_some _).1 hp
    have hlen := length_of_run_readInt hcount
    rw [run_readInt_front (by omega)] at hcount
    cases hcount
    exact ⟨by omega, _, hread⟩
  · rintro ⟨hlen, p, hread⟩
    rw [run_bind_of_eq_some _ (run_readInt_front hlen)]
    exact ⟨_, run_bind_of_eq_some _ hread⟩

end

/-! ### Engineers -/

/-- The lengths and the index in the bytes that an engineer has received fit. -/
def SessionPc.InBounds (f : LaptopFactory) (bs : List UInt8) : SessionPc → Prop
  | .logRequest => getInt bs 0 = -1 ∨ getInt bs 4 ≤ f.smrLog.length
  | .acceptor | .learner => 0 ≤ getInt bs 24 ∧ getInt bs 24 ≤ 15
  | _ => True

instance (f : LaptopFactory) (bs : List UInt8) (pc : SessionPc) : Decidable (pc.InBounds f bs) := by
  unfold SessionPc.InBounds
  split <;> infer_instance

section

variable {o : ByteOrder} {e : ℤ} {f : LaptopFactory} {bs : List UInt8} {pc : SessionPc}

theorem backupEngineer_eq_none {r : LogRequest} :
    f.backupEngineer r = none ↔ r.isValid ∧ (f.smrLog.length : ℤ) < r.committedIndex := by
  by_cases hv : r.isValid
  · rw [backupEngineer, if_neg (not_not.2 hv), and_iff_right hv]
    by_cases hpos : 0 ≤ r.committedIndex
    · rw [if_pos hpos, Option.map_eq_none_iff, List.getElem?_eq_none_iff, List.length_append,
        List.length_singleton]
      change f.smrLog.length + 1 ≤ r.committedIndex.toNat ↔ _
      omega
    · rw [if_neg hpos]
      exact iff_of_false (Option.some_ne_none _) (by omega)
  · rw [backupEngineer, if_pos hv]
    exact iff_of_false (Option.some_ne_none _) fun h => hv h.1

theorem onIdentity_ne_fault (identity : ℤ) : onIdentity identity ≠ .fault := by
  rw [onIdentity]
  split_ifs <;> nofun

theorem onRequest_ne_fault (request : CustomerRequest) : (onRequest f e request).2 ≠ .fault := by
  rw [onRequest]
  by_cases hv : request.isValid
  · rw [if_neg (not_not.2 hv)]
    split_ifs
    · nofun
    · split <;> nofun
  · rw [if_pos hv]
    nofun

theorem onAcceptorMsg_ne_fault (msg : PaxosMsg) : (onAcceptorMsg f msg).2 ≠ .fault := by
  rw [onAcceptorMsg]
  split_ifs
  · exact SessionPc.noConfusion
  · generalize f.acceptorEngineer msg = r
    obtain ⟨f', _ | reply⟩ := r
    · exact SessionPc.noConfusion
    · exact SessionPc.noConfusion

theorem onLearnerMsg_ne_fault (msg : PaxosMsg) : (onLearnerMsg f msg).2 ≠ .fault := by
  rw [onLearnerMsg]
  split_ifs
  · exact SessionPc.noConfusion
  · exact SessionPc.noConfusion

theorem onLogRequest_eq_fault {r : LogRequest} : (onLogRequest f r).2 = .fault ↔
    r.isValid ∧ (f.smrLog.length : ℤ) < r.committedIndex := by
  rw [← backupEngineer_eq_none, onLogRequest]
  split
  · next h => exact iff_of_true rfl h
  · next h =>
    rw [h]
    refine iff_of_false ?_ (Option.some_ne_none _)
    change (if r.isValid then _ else _) ≠ _
    split_ifs
    · exact SessionPc.noConfusion
    · exact SessionPc.noConfusion

/-- A message that is decoded is handled without a fault. -/
theorem elim_ne_fault {α : Type} {x : Option α} {k : α → LaptopFactory × SessionPc}
    (hk : ∀ a, (k a).2 ≠ .fault) : (x.elim (f, .fault) k).2 ≠ .fault ↔ x.isSome := by
  cases x with
  | none => exact iff_of_false (fun h => h rfl) nofun
  | some a => exact iff_of_true (hk a) rfl

theorem isSome_messageOf {α : Type} {u : Reader α} {default : α} :
    (messageOf u default (some bs)).isSome = (u.run bs).isSome := Option.isSome_map

/-- An engineer leaves the bytes received or the log if and only if the lengths
    and the index do not fit. -/
theorem received_ne_fault {size : ℕ} (hwants : pc.wants = some size) (hlen : bs.length = size) :
    (received o e f (some bs) pc).2 ≠ .fault ↔ pc.InBounds f bs := by
  have hpaxos : bs.length = 51 → (((PaxosMsg.unmarshal o).run bs).isSome ↔
      0 ≤ getInt bs 24 ∧ getInt bs 24 ≤ 15) := by
    intro h
    rw [PaxosMsg.isSome_run_unmarshal (by omega), IsInt, h]
    omega
  cases pc with
  | identity =>
    cases hwants
    refine iff_of_true ((elim_ne_fault onIdentity_ne_fault).2 ?_) trivial
    rw [isSome_messageOf, run_readInt_front (by omega)]
    rfl
  | request =>
    cases hwants
    refine iff_of_true ((elim_ne_fault onRequest_ne_fault).2 ?_) trivial
    rw [isSome_messageOf, CustomerRequest.run_unmarshal_bytes hlen]
    rfl
  | logRequest =>
    cases hwants
    have hrun : messageOf (LogRequest.unmarshal o) {} (some bs) = some _ :=
      congrArg (Option.map Prod.fst) (LogRequest.run_unmarshal_bytes hlen)
    rw [received, hrun, Option.elim_some, ne_eq, onLogRequest_eq_fault, not_and_or, not_lt]
    exact or_congr_left not_not
  | acceptor =>
    cases hwants
    rw [received, elim_ne_fault onAcceptorMsg_ne_fault, isSome_messageOf]
    exact hpaxos hlen
  | learner =>
    cases hwants
    rw [received, elim_ne_fault onLearnerMsg_ne_fault, isSome_messageOf]
    exact hpaxos hlen
  | _ => cases hwants

theorem toNat_intOfSize_lt (n : ℕ) : (intOfSize n).toNat < 2147483648 := by
  have hlt := (isInt_toInt (BitVec.ofNat 32 n)).2
  rw [intOfSize]
  omega

theorem SessionPc.sent_ne_fault (h : pc ≠ .fault) : pc.sent ≠ .fault := by
  cases pc with
  | fault => exact absurd rfl h
  | _ => nofun

end

/-- In a step of an engineer that receives anything, the bytes fit. -/
def SessionPc.Receives (f : LaptopFactory) (answers : Answers) (pc : SessionPc) : Prop :=
  ∀ size t, pc.wants = some size → Socket.recv answers.recv (intOfSize size) = some t →
    t.ok = true → pc.InBounds f t.bytes

theorem EngineerStep.pc_ne_fault {o : ByteOrder} {e : ℤ} {f : LaptopFactory}
    {fut : Option LaptopInfo} {answers : Answers} {g : Engineer} {r : EngineerEffect}
    (h : EngineerStep o e f fut answers g r) (hg : g.pc ≠ .fault) :
    r.engineer.pc ≠ .fault ↔ g.pc.Receives f answers := by
  cases h with
  | send hout =>
    refine iff_of_true (SessionPc.sent_ne_fault hg) fun size' t' hwants => ?_
    rw [SessionPc.wants_of_outgoing hout] at hwants
    cases hwants
  | @recv size t hwants ht =>
    have hlen := Socket.bytes_of_recv ht
    rw [(intOfSize_wants hwants).1] at hlen
    have hone : g.pc.Receives f answers ↔ (t.ok = true → g.pc.InBounds f t.bytes) := by
      constructor
      · exact fun h => h size t hwants ht
      · intro h size' t' hwants' ht'
        rw [hwants] at hwants'
        cases hwants'
        rw [ht] at ht'
        cases ht'
        exact h
    rw [hone]
    change (received o e f (if t.ok = true then some t.bytes else none) g.pc).2 ≠ _ ↔ _
    by_cases hok : t.ok = true
    · rw [if_pos hok, received_ne_fault hwants (hlen.1 hok), iff_true_intro hok, true_imp_iff]
    · rw [if_neg hok, received_none (by rw [hwants]; nofun)]
      exact iff_of_true nofun fun h => absurd h hok
  | wake hpc =>
    refine iff_of_true nofun fun size' t' hwants => ?_
    rw [hpc] at hwants
    cases hwants
  | leave hpc =>
    refine iff_of_true nofun fun size' t' hwants => ?_
    rw [hpc] at hwants
    cases hwants

/-- In a step, the bytes that an engineer receives fit. -/
def Process.InBounds (s : Process) : ProcessAction → Prop
  | .engineer e answers => (s.engineer e).pc.Receives s.factory answers
  | .scout .. => True

/-- The engineers of a server have not left their buffers or the log. -/
def Process.NoFault (s : Process) : Prop := ∀ e, (s.engineer e).pc ≠ .fault

theorem EngineerStep.no_fault {o : ByteOrder} {e : ℤ} {f : LaptopFactory}
    {fut : Option LaptopInfo} {answers : Answers} {g : Engineer} {r : EngineerEffect}
    (h : EngineerStep o e f fut answers g r) : g.pc ≠ .fault := by
  intro hg
  cases h with
  | send hout => rw [hg] at hout; cases hout
  | recv hwants => rw [hg] at hwants; cases hwants
  | wake hpc => rw [hg] at hpc; cases hpc
  | leave hpc => rw [hg] at hpc; cases hpc

theorem ProcessStep.noFault {o : ByteOrder} {id : ℤ} {s s' : Process} {act : ProcessAction}
    (h : ProcessStep o id s act s') : s'.NoFault ↔ s.NoFault ∧ s.InBounds act := by
  cases h with
  | @engineer e answers r hr =>
    have hstep := hr.pc_ne_fault hr.no_fault
    simp only [Process.NoFault, Process.applyEngineer, Function.update_apply, Process.InBounds,
      ← hstep]
    constructor
    · intro h
      refine ⟨fun j => ?_, ?_⟩
      · by_cases hj : j = e
        · exact hj ▸ hr.no_fault
        · have hpc := h j
          rwa [if_neg hj] at hpc
      · have hpc := h e
        rwa [if_pos rfl] at hpc
    · rintro ⟨hs, hr⟩ j
      split_ifs
      · exact hr
      · exact hs j
  | scout => exact (and_iff_left trivial).symm

/-! ### Clients -/

/-- In a step, the bytes of a configuration fit. -/
def Client.InBounds (o : ByteOrder) (c : Client) (env : ClientEnv) : Prop :=
  ∀ i size t, c.pc = .config i size → Socket.recv env.answers.recv (intOfSize size) = some t →
    t.ok = true → ConfigFits o t.bytes

/-- In a step, the bytes received suffice for what is decoded of a configuration. -/
def Client.readsReceived (o : ByteOrder) (c : Client) (env : ClientEnv) : Bool :=
  match c.pc with
  | .config _ size => (Socket.recv env.answers.recv (intOfSize size)).all fun t =>
      !t.ok || ((ServerConfig.unmarshal o).run t.bytes).isSome
  | _ => true

/-- A client, and whether it has decoded nothing but bytes received. -/
abbrev reading (o : ByteOrder) : Machine (Client × Bool) ClientEnv :=
  (customer o).observe true fun b c env => b && c.readsReceived o env

section

variable {o : ByteOrder} {c : Client} {env : ClientEnv} {r : ClientEffect}

theorem Client.head_ne_fault (c : Client) (i : ℤ) : c.head i ≠ .fault := by
  rw [head]
  split_ifs <;> exact ClientPc.noConfusion

theorem Client.onLaptop_ne_fault (c : Client) (i : ℤ) (laptop : LaptopInfo) :
    c.onLaptop i laptop ≠ .fault := by
  by_cases hv : laptop.isValid
  · rw [onLaptop, if_neg (not_not.2 hv)]
    split_ifs
    · exact ClientPc.noConfusion
    · exact c.head_ne_fault _
  · rw [onLaptop, if_pos hv]
    split_ifs <;> exact ClientPc.noConfusion

theorem Client.onRecord_ne_fault (c : Client) (i : ℤ) : c.onRecord i ≠ .fault := by
  rw [onRecord]
  split_ifs
  · exact c.head_ne_fault _
  · exact ClientPc.noConfusion

/-- The answers have a fixed size. -/
theorem Client.answered_ne_fault (c : Client) (o : ByteOrder) (i : ℤ)
    {buffer? : Option (List UInt8)}
    (h : ∀ bs ∈ buffer?, bs.length = c.answerSize) : c.answered o i buffer? ≠ .fault := by
  rw [answered]
  split_ifs with htype
  · cases buffer? with
    | none => exact c.onLaptop_ne_fault i {}
    | some bs =>
      have hlen := h bs rfl
      rw [answerSize, if_pos htype] at hlen
      rw [messageOf, LaptopInfo.run_unmarshal_bytes hlen]
      exact c.onLaptop_ne_fault i _
  · cases buffer? with
    | none => exact c.onRecord_ne_fault i
    | some bs =>
      have hlen := h bs rfl
      rw [answerSize, if_neg htype] at hlen
      rw [messageOf, CustomerRecord.run_unmarshal_bytes hlen]
      exact c.onRecord_ne_fault i

theorem Client.reconnect_ne_fault (c : Client) (env : ClientEnv) (server : ServerInfo)
    {success failure : ClientPc} (hs : success ≠ .fault) (hf : failure ≠ .fault) :
    (c.reconnect env server success failure).client.pc ≠ .fault := by
  rw [reconnect]
  split_ifs
  · exact hs
  · exact hf

theorem Client.readsReceived_iff : c.readsReceived o env = true ↔ c.InBounds o env := by
  by_cases hconf : ∃ i size, c.pc = .config i size
  · obtain ⟨i, size, hpc⟩ := hconf
    have hfits : ∀ t, Socket.recv env.answers.recv (intOfSize size) = some t →
        (((ServerConfig.unmarshal o).run t.bytes).isSome ↔ ConfigFits o t.bytes) := fun t ht => by
      refine ServerConfig.isSome_run_unmarshal ?_
      have hlen := Socket.bytes_of_recv ht
      have hint := toNat_intOfSize_lt size
      cases hok : t.ok with
      | true => rw [hlen.1 hok]; omega
      | false => have := hlen.2 hok; omega
    rw [readsReceived, hpc]
    dsimp only
    rw [Option.all_eq_true]
    constructor
    · intro hall j size' t hpc' ht hok
      rw [hpc] at hpc'
      cases hpc'
      have hread := hall t ht
      rw [hok, Bool.not_true, Bool.false_or] at hread
      exact (hfits t ht).1 hread
    · intro hin t ht
      rw [Bool.or_eq_true, Bool.not_eq_true', or_iff_not_imp_left, Bool.not_eq_false]
      exact fun hok => (hfits t ht).2 (hin i size t hpc ht hok)
  · push Not at hconf
    refine iff_of_true ?_ fun i size t hpc => absurd hpc (hconf i size)
    rw [readsReceived]
    split
    · next hpc => exact absurd hpc (hconf _ _)
    · rfl

/-- If the bytes received suffice, then so does the buffer. -/
theorem Client.receiveServerConfig_ne_fault (i : ℤ) {size : ℕ} {t : Transfer}
    (ht : Socket.recv env.answers.recv (intOfSize size) = some t) (hsize : size < 4294967296)
    (hfits : t.ok = true → ConfigFits o t.bytes) :
    (c.receiveServerConfig o i size t).pc ≠ .fault := by
  have hsome : (serverConfigOf o size t).isSome := by
    by_cases hok : t.ok = true
    · have hfit := hfits hok
      have hlen := (Socket.bytes_of_recv ht).1 hok
      have hint := toNat_intOfSize_lt size
      -- something has been received, so that the size is positive as an `int`
      have hlt : size < 2147483648 := by
        have h4 : 4 ≤ t.bytes.length := hfit.1
        rw [hlen, intOfSize, BitVec.toInt_eq_toNat_cond, BitVec.toNat_ofNat,
          Nat.mod_eq_of_lt hsize] at h4
        split_ifs at h4 <;> omega
      rw [serverConfigOf_of_lt ht hlt, if_pos hok, isSome_messageOf,
        ServerConfig.isSome_run_unmarshal (by omega)]
      exact hfit
    · rw [serverConfigOf, if_neg hok]
      rfl
  obtain ⟨config, hconfig⟩ := Option.isSome_iff_exists.1 hsome
  rw [receiveServerConfig, hconfig]
  exact Client.head_ne_fault _ _

theorem ClientStep.pc_ne_fault (h : ClientStep o env c r) (hc : (customer o).Reachable c)
    (hin : c.InBounds o env) : r.client.pc ≠ .fault := by
  cases h with
  | init => exact c.reconnect_ne_fault _ _ nofun nofun
  | identify => nofun
  | header => nofun
  | @config i size t hpc ht =>
    exact Client.receiveServerConfig_ne_fault i ht (size_lt_of_reachable hc hpc)
      (hin i size t hpc ht)
  | @request i t =>
    change (if t.ok = true then ClientPc.answer i else c.answered o i none) ≠ _
    split_ifs
    · nofun
    · exact c.answered_ne_fault o i nofun
  | @answer i t hpc ht =>
    refine c.answered_ne_fault o i fun bs hbs => ?_
    split_ifs at hbs with hok
    · cases hbs
      rw [(Socket.bytes_of_recv ht).1 hok, Int.toNat_natCast]
    · cases hbs
  | lost => nofun
  | retry => exact c.reconnect_ne_fault _ _ nofun nofun

theorem not_fault_of_clientStep (h : clientStep o env c = some r) : c.pc ≠ .fault := by
  intro hpc
  rw [clientStep, hpc] at h
  cases h

end

/-! ### The condition -/

/-- A server stays within the bytes received and within its log exactly along
    the runs in which the lengths and indices that its engineers receive fit,
    and a client decodes nothing but bytes that it has received, and within its
    buffers, exactly along those in which the entries of the configurations fit. -/
theorem in_bounds_iff (o : ByteOrder) :
    (∀ D i s, (process o D i).Reachable s →
      (s.NoFault ↔ (process o D i).ReachBy Process.InBounds s)) ∧
    ∀ p, (reading o).Reachable p →
      (p.2 = true ∧ p.1.pc ≠ .fault ↔
        (reading o).ReachBy (fun p => Client.InBounds o p.1) p) := by
  constructor
  · intro D i s hs
    refine hs.iff_reachBy ?_ fun s act s' _ hst => (processStep_cases hst).noFault
    rintro _ rfl e
    exact nofun
  · intro p hp
    refine hp.iff_reachBy (P := fun p => p.2 = true ∧ p.1.pc ≠ .fault) ?_ fun p env p' hp hst => ?_
    · rintro ⟨c, b⟩ ⟨hc, rfl⟩
      exact ⟨rfl, by rw [show c.pc = .init from hc]; nofun⟩
    · obtain ⟨hst, hb⟩ := Machine.step_observe.1 hst
      obtain ⟨r, hr, hc⟩ := Option.map_eq_some_iff.1 hst
      rw [hb, Bool.and_eq_true, Client.readsReceived_iff, ← hc]
      constructor
      · rintro ⟨⟨hb, hin⟩, -⟩
        exact ⟨⟨hb, not_fault_of_clientStep hr⟩, hin⟩
      · rintro ⟨⟨hb, -⟩, hin⟩
        exact ⟨⟨hb, hin⟩, (clientStep_cases hr).pc_ne_fault hp.of_observe hin⟩

/-- A peer reports to an acceptor. -/
theorem in_bounds_iff_p1a : ∃ s, (process .little (.numbered 1) 1).Reachable s ∧
    (s.engineer 0).pc = .reply { phase := 2, agree := 1 } ∧
    (s.NoFault ↔ (process .little (.numbered 1) 1).ReachBy Process.InBounds s) := by
  have hinit : (process .little (.numbered 1) 1).Reachable
      { factory := (Deployment.numbered 1).factory 1 } := .init rfl
  obtain ⟨s, hs, hpc⟩ := hinit.exists_of_runBy
    (P := fun s => (s.engineer 0).pc = .reply { phase := 2, agree := 1 })
    [.engineer 0 { recv := [[0, 0], [0, 2]] },
      .engineer 0 { recv := [(PaxosMsg.p1a 0).marshal .little] }] (by decide +kernel)
  exact ⟨s, hs, hpc, (in_bounds_iff .little).1 _ _ s hs⟩

/-- An engineer leaves the bytes received when the address in a Paxos message is
    longer than 15 bytes, and the log when a log request names an index that is not
    there yet; a client leaves the bytes received when an entry is missing. -/
theorem not_in_bounds :
    (∃ s, (process .little (.numbered 1) 1).Reachable s ∧ (s.engineer 0).pc = .fault ∧
      (s.engineer 1).pc = .fault) ∧
    ∃ c, (customer .little).Reachable c ∧ c.pc = .fault := by
  have hinit : (process .little (.numbered 1) 1).Reachable
      { factory := (Deployment.numbered 1).factory 1 } := .init rfl
  have hclient : (customer .little).Reachable ⟨⟨"127.0.0.1", 12300⟩, 0, 1, 1, {}, .init, false⟩ :=
    .init rfl
  constructor
  · exact hinit.exists_of_runBy
      (P := fun s => (s.engineer 0).pc = .fault ∧ (s.engineer 1).pc = .fault)
      [.engineer 0 { recv := [[0, 0, 0, 2]] },
        .engineer 0
          { recv := [(({ clientIp := "1000.000.000.000" } : PaxosMsg).marshal .little).take 51] },
        .engineer 1 { recv := [[0, 0, 0, 1]] },
        .engineer 1
          { recv := [({ factoryId := 0, committedIndex := 1 } : LogRequest).marshal .little] }]
      (by decide +kernel)
  · exact hclient.exists_of_runBy (P := fun c => c.pc = .fault)
      [{}, { answers := { send := [4] } }, { answers := { recv := [[0, 0, 0, 4]] } },
        { answers := { recv := [[0, 0, 0, 1]] } }] (by decide +kernel)

end LaptopPaxos
