import LaptopPaxos.Servers
import LaptopPaxos.Wiring

/-!
# What an engineer does with a parcel

Once the boundaries of the messages are known (`Conn.Heard`), the bytes can be forgotten:
a step of an engineer sends a parcel, handles the next one (`handle`), or closes its end
(`EngineerMove`).
-/

namespace LaptopPaxos

open LaptopFactory Reader

/-- What the engineer `e` does with a parcel that it has received. -/
def handle (e : ℤ) (f : LaptopFactory) : SessionPc → Parcel → LaptopFactory × SessionPc
  | .identity, .word identity => (f, onIdentity identity)
  | .request, .message (.customerRequest request) => onRequest f e request
  | .logRequest, .message (.logRequest logReq) => onLogRequest f logReq
  | .acceptor, .message (.paxosMsg msg) => onAcceptorMsg f msg
  | .learner, .message (.paxosMsg msg) => onLearnerMsg f msg
  | pc, _ => (f, pc)

/-- The engineer has no request of a customer in hand. -/
def SessionPc.Free : SessionPc → Prop
  | .order | .laptop _ | .record _ => False
  | _ => True

/-- What it comes to if the engineer `e` handles the parcel `p`: the factory, and where the
    engineer goes on. -/
inductive Handled (e : ℤ) (f : LaptopFactory) (p : Parcel) : LaptopFactory × SessionPc → Prop
  | order {q} : p = .message (.customerRequest q) →
      Handled e f p (f.createRegularLaptop q e, .order)
  | record {q} : p = .message (.customerRequest q) →
      Handled e f p (f, .record (f.createCustomerRecord q))
  | acceptor {m} {pc : SessionPc} : pc.Free → Handled e f p ((f.acceptorEngineer m).1, pc)
  | learner {m} {pc : SessionPc} : pc.Free → p = .message (.paxosMsg m) →
      Handled e f p (f.learnerEngineer m, pc)
  | free {pc : SessionPc} : pc.Free → Handled e f p (f, pc)

/-- The direction to the engineer is sound, and the engineer is where a session of this
    role is. -/
structure Conn.Heard (o : ByteOrder) (isOpen : Bool) (role : Role) (k : Conn) : Prop where
  up : k.up.Sound (Parcel.marshal o) isOpen k.engineer.isInitialized
  plan : k.up.Follows role.Up
  engineer : role.At k.up.decoded.length k.down.sent.length k.engineer.pc

/-- A step of an engineer, with the connection after it; `o` is the order of the host at the
    other end. -/
inductive EngineerMove (o : ByteOrder) (s : ByteOrder) (role : Role) (e : ℤ) (f : LaptopFactory)
    (fut : Option LaptopInfo) (k : Conn) (r : EngineerEffect) : Conn → Prop
  | send {p} {t : Transfer} : k.engineer.pc.parcel f = some p → r.factory = f →
      (p.size < 2147483648 → (t.ok = true → t.bytes = p.marshal s) ∧
        (t.ok = false → t.bytes.length < (p.marshal s).length)) →
      (k.engineer.isInitialized = false → t.bytes = []) →
      r.engineer = ⟨k.engineer.pc.sent, k.engineer.isInitialized && t.ok⟩ →
      EngineerMove o s role e f fut k r
        { k with engineer := r.engineer, down := k.down.push p.narrow t.bytes }
  | handle {p} : k.engineer.isInitialized = true → k.up.pending.head? = some p →
      p.marshal o <+: k.up.flight → role.Up k.up.decoded.length p →
      k.engineer.pc.kind = some p.kind →
      r.factory = (handle e f k.engineer.pc p).1 →
      r.engineer = ⟨(LaptopPaxos.handle e f k.engineer.pc p).2, true⟩ →
      EngineerMove o s role e f fut k r
        { k with
          engineer := r.engineer
          up := k.up.pull (p.marshal o).length (some (some p)) }
  | fail {n : ℕ} {kd : Parcel.Kind} : r.factory = f → r.engineer = ⟨.leave, false⟩ →
      k.engineer.pc.kind = some kd →
      EngineerMove o s role e f fut k r
        { k with engineer := r.engineer, up := k.up.pull n none }
  | wake {laptop} : k.engineer.pc = .order → fut = some laptop → r.factory = f →
      r.engineer = { k.engineer with pc := .laptop laptop } →
      EngineerMove o s role e f fut k r { k with engineer := r.engineer }
  | leave : k.engineer.pc = .leave → r.factory = f → r.engineer = ⟨.gone, false⟩ →
      EngineerMove o s role e f fut k r { k with engineer := r.engineer }

section

variable {H : Hosts} {o s : ByteOrder} {isOpen : Bool} {role : Role} {c : Client} {k : Conn}
  {e : ℤ} {f : LaptopFactory} {fut : Option LaptopInfo} {answers : Answers} {r : EngineerEffect}
  {p : Parcel} {pc : SessionPc} {bs : List UInt8} {E : ClientEnd}

theorem SessionPc.Free.ne (h : pc.Free) : pc ≠ .order ∧ ∀ l, pc ≠ .laptop l := by
  refine ⟨?_, fun l => ?_⟩ <;> rintro rfl <;> exact h

/-- The cases of `handle`. Nobody sends a log request. -/
theorem handle_cases (hlog : ∀ q, p ≠ .message (.logRequest q)) (hk : pc.kind = some p.kind) :
    Handled e f p (handle e f pc p) := by
  rw [handle.eq_def]
  split
  · next identity =>
    refine .free ?_
    rw [onIdentity]
    split_ifs <;> trivial
  · next q =>
    rw [onRequest, LaptopFactory.customerEngineer]
    by_cases hv : q.isValid
    · rw [if_neg (not_not.2 hv), if_neg (not_not.2 hv)]
      split_ifs
      · exact .order rfl
      · exact .record rfl
      · exact .free (show SessionPc.request.Free from trivial)
    · rw [if_pos hv, if_pos hv]
      exact .free (show SessionPc.leave.Free from trivial)
  · exact absurd rfl (hlog _)
  · next m =>
    rw [onAcceptorMsg]
    split_ifs
    · exact .free trivial
    · refine .acceptor ?_
      cases (f.acceptorEngineer m).2 <;> trivial
  · next m =>
    rw [onLearnerMsg]
    split_ifs
    · exact .free trivial
    · exact .learner trivial rfl
  · refine .free ?_
    cases pc <;> trivial

/-- No role has log requests. -/
theorem Role.Up.not_logRequest {d : ℕ} (h : role.Up d p) (q : LogRequest) :
    p ≠ .message (.logRequest q) := by
  rintro rfl
  cases role <;> cases d
  case customer.succ =>
    obtain ⟨q, heq, -⟩ := h
    cases heq
  case acceptor.succ | learner.succ =>
    obtain ⟨m, heq, -⟩ := h
    cases heq
  all_goals cases h

theorem Conn.Called.heard (h : k.Called H o isOpen c) :
    k.Heard o isOpen (.customer c.requestType) :=
  ⟨h.up, h.upRole, h.engineer⟩

theorem Conn.Inv.heard (h : k.Inv H E) : k.Heard E.order E.isOpen E.role :=
  ⟨h.up, h.upPlan, h.engineer⟩

/-- What is decoded is handled. -/
theorem received_of_decode (hk : pc.kind = some p.kind)
    (hdec : Parcel.decode o p.kind bs = some p) :
    received o e f (some bs) pc = handle e f pc p := by
  cases p with
  | word v =>
    obtain ⟨q, hq, heq⟩ := Option.map_eq_some_iff.1 hdec
    obtain rfl : q.1 = v := Parcel.word.inj heq
    cases pc <;> cases hk
    exact congrArg (Option.elim · (f, .fault) fun identity => (f, onIdentity identity))
      (congrArg (Option.map Prod.fst) hq)
  | message m =>
    cases m <;> cases pc <;> cases hk
    case message.customerRequest.request.refl q =>
      rw [received, messageOf_of_decode (fun _ _ => Message.customerRequest.inj) hdec]
      rfl
    case message.logRequest.logRequest.refl q =>
      rw [received, messageOf_of_decode (fun _ _ => Message.logRequest.inj) hdec]
      rfl
    case message.paxosMsg.acceptor.refl m =>
      rw [received, messageOf_of_decode (fun _ _ => Message.paxosMsg.inj) hdec]
      rfl
    case message.paxosMsg.learner.refl m =>
      rw [received, messageOf_of_decode (fun _ _ => Message.paxosMsg.inj) hdec]
      rfl

/-- A step of an engineer whose messages are framed. -/
theorem EngineerStep.move (hst : EngineerStep s e f fut answers k.engineer r)
    (h : k.Heard o isOpen role)
    (hu : ∀ u ∈ k.engineer.pc.use f r.transfer,
      u.Allowed k.engineer.isInitialized k.up.flight) :
    EngineerMove o s role e f fut k r
      { k.useEngineer s (k.engineer.pc.use f r.transfer) with engineer := r.engineer } := by
  cases hst with
  | @send buffer size t hout ht =>
    rw [SessionPc.outgoing_eq] at hout
    obtain ⟨p, hp, heq⟩ := Option.map_eq_some_iff.1 hout
    cases heq
    rw [SessionPc.use_of_parcel hp] at hu ⊢
    exact .send hp rfl (fun hsize => ⟨(Parcel.bytes_of_send hsize ht).2,
      Parcel.length_of_send hsize ht⟩) (hu _ rfl) rfl
  | @recv size t hwants ht =>
    obtain ⟨kd, hk⟩ := Option.isSome_iff_exists.1
      ((SessionPc.isSome_kind _).2 (Option.isSome_of_eq_some hwants))
    rw [SessionPc.use_of_kind hk] at hu ⊢
    rcases Bool.eq_false_or_eq_true t.ok with hok | hok
    · obtain ⟨hopen, p, hp, hbytes, rfl, hdec⟩ :=
        nextUp_of_sound h.up h.plan h.engineer hk hwants (hu _ rfl) ht hok
      have hpull : (Use.recv p.kind t).into s k.up =
          k.up.pull t.bytes.length (some (some p)) := Use.into_ok hok (hdec _)
      have hpre := (hu _ rfl).1
      have hreceived := received_of_decode (e := e) (f := f) hk (hdec s)
      rw [hbytes] at hpre hreceived hpull
      rw [Conn.useEngineer, hpull, if_pos hok, hbytes]
      exact .handle hopen hp hpre (h.plan.head hp) hk (congrArg Prod.fst hreceived)
        (congrArg₂ Engineer.mk (congrArg Prod.snd hreceived) (by rw [hopen, hok]; rfl))
    · have hpull : (Use.recv kd t).into s k.up = k.up.pull t.bytes.length none :=
        Use.into_fail hok
      rw [Conn.useEngineer, hpull, hok, if_neg Bool.false_ne_true, Bool.and_false,
        received_none (by rw [hwants]; exact Option.some_ne_none _)]
      exact .fail rfl rfl hk
  | @wake laptop hpc hfut =>
    have hnone : k.engineer.pc.use f {} = none := by rw [hpc]; rfl
    rw [hnone]
    exact .wake hpc hfut rfl rfl
  | leave hpc =>
    have hnone : ∀ t, k.engineer.pc.use f t = none := fun t => by rw [hpc]; rfl
    rw [hnone]
    exact .leave hpc rfl rfl

end

/-- In every run. -/
theorem Net.Regular.heard {H : Hosts} {s : Net} {ℓ : Link} {k : Conn} (h : s.Regular H)
    (hk : s.conn ℓ = some k) :
    k.Heard (s.clientEnd H ℓ).order (s.isOpen ℓ) (s.clientEnd H ℓ).role := by
  cases ℓ with
  | customer c n => exact (h.line c n k hk).called.heard
  | acceptor i a => exact (h.servers.conn (.acceptor i a) k hk).heard
  | learner i a => exact (h.servers.conn (.learner i a) k hk).heard

end LaptopPaxos
