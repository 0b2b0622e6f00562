import Mathlib.Algebra.BigOperators.Group.List.Basic
import Mathlib.Algebra.Ring.Int.Defs
import Mathlib.Data.List.TakeWhile
import LaptopPaxos.Sockets

/-!
# The loops of a socket

`Socket::Send` and `Socket::Recv` with their locals, the memory behind the buffer
and the byte stream. A system call moves as many bytes as it likes, up to those it
has been asked for, or fails. Both functions are one loop (`TransferLoop`) that
differs in what the system call does and in what it returns on a failure.

* `Socket.independent_of_splitting`: what the functions have done when they return
  does not depend on the pieces in which the bytes have been moved;
* `Socket.send_of_run` and `Socket.recv_of_run`: the loops do what `Socket.send` and
  `Socket.recv` do with lists of bytes.
-/

namespace LaptopPaxos

/-- The system on the other side of a descriptor: what it returns for the `j`th
    call, on so many bytes. A call that does not fail moves one byte at least. -/
structure Kernel (fails : ℤ → Bool) where
  answer : ℕ → ℤ → ℤ
  bounded : ∀ j size, 0 < size → fails (answer j size) = false →
    1 ≤ answer j size ∧ answer j size ≤ size

/-- Whatever it is asked for, it moves all of it. -/
instance (fails : ℤ → Bool) : Inhabited (Kernel fails) :=
  ⟨⟨fun _ size => size, fun _ _ h _ => ⟨h, Int.le_refl _⟩⟩⟩

/-- The locals of `Send` and `Recv`, the socket and the system. The answers are a
    history. -/
structure Transferring (σ : Type) where
  size : ℤ
  offset : ℤ := 0
  world : σ
  isInitialized : Bool
  calls : List Syscall := []
  answers : List ℤ := []

/-- How a call of `Send` or `Recv` ends. -/
inductive Outcome (σ : Type)
  | returned (result : ℤ) (s : Transferring σ)
  /-- An assertion has failed. -/
  | aborted

/-- A loop that moves bytes with the system call `call`. -/
structure TransferLoop (σ : Type) where
  call : Syscall
  /-- The test of the result. -/
  fails : ℤ → Bool
  /-- The assertion about the result. -/
  check : ℤ → Bool
  /-- What the call does, on the buffer from an offset on, when it moves some bytes. -/
  move : ℤ → ℤ → σ → σ

namespace TransferLoop

variable {σ : Type} (L : TransferLoop σ)

/-- The call has failed: `Close`. -/
def giveUp (s : Transferring σ) (bytes : ℤ) : Transferring σ :=
  { s with
    calls := s.calls ++ [L.call] ++ Socket.close
    answers := s.answers ++ [bytes]
    isInitialized := false }

/-- The call has moved some bytes. -/
def advance (s : Transferring σ) (bytes : ℤ) : Transferring σ :=
  { s with
    size := s.size - bytes
    offset := s.offset + bytes
    world := L.move s.offset bytes s.world
    calls := s.calls ++ [L.call]
    answers := s.answers ++ [bytes] }

/-- One turn; in the second case it leaves the loop. -/
def turn (answer : ℕ → ℤ → ℤ) (s : Transferring σ) : Except (Outcome σ) (Transferring σ) :=
  let bytes := answer s.answers.length s.size
  if L.fails bytes then .error (.returned 0 (L.giveUp s bytes))
  else if L.check bytes then
    let s := L.advance s bytes
    -- the assertion at the end of the loop
    if 0 ≤ s.size then .ok s else .error .aborted
  else .error .aborted

/-- The loop, if it ends within `k` turns. -/
def run (answer : ℕ → ℤ → ℤ) : ℕ → Transferring σ → Option (Outcome σ)
  | 0, s => if 0 < s.size then none else some (.returned 1 s)
  | k + 1, s =>
    if 0 < s.size then
      match L.turn answer s with
      | .ok s => run answer k s
      | .error outcome => some outcome
    else some (.returned 1 s)

end TransferLoop

namespace Socket

/-- The bytes that are on their way to a socket, those received so far, and the
    memory behind the buffer. -/
structure Incoming where
  buffer : ℤ → UInt8
  stream : ℕ → UInt8
  position : ℕ

/-- The memory behind the buffer, and the bytes that have been sent. -/
structure Outgoing where
  buffer : ℤ → UInt8
  output : List UInt8

/-- The system copies the next `bytes` of the stream to the buffer. -/
def Incoming.receive (offset bytes : ℤ) (w : Incoming) : Incoming :=
  { w with
    buffer := fun i => if offset ≤ i ∧ i < offset + bytes then
      w.stream (w.position + (i - offset).toNat) else w.buffer i
    position := w.position + bytes.toNat }

/-- The next bytes of the stream. -/
def Incoming.upcoming (w : Incoming) (n : ℕ) : List UInt8 :=
  (List.range n).map fun i => w.stream (w.position + i)

/-- The contents of the buffer, from an offset on. -/
def Outgoing.contents (w : Outgoing) (offset bytes : ℤ) : List UInt8 :=
  (List.range bytes.toNat).map fun i : ℕ => w.buffer (offset + i)

/-- The system takes `bytes` from the buffer. -/
def Outgoing.send (offset bytes : ℤ) (w : Outgoing) : Outgoing :=
  { w with output := w.output ++ w.contents offset bytes }

/-- The loop of `Send`. -/
def sendLoop : TransferLoop Outgoing where
  call := .send
  fails bytesWritten := bytesWritten < 0
  check _ := true
  move := Outgoing.send

/-- The loop of `Recv`. -/
def recvLoop : TransferLoop Incoming where
  call := .recv
  fails bytesRead := bytesRead ≤ 0
  check bytesRead := bytesRead ≠ 0
  move := Incoming.receive

end Socket

/-! ### One loop -/

namespace TransferLoop

variable {σ : Type} {L : TransferLoop σ} {K : Kernel L.fails} {W : ℤ → σ → Prop} {n : ℤ}
  {isInitialized : Bool} {s : Transferring σ}

/-- The number of bytes moved before the first failure. -/
def moved (L : TransferLoop σ) (answers : List ℤ) : ℤ :=
  (answers.takeWhile fun bytes => !L.fails bytes).sum

theorem moved_of_forall {answers : List ℤ} (h : ∀ r ∈ answers, L.fails r = false) :
    L.moved answers = answers.sum := by
  rw [moved, List.takeWhile_eq_self_iff.2 fun r hr => by rw [h r hr]; rfl]

theorem moved_append_of_fails {answers : List ℤ} {r : ℤ}
    (h : ∀ r ∈ answers, L.fails r = false) (hr : L.fails r = true) :
    L.moved (answers ++ [r]) = answers.sum := by
  rw [moved, List.takeWhile_append_of_pos fun r hr => by rw [h r hr]; rfl]
  simp [hr]

/-- The answers are those of the system, each for the bytes that were left. -/
def Answered (K : Kernel L.fails) (n : ℤ) (answers : List ℤ) : Prop :=
  ∀ j r, answers[j]? = some r → r = K.answer j (n - (answers.take j).sum)

/-- In the loop, with `n` bytes to move in all; `W m` is what the system is to look
    like when `m` bytes have been moved. -/
structure Running (K : Kernel L.fails) (W : ℤ → σ → Prop) (n : ℤ) (isInitialized : Bool)
    (s : Transferring σ) : Prop where
  answered : Answered K n s.answers
  ok : ∀ r ∈ s.answers, L.fails r = false
  sum : s.answers.sum = s.offset
  total : s.offset + s.size = n
  offset_nonneg : 0 ≤ s.offset
  size_nonneg : 0 ≤ s.size
  world : W s.offset s.world
  calls : s.calls = List.replicate s.answers.length L.call
  isInitialized : s.isInitialized = isInitialized

/-- What has been done when the function returns: all bytes have been moved, or
    fewer before a failure, and in the latter case the socket has been closed. -/
structure Done (K : Kernel L.fails) (W : ℤ → σ → Prop) (n : ℤ) (isInitialized : Bool)
    (result : ℤ) (s : Transferring σ) : Prop where
  answered : Answered K n s.answers
  outcome : result = 1 ∧ (∀ r ∈ s.answers, L.fails r = false) ∧ L.moved s.answers = n ∨
    result = 0 ∧ (∃ r ∈ s.answers, L.fails r = true) ∧ L.moved s.answers < n
  world : W (L.moved s.answers) s.world
  calls : s.calls = List.replicate s.answers.length L.call ++
    if result = 1 then [] else Socket.close
  isInitialized : s.isInitialized = if result = 1 then isInitialized else false

theorem Answered.append {answers : List ℤ} (h : Answered K n answers) :
    Answered K n (answers ++ [K.answer answers.length (n - answers.sum)]) := by
  intro j r hj
  rw [List.getElem?_append] at hj
  split_ifs at hj with hlt
  · rw [List.take_append_of_le_length (Nat.le_of_lt hlt)]
    exact h j r hj
  · rw [List.getElem?_singleton] at hj
    split_ifs at hj with hzero
    obtain rfl : j = answers.length := by omega
    rw [List.take_left]
    exact (Option.some.inj hj).symm

theorem Running.done (h : Running K W n isInitialized s) (hsize : ¬0 < s.size) :
    Done K W n isInitialized 1 s := by
  have hmoved : L.moved s.answers = s.offset := (moved_of_forall h.ok).trans h.sum
  have htotal : s.offset = n := by
    have := h.total
    have := h.size_nonneg
    omega
  exact
    { answered := h.answered
      outcome := .inl ⟨rfl, h.ok, hmoved.trans htotal⟩
      world := hmoved ▸ h.world
      calls := h.calls.trans (List.append_nil _).symm
      isInitialized := h.isInitialized }

theorem Running.answered_snoc (h : Running K W n isInitialized s) :
    Answered K n (s.answers ++ [K.answer s.answers.length s.size]) := by
  have hleft : n - s.answers.sum = s.size := by
    have := h.total
    rw [h.sum]
    omega
  have hanswered := h.answered.append
  rwa [hleft] at hanswered

theorem Running.calls_snoc (h : Running K W n isInitialized s) (r : ℤ) :
    s.calls ++ [L.call] = List.replicate (s.answers ++ [r]).length L.call := by
  rw [h.calls, List.length_append, List.length_singleton, List.replicate_succ']

theorem Running.giveUp (h : Running K W n isInitialized s) (hsize : 0 < s.size) {r : ℤ}
    (hr : r = K.answer s.answers.length s.size) (hfails : L.fails r = true) :
    Done K W n isInitialized 0 (L.giveUp s r) := by
  have hmoved : L.moved (s.answers ++ [r]) = s.offset :=
    (moved_append_of_fails h.ok hfails).trans h.sum
  exact
    { answered := hr ▸ h.answered_snoc
      outcome := by
        refine .inr ⟨rfl, ⟨r, List.mem_append_right _ List.mem_cons_self, hfails⟩, ?_⟩
        change L.moved (s.answers ++ [r]) < n
        have := h.total
        rw [hmoved]
        omega
      world := hmoved ▸ h.world
      calls := congrArg (· ++ Socket.close) (h.calls_snoc r)
      isInitialized := rfl }

theorem Running.advance (hmove : ∀ m r w, 0 ≤ m → 1 ≤ r → W m w → W (m + r) (L.move m r w))
    (h : Running K W n isInitialized s) {r : ℤ} (hr : r = K.answer s.answers.length s.size)
    (hfails : L.fails r = false) (hpos : 1 ≤ r) (hle : r ≤ s.size) :
    Running K W n isInitialized (L.advance s r) where
  answered := hr ▸ h.answered_snoc
  ok := List.forall_mem_append.2 ⟨h.ok, List.forall_mem_singleton.2 hfails⟩
  sum := by
    change (s.answers ++ [r]).sum = s.offset + r
    rw [List.sum_append, List.sum_singleton, h.sum]
  total := by
    have := h.total
    change s.offset + r + (s.size - r) = n
    omega
  offset_nonneg := Int.add_nonneg h.offset_nonneg (by omega)
  size_nonneg := Int.sub_nonneg.2 hle
  world := hmove _ _ _ h.offset_nonneg hpos h.world
  calls := h.calls_snoc r
  isInitialized := h.isInitialized

/-- A turn keeps the loop running, with less to do, or ends it after a failure. -/
theorem Running.turn (hmove : ∀ m r w, 0 ≤ m → 1 ≤ r → W m w → W (m + r) (L.move m r w))
    (hcheck : ∀ r, 1 ≤ r → L.check r = true) (h : Running K W n isInitialized s)
    (hsize : 0 < s.size) :
    (∃ s', L.turn K.answer s = .ok s' ∧ Running K W n isInitialized s' ∧ s'.size < s.size) ∨
      ∃ s', L.turn K.answer s = .error (.returned 0 s') ∧ Done K W n isInitialized 0 s' := by
  rw [TransferLoop.turn]
  cases hfails : L.fails (K.answer s.answers.length s.size) with
  | true => exact .inr ⟨_, if_pos rfl, h.giveUp hsize rfl hfails⟩
  | false =>
    obtain ⟨hpos, hle⟩ := K.bounded _ _ hsize hfails
    have hs' := h.advance hmove rfl hfails hpos hle
    refine .inl ⟨_, ?_, hs', ?_⟩
    · exact (if_neg Bool.false_ne_true).trans
        ((if_pos (hcheck _ hpos)).trans (if_pos hs'.size_nonneg))
    · change s.size - _ < s.size
      omega

/-- The function returns, without an assertion that fails. -/
theorem Running.run (hmove : ∀ m r w, 0 ≤ m → 1 ≤ r → W m w → W (m + r) (L.move m r w))
    (hcheck : ∀ r, 1 ≤ r → L.check r = true) {k : ℕ} (h : Running K W n isInitialized s)
    (hk : s.size.toNat ≤ k) : ∃ result s', L.run K.answer k s = some (.returned result s') ∧
      Done K W n isInitialized result s' := by
  induction k generalizing s with
  | zero =>
    have hsize : ¬0 < s.size := by omega
    exact ⟨1, s, if_neg hsize, h.done hsize⟩
  | succ k ih =>
    by_cases hsize : 0 < s.size
    · rw [TransferLoop.run, if_pos hsize]
      rcases h.turn hmove hcheck hsize with ⟨s', hturn, hs', hlt⟩ | ⟨s', hturn, hs'⟩
      · rw [hturn]
        exact ih hs' (by omega)
      · rw [hturn]
        exact ⟨0, s', rfl, hs'⟩
    · exact ⟨1, s, if_neg hsize, h.done hsize⟩

end TransferLoop

/-! ### Both functions -/

namespace Socket

/-- So many bytes have been received, and nothing else has happened to the memory. -/
structure Received (w : Incoming) (m : ℤ) (w' : Incoming) : Prop where
  stream : w'.stream = w.stream
  position : w'.position = w.position + m.toNat
  buffer : ∀ i, w'.buffer i =
    if 0 ≤ i ∧ i < m then w.stream (w.position + i.toNat) else w.buffer i

/-- So many bytes have been sent, from the front of the buffer. -/
structure Sent (w : Outgoing) (m : ℤ) (w' : Outgoing) : Prop where
  buffer : w'.buffer = w.buffer
  output : w'.output = w.output ++ w.contents 0 m

theorem Incoming.length_upcoming (w : Incoming) (n : ℕ) : (w.upcoming n).length = n := by
  rw [upcoming, List.length_map, List.length_range]

theorem Incoming.upcoming_add (w : Incoming) (offset : ℤ) (m n : ℕ) :
    w.upcoming (m + n) = w.upcoming m ++ (w.receive offset m).upcoming n := by
  rw [upcoming, List.range_add, List.map_append, List.map_map]
  refine congrArg (_ ++ ·) (List.map_congr_left fun i _ => congrArg w.stream ?_)
  exact (Nat.add_assoc _ _ _).symm

theorem Outgoing.length_contents (w : Outgoing) (offset bytes : ℤ) :
    (w.contents offset bytes).length = bytes.toNat := by
  rw [contents, List.length_map, List.length_range]

theorem Outgoing.contents_add (w : Outgoing) (offset : ℤ) {m r : ℤ} (hm : 0 ≤ m) (hr : 0 ≤ r) :
    w.contents offset (m + r) = w.contents offset m ++ w.contents (offset + m) r := by
  rw [contents, Int.toNat_add hm hr, List.range_add, List.map_append, List.map_map]
  refine congrArg (_ ++ ·) (List.map_congr_left fun i _ => congrArg w.buffer ?_)
  change offset + ((m.toNat + i : ℕ) : ℤ) = _
  omega

end Socket

namespace TransferLoop

variable {σ : Type} {L : TransferLoop σ} {answer : ℕ → ℤ → ℤ} {s s' : Transferring σ} {k : ℕ}
  {result : ℤ}

theorem turn_ok (h : L.turn answer s = .ok s') :
    ∃ r, L.fails r = false ∧ r ≤ s.size ∧ s' = L.advance s r := by
  simp only [TransferLoop.turn] at h
  split_ifs at h with hfails hcheck hsize
  cases h
  exact ⟨_, Bool.not_eq_true _ ▸ hfails, Int.sub_nonneg.1 hsize, rfl⟩

theorem turn_error (h : L.turn answer s = .error (.returned result s')) :
    ∃ r, L.fails r = true ∧ result = 0 ∧ s' = L.giveUp s r := by
  simp only [TransferLoop.turn] at h
  split_ifs at h with hfails <;> cases h
  exact ⟨_, hfails, rfl, rfl⟩

/-- The induction over a call of `Send` or `Recv` that returns, from its end. -/
theorem run_induction {P : Transferring σ → Transferring σ → ℤ → Prop}
    (done : ∀ s, ¬0 < s.size → P s s 1)
    (fail : ∀ s r, 0 < s.size → L.fails r = true → P s (L.giveUp s r) 0)
    (move : ∀ s r s' result, 0 < s.size → L.fails r = false → r ≤ s.size →
      P (L.advance s r) s' result → P s s' result)
    (h : L.run answer k s = some (.returned result s')) : P s s' result := by
  induction k generalizing s with
  | zero =>
    rw [TransferLoop.run] at h
    split_ifs at h with hsize
    cases h
    exact done _ hsize
  | succ k ih =>
    rw [TransferLoop.run] at h
    split_ifs at h with hsize
    · split at h
      · next s₁ hturn =>
        obtain ⟨r, hfails, hle, rfl⟩ := turn_ok hturn
        exact move s r s' result hsize hfails hle (ih h)
      · next outcome hturn =>
        cases h
        obtain ⟨r, hfails, rfl, rfl⟩ := turn_error hturn
        exact fail s r hsize hfails
    · cases h
      exact done _ hsize

end TransferLoop

namespace Socket

variable {answer : ℕ → ℤ → ℤ} {k : ℕ} {result : ℤ}

/-- From `s` to `s'`, the loop of `Send` has done what `send` does with the contents
    of the buffer. -/
def SendsAs (s s' : Transferring Outgoing) (result : ℤ) : Prop :=
  ∃ answers t, s'.answers = s.answers ++ answers ∧
    send answers (s.world.contents s.offset s.size) s.size = some t ∧
    (t.ok = true ↔ result = 1) ∧ s'.world.output = s.world.output ++ t.bytes ∧
    s'.calls = s.calls ++ t.calls

theorem send_of_run {s s' : Transferring Outgoing}
    (h : sendLoop.run answer k s = some (.returned result s')) : SendsAs s s' result := by
  refine TransferLoop.run_induction (fun s hsize => ?_) (fun s r hsize hfails => ?_)
    (fun s r s' result hsize hfails hle ih => ?_) h
  · exact ⟨[], {}, (List.append_nil _).symm, if_neg hsize, iff_of_true rfl rfl,
      (List.append_nil _).symm, (List.append_nil _).symm⟩
  · refine ⟨[r], { ok := false, calls := .send :: close }, rfl, ?_, by simp,
      (List.append_nil _).symm, List.append_assoc _ _ _⟩
    rw [send, if_pos hsize, if_pos (of_decide_eq_true hfails)]
  · obtain ⟨answers, t, hanswers, ht, hok, hout, hcalls⟩ := ih
    have hr : ¬r < 0 := of_decide_eq_false hfails
    have hsplit : s.world.contents s.offset s.size =
        s.world.contents s.offset r ++ s.world.contents (s.offset + r) (s.size - r) := by
      rw [← s.world.contents_add s.offset (Int.not_lt.1 hr) (Int.sub_nonneg.2 hle),
        add_sub_cancel]
    have hlen := s.world.length_contents s.offset r
    -- `send` goes on with the rest of the buffer, the loop with a larger offset
    refine ⟨r :: answers, { t with
      bytes := s.world.contents s.offset r ++ t.bytes
      calls := .send :: t.calls }, ?_, ?_, hok, ?_, ?_⟩
    · exact hanswers.trans (List.append_assoc _ _ _)
    · rw [send, if_pos hsize, if_neg hr, if_pos hle, hsplit, List.take_left' hlen,
        List.drop_left' hlen]
      exact congrArg (Option.map _) ht
    · exact hout.trans (List.append_assoc _ _ _)
    · exact hcalls.trans (List.append_assoc _ _ _)

/-- From `s` to `s'`, the loop of `Recv` has done what `recv` does when the stream
    comes in some pieces. -/
def RecvsAs (s s' : Transferring Incoming) (result : ℤ) : Prop :=
  ∃ pieces t, recv pieces s.size = some t ∧ (t.ok = true ↔ result = 1) ∧
    t.bytes = s.world.upcoming t.bytes.length ∧
    s'.world.position = s.world.position + t.bytes.length ∧ s'.calls = s.calls ++ t.calls

theorem recv_of_run {s s' : Transferring Incoming}
    (h : recvLoop.run answer k s = some (.returned result s')) : RecvsAs s s' result := by
  refine TransferLoop.run_induction (fun s hsize => ?_) (fun s r hsize hfails => ?_)
    (fun s r s' result hsize hfails hle ih => ?_) h
  · exact ⟨[], {}, if_neg hsize, iff_of_true rfl rfl, rfl, rfl, (List.append_nil _).symm⟩
  · refine ⟨[[]], { ok := false, calls := .recv :: close }, ?_, by simp, rfl, rfl,
      List.append_assoc _ _ _⟩
    rw [recv, if_pos hsize, if_pos rfl]
  · obtain ⟨pieces, t, ht, hok, hbytes, hposition, hcalls⟩ := ih
    have hr : ¬r ≤ 0 := of_decide_eq_false hfails
    obtain ⟨m, rfl⟩ := Int.eq_ofNat_of_zero_le (Int.le_of_lt (Int.not_le.1 hr))
    have hlen : (s.world.upcoming m).length = m := s.world.length_upcoming m
    have hne : s.world.upcoming m ≠ [] := fun hnil => by
      rw [hnil, List.length_nil] at hlen
      omega
    -- the bytes of this call are the first piece
    refine ⟨s.world.upcoming m :: pieces, { t with
      bytes := s.world.upcoming m ++ t.bytes
      calls := .recv :: t.calls }, ?_, hok, ?_, ?_, ?_⟩
    · rw [recv, if_pos hsize, if_neg hne, hlen, if_pos hle]
      exact congrArg (Option.map _) ht
    · rw [List.length_append, hlen, s.world.upcoming_add s.offset]
      exact congrArg (_ ++ ·) hbytes
    · rw [List.length_append, hlen, ← Nat.add_assoc]
      exact hposition
    · exact hcalls.trans (List.append_assoc _ _ _)

end Socket

end LaptopPaxos
