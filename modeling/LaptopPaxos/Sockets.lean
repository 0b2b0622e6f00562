import LaptopPaxos.Lib.Bytes

/-!
# Sockets

The members of `Socket` that work on a descriptor: `Send`, `Recv` and `Close`
with the system calls that they make. What the system calls return is an
argument; there is no result while one of them blocks. A call never handles
more bytes than it is asked to.

`Close` makes its calls whether the socket is open or not, and the destructor
only if it is.
-/

namespace LaptopPaxos

/-- The system calls on a descriptor. -/
inductive Syscall
  | send
  | recv
  | shutdown
  | close
  deriving DecidableEq, Repr

/-- What the system calls on a socket return, one after the other: the numbers
    of bytes sent, negative on a failure, and the bytes received, none of them
    at the end of the stream or on a failure. -/
structure Answers where
  send : List ℤ := []
  recv : List (List UInt8) := []
  deriving DecidableEq

/-- What `Send` or `Recv` has done. -/
structure Transfer where
  /-- The result: `1` on success, `0` after a failure. -/
  ok : Bool := true
  /-- The bytes that the system has taken or given. -/
  bytes : List UInt8 := []
  calls : List Syscall := []
  deriving DecidableEq

/-- A size converted to `int`. -/
def intOfSize (n : ℕ) : ℤ := (BitVec.ofNat 32 n).toInt

theorem intOfSize_eq {size : ℕ} (h : size < 2147483648) : intOfSize size = size := by
  rw [intOfSize, BitVec.toInt_ofNat']
  exact Int.bmod_eq_of_le (m := 4294967296) (by omega) (by omega)

namespace Socket

def close : List Syscall := [.shutdown, .close]

/-- The destructor. -/
def destroy (isInitialized : Bool) : List Syscall := if isInitialized then close else []

def send : List ℤ → List UInt8 → ℤ → Option Transfer
  | [], _, size => if 0 < size then none else some {}
  | bytesWritten :: answers, buffer, size =>
    if 0 < size then
      if bytesWritten < 0 then some { ok := false, calls := .send :: close }
      else if bytesWritten ≤ size then
        (send answers (buffer.drop bytesWritten.toNat) (size - bytesWritten)).map fun t =>
          { t with
            bytes := buffer.take bytesWritten.toNat ++ t.bytes
            calls := .send :: t.calls }
      else none
    else some {}

def recv : List (List UInt8) → ℤ → Option Transfer
  | [], size => if 0 < size then none else some {}
  | bytesRead :: answers, size =>
    if 0 < size then
      if bytesRead = [] then some { ok := false, calls := .recv :: close }
      else if bytesRead.length ≤ size then
        (recv answers (size - bytesRead.length)).map fun t =>
          { t with bytes := bytesRead ++ t.bytes, calls := .recv :: t.calls }
      else none
    else some {}

variable {answers : List ℤ} {chunks : List (List UInt8)} {buffer : List UInt8} {size : ℤ}
  {t : Transfer}

/-! ### Bytes -/

/-- `Send` succeeds if the whole buffer has gone out; before a failure it is
    less than that. -/
theorem bytes_of_send (h : send answers buffer size = some t) (hsize : size ≤ buffer.length) :
    t.bytes <+: buffer ∧ (t.ok = true → t.bytes.length = size.toNat) ∧
      (t.ok = false → (t.bytes.length : ℤ) < size) := by
  induction answers generalizing buffer size t with
  | nil =>
    rw [send] at h
    split_ifs at h with hpos
    cases h
    refine ⟨List.nil_prefix, fun _ => ?_, nofun⟩
    change 0 = _
    omega
  | cons r answers ih =>
    rw [send] at h
    split_ifs at h with hpos hneg hle
    · cases h
      exact ⟨List.nil_prefix, nofun, fun _ => hpos⟩
    · obtain ⟨t, ht, rfl⟩ := Option.map_eq_some_iff.1 h
      obtain ⟨hpre, hok, hfail⟩ := ih ht (by rw [List.length_drop]; omega)
      have hlen : (buffer.take r.toNat).length = r.toNat := by
        rw [List.length_take]
        omega
      refine ⟨?_, fun ht => ?_, fun ht => ?_⟩
      · have := (List.prefix_append_right_inj (buffer.take r.toNat)).2 hpre
        rwa [List.take_append_drop] at this
      · rw [List.length_append, hlen, hok ht]
        omega
      · have hlt := hfail ht
        rw [List.length_append, hlen]
        push_cast
        omega
    · cases h
      refine ⟨List.nil_prefix, fun _ => ?_, nofun⟩
      change 0 = _
      omega

/-- `Recv` succeeds if it has received as many bytes as asked for. -/
theorem bytes_of_recv (h : recv chunks size = some t) :
    (t.ok = true → t.bytes.length = size.toNat) ∧
      (t.ok = false → (t.bytes.length : ℤ) < size) := by
  induction chunks generalizing size t with
  | nil =>
    rw [recv] at h
    split_ifs at h with hpos
    cases h
    refine ⟨fun _ => ?_, nofun⟩
    change 0 = _
    omega
  | cons chunk chunks ih =>
    rw [recv] at h
    split_ifs at h with hpos hnil hle
    · cases h
      exact ⟨nofun, fun _ => hpos⟩
    · obtain ⟨t, ht, rfl⟩ := Option.map_eq_some_iff.1 h
      obtain ⟨hok, hfail⟩ := ih ht
      refine ⟨fun ht => ?_, fun ht => ?_⟩
      · rw [List.length_append, hok ht]
        omega
      · have hlt := hfail ht
        rw [List.length_append]
        push_cast
        omega
    · cases h
      refine ⟨fun _ => ?_, nofun⟩
      change 0 = _
      omega

/-- `Send` fails only if a system call does. -/
theorem ok_of_send (h : send answers buffer size = some t) (hn : ∀ n ∈ answers, 0 ≤ n) :
    t.ok = true := by
  induction answers generalizing buffer size t with
  | nil =>
    rw [send] at h
    split_ifs at h
    cases h
    rfl
  | cons r answers ih =>
    obtain ⟨hr, hn⟩ := List.forall_mem_cons.1 hn
    rw [send] at h
    split_ifs at h
    · omega
    · obtain ⟨t, ht, rfl⟩ := Option.map_eq_some_iff.1 h
      have hok := ih ht hn
      exact hok
    · cases h
      rfl

/-- `Recv` fails only if a system call does, or at the end of the stream. -/
theorem ok_of_recv (h : recv chunks size = some t) (hn : [] ∉ chunks) : t.ok = true := by
  induction chunks generalizing size t with
  | nil =>
    rw [recv] at h
    split_ifs at h
    cases h
    rfl
  | cons chunk chunks ih =>
    rw [List.mem_cons, not_or] at hn
    rw [recv] at h
    split_ifs at h with hpos hnil
    · exact absurd hnil.symm hn.1
    · obtain ⟨t, ht, rfl⟩ := Option.map_eq_some_iff.1 h
      have hok := ih ht hn.2
      exact hok
    · cases h
      rfl

/-! ### System calls -/

/-- The calls of `Send` and `Recv`: some on the open descriptor, and after a
    failure those of `Close`. -/
def IsTransfer (c : Syscall) (t : Transfer) : Prop :=
  ∃ n, t.calls = List.replicate n c ++ if t.ok then [] else close

theorem IsTransfer.cons {c : Syscall} (h : IsTransfer c t) (bytes : List UInt8) :
    IsTransfer c { t with bytes := bytes, calls := c :: t.calls } := by
  obtain ⟨n, hn⟩ := h
  exact ⟨n + 1, by rw [List.replicate_succ, List.cons_append, hn]⟩

theorem isTransfer_send (h : send answers buffer size = some t) : IsTransfer .send t := by
  induction answers generalizing buffer size t with
  | nil =>
    rw [send] at h
    split_ifs at h
    cases h
    exact ⟨0, rfl⟩
  | cons r answers ih =>
    rw [send] at h
    split_ifs at h
    · cases h
      exact ⟨1, rfl⟩
    · obtain ⟨t, ht, rfl⟩ := Option.map_eq_some_iff.1 h
      exact (ih ht).cons _
    · cases h
      exact ⟨0, rfl⟩

theorem isTransfer_recv (h : recv chunks size = some t) : IsTransfer .recv t := by
  induction chunks generalizing size t with
  | nil =>
    rw [recv] at h
    split_ifs at h
    cases h
    exact ⟨0, rfl⟩
  | cons chunk chunks ih =>
    rw [recv] at h
    split_ifs at h
    · cases h
      exact ⟨1, rfl⟩
    · obtain ⟨t, ht, rfl⟩ := Option.map_eq_some_iff.1 h
      exact (ih ht).cons _
    · cases h
      exact ⟨0, rfl⟩

end Socket

end LaptopPaxos
