import LaptopPaxos.Codec
import Mathlib.Algebra.Order.BigOperators.Group.List
import Mathlib.Algebra.Order.Group.Nat

/-!
# Messages between two hosts

What a host reads from the bytes that another host has written.

* `Message.codec_round_trip`: on hosts of one order, a message is read back
  from its own bytes, whatever follows them;
* `Message.portable_iff`: between hosts of any two orders, a message is read
  back if and only if it is `Portable`. This leaves out most configurations of
  the servers, as the hosts take the length of an address for two different
  numbers.

An entry that is read wrong derails the entries behind it. Yet no accident can
put things right: all keys are read in the order of the network, so a pass that
ends with as many entries as were written has overwritten none of them, and
each must have been read right (`serversReadBack_of_run`).
-/

namespace LaptopPaxos

open Reader

/-! ### Entries -/

namespace ServerInfo

/-- The values of the fields are values of their types. -/
def Fits (info : ServerInfo) : Prop := IsByteString info.ipAddress ∧ IsInt info.portNumber

instance (info : ServerInfo) : Decidable info.Fits := inferInstanceAs (Decidable (_ ∧ _))

/-- The length of the string, as the receiver reads it. -/
def readLength (s r : ByteOrder) (info : ServerInfo) : ℕ := (r.load (s.store info.ipLength)).toNat

/-- What the receiver takes for the string ends where the string does, and
    what it takes for the port is the port in its own order; `next` is what
    lies behind the entry. -/
def ReadBack (s r : ByteOrder) (info : ServerInfo) (next : List UInt8) : Prop :=
  let tail := s.store (BitVec.ofInt 32 info.portNumber) ++ next
  let written := info.ipAddress.length
  let read := info.readLength s r
  written ≤ read ∧ read + 1 < 4294967296 ∧ (read = written ∨ tail.head? = some 0) ∧
    (tail.drop (read - written)).take 4 = r.store (BitVec.ofInt 32 info.portNumber)

instance (s r : ByteOrder) (info : ServerInfo) (next : List UInt8) :
    Decidable (info.ReadBack s r next) :=
  inferInstanceAs (Decidable (_ ∧ _ ∧ (_ ∨ _) ∧ _))

variable {s r : ByteOrder} {info info' : ServerInfo} {bs rest next : List UInt8}

theorem run_unmarshal {w : BitVec 32} :
    (unmarshal r).run (s.store w ++ bs) = some (info, rest) ↔
      (r.load (s.store w)).toNat + 1 < 4294967296 ∧ (r.load (s.store w)).toNat + 4 ≤ bs.length ∧
      info.ipAddress = bytesString (cString (bs.take (r.load (s.store w)).toNat)) ∧
      info.portNumber = (r.load ((bs.drop (r.load (s.store w)).toNat).take 4)).toInt ∧
      rest = bs.drop ((r.load (s.store w)).toNat + 4) := by
  generalize hn : (r.load (s.store w)).toNat = n
  rw [unmarshal, run_bind_of_eq_some _ (run_readWord_store w bs), hn]
  constructor
  · intro h
    obtain ⟨_, bs₁, hreq, h⟩ := (run_bind_eq_some _).1 h
    obtain ⟨tempIp, bs₂, hip, h⟩ := (run_bind_eq_some _).1 h
    obtain ⟨port, bs₃, hport, h⟩ := (run_bind_eq_some _).1 h
    obtain ⟨bytes, bs₄, hbytes, hw⟩ := (run_bind_eq_some _).1 hport
    obtain ⟨hlt, rfl⟩ := run_require_eq_some.1 hreq
    obtain ⟨hle, rfl, rfl⟩ := run_memcpy_eq_some.1 hip
    obtain ⟨hle', rfl, rfl⟩ := run_memcpy_eq_some.1 hbytes
    cases hw
    cases h
    rw [List.length_drop] at hle'
    exact ⟨hlt, by omega, rfl, rfl, List.drop_drop⟩
  · rintro ⟨hlt, hle, hip, hport, rfl⟩
    have hmem : (memcpy n).run bs = some (bs.take n, bs.drop n) :=
      run_memcpy_eq_some.2 ⟨by omega, rfl, rfl⟩
    have hword : (readWord r).run (bs.drop n) =
        some (r.load ((bs.drop n).take 4), bs.drop (n + 4)) := by
      rw [readWord, run_bind_of_eq_some _ (run_memcpy_eq_some.2 ⟨_, rfl, rfl⟩), run_pure,
        List.drop_drop]
      rw [List.length_drop]
      omega
    rw [run_bind_of_eq_some _ (run_require hlt _), run_bind_of_eq_some _ hmem,
      run_bind_of_eq_some _ hword, run_pure, ← hip, ← hport]

theorem length_marshal_le (o : ByteOrder) (info : ServerInfo) :
    (info.marshal o).length ≤ info.size := by
  have htake := List.length_take_le' info.ipLength.toNat (stringBytes info.ipAddress)
  rw [length_stringBytes] at htake
  simp only [marshal, size, List.length_append, ByteOrder.length_store]
  omega

theorem length_rightpad_marshal (o : ByteOrder) (info : ServerInfo) :
    ((info.marshal o).rightpad info.size 0).length = info.size := by
  rw [List.length_rightpad, max_eq_left (length_marshal_le o info)]

theorem toNat_ipLength (h : info.ipAddress.length < 4294967296) :
    info.ipLength.toNat = info.ipAddress.length := by
  rw [ipLength, BitVec.toNat_ofNat, Nat.mod_eq_of_lt h]

theorem marshal_eq (o : ByteOrder) (h : info.ipAddress.length < 4294967296) :
    info.marshal o = o.store info.ipLength ++ (stringBytes info.ipAddress ++
      o.store (BitVec.ofInt 32 info.portNumber)) := by
  rw [marshal, toNat_ipLength h, List.take_of_length_le (length_stringBytes _).le,
    List.append_assoc]

theorem rightpad_marshal (o : ByteOrder) (h : info.ipAddress.length < 4294967296) :
    (info.marshal o).rightpad info.size 0 = info.marshal o := by
  have hlen : (info.marshal o).length = info.size := by
    rw [marshal_eq o h]
    simp only [size, List.length_append, ByteOrder.length_store, length_stringBytes]
    omega
  rw [List.rightpad, hlen, Nat.sub_self, List.replicate_zero, List.append_nil]

/-- What is read from the bytes of an entry is at most as long as the length read. -/
theorem length_of_run_unmarshal (h : (unmarshal r).run (info.marshal s ++ next) =
    some (info', rest)) : info'.ipAddress.length ≤ info.readLength s r ∧
      info.readLength s r + 1 < 4294967296 := by
  rw [marshal, List.append_assoc, List.append_assoc] at h
  obtain ⟨hlt, -, hip, -⟩ := run_unmarshal.1 h
  refine ⟨?_, hlt⟩
  rw [hip, length_bytesString]
  exact (length_cString_le _).trans (List.length_take_le _ _)

/-- An entry is read back from its own bytes if and only if it is `ReadBack`. -/
theorem readBack_iff (hf : info.Fits) (hn : NulFree info.ipAddress) :
    (∃ rest, (unmarshal r).run ((info.marshal s).rightpad info.size 0 ++ next) =
      some (info, rest)) ↔ info.ReadBack s r next := by
  by_cases hlen : info.ipAddress.length < 4294967296
  · have hstr := length_stringBytes info.ipAddress
    rw [rightpad_marshal s hlen, marshal_eq s hlen, List.append_assoc, List.append_assoc]
    simp only [run_unmarshal, ReadBack]
    change (∃ rest, info.readLength s r + 1 < _ ∧ info.readLength s r + 4 ≤ _ ∧
      _ = bytesString (cString (List.take (info.readLength s r) _)) ∧
      _ = (r.load (List.take 4 (List.drop (info.readLength s r) _))).toInt ∧ _) ↔ _
    generalize info.readLength s r = read
    have htail : s.store (BitVec.ofInt 32 info.portNumber) ++ next ≠ [] := by
      intro h
      have := congrArg List.length h
      simp at this
    rw [exists_and_left, exists_and_left, exists_and_left, exists_and_left,
      eq_bytesString_iff hf.1,
      cString_take_append_eq_self (zero_notMem_stringBytes hf.1 hn) htail, List.length_append, hstr]
    generalize s.store (BitVec.ofInt 32 info.portNumber) ++ next = tail
    -- the four bytes of the port, behind the string
    have hport : info.ipAddress.length ≤ read →
        ((stringBytes info.ipAddress ++ tail).drop read).take 4 =
          (tail.drop (read - info.ipAddress.length)).take 4 := by
      intro hle
      rw [List.drop_append, hstr, List.drop_of_length_le (hstr.trans_le hle), List.nil_append]
    constructor
    · rintro ⟨hlt, hle, ⟨hwritten, hend⟩, hload, -⟩
      rw [hport hwritten, eq_toInt_load_iff hf.2 (by simp; omega)] at hload
      exact ⟨hwritten, hlt, hend, hload⟩
    · rintro ⟨hwritten, hlt, hend, hstore⟩
      have hfour := (congrArg List.length hstore).trans (r.length_store _)
      rw [hport hwritten, eq_toInt_load_iff hf.2 hfour]
      rw [List.length_take, List.length_drop] at hfour
      exact ⟨hlt, by omega, ⟨hwritten, hend⟩, hstore, _, rfl⟩
  · refine ⟨fun h => ?_, fun h => absurd (h.1.trans_lt (by have := h.2.1; omega)) hlen⟩
    obtain ⟨rest, h⟩ := h
    rw [List.rightpad, List.append_assoc] at h
    have hle := length_of_run_unmarshal h
    omega

/-- The same without zeros behind the entry. -/
theorem exists_run_unmarshal_iff (hf : info.Fits) (hn : NulFree info.ipAddress) :
    (∃ rest, (unmarshal r).run (info.marshal s) = some (info, rest)) ↔ info.ReadBack s r [] := by
  by_cases hlen : info.ipAddress.length < 4294967296
  · rw [← readBack_iff hf hn, rightpad_marshal s hlen, List.append_nil]
  · refine ⟨fun h => ?_, fun h => absurd (h.1.trans_lt (by have := h.2.1; omega)) hlen⟩
    obtain ⟨rest, h⟩ := h
    rw [← List.append_nil (info.marshal s)] at h
    have hle := length_of_run_unmarshal h
    omega

theorem readLength_self (h : info.ipAddress.length < 4294967296) :
    info.readLength s s = info.ipAddress.length := by
  rw [readLength, s.load_store, toNat_ipLength h]

theorem readBack_self (h : info.ipAddress.length + 1 < 4294967296) : info.ReadBack s s next := by
  have hread : info.readLength s s = info.ipAddress.length := readLength_self (by omega)
  rw [ReadBack]
  simp only [hread, Nat.sub_self, List.drop_zero, true_or, true_and, le_refl, h]
  exact List.take_left' (s.length_store _)

theorem run_unmarshal_marshal (hf : info.Fits) (hn : NulFree info.ipAddress)
    (h : info.ipAddress.length + 1 < 4294967296) :
    (unmarshal s).run (info.marshal s ++ next) = some (info, next) := by
  have hback : info.ReadBack s s next := readBack_self h
  obtain ⟨rest, hrun⟩ := (readBack_iff hf hn).2 hback
  rw [rightpad_marshal s (by omega)] at hrun
  rw [hrun]
  rw [marshal_eq s (by omega), List.append_assoc] at hrun
  obtain ⟨-, -, -, -, rfl⟩ := run_unmarshal.1 hrun
  have hlen : (stringBytes info.ipAddress ++ s.store (BitVec.ofInt 32 info.portNumber)).length =
      info.readLength s s + 4 := by
    rw [readLength_self (by omega), List.length_append, length_stringBytes, s.length_store]
  rw [← readLength, List.drop_left' hlen]

end ServerInfo

/-- Every entry is read back, with the entries behind it and then `tail` in the
    buffer. -/
def ServersReadBack (s r : ByteOrder) : List (ℤ × ServerInfo) → List UInt8 → Prop
  | [], _ => True
  | pair :: servers, tail =>
    pair.2.ReadBack s r (marshalServers s servers ++ tail) ∧ ServersReadBack s r servers tail

instance (s r : ByteOrder) : (servers : List (ℤ × ServerInfo)) → (tail : List UInt8) →
    Decidable (ServersReadBack s r servers tail)
  | [], _ => .isTrue trivial
  | _ :: _, _ => @instDecidableAnd _ _ _ (instDecidableServersReadBack s r _ _)

section

variable {s r : ByteOrder} {n : ℕ} {acc c : StdMap ℤ ServerInfo} {bs rest tail : List UInt8}
  {servers : List (ℤ × ServerInfo)}

/-- One turn of the loop. -/
theorem run_readServers_succ {p : StdMap ℤ ServerInfo × List UInt8} :
    (readServers r (n + 1) acc).run bs = some p ↔
      ∃ key info buffer after, (readInt r).run bs = some (key, buffer) ∧
        (ServerInfo.unmarshal r).run buffer = some (info, after) ∧
        (readServers r n (acc.insert key info)).run (buffer.drop info.size) = some p := by
  rw [readServers]
  constructor
  · intro h
    obtain ⟨key, buffer, hkey, h⟩ := (run_bind_eq_some _).1 h
    obtain ⟨_, _, hget, h⟩ := (run_bind_eq_some _).1 h
    obtain ⟨info, after, hinfo, h⟩ := (run_bind_eq_some _).1 h
    obtain ⟨_, _, hset, h⟩ := (run_bind_eq_some _).1 h
    cases hget
    cases hset
    exact ⟨key, info, _, after, hkey, hinfo, h⟩
  · rintro ⟨key, info, buffer, after, hkey, hinfo, h⟩
    refine (run_bind_eq_some _).2 ⟨key, buffer, hkey, ?_⟩
    refine (run_bind_eq_some _).2 ⟨buffer, buffer, rfl, ?_⟩
    refine (run_bind_eq_some _).2 ⟨info, after, hinfo, ?_⟩
    exact (run_bind_eq_some _).2 ⟨⟨⟩, buffer.drop info.size, rfl, h⟩

theorem size_of_readServers (h : (readServers r n acc).run bs = some (c, rest)) :
    c.size ≤ acc.size + n := by
  induction n generalizing acc bs with
  | zero =>
    cases h
    exact le_rfl
  | succ n ih =>
    obtain ⟨key, info, buffer, after, -, -, h⟩ := run_readServers_succ.1 h
    have hins := acc.size_insert_le key info
    have hle := ih h
    omega

/-- If every turn adds an entry, no entry is overwritten. -/
theorem find?_of_readServers (h : (readServers r n acc).run bs = some (c, rest))
    (hfull : c.size = acc.size + n) {k : ℤ} (hk : k ∈ acc) : c.find? k = acc.find? k := by
  induction n generalizing acc bs with
  | zero =>
    cases h
    rfl
  | succ n ih =>
    obtain ⟨key, info, buffer, after, -, -, h⟩ := run_readServers_succ.1 h
    have hle := size_of_readServers h
    have hins := acc.size_insert key info
    have hkey : key ∉ acc := by
      intro hmem
      rw [if_pos hmem] at hins
      omega
    rw [if_neg hkey] at hins
    rw [ih h (by omega) (StdMap.mem_insert.2 (.inr hk)), StdMap.find?_insert, if_neg]
    rintro rfl
    exact hkey hk

theorem run_readServers (hf : ∀ p ∈ servers, IsInt p.1 ∧ p.2.Fits ∧ NulFree p.2.ipAddress)
    (hc : c.entries = acc.entries ++ servers) (hread : ServersReadBack s r servers tail) :
    (readServers r servers.length acc).run (marshalServers s servers ++ tail) = some (c, tail) := by
  induction servers generalizing acc with
  | nil =>
    obtain rfl : c = acc := StdMap.eq_of_entries (hc.trans (List.append_nil _))
    rfl
  | cons pair servers ih =>
    obtain ⟨key, info⟩ := pair
    obtain ⟨⟨hkey, hfit, hnul⟩, hrest⟩ := List.forall_mem_cons.1 hf
    obtain ⟨hback, hread⟩ := hread
    obtain ⟨after, hinfo⟩ := (ServerInfo.readBack_iff hfit hnul).2 hback
    rw [marshalServers, List.flatMap_cons, List.append_assoc, List.append_assoc, List.length_cons,
      run_readServers_succ]
    refine ⟨key, info, _, after, run_readInt_putInt hkey _, hinfo, ?_⟩
    rw [List.drop_left' (ServerInfo.length_rightpad_marshal s info)]
    refine ih hrest ?_ hread
    have hsorted := c.sorted
    rw [hc] at hsorted
    rw [StdMap.entries_insert_of_lt, hc, List.append_assoc]
    · rfl
    · exact fun p hp => (List.pairwise_append.1 hsorted).2.2 p hp _ (List.mem_cons_self)

/-- Entries that are read right are read right one by one: a pass that ends
    with as many entries has overwritten none. -/
theorem serversReadBack_of_run (hf : ∀ p ∈ servers, IsInt p.1 ∧ p.2.Fits ∧ NulFree p.2.ipAddress)
    (hc : c.entries = acc.entries ++ servers)
    (h : (readServers r servers.length acc).run (marshalServers s servers ++ tail) =
      some (c, rest)) : ServersReadBack s r servers tail := by
  induction servers generalizing acc with
  | nil => trivial
  | cons pair servers ih =>
    obtain ⟨key, info⟩ := pair
    obtain ⟨⟨hkey, hfit, hnul⟩, hrest⟩ := List.forall_mem_cons.1 hf
    rw [marshalServers, List.flatMap_cons, List.append_assoc, List.append_assoc, List.length_cons,
      run_readServers_succ] at h
    obtain ⟨key', info', buffer, after, hrun, hinfo, h⟩ := h
    rw [run_readInt_putInt hkey] at hrun
    cases hrun
    have hsorted := c.sorted
    rw [hc] at hsorted
    have hlast : ∀ p ∈ acc.entries, p.1 < key :=
      fun p hp => (List.pairwise_append.1 hsorted).2.2 p hp _ (List.mem_cons_self)
    have hentries := StdMap.entries_insert_of_lt hlast info'
    have hsize : c.size = (acc.insert key info').size + servers.length := by
      rw [StdMap.size, StdMap.size, hc, hentries]
      simp only [List.length_append, List.length_cons, List.length_nil]
      omega
    have hfind := find?_of_readServers h hsize (StdMap.mem_insert.2 (.inl rfl))
    rw [StdMap.find?_insert, if_pos rfl, StdMap.find?_eq_some, hc] at hfind
    obtain rfl : info' = info := StdMap.entries_unique (m := c) (k := key) (hc ▸ hfind)
      (hc ▸ List.mem_append_right _ (List.mem_cons_self))
    rw [List.drop_left' (ServerInfo.length_rightpad_marshal s info')] at h
    refine ⟨(ServerInfo.readBack_iff hfit hnul).1 ⟨after, hinfo⟩, ih hrest ?_ h⟩
    rw [hentries, hc, List.append_assoc]
    rfl

end

namespace ServerConfig

variable {s r : ByteOrder} {c : ServerConfig} {rest tail : List UInt8}

/-- The values of the fields are values of their types. -/
def Fits (c : ServerConfig) : Prop := ∀ pair ∈ c.servers.entries, IsInt pair.1 ∧ pair.2.Fits

instance (c : ServerConfig) : Decidable c.Fits := List.decidableBAll _ c.servers.entries

/-- No address contains a null character. -/
def IsNulFree (c : ServerConfig) : Prop := ∀ pair ∈ c.servers.entries, NulFree pair.2.ipAddress

instance (c : ServerConfig) : Decidable c.IsNulFree := List.decidableBAll _ c.servers.entries

theorem length_marshal (o : ByteOrder) (c : ServerConfig) : (c.marshal o).length = c.size := by
  rw [marshal, List.length_append, length_putInt, marshalServers, List.length_flatMap, size]
  simp only [List.length_append, length_putInt, ServerInfo.length_rightpad_marshal]

/-- Every entry takes up some bytes. -/
theorem size_servers_le (c : ServerConfig) : c.servers.size ≤ c.size := by
  have hsum := List.length_le_sum_of_one_le (c.servers.entries.map fun pair => 4 + pair.2.size)
    (List.forall_mem_map.2 fun pair _ => by omega)
  rw [List.length_map] at hsum
  exact hsum.trans (Nat.le_add_left _ _)

theorem length_ipAddress_le {pair : ℤ × ServerInfo} (h : pair ∈ c.servers.entries) :
    pair.2.ipAddress.length + 1 ≤ c.size := by
  have hsum := List.single_le_sum (fun _ _ => Nat.zero_le _) _
    (List.mem_map_of_mem (f := fun pair : ℤ × ServerInfo => 4 + pair.2.size) h)
  rw [ServerInfo.size] at hsum
  rw [size]
  omega

theorem run_unmarshal (hf : c.Fits) (hn : c.IsNulFree) (hcount : c.servers.size < 2147483648)
    (hread : ServersReadBack s r c.servers.entries tail) :
    (unmarshal r).run (c.marshal s ++ tail) = some (c, tail) := by
  have hint : IsInt c.servers.size := ⟨by omega, by omega⟩
  have hall : ∀ p ∈ c.servers.entries, IsInt p.1 ∧ p.2.Fits ∧ NulFree p.2.ipAddress :=
    fun p hp => ⟨(hf p hp).1, (hf p hp).2, hn p hp⟩
  have hrun : (readServers r c.servers.size .empty).run (marshalServers s _ ++ tail) =
      some (c.servers, tail) := run_readServers hall (List.nil_append _).symm hread
  rw [unmarshal, marshal, List.append_assoc, run_readInt_bind hint, Int.toNat_natCast]
  exact run_bind_of_eq_some _ hrun

theorem exists_run_unmarshal_iff (hf : c.Fits) (hn : c.IsNulFree) :
    (∃ rest, (unmarshal r).run (c.marshal s) = some (c, rest)) ↔
      c.servers.size < 2147483648 ∧ ServersReadBack s r c.servers.entries [] := by
  constructor
  · rintro ⟨rest, h⟩
    rw [unmarshal, marshal, run_bind_of_eq_some _ (run_readInt _ _)] at h
    obtain ⟨servers, after, hrun, h⟩ := (run_bind_eq_some _).1 h
    obtain rfl : servers = c.servers := congrArg (fun p => p.1.servers) (Option.some.inj h)
    have hcount : c.servers.size < 2147483648 := by
      have hle := size_of_readServers hrun
      have hlt := (BitVec.ofInt 32 c.servers.size).toInt_lt
      have hzero : (StdMap.empty : StdMap ℤ ServerInfo).size = 0 := rfl
      omega
    have hint : IsInt c.servers.size := ⟨by omega, by omega⟩
    rw [hint.toInt_ofInt, Int.toNat_natCast, ← List.append_nil (marshalServers s _)] at hrun
    exact ⟨hcount, serversReadBack_of_run (fun p hp => ⟨(hf p hp).1, (hf p hp).2, hn p hp⟩)
      (List.nil_append _).symm hrun⟩
  · rintro ⟨hcount, hread⟩
    have hrun := run_unmarshal hf hn hcount hread
    rw [List.append_nil] at hrun
    exact ⟨[], hrun⟩

/-- On one host, all entries are read back. -/
theorem serversReadBack_self {servers : List (ℤ × ServerInfo)}
    (h : ∀ pair ∈ servers, pair.2.ipAddress.length + 1 < 4294967296) :
    ServersReadBack s s servers tail := by
  induction servers with
  | nil => trivial
  | cons pair servers ih =>
    obtain ⟨hhead, htail⟩ := List.forall_mem_cons.1 h
    exact ⟨ServerInfo.readBack_self hhead, ih htail⟩

end ServerConfig

/-! ### All messages -/

/-- A message of one of the types of the program. -/
inductive Message
  | customerRequest (r : CustomerRequest)
  | customerRecord (r : CustomerRecord)
  | laptopInfo (l : LaptopInfo)
  | mapOp (op : MapOp)
  | logRequest (r : LogRequest)
  | logResponse (r : LogResponse)
  | serverInfo (info : ServerInfo)
  | serverConfig (c : ServerConfig)
  | paxosMsg (m : PaxosMsg)
  deriving DecidableEq

namespace Message

/-- The type of a message, which the receiver knows beforehand. -/
inductive Kind
  | customerRequest
  | customerRecord
  | laptopInfo
  | mapOp
  | logRequest
  | logResponse
  | serverInfo
  | serverConfig
  | paxosMsg
  deriving DecidableEq, Repr

def kind : Message → Kind
  | customerRequest _ => .customerRequest
  | customerRecord _ => .customerRecord
  | laptopInfo _ => .laptopInfo
  | mapOp _ => .mapOp
  | logRequest _ => .logRequest
  | logResponse _ => .logResponse
  | serverInfo _ => .serverInfo
  | serverConfig _ => .serverConfig
  | paxosMsg _ => .paxosMsg

def size : Message → ℕ
  | customerRequest r => r.size
  | customerRecord r => r.size
  | laptopInfo l => l.size
  | mapOp op => op.size
  | logRequest r => r.size
  | logResponse r => r.size
  | serverInfo info => info.size
  | serverConfig c => c.size
  | paxosMsg m => m.size

def marshal (o : ByteOrder) : Message → List UInt8
  | customerRequest r => r.marshal o
  | customerRecord r => r.marshal o
  | laptopInfo l => l.marshal o
  | mapOp op => op.marshal o
  | logRequest r => r.marshal o
  | logResponse r => r.marshal o
  | serverInfo info => info.marshal o
  | serverConfig c => c.marshal o
  | paxosMsg m => m.marshal o

def unmarshal (o : ByteOrder) : Kind → Reader Message
  | .customerRequest => customerRequest <$> CustomerRequest.unmarshal o
  | .customerRecord => customerRecord <$> CustomerRecord.unmarshal o
  | .laptopInfo => laptopInfo <$> LaptopInfo.unmarshal o
  | .mapOp => mapOp <$> MapOp.unmarshal o
  | .logRequest => logRequest <$> LogRequest.unmarshal o
  | .logResponse => logResponse <$> LogResponse.unmarshal o
  | .serverInfo => serverInfo <$> ServerInfo.unmarshal o
  | .serverConfig => serverConfig <$> ServerConfig.unmarshal o
  | .paxosMsg => paxosMsg <$> PaxosMsg.unmarshal o

/-- The values of all fields are values of their types. -/
def Fits : Message → Prop
  | customerRequest r => ∀ v ∈ r.ints, IsInt v
  | customerRecord r => ∀ v ∈ r.ints, IsInt v
  | laptopInfo l => ∀ v ∈ l.ints, IsInt v
  | mapOp op => ∀ v ∈ op.ints, IsInt v
  | logRequest r => ∀ v ∈ r.ints, IsInt v
  | logResponse r => ∀ v ∈ r.ints, IsInt v
  | serverInfo info => info.Fits
  | serverConfig c => c.Fits
  | paxosMsg m => (∀ v ∈ m.ints, IsInt v) ∧ IsByteString m.clientIp

/-- No string of the message contains a null character. -/
def IsNulFree : Message → Prop
  | serverInfo info => NulFree info.ipAddress
  | serverConfig c => c.IsNulFree
  | paxosMsg m => NulFree m.clientIp
  | _ => True

instance : (m : Message) → Decidable m.Fits
  | customerRequest r => List.decidableBAll _ r.ints
  | customerRecord r => List.decidableBAll _ r.ints
  | laptopInfo l => List.decidableBAll _ l.ints
  | mapOp op => List.decidableBAll _ op.ints
  | logRequest r => List.decidableBAll _ r.ints
  | logResponse r => List.decidableBAll _ r.ints
  | serverInfo info => inferInstanceAs (Decidable info.Fits)
  | serverConfig c => inferInstanceAs (Decidable c.Fits)
  | paxosMsg m =>
    @instDecidableAnd _ _ (List.decidableBAll _ m.ints)
      (inferInstanceAs (Decidable (IsByteString _)))

instance : (m : Message) → Decidable m.IsNulFree
  | serverInfo info => inferInstanceAs (Decidable (NulFree info.ipAddress))
  | serverConfig c => inferInstanceAs (Decidable c.IsNulFree)
  | paxosMsg m => inferInstanceAs (Decidable (NulFree m.clientIp))
  | customerRequest _ | customerRecord _ | laptopInfo _ | mapOp _ | logRequest _ | logResponse _ =>
    .isTrue trivial

/-- Reads a message of a given type from a buffer, on a host of order `o`. -/
def decode (o : ByteOrder) (k : Kind) (bs : List UInt8) : Option Message :=
  ((unmarshal o k).run bs).map Prod.fst

/-- A host of order `r` reads back what a host of order `s` has written. -/
def Portable (s r : ByteOrder) : Message → Prop
  | serverInfo info => info.ReadBack s r []
  | serverConfig c => c.servers.size < 2147483648 ∧ ServersReadBack s r c.servers.entries []
  | paxosMsg m => m.clientIp.length + 1 < 2147483648
  | _ => True

instance (s r : ByteOrder) : (m : Message) → Decidable (m.Portable s r)
  | serverInfo info => inferInstanceAs (Decidable (info.ReadBack s r []))
  | serverConfig _ => inferInstanceAs (Decidable (_ ∧ ServersReadBack s r _ []))
  | paxosMsg _ => inferInstanceAs (Decidable (_ < _))
  | customerRequest _ | customerRecord _ | laptopInfo _ | mapOp _ | logRequest _ | logResponse _ =>
    .isTrue trivial

variable {s r o : ByteOrder} {m : Message} {rest : List UInt8}

theorem length_marshal (h : m.size < 2147483648) : (m.marshal o).length = m.size := by
  cases m with
  | serverInfo info =>
    rw [size, ServerInfo.size] at h
    rw [marshal, ← ServerInfo.rightpad_marshal o (by omega), ServerInfo.length_rightpad_marshal,
      size]
  | serverConfig c => exact c.length_marshal o
  | paxosMsg m => simp [marshal, size, PaxosMsg.marshal, PaxosMsg.size]; omega
  | customerRequest | customerRecord | laptopInfo | mapOp | logResponse => exact length_putInts o _
  | logRequest q =>
    exact List.length_append.trans (congrArg₂ _ (length_putInts o _) (length_putInts o _))

/-- The messages that consist of integers. -/
def IsFixed : Message → Prop
  | serverInfo _ | serverConfig _ | paxosMsg _ => False
  | _ => True

/-- Integers are read back on every host. -/
theorem run_unmarshal_of_isFixed (hf : m.Fits) (h : m.IsFixed) :
    (unmarshal r m.kind).run (m.marshal s ++ rest) = some (m, rest) := by
  cases m with
  | serverInfo | serverConfig | paxosMsg => exact h.elim
  | customerRequest q =>
    exact (run_map_eq_some fun _ _ => customerRequest.inj).2 (CustomerRequest.run_unmarshal hf)
  | customerRecord q =>
    exact (run_map_eq_some fun _ _ => customerRecord.inj).2 (CustomerRecord.run_unmarshal hf)
  | laptopInfo l =>
    exact (run_map_eq_some fun _ _ => laptopInfo.inj).2 (LaptopInfo.run_unmarshal hf)
  | mapOp op => exact (run_map_eq_some fun _ _ => mapOp.inj).2 (MapOp.run_unmarshal hf)
  | logRequest q =>
    exact (run_map_eq_some fun _ _ => logRequest.inj).2 (LogRequest.run_unmarshal hf)
  | logResponse q =>
    exact (run_map_eq_some fun _ _ => logResponse.inj).2 (LogResponse.run_unmarshal hf)

/-- **Round trip.** Every message is written in exactly as many bytes as its size
    says, and a host of the same order reads exactly these bytes, whatever
    follows them, and gets the message back. -/
theorem codec_round_trip (hf : m.Fits) (hn : m.IsNulFree) (hsize : m.size < 2147483648) :
    (m.marshal o).length = m.size ∧
      (unmarshal o m.kind).run (m.marshal o ++ rest) = some (m, rest) := by
  refine ⟨length_marshal hsize, ?_⟩
  cases m with
  | serverInfo info =>
    rw [size, ServerInfo.size] at hsize
    exact (run_map_eq_some fun _ _ => serverInfo.inj).2
      (ServerInfo.run_unmarshal_marshal hf hn (by omega))
  | serverConfig c =>
    have hcount := (c.size_servers_le).trans_lt hsize
    have hread : ServersReadBack o o c.servers.entries rest :=
      ServerConfig.serversReadBack_self fun pair hp => by
        have hle := ServerConfig.length_ipAddress_le hp
        rw [size] at hsize
        omega
    exact (run_map_eq_some fun _ _ => serverConfig.inj).2
      (ServerConfig.run_unmarshal hf hn hcount hread)
  | paxosMsg p =>
    rw [size, PaxosMsg.size] at hsize
    exact (run_map_eq_some fun _ _ => paxosMsg.inj).2
      (PaxosMsg.run_unmarshal hf.1 hf.2 hn (by omega))
  | _ => exact run_unmarshal_of_isFixed hf trivial

/-- The configuration of two servers. -/
def twoServers : Message :=
  serverConfig ⟨(StdMap.empty.insert 0 ⟨"127.0.0.1", 12300⟩).insert 2 ⟨"node-2", 12302⟩⟩

theorem codec_round_trip_two_servers :
    (twoServers.marshal .little).length = twoServers.size ∧
      (unmarshal .little twoServers.kind).run (twoServers.marshal .little ++ [7]) =
        some (twoServers, [7]) :=
  codec_round_trip (m := twoServers) (by decide +kernel) (by decide +kernel) (by decide +kernel)

theorem decode_eq_some {k : Kind} {bs : List UInt8} :
    decode r k bs = some m ↔ ∃ rest, (unmarshal r k).run bs = some (m, rest) := by
  rw [decode, Option.map_eq_some_iff]
  constructor
  · rintro ⟨⟨m', rest⟩, h, rfl⟩
    exact ⟨rest, h⟩
  · rintro ⟨rest, h⟩
    exact ⟨(m, rest), h, rfl⟩

/-- The host of the other order takes the length 9 for 150994944. -/
theorem twoServers_not_portable :
    twoServers.Fits ∧ twoServers.IsNulFree ∧
      decode .big twoServers.kind (twoServers.marshal .little) ≠ some twoServers := by
  decide +kernel

/-- **Portability.** A host of order `r` reads the message that a host of order
    `s` has written if and only if it is portable between them. -/
theorem portable_iff (hf : m.Fits) (hn : m.IsNulFree) :
    decode r m.kind (m.marshal s) = some m ↔ m.Portable s r := by
  rw [decode_eq_some]
  cases m with
  | serverInfo info =>
    simp only [kind, unmarshal, run_map_eq_some fun _ _ => serverInfo.inj]
    exact ServerInfo.exists_run_unmarshal_iff hf hn
  | serverConfig c =>
    simp only [kind, unmarshal, run_map_eq_some fun _ _ => serverConfig.inj]
    exact ServerConfig.exists_run_unmarshal_iff hf hn
  | paxosMsg p =>
    simp only [kind, unmarshal, run_map_eq_some fun _ _ => paxosMsg.inj]
    constructor
    · rintro ⟨rest, h⟩
      have hlen := PaxosMsg.length_of_run_unmarshal hf.1 h
      exact mod_cast hlen
    · intro h
      have hrun : (PaxosMsg.unmarshal r).run (p.marshal s ++ []) = some (p, []) :=
        PaxosMsg.run_unmarshal hf.1 hf.2 hn h
      rw [List.append_nil] at hrun
      exact ⟨[], hrun⟩
  | _ =>
    refine iff_of_true ⟨[], ?_⟩ trivial
    rw [← List.append_nil (marshal s _)]
    exact run_unmarshal_of_isFixed hf trivial

theorem portable_iff_two_servers :
    decode .big twoServers.kind (twoServers.marshal .little) = some twoServers ↔
      twoServers.Portable .little .big :=
  portable_iff (by decide +kernel) (by decide +kernel)

end Message

end LaptopPaxos
