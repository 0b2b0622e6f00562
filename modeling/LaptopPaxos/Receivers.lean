import LaptopPaxos.ClientThread
import LaptopPaxos.Lib.Arrivals
import LaptopPaxos.Portability

/-!
# Receiving a message

The functions of the stubs that receive, each from what arrives over its
connection. All but one ask for a block whose size they know beforehand, and
decode it if it has arrived as a whole. `receiveServerConfig` asks for a size
first, and then for a block of this size; that the size may not have arrived
makes no difference to it.

When the stream ends in the middle of a message, a function should return the
default value without decoding anything. It does unless what has arrived is as
much as it asks for (`cut_iff`).
-/

namespace LaptopPaxos

open Reader

/-! ### Bytes that arrive -/

namespace Socket

/-- `Recv` on what arrives, and what it leaves. -/
def recvFrom (a : Arrivals UInt8) (size : ℤ) : Option (Transfer × Arrivals UInt8) :=
  (recv (Arrivals.pieces a.ended size.toNat a.segments) size).map fun t => (t, a.drop size.toNat)

variable {segs : List (List UInt8)} {n : ℕ} {a : Arrivals UInt8} {size : ℤ}

/-- One more call of `recv`. -/
theorem recv_cons {s : List UInt8} (chunks : List (List UInt8)) (hs : s ≠ [])
    (h : s.length ≤ n) : recv (s :: chunks) n = (recv chunks (n - s.length : ℕ)).map fun t =>
      { t with bytes := s ++ t.bytes, calls := .recv :: t.calls } := by
  have hpos : 0 < s.length := List.length_pos_of_ne_nil hs
  rw [recv, if_pos (by omega), if_neg hs, if_pos (by omega), Int.ofNat_sub h]

/-- As many bytes as asked for have arrived. -/
theorem recv_pieces_of_le (ended : Bool) (hne : [] ∉ segs) (h : n ≤ segs.flatten.length) :
    ∃ t, recv (Arrivals.pieces ended n segs) n = some t ∧ t.ok = true ∧
      t.bytes = segs.flatten.take n := by
  induction segs generalizing n with
  | nil =>
    obtain rfl : n = 0 := Nat.le_zero.1 h
    exact ⟨{}, rfl, rfl, rfl⟩
  | cons s segs ih =>
    rw [List.mem_cons, not_or] at hne
    rw [List.flatten_cons, List.length_append] at h
    cases n with
    | zero => exact ⟨{}, rfl, rfl, rfl⟩
    | succ n =>
      rw [Arrivals.pieces]
      split_ifs with hlen
      · -- the whole segment is taken, and then the rest
        obtain ⟨t, ht, hok, hbytes⟩ := ih (n := n + 1 - s.length) hne.2 (by omega)
        rw [recv_cons _ (Ne.symm hne.1) hlen, ht]
        refine ⟨_, rfl, hok, ?_⟩
        change s ++ t.bytes = _
        rw [hbytes, List.flatten_cons, List.take_append, List.take_of_length_le hlen]
      · have htake : (s.take (n + 1)).length = n + 1 := by
          rw [List.length_take]
          omega
        rw [recv_cons _ (List.ne_nil_of_length_pos (by omega)) htake.le, htake, Nat.sub_self]
        refine ⟨_, rfl, rfl, ?_⟩
        change s.take (n + 1) ++ [] = _
        rw [List.append_nil, List.flatten_cons, List.take_append_of_le_length (by omega)]

/-- The stream ends before as many bytes have arrived. -/
theorem recv_pieces_ended (hne : [] ∉ segs) (h : segs.flatten.length < n) :
    ∃ t, recv (Arrivals.pieces true n segs) n = some t ∧ t.ok = false ∧
      t.bytes = segs.flatten := by
  induction segs generalizing n with
  | nil =>
    obtain ⟨n, rfl⟩ := Nat.exists_eq_succ_of_ne_zero (Nat.ne_of_gt h)
    refine ⟨{ ok := false, calls := .recv :: close }, ?_, rfl, rfl⟩
    change recv [[]] _ = _
    rw [recv, if_pos (by omega), if_pos rfl]
  | cons s segs ih =>
    rw [List.mem_cons, not_or] at hne
    rw [List.flatten_cons, List.length_append] at h
    obtain ⟨n, rfl⟩ := Nat.exists_eq_succ_of_ne_zero (Nat.ne_of_gt (Nat.zero_lt_of_lt h))
    have hlen : s.length ≤ n + 1 := by omega
    obtain ⟨t, ht, hok, hbytes⟩ := ih (n := n + 1 - s.length) hne.2 (by omega)
    rw [Arrivals.pieces, if_pos hlen, recv_cons _ (Ne.symm hne.1) hlen, ht]
    refine ⟨_, rfl, hok, ?_⟩
    change s ++ t.bytes = _
    rw [hbytes, List.flatten_cons]

/-- The connection is open, and no more bytes arrive. -/
theorem recv_pieces_waiting (hne : [] ∉ segs) (h : segs.flatten.length < n) :
    recv (Arrivals.pieces false n segs) n = none := by
  induction segs generalizing n with
  | nil =>
    obtain ⟨n, rfl⟩ := Nat.exists_eq_succ_of_ne_zero (Nat.ne_of_gt h)
    change recv [] _ = none
    rw [recv, if_pos (by omega)]
  | cons s segs ih =>
    rw [List.mem_cons, not_or] at hne
    rw [List.flatten_cons, List.length_append] at h
    obtain ⟨n, rfl⟩ := Nat.exists_eq_succ_of_ne_zero (Nat.ne_of_gt (Nat.zero_lt_of_lt h))
    have hlen : s.length ≤ n + 1 := by omega
    rw [Arrivals.pieces, if_pos hlen, recv_cons _ (Ne.symm hne.1) hlen,
      ih hne.2 (by omega), Option.map_none]

theorem recvFrom_of_le (h : n ≤ a.units.length) :
    ∃ t, recvFrom a n = some (t, a.drop n) ∧ t.ok = true ∧ t.bytes = a.units.take n := by
  obtain ⟨t, ht, hok, hbytes⟩ := recv_pieces_of_le a.ended a.nonempty h
  exact ⟨t, by rw [recvFrom, Int.toNat_natCast, ht]; rfl, hok, hbytes⟩

theorem recvFrom_ended (hend : a.ended = true) (h : a.units.length < n) :
    ∃ t, recvFrom a n = some (t, a.drop n) ∧ t.ok = false ∧ t.bytes = a.units := by
  obtain ⟨t, ht, hok, hbytes⟩ := recv_pieces_ended a.nonempty h
  exact ⟨t, by rw [recvFrom, Int.toNat_natCast, hend, ht]; rfl, hok, hbytes⟩

theorem recvFrom_waiting (hend : a.ended = false) (h : a.units.length < n) :
    recvFrom a n = none := by
  rw [recvFrom, Int.toNat_natCast, hend, recv_pieces_waiting a.nonempty h, Option.map_none]

/-- A size that is not positive is received at once. -/
theorem recvFrom_of_nonpos (h : size ≤ 0) : recvFrom a size = some ({}, a.drop 0) := by
  have hzero : size.toNat = 0 := by omega
  have hnil : Arrivals.pieces a.ended 0 a.segments = [] := by cases a.segments <;> rfl
  rw [recvFrom, hzero, hnil, recv, if_neg (by omega), Option.map_some]

/-- Once the stream has ended, `Recv` always returns. -/
theorem recvFrom_of_ended (hend : a.ended = true) (size : ℤ) :
    ∃ t rest, recvFrom a size = some (t, rest) ∧ (t.ok = false ↔ a.units.length < size) := by
  rcases le_or_gt size 0 with h | h
  · exact ⟨_, _, recvFrom_of_nonpos h, iff_of_false Bool.noConfusion (by omega)⟩
  · obtain ⟨n, rfl⟩ := Int.eq_ofNat_of_zero_le h.le
    rcases le_or_gt n a.units.length with hn | hn
    · obtain ⟨t, ht, hok, -⟩ := recvFrom_of_le hn
      exact ⟨t, _, ht, iff_of_false (Bool.eq_false_iff.not_left.2 hok) (by omega)⟩
    · obtain ⟨t, ht, hok, -⟩ := recvFrom_ended hend hn
      exact ⟨t, _, ht, iff_of_true hok (by omega)⟩

/-- Up to the end of the stream, `Recv` takes what it asks for. -/
theorem bytes_of_recvFrom (hend : a.ended = true) (n : ℕ) :
    ∃ t, recvFrom a n = some (t, a.drop n) ∧ t.bytes = a.units.take n := by
  rcases le_or_gt n a.units.length with h | h
  · obtain ⟨t, ht, -, hbytes⟩ := recvFrom_of_le h
    exact ⟨t, ht, hbytes⟩
  · obtain ⟨t, ht, -, hbytes⟩ := recvFrom_ended hend h
    exact ⟨t, ht, by rw [hbytes, List.take_of_length_le h.le]⟩

end Socket

/-! ### The receiving functions -/

/-- What a receiving function returns, and what it leaves of the arrivals. -/
structure Receipt (α : Type) where
  /-- There is none if the function reads outside of what its buffer was filled with. -/
  value : Option α
  /-- Whether the contents of the buffer have been decoded. -/
  unmarshalled : Bool
  rest : Arrivals UInt8

/-- Receives a block of `size` bytes, and decodes it if all of it has come. -/
def receive {α : Type} (unmarshal : Reader α) (default : α) (size : ℕ) (a : Arrivals UInt8) :
    Option (Receipt α) :=
  (Socket.recvFrom a size).map fun p =>
    { value := messageOf unmarshal default (if p.1.ok then some p.1.bytes else none)
      unmarshalled := p.1.ok
      rest := p.2 }

namespace ServerStub

variable (o : ByteOrder) (a : Arrivals UInt8)

def receiveRequest : Option (Receipt CustomerRequest) :=
  receive (CustomerRequest.unmarshal o) {} ({} : CustomerRequest).size a

def receiveIndentity : Option (Receipt ℤ) := receive (readInt o) (-1) 4 a

def receiveLogRequest : Option (Receipt LogRequest) :=
  receive (LogRequest.unmarshal o) {} ({} : LogRequest).size a

def receivePaxosMsg : Option (Receipt PaxosMsg) :=
  receive (PaxosMsg.unmarshal o) {} ({} : PaxosMsg).size a

end ServerStub

namespace ClientStub

/-- Sends a request, and receives the answer if all of it has gone out. -/
def ask {α : Type} (unmarshal : Reader α) (default : α) (size : ℕ) (sent : Option Transfer)
    (a : Arrivals UInt8) : Option (Receipt α) :=
  sent.bind fun t =>
    if t.ok then receive unmarshal default size a
    else some { value := some default, unmarshalled := false, rest := a }

variable (o : ByteOrder) (answers : List ℤ) (a : Arrivals UInt8)

def order (order : CustomerRequest) : Option (Receipt LaptopInfo) :=
  ask (LaptopInfo.unmarshal o) {} ({} : LaptopInfo).size
    (Socket.send answers (order.marshal o) order.size) a

def readRecord (order : CustomerRequest) : Option (Receipt CustomerRecord) :=
  ask (CustomerRecord.unmarshal o) {} ({} : CustomerRecord).size
    (Socket.send answers (order.marshal o) order.size) a

def backupRecord (log : LogRequest) : Option (Receipt LogResponse) :=
  ask (LogResponse.unmarshal o) {} ({} : LogResponse).size
    (Socket.send answers (log.marshal o) log.size) a

/-- The header lies in memory that holds `indet`, the buffer is filled with zeros. -/
def receiveServerConfig (indet : BitVec 32) : Option (Receipt ServerConfig) :=
  (Socket.recvFrom a 4).bind fun header =>
    let messageSize := messageSize o indet header.1
    (Socket.recvFrom header.2 (intOfSize messageSize)).map fun p =>
      { value := serverConfigOf o messageSize p.1
        unmarshalled := p.1.ok
        rest := p.2 }

def receivePaxosMsg : Option (Receipt PaxosMsg) :=
  receive (PaxosMsg.unmarshal o) {} ({} : PaxosMsg).size a

end ClientStub

/-- The receiving functions, with what they are called with. -/
inductive Receiver
  | receiveRequest
  | receiveIndentity
  | receiveLogRequest
  | serverReceivePaxosMsg
  | clientReceivePaxosMsg
  | order (request : CustomerRequest)
  | readRecord (request : CustomerRequest)
  | backupRecord (log : LogRequest)
  | receiveServerConfig (indet : BitVec 32)

namespace Receiver

/-- What the function returns. -/
def Value : Receiver → Type
  | receiveRequest => CustomerRequest
  | receiveIndentity => ℤ
  | receiveLogRequest => LogRequest
  | serverReceivePaxosMsg | clientReceivePaxosMsg => PaxosMsg
  | order _ => LaptopInfo
  | readRecord _ => CustomerRecord
  | backupRecord _ => LogResponse
  | receiveServerConfig _ => ServerConfig

/-- The default-constructed value. -/
def default : (r : Receiver) → r.Value
  | receiveRequest => ({} : CustomerRequest)
  | receiveIndentity => (-1 : ℤ)
  | receiveLogRequest => ({} : LogRequest)
  | serverReceivePaxosMsg | clientReceivePaxosMsg => ({} : PaxosMsg)
  | order _ => ({} : LaptopInfo)
  | readRecord _ => ({} : CustomerRecord)
  | backupRecord _ => ({} : LogResponse)
  | receiveServerConfig _ => ({} : ServerConfig)

/-- What the peer sends for a value. The size of a configuration goes first. -/
def encode (o : ByteOrder) : (r : Receiver) → r.Value → List UInt8
  | receiveRequest => CustomerRequest.marshal o
  | receiveIndentity => putInt o
  | receiveLogRequest => LogRequest.marshal o
  | serverReceivePaxosMsg | clientReceivePaxosMsg => PaxosMsg.marshal o
  | order _ => LaptopInfo.marshal o
  | readRecord _ => CustomerRecord.marshal o
  | backupRecord _ => LogResponse.marshal o
  | receiveServerConfig _ => fun c => putInt o c.size ++ c.marshal o

def run (o : ByteOrder) (answers : List ℤ) (a : Arrivals UInt8) :
    (r : Receiver) → Option (Receipt r.Value)
  | receiveRequest => ServerStub.receiveRequest o a
  | receiveIndentity => ServerStub.receiveIndentity o a
  | receiveLogRequest => ServerStub.receiveLogRequest o a
  | serverReceivePaxosMsg => ServerStub.receivePaxosMsg o a
  | clientReceivePaxosMsg => ClientStub.receivePaxosMsg o a
  | order request => ClientStub.order o answers a request
  | readRecord request => ClientStub.readRecord o answers a request
  | backupRecord log => ClientStub.backupRecord o answers a log
  | receiveServerConfig indet => ClientStub.receiveServerConfig o a indet

/-- The `Send` with which the function begins. -/
def sent (o : ByteOrder) (answers : List ℤ) : Receiver → Option Transfer
  | order request | readRecord request => Socket.send answers (request.marshal o) request.size
  | backupRecord log => Socket.send answers (log.marshal o) log.size
  | _ => some {}

/-- The message ends early, and no more bytes come. -/
structure Cut (o : ByteOrder) (r : Receiver) (m : r.Value) (a : Arrivals UInt8) : Prop where
  ended : a.ended = true
  isPrefix : a.units <+: r.encode o m
  ne : a.units ≠ r.encode o m

/-- The function returns the default value, and has decoded nothing. -/
def Rejects (o : ByteOrder) (answers : List ℤ) (a : Arrivals UInt8) (r : Receiver) : Prop :=
  ∃ receipt, r.run o answers a = some receipt ∧ receipt.value = some r.default ∧
    receipt.unmarshalled = false

/-- Fewer bytes than the function asks for have arrived. What has not come of a
    header is what its memory holds. -/
def FallsShort (o : ByteOrder) (bs : List UInt8) : Receiver → Prop
  | serverReceivePaxosMsg | clientReceivePaxosMsg => bs.length < ({} : PaxosMsg).size
  | receiveServerConfig indet =>
    ((bs.length - 4 : ℕ) : ℤ) < getInt (bs ++ (o.store indet).drop bs.length) 0
  | _ => True

end Receiver

section

variable {o : ByteOrder} {a : Arrivals UInt8} {α : Type} {unmarshal : Reader α} {default : α}
  {size : ℕ} {sent : Option Transfer} {r : Receiver} {m : r.Value} {answers : List ℤ}

/-- What is received is decoded if `Recv` has succeeded. -/
theorem rejected_iff {t : Transfer} {buffer : List UInt8} {rest : Arrivals UInt8} :
    (∃ x : Receipt α, some
        { value := messageOf unmarshal default (if t.ok then some buffer else none)
          unmarshalled := t.ok
          rest := rest } = some x ∧ x.value = some default ∧ x.unmarshalled = false) ↔
      t.ok = false := by
  constructor
  · rintro ⟨x, hx, -, hdec⟩
    cases hx
    exact hdec
  · intro hfail
    rw [hfail]
    exact ⟨_, rfl, rfl, rfl⟩

theorem receive_iff (hend : a.ended = true) :
    (∃ x, receive unmarshal default size a = some x ∧ x.value = some default ∧
      x.unmarshalled = false) ↔ a.units.length < size := by
  obtain ⟨t, rest, ht, hok⟩ := Socket.recvFrom_of_ended hend size
  rw [receive, ht, Option.map_some, rejected_iff, hok, Int.ofNat_lt]

/-- An answer that does not come as a whole is not decoded, whether the request
    has gone out or not. -/
theorem ask_of_lt (hend : a.ended = true) (hsent : sent.isSome) (h : a.units.length < size) :
    ∃ x, ClientStub.ask unmarshal default size sent a = some x ∧ x.value = some default ∧
      x.unmarshalled = false := by
  obtain ⟨t, rfl⟩ := Option.isSome_iff_exists.1 hsent
  rw [ClientStub.ask, Option.bind_some]
  split_ifs
  · exact (receive_iff hend).2 h
  · exact ⟨_, rfl, rfl, rfl⟩

/-- Only the first four bytes make up the integer. -/
theorem getInt_take_append (bs memory : List UInt8) :
    getInt (bs.take 4 ++ memory.drop (bs.take 4).length) 0 =
      getInt (bs ++ memory.drop bs.length) 0 := by
  rcases le_or_gt bs.length 4 with h | h
  · rw [List.take_of_length_le h]
  · have hlen : (bs.take 4).length = 4 := List.length_take_of_le h.le
    rw [getInt, getInt, List.drop_zero, List.drop_zero, List.take_left' hlen,
      List.take_append_of_le_length h.le]

/-- The size that is taken from the header, as the `int` that `Recv` is given. -/
theorem intOfSize_messageSize (indet : BitVec 32) {t : Transfer} (h : t.bytes.length ≤ 4) :
    intOfSize (messageSize o indet t) =
      getInt (t.bytes ++ (o.store indet).drop t.bytes.length) 0 := by
  have hlen : (t.bytes ++ (o.store indet).drop t.bytes.length).length = 4 := by
    rw [List.length_append, List.length_drop, o.length_store]
    omega
  rw [intOfSize, messageSize, BitVec.ofNat_toNat, BitVec.setWidth_eq, ByteOrder.ntohl,
    o.store_load hlen, getInt, List.drop_zero, List.take_of_length_le hlen.le]

theorem receiveServerConfig_iff (hend : a.ended = true) (indet : BitVec 32) :
    (Receiver.receiveServerConfig indet).Rejects o answers a ↔
      (Receiver.receiveServerConfig indet).FallsShort o a.units := by
  obtain ⟨header, hheader, hbytes⟩ := Socket.bytes_of_recvFrom hend 4
  have hlen : header.bytes.length ≤ 4 := hbytes ▸ List.length_take_le _ _
  have hsize : intOfSize (messageSize o indet header) =
      getInt (a.units ++ (o.store indet).drop a.units.length) 0 := by
    rw [intOfSize_messageSize indet hlen, hbytes]
    exact getInt_take_append _ (o.store indet)
  obtain ⟨t, rest, ht, hok⟩ := Socket.recvFrom_of_ended (a := a.drop 4) hend
    (intOfSize (messageSize o indet header))
  rw [Arrivals.units_drop, List.length_drop, hsize] at hok
  have hrun : Receiver.run o answers a (.receiveServerConfig indet) = some
      { value := serverConfigOf o (messageSize o indet header) t
        unmarshalled := t.ok
        rest := rest } := by
    change ClientStub.receiveServerConfig o a indet = _
    rw [ClientStub.receiveServerConfig, show Socket.recvFrom a 4 = _ from hheader,
      Option.bind_some]
    dsimp only
    rw [ht]
    rfl
  rw [Receiver.Rejects, hrun]
  exact rejected_iff.trans hok

theorem length_lt_of_cut (h : r.Cut o m a) : a.units.length < (r.encode o m).length :=
  lt_of_le_of_ne h.isPrefix.length_le fun hlen => h.ne (h.isPrefix.eq_of_length hlen)

/-- When the stream ends in the middle of a message, the function returns the
    default value without decoding anything, if and only if fewer bytes have
    arrived than it asks for. -/
theorem cut_iff (hsent : (r.sent o answers).isSome) (h : r.Cut o m a) :
    r.Rejects o answers a ↔ r.FallsShort o a.units := by
  have hlt := length_lt_of_cut h
  cases r with
  | receiveRequest =>
    refine iff_of_true ((receive_iff h.ended).2 ?_) trivial
    exact hlt.trans_eq (length_putInts o _)
  | receiveIndentity =>
    refine iff_of_true ((receive_iff h.ended).2 ?_) trivial
    exact hlt.trans_eq (length_putInt o _)
  | receiveLogRequest =>
    refine iff_of_true ((receive_iff h.ended).2 ?_) trivial
    refine hlt.trans_eq ?_
    change (putInts o _ ++ putInts o _).length = _
    rw [List.length_append, length_putInts, length_putInts]
    rfl
  | serverReceivePaxosMsg => exact receive_iff h.ended
  | clientReceivePaxosMsg => exact receive_iff h.ended
  | order request =>
    exact iff_of_true (ask_of_lt h.ended hsent (hlt.trans_eq (length_putInts o _))) trivial
  | readRecord request =>
    exact iff_of_true (ask_of_lt h.ended hsent (hlt.trans_eq (length_putInts o _))) trivial
  | backupRecord log =>
    exact iff_of_true (ask_of_lt h.ended hsent (hlt.trans_eq (length_putInts o _))) trivial
  | receiveServerConfig indet => exact receiveServerConfig_iff h.ended indet

/-- This always holds once a header has come, if the configuration is not too long. -/
theorem fallsShort_receiveServerConfig {indet : BitVec 32} {c : ServerConfig}
    (h : (Receiver.receiveServerConfig indet).Cut o c a) (hheader : 4 ≤ a.units.length)
    (hsize : c.size < 2147483648) : (Receiver.receiveServerConfig indet).FallsShort o a.units := by
  have hlt : a.units.length < (putInt o c.size ++ c.marshal o).length := length_lt_of_cut h
  have htake : a.units.take 4 = putInt o c.size := by
    have hpre : a.units <+: putInt o c.size ++ c.marshal o := h.isPrefix
    rw [List.prefix_iff_eq_take.1 hpre, List.take_take, Nat.min_eq_left hheader]
    exact List.take_left' (length_putInt o _)
  have hint : IsInt c.size := ⟨by omega, by omega⟩
  rw [Receiver.FallsShort, getInt, List.drop_zero, List.take_append_of_le_length hheader, htake,
    putInt, o.store_htonl, ByteOrder.load_store, hint.toInt_ofInt]
  rw [List.length_append, length_putInt, ServerConfig.length_marshal] at hlt
  omega

/-- And for a Paxos message whose address is one of the Internet. -/
theorem fallsShort_receivePaxosMsg {m : PaxosMsg} (hip : m.clientIp.length ≤ 15)
    (h : Receiver.clientReceivePaxosMsg.Cut o m a) :
    Receiver.clientReceivePaxosMsg.FallsShort o a.units := by
  have hlt : a.units.length < (m.marshal o).length := length_lt_of_cut h
  have hlen : (m.marshal o).length = m.size := by
    refine Message.length_marshal (m := .paxosMsg m) ?_
    change m.size < _
    rw [PaxosMsg.size]
    omega
  rw [hlen, PaxosMsg.size] at hlt
  change a.units.length < 51
  omega

end

/-- Three of the four bytes of a size have come, and the fourth is that of an
    earlier size. -/
theorem cut_iff_stale_header :
    (Receiver.receiveServerConfig 0x19000000).Rejects .little [] ⟨[[0, 0, 0]], true, by decide⟩ :=
  (cut_iff (r := .receiveServerConfig 0x19000000) (m := ({} : ServerConfig)) rfl
    ⟨rfl, by decide, by decide⟩).2 (by change ((0 : ℕ) : ℤ) < _; decide)

/-- The stream has ended before the size, and the memory for it holds a zero. -/
theorem not_rejects : ¬∀ (o : ByteOrder) (r : Receiver) (m : r.Value) (answers : List ℤ)
    (a : Arrivals UInt8), (r.sent o answers).isSome → r.Cut o m a → r.Rejects o answers a := by
  intro h
  obtain ⟨x, hx, -, hdec⟩ := h .little (.receiveServerConfig 0) ({} : ServerConfig) []
    ⟨[], true, by decide⟩ rfl ⟨rfl, by decide, by decide⟩
  cases hx
  exact Bool.noConfusion hdec

end LaptopPaxos
