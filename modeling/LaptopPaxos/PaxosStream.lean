import LaptopPaxos.Receivers

/-!
# Paxos messages on a stream

A Paxos message is as long as its address makes it, and the length of the
address lies inside of the message. Yet the stubs receive every message in a
block of one size, that of a default message, before they know its length.

On a connection that stays open, the messages that have been sent are received
if and only if all of their addresses are as long as the default one
(`received_iff`).
-/

namespace LaptopPaxos

open Reader

def ClientStub.sendPaxosMsg (o : ByteOrder) (answers : List ℤ) (msg : PaxosMsg) :
    Option Transfer :=
  Socket.send answers (msg.marshal o) msg.size

def ServerStub.sendPaxosMsg (o : ByteOrder) (answers : List ℤ) (msg : PaxosMsg) :
    Option Transfer :=
  Socket.send answers (msg.marshal o) msg.size

/-- From one stub of a connection to the other. -/
inductive Direction
  | toServer
  | toClient

namespace Direction

def sendPaxosMsg (o : ByteOrder) : Direction → List ℤ → PaxosMsg → Option Transfer
  | toServer => ClientStub.sendPaxosMsg o
  | toClient => ServerStub.sendPaxosMsg o

def receivePaxosMsg (o : ByteOrder) : Direction → Arrivals UInt8 → Option (Receipt PaxosMsg)
  | toServer => ServerStub.receivePaxosMsg o
  | toClient => ClientStub.receivePaxosMsg o

/-- The bytes that go out if each message is sent with success; a message comes
    with what the system calls answer. -/
def sendAll (o : ByteOrder) (d : Direction) : List (PaxosMsg × List ℤ) → Option (List UInt8)
  | [] => some []
  | (msg, answers) :: calls => (d.sendPaxosMsg o answers msg).bind fun t =>
      if t.ok then (sendAll o d calls).map (t.bytes ++ ·) else none

/-- As many calls, one after the other. There is no result while one of them
    waits for more bytes. -/
def receiveAll (o : ByteOrder) (d : Direction) : ℕ → Arrivals UInt8 → Option (List PaxosMsg)
  | 0, _ => some []
  | n + 1, a => (d.receivePaxosMsg o a).bind fun receipt => receipt.value.bind fun msg =>
      (receiveAll o d n receipt.rest).map (msg :: ·)

end Direction

/-- The fields are values of their types, and the address is one of the Internet. -/
structure PaxosMsg.Addressed (m : PaxosMsg) : Prop where
  fits : (Message.paxosMsg m).Fits
  nulFree : NulFree m.clientIp
  length_le : m.clientIp.length ≤ 15

section

variable {s r : ByteOrder} {d : Direction} {m : PaxosMsg} {a : Arrivals UInt8}

theorem PaxosMsg.size_eq (m : PaxosMsg) : m.size = 36 + m.clientIp.length := by
  rw [size]
  omega

theorem PaxosMsg.Addressed.length_marshal (h : m.Addressed) : (m.marshal s).length = m.size := by
  have hle := h.length_le
  refine Message.length_marshal (m := .paxosMsg m) ?_
  change m.size < _
  rw [m.size_eq]
  omega

theorem Direction.receivePaxosMsg_eq (d : Direction) (a : Arrivals UInt8) :
    d.receivePaxosMsg r a = receive (PaxosMsg.unmarshal r) {} 51 a := by
  cases d <;> rfl

theorem Direction.sendPaxosMsg_eq (d : Direction) (answers : List ℤ) (m : PaxosMsg) :
    d.sendPaxosMsg s answers m = Socket.send answers (m.marshal s) m.size := by
  cases d <;> rfl

/-! ### Sending -/

theorem bytes_of_sendAll {calls : List (PaxosMsg × List ℤ)} {bytes : List UInt8}
    (hm : ∀ m ∈ calls.map Prod.fst, m.Addressed) (h : d.sendAll s calls = some bytes) :
    bytes = (calls.map Prod.fst).flatMap (PaxosMsg.marshal s) := by
  induction calls generalizing bytes with
  | nil => exact (Option.some.inj h).symm
  | cons call calls ih =>
    obtain ⟨msg, answers⟩ := call
    rw [List.map_cons, List.forall_mem_cons] at hm
    rw [Direction.sendAll] at h
    obtain ⟨t, ht, h⟩ := Option.bind_eq_some_iff.1 h
    split_ifs at h with hok
    obtain ⟨rest, hrest, rfl⟩ := Option.map_eq_some_iff.1 h
    have hlen := hm.1.length_marshal (s := s)
    rw [Direction.sendPaxosMsg_eq] at ht
    obtain ⟨hpre, hall, -⟩ := Socket.bytes_of_send ht (by rw [hlen])
    have hbytes : t.bytes = msg.marshal s :=
      hpre.eq_of_length (by rw [hall hok, hlen, Int.toNat_natCast])
    rw [List.map_cons, List.flatMap_cons, hbytes, ih hm.2 hrest]

theorem length_flatMap_marshal {ms : List PaxosMsg} (hm : ∀ m ∈ ms, m.Addressed) :
    (ms.flatMap (PaxosMsg.marshal s)).length = (ms.map PaxosMsg.size).sum := by
  rw [List.length_flatMap, List.map_congr_left fun m h => (hm m h).length_marshal]

/-! ### Receiving -/

/-- While the connection is open, each message takes a block of the stream. -/
theorem length_of_receiveAll {n : ℕ} {ms : List PaxosMsg} (hlive : a.ended = false)
    (h : d.receiveAll r n a = some ms) : 51 * n ≤ a.units.length := by
  induction n generalizing a ms with
  | zero => exact Nat.zero_le _
  | succ n ih =>
    rw [Direction.receiveAll, Direction.receivePaxosMsg_eq, receive] at h
    obtain ⟨receipt, hreceipt, h⟩ := Option.bind_eq_some_iff.1 h
    obtain ⟨msg, -, h⟩ := Option.bind_eq_some_iff.1 h
    obtain ⟨rest, hrest, -⟩ := Option.map_eq_some_iff.1 h
    rcases le_or_gt 51 a.units.length with hle | hlt
    · obtain ⟨t, ht, -, -⟩ := Socket.recvFrom_of_le hle
      rw [ht] at hreceipt
      cases hreceipt
      have hle' := ih (a := a.drop 51) hlive hrest
      rw [Arrivals.units_drop, List.length_drop] at hle'
      omega
    · rw [Socket.recvFrom_waiting hlive hlt] at hreceipt
      cases hreceipt

/-- Messages that fill their blocks are received. -/
theorem receiveAll_flatMap {ms : List PaxosMsg} (hm : ∀ m ∈ ms, m.Addressed)
    (hlen : ∀ m ∈ ms, m.clientIp.length = 15) (ha : a.units = ms.flatMap (PaxosMsg.marshal s)) :
    d.receiveAll r ms.length a = some ms := by
  induction ms generalizing a with
  | nil => rfl
  | cons m ms ih =>
    rw [List.forall_mem_cons] at hm hlen
    rw [List.flatMap_cons] at ha
    have hsize : (m.marshal s).length = 51 := by rw [hm.1.length_marshal, m.size_eq, hlen.1]
    obtain ⟨t, ht, hok, hbytes⟩ := Socket.recvFrom_of_le (a := a) (n := 51)
      (by rw [ha, List.length_append]; omega)
    have hround : (PaxosMsg.unmarshal r).run t.bytes = some (m, []) := by
      obtain ⟨hints, hip⟩ := hm.1.fits
      rw [hbytes, ha, List.take_left' hsize]
      have hrun : (PaxosMsg.unmarshal r).run (m.marshal s ++ []) = some (m, []) :=
        PaxosMsg.run_unmarshal hints hip hm.1.nulFree (by omega)
      rwa [List.append_nil] at hrun
    have hrest : d.receiveAll r ms.length (a.drop 51) = some ms := by
      refine ih hm.2 hlen.2 ?_
      rw [Arrivals.units_drop, ha, List.drop_left' hsize]
    rw [List.length_cons, Direction.receiveAll, Direction.receivePaxosMsg_eq, receive]
    rw [show Socket.recvFrom a (51 : ℕ) = _ from ht, Option.map_some, Option.bind_some]
    dsimp only
    rw [if_pos hok, messageOf, hround, Option.map_some, Option.bind_some, hrest, Option.map_some]

/-- Messages sent on a live connection are received, whatever segments they come
    in, if and only if their addresses are as long as the default one. -/
theorem received_iff {calls : List (PaxosMsg × List ℤ)}
    (hm : ∀ m ∈ calls.map Prod.fst, m.Addressed) (hsend : d.sendAll s calls = some a.units)
    (hlive : a.ended = false) :
    d.receiveAll r calls.length a = some (calls.map Prod.fst) ↔
      ∀ m ∈ calls.map Prod.fst, m.clientIp.length = 15 := by
  have hunits := bytes_of_sendAll hm hsend
  constructor
  · intro h m hmem
    have hle := length_of_receiveAll hlive h
    rw [hunits, length_flatMap_marshal hm] at hle
    by_contra hlen
    -- One message that is too short makes the stream too short.
    have hlt : ((calls.map Prod.fst).map PaxosMsg.size).sum <
        ((calls.map Prod.fst).map fun _ => 51).sum := by
      refine List.sum_lt_sum _ _ (fun m' hm' => ?_) ⟨m, hmem, ?_⟩
      · have := (hm m' hm').length_le
        rw [m'.size_eq]
        omega
      · have := (hm m hmem).length_le
        rw [m.size_eq]
        omega
    rw [List.map_const', List.sum_replicate_nat, List.length_map] at hlt
    omega
  · intro hlen
    have h := receiveAll_flatMap (d := d) (r := r) hm hlen hunits
    rwa [List.length_map] at h

/-- Two prepare messages, the second cut in two by the network. -/
theorem received_iff_two_segments :
    Direction.toServer.receiveAll .big 2
        ⟨[((PaxosMsg.p1a 3).marshal .little ++ (PaxosMsg.p1a 4).marshal .little).take 60,
          ((PaxosMsg.p1a 3).marshal .little ++ (PaxosMsg.p1a 4).marshal .little).drop 60],
          false, by decide +kernel⟩ = some [.p1a 3, .p1a 4] ↔
      ∀ m ∈ [PaxosMsg.p1a 3, .p1a 4], m.clientIp.length = 15 :=
  @received_iff .little .big .toServer _ [(.p1a 3, [51]), (.p1a 4, [20, 31])]
    (by
      rw [List.map_cons, List.map_singleton, List.forall_mem_cons, List.forall_mem_singleton]
      exact ⟨⟨by decide +kernel, by decide, by decide⟩, ⟨by decide +kernel, by decide, by decide⟩⟩)
    (by decide +kernel) rfl

/-- The address of a host is shorter than the default one, and the receiver waits
    for the bytes that are missing. -/
theorem not_received : ¬∀ (s r : ByteOrder) (d : Direction) (calls : List (PaxosMsg × List ℤ))
    (a : Arrivals UInt8), (∀ m ∈ calls.map Prod.fst, m.Addressed) →
      d.sendAll s calls = some a.units → a.ended = false →
        d.receiveAll r calls.length a = some (calls.map Prod.fst) := by
  intro h
  have hrun := h .little .little .toServer [({ phase := 1, clientIp := "127.0.0.1" }, [45])]
    ⟨[PaxosMsg.marshal .little { phase := 1, clientIp := "127.0.0.1" }], false, by decide +kernel⟩
    (by
      rw [List.map_singleton, List.forall_mem_singleton]
      exact ⟨by decide +kernel, by decide, by decide⟩)
    (by decide +kernel) rfl
  have hnone : Direction.toServer.receiveAll .little 1
      ⟨[PaxosMsg.marshal .little { phase := 1, clientIp := "127.0.0.1" }], false,
        by decide +kernel⟩ = none := by decide +kernel
  exact Option.some_ne_none _ (hrun.symm.trans hnone)

end

end LaptopPaxos
