import LaptopPaxos.Steps

/-!
# The members

What `AddAcceptor` keeps of the members of the system: the acceptors with their
addresses, the configuration that the customers get, and the number of
acceptors, from which a majority is counted. A call for an id that is new adds
it to all three (`Membership.addAcceptor`). A call for an id that is there
overwrites the first, leaves the second and counts again, so that the three
agree just when all ids are different (`membership_iff`).
-/

namespace LaptopPaxos

open LaptopFactory

/-- The three structures are about the same servers. -/
structure Membership (f : LaptopFactory) : Prop where
  count : f.numOfAcceptors = f.acceptorMap.size
  servers : ∀ id, f.serverConfig.servers.find? id =
    (f.acceptorMap.find? id).map fun addr => ⟨addr.ip, addr.port⟩

/-- A factory as it is constructed; `indet` is the memory of the uninitialised slot. -/
def LaptopFactory.new (factoryId indet : ℤ) : LaptopFactory :=
  { factoryId, acceptedValue := { slot := indet } }

/-- The calls `AddAcceptor(id, ip, port)`, one after the other. -/
def addAcceptors (calls : List (ℤ × ServerAddress)) (f : LaptopFactory) : LaptopFactory :=
  calls.foldl (fun f call => f.addAcceptor call.1 call.2) f

variable {f : LaptopFactory} {id : ℤ} {addr : ServerAddress} {calls : List (ℤ × ServerAddress)}

theorem Membership.new (factoryId indet : ℤ) : Membership (.new factoryId indet) :=
  ⟨rfl, fun _ => rfl⟩

theorem Membership.addAcceptor (h : Membership f) (hid : id ∉ f.acceptorMap) :
    Membership (f.addAcceptor id addr) where
  count := by
    change f.numOfAcceptors + 1 = (f.acceptorMap.insert id addr).size
    rw [StdMap.size_insert, if_neg hid, h.count]
  servers j := by
    change (f.serverConfig.servers.insertNew id ⟨addr.ip, addr.port⟩).find? j = _
    have hnew : f.serverConfig.servers.find? id = none := by
      rw [h.servers, StdMap.not_mem_iff.1 hid, Option.map_none]
    rw [StdMap.find?_insertNew, LaptopFactory.addAcceptor, StdMap.find?_insert]
    split_ifs
    · rw [hnew]
      rfl
    · exact h.servers j

theorem Membership.addAcceptors (h : Membership f) (hcalls : (calls.map Prod.fst).Nodup)
    (hnew : ∀ call ∈ calls, call.1 ∉ f.acceptorMap) : Membership (addAcceptors calls f) := by
  induction calls generalizing f with
  | nil => exact h
  | cons call calls ih =>
    obtain ⟨hcall, hcalls⟩ := List.nodup_cons.1 hcalls
    obtain ⟨hid, hnew⟩ := List.forall_mem_cons.1 hnew
    refine ih (h.addAcceptor hid) hcalls fun call' hmem hmap => ?_
    rcases StdMap.mem_insert.1 hmap with heq | hold
    · exact hcall (heq ▸ List.mem_map_of_mem hmem)
    · exact hnew call' hmem hold

/-- Every call counts, and every id has one entry. -/
theorem nodup_of_count {factoryId indet : ℤ}
    (h : (addAcceptors calls (.new factoryId indet)).numOfAcceptors =
      (addAcceptors calls (.new factoryId indet)).acceptorMap.size) :
    (calls.map Prod.fst).Nodup := by
  obtain ⟨m, s, heq, hm⟩ := foldl_addAcceptor calls (.new factoryId indet)
  rw [addAcceptors, heq] at h
  have hcount : calls.length = m.size := (Nat.zero_add _).symm.trans h
  have hkeys : m.keys.toFinset = (calls.map Prod.fst).toFinset := by
    ext a
    rw [List.mem_toFinset, StdMap.mem_keys, hm, List.mem_toFinset]
    exact or_iff_right (StdMap.not_mem_empty a)
  have hcard : (calls.map Prod.fst).toFinset.card = (calls.map Prod.fst).length := by
    rw [← hkeys, ← StdMap.size_eq_card, List.length_map, hcount]
  exact Multiset.toFinset_card_eq_card_iff_nodup.1 hcard

theorem membership_iff (factoryId indet : ℤ) (calls : List (ℤ × ServerAddress)) :
    Membership (addAcceptors calls (.new factoryId indet)) ↔ (calls.map Prod.fst).Nodup :=
  ⟨fun h => nodup_of_count h.count, fun h =>
    (Membership.new factoryId indet).addAcceptors h fun _ _ => StdMap.not_mem_empty _⟩

/-- The id 2 is given twice, with two ports. -/
theorem not_membership : ¬∀ (factoryId indet : ℤ) (calls : List (ℤ × ServerAddress)),
    Membership (addAcceptors calls (.new factoryId indet)) := fun h =>
  absurd (h 1 0 [(1, ⟨"127.0.0.1", 8001⟩), (2, ⟨"127.0.0.1", 8002⟩), (2, ⟨"127.0.0.1", 8003⟩)]).count
    (by decide)

/-- The servers of a deployment have different ids. -/
theorem Deployment.membership (D : Deployment) (i : ℤ) : Membership (D.factory i) := by
  refine ((Membership.new i (D.indet i)).addAcceptor (StdMap.not_mem_empty i)).addAcceptors ?_ ?_
  · rw [List.map_map]
    exact (D.nodup.filter _).map fun _ _ h => h
  · intro call hcall hmem
    obtain ⟨j, hj, rfl⟩ := List.mem_map.1 hcall
    have hji : j ≠ i := by simpa using (List.mem_filter.1 hj).2
    exact (StdMap.mem_insert.1 hmem).elim hji (StdMap.not_mem_empty j)

end LaptopPaxos
