import LaptopPaxos.Membership
import LaptopPaxos.Recovery
import LaptopPaxos.Framing

/-!
# Start-up

How the programs are started. The server reads its own id and port and its peers off its
command line (`ServerMain.main`), the client the address of a server and what to ask for
(`ClientMain.main`). The servers whose command lines name the same servers, each itself
first and its peers in any order, are those of a deployment (`ServerMain.main_commandLine`),
and with clients they are where the network starts (`network_starts`).
-/

namespace LaptopPaxos

open LaptopFactory Formatted

/-- `AddAcceptor(id, ip, port)` for `n` peers. The number of arguments has been checked. -/
def readPeers : ℕ → List String → Option (List (ℤ × ServerAddress))
  | 0, _ => some []
  | n + 1, id :: ip :: port :: args => do
    let id ← atoi id.toList
    let port ← atoi port.toList
    let peers ← readPeers n args
    return (id, ⟨ip, port⟩) :: peers
  | _ + 1, _ => none

namespace ServerMain

/-- What `main` comes to before its threads start. -/
inductive Start
  | usage
  /-- An argument or a sum is no `int`. -/
  | undefined
  | socketFailed
  | serving (factory : LaptopFactory)
  deriving DecidableEq

/-- `isOpen` says whether the listening socket could be opened, and `indet` is the memory of
    the uninitialised slot. -/
def main (argv : List String) (isOpen : Bool) (indet : ℤ) : Start :=
  match argv with
  | _ :: port :: serverId :: numPeers :: args =>
    match atoi port.toList, atoi serverId.toList, atoi numPeers.toList with
    | some port, some serverId, some numPeers =>
      if ¬IsInt (numPeers * 3) ∨ ¬IsInt (4 + numPeers * 3) then .undefined
      else if (argv.length : ℤ) < 4 + numPeers * 3 then .usage
      else if isOpen = false then .socketFailed
      else
        match readPeers numPeers.toNat args with
        | some peers => .serving (configured indet serverId port peers)
        | none => .undefined
    | _, _, _ => .undefined
  | _ => .usage

/-- The arguments for a peer. -/
def peerArgs (id : ℤ) (addr : ServerAddress) : List String :=
  [toString id, addr.ip, toString addr.port]

/-- The arguments of the server `i`, with its peers in the given order. -/
def commandLine (D : Deployment) (i : ℤ) (peers : List ℤ) : List String :=
  [toString (D.addr i).port, toString i, toString (peers.length : ℤ)] ++
    peers.flatMap fun j => peerArgs j (D.addr j)

end ServerMain

namespace ClientMain

/-- What `main` comes to: the customers whose threads it starts. -/
inductive Start
  | usage
  /-- An argument is no `int`. -/
  | undefined
  | running (clients : List Client)
  deriving DecidableEq

def main (argv : List String) : Start :=
  match argv with
  | _ :: ip :: port :: numCustomers :: numOrders :: requestType :: _ =>
    match atoi port.toList, atoi numCustomers.toList, atoi numOrders.toList,
      atoi requestType.toList with
    | some port, some numCustomers, some numOrders, some requestType =>
      let numCustomers := if requestType = 3 then 1 else numCustomers
      .running ((List.range numCustomers.toNat).map fun i : ℕ =>
        { server := ⟨ip, port⟩, customerId := i, numOrders, requestType })
    | _, _, _, _ => .undefined
  | _ => .usage

end ClientMain

/-! ### The servers -/

section

variable {D : Deployment} {i indet : ℤ} {ids ids' : List ℤ} {f : LaptopFactory}
  {calls calls' : List (ℤ × ServerAddress)}

/-- Two peers can be added in any order. -/
theorem addAcceptor_comm {a b : ℤ × ServerAddress} (h : a.1 ≠ b.1) (f : LaptopFactory) :
    (f.addAcceptor a.1 a.2).addAcceptor b.1 b.2 = (f.addAcceptor b.1 b.2).addAcceptor a.1 a.2 := by
  simp only [addAcceptor, ServerConfig.setServer, StdMap.insert_comm _ h,
    StdMap.insertNew_comm _ h]

theorem addAcceptors_perm (hperm : calls.Perm calls') (hcalls : (calls.map Prod.fst).Nodup)
    (f : LaptopFactory) : addAcceptors calls f = addAcceptors calls' f := by
  refine hperm.foldl_eq' (fun a ha b hb f => ?_) f
  by_cases hab : a = b
  · rw [hab]
  · exact addAcceptor_comm (fun heq => hab (List.inj_on_of_nodup_map hcalls ha hb heq)) f

/-- The peers that a command line names are read off it. -/
theorem readPeers_peerArgs (hint : ∀ j ∈ ids, IsInt j ∧ IsInt (D.addr j).port)
    (rest : List String) :
    readPeers ids.length ((ids.flatMap fun j => ServerMain.peerArgs j (D.addr j)) ++ rest) =
      some (ids.map fun j => (j, D.addr j)) := by
  induction ids with
  | nil => rfl
  | cons j ids ih =>
    obtain ⟨⟨hj, hport⟩, hint⟩ := List.forall_mem_cons.1 hint
    rw [List.flatMap_cons, List.append_assoc, ServerMain.peerArgs, List.length_cons]
    simp only [List.cons_append, List.nil_append, readPeers, atoi_toString hj, atoi_toString hport,
      ih hint, Option.bind_eq_bind, Option.bind_some, Option.pure_def, List.map_cons]

theorem length_commandLine (D : Deployment) (i : ℤ) (ids : List ℤ) :
    (ServerMain.commandLine D i ids).length = 3 + 3 * ids.length := by
  rw [ServerMain.commandLine, List.length_append, List.length_flatMap]
  simp only [ServerMain.peerArgs, List.length_cons, List.length_nil, List.map_const',
    List.sum_replicate, Nat.nsmul_eq_mul]
  omega

/-- A server that is started with the ids and addresses of its peers, in any order, is that
    server of the deployment. -/
theorem ServerMain.main_commandLine (hi : i ∈ D.ids) (hids : ids.Perm (D.ids.filter (· ≠ i)))
    (hint : ∀ j ∈ D.ids, IsInt j ∧ IsInt (D.addr j).port)
    (hcount : 4 + 3 * ids.length < 2147483648) (program : String) (rest : List String) :
    main (program :: commandLine D i ids ++ rest) true (D.indet i) = .serving (D.factory i) := by
  have hlength := length_commandLine D i ids
  have hpeers : ∀ j ∈ ids, IsInt j ∧ IsInt (D.addr j).port := fun j hj =>
    hint j (List.mem_of_mem_filter (hids.subset hj))
  have hnum : ∀ n : ℤ, 0 ≤ n → n ≤ 4 + 3 * ids.length → IsInt n := fun n h₀ h => ⟨by omega, by omega⟩
  have hread := readPeers_peerArgs hpeers rest
  rw [commandLine] at hlength ⊢
  simp only [main, List.cons_append, List.nil_append, atoi_toString (hint i hi).1,
    atoi_toString (hint i hi).2, atoi_toString (hnum ids.length (by omega) (by omega))]
  rw [if_neg, if_neg, if_neg (by decide), Int.toNat_natCast, hread]
  · refine congrArg Start.serving ?_
    rw [Deployment.factory, configured, configured]
    refine addAcceptors_perm (hids.map _) ?_ _
    rw [List.map_map]
    exact (hids.nodup_iff.2 (D.nodup.filter _)).map fun _ _ h => h
  · simp only [List.length_cons, List.length_append, List.length_nil] at hlength ⊢
    omega
  · rw [not_or, not_not, not_not]
    exact ⟨hnum _ (by omega) (by omega), hnum _ (by omega) (by omega)⟩

/-! ### The network -/

/-- The customers of a client program have their places as ids, and have not started. -/
theorem ClientMain.main_running {argv : List String} {clients : List Client}
    (h : ClientMain.main argv = .running clients) {n : ℕ} {c : Client} (hc : clients[n]? = some c) :
    c.customerId = n ∧ c.pc = .init := by
  unfold ClientMain.main at h
  split at h
  · split at h
    · obtain rfl := ClientMain.Start.running.inj h
      rw [List.getElem?_map] at hc
      obtain ⟨m, hm, rfl⟩ := Option.map_eq_some_iff.1 hc
      obtain ⟨hlt, rfl⟩ := List.getElem?_eq_some_iff.1 hm
      rw [List.getElem_range]
      exact ⟨rfl, rfl⟩
    · cases h
  · cases h

/-- Servers that are started with the ids and addresses of one another, each with its peers in
    its own order, and the customers of a client program make an initial state of the network;
    and no two of these customers place the same order. -/
theorem network_starts (H : Hosts) (hcount : 4 + 3 * H.ids.length < 2147483648)
    {argv : List String} {clients : List Client} (hclients : ClientMain.main argv = .running clients) :
    ∃ s ∈ (network H).init,
      (∀ i ∈ H.ids, ∀ ids : List ℤ, ids.Perm (H.ids.filter (· ≠ i)) → ∀ program rest,
        ServerMain.main (program :: ServerMain.commandLine H.toDeployment i ids ++ rest) true
          (H.indet i) = .serving (s.node i).factory) ∧
      (∀ (n : ℕ) c, clients[n]? = some c → s.client n = c) ∧
      ∀ (n m : ℕ) c c' j j', clients[n]? = some c → clients[m]? = some c' → c.requestType = 1 →
        c'.requestType = 1 → c.customerRequest j = c'.customerRequest j' → n = m ∧ j = j' := by
  let client : ℤ → Client := fun k => (clients[k.toNat]?).getD
    { server := ⟨"", 0⟩, customerId := k, numOrders := 0, requestType := 0 }
  refine ⟨_, ⟨client, fun k => ?_, rfl⟩, fun i hi ids hids program rest => ?_, fun n c hc => ?_,
    fun n m c c' j j' hc hc' htype htype' heq => ?_⟩
  · change ((clients[k.toNat]?).getD _).pc = .init
    cases hc : clients[k.toNat]? with
    | none => rfl
    | some c => exact (ClientMain.main_running hclients hc).2
  · refine ServerMain.main_commandLine hi hids (fun j hj => ?_) ?_ program rest
    · obtain ⟨hj, hport, -⟩ := H.fits j hj
      exact ⟨hj, hport⟩
    · have hle := (hids.length_eq.trans_le (List.length_filter_le _ H.ids))
      omega
  · change (clients[(n : ℤ).toNat]?).getD _ = c
    rw [Int.toNat_natCast, hc]
    rfl
  · rw [Client.customerRequest, Client.customerRequest, if_pos htype, if_pos htype'] at heq
    obtain ⟨hcustomer, horder, -⟩ := CustomerRequest.mk.inj heq
    rw [(ClientMain.main_running hclients hc).1, (ClientMain.main_running hclients hc').1] at hcustomer
    exact ⟨Int.ofNat.inj hcustomer, horder⟩

end

/-- One server, and two customers of one order each. -/
theorem network_starts_one : ∃ s ∈ (network Net.OneOrder.hosts).init,
    ServerMain.main ["server", "8001", "1", "0"] true 0 = .serving (s.node 1).factory ∧
    s.client 1 = { server := ⟨"127.0.0.1", 8001⟩, customerId := 1, numOrders := 1, requestType := 1 } := by
  have hrunning : ClientMain.main ["client", "127.0.0.1", "8001", "2", "1", "1"] = .running
      [{ server := ⟨"127.0.0.1", 8001⟩, customerId := 0, numOrders := 1, requestType := 1 },
        { server := ⟨"127.0.0.1", 8001⟩, customerId := 1, numOrders := 1, requestType := 1 }] := by
    decide +kernel
  obtain ⟨s, hs, hserver, hclient, -⟩ := network_starts Net.OneOrder.hosts (by decide) hrunning
  have hserver := hserver 1 (by decide) [] (by decide) "server" []
  have hline : ServerMain.commandLine Net.OneOrder.hosts.toDeployment 1 [] = ["8001", "1", "0"] := by
    decide +kernel
  rw [hline] at hserver
  exact ⟨s, hs, hserver, hclient 1 _ rfl⟩

end LaptopPaxos
