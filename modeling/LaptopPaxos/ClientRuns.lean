import LaptopPaxos.Turns
import Mathlib.Data.Prod.Lex

/-!
# Runs of a client

What the thread of a customer does in a whole run, whatever the servers send it and
whichever of its system calls fail.

* Its loop variable stays in its range (`Client.Counting`), so that the requests are
  those of its arguments (`Client.Makes`).
* It comes to an end (`client_ends`): with each order or each reconnection the loop
  variable grows, in between the thread goes on towards the end of the turn, and the
  search for another server tries each of the list once.
-/

namespace LaptopPaxos

open Reader

/-! ### The loop variable -/

/-- The value of the loop variable, and whether it is that of a turn of the loop. -/
def ClientPc.index : ClientPc → Option (ℤ × Bool)
  | .identify i | .header i | .config i _ => some (i, false)
  | .request i | .answer i | .reconnect i _ => some (i, true)
  | .init | .done | .fault => none

/-- A request that the client makes. -/
def Client.Makes (c : Client) (q : CustomerRequest) : Prop :=
  ∃ i, 0 ≤ i ∧ c.head i = .request i ∧ q = c.customerRequest i

/-- The loop variable is in its range. -/
structure Client.Counting (c : Client) : Prop where
  nonneg : ∀ i b, c.pc.index = some (i, b) → 0 ≤ i
  turn : ∀ i, c.pc.index = some (i, true) → c.head i = .request i
  reconnect : ∀ i servers, c.pc = .reconnect i servers → c.requestType = 1

/-- The arguments of the thread. -/
structure Client.SameArgs (c c' : Client) : Prop where
  customerId : c'.customerId = c.customerId
  numOrders : c'.numOrders = c.numOrders
  requestType : c'.requestType = c.requestType

section

variable {o : ByteOrder} {c c' : Client} {env : ClientEnv} {r : ClientEffect} {i : ℤ}
  {q : CustomerRequest}

theorem Client.SameArgs.head (h : c.SameArgs c') (i : ℤ) : c'.head i = c.head i := by
  rw [Client.head, Client.head, h.requestType, h.numOrders]

theorem Client.SameArgs.customerRequest (h : c.SameArgs c') (i : ℤ) :
    c'.customerRequest i = c.customerRequest i := by
  rw [Client.customerRequest, Client.customerRequest, h.requestType, h.customerId]

theorem Client.SameArgs.makes (h : c.SameArgs c') : c'.Makes q ↔ c.Makes q := by
  refine exists_congr fun i => ?_
  rw [h.head, h.customerRequest]

/-- The search for a server ends with a connection or goes on. -/
theorem Client.reconnect_cases (c : Client) (env : ClientEnv) (server : ServerInfo)
    (success failure : ClientPc) :
    c.reconnect env server success failure =
        { client := { c with pc := success, isInitialized := true }, connected := some server } ∨
      c.reconnect env server success failure =
        { client := { c with pc := failure, isInitialized := false } } := by
  rw [reconnect]
  split_ifs
  · exact .inl rfl
  · exact .inr rfl

theorem Client.receiveServerConfig_cases (c : Client) (o : ByteOrder) (i : ℤ) (size : ℕ)
    (t : Transfer) :
    ∃ config b, c.receiveServerConfig o i size t =
        { c with serverConfig := config, isInitialized := b, pc := c.head i } ∨
      c.receiveServerConfig o i size t = { c with isInitialized := b, pc := .fault } := by
  rw [receiveServerConfig]
  cases serverConfigOf o size t with
  | none => exact ⟨{}, _, .inr rfl⟩
  | some config => exact ⟨config, _, .inl rfl⟩

/-- A client keeps the arguments of its thread. -/
theorem ClientStep.sameArgs (h : ClientStep o env c r) : c.SameArgs r.client := by
  cases h with
  | init =>
    rcases c.reconnect_cases env c.server (.identify 0) .done with h | h <;> rw [h] <;>
      exact ⟨rfl, rfl, rfl⟩
  | @retry i server servers =>
    rcases c.reconnect_cases env server (.identify (i + 1)) (.reconnect i servers) with h | h <;>
      rw [h] <;> exact ⟨rfl, rfl, rfl⟩
  | @config i size t =>
    obtain ⟨config, b, h | h⟩ := c.receiveServerConfig_cases o i size t <;> rw [h] <;>
      exact ⟨rfl, rfl, rfl⟩
  | _ => exact ⟨rfl, rfl, rfl⟩

/-- Where the thread goes on after a turn of its loop. -/
inductive Client.Answered (c : Client) (i : ℤ) : ClientPc → Prop
  | fault : Answered c i .fault
  | refused : c.requestType = 1 → Answered c i .done
  | lost (servers : List ServerInfo) : c.requestType = 1 → Answered c i (.reconnect i servers)
  | next : c.requestType = 1 ∨ c.requestType = 3 → Answered c i (c.head (i + 1))
  | queried : c.requestType ≠ 1 → c.requestType ≠ 3 → Answered c i .done

theorem Client.answered_spec (c : Client) (o : ByteOrder) (i : ℤ) (buffer? : Option (List UInt8)) :
    c.Answered i (c.answered o i buffer?) := by
  rw [Client.answered]
  by_cases h1 : c.requestType = 1
  · rw [if_pos h1]
    cases messageOf (LaptopInfo.unmarshal o) {} buffer? with
    | none => exact .fault
    | some laptop =>
      rw [Option.elim_some, onLaptop]
      split_ifs
      · exact .refused h1
      · exact .next (.inl h1)
      · exact .lost _ h1
  · rw [if_neg h1]
    cases messageOf (CustomerRecord.unmarshal o) {} buffer? with
    | none => exact .fault
    | some record =>
      rw [Option.elim_some, onRecord]
      split_ifs with h3
      · exact .next (.inr h3)
      · exact .queried h1 h3

/-- What a step does with the control point. -/
inductive Client.Moves (c c' : Client) : Prop
  | connect : c.pc = .init → c'.pc = .identify 0 → Moves c c'
  | refused : c.pc = .init → c'.pc = .done → Moves c c'
  | identify {i : ℤ} : c.pc = .identify i → c'.pc = .header i → Moves c c'
  | header {i : ℤ} {size : ℕ} : c.pc = .header i → c'.pc = .config i size → Moves c c'
  | config {i : ℤ} {size : ℕ} : c.pc = .config i size → c'.pc = c.head i ∨ c'.pc = .fault →
      Moves c c'
  | request {i : ℤ} : c.pc = .request i → c'.pc = .answer i → Moves c c'
  | answered {i : ℤ} : c.pc = .request i ∨ c.pc = .answer i → c.Answered i c'.pc → Moves c c'
  | lost {i : ℤ} : c.pc = .reconnect i [] → c'.pc = .done → Moves c c'
  | failover {i : ℤ} {server : ServerInfo} {servers : List ServerInfo} :
      c.pc = .reconnect i (server :: servers) → c'.pc = .identify (i + 1) → Moves c c'
  | retry {i : ℤ} {server : ServerInfo} {servers : List ServerInfo} :
      c.pc = .reconnect i (server :: servers) → c'.pc = .reconnect i servers → Moves c c'

theorem ClientStep.moves (h : ClientStep o env c r) : c.Moves r.client := by
  cases h with
  | init hpc =>
    rcases c.reconnect_cases env c.server (.identify 0) .done with heq | heq <;> rw [heq]
    · exact .connect hpc rfl
    · exact .refused hpc rfl
  | identify hpc ht => exact .identify hpc rfl
  | header hpc ht => exact .header hpc rfl
  | @config i size t hpc ht =>
    refine .config hpc ?_
    obtain ⟨config, b, heq | heq⟩ := c.receiveServerConfig_cases o i size t <;> rw [heq]
    · exact .inl rfl
    · exact .inr rfl
  | @request i t hpc ht =>
    rcases Bool.eq_false_or_eq_true t.ok with hok | hok
    · exact .request hpc (if_pos hok)
    · refine .answered (.inl hpc) ?_
      rw [hok]
      exact c.answered_spec o i none
  | @answer i t hpc ht => exact .answered (.inr hpc) (c.answered_spec o i _)
  | lost hpc => exact .lost hpc rfl
  | @retry i server servers hpc =>
    rcases c.reconnect_cases env server (.identify (i + 1)) (.reconnect i servers) with
      heq | heq <;> rw [heq]
    · exact .failover hpc rfl
    · exact .retry hpc rfl

/-- A client receives a configuration after its size. -/
theorem Client.Moves.eq_header (h : c.Moves c') {size : ℕ} (hpc : c'.pc = .config i size) :
    c.pc = .header i := by
  have hhead : ∀ j, c'.pc ≠ c.head j := fun j hj => by
    rw [hpc] at hj
    rcases c.head_cases j with hh | hh <;> rw [hh] at hj <;> cases hj
  cases h with
  | header hc hc' =>
    rw [hc'] at hpc
    cases hpc
    exact hc
  | config hc hc' => exact absurd (hc'.resolve_right fun hf => by cases hpc.symm.trans hf) (hhead _)
  | answered hc hc' =>
    generalize hpc' : c'.pc = pc' at hc'
    cases hc' with
    | next => exact absurd hpc' (hhead _)
    | _ => cases hpc.symm.trans hpc'
  | connect hc hc' => cases hpc.symm.trans hc'
  | refused hc hc' => cases hpc.symm.trans hc'
  | identify hc hc' => cases hpc.symm.trans hc'
  | request hc hc' => cases hpc.symm.trans hc'
  | lost hc hc' => cases hpc.symm.trans hc'
  | failover hc hc' => cases hpc.symm.trans hc'
  | retry hc hc' => cases hpc.symm.trans hc'

/-- The size that a client takes from a header is a word. -/
theorem size_lt_of_reachable (h : (customer o).Reachable c) {size : ℕ}
    (hpc : c.pc = .config i size) : size < 4294967296 := by
  cases h with
  | @init c hc => cases (show c.pc = .init from hc).symm.trans hpc
  | @step c c' env _ _ hst =>
    obtain ⟨r, hr, rfl⟩ := Option.map_eq_some_iff.1 hst
    have hheader := (clientStep_cases hr).moves.eq_header hpc
    rw [clientStep, hheader] at hr
    obtain ⟨t, -, rfl⟩ := Option.map_eq_some_iff.1 hr
    cases hpc
    exact BitVec.isLt _

theorem Client.counting_done (h : c.pc = .done ∨ c.pc = .fault) : c.Counting := by
  rcases h with h | h <;>
    exact ⟨by rw [h]; exact nofun, by rw [h]; exact nofun, by rw [h]; exact nofun⟩

theorem Client.counting_init (h : c.pc = .init) : c.Counting :=
  ⟨by rw [h]; exact nofun, by rw [h]; exact nofun, by rw [h]; exact nofun⟩

/-- At the head of the loop the loop variable is in its range, or the loop is left. -/
theorem Client.Counting.of_head (h0 : 0 ≤ i) (h : c.pc = c.head i) : c.Counting := by
  rcases c.head_cases i with hi | hi
  · refine ⟨fun j b hj => ?_, fun j hj => ?_, fun j servers hj => ?_⟩ <;> rw [h, hi] at hj <;>
      cases hj
    · exact h0
    · exact hi
  · exact counting_done (.inl (h.trans hi))

/-- After the request or its answer. -/
theorem Client.Counting.answered (h : c.Counting) (hi : c.pc.index = some (i, true))
    (hs : c.SameArgs c') (hpc : c.Answered i c'.pc) : c'.Counting := by
  have h0 : 0 ≤ i := h.nonneg i true hi
  generalize hpc' : c'.pc = pc' at hpc
  cases hpc with
  | fault => exact counting_done (.inr hpc')
  | refused => exact counting_done (.inl hpc')
  | queried => exact counting_done (.inl hpc')
  | lost servers h1 =>
    refine ⟨fun j b hj => ?_, fun j hj => ?_, fun j servers hj => ?_⟩ <;> rw [hpc'] at hj <;>
      cases hj
    · exact h0
    · rw [hs.head]
      exact h.turn i hi
    · exact hs.requestType.trans h1
  | next htype =>
    rw [← hs.head] at hpc'
    exact .of_head (by omega) hpc'

theorem Client.Counting.step (h : c.Counting) (hs : c.SameArgs c') (hm : c.Moves c') :
    c'.Counting := by
  -- before the turn and after a reconnection there is only the value of the loop variable
  have hbefore : ∀ {j pc}, 0 ≤ j → pc.index = some (j, false) → c'.pc = pc → c'.Counting := by
    intro j pc hj hidx hpc
    refine ⟨fun k b hk => ?_, fun k hk => ?_, fun k servers hk => ?_⟩ <;> rw [hpc] at hk
    · cases hidx.symm.trans hk
      exact hj
    · cases hidx.symm.trans hk
    · rw [hk] at hidx
      cases hidx
  cases hm with
  | connect hpc hpc' => exact hbefore le_rfl rfl hpc'
  | refused hpc hpc' => exact counting_done (.inl hpc')
  | @identify i hpc hpc' => exact hbefore (h.nonneg i false (by rw [hpc]; rfl)) rfl hpc'
  | @header i size hpc hpc' => exact hbefore (h.nonneg i false (by rw [hpc]; rfl)) rfl hpc'
  | @config i size hpc hpc' =>
    have h0 : 0 ≤ i := h.nonneg i false (by rw [hpc]; rfl)
    rcases hpc' with hpc' | hpc'
    · exact .of_head h0 (hpc'.trans (hs.head i).symm)
    · exact counting_done (.inr hpc')
  | @request i hpc hpc' =>
    have hi : c.pc.index = some (i, true) := by rw [hpc]; rfl
    refine ⟨fun j b hj => ?_, fun j hj => ?_, fun j servers hj => ?_⟩ <;> rw [hpc'] at hj <;>
      cases hj
    · exact h.nonneg i true hi
    · exact (hs.head i).trans (h.turn i hi)
  | @answered i hpc hpc' =>
    have hi : c.pc.index = some (i, true) := by rcases hpc with hpc | hpc <;> rw [hpc] <;> rfl
    exact h.answered hi hs hpc'
  | lost hpc hpc' => exact counting_done (.inl hpc')
  | @failover i server servers hpc hpc' =>
    have h0 : 0 ≤ i := h.nonneg i true (by rw [hpc]; rfl)
    exact hbefore (by omega : 0 ≤ i + 1) rfl hpc'
  | @retry i server servers hpc hpc' =>
    have hi : c.pc.index = some (i, true) := by rw [hpc]; rfl
    refine ⟨fun j b hj => ?_, fun j hj => ?_, fun j servers hj => ?_⟩ <;> rw [hpc'] at hj <;>
      cases hj
    · exact h.nonneg i true hi
    · exact (hs.head i).trans (h.turn i hi)
    · exact hs.requestType.trans (h.reconnect i _ hpc)

theorem counting_of_reachable (h : (customer o).Reachable c) : c.Counting := by
  refine h.invariant (fun c hc => Client.counting_init hc) fun c env c' _ hc _ hst => ?_
  obtain ⟨r, hr, rfl⟩ := Option.map_eq_some_iff.1 hst
  exact hc.step (clientStep_cases hr).sameArgs (clientStep_cases hr).moves

end

/-! ### The end -/

/-- How far the thread is from the end of the turn. -/
def ClientPc.phase : ClientPc → ℕ
  | .init => 7
  | .identify _ => 6
  | .header _ => 5
  | .config _ _ => 4
  | .request _ => 3
  | .answer _ => 2
  | .reconnect _ _ => 1
  | .done | .fault => 0

/-- The servers that are still to try. -/
def ClientPc.servers : ClientPc → List ServerInfo
  | .reconnect _ servers => servers
  | _ => []

/-- The turns that are left. -/
def Client.turnsLeft (c : Client) : ℕ :=
  match c.pc with
  | .init => c.numOrders.toNat
  | .done | .fault => 0
  | pc => pc.index.elim 0 fun p => (c.numOrders - p.1).toNat

/-- What every step of a client lowers. -/
def Client.rank (c : Client) : ℕ ×ₗ ℕ ×ₗ ℕ :=
  toLex (c.turnsLeft, toLex (c.pc.phase, c.pc.servers.length))

section

variable {o : ByteOrder} {c c' : Client} {env : ClientEnv} {r : ClientEffect} {i : ℤ} {b : Bool}

theorem Client.turnsLeft_of_index (h : c.pc.index = some (i, b)) :
    c.turnsLeft = (c.numOrders - i).toNat := by
  rw [turnsLeft]
  cases hpc : c.pc <;> rw [hpc] at h <;> cases h <;> rfl

theorem Client.turnsLeft_of_end (h : c.pc = .done ∨ c.pc = .fault) :
    c.turnsLeft = 0 ∧ c.pc.phase = 0 := by
  rcases h with h | h <;> exact ⟨by rw [turnsLeft, h], by rw [h]; rfl⟩

theorem Client.turnsLeft_head (h : c.pc = c.head i) :
    c.turnsLeft ≤ (c.numOrders - i).toNat ∧ c.pc.phase ≤ 3 := by
  rcases c.head_cases i with hi | hi <;> rw [hi] at h
  · exact ⟨(turnsLeft_of_index (b := true) (by rw [h]; rfl)).le, by rw [h]; rfl⟩
  · obtain ⟨h0, hphase⟩ := turnsLeft_of_end (.inl h)
    omega

/-- A turn of `Orders` or `ScanRecords` is for a loop variable below its bound. -/
theorem Client.lt_of_head (h : c.requestType = 1 ∨ c.requestType = 3)
    (hi : c.head i = .request i) : i < c.numOrders := by
  rw [head, if_pos h] at hi
  split_ifs at hi with hlt
  exact hlt

theorem Client.rank_lt_of_turnsLeft (h : c'.turnsLeft < c.turnsLeft) : c'.rank < c.rank :=
  Prod.Lex.toLex_lt_toLex.2 (.inl h)

theorem Client.rank_lt_of_phase (hle : c'.turnsLeft ≤ c.turnsLeft) (h : c'.pc.phase < c.pc.phase) :
    c'.rank < c.rank := by
  rcases hle.lt_or_eq with hlt | heq
  · exact rank_lt_of_turnsLeft hlt
  · exact Prod.Lex.toLex_lt_toLex.2 (.inr ⟨heq, Prod.Lex.toLex_lt_toLex.2 (.inl h)⟩)

theorem Client.rank_lt_of_end (h : c'.pc = .done ∨ c'.pc = .fault) (hc : 0 < c.pc.phase) :
    c'.rank < c.rank := by
  obtain ⟨h0, hphase⟩ := turnsLeft_of_end h
  exact rank_lt_of_phase (by omega) (by omega)

/-- After the request or its answer the turn is over, or the next server is looked for. -/
theorem Client.Counting.rank_answered (h : c.Counting) (hi : c.pc.index = some (i, true))
    (hs : c.SameArgs c') (hpc : c.Answered i c'.pc) (hphase : 2 ≤ c.pc.phase) :
    c'.rank < c.rank := by
  have hleft := Client.turnsLeft_of_index hi
  generalize hpc' : c'.pc = pc' at hpc
  cases hpc with
  | fault => exact rank_lt_of_end (.inr hpc') (by omega)
  | refused => exact rank_lt_of_end (.inl hpc') (by omega)
  | queried => exact rank_lt_of_end (.inl hpc') (by omega)
  | lost servers h1 =>
    have hleft' : c'.turnsLeft = (c'.numOrders - i).toNat :=
      turnsLeft_of_index (b := true) (by rw [hpc']; rfl)
    rw [hs.numOrders] at hleft'
    exact rank_lt_of_phase (by omega) (by rw [hpc']; exact hphase)
  | next htype =>
    rw [← hs.head] at hpc'
    have hhead := (turnsLeft_head hpc').1
    have hlt := lt_of_head htype (h.turn i hi)
    rw [hs.numOrders] at hhead
    exact rank_lt_of_turnsLeft (by omega)

theorem Client.Counting.rank_lt (h : c.Counting) (hs : c.SameArgs c') (hm : c.Moves c') :
    c'.rank < c.rank := by
  -- within a turn the phase goes down
  have hsame : ∀ i b b', c.pc.index = some (i, b) → c'.pc.index = some (i, b') →
      c'.pc.phase < c.pc.phase → c'.rank < c.rank := by
    intro i b b' hi hi' hphase
    have hleft := turnsLeft_of_index hi
    have hleft' := turnsLeft_of_index hi'
    rw [hs.numOrders] at hleft'
    exact rank_lt_of_phase (by omega) hphase
  cases hm with
  | connect hpc hpc' =>
    have hleft : c.turnsLeft = (c.numOrders - 0).toNat := by rw [turnsLeft, hpc, Int.sub_zero]
    have hleft' := turnsLeft_of_index (i := 0) (b := false) (by rw [hpc']; rfl)
    rw [hs.numOrders] at hleft'
    exact rank_lt_of_phase (by omega) (by rw [hpc, hpc']; exact Nat.lt_succ_self 6)
  | refused hpc hpc' => exact rank_lt_of_end (.inl hpc') (by rw [hpc]; exact Nat.succ_pos 6)
  | @identify i hpc hpc' =>
    exact hsame i false false (by rw [hpc]; rfl) (by rw [hpc']; rfl)
      (by rw [hpc, hpc']; exact Nat.lt_succ_self 5)
  | @header i size hpc hpc' =>
    exact hsame i false false (by rw [hpc]; rfl) (by rw [hpc']; rfl)
      (by rw [hpc, hpc']; exact Nat.lt_succ_self 4)
  | @config i size hpc hpc' =>
    have hleft : c.turnsLeft = (c.numOrders - i).toNat :=
      turnsLeft_of_index (b := false) (by rw [hpc]; rfl)
    rcases hpc' with hpc' | hpc'
    · obtain ⟨hhead, hphase⟩ := turnsLeft_head (hpc'.trans (hs.head i).symm)
      rw [hs.numOrders] at hhead
      exact rank_lt_of_phase (by omega) (by rw [hpc]; exact Nat.lt_succ_of_le hphase)
    · exact rank_lt_of_end (.inr hpc') (by rw [hpc]; exact Nat.succ_pos 3)
  | @request i hpc hpc' =>
    exact hsame i true true (by rw [hpc]; rfl) (by rw [hpc']; rfl)
      (by rw [hpc, hpc']; exact Nat.lt_succ_self 2)
  | @answered i hpc hpc' =>
    rcases hpc with hpc | hpc
    · exact h.rank_answered (by rw [hpc]; rfl) hs hpc' (by rw [hpc]; exact Nat.le_succ 2)
    · exact h.rank_answered (by rw [hpc]; rfl) hs hpc' (by rw [hpc]; exact le_rfl)
  | lost hpc hpc' => exact rank_lt_of_end (.inl hpc') (by rw [hpc]; exact Nat.one_pos)
  | @failover i server servers hpc hpc' =>
    -- the loop goes on with the next order
    have hi : c.pc.index = some (i, true) := by rw [hpc]; rfl
    have hlt := lt_of_head (.inl (h.reconnect i _ hpc)) (h.turn i hi)
    have hleft := turnsLeft_of_index hi
    have hleft' := turnsLeft_of_index (i := i + 1) (b := false) (by rw [hpc']; rfl)
    rw [hs.numOrders] at hleft'
    exact rank_lt_of_turnsLeft (by omega)
  | @retry i server servers hpc hpc' =>
    have hleft := turnsLeft_of_index (i := i) (b := true) (by rw [hpc]; rfl)
    have hleft' := turnsLeft_of_index (i := i) (b := true) (by rw [hpc']; rfl)
    rw [hs.numOrders] at hleft'
    refine Prod.Lex.toLex_lt_toLex.2 (.inr ⟨hleft'.trans hleft.symm, ?_⟩)
    rw [hpc, hpc']
    exact Prod.Lex.toLex_lt_toLex.2 (.inr ⟨rfl, Nat.lt_succ_self _⟩)

/-- A client that is not at its end goes on, if only because its system calls fail. -/
theorem isSome_clientStep (o : ByteOrder) (h : c.pc ≠ .done) (h' : c.pc ≠ .fault) :
    (clientStep o { answers := { send := [-1], recv := [[]] } } c).isSome := by
  have hsend : ∀ buffer size, (Socket.send [-1] buffer size).isSome := by
    intro buffer size
    rw [Socket.send]
    split_ifs
    · rfl
    · omega
    · omega
    · rfl
  have hrecv : ∀ size, (Socket.recv [[]] size).isSome := by
    intro size
    rw [Socket.recv, if_pos rfl]
    split_ifs <;> rfl
  rw [clientStep]
  cases hpc : c.pc with
  | init => rfl
  | identify i => exact Option.isSome_map.trans (hsend _ _)
  | header i => exact Option.isSome_map.trans (hrecv _)
  | config i size => exact Option.isSome_map.trans (hrecv _)
  | request i => exact Option.isSome_map.trans (hsend _ _)
  | answer i => exact Option.isSome_map.trans (hrecv _)
  | reconnect i servers => cases servers <;> rfl
  | done => exact absurd hpc h
  | fault => exact absurd hpc h'

/-- The thread of a client comes to an end, whatever the servers send and the system
    calls return: no run goes on forever, and only at an end can a run not go on. -/
theorem client_ends (o : ByteOrder) :
    (∀ g, ¬(customer o).InfiniteRun (fun _ _ => True) g) ∧
      ∀ c, (customer o).Reachable c →
        ((∀ env, (customer o).step c env = none) ↔ c.pc = .done ∨ c.pc = .fault) := by
  refine ⟨fun g hg => hg.false_of_lt Client.rank fun c env c' hc _ hst => ?_, fun c _ => ?_⟩
  · obtain ⟨r, hr, rfl⟩ := Option.map_eq_some_iff.1 hst
    have hs := clientStep_cases hr
    exact (counting_of_reachable hc).rank_lt hs.sameArgs hs.moves
  · constructor
    · intro h
      by_contra! hne
      have hsome := isSome_clientStep o hne.1 hne.2
      rw [← Option.isSome_map (f := ClientEffect.client)] at hsome
      exact Option.not_isSome_iff_eq_none.2 (h _) hsome
    · rintro (hpc | hpc) env
      · change (clientStep o env c).map _ = none
        rw [clientStep, hpc]
        rfl
      · change (clientStep o env c).map _ = none
        rw [clientStep, hpc]
        rfl

end

end LaptopPaxos
