import LaptopPaxos.Handlers

/-!
# Accepted connections

What the other threads do to an engineer: they use the other end of its connection, and
that is all. After a step of a Scout or of a client, a connection has the engineer that it
had, or it has just been accepted (`Net.Stems`). A server numbers the connections that it
accepts, so no two of its engineers have one id (`Net.distinct_of_reachable`).
-/

namespace LaptopPaxos

open LaptopFactory

/-- The server at the other end of a stub. -/
def SocketId.peer : SocketId → ℤ
  | .engineer e => e
  | .acceptor a | .learner a => a

/-- The connection that the Scout of `i` makes to the server `a`. -/
def ScoutPc.dial (i : ℤ) : ScoutPc → ℤ → Link
  | .connect _, a => .acceptor i a
  | _, a => .learner i a

/-- The connection has the same engineer, which has received and sent the same. -/
structure Conn.SameEngineer (k k' : Conn) : Prop where
  server : k'.server = k.server
  id : k'.id = k.id
  engineer : k'.engineer = k.engineer
  decoded : k'.up.decoded = k.up.decoded
  sent : k'.down.sent = k.down.sent

/-- A connection after a step from `s` to `s'` that is not one of an engineer; `dial` has
    the connections that the step makes. -/
inductive Net.Stems (dial : ℤ → Link) (s s' : Net) (ℓ : Link) (k' : Conn) : Prop
  | old {k : Conn} : s.conn ℓ = some k → k.SameEngineer k' → Stems dial s s' ℓ k'
  | new {j : ℤ} : ℓ = dial j → (s.accept j).SameEngineer k' →
      s'.accepted j = s.accepted j + 1 → Stems dial s s' ℓ k'

/-- Every server counts the connections that it accepts. -/
structure Net.Distinct (s : Net) : Prop where
  lt : ∀ ℓ k, s.conn ℓ = some k → k.id < s.accepted k.server
  inj : ∀ ℓ ℓ' k k', s.conn ℓ = some k → s.conn ℓ' = some k' → k.server = k'.server →
    k.id = k'.id → ℓ = ℓ'

section

variable {H : Hosts} {s s' : Net} {ℓ : Link} {k k' : Conn} {i j c : ℤ} {o : ByteOrder}

theorem Conn.SameEngineer.refl (k : Conn) : k.SameEngineer k := ⟨rfl, rfl, rfl, rfl, rfl⟩

/-- The end that has made a connection leaves the engineer alone. -/
theorem Conn.sameEngineer_useClient {u : Option Use} : k.SameEngineer (k.useClient o u) := by
  cases u with
  | none => exact .refl k
  | some u => cases u <;> exact ⟨rfl, rfl, rfl, rfl, rfl⟩

namespace Net

theorem conn_applyScout_ofStub {x : SocketId} {io : ScoutIo} {r : Effect}
    (hx : Link.ofStub i x = some ℓ) :
    (s.applyScout H i io r).conn ℓ = s.onStub H i io x x.peer (s.conn ℓ) := by
  cases x <;> cases hx <;> exact if_pos rfl

/-- A Scout makes one connection to a server in a step. -/
theorem eq_dial_of_use {x : SocketId} {f : LaptopFactory} {pc : ScoutPc} {t : Transfer} {u : Use}
    (hconn : pc.connects = true) (hu : pc.use f x t = some u) (hx : Link.ofStub i x = some ℓ) :
    ℓ = pc.dial i x.peer := by
  cases pc <;> cases hconn <;> cases x <;> cases hu <;> cases hx <;> rfl

theorem stems_applyScout {io : ScoutIo} {r : Effect}
    (hk : (s.applyScout H i io r).conn ℓ = some k') :
    s.Stems ((s.node i).scout.dial i) (s.applyScout H i io r) ℓ k' := by
  by_cases hstub : ∃ x, Link.ofStub i x = some ℓ
  · obtain ⟨x, hx⟩ := hstub
    rw [conn_applyScout_ofStub hx, onStub] at hk
    split at hk
    · exact .old hk (.refl k')
    · next u hu =>
      obtain ⟨t, ht, hu⟩ := Option.bind_eq_some_iff.1 hu
      obtain ⟨k₀, hk₀, rfl⟩ := Option.map_eq_some_iff.1 hk
      split_ifs at hk₀ with hconn
      · cases hk₀
        refine .new (eq_dial_of_use hconn hu hx) Conn.sameEngineer_useClient (if_pos ⟨hconn, ?_⟩)
        obtain ⟨l₁, l₂, hio, -⟩ := List.lookup_eq_some_iff.1 ht
        refine List.any_eq_true.2 ⟨(x, t), ?_, ?_⟩
        · rw [hio]
          exact List.mem_append_right _ List.mem_cons_self
        · cases x <;> cases hx <;> simp [SocketId.peer]
      · exact .old hk₀ Conn.sameEngineer_useClient
  · rcases conn_applyScout H s i io r ℓ with ⟨x, a, hx, -⟩ | ⟨-, heq⟩
    · exact absurd ⟨x, hx⟩ hstub
    · exact .old (heq ▸ hk) (.refl k')

theorem stems_applyClient {env : ClientEnv} {r : ClientEffect}
    (hst : ClientStep (H.customer c) env (s.client c) r)
    (hk : (s.applyClient H c j r).conn ℓ = some k') :
    s.Stems (fun _ => .customer c (s.made c + 1)) (s.applyClient H c j r) ℓ k' := by
  cases hconn : r.connected with
  | none =>
    rw [(made_applyClient hconn).2] at hk
    by_cases hℓ : ℓ = s.link c
    · rw [hℓ, Function.update_self] at hk
      obtain ⟨k₀, hk₀, rfl⟩ := Option.map_eq_some_iff.1 hk
      exact .old (hℓ ▸ hk₀) Conn.sameEngineer_useClient
    · rw [Function.update_of_ne hℓ] at hk
      exact .old hk (.refl k')
  | some server =>
    rw [(made_applyClient_of_some hst hconn).2] at hk
    by_cases hℓ : ℓ = .customer c (s.made c + 1)
    · rw [hℓ, Function.update_self] at hk
      cases hk
      refine .new (j := j) hℓ (.refl _) ?_
      rw [applyClient, hconn]
      exact Function.update_self ..
    · rw [Function.update_of_ne hℓ] at hk
      exact .old hk (.refl k')

/-! ### Ids -/

theorem Distinct.of_stems {dial : ℤ → Link} (h : s.Distinct)
    (hle : ∀ j, s.accepted j ≤ s'.accepted j)
    (hstems : ∀ ℓ k', s'.conn ℓ = some k' → s.Stems dial s' ℓ k') : s'.Distinct := by
  have hold : ∀ {ℓ k j}, s.conn ℓ = some k → k.server = j → k.id ≠ s.accepted j := by
    rintro ℓ k _ hk rfl heq
    have hlt := h.lt ℓ k hk
    omega
  refine ⟨fun ℓ k' hk' => ?_, fun ℓ ℓ' k₁' k₂' hk₁' hk₂' hserver hid => ?_⟩
  · cases hstems ℓ k' hk' with
    | old hk hsame =>
      rw [hsame.server, hsame.id]
      exact (h.lt ℓ _ hk).trans_le (Int.ofNat_le.2 (hle _))
    | @new j _ hsame hacc =>
      rw [hsame.server, hsame.id]
      change (s.accepted j : ℤ) < s'.accepted j
      omega
  · cases hstems ℓ k₁' hk₁' with
    | old hk₁ hsame₁ =>
      rw [hsame₁.server, hsame₁.id] at *
      cases hstems ℓ' k₂' hk₂' with
      | old hk₂ hsame₂ =>
        exact h.inj ℓ ℓ' _ _ hk₁ hk₂ (hserver.trans hsame₂.server) (hid.trans hsame₂.id)
      | new _ hsame₂ =>
        exact absurd (hid.trans hsame₂.id) (hold hk₁ (hserver.trans hsame₂.server))
    | @new j₁ hℓ₁ hsame₁ =>
      cases hstems ℓ' k₂' hk₂' with
      | old hk₂ hsame₂ =>
        exact absurd (hsame₂.id.symm.trans (hid.symm.trans hsame₁.id))
          (hold hk₂ (hsame₂.server.symm.trans (hserver.symm.trans hsame₁.server)))
      | @new j₂ hℓ₂ hsame₂ =>
        obtain rfl : j₁ = j₂ := hsame₁.server.symm.trans (hserver.trans hsame₂.server)
        exact hℓ₁.trans hℓ₂.symm

theorem accepted_applyScout {io : ScoutIo} {r : Effect} (j : ℤ) :
    s.accepted j ≤ (s.applyScout H i io r).accepted j := by
  change _ ≤ if _ then _ else _
  split_ifs
  · exact Nat.le_succ _
  · exact le_rfl

theorem accepted_applyClient {r : ClientEffect} :
    s.accepted i ≤ (s.applyClient H c j r).accepted i := by
  rw [applyClient]
  split
  · exact le_rfl
  · change _ ≤ Function.update s.accepted j _ i
    rw [Function.update_apply]
    split_ifs with hi
    · rw [hi]
      exact Nat.le_succ _
    · exact le_rfl

theorem Distinct.step {act : NetAction} (h : s.Distinct) (hst : s.step H act = some s') :
    s'.Distinct := by
  cases netStep_cases hst with
  | @engineer ℓ answers k r hk hr hu =>
    have hold : ∀ ℓ' k', (s.applyEngineer H ℓ k r).conn ℓ' = some k' →
        ∃ k, s.conn ℓ' = some k ∧ k'.server = k.server ∧ k'.id = k.id := by
      intro ℓ' k' hk'
      by_cases hℓ : ℓ' = ℓ
      · subst hℓ
        rw [conn_applyEngineer_self] at hk'
        cases hk'
        refine ⟨k, hk, ?_⟩
        cases k.engineer.pc.use (s.node k.server).factory r.transfer <;> exact ⟨rfl, rfl⟩
      · rw [conn_applyEngineer_of_ne hℓ] at hk'
        exact ⟨k', hk', rfl, rfl⟩
    refine ⟨fun ℓ k' hk' => ?_, fun ℓ ℓ' k₁' k₂' hk₁' hk₂' hserver hid => ?_⟩
    · obtain ⟨k, hk, hserver, hid⟩ := hold ℓ k' hk'
      rw [hserver, hid]
      exact h.lt ℓ k hk
    · obtain ⟨k₁, hk₁, hserver₁, hid₁⟩ := hold ℓ k₁' hk₁'
      obtain ⟨k₂, hk₂, hserver₂, hid₂⟩ := hold ℓ' k₂' hk₂'
      exact h.inj ℓ ℓ' k₁ k₂ hk₁ hk₂ (hserver₁.symm.trans (hserver.trans hserver₂))
        (hid₁.symm.trans (hid.trans hid₂))
  | scout hi hio hr hu =>
    exact h.of_stems accepted_applyScout fun ℓ k' hk' => stems_applyScout hk'
  | client hr hu hj =>
    exact h.of_stems (fun i => accepted_applyClient) fun ℓ k' hk' => stems_applyClient hr hk'

theorem distinct_of_reachable (hs : (network H).Reachable s) : s.Distinct := by
  induction hs with
  | init hs =>
    obtain ⟨client, -, rfl⟩ := hs
    exact ⟨fun _ _ hk => (by cases hk), fun _ _ _ _ hk => (by cases hk)⟩
  | step _ _ hst ih => exact ih.step hst

end Net

end

end LaptopPaxos
