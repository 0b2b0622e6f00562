import LaptopPaxos.Accepted
import LaptopPaxos.Delivery

/-!
# Laptops that are returned

From the Scout that returns it, a laptop comes to its promise, to the engineer that waits
for it and to the customer (`Net.Reports`). On the way it is not changed, except that its
numbers are sent as `int`s.
-/

namespace LaptopPaxos

open LaptopFactory

namespace Net

/-- A Scout of the server `i` has returned the laptop. -/
def Returned (h : List Event) (i : ℤ) (laptop : LaptopInfo) : Prop :=
  ∃ result, .returned i laptop result ∈ h

/-- What holds of the laptops that Scouts return holds of those that engineers get and send. -/
structure Reports (s : Net) (P : ℤ → LaptopInfo → Prop) : Prop where
  fut : ∀ i e laptop, (s.node i).fut e = some laptop → P i laptop
  hand : ∀ ℓ k laptop, s.conn ℓ = some k → k.engineer.pc = .laptop laptop → P k.server laptop
  sent : ∀ ℓ k l, s.conn ℓ = some k → .message (.laptopInfo l) ∈ k.down.sent →
    ∃ laptop, l = laptop.narrow ∧ P k.server laptop

section

variable {H : Hosts} {s s' : Net} {i : ℤ} {ℓ : Link} {k : Conn} {r : EngineerEffect}
  {P Q : ℤ → LaptopInfo → Prop}

theorem Returned.mono {h h' : List Event} {laptop : LaptopInfo} (hl : Returned h i laptop)
    (hsub : h ⊆ h') : Returned h' i laptop := by
  obtain ⟨result, hmem⟩ := hl
  exact ⟨result, hsub hmem⟩

/-- An engineer sets no promise. -/
theorem fut_of_applyEngineer {e : ℤ} {laptop : LaptopInfo}
    (hf : ((s.applyEngineer H ℓ k r).node i).fut e = some laptop) :
    (s.node i).fut e = some laptop := by
  by_cases hi : i = k.server
  · subst hi
    rw [node_applyEngineer_self] at hf
    change (if r.engineer.pc = .order then _ else _ : ℤ → Option LaptopInfo) e = _ at hf
    split_ifs at hf
    · by_cases he : e = k.id
      · rw [he, Function.update_self] at hf
        cases hf
      · rwa [Function.update_of_ne he] at hf
    · exact hf
  · rwa [node_applyEngineer_of_ne hi] at hf

/-- A Scout sets a promise when it returns. -/
theorem fut_of_applyScout {j e : ℤ} {io : ScoutIo} {x : Effect} {laptop : LaptopInfo}
    (hf : ((s.applyScout H i io x).node j).fut e = some laptop) :
    (s.node j).fut e = some laptop ∨ j = i ∧ returnedLaptop x.events = some laptop := by
  by_cases hj : j = i
  · subst hj
    rw [node_applyScout_self] at hf
    cases hret : returnedLaptop x.events with
    | none =>
      rw [hret] at hf
      exact .inl hf
    | some l =>
      rw [hret] at hf
      change Function.update (s.node j).fut l.engineerId (some l) e = _ at hf
      rw [Function.update_apply] at hf
      split_ifs at hf
      · exact .inr ⟨rfl, hf⟩
      · exact .inl hf
  · rw [node_applyScout_of_ne hj] at hf
    exact .inl hf

/-- An engineer gets a laptop from its promise, and sends the one in its hand. -/
theorem Reports.engineer {o o' : ByteOrder} {role : Role} {k' : Conn}
    (hrep : s.Reports P) (hmono : ∀ i laptop, P i laptop → Q i laptop) (hk : s.conn ℓ = some k)
    (hk' : (s.applyEngineer H ℓ k r).conn ℓ = some k')
    (hmove : EngineerMove o o' role k.id (s.node k.server).factory
      ((s.node k.server).fut k.id) k r k') : (s.applyEngineer H ℓ k r).Reports Q := by
  have hserver : k'.server = k.server := by cases hmove <;> rfl
  have hhand : ∀ laptop, k'.engineer.pc = .laptop laptop → P k.server laptop := by
    intro laptop hl
    cases hmove with
    | @send p t hp hfac _ _ heng =>
      change r.engineer.pc = _ at hl
      rw [heng] at hl
      cases hpc : k.engineer.pc <;> rw [hpc] at hp hl <;> cases hp <;> cases hl
    | @handle p _ _ _ hup hkind hfac heng =>
      change r.engineer.pc = _ at hl
      rw [heng] at hl
      have hcases := handle_cases (e := k.id) (f := (s.node k.server).factory)
        hup.not_logRequest hkind
      generalize handle k.id (s.node k.server).factory k.engineer.pc p = x at hcases hl
      cases hcases with
      | order | record => cases hl
      | acceptor hfree | learner hfree | free hfree => exact absurd hl (hfree.ne.2 laptop)
    | fail hfac heng =>
      change r.engineer.pc = _ at hl
      rw [heng] at hl
      cases hl
    | wake hpc hfut hfac heng =>
      change r.engineer.pc = _ at hl
      rw [heng] at hl
      cases hl
      exact hrep.fut _ _ _ hfut
    | leave hpc hfac heng =>
      change r.engineer.pc = _ at hl
      rw [heng] at hl
      cases hl
  have hsent : ∀ l, .message (.laptopInfo l) ∈ k'.down.sent →
      ∃ laptop, l = laptop.narrow ∧ P k.server laptop := by
    intro l hl
    cases hmove with
    | @send p t hp hfac _ _ heng =>
      rcases List.mem_append.1 hl with hl | hl
      · exact hrep.sent ℓ k l hk hl
      · have heq := List.mem_singleton.1 hl
        cases hpc : k.engineer.pc <;> rw [hpc] at hp <;> cases hp <;> cases heq
        exact ⟨_, rfl, hrep.hand ℓ k _ hk hpc⟩
    | _ => exact hrep.sent ℓ k l hk hl
  refine ⟨fun i e laptop hf => ?_, fun ℓ' k₁ laptop hk₁ hl => ?_, fun ℓ' k₁ l hk₁ hl => ?_⟩
  · exact hmono _ _ (hrep.fut i e laptop (fut_of_applyEngineer hf))
  · by_cases hℓ : ℓ' = ℓ
    · subst hℓ
      cases hk'.symm.trans hk₁
      rw [hserver]
      exact hmono _ _ (hhand laptop hl)
    · rw [conn_applyEngineer_of_ne hℓ] at hk₁
      exact hmono _ _ (hrep.hand ℓ' k₁ laptop hk₁ hl)
  · by_cases hℓ : ℓ' = ℓ
    · subst hℓ
      cases hk'.symm.trans hk₁
      obtain ⟨laptop, heq, hl⟩ := hsent l hl
      exact ⟨laptop, heq, hserver ▸ hmono _ _ hl⟩
    · rw [conn_applyEngineer_of_ne hℓ] at hk₁
      obtain ⟨laptop, heq, hl⟩ := hrep.sent ℓ' k₁ l hk₁ hl
      exact ⟨laptop, heq, hmono _ _ hl⟩

/-- A Scout or a client takes a step. -/
theorem Reports.of_stems {dial : ℤ → Link} (hrep : s.Reports P)
    (hmono : ∀ i laptop, P i laptop → Q i laptop)
    (hstems : ∀ ℓ k', s'.conn ℓ = some k' → s.Stems dial s' ℓ k')
    (hfut : ∀ i e laptop, (s'.node i).fut e = some laptop → Q i laptop) : s'.Reports Q := by
  refine ⟨hfut, fun ℓ k' laptop hk' hl => ?_, fun ℓ k' l hk' hl => ?_⟩
  · cases hstems ℓ k' hk' with
    | old hk hsame =>
      rw [hsame.engineer] at hl
      rw [hsame.server]
      exact hmono _ _ (hrep.hand ℓ _ laptop hk hl)
    | new _ hsame =>
      rw [hsame.engineer] at hl
      cases hl
  · cases hstems ℓ k' hk' with
    | old hk hsame =>
      rw [hsame.sent] at hl
      rw [hsame.server]
      obtain ⟨laptop, heq, hl⟩ := hrep.sent ℓ _ l hk hl
      exact ⟨laptop, heq, hmono _ _ hl⟩
    | new _ hsame =>
      rw [hsame.sent] at hl
      cases hl

/-- What a Scout returns is in the history. -/
theorem returned_of_events {env : Env} {inbox : ℤ → List PaxosMsg} {f : LaptopFactory}
    {pc : ScoutPc} {e : Effect} {laptop : LaptopInfo} (hs : ScoutStep i f inbox env pc e)
    (hl : returnedLaptop e.events = some laptop) : Returned e.events i laptop := by
  cases hs with
  | giveUp | tooFew =>
    cases hl
    exact ⟨_, List.mem_cons_self⟩
  | record =>
    cases hl
    exact ⟨_, List.mem_cons_self⟩
  | connect => rw [scoutConnect] at hl; cases hl
  | command => rw [commanderConnect] at hl; cases hl
  | _ => cases hl

/-- A Scout takes a step, and sets a promise when it returns. -/
theorem Reports.scout {io : ScoutIo} {x : Effect} (hrep : s.Reports P)
    (hmono : ∀ i laptop, P i laptop → Q i laptop)
    (hnew : ∀ laptop, returnedLaptop x.events = some laptop → Q i laptop) :
    (s.applyScout H i io x).Reports Q := by
  refine hrep.of_stems hmono (fun ℓ k' hk' => stems_applyScout hk') fun j e laptop hf => ?_
  rcases fut_of_applyScout hf with hold | ⟨rfl, hl⟩
  · exact hmono _ _ (hrep.fut j e laptop hold)
  · exact hnew laptop hl

end

end Net

end LaptopPaxos
