import Mathlib.Logic.Relation
import Mathlib.Order.Nat

/-!
# Waiting

A relation says who waits for whom, and a predicate who has something to do. It is free of
deadlocks (`DeadlockFree`) if nobody waits for one another in a circle and everyone who has
something to do is ready or waits, by way of others who have, for one who is.

`DeadlockFree.of_lt`: it is enough that what goes down from each to whom it waits for is a
number, and that one with something to do waits only for those that have.
-/

variable {α : Type*} (waits : α → α → Prop) (works : α → Prop)

/-- It has something to do and waits for nobody. -/
def ReadyIn (a : α) : Prop := works a ∧ ∀ b, ¬waits a b

structure DeadlockFree : Prop where
  acyclic : ∀ a, ¬Relation.TransGen waits a a
  progress : ∀ a, works a →
    ∃ b, Relation.ReflTransGen (fun c d => waits c d ∧ works d) a b ∧ ReadyIn waits works b

variable {waits works}

theorem DeadlockFree.of_lt (depth : α → ℕ) (hlt : ∀ a b, waits a b → depth b < depth a)
    (hworks : ∀ a b, waits a b → works a → works b) : DeadlockFree waits works where
  acyclic := by
    have htrans : ∀ a b, Relation.TransGen waits a b → depth b < depth a := by
      intro a b hab
      induction hab with
      | single h => exact hlt _ _ h
      | tail _ h ih => exact (hlt _ _ h).trans ih
    exact fun a ha => lt_irrefl _ (htrans a a ha)
  progress a ha := by
    induction hd : depth a using Nat.strongRec generalizing a with
    | ind d ih =>
      by_cases h : ∃ b, waits a b
      · obtain ⟨b, hab⟩ := h
        have hb := hworks a b hab ha
        obtain ⟨c, hbc, hc⟩ := ih _ (hd ▸ hlt a b hab) b hb rfl
        exact ⟨c, .head ⟨hab, hb⟩ hbc, hc⟩
      · exact ⟨a, .refl, ha, fun b hab => h ⟨b, hab⟩⟩
