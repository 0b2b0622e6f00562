import Mathlib.Data.Finset.Card

/-!
# Majorities

A majority of a finite set `U` is a subset with more than half of its elements,
counted as a program counts: more than `|U| / 2`, rounded down. Two majorities
meet (`Majority.exists_mem_inter`).
-/

variable {α : Type*}

/-- More than half of the elements of `U`. -/
def Majority (U Q : Finset α) : Prop := Q ⊆ U ∧ U.card / 2 < Q.card

namespace Majority

variable {U Q R : Finset α}

theorem exists_mem_inter [DecidableEq α] (hQ : Majority U Q) (hR : Majority U R) : ∃ a ∈ Q, a ∈ R := by
  by_contra! h
  have hdisj : Disjoint Q R := Finset.disjoint_left.2 h
  have hle := Finset.card_le_card (Finset.union_subset hQ.1 hR.1)
  rw [Finset.card_union_of_disjoint hdisj] at hle
  have hq := hQ.2
  have hr := hR.2
  omega

instance [DecidableEq α] : Decidable (Majority U Q) := inferInstanceAs (Decidable (_ ∧ _))

theorem nonempty (hQ : Majority U Q) : Q.Nonempty :=
  Finset.card_pos.1 ((Nat.zero_le _).trans_lt hQ.2)

end Majority
