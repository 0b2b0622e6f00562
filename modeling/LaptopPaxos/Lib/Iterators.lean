import Mathlib.Data.List.Sort
import LaptopPaxos.Lib.StdMap

/-!
# Iterators

An iterator of an ordered map is the key of the entry that it points to, or
`none` at the end of the map; it is valid as long as the map has the entry. What
is `ahead` of an iterator are the keys that a loop with it has still to visit.

* `ahead_some`: a loop visits the key under the iterator first, and then what is
  ahead of the next one;
* `ahead_erase_next?`: to erase the entry under the iterator takes nothing away
  from what is ahead of the next one.
-/

namespace StdMap

variable {κ α : Type*} [LinearOrder κ] (m : StdMap κ α)

/-- `m.begin()`. -/
def begin? : Option κ := m.keys.head?

/-- The iterator behind the one that points to `k`, as `++iter` and `m.erase(iter)` give it. -/
def next? (k : κ) : Option κ := m.keys.find? (k < ·)

/-- The keys from an iterator on. -/
def ahead : Option κ → List κ
  | none => []
  | some k => m.keys.filter (k ≤ ·)

variable {m} {k j : κ} {v : α} {iter : Option κ}

theorem ahead_sorted (m : StdMap κ α) (iter : Option κ) : (m.ahead iter).Pairwise (· < ·) := by
  cases iter with
  | none => exact .nil
  | some k => exact m.keys_sorted.filter _

theorem mem_ahead : j ∈ m.ahead iter ↔ j ∈ m ∧ ∃ k ∈ iter, k ≤ j := by
  cases iter with
  | none => simp [ahead]
  | some k => simp [ahead, mem_keys]

theorem next?_eq_some (h : m.next? k = some j) : j ∈ m ∧ k < j ∧ ∀ i ∈ m, k < i → j ≤ i := by
  obtain ⟨hlt, l, r, hkeys, hl⟩ := List.find?_eq_some_iff_append.1 h
  have hlt : k < j := of_decide_eq_true hlt
  have hsorted := m.keys_sorted
  rw [hkeys, List.pairwise_append, List.pairwise_cons] at hsorted
  have hmem : ∀ i, i ∈ m ↔ i ∈ l ∨ i = j ∨ i ∈ r := fun i => by
    rw [← mem_keys, hkeys, List.mem_append, List.mem_cons]
  refine ⟨(hmem j).2 (.inr (.inl rfl)), hlt, fun i hi hki => ?_⟩
  rcases (hmem i).1 hi with hi | rfl | hi
  · exact absurd hki (by simpa using hl i hi)
  · exact le_rfl
  · exact (hsorted.2.1.1 i hi).le

theorem next?_eq_none (h : m.next? k = none) (hj : j ∈ m) : j ≤ k := by
  simpa using List.find?_eq_none.1 h j (mem_keys.2 hj)

theorem mem_of_next? (hj : j ∈ m.next? k) : j ∈ m ∧ k < j :=
  have h := next?_eq_some hj
  ⟨h.1, h.2.1⟩

/-- Ahead of the next iterator are the larger keys. -/
theorem mem_ahead_next? : j ∈ m.ahead (m.next? k) ↔ j ∈ m ∧ k < j := by
  rw [mem_ahead]
  refine and_congr_right fun hj => ?_
  cases h : m.next? k with
  | none => simp [next?_eq_none h hj]
  | some i =>
    obtain ⟨-, hlt, hleast⟩ := next?_eq_some h
    simp only [Option.mem_def, Option.some.injEq, exists_eq_left']
    exact ⟨hlt.trans_le, hleast j hj⟩

theorem ahead_begin? (m : StdMap κ α) : m.ahead m.begin? = m.keys := by
  rw [begin?]
  have hsorted := m.keys_sorted
  cases hkeys : m.keys with
  | nil => rfl
  | cons k keys =>
    rw [hkeys] at hsorted
    rw [List.head?_cons, ahead, hkeys, List.filter_eq_self]
    intro j hj
    rcases List.mem_cons.1 hj with rfl | hj
    · exact decide_eq_true le_rfl
    · exact decide_eq_true ((List.pairwise_cons.1 hsorted).1 j hj).le

theorem ahead_some (h : k ∈ m) : m.ahead (some k) = k :: m.ahead (m.next? k) := by
  have hcons : (k :: m.ahead (m.next? k)).Pairwise (· < ·) :=
    List.pairwise_cons.2 ⟨fun j hj => (mem_ahead_next?.1 hj).2, m.ahead_sorted _⟩
  refine (m.ahead_sorted _).eq_of_mem_iff hcons fun j => ?_
  rw [List.mem_cons, mem_ahead_next?, mem_ahead]
  simp only [Option.mem_def, Option.some.injEq, exists_eq_left']
  constructor
  · rintro ⟨hj, hle⟩
    exact hle.eq_or_lt.imp Eq.symm (⟨hj, ·⟩)
  · rintro (rfl | ⟨hj, hlt⟩)
    · exact ⟨h, le_rfl⟩
    · exact ⟨hj, hlt.le⟩

theorem ahead_erase_next? (m : StdMap κ α) (k : κ) :
    (m.erase k).ahead (m.next? k) = m.ahead (m.next? k) := by
  refine ((m.erase k).ahead_sorted _).eq_of_mem_iff (m.ahead_sorted _) fun j => ?_
  rw [mem_ahead, mem_ahead, mem_erase, and_assoc]
  constructor
  · exact fun h => h.2
  · rintro ⟨hj, i, hi, hle⟩
    exact ⟨((mem_of_next? hi).2.trans_le hle).ne', hj, i, hi, hle⟩

/-- An entry that is overwritten leaves the keys as they are. -/
theorem keys_insert_of_mem (h : k ∈ m) (v : α) : (m.insert k v).keys = m.keys := by
  refine (m.insert k v).keys_sorted.eq_of_mem_iff m.keys_sorted fun j => ?_
  rw [mem_keys, mem_keys, mem_insert, or_iff_right_of_imp]
  rintro rfl
  exact h

theorem next?_insert_of_mem (h : k ∈ m) (v : α) (j : κ) : (m.insert k v).next? j = m.next? j := by
  rw [next?, next?, keys_insert_of_mem h]

theorem ahead_insert_of_mem (h : k ∈ m) (v : α) (iter : Option κ) :
    (m.insert k v).ahead iter = m.ahead iter := by
  cases iter with
  | none => rfl
  | some j => rw [ahead, ahead, keys_insert_of_mem h]

end StdMap
