import Mathlib.Data.List.Induction
import Mathlib.Data.List.Pairwise
import Mathlib.Data.Finset.Card
import Mathlib.Data.Int.Interval
import Mathlib.Tactic.Common

/-!
# Ordered maps

The ordered dictionary of the C++ standard library: entries with pairwise
distinct keys, traversed in ascending order of the keys. The order is a field
of the structure, so that a map with a repeated or misplaced key cannot be
built, and every operation carries its proof.

* `StdMap.find?` looks a key up, and `find?_insert`, `find?_insertNew` and
  `find?_erase` say what the updates do to it; no later proof looks at the
  list of entries;
* `StdMap.keys` is what a traversal visits: ascending, each key once;
* `StdMap.firstFree` is the loop `while (m.find(s) != m.end()) s++` over a map
  with integer keys: it stops at the least free key from `s` on.
-/

/-- A dictionary whose entries are kept in strictly ascending order of the keys. -/
structure StdMap (κ α : Type*) [LinearOrder κ] where
  entries : List (κ × α)
  sorted : entries.Pairwise (·.1 < ·.1)
  deriving DecidableEq

namespace StdMap

variable {κ α : Type*} [LinearOrder κ]

/-- The map without entries. -/
def empty : StdMap κ α := ⟨[], .nil⟩

instance : Inhabited (StdMap κ α) := ⟨empty⟩

/-- The value stored under `k`. -/
def find? (m : StdMap κ α) (k : κ) : Option α := (m.entries.find? (·.1 = k)).map Prod.snd

/-- `m[k] = v`: the entry of `k` is created or overwritten. -/
def insert (m : StdMap κ α) (k : κ) (v : α) : StdMap κ α where
  entries := m.entries.filter (·.1 < k) ++ (k, v) :: m.entries.filter (k < ·.1)
  sorted := by
    rw [List.pairwise_append, List.pairwise_cons]
    refine ⟨m.sorted.filter _, ⟨fun p hp => ?_, m.sorted.filter _⟩, fun p hp q hq => ?_⟩
    · simpa using (List.mem_filter.1 hp).2
    · have hpk : p.1 < k := by simpa using (List.mem_filter.1 hp).2
      rcases List.mem_cons.1 hq with rfl | hq
      · exact hpk
      · exact hpk.trans (by simpa using (List.mem_filter.1 hq).2)

/-- `m.erase(k)`. -/
def erase (m : StdMap κ α) (k : κ) : StdMap κ α where
  entries := m.entries.filter (·.1 ≠ k)
  sorted := m.sorted.filter _

/-- The keys in the order of a traversal. -/
def keys (m : StdMap κ α) : List κ := m.entries.map Prod.fst

/-- The number of entries. -/
def size (m : StdMap κ α) : ℕ := m.entries.length

instance : Membership κ (StdMap κ α) := ⟨fun m k => (m.find? k).isSome⟩

instance (m : StdMap κ α) (k : κ) : Decidable (k ∈ m) :=
  inferInstanceAs (Decidable ((m.find? k).isSome = true))

/-- `m.insert(std::make_pair(k, v))`: nothing happens if `k` has an entry. -/
def insertNew (m : StdMap κ α) (k : κ) (v : α) : StdMap κ α := if k ∈ m then m else m.insert k v

theorem mem_iff {m : StdMap κ α} {k : κ} : k ∈ m ↔ (m.find? k).isSome = true := Iff.rfl

theorem not_mem_iff {m : StdMap κ α} {k : κ} : k ∉ m ↔ m.find? k = none := by
  rw [mem_iff, Bool.not_eq_true, Option.isSome_eq_false_iff, Option.isNone_iff_eq_none]

theorem mem_of_find? {m : StdMap κ α} {k : κ} {v : α} (h : m.find? k = some v) : k ∈ m := by
  rw [mem_iff, h]; rfl

theorem exists_find? {m : StdMap κ α} {k : κ} (h : k ∈ m) : ∃ v, m.find? k = some v :=
  Option.isSome_iff_exists.1 h

theorem eq_of_entries {m m' : StdMap κ α} (h : m.entries = m'.entries) : m = m' := by
  cases m
  cases m'
  cases h
  rfl

/-- Two entries of one key are the same entry. -/
theorem entries_unique {m : StdMap κ α} {k : κ} {v w : α} (hv : (k, v) ∈ m.entries)
    (hw : (k, w) ∈ m.entries) : v = w := by
  have hkeys : (m.entries.map Prod.fst).Nodup :=
    List.pairwise_map.2 (m.sorted.imp fun h => ne_of_lt h)
  simpa using List.inj_on_of_nodup_map hkeys hv hw rfl

theorem find?_eq_some {m : StdMap κ α} {k : κ} {v : α} :
    m.find? k = some v ↔ (k, v) ∈ m.entries := by
  constructor
  · intro h
    obtain ⟨⟨k', v'⟩, hf, rfl⟩ := Option.map_eq_some_iff.1 h
    obtain rfl : k' = k := by simpa using List.find?_some hf
    exact List.mem_of_find?_eq_some hf
  · intro h
    cases hf : m.entries.find? (·.1 = k) with
    | none => simpa using List.find?_eq_none.1 hf _ h
    | some p =>
      obtain ⟨k', v'⟩ := p
      obtain rfl : k' = k := by simpa using List.find?_some hf
      rw [find?, hf, entries_unique h (List.mem_of_find?_eq_some hf)]
      rfl

/-- Maps with the same values are the same. -/
theorem ext_find? {m m' : StdMap κ α} (h : ∀ k, m.find? k = m'.find? k) : m = m' := by
  have hmem : ∀ p, p ∈ m.entries ↔ p ∈ m'.entries := fun p => by
    rw [← find?_eq_some, ← find?_eq_some, h]
  have hnodup : ∀ {m : StdMap κ α}, m.entries.Nodup := fun {m} =>
    m.sorted.imp fun hlt heq => (heq ▸ hlt).ne rfl
  refine eq_of_entries (List.Perm.eq_of_pairwise (fun p q _ _ hpq hqp => ?_) m.sorted m'.sorted
    ((List.perm_ext_iff_of_nodup hnodup hnodup).2 hmem))
  exact absurd hpq hqp.not_gt

@[simp] theorem find?_empty (k : κ) : (empty : StdMap κ α).find? k = none := rfl

@[simp] theorem not_mem_empty (k : κ) : k ∉ (empty : StdMap κ α) := by simp [mem_iff]

@[simp] theorem find?_insert (m : StdMap κ α) (k j : κ) (v : α) :
    (m.insert k v).find? j = if j = k then some v else m.find? j := by
  ext w
  rw [find?_eq_some, insert, List.mem_append, List.mem_cons, List.mem_filter, List.mem_filter]
  split_ifs with h
  · subst h
    simp [eq_comm]
  · rw [find?_eq_some]
    simp only [Prod.mk.injEq, h, false_and, false_or, decide_eq_true_eq]
    constructor
    · rintro (⟨hw, _⟩ | ⟨hw, _⟩) <;> exact hw
    · exact fun hw => (lt_or_gt_of_ne h).imp (⟨hw, ·⟩) (⟨hw, ·⟩)

@[simp] theorem find?_erase (m : StdMap κ α) (k j : κ) :
    (m.erase k).find? j = if j = k then none else m.find? j := by
  ext w
  rw [find?_eq_some, erase, List.mem_filter]
  split_ifs with h
  · simp [h]
  · simp [h, find?_eq_some]

@[simp] theorem find?_insertNew (m : StdMap κ α) (k j : κ) (v : α) :
    (m.insertNew k v).find? j = if j = k then some ((m.find? k).getD v) else m.find? j := by
  rw [insertNew]
  split_ifs with hk hj hj
  · subst hj
    obtain ⟨w, hw⟩ := exists_find? hk
    rw [hw]; rfl
  · rfl
  · rw [find?_insert, if_pos hj, not_mem_iff.1 hk]; rfl
  · rw [find?_insert, if_neg hj]

theorem insert_comm (m : StdMap κ α) {k j : κ} (h : k ≠ j) (v w : α) :
    (m.insert k v).insert j w = (m.insert j w).insert k v := by
  refine ext_find? fun i => ?_
  simp only [find?_insert]
  split_ifs with hj hk
  · exact absurd (hk.symm.trans hj) h
  all_goals rfl

theorem insertNew_comm (m : StdMap κ α) {k j : κ} (h : k ≠ j) (v w : α) :
    (m.insertNew k v).insertNew j w = (m.insertNew j w).insertNew k v := by
  refine ext_find? fun i => ?_
  simp only [find?_insertNew, if_neg h, if_neg h.symm]
  split_ifs with hj hk
  · exact absurd (hk.symm.trans hj) h
  all_goals rfl

@[simp] theorem mem_insert {m : StdMap κ α} {k j : κ} {v : α} :
    j ∈ m.insert k v ↔ j = k ∨ j ∈ m := by
  rw [mem_iff, mem_iff, find?_insert]
  split_ifs with h <;> simp [h]

@[simp] theorem mem_erase {m : StdMap κ α} {k j : κ} : j ∈ m.erase k ↔ j ≠ k ∧ j ∈ m := by
  rw [mem_iff, mem_iff, find?_erase]
  split_ifs with h <;> simp [h]

/-- Of several values put under one key, the last one stays. -/
theorem find?_foldl_insert (entries : List (κ × α)) (k : κ) :
    (entries.foldl (fun m e => m.insert e.1 e.2) (empty : StdMap κ α)).find? k =
      ((entries.filter (·.1 = k)).getLast?).map Prod.snd := by
  induction entries using List.reverseRecOn with
  | nil => rfl
  | append_singleton entries e ih =>
    rw [List.foldl_append, List.foldl_cons, List.foldl_nil, find?_insert, ih,
      List.filter_append, List.filter_singleton]
    by_cases hk : k = e.1
    · subst hk
      simp
    · simp [hk, Ne.symm hk]

/-! ### Traversals -/

/-- The map is made of its entries. -/
theorem foldl_insert_entries (m : StdMap κ α) :
    m.entries.foldl (fun m e => m.insert e.1 e.2) .empty = m := by
  refine ext_find? fun k => ?_
  rw [find?_foldl_insert]
  cases hlast : (m.entries.filter (·.1 = k)).getLast? with
  | none =>
    rw [Option.map_none, eq_comm, ← not_mem_iff]
    intro hk
    obtain ⟨v, hv⟩ := exists_find? hk
    rw [List.getLast?_eq_none_iff] at hlast
    have hmem : (k, v) ∈ m.entries.filter (·.1 = k) :=
      List.mem_filter.2 ⟨find?_eq_some.1 hv, decide_eq_true rfl⟩
    rw [hlast] at hmem
    exact absurd hmem List.not_mem_nil
  | some e =>
    obtain ⟨hmem, hk⟩ := List.mem_filter.1 (List.mem_of_getLast? hlast)
    rw [Option.map_some, eq_comm, find?_eq_some, ← of_decide_eq_true hk]
    exact hmem

theorem mem_keys {m : StdMap κ α} {k : κ} : k ∈ m.keys ↔ k ∈ m := by
  rw [keys, List.mem_map, mem_iff, Option.isSome_iff_exists]
  constructor
  · rintro ⟨⟨_, v⟩, hv, rfl⟩
    exact ⟨v, find?_eq_some.2 hv⟩
  · rintro ⟨v, hv⟩
    exact ⟨(k, v), find?_eq_some.1 hv, rfl⟩

theorem keys_sorted (m : StdMap κ α) : m.keys.Pairwise (· < ·) := List.pairwise_map.2 m.sorted

theorem keys_nodup (m : StdMap κ α) : m.keys.Nodup := m.keys_sorted.imp ne_of_lt

theorem size_eq_card (m : StdMap κ α) : m.size = m.keys.toFinset.card := by
  rw [List.toFinset_card_of_nodup m.keys_nodup, keys, List.length_map, size]

theorem size_insert (m : StdMap κ α) (k : κ) (v : α) :
    (m.insert k v).size = if k ∈ m then m.size else m.size + 1 := by
  have hkeys : (m.insert k v).keys.toFinset = Insert.insert k m.keys.toFinset := by
    ext j
    simp only [List.mem_toFinset, mem_keys, mem_insert, Finset.mem_insert]
  rw [size_eq_card, hkeys, Finset.card_insert_eq_ite, size_eq_card]
  simp only [List.mem_toFinset, mem_keys]

theorem size_insert_le (m : StdMap κ α) (k : κ) (v : α) : (m.insert k v).size ≤ m.size + 1 := by
  rw [size_insert]
  split_ifs <;> omega

/-- A key beyond all others comes last. -/
theorem entries_insert_of_lt {m : StdMap κ α} {k : κ} (h : ∀ p ∈ m.entries, p.1 < k) (v : α) :
    (m.insert k v).entries = m.entries ++ [(k, v)] := by
  have hbelow : m.entries.filter (·.1 < k) = m.entries :=
    List.filter_eq_self.2 fun p hp => decide_eq_true (h p hp)
  have habove : m.entries.filter (k < ·.1) = [] :=
    List.filter_eq_nil_iff.2 fun p hp => by simpa using (h p hp).le
  change m.entries.filter (·.1 < k) ++ (k, v) :: m.entries.filter (k < ·.1) = _
  rw [hbelow, habove]

/-! ### The least free key -/

section Cursor

variable {α : Type*}

/-- At most `n` turns of the loop `while (m.find(s) != m.end()) s++`. -/
def skipTaken (m : StdMap ℤ α) : ℕ → ℤ → ℤ
  | 0, s => s
  | n + 1, s => if s ∈ m then skipTaken m n (s + 1) else s

/-- The least key from `s` on that is not in use. The loop turns at most once
    for each entry of the map. -/
def firstFree (m : StdMap ℤ α) (s : ℤ) : ℤ := m.skipTaken m.size s

theorem le_skipTaken (m : StdMap ℤ α) (n : ℕ) (s : ℤ) : s ≤ m.skipTaken n s := by
  induction n generalizing s with
  | zero => exact le_rfl
  | succ n ih =>
    rw [skipTaken]
    split_ifs
    · exact (by omega : s ≤ s + 1).trans (ih _)
    · exact le_rfl

theorem mem_of_lt_skipTaken {m : StdMap ℤ α} {n : ℕ} {s t : ℤ} (hs : s ≤ t)
    (ht : t < m.skipTaken n s) : t ∈ m := by
  induction n generalizing s with
  | zero => exact absurd ht (not_lt.2 hs)
  | succ n ih =>
    rw [skipTaken] at ht
    split_ifs at ht with h
    · rcases eq_or_lt_of_le hs with rfl | hlt
      · exact h
      · exact ih hlt ht
    · omega

/-- A loop still on a taken key after `n` turns has passed `n` keys. -/
theorem skipTaken_of_mem {m : StdMap ℤ α} {n : ℕ} {s : ℤ} (h : m.skipTaken n s ∈ m) :
    m.skipTaken n s = s + n := by
  induction n generalizing s with
  | zero => simp [skipTaken]
  | succ n ih =>
    rw [skipTaken] at h ⊢
    split_ifs at h ⊢ with hs
    · rw [ih h]; omega
    · exact absurd h hs

theorem le_firstFree (m : StdMap ℤ α) (s : ℤ) : s ≤ m.firstFree s := m.le_skipTaken _ s

theorem mem_of_lt_firstFree {m : StdMap ℤ α} {s t : ℤ} (hs : s ≤ t) (ht : t < m.firstFree s) :
    t ∈ m := mem_of_lt_skipTaken hs ht

/-- The loop has enough turns: it would pass more keys than the map has. -/
theorem firstFree_not_mem (m : StdMap ℤ α) (s : ℤ) : m.firstFree s ∉ m := by
  intro h
  have hend := skipTaken_of_mem h
  have hsub : Finset.Icc s (m.firstFree s) ⊆ m.keys.toFinset := by
    intro t ht
    obtain ⟨h₁, h₂⟩ := Finset.mem_Icc.1 ht
    rw [List.mem_toFinset, mem_keys]
    rcases eq_or_lt_of_le h₂ with rfl | hlt
    · exact h
    · exact mem_of_lt_firstFree h₁ hlt
  have hcard := (Finset.card_le_card hsub).trans m.keys.toFinset_card_le
  rw [firstFree, hend, Int.card_Icc, keys, List.length_map] at hcard
  rw [size] at hcard
  omega

/-- The least free key is beyond `t` if all keys up to `t` are in use. -/
theorem lt_firstFree_iff {m : StdMap ℤ α} {s t : ℤ} :
    t < m.firstFree s ↔ ∀ r, s ≤ r → r ≤ t → r ∈ m := by
  constructor
  · exact fun h r h₁ h₂ => mem_of_lt_firstFree h₁ (h₂.trans_lt h)
  · intro h
    by_contra hle
    exact m.firstFree_not_mem s (h _ (m.le_firstFree s) (not_lt.1 hle))

/-- Characterisation of the least free key. -/
theorem firstFree_eq {m : StdMap ℤ α} {s r : ℤ} (hs : s ≤ r) (hr : r ∉ m)
    (h : ∀ t, s ≤ t → t < r → t ∈ m) : m.firstFree s = r := by
  rcases lt_trichotomy (m.firstFree s) r with hlt | heq | hgt
  · exact absurd (h _ (m.le_firstFree s) hlt) (m.firstFree_not_mem s)
  · exact heq
  · exact absurd (mem_of_lt_firstFree hs hgt) hr

end Cursor

end StdMap
