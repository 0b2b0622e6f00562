import LaptopPaxos.Lib.Simulation

/-!
# Replicated logs

What the replicas of a log look like from the outside: one log, to which entries are
appended, and readers that get to know its entries, in any order (`replicatedLog`). An
entry is never changed or removed, and what a reader knows it does not forget
(`steps_le`, `Knows.mono`).

A system that refines it (`Machine.Simulation`) does all this with messages.
-/

/-- A log with what its readers know of it. -/
structure ReplicatedLog (ι V : Type*) where
  log : List V := []
  known : ι → Set ℕ := fun _ => ∅

namespace ReplicatedLog

variable {ι V : Type*}

/-- What happens to a log. -/
inductive Op (ι V : Type*)
  | append (v : V)
  | read (i : ι) (n : ℕ)

section

variable [DecidableEq ι]

def step (s : ReplicatedLog ι V) : Op ι V → Option (ReplicatedLog ι V)
  | .append v => some { s with log := s.log ++ [v] }
  | .read i n =>
    if n < s.log.length then
      some { s with known := Function.update s.known i (insert n (s.known i)) }
    else none

end

/-- The reader `i` knows the entry `v` at the position `n`. -/
def Knows (s : ReplicatedLog ι V) (i : ι) (n : ℕ) (v : V) : Prop :=
  n ∈ s.known i ∧ s.log[n]? = some v

instance : Preorder (ReplicatedLog ι V) where
  le s s' := s.log <+: s'.log ∧ ∀ i, s.known i ⊆ s'.known i
  le_refl s := ⟨List.prefix_rfl, fun _ => subset_rfl⟩
  le_trans s s' s'' h h' := ⟨h.1.trans h'.1, fun i => (h.2 i).trans (h'.2 i)⟩

variable {s s' : ReplicatedLog ι V} {i : ι} {n : ℕ} {v : V}

theorem Knows.mono (h : s.Knows i n v) (hs : s ≤ s') : s'.Knows i n v := by
  obtain ⟨hn, hv⟩ := h
  obtain ⟨entries, hlog⟩ := hs.1
  refine ⟨hs.2 i hn, ?_⟩
  rw [← hlog, List.getElem?_append_left (List.getElem?_eq_some_iff.1 hv).1]
  exact hv

variable [DecidableEq ι]

theorem le_step {op : Op ι V} (hst : s.step op = some s') : s ≤ s' := by
  cases op with
  | append v =>
    cases hst
    exact ⟨List.prefix_append _ _, fun _ => subset_rfl⟩
  | read i n =>
    rw [step] at hst
    split_ifs at hst
    cases hst
    refine ⟨List.prefix_rfl, fun j => ?_⟩
    change s.known j ⊆ Function.update s.known i (insert n (s.known i)) j
    by_cases hj : j = i
    · subst hj
      rw [Function.update_self]
      exact Set.subset_insert _ _
    · rw [Function.update_of_ne hj]

end ReplicatedLog

open ReplicatedLog

variable {ι V : Type*} [DecidableEq ι]

/-- The log is empty at first. -/
def replicatedLog (ι V : Type*) [DecidableEq ι] : Machine (ReplicatedLog ι V) (Op ι V) where
  init := {{}}
  step := step

namespace ReplicatedLog

variable {ok : ReplicatedLog ι V → Op ι V → Prop} {s s' : ReplicatedLog ι V} {i j : ι} {n : ℕ}
  {v w : V}

/-- Entries stay, and so does what is known. -/
theorem steps_le (h : (replicatedLog ι V).StepsBy ok s s') : s ≤ s' := by
  induction h with
  | refl => exact le_rfl
  | tail _ hst ih =>
    obtain ⟨op, -, hst⟩ := hst
    exact ih.trans (le_step hst)

end ReplicatedLog
