import LaptopPaxos.Learn
import LaptopPaxos.Lib.Machine
import LaptopPaxos.Scout
import Mathlib.Data.Int.Range
import Mathlib.Order.Bounds.Basic

/-!
# The two cursors

A server goes through the slots with two cursors: `slotOut`, the next slot to
commit, moves when a decision is learned, and `slotIn`, the next slot to propose
for, when the Scout picks one. They move at different times over a map that is
filled in any order, and overwritten.

The commit cursor always stands at the least slot that is not decided, and the
other one never overtakes it (`Cursors`). So the Scout ends up with the very
same slot.
-/

namespace LaptopPaxos

open LaptopFactory

/-- What moves the cursors of a server. -/
inductive CursorAction
  /-- A call of `Learn`. -/
  | learn (cmd : Command)
  /-- The Scout picks a slot for its own command. -/
  | pickSlot (laptop : LaptopInfo) (l : Prepare) (env : Env)

/-- A server that has just started, whose log file is empty. -/
def cursors : Machine LaptopFactory CursorAction where
  init := {f | f.slotIn = 1 ∧ f.slotOut = 1 ∧ f.decisionMap = .empty ∧ f.log = ""}
  step f
    | .learn cmd => if 1 ≤ cmd.slot then some (f.learn cmd) else none
    | .pickSlot laptop l env => some (pickSlot f.factoryId f laptop l env).factory

/-- The slots from 1 on that are not decided. -/
def freeSlots (f : LaptopFactory) : Set ℤ := {s | 1 ≤ s ∧ s ∉ f.decisionMap}

/-- The numbers 1, 2, … below `s`. -/
def slotsBelow (s : ℤ) : List ℤ := (List.range (s - 1).toNat).map fun k : ℕ => (1 : ℤ) + k

structure Cursors (f : LaptopFactory) : Prop where
  least : IsLeast (freeSlots f) f.slotOut
  log : ∃ E, f.log = logText E ∧ E.map Prod.fst = slotsBelow f.slotOut
  one_le : 1 ≤ f.slotIn
  le : f.slotIn ≤ f.slotOut

variable {f f' : LaptopFactory} {act : CursorAction}

theorem mem_of_isLeast {s t : ℤ} (h : IsLeast (freeSlots f) s) (ht : 1 ≤ t) (hts : t < s) :
    t ∈ f.decisionMap := by
  by_contra hfree
  exact absurd (h.2 ⟨ht, hfree⟩) (not_le.2 hts)

/-- The slot that the Scout picks is the one to be committed next. -/
theorem Cursors.firstFree_eq (h : Cursors f) : f.decisionMap.firstFree f.slotIn = f.slotOut :=
  StdMap.firstFree_eq h.le h.least.1.2 fun _ ht hlt =>
    mem_of_isLeast h.least (h.one_le.trans ht) hlt

theorem Cursors.pickSlot (h : Cursors f) (laptop : LaptopInfo) (l : Prepare) (env : Env) :
    Cursors (pickSlot f.factoryId f laptop l env).factory where
  least := h.least
  log := h.log
  one_le := by
    change 1 ≤ f.decisionMap.firstFree f.slotIn
    exact h.one_le.trans (f.decisionMap.le_firstFree _)
  le := h.firstFree_eq.le

/-- The lines of a call go on where the log has ended. -/
theorem slotsBelow_append (cmd : Command) {s : ℤ} (hs : 1 ≤ s) (k : ℕ) :
    slotsBelow s ++ (linesFrom cmd s k).map Prod.fst = slotsBelow (s + k) := by
  have hcount : (s + k - 1).toNat = (s - 1).toNat + k := by omega
  have hone : ((s - 1).toNat : ℤ) = s - 1 := Int.toNat_of_nonneg (by omega)
  rw [slotsBelow, slotsBelow, hcount, List.range_add, List.map_append, List.map_map,
    numbers_linesFrom]
  refine congrArg _ (List.map_congr_left fun j _ => ?_)
  rw [Function.comp_apply]
  push_cast
  omega

theorem Cursors.learn (h : Cursors f) (cmd : Command) : Cursors (f.learn cmd) := by
  obtain ⟨k, hk, hf⟩ := learn_spec cmd f
  obtain ⟨⟨hone, hfree⟩, hleast⟩ := h.least
  rw [hf]
  refine ⟨⟨⟨?_, ?_⟩, fun t ht => ?_⟩, ?_, h.one_le, ?_⟩
  · change 1 ≤ f.slotOut + k
    omega
  · change f.slotOut + k ∉ f.decisionMap.insert cmd.slot cmd
    rw [hk]
    exact StdMap.firstFree_not_mem _ _
  · -- below the old cursor nothing was free, and the loop has passed only decided slots
    obtain ⟨ht, htfree⟩ := ht
    change f.slotOut + k ≤ t
    by_contra hlt
    refine htfree ?_
    by_cases hold : t < f.slotOut
    · exact StdMap.mem_insert.2 (.inr (mem_of_isLeast h.least ht hold))
    · exact StdMap.mem_of_lt_firstFree (not_lt.1 hold) (hk ▸ not_le.1 hlt)
  · obtain ⟨E, hlog, hE⟩ := h.log
    refine ⟨E ++ linesFrom cmd f.slotOut k, ?_, ?_⟩
    · change f.log ++ _ = _
      rw [hlog, logText_append]
    · rw [List.map_append, hE]
      exact slotsBelow_append cmd hone k
  · change f.slotIn ≤ f.slotOut + k
    have := h.le
    omega

theorem cursors_of_reachable (h : cursors.Reachable f) : Cursors f := by
  refine h.invariant (fun f hinit => ?_) fun f act f' _ hf _ hst => ?_
  · obtain ⟨hin, hout, hmap, hlog⟩ := hinit
    refine ⟨⟨⟨hout.ge, ?_⟩, fun t ht => hout.le.trans ht.1⟩, ⟨[], hlog, ?_⟩, hin.ge, ?_⟩
    · rw [hmap]
      exact StdMap.not_mem_empty _
    · rw [hout]
      rfl
    · rw [hin, hout]
  · cases act with
    | learn cmd =>
      change (if 1 ≤ cmd.slot then _ else none) = some f' at hst
      split_ifs at hst
      cases hst
      exact hf.learn cmd
    | pickSlot laptop l env =>
      cases hst
      exact hf.pickSlot laptop l env

/-- The cursors after any calls of `Learn` and any picks of the Scout, and the
    slot that the Scout would pick now. -/
theorem cursors_in_order (h : cursors.Reachable f) :
    IsLeast (freeSlots f) f.slotOut ∧
    (∃ E, f.log = logText E ∧ E.map Prod.fst = slotsBelow f.slotOut) ∧
    (∀ laptop env, IsLeast (freeSlots f) (selfCommand f laptop env).slot) ∧
    1 ≤ f.slotIn ∧ f.slotIn ≤ f.slotOut := by
  have hc := cursors_of_reachable h
  refine ⟨hc.least, hc.log, fun laptop env => ?_, hc.one_le, hc.le⟩
  change IsLeast (freeSlots f) (f.decisionMap.firstFree f.slotIn)
  rw [hc.firstFree_eq]
  exact hc.least

/-- The slot 2 is learned before the slot 1, and the Scout picks in between. -/
theorem cursors_in_order_buffered : ∃ f : LaptopFactory, f.slotIn = 1 ∧ f.slotOut = 3 ∧
    IsLeast (freeSlots f) f.slotOut ∧ f.slotIn ≤ f.slotOut := by
  have hinit : cursors.Reachable { factoryId := 1, acceptedValue := { slot := 0 } } :=
    .init ⟨rfl, rfl, rfl, rfl⟩
  obtain ⟨f, hf, hin, hout⟩ := hinit.exists_of_runBy (P := fun f => f.slotIn = 1 ∧ f.slotOut = 3)
    [.learn { slot := 2 }, .pickSlot {} { cmd := { slot := 0 } } {}, .learn { slot := 1 },
      .learn { slot := 1 }] (by decide +kernel)
  obtain ⟨hleast, -, -, -, hle⟩ := cursors_in_order hf
  exact ⟨f, hin, hout, hleast, hle⟩

end LaptopPaxos
