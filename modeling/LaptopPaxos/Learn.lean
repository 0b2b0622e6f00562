import LaptopPaxos.Factory

/-!
# Learning a decision

What a call of `Learn` does: it stores the command and writes a line of the log
for each slot from the commit cursor up to the first that is not decided, every
line with the fields of its argument (`learn_spec`).
-/

namespace LaptopPaxos

open LaptopFactory

/-! ### Texts -/

/-- One line of the log. -/
def logLine (slot : ℤ) (command : Command) : String := saveCommandToFile slot command ""

/-- The contents of a log with the given lines. -/
def logText : List (ℤ × Command) → String
  | [] => ""
  | (slot, command) :: lines => logLine slot command ++ logText lines

theorem saveCommandToFile_eq (slot : ℤ) (command : Command) (file : String) :
    saveCommandToFile slot command file = file ++ logLine slot command := by
  rw [logLine, saveCommandToFile, saveCommandToFile, String.empty_append]

theorem logText_append (E E' : List (ℤ × Command)) :
    logText (E ++ E') = logText E ++ logText E' := by
  induction E with
  | nil => rw [List.nil_append, logText, String.empty_append]
  | cons e E ih => rw [List.cons_append, logText, logText, ih, String.append_assoc]

/-- Two lines for one slot with the same text are for commands with one slot. -/
theorem logLine_inj {k : ℤ} {v w : Command} (hv : 0 ≤ v.slot) (hw : 0 ≤ w.slot) {r r' : String}
    (h : logLine k v ++ r = logLine k w ++ r') : v.slot = w.slot := by
  simp only [logLine, saveCommandToFile, String.empty_append, String.append_assoc,
    String.append_right_inj] at h
  exact toString_space_inj hv hw h

theorem logText_inj {E : List (ℤ × Command)} {g : ℤ × Command → Command}
    (hE : ∀ e ∈ E, 0 ≤ e.2.slot ∧ 0 ≤ (g e).slot ∧ (e.2.slot = (g e).slot → e.2 = g e))
    (h : logText E = logText (E.map fun e => (e.1, g e))) : ∀ e ∈ E, e.2 = g e := by
  induction E with
  | nil => exact fun e he => absurd he List.not_mem_nil
  | cons e E ih =>
    obtain ⟨⟨hv, hw, heq⟩, hE⟩ := List.forall_mem_cons.1 hE
    rw [List.map_cons, logText, logText] at h
    have hg : e.2 = g e := heq (logLine_inj hv hw h)
    rw [← hg, String.append_right_inj] at h
    exact List.forall_mem_cons.2 ⟨hg, ih hE h⟩

/-! ### One call -/

/-- The lines that a call with the command `cmd` writes for `k` slots from `s` on. -/
def linesFrom (cmd : Command) : ℤ → ℕ → List (ℤ × Command)
  | _, 0 => []
  | s, k + 1 => (s, cmd) :: linesFrom cmd (s + 1) k

theorem mem_linesFrom {cmd : Command} {s : ℤ} {k : ℕ} {e : ℤ × Command} :
    e ∈ linesFrom cmd s k ↔ e.2 = cmd ∧ s ≤ e.1 ∧ e.1 < s + k := by
  induction k generalizing s with
  | zero => simp [linesFrom]
  | succ k ih =>
    rw [linesFrom, List.mem_cons, ih, Prod.ext_iff]
    push_cast
    constructor
    · rintro (⟨h₁, h₂⟩ | ⟨h₁, h₂, h₃⟩)
      · exact ⟨h₂, by omega, by omega⟩
      · exact ⟨h₁, by omega, by omega⟩
    · rintro ⟨h₁, h₂, h₃⟩
      by_cases hs : e.1 = s
      · exact .inl ⟨hs, h₁⟩
      · exact .inr ⟨h₁, by omega, by omega⟩

theorem length_linesFrom (cmd : Command) (s : ℤ) (k : ℕ) : (linesFrom cmd s k).length = k := by
  induction k generalizing s with
  | zero => rfl
  | succ k ih => rw [linesFrom, List.length_cons, ih]

theorem numbers_linesFrom (cmd : Command) (s : ℤ) (k : ℕ) :
    (linesFrom cmd s k).map Prod.fst = (List.range k).map fun j : ℕ => s + j := by
  induction k generalizing s with
  | zero => rfl
  | succ k ih =>
    rw [linesFrom, List.map_cons, ih, List.range_succ_eq_map, List.map_cons, List.map_map]
    refine congrArg₂ _ (by simp) (List.map_congr_left fun j _ => ?_)
    rw [Function.comp_apply]
    push_cast
    omega

theorem commitDecided_spec (cmd : Command) (n : ℕ) (f : LaptopFactory) : ∃ k : ℕ,
    f.slotOut + k = f.decisionMap.skipTaken n f.slotOut ∧
    commitDecided cmd n f = { f with
      slotOut := f.slotOut + k, log := f.log ++ logText (linesFrom cmd f.slotOut k) } := by
  induction n generalizing f with
  | zero => exact ⟨0, by simp [StdMap.skipTaken], by simp [commitDecided, linesFrom, logText]⟩
  | succ n ih =>
    rw [commitDecided, StdMap.skipTaken]
    split_ifs with h
    · obtain ⟨k, hk, hf⟩ := ih { f with
        log := saveCommandToFile f.slotOut cmd f.log, slotOut := f.slotOut + 1 }
      have hcount : f.slotOut + ((k + 1 : ℕ) : ℤ) = f.slotOut + 1 + k := by omega
      refine ⟨k + 1, hcount.trans hk, ?_⟩
      rw [hf, hcount, linesFrom, logText, saveCommandToFile_eq, String.append_assoc]
    · exact ⟨0, by simp, by simp [linesFrom, logText]⟩

/-- A call stores the command and writes a line for each slot up to the first
    that is not decided. -/
theorem learn_spec (cmd : Command) (f : LaptopFactory) : ∃ k : ℕ,
    f.slotOut + k = (f.decisionMap.insert cmd.slot cmd).firstFree f.slotOut ∧
    f.learn cmd = { f with
      decisionMap := f.decisionMap.insert cmd.slot cmd
      slotOut := f.slotOut + k
      log := f.log ++ logText (linesFrom cmd f.slotOut k) } :=
  commitDecided_spec cmd _ { f with decisionMap := f.decisionMap.insert cmd.slot cmd }

/-- A learner engineer writes the decisions, the log and the commit cursor only. -/
theorem learn_eq (f : LaptopFactory) (cmd : Command) : ∃ s l,
    f.learn cmd = { f with
      decisionMap := f.decisionMap.insert cmd.slot cmd, slotOut := s, log := l } := by
  obtain ⟨k, -, h⟩ := learn_spec cmd f
  exact ⟨_, _, h⟩

@[simp] theorem learn_decisionMap (f : LaptopFactory) (cmd : Command) :
    (f.learn cmd).decisionMap = f.decisionMap.insert cmd.slot cmd := by
  obtain ⟨s, l, h⟩ := learn_eq f cmd
  rw [h]

theorem learnerEngineer_learn (f : LaptopFactory) (cmd : Command) :
    f.learnerEngineer (.learn cmd) = f.learn cmd := by
  rw [learnerEngineer, if_pos (PaxosMsg.learn_phase cmd), PaxosMsg.getCommand_learn]

end LaptopPaxos
