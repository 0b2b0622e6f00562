import LaptopPaxos.Steps
import Mathlib.Data.Int.Range

/-!
# The durable log

`Learn` writes the slots that have become ready, one line each, but takes the
fields of every line from the command it was called with. The log is the
decided prefix exactly when no call makes two slots ready at once, that is when
no command arrives for the next slot after the one that follows it
(`log_eq_decided_iff`).
-/

namespace LaptopPaxos

open LaptopFactory

/-! ### Sequences of calls -/

/-- The calls `Learn(cmd)` for the commands of a list, in order. -/
def learnAll (cmds : List Command) (f : LaptopFactory) : LaptopFactory := cmds.foldl learn f

theorem learnAll_snoc (cmds : List Command) (cmd : Command) (f : LaptopFactory) :
    learnAll (cmds ++ [cmd]) f = (learnAll cmds f).learn cmd := by
  rw [learnAll, List.foldl_append]
  rfl

/-- The slots are from 1 on, and each has one command. -/
def Consistent (cmds : List Command) : Prop :=
  (∀ v ∈ cmds, 1 ≤ v.slot) ∧ ∀ v ∈ cmds, ∀ w ∈ cmds, v.slot = w.slot → v = w

def Arrived (cmds : List Command) (s : ℤ) : Prop := ∃ v ∈ cmds, v.slot = s

/-- After `cmds`, the command `v` is the first one for the next slot, and the
    slot after it has arrived. -/
def FillsGap (cmds : List Command) (v : Command) : Prop :=
  ¬Arrived cmds v.slot ∧ (∀ t, 1 ≤ t → t < v.slot → Arrived cmds t) ∧ Arrived cmds (v.slot + 1)

instance (cmds : List Command) (s : ℤ) : Decidable (Arrived cmds s) :=
  inferInstanceAs (Decidable (∃ v ∈ cmds, _))

instance (cmds : List Command) (v : Command) : Decidable (FillsGap cmds v) :=
  inferInstanceAs (Decidable (_ ∧ _ ∧ _))

/-- No command fills a gap when it arrives. -/
def NoGapFilled (cmds : List Command) : Prop :=
  ∀ k (hk : k < cmds.length), ¬FillsGap (cmds.take k) cmds[k]

instance (cmds : List Command) : Decidable (NoGapFilled cmds) :=
  inferInstanceAs (Decidable (∀ k (_ : k < cmds.length), _))

/-- The lines that the decisions below the commit cursor stand for. -/
def decidedLines (f : LaptopFactory) : List (ℤ × Command) :=
  ((List.range (f.slotOut - 1).toNat).map fun k : ℕ => (1 : ℤ) + k).filterMap fun k =>
    (f.decisionMap.find? k).map fun v => (k, v)

/-- After the calls `cmds`, the lines `E` have been written. -/
structure Committed (cmds : List Command) (f : LaptopFactory) (E : List (ℤ × Command)) : Prop where
  find : ∀ s v, f.decisionMap.find? s = some v ↔ v ∈ cmds ∧ v.slot = s
  log : f.log = logText E
  count : f.slotOut = 1 + E.length
  numbers : E.map Prod.fst = (List.range E.length).map fun k : ℕ => (1 : ℤ) + k
  below : ∀ t, 1 ≤ t → t < f.slotOut → t ∈ f.decisionMap
  free : f.slotOut ∉ f.decisionMap
  entries : ∀ e ∈ E, e.2 ∈ cmds
  right : NoGapFilled cmds ↔ ∀ e ∈ E, e.2.slot = e.1

theorem noGapFilled_snoc {cmds : List Command} {v : Command} :
    NoGapFilled (cmds ++ [v]) ↔ NoGapFilled cmds ∧ ¬FillsGap cmds v := by
  constructor
  · intro h
    refine ⟨fun k hk => ?_, ?_⟩
    · have hold := h k (by simp; omega)
      rwa [List.take_append_of_le_length hk.le, List.getElem_append_left hk] at hold
    · have hnew := h cmds.length (by simp)
      rwa [List.take_left, List.getElem_concat_length rfl] at hnew
  · rintro ⟨h, hv⟩ k hk
    rcases Nat.lt_succ_iff_lt_or_eq.1 (List.length_append ▸ hk) with hlt | rfl
    · rw [List.take_append_of_le_length hlt.le, List.getElem_append_left hlt]
      exact h k hlt
    · rw [List.take_left, List.getElem_concat_length rfl]
      exact hv

theorem Committed.mem {cmds : List Command} {f : LaptopFactory} {E : List (ℤ × Command)}
    (hc : Committed cmds f E) {s : ℤ} : s ∈ f.decisionMap ↔ Arrived cmds s := by
  constructor
  · intro hs
    obtain ⟨v, hv⟩ := StdMap.exists_find? hs
    exact ⟨v, (hc.find s v).1 hv⟩
  · rintro ⟨v, hv⟩
    exact StdMap.mem_of_find? ((hc.find s v).2 hv)

/-- The lines written when `v` arrives are right if there are none, or one, for
    the slot of `v`. -/
theorem linesFrom_right {v : Command} {m : StdMap ℤ Command} {s : ℤ} {k : ℕ} (hs : s ∉ m)
    (hk : s + k = (m.insert v.slot v).firstFree s) :
    (∀ e ∈ linesFrom v s k, e.2.slot = e.1) ↔ ¬(v.slot = s ∧ s + 1 ∈ m) := by
  have hlt : ∀ t, t < s + k ↔ ∀ r, s ≤ r → r ≤ t → r = v.slot ∨ r ∈ m := fun t => by
    rw [hk, StdMap.lt_firstFree_iff]
    simp only [StdMap.mem_insert]
  constructor
  · rintro h ⟨hv, hnext⟩
    -- there is a second line, for the slot after the one of `v`
    have hsecond := (hlt (s + 1)).2 fun r h₁ h₂ => by
      rcases eq_or_lt_of_le h₁ with rfl | hr
      · exact .inl hv.symm
      · exact .inr ((by omega : s + 1 = r) ▸ hnext)
    have hright := h (s + 1, v) (mem_linesFrom.2 ⟨rfl, by omega, hsecond⟩)
    rw [hv] at hright
    omega
  · intro h e he
    obtain ⟨rfl, h₁, h₂⟩ := mem_linesFrom.1 he
    have hmem := (hlt e.1).1 h₂
    have hv : s = e.2.slot := (hmem s le_rfl h₁).resolve_right hs
    by_contra hne
    rcases hmem (s + 1) (by omega) (by omega) with heq | hnext
    · omega
    · exact h ⟨hv.symm, hnext⟩

theorem Consistent.of_snoc {cmds : List Command} {v : Command} (h : Consistent (cmds ++ [v])) :
    Consistent cmds :=
  ⟨fun w hw => h.1 w (List.mem_append_left _ hw), fun w hw u hu =>
    h.2 w (List.mem_append_left _ hw) u (List.mem_append_left _ hu)⟩

/-- The next slot has arrived for the first time with `v` if it is the one of `v`. -/
theorem Committed.fillsGap_iff {cmds : List Command} {f : LaptopFactory} {E : List (ℤ × Command)}
    (hc : Committed cmds f E) {v : Command} (hv : 1 ≤ v.slot) :
    FillsGap cmds v ↔ v.slot = f.slotOut ∧ f.slotOut + 1 ∈ f.decisionMap := by
  constructor
  · rintro ⟨hnew, hbelow, hnext⟩
    have hslot : v.slot = f.slotOut := by
      rcases lt_trichotomy v.slot f.slotOut with hlt | heq | hgt
      · exact absurd (hc.mem.1 (hc.below _ hv hlt)) hnew
      · exact heq
      · exact absurd (hc.mem.2 (hbelow _ (by have := hc.count; omega) hgt)) hc.free
    exact ⟨hslot, hslot ▸ hc.mem.2 hnext⟩
  · rintro ⟨hslot, hnext⟩
    rw [FillsGap, hslot]
    exact ⟨fun h => hc.free (hc.mem.2 h), fun t h₁ ht => hc.mem.1 (hc.below t h₁ ht),
      hc.mem.1 hnext⟩

theorem Committed.learn {cmds : List Command} {f : LaptopFactory} {E : List (ℤ × Command)}
    (hc : Committed cmds f E) {v : Command} (hcons : Consistent (cmds ++ [v])) :
    ∃ E', Committed (cmds ++ [v]) (f.learn v) E' := by
  obtain ⟨k, hk, hf⟩ := learn_spec v f
  have hv : 1 ≤ v.slot := hcons.1 v (List.mem_append_right _ (List.mem_singleton_self v))
  have hone : 1 ≤ f.slotOut := by have := hc.count; omega
  refine ⟨E ++ linesFrom v f.slotOut k, ?_⟩
  rw [hf]
  refine ⟨fun s w => ?_, ?_, ?_, ?_, fun t h₁ ht => ?_, ?_, fun e he => ?_, ?_⟩
  · change (f.decisionMap.insert v.slot v).find? s = some w ↔ _
    rw [StdMap.find?_insert, List.mem_append, List.mem_singleton]
    split_ifs with hs
    · subst hs
      constructor
      · rintro ⟨⟩
        exact ⟨.inr rfl, rfl⟩
      · -- an earlier call for the slot was with the same command
        rintro ⟨hw | rfl, hws⟩
        · rw [hcons.2 w (List.mem_append_left _ hw) v (by simp) hws]
        · rfl
    · rw [hc.find]
      refine ⟨fun h => ⟨.inl h.1, h.2⟩, ?_⟩
      rintro ⟨hw | rfl, hws⟩
      · exact ⟨hw, hws⟩
      · exact absurd hws.symm hs
  · change f.log ++ _ = _
    rw [hc.log, logText_append]
  · change f.slotOut + k = _
    rw [List.length_append, length_linesFrom, hc.count]
    push_cast
    omega
  · rw [List.map_append, hc.numbers, numbers_linesFrom, List.length_append, length_linesFrom,
      List.range_add, List.map_append, List.map_map, hc.count]
    simp [Function.comp_def, add_assoc]
  · change t ∈ f.decisionMap.insert v.slot v
    by_cases hlt : t < f.slotOut
    · exact StdMap.mem_insert.2 (.inr (hc.below t h₁ hlt))
    · exact StdMap.mem_of_lt_firstFree (not_lt.1 hlt) (hk ▸ ht)
  · change f.slotOut + k ∉ f.decisionMap.insert v.slot v
    rw [hk]
    exact StdMap.firstFree_not_mem _ _
  · rcases List.mem_append.1 he with he | he
    · exact List.mem_append_left _ (hc.entries e he)
    · rw [(mem_linesFrom.1 he).1]
      exact List.mem_append_right _ (List.mem_singleton_self v)
  · rw [noGapFilled_snoc, hc.right, List.forall_mem_append, hc.fillsGap_iff hv]
    exact and_congr_right fun _ => (linesFrom_right hc.free hk).symm

theorem committed_learnAll (D : Deployment) (i : ℤ) {cmds : List Command} (h : Consistent cmds) :
    ∃ E, Committed cmds (learnAll cmds (D.factory i)) E := by
  induction cmds using List.reverseRecOn with
  | nil =>
    obtain ⟨m, s, hf, -⟩ := D.factory_eq i
    refine ⟨[], ?_⟩
    rw [learnAll, List.foldl_nil, hf]
    exact ⟨by simp, rfl, rfl, rfl, fun t h₁ ht => absurd h₁ (not_le.2 ht), by simp,
      fun e he => absurd he List.not_mem_nil, ⟨fun _ e he => absurd he List.not_mem_nil,
        fun _ k hk => absurd hk (Nat.not_lt_zero k)⟩⟩
  | append_singleton cmds v ih =>
    obtain ⟨E, hE⟩ := ih h.of_snoc
    rw [learnAll_snoc]
    exact hE.learn h

/-- The lines of the decisions have the numbers of the lines written. -/
theorem Committed.decidedLines_eq {cmds : List Command} {f : LaptopFactory}
    {E : List (ℤ × Command)} (hc : Committed cmds f E) : ∃ g : ℤ × Command → Command,
    decidedLines f = E.map (fun e => (e.1, g e)) ∧ ∀ e ∈ E, g e ∈ cmds ∧ (g e).slot = e.1 := by
  -- the number of a line is below the commit cursor, so its slot is decided
  have hfind : ∀ e ∈ E, f.decisionMap.find? e.1 = some ((f.decisionMap.find? e.1).getD e.2) :=
    fun e he => by
      have hmem : e.1 ∈ E.map Prod.fst := List.mem_map_of_mem he
      rw [hc.numbers] at hmem
      obtain ⟨k, hk, hek⟩ := List.mem_map.1 hmem
      have hlt := List.mem_range.1 hk
      have hcount := hc.count
      obtain ⟨v, hv⟩ := StdMap.exists_find? (hc.below e.1 (by omega) (by omega))
      rw [hv]; rfl
  refine ⟨fun e => (f.decisionMap.find? e.1).getD e.2, ?_, fun e he => ?_⟩
  · rw [decidedLines, hc.count, add_sub_cancel_left, Int.toNat_natCast, ← hc.numbers,
      List.filterMap_map, ← List.filterMap_eq_map]
    refine List.filterMap_congr fun e he => ?_
    rw [Function.comp_apply, Function.comp_apply, hfind e he]
    rfl
  · exact (hc.find _ _).1 (hfind e he)

/-- The log is the decided prefix if every line is for the slot of its command. -/
theorem Committed.log_eq_iff {cmds : List Command} {f : LaptopFactory} {E : List (ℤ × Command)}
    (hc : Committed cmds f E) (h : Consistent cmds) :
    f.log = logText (decidedLines f) ↔ NoGapFilled cmds := by
  obtain ⟨g, hg, hgE⟩ := hc.decidedLines_eq
  rw [hc.log, hg, hc.right]
  constructor
  · -- equal texts have equal lines, as the slots are not negative
    intro heq e he
    have hE := logText_inj (g := g) (fun e he => ?_) heq e he
    · rw [hE, (hgE e he).2]
    · obtain ⟨hmem, -⟩ := hgE e he
      have hv := h.1 _ (hc.entries e he)
      have hw := h.1 _ hmem
      exact ⟨by omega, by omega, h.2 _ (hc.entries e he) _ hmem⟩
  · -- a line with the right number has the decision for it, which is unique
    intro hright
    have hid : E.map (fun e => (e.1, g e)) = E := by
      refine (List.map_congr_left fun e he => ?_).trans (List.map_id E)
      obtain ⟨hmem, hslot⟩ := hgE e he
      rw [h.2 _ hmem _ (hc.entries e he) (hslot.trans (hright e he).symm)]
      rfl
    rw [hid]

/-- The decided prefix does not depend on the order of the calls. -/
theorem Committed.decidedLines_congr {cmds cmds' : List Command} {f f' : LaptopFactory}
    {E E' : List (ℤ × Command)} (hc : Committed cmds f E) (hc' : Committed cmds' f' E')
    (hmem : ∀ v, v ∈ cmds ↔ v ∈ cmds') : decidedLines f = decidedLines f' := by
  have hfind : f.decisionMap.find? = f'.decisionMap.find? := by
    funext s
    ext v
    rw [hc.find, hc'.find, hmem]
  have hmap : ∀ s, s ∈ f.decisionMap ↔ s ∈ f'.decisionMap := fun s => by
    rw [StdMap.mem_iff, StdMap.mem_iff, hfind]
  have hone : ∀ {cmds f E}, Committed cmds f E → 1 ≤ f.slotOut := fun hc => by
    have := hc.count
    omega
  -- both cursors stand at the least slot that is not decided
  have hout : f.slotOut = f'.slotOut :=
    (StdMap.firstFree_eq (hone hc) hc.free hc.below).symm.trans
      (StdMap.firstFree_eq (hone hc') (fun h => hc'.free ((hmap _).1 h)) fun t h₁ ht =>
        (hmap t).2 (hc'.below t h₁ ht))
  rw [decidedLines, decidedLines, hfind, hout]

/-- The log is the decided prefix if and only if no command fills a gap when it
    arrives. The logs of two such servers that learn the same decisions are equal. -/
theorem log_eq_decided_iff (D : Deployment) (i : ℤ) {cmds : List Command} (h : Consistent cmds) :
    ((learnAll cmds (D.factory i)).log = logText (decidedLines (learnAll cmds (D.factory i))) ↔
        NoGapFilled cmds) ∧
      ∀ j cmds', (∀ v, v ∈ cmds ↔ v ∈ cmds') → NoGapFilled cmds → NoGapFilled cmds' →
        (learnAll cmds (D.factory i)).log = (learnAll cmds' (D.factory j)).log := by
  obtain ⟨E, hE⟩ := committed_learnAll D i h
  refine ⟨hE.log_eq_iff h, fun j cmds' hmem hgap hgap' => ?_⟩
  have h' : Consistent cmds' :=
    ⟨fun v hv => h.1 v ((hmem v).2 hv), fun v hv w hw => h.2 v ((hmem v).2 hv) w ((hmem w).2 hw)⟩
  obtain ⟨E', hE'⟩ := committed_learnAll D j h'
  rw [(hE.log_eq_iff h).2 hgap, (hE'.log_eq_iff h').2 hgap', hE.decidedLines_congr hE' hmem]

/-- A command for the slot `s`. -/
def ofSlot (s : ℤ) : Command :=
  { slot := s, commandId := 110000000 + s, customerId := 7, orderId := s - 1 }

theorem log_eq_decided_buffered :
    (learnAll [ofSlot 3, ofSlot 1] ((Deployment.numbered 2).factory 1)).log =
        logText (decidedLines (learnAll [ofSlot 3, ofSlot 1] ((Deployment.numbered 2).factory 1))) ∧
      (learnAll [ofSlot 3, ofSlot 1] ((Deployment.numbered 2).factory 1)).log =
        (learnAll [ofSlot 1, ofSlot 3, ofSlot 1] ((Deployment.numbered 2).factory 2)).log := by
  have hcons : Consistent [ofSlot 3, ofSlot 1] := by refine ⟨?_, ?_⟩ <;> decide
  obtain ⟨hiff, hlogs⟩ := log_eq_decided_iff (.numbered 2) 1 hcons
  have hgap : NoGapFilled [ofSlot 3, ofSlot 1] := by decide
  exact ⟨hiff.2 hgap, hlogs 2 _ (by simp) hgap (by decide)⟩

theorem not_log_eq_decided : ¬∀ (D : Deployment) i cmds, Consistent cmds →
    (learnAll cmds (D.factory i)).log = logText (decidedLines (learnAll cmds (D.factory i))) := by
  intro h
  have hcons : Consistent [ofSlot 2, ofSlot 1] := by refine ⟨?_, ?_⟩ <;> decide
  have hlog := h (.numbered 1) 1 [ofSlot 2, ofSlot 1] hcons
  revert hlog
  decide +kernel

end LaptopPaxos
