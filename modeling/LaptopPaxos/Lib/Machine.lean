import Mathlib.Data.Set.Basic
import Mathlib.Order.WellFounded

/-!
# Machines and their runs

A machine has a set of initial states and a partial step function; which step
is taken is the choice of the action, so that a run is determined by its list
of actions. `ReachBy ok` are the states of the runs all of whose steps meet
`ok`, a condition on the action and on the state before it, and `Reachable`
those of all runs. From a state that `CanReach` a property, some run leads to it.

* `ReachBy.invariant` is the induction over runs, done once;
* `ReachBy.of_runBy` turns an evaluated run into a reachable state;
* `InfiniteRun.false_of_lt`: a rank that every step lowers excludes runs without end;
* `observe` adds an observer to the machine, for what the states do not tell.

A machine may keep the *history* of its run, the newest event first. A history
is `Justified` by a property when every event has it with respect to the events
before it.
-/

/-- A machine whose steps are chosen by actions. -/
structure Machine (σ α : Type*) where
  init : Set σ
  step : σ → α → Option σ

namespace Machine

variable {σ α : Type*} (M : Machine σ α)

/-- The states of the runs whose steps all meet `ok`. -/
inductive ReachBy (ok : σ → α → Prop) : σ → Prop
  | init {s : σ} : s ∈ M.init → ReachBy ok s
  | step {s s' : σ} {a : α} : ReachBy ok s → ok s a → M.step s a = some s' → ReachBy ok s'

/-- The states of all runs. -/
abbrev Reachable : σ → Prop := M.ReachBy fun _ _ => True

/-- From the state on, some steps that meet `ok` lead to a state with `P`. -/
inductive CanReach (ok : σ → α → Prop) (P : σ → Prop) : σ → Prop
  | now {s : σ} : P s → CanReach ok P s
  | step {s s' : σ} {a : α} : ok s a → M.step s a = some s' → CanReach ok P s' → CanReach ok P s

/-- The state after the actions `l`, if every one of them can be taken and meets `ok`. -/
def runBy (ok : σ → α → Prop) [∀ s a, Decidable (ok s a)] : List α → σ → Option σ
  | [], s => some s
  | a :: l, s => if ok s a then (M.step s a).bind (runBy ok l) else none

variable {M}

/-- What holds initially and is kept by every step that meets `ok` holds along
    the runs of such steps. -/
theorem ReachBy.invariant {ok : σ → α → Prop} {Inv : σ → Prop} {s : σ} (hs : M.ReachBy ok s)
    (init : ∀ s ∈ M.init, Inv s)
    (step : ∀ s a s', M.ReachBy ok s → Inv s → ok s a → M.step s a = some s' → Inv s') :
    Inv s := by
  induction hs with
  | init h => exact init _ h
  | step hs hok hst ih => exact step _ _ _ hs ih hok hst

theorem ReachBy.mono {ok ok' : σ → α → Prop} {s : σ} (hs : M.ReachBy ok s)
    (h : ∀ s a, ok s a → ok' s a) : M.ReachBy ok' s := by
  induction hs with
  | init h => exact .init h
  | step _ hok hst ih => exact .step ih (h _ _ hok) hst

theorem ReachBy.reachable {ok : σ → α → Prop} {s : σ} (hs : M.ReachBy ok s) : M.Reachable s :=
  hs.mono fun _ _ _ => trivial

/-- The state at the end of an evaluated run is reached. -/
theorem ReachBy.of_runBy {ok : σ → α → Prop} [∀ s a, Decidable (ok s a)] {l : List α} {s s' : σ}
    (hs : M.ReachBy ok s) (h : M.runBy ok l s = some s') : M.ReachBy ok s' := by
  induction l generalizing s with
  | nil => exact Option.some.inj h ▸ hs
  | cons a l ih =>
    rw [runBy] at h
    split_ifs at h with hok
    obtain ⟨s₁, hst, h⟩ := Option.bind_eq_some_iff.1 h
    exact ih (.step hs hok hst) h

/-- A measure that no step lowers is not lowered by a run. -/
theorem ReachBy.le_of_runBy {β : Type*} [Preorder β] {ok : σ → α → Prop} [∀ s a, Decidable (ok s a)]
    {f : σ → β} (hle : ∀ s a s', M.ReachBy ok s → ok s a → M.step s a = some s' → f s ≤ f s')
    {l : List α} {s s' : σ} (hs : M.ReachBy ok s) (h : M.runBy ok l s = some s') : f s ≤ f s' := by
  induction l generalizing s with
  | nil => exact (congrArg f (Option.some.inj h)).le
  | cons a l ih =>
    rw [runBy] at h
    split_ifs at h with hok
    obtain ⟨s₁, hst, h⟩ := Option.bind_eq_some_iff.1 h
    exact (hle s a s₁ hs hok hst).trans (ih (.step hs hok hst) h)

/-- A property that a step leaves if and only if it violates `ok` holds exactly
    at the end of the runs that meet `ok`. -/
theorem Reachable.iff_reachBy {ok : σ → α → Prop} {P : σ → Prop} {s : σ} (hs : M.Reachable s)
    (init : ∀ s ∈ M.init, P s)
    (step : ∀ s a s', M.Reachable s → M.step s a = some s' → (P s' ↔ P s ∧ ok s a)) :
    P s ↔ M.ReachBy ok s := by
  constructor
  · intro hP
    induction hs with
    | init h => exact .init h
    | step hs _ hst ih =>
      obtain ⟨hP, hok⟩ := (step _ _ _ hs hst).1 hP
      exact .step (ih hP) hok hst
  · exact fun h => h.invariant init fun s a s' hs hP hok hst =>
      (step s a s' hs.reachable hst).2 ⟨hP, hok⟩

/-- A state with a property that an evaluation finds at the end of a run. -/
theorem ReachBy.exists_of_runBy {ok : σ → α → Prop} [∀ s a, Decidable (ok s a)] {P : σ → Prop}
    [DecidablePred P] {s : σ} (hs : M.ReachBy ok s) (l : List α)
    (h : ((M.runBy ok l s).any fun s' => P s') = true) : ∃ s', M.ReachBy ok s' ∧ P s' := by
  obtain ⟨s', hs', hP⟩ := (Option.any_eq_true _ _).1 h
  exact ⟨s', hs.of_runBy hs', of_decide_eq_true hP⟩

/-! ### Runs without end -/

/-- A run that goes on forever, from a state reached. -/
structure InfiniteRun (M : Machine σ α) (ok : σ → α → Prop) (g : ℕ → σ) : Prop where
  start : M.ReachBy ok (g 0)
  step : ∀ n, ∃ a, ok (g n) a ∧ M.step (g n) a = some (g (n + 1))

theorem InfiniteRun.reachBy {ok : σ → α → Prop} {g : ℕ → σ} (h : M.InfiniteRun ok g) (n : ℕ) :
    M.ReachBy ok (g n) := by
  induction n with
  | zero => exact h.start
  | succ n ih =>
    obtain ⟨a, hok, hst⟩ := h.step n
    exact .step ih hok hst

/-- A rank that every step lowers excludes runs without end. -/
theorem InfiniteRun.false_of_lt {β : Type*} [Preorder β] [WellFoundedLT β] {ok : σ → α → Prop}
    {g : ℕ → σ} (h : M.InfiniteRun ok g) (rank : σ → β)
    (hlt : ∀ s a s', M.ReachBy ok s → ok s a → M.step s a = some s' → rank s' < rank s) :
    False := by
  obtain ⟨n, hn⟩ := WellFounded.not_rel_apply_succ (r := (· < ·)) fun n => rank (g n)
  obtain ⟨a, hok, hst⟩ := h.step n
  exact hn (hlt _ a _ (h.reachBy n) hok hst)

/-! ### Observers -/

section

variable {γ : Type*}

/-- The machine with an observer, who writes down something at every step and
    has no influence on the steps. -/
def observe (M : Machine σ α) (g₀ : γ) (note : γ → σ → α → γ) : Machine (σ × γ) α where
  init := {p | p.1 ∈ M.init ∧ p.2 = g₀}
  step p a := (M.step p.1 a).map fun s => (s, note p.2 p.1 a)

variable {ok : σ → α → Prop} {g₀ : γ} {note : γ → σ → α → γ}

theorem step_observe {p p' : σ × γ} {a : α} :
    (M.observe g₀ note).step p a = some p' ↔ M.step p.1 a = some p'.1 ∧ p'.2 = note p.2 p.1 a := by
  change (M.step p.1 a).map (fun s => (s, note p.2 p.1 a)) = some p' ↔ _
  rw [Option.map_eq_some_iff]
  constructor
  · rintro ⟨s, hs, rfl⟩
    exact ⟨hs, rfl⟩
  · rintro ⟨hs, hg⟩
    exact ⟨p'.1, hs, by rw [← hg]⟩

/-- Without the observer, the run is a run of the machine. -/
theorem ReachBy.forget {p : σ × γ} (h : (M.observe g₀ note).ReachBy (fun p => ok p.1) p) :
    M.ReachBy ok p.1 := by
  induction h with
  | init h => exact .init h.1
  | step _ hok hst ih => exact .step ih hok (step_observe.1 hst).1

theorem ReachBy.of_observe {ok : σ × γ → α → Prop} {p : σ × γ}
    (h : (M.observe g₀ note).ReachBy ok p) : M.Reachable p.1 :=
  (h.mono fun _ _ _ => trivial).forget

/-- Every run can be observed. -/
theorem ReachBy.exists_observe {s : σ} (h : M.ReachBy ok s) :
    ∃ g, (M.observe g₀ note).ReachBy (fun p a => ok p.1 a) (s, g) := by
  induction h with
  | init h => exact ⟨g₀, .init ⟨h, rfl⟩⟩
  | @step s s' a _ hok hst ih =>
    obtain ⟨g, hg⟩ := ih
    exact ⟨note g s a, .step hg hok (step_observe.2 ⟨hst, rfl⟩)⟩

end

end Machine

/-! ## Histories -/

/-- Every event of the history has `P` with respect to the events before it. -/
def Justified {E : Type*} (P : E → List E → Prop) : List E → Prop
  | [] => True
  | e :: h => P e h ∧ Justified P h

namespace Justified

variable {E : Type*} {P Q : E → List E → Prop} {hist : List E}

theorem of_append {h₁ h₂ : List E} {e : E} (h : Justified P (h₁ ++ e :: h₂)) : P e h₂ := by
  induction h₁ with
  | nil => exact h.1
  | cons _ _ ih => exact ih h.2

theorem of_suffix {h₁ h₂ : List E} (h : Justified P (h₁ ++ h₂)) : Justified P h₂ := by
  induction h₁ with
  | nil => exact h
  | cons _ _ ih => exact ih h.2

theorem mono (h : Justified P hist) (hPQ : ∀ e h, P e h → Q e h) : Justified Q hist := by
  induction hist with
  | nil => trivial
  | cons e hist ih => exact ⟨hPQ _ _ h.1, ih h.2⟩

/-- Events that need no justification can be added. -/
theorem append (h : Justified P hist) {evs : List E} (hevs : ∀ e ∈ evs, ∀ h, P e h) :
    Justified P (evs ++ hist) := by
  induction evs with
  | nil => exact h
  | cons e evs ih =>
    exact ⟨hevs e List.mem_cons_self _, ih fun e' he' => hevs e' (List.mem_cons_of_mem _ he')⟩

/-- Of two events of the history, one comes before the other. -/
theorem trichotomy (h : Justified P hist) {x y : E} (hx : x ∈ hist) (hy : y ∈ hist) :
    x = y ∨ (∃ h₂, y ∈ h₂ ∧ P x h₂) ∨ ∃ h₂, x ∈ h₂ ∧ P y h₂ := by
  induction hist with
  | nil => cases hx
  | cons e hist ih =>
    rcases List.mem_cons.1 hx with rfl | hx' <;> rcases List.mem_cons.1 hy with rfl | hy'
    · exact .inl rfl
    · exact .inr (.inl ⟨hist, hy', h.1⟩)
    · exact .inr (.inr ⟨hist, hx', h.1⟩)
    · exact ih h.2 hx' hy'

/-- An event that nothing justifies twice has one place in the history. -/
theorem suffix_unique (h : Justified P hist) {x : E} (hx : ∀ h₂, x ∈ h₂ → ¬P x h₂)
    {h₁ h₂ g₁ g₂ : List E} (hh : hist = h₁ ++ x :: h₂) (hg : hist = g₁ ++ x :: g₂) : h₂ = g₂ := by
  induction hist generalizing h₁ g₁ with
  | nil => simp at hh
  | cons e hist ih =>
    have hmem : ∀ {k₁ k₂ : List E}, hist = k₁ ++ x :: k₂ → x ∈ hist := fun hk =>
      hk ▸ List.mem_append_right _ List.mem_cons_self
    cases h₁ with
    | nil =>
      obtain ⟨rfl, rfl⟩ := List.cons.inj hh
      cases g₁ with
      | nil => exact (List.cons.inj hg).2
      | cons _ _ => exact absurd h.1 (hx _ (hmem (List.cons.inj hg).2))
    | cons _ h₁ =>
      cases g₁ with
      | nil =>
        obtain ⟨rfl, rfl⟩ := List.cons.inj hg
        exact absurd h.1 (hx _ (hmem (List.cons.inj hh).2))
      | cons _ g₁ => exact ih h.2 (List.cons.inj hh).2 (List.cons.inj hg).2

/-- What justifies an event, together with the history it refers to. -/
theorem exists_split (h : Justified P hist) {x : E} (hx : x ∈ hist) :
    ∃ h₁ h₂, hist = h₁ ++ x :: h₂ ∧ P x h₂ := by
  obtain ⟨h₁, h₂, rfl⟩ := List.append_of_mem hx
  exact ⟨h₁, h₂, rfl, h.of_append⟩

/-- The same, with the history before the event as a suffix. -/
theorem exists_suffix (h : Justified P hist) {x : E} (hx : x ∈ hist) :
    ∃ h₁ h₂, hist = h₁ ++ h₂ ∧ P x h₂ := by
  obtain ⟨h₁, h₂, rfl, hP⟩ := h.exists_split hx
  exact ⟨h₁ ++ [x], h₂, by rw [List.append_assoc, List.singleton_append], hP⟩

end Justified

/-- In the history, `x` came before `y`. -/
def Before {E : Type*} (x y : E) : List E → Prop
  | [] => False
  | e :: h => e = y ∧ x ∈ h ∨ Before x y h

theorem before_iff {E : Type*} {x y : E} {h : List E} :
    Before x y h ↔ ∃ h₁ h₂, h = h₁ ++ y :: h₂ ∧ x ∈ h₂ := by
  induction h with
  | nil => exact ⟨False.elim, fun ⟨h₁, h₂, h, _⟩ => by simp at h⟩
  | cons e h ih =>
    constructor
    · rintro (⟨rfl, hx⟩ | hb)
      · exact ⟨[], h, rfl, hx⟩
      · obtain ⟨h₁, h₂, rfl, hx⟩ := ih.1 hb
        exact ⟨e :: h₁, h₂, rfl, hx⟩
    · rintro ⟨h₁, h₂, heq, hx⟩
      cases h₁ with
      | nil => cases heq; exact .inl ⟨rfl, hx⟩
      | cons e' h₁ => cases heq; exact .inr (ih.2 ⟨h₁, h₂, rfl, hx⟩)

/-- Decided along the history. -/
def decideBefore {E : Type*} [DecidableEq E] (x y : E) : (h : List E) → Decidable (Before x y h)
  | [] => isFalse id
  | e :: h =>
    have := decideBefore x y h
    inferInstanceAs (Decidable (e = y ∧ x ∈ h ∨ Before x y h))

instance {E : Type*} [DecidableEq E] (x y : E) (h : List E) : Decidable (Before x y h) :=
  decideBefore x y h
