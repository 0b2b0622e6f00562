import LaptopPaxos.Lib.Machine
import Mathlib.Logic.Relation

/-!
# Simulations between machines

A simulation is a relation between the states of two machines such that every step
of the first is matched by some steps of the second, none or more
(`Simulation.step`). The conditions `ok` and `ok'` are on the steps of each: what
is shown of the second machine under `ok'` holds of the first under `ok`.

* `Simulation.reach`: every state reached is related to a state reached;
* `Simulation.transfer`: an invariant of the second machine is one of the first;
* `Simulation.comp`: simulations compose, so that a design can be refined in levels.
-/

namespace Machine

variable {σ α τ β υ γ : Type*}

/-- One step that meets `ok`. -/
def StepBy (M : Machine σ α) (ok : σ → α → Prop) (s s' : σ) : Prop :=
  ∃ a, ok s a ∧ M.step s a = some s'

/-- At most one step that meets `ok`. -/
abbrev MayStep (M : Machine σ α) (ok : σ → α → Prop) : σ → σ → Prop :=
  Relation.ReflGen (M.StepBy ok)

/-- Any number of steps that meet `ok`. -/
abbrev StepsBy (M : Machine σ α) (ok : σ → α → Prop) : σ → σ → Prop :=
  Relation.ReflTransGen (M.StepBy ok)

/-- The steps of `M` that meet `ok` are matched, along `R`, by steps of `N` that meet
    `ok'`. Only states that are reached matter. -/
structure Simulation (M : Machine σ α) (N : Machine τ β) (ok : σ → α → Prop)
    (ok' : τ → β → Prop) (R : σ → τ → Prop) : Prop where
  init : ∀ s ∈ M.init, ∃ t ∈ N.init, R s t
  step : ∀ s a s' t, M.ReachBy ok s → N.ReachBy ok' t → R s t → ok s a → M.step s a = some s' →
    ∃ t', N.StepsBy ok' t t' ∧ R s' t'

variable {M : Machine σ α} {N : Machine τ β} {K : Machine υ γ} {ok : σ → α → Prop}
  {ok' : τ → β → Prop} {ok'' : υ → γ → Prop} {R : σ → τ → Prop} {S : τ → υ → Prop} {s s' : σ}
  {t t' : τ}

theorem MayStep.single {a : α} (hok : ok s a) (hst : M.step s a = some s') : M.MayStep ok s s' :=
  Relation.ReflGen.single ⟨a, hok, hst⟩

theorem StepsBy.single {a : α} (hok : ok s a) (hst : M.step s a = some s') : M.StepsBy ok s s' :=
  Relation.ReflTransGen.single ⟨a, hok, hst⟩

/-- An evaluated run. -/
theorem StepsBy.exists_of_runBy [∀ s a, Decidable (ok s a)] {P : σ → Prop} [DecidablePred P]
    (l : List α) (h : ((M.runBy ok l s).any fun s' => P s') = true) :
    ∃ s', M.StepsBy ok s s' ∧ P s' := by
  obtain ⟨s', hrun, hP⟩ := (Option.any_eq_true _ _).1 h
  refine ⟨s', ?_, of_decide_eq_true hP⟩
  clear h hP
  induction l generalizing s with
  | nil => exact Option.some.inj hrun ▸ .refl
  | cons a l ih =>
    rw [runBy] at hrun
    split_ifs at hrun with hok
    obtain ⟨s₁, hst, hrun⟩ := Option.bind_eq_some_iff.1 hrun
    exact (StepsBy.single hok hst).trans (ih hrun)

/-- What a run reaches from a state reached is reached. -/
theorem ReachBy.of_stepsBy (hs : M.ReachBy ok s) (h : M.StepsBy ok s s') : M.ReachBy ok s' := by
  induction h with
  | refl => exact hs
  | tail _ hst ih =>
    obtain ⟨a, hok, hst⟩ := hst
    exact .step ih hok hst

namespace Simulation

/-- Every state reached by the first machine is related to one that the second reaches. -/
theorem reach (h : Simulation M N ok ok' R) (hs : M.ReachBy ok s) :
    ∃ t, N.ReachBy ok' t ∧ R s t := by
  induction hs with
  | init hs =>
    obtain ⟨t, ht, hR⟩ := h.init _ hs
    exact ⟨t, .init ht, hR⟩
  | step hs hok hst ih =>
    obtain ⟨t, ht, hR⟩ := ih
    obtain ⟨t', hsteps, hR'⟩ := h.step _ _ _ t hs ht hR hok hst
    exact ⟨t', ht.of_stepsBy hsteps, hR'⟩

/-- What holds of the states that the second machine reaches holds of those of the
    first, as far as the relation tells it. -/
theorem transfer (h : Simulation M N ok ok' R) {P : τ → Prop} {Q : σ → Prop}
    (hP : ∀ t, N.ReachBy ok' t → P t) (hQ : ∀ s t, R s t → P t → Q s) (hs : M.ReachBy ok s) :
    Q s := by
  obtain ⟨t, ht, hR⟩ := h.reach hs
  exact hQ s t hR (hP t ht)

/-- A whole run of the first machine is matched by a run of the second. -/
theorem steps (h : Simulation M N ok ok' R) (hs : M.ReachBy ok s) (ht : N.ReachBy ok' t)
    (hR : R s t) (hsteps : M.StepsBy ok s s') : ∃ t', N.StepsBy ok' t t' ∧ R s' t' := by
  induction hsteps with
  | refl => exact ⟨t, .refl, hR⟩
  | tail hsteps hst ih =>
    obtain ⟨t₁, ht₁, hR₁⟩ := ih
    obtain ⟨a, hok, hst⟩ := hst
    obtain ⟨t', ht', hR'⟩ :=
      h.step _ a _ t₁ (hs.of_stepsBy hsteps) (ht.of_stepsBy ht₁) hR₁ hok hst
    exact ⟨t', ht₁.trans ht', hR'⟩

/-- Simulations compose. -/
theorem comp (h : Simulation M N ok ok' R) (h' : Simulation N K ok' ok'' S) :
    Simulation M K ok ok'' fun s u => ∃ t, N.ReachBy ok' t ∧ R s t ∧ S t u where
  init s hs := by
    obtain ⟨t, ht, hR⟩ := h.init s hs
    obtain ⟨u, hu, hS⟩ := h'.init t ht
    exact ⟨u, hu, t, .init ht, hR, hS⟩
  step s a s' u hs hu := by
    rintro ⟨t, ht, hR, hS⟩ hok hst
    obtain ⟨t', hsteps, hR'⟩ := h.step s a s' t hs ht hR hok hst
    obtain ⟨u', husteps, hS'⟩ := h'.steps ht hu hS hsteps
    exact ⟨u', husteps, t', ht.of_stepsBy hsteps, hR', hS'⟩

end Simulation

end Machine
