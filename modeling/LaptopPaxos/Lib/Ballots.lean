import LaptopPaxos.Lib.Quorum
import Mathlib.Order.WellFoundedSet

/-!
# Voting in numbered ballots

The mathematics of the synod: acceptors vote for values in ballots, which are
linearly ordered, and a value is *chosen* in a ballot when a majority of the
acceptors has voted for it there. A value is proposed in a ballot after asking
a majority for the latest ballot below it in which one of them voted.

The value then proposed need not be the one of that ballot: it only has to be
related to it by a transitive relation `R`. With equality for `R` this is the
single-decree protocol; with "it is the same value or a later one of a
sequence" it covers a register shared by all the entries of a log.

* `Guided.rel_of_chosen`: a chosen value is related to every value proposed in
  a later ballot;
* `Guided.rel_of_chosen_chosen`: any two chosen values are equal or related.
-/

/-- The votes cast and the values proposed so far, ballot by ballot. -/
structure Ballots (α β ω : Type*) where
  acceptors : Finset α
  proposed : β → ω → Prop
  accepted : α → β → ω → Prop

namespace Ballots

variable {α β ω : Type*} [LinearOrder β] (B : Ballots α β ω)

/-- A majority of the acceptors voted for `v` in the ballot `n`. -/
def Chosen (n : β) (v : ω) : Prop :=
  ∃ Q, Majority B.acceptors Q ∧ ∀ a ∈ Q, B.accepted a n v

/-- The acceptors `Q` guide the proposal of `v` in the ballot `n`: none of them
    has voted below `n`, or `v` is related to the value of a ballot `k` below
    `n`, and none of them has voted between `k` and `n`. -/
def Guides (R : ω → ω → Prop) (Q : Finset α) (n : β) (v : ω) : Prop :=
  (∀ a ∈ Q, ∀ m w, B.accepted a m w → n ≤ m) ∨
    ∃ k u, k < n ∧ B.proposed k u ∧ R u v ∧ ∀ a ∈ Q, ∀ m w, B.accepted a m w → m < n → m ≤ k

/-- The conditions under which the ballots are safe. -/
structure Guided (R : ω → ω → Prop) : Prop where
  /-- The ballots in use are well-founded. -/
  wf : {n | ∃ v, B.proposed n v}.WellFoundedOn (· < ·)
  /-- A ballot has one value. -/
  unique : ∀ {n v w}, B.proposed n v → B.proposed n w → v = w
  /-- A vote is for the value of the ballot. -/
  backed : ∀ {a n v}, B.accepted a n v → B.proposed n v
  /-- Every proposal is guided by a majority. -/
  guided : ∀ {n v}, B.proposed n v → ∃ Q, Majority B.acceptors Q ∧ B.Guides R Q n v

variable {B} {R : ω → ω → Prop}

theorem Guided.proposed_of_chosen (h : B.Guided R) {n : β} {v : ω} (hc : B.Chosen n v) :
    B.proposed n v := by
  obtain ⟨Q, hQ, hv⟩ := hc
  obtain ⟨a, ha⟩ := hQ.nonempty
  exact h.backed (hv a ha)

/-- A chosen value is related to every value proposed in a later ballot. By
    induction on that ballot: the majority that guided the proposal meets the
    one that chose the value, so the ballot `k` that guided it is not earlier. -/
theorem Guided.rel_of_chosen [DecidableEq α] [IsTrans ω R] (h : B.Guided R) {m n : β} {v w : ω}
    (hc : B.Chosen m v) (hw : B.proposed n w) (hmn : m < n) : R v w := by
  have hall : ∀ w, B.proposed n w → m < n → R v w := by
    refine h.wf.induction (P := fun n => ∀ w, B.proposed n w → m < n → R v w) ⟨w, hw⟩ ?_
    intro n _ ih w hw hmn
    obtain ⟨Q, hQ, hv⟩ := id hc
    obtain ⟨Q', hQ', hg⟩ := h.guided hw
    obtain ⟨a, ha, ha'⟩ := hQ.exists_mem_inter hQ'
    rcases hg with hnone | ⟨k, u, hkn, hu, hR, hlast⟩
    · exact absurd (hnone a ha' m v (hv a ha)) (not_le.2 hmn)
    · rcases eq_or_lt_of_le (hlast a ha' m v (hv a ha) hmn) with rfl | hmk
      · rwa [h.unique (h.proposed_of_chosen hc) hu]
      · exact Trans.trans (ih k ⟨u, hu⟩ hkn u hu hmk) hR
  exact hall w hw hmn

/-- Any two chosen values are equal or related. -/
theorem Guided.rel_of_chosen_chosen [DecidableEq α] [IsTrans ω R] (h : B.Guided R) {m n : β} {v w : ω}
    (hv : B.Chosen m v) (hw : B.Chosen n w) : v = w ∨ R v w ∨ R w v := by
  rcases lt_trichotomy m n with hmn | rfl | hnm
  · exact .inr (.inl (h.rel_of_chosen hv (h.proposed_of_chosen hw) hmn))
  · exact .inl (h.unique (h.proposed_of_chosen hv) (h.proposed_of_chosen hw))
  · exact .inr (.inr (h.rel_of_chosen hw (h.proposed_of_chosen hv) hnm))

end Ballots
