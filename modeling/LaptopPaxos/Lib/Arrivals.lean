import Mathlib.Data.List.Basic
import Mathlib.Tactic.Common

/-!
# Arrivals

What reaches the receiving end of a stream: units in segments of any length,
and perhaps the end of the stream behind them. A receiver asks for `n` units,
and for the rest of them again until it has them all. What it is given are the
`pieces`, at most as much as it asks for at a time; what it leaves behind is
the `remainder`. Behind the end of the stream there is only the empty piece, as
often as one asks.

* `flatten_remainder`: the receiver takes the next `n` units, and nothing
  behind them;
* `drop` keeps the arrivals well-formed, so that receivers can follow each
  other.
-/

/-- Non-empty segments, and whether the stream ends behind them. -/
structure Arrivals (β : Type*) where
  segments : List (List β)
  ended : Bool
  nonempty : [] ∉ segments

namespace Arrivals

variable {β : Type*}

/-- The pieces that a receiver of `n` units gets. Without the end of the stream
    it is left waiting when the segments run out. -/
def pieces (ended : Bool) : ℕ → List (List β) → List (List β)
  | 0, _ => []
  | _ + 1, [] => if ended then [[]] else []
  | n + 1, s :: segs =>
    if s.length ≤ n + 1 then s :: pieces ended (n + 1 - s.length) segs else [s.take (n + 1)]

/-- The segments that a receiver of `n` units leaves behind. -/
def remainder : ℕ → List (List β) → List (List β)
  | 0, segs => segs
  | _ + 1, [] => []
  | n + 1, s :: segs =>
    if s.length ≤ n + 1 then remainder (n + 1 - s.length) segs else s.drop (n + 1) :: segs

theorem flatten_remainder (n : ℕ) (segs : List (List β)) :
    (remainder n segs).flatten = segs.flatten.drop n := by
  induction segs generalizing n with
  | nil => cases n <;> simp [remainder]
  | cons s segs ih =>
    cases n with
    | zero => simp [remainder]
    | succ n =>
      rw [remainder, List.flatten_cons, List.drop_append]
      split_ifs with h
      · rw [ih, List.drop_of_length_le h, List.nil_append]
      · rw [List.flatten_cons, Nat.sub_eq_zero_of_le (Nat.le_of_not_le h), List.drop_zero]

theorem nil_notMem_remainder (n : ℕ) {segs : List (List β)} (h : [] ∉ segs) :
    [] ∉ remainder n segs := by
  induction segs generalizing n with
  | nil => cases n <;> exact List.not_mem_nil
  | cons s segs ih =>
    have htail : [] ∉ segs := fun hmem => h (List.mem_cons_of_mem _ hmem)
    cases n with
    | zero => exact h
    | succ n =>
      rw [remainder]
      split_ifs with hlen
      · exact ih _ htail
      · rw [List.mem_cons, not_or]
        refine ⟨fun heq => hlen ?_, htail⟩
        exact List.drop_eq_nil_iff.1 heq.symm

variable (a : Arrivals β)

/-- All that arrives. -/
def units : List β := a.segments.flatten

/-- What is left after `n` units have been received. -/
def drop (n : ℕ) : Arrivals β where
  segments := remainder n a.segments
  ended := a.ended
  nonempty := nil_notMem_remainder n a.nonempty

@[simp] theorem units_drop (n : ℕ) : (a.drop n).units = a.units.drop n :=
  flatten_remainder n a.segments

@[simp] theorem ended_drop (n : ℕ) : (a.drop n).ended = a.ended := rfl

end Arrivals
