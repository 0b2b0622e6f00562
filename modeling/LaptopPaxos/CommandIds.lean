import LaptopPaxos.Lib.Bytes
import LaptopPaxos.Utilities
import Mathlib.Algebra.Order.Group.Nat

/-!
# Command ids

An id is meant to tell the server that has generated it: the server's part of
the id counts ten millions, and eight digits of the clock are added to it. These
go up to a hundred millions, so that the ranges of the servers overlap: the ids
of two servers are equal if these digits differ by just the difference of the
servers' parts (`ids_differ_iff`).
-/

namespace LaptopPaxos

/-- The digits of the clock that go into an id. -/
def lastEight (microseconds : ℤ) : List Char :=
  let microsecondsStr := (toString microseconds).toList
  if microsecondsStr.length > 8 then microsecondsStr.drop (microsecondsStr.length - 8)
  else microsecondsStr

/-- What the clock adds to an id. A short negative reading keeps its sign. -/
def clockPart (microseconds : ℤ) : ℤ :=
  if -10000000 < microseconds ∧ microseconds < 0 then microseconds
  else (microseconds.natAbs % 100000000 : ℕ)

/-- No value that `generateCommandID` computes overflows. -/
def NoOverflow (serverID microseconds : ℤ) : Prop :=
  IsInt (10 + serverID) ∧ IsInt ((10 + serverID) * 10000000) ∧
    IsInt (stoi (lastEight microseconds)) ∧ IsInt (generateCommandID serverID microseconds)

theorem generateCommandID_eq (serverID microseconds : ℤ) :
    generateCommandID serverID microseconds =
      (10 + serverID) * 10000000 + stoi (lastEight microseconds) := rfl

/-! ### Digits -/

theorem digitsValue_append (s s' : List Char) :
    digitsValue (s ++ s') = 10 ^ s'.length * digitsValue s + digitsValue s' :=
  (Nat.ofDigitChars_append 0).trans Nat.ofDigitChars_eq_ofDigitChars_zero

theorem digitsValue_lt {s : List Char} (hs : ∀ c ∈ s, c.isDigit) :
    digitsValue s < 10 ^ s.length := by
  induction s with
  | nil => decide
  | cons c s ih =>
    obtain ⟨hc, hs⟩ := List.forall_mem_cons.1 hs
    have hdigit : c.toNat - '0'.toNat ≤ 9 := by
      have hle : c.toNat ≤ 57 := (Char.isDigit_iff_toNat.1 hc).2
      change c.toNat - 48 ≤ 9
      omega
    have hcons : digitsValue (c :: s) = 10 ^ s.length * (c.toNat - '0'.toNat) + digitsValue s := by
      have happ := digitsValue_append [c] s
      rwa [show digitsValue [c] = c.toNat - '0'.toNat by simp [digitsValue]] at happ
    have hmul := Nat.mul_le_mul_left (10 ^ s.length) hdigit
    rw [hcons, List.length_cons, Nat.pow_succ]
    have := ih hs
    omega

/-- The last digits of a number are its remainder. -/
theorem digitsValue_drop {n k : ℕ} (hk : k ≤ (Nat.toDigits 10 n).length) :
    digitsValue ((Nat.toDigits 10 n).drop ((Nat.toDigits 10 n).length - k)) = n % 10 ^ k := by
  generalize hj : (Nat.toDigits 10 n).length - k = j
  have hlen : ((Nat.toDigits 10 n).drop j).length = k := by
    rw [List.length_drop]
    omega
  have hlt := digitsValue_lt (s := (Nat.toDigits 10 n).drop j) fun c hc =>
    Nat.isDigit_of_mem_toDigits (by decide) (by decide) (List.mem_of_mem_drop hc)
  have hval : n = 10 ^ k * digitsValue ((Nat.toDigits 10 n).take j) +
      digitsValue ((Nat.toDigits 10 n).drop j) := by
    have happ := digitsValue_append ((Nat.toDigits 10 n).take j) ((Nat.toDigits 10 n).drop j)
    rw [List.take_append_drop, hlen] at happ
    exact Nat.ofDigitChars_ten_toDigits.symm.trans happ
  rw [hlen] at hlt
  conv_rhs => rw [hval]
  rw [Nat.mul_add_mod, Nat.mod_eq_of_lt hlt]

theorem stoi_of_isDigit {s : List Char} (hs : ∀ c ∈ s, c.isDigit) : stoi s = digitsValue s := by
  rw [stoi.eq_def]
  split
  · exact absurd (hs '-' List.mem_cons_self) (by decide)
  · rfl

theorem stoi_toDigits (n : ℕ) : stoi (Nat.toDigits 10 n) = n := by
  rw [stoi_of_isDigit fun c hc => Nat.isDigit_of_mem_toDigits (by decide) (by decide) hc]
  exact congrArg _ Nat.ofDigitChars_ten_toDigits

/-- A number of at most eight digits is its own remainder. -/
theorem mod_of_length_le {n : ℕ} (h : (Nat.toDigits 10 n).length ≤ 8) : n % 100000000 = n :=
  Nat.mod_eq_of_lt ((Nat.length_toDigits_le_iff (by decide) (by decide)).1 h)

/-- The last eight digits of a number of at least as many. -/
theorem stoi_drop {n k : ℕ} (h : 8 ≤ (Nat.toDigits 10 n).length)
    (hk : k = (Nat.toDigits 10 n).length - 8) :
    stoi ((Nat.toDigits 10 n).drop k) = (n % 100000000 : ℕ) := by
  rw [stoi_of_isDigit fun c hc =>
    Nat.isDigit_of_mem_toDigits (by decide) (by decide) (List.mem_of_mem_drop hc)]
  rw [hk]
  exact congrArg Nat.cast (digitsValue_drop h)

theorem stoi_lastEight (microseconds : ℤ) :
    stoi (lastEight microseconds) = clockPart microseconds := by
  cases microseconds with
  | ofNat n =>
    have hlist : (toString (Int.ofNat n)).toList = Nat.toDigits 10 n := Nat.toList_repr
    have hpart : clockPart (Int.ofNat n) = (n % 100000000 : ℕ) := if_neg (by simp)
    rw [hpart, lastEight, hlist]
    split_ifs with h
    · exact stoi_drop (Nat.le_of_lt h) rfl
    · rw [stoi_toDigits, mod_of_length_le (Nat.le_of_not_lt h)]
  | negSucc m =>
    have hlist : (toString (Int.negSucc m)).toList = '-' :: Nat.toDigits 10 (m + 1) := by
      change ("-" ++ (m + 1).repr).toList = _
      rw [String.toList_append, Nat.toList_repr]
      rfl
    rw [lastEight, hlist, List.length_cons]
    by_cases hm : (Nat.toDigits 10 (m + 1)).length ≤ 7
    · -- the sign is still among the last eight characters
      have hlt := (Nat.length_toDigits_le_iff (by decide) (by decide)).1 hm
      rw [if_neg (by omega), clockPart, if_pos (by omega)]
      change -(digitsValue (Nat.toDigits 10 (m + 1)) : ℤ) = _
      rw [← stoi_of_isDigit fun c hc => Nat.isDigit_of_mem_toDigits (by decide) (by decide) hc,
        stoi_toDigits]
      omega
    · have hle : 10000000 ≤ m + 1 := Nat.le_of_not_lt fun hlt =>
        hm ((Nat.length_toDigits_le_iff (by decide) (by decide)).2 hlt)
      have hk : (Nat.toDigits 10 (m + 1)).length + 1 - 8 =
          ((Nat.toDigits 10 (m + 1)).length - 8) + 1 := by omega
      rw [if_pos (by omega), clockPart, if_neg (by omega), hk, List.drop_succ_cons]
      exact stoi_drop (by omega) rfl

/-! ### The ids of two servers -/

section

variable {a b t u : ℤ}

theorem clockPart_bounds (t : ℤ) : -10000000 < clockPart t ∧ clockPart t < 100000000 := by
  rw [clockPart]
  split_ifs with h
  · exact ⟨h.1, by omega⟩
  · omega

theorem noOverflow (ha : 0 ≤ a ∧ a ≤ 9) (t : ℤ) : NoOverflow a t := by
  obtain ⟨hlow, hhigh⟩ := clockPart_bounds t
  rw [NoOverflow, generateCommandID_eq, stoi_lastEight]
  refine ⟨⟨?_, ?_⟩, ⟨?_, ?_⟩, ⟨?_, ?_⟩, ?_, ?_⟩ <;> omega

/-- The ids of two servers differ unless the clocks make up for the servers' parts. -/
theorem ids_differ_iff (ha : 0 ≤ a ∧ a ≤ 9) (hb : 0 ≤ b ∧ b ≤ 9) :
    generateCommandID a t ≠ generateCommandID b u ∧ NoOverflow a t ∧ NoOverflow b u ↔
      clockPart t - clockPart u ≠ (b - a) * 10000000 := by
  rw [generateCommandID_eq, generateCommandID_eq, stoi_lastEight, stoi_lastEight]
  constructor
  · rintro ⟨hne, -⟩ heq
    apply hne
    omega
  · intro hne
    refine ⟨fun heq => hne ?_, noOverflow ha t, noOverflow hb u⟩
    omega

/-- The clock of the server 1 is ten seconds ahead of that of the server 2. -/
theorem ids_differ_iff_seconds :
    generateCommandID 1 1700000010000000 ≠ generateCommandID 2 1700000000000001 ∧
      NoOverflow 1 1700000010000000 ∧ NoOverflow 2 1700000000000001 ↔
      clockPart 1700000010000000 - clockPart 1700000000000001 ≠ (2 - 1) * 10000000 :=
  ids_differ_iff ⟨by decide, by decide⟩ ⟨by decide, by decide⟩

/-- The clocks of the servers 1 and 2 differ by ten seconds. -/
theorem not_ids_differ : ¬∀ a b t u : ℤ, 0 ≤ a ∧ a ≤ 9 → 0 ≤ b ∧ b ≤ 9 → a ≠ b →
    generateCommandID a t ≠ generateCommandID b u ∧ NoOverflow a t ∧ NoOverflow b u := by
  intro h
  have hne := (h 1 2 1700000010000000 1700000000000000 (by decide) (by decide) (by decide)).1
  rw [generateCommandID_eq, generateCommandID_eq, stoi_lastEight, stoi_lastEight] at hne
  exact hne (by decide)

end

end LaptopPaxos
