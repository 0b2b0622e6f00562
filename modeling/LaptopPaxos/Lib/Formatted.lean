import Mathlib.Data.List.Basic
import LaptopPaxos.Lib.Bytes

/-!
# Formatted text

The formatted input of the C++ standard library, with the default flags and in
the default locale, from a text that is given as a list of characters. What is
read is a decimal `int` or a word; both skip the white space in front of it, and
there is no result if the stream would be left in a failed state. What follows
is left in the text, the character that has ended a number or a word included.

* `readInt_append`, `readWord_append`: a number or a word is read back if it ends
  there;
* `readInt_of_prefix`: a text that ends within a number is read as a shorter
  one, if any digits are left.
-/

namespace Formatted

/-- `std::isspace`. -/
def isSpace (c : Char) : Bool := c = ' ' || (9 ≤ c.toNat && c.toNat ≤ 13)

/-- The number that digits, perhaps behind a minus sign, stand for. -/
def numeralValue : List Char → ℤ
  | '-' :: digits => -(Nat.ofDigitChars 10 digits 0 : ℤ)
  | digits => Nat.ofDigitChars 10 digits 0

/-- Digits, perhaps behind a minus sign. -/
def IsNumeral (s : List Char) : Prop :=
  ∃ digits, (s = digits ∨ s = '-' :: digits) ∧ digits ≠ [] ∧ ∀ c ∈ digits, c.isDigit

/-- A word, as it can be read back. -/
def IsWord (s : List Char) : Prop := s ≠ [] ∧ ∀ c ∈ s, isSpace c = false

instance (s : List Char) : Decidable (IsWord s) :=
  @instDecidableAnd _ _ inferInstance (List.decidableBAll _ s)

/-- The digits at the start of a text, with the sign that they have. -/
def readDigits (sign : ℤ) (s : List Char) : Option (ℤ × List Char) :=
  let value := sign * (Nat.ofDigitChars 10 (s.takeWhile Char.isDigit) 0 : ℤ)
  if s.takeWhile Char.isDigit = [] ∨ ¬IsInt value then none
  else some (value, s.dropWhile Char.isDigit)

/-- `stream >> n` for an `int`. -/
def readInt (s : List Char) : Option (ℤ × List Char) :=
  match s.dropWhile isSpace with
  | '-' :: s => readDigits (-1) s
  | '+' :: s => readDigits 1 s
  | s => readDigits 1 s

/-- The number that the digits at the start stand for, 0 without any. -/
def digitsOrZero (sign : ℤ) (s : List Char) : Option ℤ :=
  let value := sign * (Nat.ofDigitChars 10 (s.takeWhile Char.isDigit) 0 : ℤ)
  if IsInt value then some value else none

/-- `atoi`. There is no result if the number is no `int`, where it is undefined. -/
def atoi (s : List Char) : Option ℤ :=
  match s.dropWhile isSpace with
  | '-' :: s => digitsOrZero (-1) s
  | '+' :: s => digitsOrZero 1 s
  | s => digitsOrZero 1 s

/-- `stream >> word` for a string. -/
def readWord (s : List Char) : Option (List Char × List Char) :=
  let s := s.dropWhile isSpace
  let word := s.takeWhile fun c => !isSpace c
  if word = [] then none else some (word, s.dropWhile fun c => !isSpace c)

section

variable {s t rest : List Char} {c : Char} {n v : ℤ}

/-! ### Characters -/

theorem isSpace_eq_false_of_isDigit (h : c.isDigit) : isSpace c = false := by
  have hlow : 48 ≤ c.toNat := (Char.isDigit_iff_toNat.1 h).1
  have hne : c ≠ ' ' := by
    rintro rfl
    exact absurd hlow (by decide)
  simp only [isSpace, hne, decide_false, Bool.false_or, Bool.and_eq_false_iff, decide_eq_false_iff_not]
  omega

theorem ne_sign_of_isDigit (h : c.isDigit) : c ≠ '-' ∧ c ≠ '+' := by
  constructor <;> rintro rfl <;> exact absurd h (by decide)

/-! ### Numerals -/

theorem IsNumeral.forall_isSpace (h : IsNumeral s) : ∀ c ∈ s, isSpace c = false := by
  obtain ⟨digits, hs, -, hdigits⟩ := h
  have hspace : ∀ c ∈ digits, isSpace c = false :=
    fun c hc => isSpace_eq_false_of_isDigit (hdigits c hc)
  rcases hs with rfl | rfl
  · exact hspace
  · exact List.forall_mem_cons.2 ⟨by decide, hspace⟩

theorem not_isNumeral_nil : ¬IsNumeral [] := by
  rintro ⟨digits, rfl | h, hne, -⟩
  · exact hne rfl
  · cases h

theorem not_isNumeral_sign : ¬IsNumeral ['-'] := by
  rintro ⟨digits, rfl | h, hne, hdigits⟩
  · exact absurd (hdigits '-' List.mem_cons_self) (by decide)
  · cases h
    exact hne rfl

theorem IsNumeral.isWord (h : IsNumeral s) : IsWord s := by
  refine ⟨?_, h.forall_isSpace⟩
  obtain ⟨digits, rfl | rfl, hne, -⟩ := h
  · exact hne
  · exact List.cons_ne_nil _ _

theorem numeralValue_of_isDigit (h : ∀ c ∈ s, c.isDigit) :
    numeralValue s = Nat.ofDigitChars 10 s 0 := by
  rw [numeralValue.eq_def]
  split
  · exact absurd (h '-' List.mem_cons_self) (by decide)
  · rfl

theorem toList_toString_ofNat (n : ℕ) : (toString (n : ℤ)).toList = Nat.toDigits 10 n :=
  Nat.toList_repr

theorem toList_toString_negSucc (n : ℕ) :
    (toString (Int.negSucc n)).toList = '-' :: Nat.toDigits 10 (n + 1) := by
  change ("-" ++ (n + 1).repr).toList = _
  rw [String.toList_append, Nat.toList_repr]
  rfl

/-- What is printed is a numeral. -/
theorem isNumeral_toString (n : ℤ) : IsNumeral (toString n).toList := by
  have hdigits : ∀ n : ℕ, ∀ c ∈ Nat.toDigits 10 n, c.isDigit :=
    fun n c hc => Nat.isDigit_of_mem_toDigits (by decide) (by decide) hc
  cases n with
  | ofNat n => exact ⟨_, .inl (toList_toString_ofNat n), Nat.toDigits_ne_nil, hdigits n⟩
  | negSucc n =>
    exact ⟨_, .inr (toList_toString_negSucc n), Nat.toDigits_ne_nil, hdigits (n + 1)⟩

@[simp] theorem numeralValue_toString (n : ℤ) : numeralValue (toString n).toList = n := by
  cases n with
  | ofNat n =>
    change numeralValue (toString (n : ℤ)).toList = _
    rw [toList_toString_ofNat, numeralValue_of_isDigit fun c hc =>
      Nat.isDigit_of_mem_toDigits (by decide) (by decide) hc, Nat.ofDigitChars_ten_toDigits]
    rfl
  | negSucc n =>
    rw [toList_toString_negSucc, numeralValue, Nat.ofDigitChars_ten_toDigits]
    rfl

theorem le_ofDigitChars (s : List Char) (n : ℕ) : n ≤ Nat.ofDigitChars 10 s n := by
  induction s generalizing n with
  | nil => exact Nat.le_of_eq Nat.ofDigitChars_nil.symm
  | cons c s ih =>
    rw [Nat.ofDigitChars_cons]
    exact Nat.le_trans (by omega) (ih _)

/-- What is left of a numeral is one, if there are digits, of a number between zero
    and the whole number. -/
theorem IsNumeral.of_append (h : IsNumeral (s ++ t)) (hne : s ≠ []) (hsign : s ≠ ['-']) :
    IsNumeral s ∧ (0 ≤ numeralValue s ∧ numeralValue s ≤ numeralValue (s ++ t) ∨
      numeralValue (s ++ t) ≤ numeralValue s ∧ numeralValue s ≤ 0) := by
  have hle : ∀ digits : List Char,
      Nat.ofDigitChars 10 digits 0 ≤ Nat.ofDigitChars 10 (digits ++ t) 0 := fun digits => by
    rw [Nat.ofDigitChars_append]
    exact le_ofDigitChars t _
  obtain ⟨digits, hs, -, hdigits⟩ := h
  rcases hs with hs | hs
  · subst hs
    have hleft : ∀ c ∈ s, c.isDigit := fun c hc => hdigits c (List.mem_append_left _ hc)
    have hs := hle s
    rw [numeralValue_of_isDigit hdigits, numeralValue_of_isDigit hleft]
    exact ⟨⟨s, .inl rfl, hne, hleft⟩, .inl ⟨by omega, by omega⟩⟩
  · cases s with
    | nil => exact absurd rfl hne
    | cons c s =>
      obtain ⟨rfl, rfl⟩ := List.cons.inj hs
      have hleft : ∀ c ∈ s, c.isDigit := fun c hc => hdigits c (List.mem_append_left _ hc)
      have hs := hle s
      rw [List.cons_append, numeralValue, numeralValue]
      exact ⟨⟨s, .inr rfl, fun hnil => hsign (by rw [hnil]), hleft⟩, .inr ⟨by omega, by omega⟩⟩

/-! ### Reading -/

/-- The text does not go on with a digit. -/
def EndsNumber (rest : List Char) : Prop := ∀ c ∈ rest.head?, c.isDigit = false

theorem endsNumber_nil : EndsNumber [] := fun _ hc => absurd hc (Option.not_mem_none _)

theorem endsNumber_cons (hc : c.isDigit = false) (s : List Char) : EndsNumber (c :: s) := by
  rintro _ ⟨⟩
  exact hc

theorem readDigits_append {sign : ℤ} (hne : s ≠ []) (hs : ∀ c ∈ s, c.isDigit)
    (hv : IsInt (sign * (Nat.ofDigitChars 10 s 0 : ℤ))) (hrest : EndsNumber rest) :
    readDigits sign (s ++ rest) = some (sign * (Nat.ofDigitChars 10 s 0 : ℤ), rest) := by
  have htake : (s ++ rest).takeWhile Char.isDigit = s := by
    rw [List.takeWhile_append_of_pos hs]
    cases rest with
    | nil => simp
    | cons c rest => simp [hrest c rfl]
  have hdrop : (s ++ rest).dropWhile Char.isDigit = rest := by
    rw [List.dropWhile_append_of_pos hs]
    cases rest with
    | nil => rfl
    | cons c rest => simp [hrest c rfl]
  rw [readDigits, htake, hdrop]
  exact if_neg (not_or.2 ⟨hne, not_not.2 hv⟩)

theorem readInt_cons_space (hc : isSpace c) (s : List Char) : readInt (c :: s) = readInt s := by
  rw [readInt, readInt, List.dropWhile_cons_of_pos hc]

theorem readWord_cons_space (hc : isSpace c) (s : List Char) : readWord (c :: s) = readWord s := by
  rw [readWord, readWord, List.dropWhile_cons_of_pos hc]

/-- A numeral is read if it ends where the number ends. -/
theorem readInt_append (h : IsNumeral s) (hv : IsInt (numeralValue s)) (hrest : EndsNumber rest) :
    readInt (s ++ rest) = some (numeralValue s, rest) := by
  have hskip : (s ++ rest).dropWhile isSpace = s ++ rest := by
    cases s with
    | nil => exact absurd rfl h.isWord.1
    | cons c s =>
      exact List.dropWhile_cons_of_neg (by rw [h.forall_isSpace c List.mem_cons_self]; decide)
  obtain ⟨digits, hs, hne, hdigits⟩ := h
  rw [readInt, hskip]
  rcases hs with rfl | rfl
  · have hvalue : numeralValue s = 1 * (Nat.ofDigitChars 10 s 0 : ℤ) := by
      rw [numeralValue_of_isDigit hdigits, Int.one_mul]
    rw [hvalue] at hv ⊢
    rw [← readDigits_append hne hdigits hv hrest]
    cases s with
    | nil => exact absurd rfl hne
    | cons c s =>
      obtain ⟨hminus, hplus⟩ := ne_sign_of_isDigit (hdigits c List.mem_cons_self)
      rw [List.cons_append]
      split
      · next heq => exact absurd (List.cons.inj heq).1 hminus
      · next heq => exact absurd (List.cons.inj heq).1 hplus
      · rfl
  · have hvalue : numeralValue ('-' :: digits) = -1 * (Nat.ofDigitChars 10 digits 0 : ℤ) := by
      rw [numeralValue, Int.neg_one_mul]
    rw [hvalue] at hv ⊢
    exact readDigits_append hne hdigits hv hrest

/-- A number that has been printed is read back. -/
theorem readInt_toString (hn : IsInt n) (hrest : EndsNumber rest) :
    readInt ((toString n).toList ++ rest) = some (n, rest) := by
  have h := readInt_append (isNumeral_toString n) ((numeralValue_toString n).symm ▸ hn) hrest
  rwa [numeralValue_toString] at h

theorem digitsOrZero_of_readDigits {sign : ℤ} (h : readDigits sign s = some (v, rest)) :
    digitsOrZero sign s = some v := by
  rw [readDigits] at h
  split_ifs at h with hfail
  obtain ⟨-, hint⟩ := not_or.1 hfail
  cases h
  exact if_pos (not_not.1 hint)

/-- What can be read as a number, `atoi` converts to the same. -/
theorem atoi_of_readInt (h : readInt s = some (n, rest)) : atoi s = some n := by
  rw [readInt] at h
  rw [atoi]
  generalize s.dropWhile isSpace = t at h ⊢
  split at h <;> exact digitsOrZero_of_readDigits h

theorem atoi_toString (hn : IsInt n) : atoi (toString n).toList = some n := by
  have hread := readInt_toString hn endsNumber_nil
  rw [List.append_nil] at hread
  exact atoi_of_readInt hread

theorem readWord_append (h : IsWord s) (hrest : ∀ c ∈ rest.head?, isSpace c) :
    readWord (s ++ rest) = some (s, rest) := by
  have hs : ∀ c ∈ s, (!isSpace c) = true := fun c hc => by rw [h.2 c hc]; rfl
  have hskip : (s ++ rest).dropWhile isSpace = s ++ rest := by
    cases s with
    | nil => exact absurd rfl h.1
    | cons c s => exact List.dropWhile_cons_of_neg (by rw [h.2 c List.mem_cons_self]; decide)
  have htake : (s ++ rest).takeWhile (fun c => !isSpace c) = s := by
    rw [List.takeWhile_append_of_pos hs]
    cases rest with
    | nil => simp
    | cons c rest => simp [hrest c rfl]
  have hdrop : (s ++ rest).dropWhile (fun c => !isSpace c) = rest := by
    rw [List.dropWhile_append_of_pos hs]
    cases rest with
    | nil => rfl
    | cons c rest => simp [hrest c rfl]
  rw [readWord, hskip, htake, hdrop]
  exact if_neg h.1

theorem readWord_append_cons (h : IsWord s) (hc : isSpace c) (rest : List Char) :
    readWord (s ++ c :: rest) = some (s, c :: rest) :=
  readWord_append h (by rintro _ ⟨⟩; exact hc)

/-! ### The end of the text -/

/-- A text that ends within a number is read if any digits are left. -/
theorem readInt_of_prefix (h : IsNumeral (s ++ t)) (hv : IsInt (numeralValue (s ++ t))) :
    ¬IsNumeral s ∧ readInt s = none ∨ IsNumeral s ∧ readInt s = some (numeralValue s, []) := by
  by_cases hne : s = []
  · subst hne
    exact .inl ⟨not_isNumeral_nil, rfl⟩
  by_cases hsign : s = ['-']
  · subst hsign
    exact .inl ⟨not_isNumeral_sign, rfl⟩
  obtain ⟨hs, hbetween⟩ := h.of_append hne hsign
  obtain ⟨hlow, hhigh⟩ := hv
  have hint : IsInt (numeralValue s) := ⟨by omega, by omega⟩
  have hread := readInt_append hs hint endsNumber_nil
  rw [List.append_nil] at hread
  exact .inr ⟨hs, hread⟩

/-- A text that ends within a word. -/
theorem readWord_of_prefix (h : IsWord (s ++ t)) : readWord s = none ∨ readWord s = some (s, []) := by
  by_cases hne : s = []
  · subst hne
    exact .inl rfl
  have hs : IsWord s := ⟨hne, fun c hc => h.2 c (List.mem_append_left _ hc)⟩
  have hread := @readWord_append s [] hs fun _ hc => absurd hc (Option.not_mem_none _)
  rw [List.append_nil] at hread
  exact .inr hread

/-- The end of a text lies within its first part or behind it. -/
theorem prefix_append_cases {a b : List Char} (h : s <+: a ++ b) :
    s <+: a ∨ ∃ q, s = a ++ q ∧ q <+: b := by
  rcases List.prefix_or_prefix_of_prefix h (List.prefix_append a b) with hs | ⟨q, rfl⟩
  · exact .inl hs
  · exact .inr ⟨q, rfl, (List.prefix_append_right_inj a).1 h⟩

theorem prefix_append_cons_cases {a b : List Char} (h : s <+: a ++ c :: b) :
    s <+: a ∨ ∃ q, s = a ++ c :: q ∧ q <+: b := by
  rcases prefix_append_cases h with hs | ⟨q, rfl, hq⟩
  · exact .inl hs
  rcases List.prefix_cons_iff.1 hq with rfl | ⟨q, rfl, hq'⟩
  · exact .inl ((List.append_nil a).symm ▸ List.prefix_refl a)
  · exact .inr ⟨q, rfl, hq'⟩

section Bind

variable {β : Type} {f : ℤ × List Char → Option β} {g : List Char × List Char → Option β}

/-- If the text ends within a number, what is read next is not there. -/
theorem readInt_bind_eq_none (hn : IsInt n) (hc : c.isDigit = false)
    (h : s <+: (toString n).toList ++ c :: t) (hend : ∀ v, f (v, []) = none)
    (hnext : ∀ q, q <+: t → f (n, c :: q) = none) : (readInt s).bind f = none := by
  rcases prefix_append_cons_cases h with ⟨r, hr⟩ | ⟨q, rfl, hq⟩
  · have hnum : IsNumeral (s ++ r) := hr ▸ isNumeral_toString n
    have hv : IsInt (numeralValue (s ++ r)) := by rwa [hr, numeralValue_toString]
    rcases readInt_of_prefix hnum hv with ⟨-, hread⟩ | ⟨-, hread⟩
    · rw [hread, Option.bind_none]
    · rw [hread, Option.bind_some, hend]
  · rw [readInt_toString hn (endsNumber_cons hc q), Option.bind_some, hnext q hq]

theorem readWord_bind_eq_none {word : List Char} (hw : IsWord word) (hc : isSpace c)
    (h : s <+: word ++ c :: t) (hend : ∀ w, g (w, []) = none)
    (hnext : ∀ q, q <+: t → g (word, c :: q) = none) : (readWord s).bind g = none := by
  rcases prefix_append_cons_cases h with ⟨r, rfl⟩ | ⟨q, rfl, hq⟩
  · rcases readWord_of_prefix hw with hread | hread
    · rw [hread, Option.bind_none]
    · rw [hread, Option.bind_some, hend]
  · rw [readWord_append_cons hw hc, Option.bind_some, hnext q hq]

end Bind

/-! ### Progress -/

theorem length_lt_of_readDigits {sign : ℤ} (h : readDigits sign s = some (v, rest)) :
    rest.length < s.length := by
  rw [readDigits] at h
  split_ifs at h with hnone
  cases h
  rw [not_or] at hnone
  have hpos := List.length_pos_of_ne_nil hnone.1
  have hlen := congrArg List.length (@List.takeWhile_append_dropWhile _ Char.isDigit s)
  rw [List.length_append] at hlen
  omega

theorem length_lt_of_readInt (h : readInt s = some (v, rest)) : rest.length < s.length := by
  have hskip := (@List.dropWhile_sublist _ s isSpace).length_le
  rw [readInt] at h
  split at h
  · next s' heq =>
    rw [heq, List.length_cons] at hskip
    have := length_lt_of_readDigits h
    omega
  · next s' heq =>
    rw [heq, List.length_cons] at hskip
    have := length_lt_of_readDigits h
    omega
  · exact Nat.lt_of_lt_of_le (length_lt_of_readDigits h) hskip

theorem length_lt_of_readWord {word : List Char} (h : readWord s = some (word, rest)) :
    rest.length < s.length := by
  have hskip := (@List.dropWhile_sublist _ s isSpace).length_le
  rw [readWord] at h
  split_ifs at h with hnone
  cases h
  have hpos := List.length_pos_of_ne_nil hnone
  have hlen := congrArg List.length
    (@List.takeWhile_append_dropWhile _ (fun c => !isSpace c) (s.dropWhile isSpace))
  rw [List.length_append] at hlen
  omega

end

end Formatted
