import Mathlib.Data.Int.Notation
import Mathlib.Data.Nat.Notation
import Mathlib.Tactic.Common

/-!
# Bytes in memory

Words of 32 bits as a machine stores them, in one order of the bytes or the
other, and the conversions `htonl` and `ntohl` between the order of the host
and that of the network. A `Reader` goes through a buffer from the front, as a
pointer does; it has no result where the pointer leaves the buffer.

* `ByteOrder.load_store` and `ByteOrder.store_load`: memory gives back what was
  stored in it;
* `run_readWord_store` and `run_readInt_putInt`: a value is read back, whatever follows
  it in the buffer, an integer put by one host also by a host of the other
  order;
* `cString_append_eq_self`: where a string without zero bytes ends.
-/

/-- The order in which a machine stores the bytes of a word. -/
inductive ByteOrder
  | little
  | big
  deriving DecidableEq, Repr

/-- The bytes of a word, the least significant first. -/
def wordBytes (w : BitVec 32) : List UInt8 :=
  [UInt8.ofNat w.toNat, UInt8.ofNat (w.toNat / 256), UInt8.ofNat (w.toNat / 65536),
    UInt8.ofNat (w.toNat / 16777216)]

/-- The number of a list of bytes, the least significant first. -/
def bytesValue : List UInt8 → ℕ
  | [] => 0
  | b :: bs => b.toNat + 256 * bytesValue bs

theorem bytesValue_wordBytes (w : BitVec 32) : bytesValue (wordBytes w) = w.toNat := by
  have hlt := w.isLt
  simp only [wordBytes, bytesValue, UInt8.toNat_ofNat']
  omega

theorem wordBytes_bytesValue {bs : List UInt8} (h : bs.length = 4) :
    wordBytes (BitVec.ofNat 32 (bytesValue bs)) = bs := by
  obtain ⟨a, b, c, d, rfl⟩ : ∃ a b c d, bs = [a, b, c, d] := by
    match bs, h with
    | [a, b, c, d], _ => exact ⟨a, b, c, d, rfl⟩
  have ha := a.toNat_lt
  have hb := b.toNat_lt
  have hc := c.toNat_lt
  have hd := d.toNat_lt
  simp only [wordBytes, bytesValue, BitVec.toNat_ofNat, List.cons.injEq, and_true,
    ← UInt8.toNat_inj, UInt8.toNat_ofNat']
  omega

namespace ByteOrder

variable (o o' : ByteOrder) (w : BitVec 32)

/-- A word as it lies in memory. -/
def store : List UInt8 :=
  match o with
  | little => wordBytes w
  | big => (wordBytes w).reverse

/-- The word that lies in memory. -/
def load (bs : List UInt8) : BitVec 32 :=
  match o with
  | little => BitVec.ofNat 32 (bytesValue bs)
  | big => BitVec.ofNat 32 (bytesValue bs.reverse)

/-- From the order of the host to that of the network. -/
def htonl : BitVec 32 := o.load (big.store w)

/-- From the order of the network to that of the host. -/
def ntohl : BitVec 32 := big.load (o.store w)

@[simp] theorem length_store : (o.store w).length = 4 := by
  cases o
  · rfl
  · exact List.length_reverse

@[simp] theorem load_store : o.load (o.store w) = w := by
  cases o <;> simp [load, store, bytesValue_wordBytes]

@[simp] theorem store_load {bs : List UInt8} (h : bs.length = 4) : o.store (o.load bs) = bs := by
  cases o
  · exact wordBytes_bytesValue h
  · rw [store, load, wordBytes_bytesValue (List.length_reverse.trans h), List.reverse_reverse]

/-- In the order of the network, every host stores the same bytes. -/
@[simp] theorem store_htonl : o.store (o.htonl w) = big.store w :=
  o.store_load (big.length_store w)

@[simp] theorem ntohl_load_store_big : o.ntohl (o.load (big.store w)) = w := by
  rw [ntohl, store_load o (big.length_store w), load_store]

end ByteOrder

/-! ### Integers -/

/-- A value of the type `int`: from -2³¹ to 2³¹ - 1. -/
def IsInt (v : ℤ) : Prop := -2147483648 ≤ v ∧ v < 2147483648

instance (v : ℤ) : Decidable (IsInt v) := inferInstanceAs (Decidable (_ ∧ _))

theorem IsInt.toInt_ofInt {v : ℤ} (h : IsInt v) : (BitVec.ofInt 32 v).toInt = v := by
  obtain ⟨h₁, h₂⟩ := h
  rw [BitVec.toInt_ofInt]
  exact Int.bmod_eq_of_le (m := 4294967296) (by omega) (by omega)

theorem isInt_toInt (w : BitVec 32) : IsInt w.toInt := ⟨w.le_toInt, w.toInt_lt⟩

/-- The bytes that a host reads as an integer are those that it stores for it. -/
theorem eq_toInt_load_iff {o : ByteOrder} {v : ℤ} {bs : List UInt8} (hv : IsInt v)
    (hbs : bs.length = 4) : v = (o.load bs).toInt ↔ bs = o.store (BitVec.ofInt 32 v) := by
  constructor
  · rintro rfl
    rw [BitVec.ofInt_toInt, o.store_load hbs]
  · rintro rfl
    rw [o.load_store, hv.toInt_ofInt]

/-- `memcpy` of the word `htonl(v)`. -/
def putInt (o : ByteOrder) (v : ℤ) : List UInt8 := o.store (o.htonl (BitVec.ofInt 32 v))

@[simp] theorem length_putInt (o : ByteOrder) (v : ℤ) : (putInt o v).length = 4 :=
  o.length_store _

/-- The integer at the position `k`, in the order of the network. -/
def getInt (bs : List UInt8) (k : ℕ) : ℤ := (ByteOrder.big.load ((bs.drop k).take 4)).toInt

/-! ### Readers -/

/-- Goes through a buffer from the front. There is no result where it would
    leave the buffer. -/
abbrev Reader := StateT (List UInt8) Option

namespace Reader

/-- The next `n` bytes. -/
def memcpy (n : ℕ) : Reader (List UInt8) := fun bs =>
  let taken := bs.take n
  if taken.length = n then some (taken, bs.drop n) else none

/-- Goes on only under a condition. -/
def require (p : Prop) [Decidable p] : Reader Unit := fun bs => if p then some ((), bs) else none

/-- The next word, in the order of the host. -/
def readWord (o : ByteOrder) : Reader (BitVec 32) := do
  let bytes ← memcpy 4
  return o.load bytes

/-- The next word, an integer in the order of the network. -/
def readInt (o : ByteOrder) : Reader ℤ := do
  let net ← readWord o
  return (o.ntohl net).toInt

variable {α : Type} {o o' : ByteOrder}

@[simp] theorem run_memcpy_append {bs rest : List UInt8} {n : ℕ} (h : bs.length = n) :
    (memcpy n).run (bs ++ rest) = some (bs, rest) := by
  subst h
  change (if ((bs ++ rest).take bs.length).length = bs.length then
    some ((bs ++ rest).take bs.length, (bs ++ rest).drop bs.length) else none) = _
  rw [List.take_left, List.drop_left, if_pos rfl]

theorem run_memcpy (n : ℕ) (bs : List UInt8) :
    (memcpy n).run bs = if n ≤ bs.length then some (bs.take n, bs.drop n) else none := by
  change (if (bs.take n).length = n then some (bs.take n, bs.drop n) else none) = _
  rw [List.length_take]
  exact if_congr (by omega) rfl rfl

theorem run_memcpy_eq_some {bs taken rest : List UInt8} {n : ℕ} :
    (memcpy n).run bs = some (taken, rest) ↔
      n ≤ bs.length ∧ taken = bs.take n ∧ rest = bs.drop n := by
  rw [run_memcpy]
  split_ifs with h
  · rw [Option.some_inj, Prod.mk.injEq, and_iff_right h, @eq_comm _ taken, @eq_comm _ rest]
  · simp [h]

theorem run_bind {x : Reader α} {β : Type} {f : α → Reader β} {bs : List UInt8} :
    (x >>= f).run bs = (x.run bs).bind fun p => (f p.1).run p.2 := rfl

@[simp] theorem run_require {p : Prop} [Decidable p] (hp : p) (bs : List UInt8) :
    (require p).run bs = some ((), bs) := if_pos hp

theorem run_require_eq_some {p : Prop} [Decidable p] {bs rest : List UInt8} :
    (require p).run bs = some ((), rest) ↔ p ∧ bs = rest := by
  change (if p then some ((), bs) else none) = _ ↔ _
  split_ifs with hp <;> simp [hp]

theorem run_readWord_store (w : BitVec 32) (rest : List UInt8) :
    (readWord o).run (o'.store w ++ rest) = some (o.load (o'.store w), rest) := by
  rw [readWord, run_bind, run_memcpy_append (o'.length_store w)]
  rfl

theorem run_readInt (v : ℤ) (rest : List UInt8) :
    (readInt o).run (putInt o' v ++ rest) = some ((BitVec.ofInt 32 v).toInt, rest) := by
  rw [readInt, run_bind, putInt, run_readWord_store, o'.store_htonl]
  exact congrArg (fun w => some (BitVec.toInt w, rest)) (o.ntohl_load_store_big _)

/-- An integer is read back on every host. -/
@[simp] theorem run_readInt_putInt {v : ℤ} (hv : IsInt v) (rest : List UInt8) :
    (readInt o).run (putInt o' v ++ rest) = some (v, rest) := by
  rw [run_readInt, hv.toInt_ofInt]

/-- Any four bytes can be read as an integer, on every host the same. -/
theorem run_readInt_drop {bs : List UInt8} {k : ℕ} (h : k + 4 ≤ bs.length) :
    (readInt o).run (bs.drop k) = some (getInt bs k, bs.drop (k + 4)) := by
  have hlen : ((bs.drop k).take 4).length = 4 := by
    rw [List.length_take, List.length_drop]
    omega
  have hmem : (memcpy 4).run (bs.drop k) = some ((bs.drop k).take 4, bs.drop (k + 4)) :=
    run_memcpy_eq_some.2 ⟨by rw [List.length_drop]; omega, rfl, List.drop_drop.symm⟩
  rw [readInt, readWord, run_bind, run_bind, hmem]
  change some ((o.ntohl (o.load ((bs.drop k).take 4))).toInt, _) = _
  rw [ByteOrder.ntohl, o.store_load hlen, getInt]

theorem run_readInt_front {bs : List UInt8} (h : 4 ≤ bs.length) :
    (readInt o).run bs = some (getInt bs 0, bs.drop 4) := @run_readInt_drop o bs 0 h

/-- An integer takes four bytes. -/
theorem length_of_run_readInt {bs rest : List UInt8} {v : ℤ}
    (h : (readInt o).run bs = some (v, rest)) : rest.length + 4 = bs.length := by
  rw [readInt, readWord, run_bind, run_bind] at h
  obtain ⟨p, hp, h⟩ := Option.bind_eq_some_iff.1 h
  obtain ⟨q, hq, hp⟩ := Option.bind_eq_some_iff.1 hp
  obtain ⟨hle, -, hrest⟩ := run_memcpy_eq_some.1 hq
  cases hp
  cases h
  rw [hrest, List.length_drop]
  omega

section

variable {β : Type} (f : α → Reader β) {bs rest : List UInt8}

theorem run_bind_of_eq_some {x : Reader α} {a : α} (h : x.run bs = some (a, rest)) :
    (x >>= f).run bs = (f a).run rest := by
  rw [run_bind, h, Option.bind_some]

theorem run_bind_eq_some {x : Reader α} {p : β × List UInt8} :
    (x >>= f).run bs = some p ↔ ∃ a rest, x.run bs = some (a, rest) ∧ (f a).run rest = some p := by
  rw [run_bind, Option.bind_eq_some_iff]
  constructor
  · rintro ⟨⟨a, rest⟩, h⟩
    exact ⟨a, rest, h⟩
  · rintro ⟨a, rest, h⟩
    exact ⟨(a, rest), h⟩

theorem run_map_eq_some {f : α → β} (hf : Function.Injective f) {x : Reader α} {a : α} :
    (f <$> x).run bs = some (f a, rest) ↔ x.run bs = some (a, rest) := by
  change (x.run bs).bind (fun p => some (f p.1, p.2)) = _ ↔ _
  rw [Option.bind_eq_some_iff]
  constructor
  · rintro ⟨p, hp, h⟩
    rw [Option.some_inj, Prod.mk.injEq] at h
    rw [hp, ← hf h.1, ← h.2]
  · intro h
    exact ⟨(a, rest), h, rfl⟩

theorem run_readInt_bind {v : ℤ} (hv : IsInt v) (f : ℤ → Reader β) (rest : List UInt8) :
    (readInt o >>= f).run (putInt o' v ++ rest) = (f v).run rest :=
  run_bind_of_eq_some f (run_readInt_putInt hv rest)

end

@[simp] theorem run_pure (a : α) (bs : List UInt8) : (pure a : Reader α).run bs = some (a, bs) :=
  rfl

end Reader

/-! ### Strings -/

/-- The characters of a string are bytes. -/
def IsByteString (s : String) : Prop := ∀ c ∈ s.toList, c.toNat < 256

instance (s : String) : Decidable (IsByteString s) := List.decidableBAll _ s.toList

/-- No character of the string is the null character. -/
def NulFree (s : String) : Prop := '\x00' ∉ s.toList

instance (s : String) : Decidable (NulFree s) := inferInstanceAs (Decidable (_ ∉ _))

/-- The contents of a string. -/
def stringBytes (s : String) : List UInt8 := s.toList.map fun c => UInt8.ofNat c.toNat

/-- The string of some bytes. -/
def bytesString (bs : List UInt8) : String := String.ofList (bs.map fun b => Char.ofNat b.toNat)

/-- The string that a pointer to its first character stands for. -/
def cString (bs : List UInt8) : List UInt8 := bs.takeWhile (· ≠ 0)

section

variable {s : String} {bs rest : List UInt8}

@[simp] theorem length_stringBytes (s : String) : (stringBytes s).length = s.length := by
  rw [stringBytes, List.length_map, String.length_toList]

@[simp] theorem length_bytesString (bs : List UInt8) : (bytesString bs).length = bs.length := by
  rw [bytesString, String.length_ofList, List.length_map]

theorem bytesString_stringBytes (hs : IsByteString s) : bytesString (stringBytes s) = s := by
  rw [bytesString, stringBytes, List.map_map]
  have hid : s.toList.map ((fun b : UInt8 => Char.ofNat b.toNat) ∘ fun c => UInt8.ofNat c.toNat) =
      s.toList := by
    refine (List.map_congr_left fun c hc => ?_).trans (List.map_id _)
    have hlt := hs c hc
    change Char.ofNat (UInt8.ofNat c.toNat).toNat = c
    rw [UInt8.toNat_ofNat', Nat.mod_eq_of_lt hlt, Char.ofNat_toNat]
  rw [hid, String.ofList_toList]

theorem stringBytes_bytesString (bs : List UInt8) : stringBytes (bytesString bs) = bs := by
  rw [bytesString, stringBytes, String.toList_ofList, List.map_map]
  refine (List.map_congr_left fun b _ => ?_).trans (List.map_id _)
  have hlt := b.toNat_lt
  have hvalid : b.toNat.isValidChar := .inl (by omega)
  change UInt8.ofNat (Char.ofNat b.toNat).toNat = b
  rw [Char.ofNat, dif_pos hvalid]
  exact UInt8.ofNat_toNat

theorem eq_bytesString_iff (hs : IsByteString s) : s = bytesString bs ↔ bs = stringBytes s := by
  constructor
  · rintro rfl
    exact (stringBytes_bytesString bs).symm
  · rintro rfl
    exact (bytesString_stringBytes hs).symm

theorem zero_notMem_stringBytes (hs : IsByteString s) (hn : NulFree s) : 0 ∉ stringBytes s := by
  intro h
  obtain ⟨c, hc, h0⟩ := List.mem_map.1 h
  have hlt := hs c hc
  have hzero : c.toNat = 0 := by
    have hmod := congrArg UInt8.toNat h0
    rw [UInt8.toNat_ofNat', Nat.mod_eq_of_lt hlt] at hmod
    exact hmod
  have hnul : c = '\x00' := by
    rw [← Char.ofNat_toNat c, hzero]
  exact hn (hnul ▸ hc)

@[simp] theorem cString_nil : cString [] = [] := rfl

theorem cString_append (h : 0 ∉ bs) (rest : List UInt8) : cString (bs ++ rest) = bs ++ cString rest :=
  List.takeWhile_append_of_pos fun _ hb => decide_eq_true fun h0 => h (h0 ▸ hb)

theorem cString_eq_self (h : 0 ∉ bs) : cString bs = bs := by
  have hnil := cString_append h []
  rwa [List.append_nil, cString_nil, List.append_nil] at hnil

theorem length_cString_le (bs : List UInt8) : (cString bs).length ≤ bs.length :=
  (List.takeWhile_prefix _).length_le

/-- A string without zero bytes ends at the first zero byte, or with the buffer. -/
theorem cString_append_eq_self (h : 0 ∉ bs) :
    cString (bs ++ rest) = bs ↔ rest = [] ∨ rest.head? = some 0 := by
  rw [cString_append h, List.append_right_eq_self]
  cases rest with
  | nil => simp [cString]
  | cons b rest => by_cases hb : b = 0 <;> simp [cString, hb]

/-- The same, of the first `n` bytes. -/
theorem cString_take_append_eq_self (h : 0 ∉ bs) (hrest : rest ≠ []) (n : ℕ) :
    cString ((bs ++ rest).take n) = bs ↔
      bs.length ≤ n ∧ (n = bs.length ∨ rest.head? = some 0) := by
  by_cases hle : bs.length ≤ n
  · have hnil : rest.take (n - bs.length) = [] ↔ n = bs.length := by
      rw [List.take_eq_nil_iff, or_iff_left hrest]
      omega
    rw [List.take_append, List.take_of_length_le hle, cString_append_eq_self h, and_iff_right hle,
      hnil, List.head?_take]
    refine or_congr_right' fun hne => ?_
    rw [if_neg (by omega)]
  · refine ⟨fun heq => absurd ?_ hle, fun hle' => absurd hle'.1 hle⟩
    rw [← heq]
    exact Nat.le_trans (length_cString_le _) (List.length_take_le _ _)

end
