import LaptopPaxos.Learn
import LaptopPaxos.Lib.Formatted

/-!
# Recovery

The log is read back into a map by `loadMapFromFile`, a number or a word at a
time, until a read fails. A character of the file stands for a byte.

* `loadMapFromFile_savedFile`: what is read back is the last command saved for
  each slot;
* `recovery_sound_iff`: if the file has been cut, the last line may be read as a
  command that has not been saved, and this is so only if the cut is in its last
  number.
-/

namespace LaptopPaxos

open Formatted

/-- `file >> key >> slot >> commandId >> clientIp >> customerId >> orderId`. -/
def readEntry (s : List Char) : Option ((ℤ × Command) × List Char) := do
  let (key, s) ← readInt s
  let (slot, s) ← readInt s
  let (commandId, s) ← readInt s
  let (clientIp, s) ← readWord s
  let (customerId, s) ← readInt s
  let (orderId, s) ← readInt s
  return ((key, ⟨slot, commandId, String.ofList clientIp, customerId, orderId⟩), s)

/-- At most `n` turns of the loop of `loadMapFromFile`. -/
def loadEntries : ℕ → List Char → StdMap ℤ Command → StdMap ℤ Command
  | 0, _, decisionMap => decisionMap
  | n + 1, s, decisionMap =>
    match readEntry s with
    | none => decisionMap
    | some (e, s) => loadEntries n s (decisionMap.insert e.1 e.2)

/-- The loop turns at most once for each character of the file. -/
def loadMapFromFile (file : String) : StdMap ℤ Command :=
  loadEntries file.length file.toList .empty

/-- The file after some calls of `saveCommandToFile`. -/
def savedFile (saves : List (ℤ × Command)) : String :=
  saves.foldl (fun file e => saveCommandToFile e.1 e.2 file) ""

/-- The line can be read back: its numbers are values of `int`, its address is a word. -/
structure Storable (e : ℤ × Command) : Prop where
  key : IsInt e.1
  slot : IsInt e.2.slot
  commandId : IsInt e.2.commandId
  clientIp : IsWord e.2.clientIp.toList
  customerId : IsInt e.2.customerId
  orderId : IsInt e.2.orderId

/-- A line of the log up to its last number. -/
def lineFront (e : ℤ × Command) : List Char :=
  (toString e.1).toList ++ ' ' :: ((toString e.2.slot).toList ++ ' ' ::
    ((toString e.2.commandId).toList ++ ' ' :: (e.2.clientIp.toList ++ ' ' ::
      ((toString e.2.customerId).toList ++ [' ']))))

variable {e : ℤ × Command} {saves : List (ℤ × Command)} {s rest : List Char}
  {m : StdMap ℤ Command}

theorem savedFile_eq (saves : List (ℤ × Command)) : savedFile saves = logText saves := by
  have hfold : ∀ file, saves.foldl (fun file e => saveCommandToFile e.1 e.2 file) file =
      file ++ logText saves := by
    induction saves with
    | nil => exact fun file => String.append_empty.symm
    | cons e saves ih =>
      intro file
      rw [List.foldl_cons, ih, saveCommandToFile_eq, logText, String.append_assoc]
  rw [savedFile, hfold, String.empty_append]

theorem toList_logText_cons (e : ℤ × Command) (saves : List (ℤ × Command)) :
    (logText (e :: saves)).toList =
      lineFront e ++ ((toString e.2.orderId).toList ++ '\n' :: (logText saves).toList) := by
  simp [logText, logLine, saveCommandToFile, lineFront, String.toList_append]

/-! ### One line -/

theorem readEntry_nil : readEntry [] = none := rfl

/-- The end of the line that has been read is skipped. -/
theorem readEntry_newline (s : List Char) : readEntry ('\n' :: s) = readEntry s := by
  rw [readEntry, readEntry, readInt_cons_space rfl]

/-- Behind the first five fields, the order id makes the line complete. -/
theorem readEntry_lineFront (h : Storable e) (s : List Char) :
    readEntry (lineFront e ++ s) =
      (readInt s).map fun p => ((e.1, { e.2 with orderId := p.1 }), p.2) := by
  have hspace : isSpace ' ' := rfl
  have hends : ∀ s, EndsNumber (' ' :: s) := endsNumber_cons rfl
  simp only [readEntry, lineFront, List.append_assoc, List.cons_append, List.nil_append,
    readInt_cons_space hspace, readWord_cons_space hspace, readInt_toString h.key (hends _),
    readInt_toString h.slot (hends _), readInt_toString h.commandId (hends _),
    readWord_append_cons h.clientIp hspace, readInt_toString h.customerId (hends _),
    String.ofList_toList, Option.bind_eq_bind, Option.bind_some, Option.pure_def]
  exact Option.map_eq_bind.symm

/-- Nothing is read from a line that ends before its last number. -/
theorem readEntry_of_cut (h : Storable e) (hs : s <+: lineFront e) : readEntry s = none := by
  have hspace : isSpace ' ' := rfl
  have hdigit : ' '.isDigit = false := rfl
  -- field by field: the text ends within it, and the next read fails, or it goes on behind it
  refine readInt_bind_eq_none h.key hdigit hs (fun _ => rfl) fun s hs => ?_
  simp only [readInt_cons_space hspace]
  refine readInt_bind_eq_none h.slot hdigit hs (fun _ => rfl) fun s hs => ?_
  simp only [readInt_cons_space hspace]
  refine readInt_bind_eq_none h.commandId hdigit hs (fun _ => rfl) fun s hs => ?_
  simp only [readWord_cons_space hspace]
  refine readWord_bind_eq_none h.clientIp hspace hs (fun _ => rfl) fun s hs => ?_
  simp only [readInt_cons_space hspace]
  refine readInt_bind_eq_none h.customerId hdigit hs (fun _ => rfl) fun s hs => ?_
  rw [List.prefix_nil.1 hs]
  rfl

/-- A read takes characters off the file. -/
theorem length_lt_of_readEntry (h : readEntry s = some (e, rest)) : rest.length < s.length := by
  simp only [readEntry, Option.bind_eq_bind, Option.bind_eq_some_iff, Prod.exists] at h
  obtain ⟨key, s₁, h₁, slot, s₂, h₂, commandId, s₃, h₃, clientIp, s₄, h₄, customerId, s₅, h₅,
    orderId, s₆, h₆, h⟩ := h
  cases h
  have := length_lt_of_readInt h₁
  have := length_lt_of_readInt h₂
  have := length_lt_of_readInt h₃
  have := length_lt_of_readWord h₄
  have := length_lt_of_readInt h₅
  have := length_lt_of_readInt h₆
  omega

/-! ### The loop -/

theorem loadEntries_of_none (h : readEntry s = none) (n : ℕ) (m : StdMap ℤ Command) :
    loadEntries n s m = m := by
  cases n with
  | zero => rfl
  | succ n => rw [loadEntries, h]

theorem loadEntries_newline (n : ℕ) (s : List Char) (m : StdMap ℤ Command) :
    loadEntries n ('\n' :: s) m = loadEntries n s m := by
  cases n with
  | zero => rfl
  | succ n => rw [loadEntries, loadEntries, readEntry_newline]

/-- Once there is a turn for each character, more of them do not matter: the loop
    ends with a read that fails. -/
theorem loadEntries_congr {n k : ℕ} (hn : s.length ≤ n) (hk : s.length ≤ k)
    (m : StdMap ℤ Command) : loadEntries n s m = loadEntries k s m := by
  induction n generalizing s k m with
  | zero =>
    obtain rfl : s = [] := List.length_eq_zero_iff.1 (by omega)
    rw [loadEntries_of_none readEntry_nil, loadEntries_of_none readEntry_nil]
  | succ n ih =>
    cases hread : readEntry s with
    | none => rw [loadEntries_of_none hread, loadEntries_of_none hread]
    | some p =>
      -- a read takes at least one of the characters that the turns have been counted by
      have hlt := length_lt_of_readEntry hread
      obtain ⟨k, rfl⟩ : ∃ k', k = k' + 1 := Nat.exists_eq_add_one.2 (by omega)
      rw [loadEntries, loadEntries, hread]
      exact ih (by omega) (by omega) _

theorem loadEntries_of_some {n : ℕ} (hn : s.length ≤ n) (h : readEntry s = some (e, rest))
    (m : StdMap ℤ Command) : loadEntries n s m = loadEntries n rest (m.insert e.1 e.2) := by
  have hlt := length_lt_of_readEntry h
  obtain ⟨n, rfl⟩ : ∃ n', n = n' + 1 := Nat.exists_eq_add_one.2 (by omega)
  rw [loadEntries, h]
  exact loadEntries_congr (by omega) (by omega) _

/-- Complete lines are read one after the other. -/
theorem loadEntries_logText {n : ℕ} (hs : ∀ e ∈ saves, Storable e)
    (hn : ((logText saves).toList ++ rest).length ≤ n) (m : StdMap ℤ Command) :
    loadEntries n ((logText saves).toList ++ rest) m =
      loadEntries n rest (saves.foldl (fun m e => m.insert e.1 e.2) m) := by
  induction saves generalizing m with
  | nil => rw [logText, String.toList_empty, List.nil_append, List.foldl_nil]
  | cons e saves ih =>
    obtain ⟨he, hs⟩ := List.forall_mem_cons.1 hs
    rw [toList_logText_cons, List.append_assoc, List.append_assoc, List.cons_append] at hn ⊢
    have hread := readEntry_lineFront he ((toString e.2.orderId).toList ++
      '\n' :: ((logText saves).toList ++ rest))
    rw [readInt_toString he.orderId (endsNumber_cons rfl _), Option.map_some] at hread
    rw [loadEntries_of_some hn hread, loadEntries_newline, List.foldl_cons]
    refine ih hs ?_ _
    simp only [List.length_append, List.length_cons] at hn ⊢
    omega

/-- What is read back is the last command saved for each slot. -/
theorem loadMapFromFile_savedFile (hs : ∀ e ∈ saves, Storable e) (key : ℤ) :
    (loadMapFromFile (savedFile saves)).find? key =
      ((saves.filter (·.1 = key)).getLast?).map Prod.snd := by
  have hload := @loadEntries_logText saves [] _ hs Nat.le.refl .empty
  rw [List.append_nil, loadEntries_of_none readEntry_nil, String.length_toList] at hload
  rw [savedFile_eq, loadMapFromFile, hload, StdMap.find?_foldl_insert]

/-- The command of an order, as it is stored for the slot `s`. -/
def orderIn (s customerId orderId : ℤ) : Command :=
  { slot := s, commandId := 110000000, customerId := customerId, orderId := orderId }

theorem storable_orderIn {k s customerId orderId : ℤ} (hk : IsInt k) (hs : IsInt s)
    (hcustomer : IsInt customerId) (horder : IsInt orderId) :
    Storable (k, orderIn s customerId orderId) :=
  ⟨hk, hs, (by decide : IsInt 110000000), (by decide +kernel : IsWord "000.000.000.000".toList),
    hcustomer, horder⟩

theorem loadMapFromFile_savedFile_twice :
    (loadMapFromFile (savedFile [(1, orderIn 1 7 0), (-2, orderIn (-2147483648) (-7) 12),
      (1, orderIn 1 (-8) 3)])).find? 1 = some (orderIn 1 (-8) 3) := by
  refine (loadMapFromFile_savedFile ?_ 1).trans rfl
  intro e he
  simp only [List.mem_cons, List.not_mem_nil, or_false] at he
  rcases he with rfl | rfl | rfl <;>
    exact storable_orderIn (by decide) (by decide) (by decide) (by decide)

/-! ### A torn log -/

/-- The file ends within the order id of the line `e`, or right behind it, with the
    digits `d` left of it. -/
def EndsInOrderId (saves : List (ℤ × Command)) (s : List Char) (e : ℤ × Command)
    (d : List Char) : Prop :=
  IsNumeral d ∧ d <+: (toString e.2.orderId).toList ∧
    ∃ done todo, saves = done ++ e :: todo ∧ s = (logText done).toList ++ (lineFront e ++ d)

/-- What is left of a log: complete lines, and a line that ends before its last
    number or in it. -/
theorem prefix_logText_cases (h : s <+: (logText saves).toList) : ∃ done todo q,
    saves = done ++ todo ∧ s = (logText done).toList ++ q ∧
      (q = [] ∨ ∃ e ∈ todo.head?,
        q <+: lineFront e ∨ ∃ d, d <+: (toString e.2.orderId).toList ∧ q = lineFront e ++ d) := by
  induction saves generalizing s with
  | nil => exact ⟨[], [], [], rfl, List.prefix_nil.1 h, .inl rfl⟩
  | cons e saves ih =>
    rw [toList_logText_cons] at h
    rcases prefix_append_cases h with hfront | ⟨q, rfl, hq⟩
    · exact ⟨[], e :: saves, s, rfl, rfl, .inr ⟨e, rfl, .inl hfront⟩⟩
    rcases prefix_append_cons_cases hq with hd | ⟨r, rfl, hr⟩
    · exact ⟨[], e :: saves, _, rfl, rfl, .inr ⟨e, rfl, .inr ⟨q, hd, rfl⟩⟩⟩
    · obtain ⟨done, todo, q', rfl, rfl, hq'⟩ := ih hr
      refine ⟨e :: done, todo, q', rfl, ?_, hq'⟩
      rw [toList_logText_cons]
      simp only [List.append_assoc, List.cons_append]

/-- What the loop has read from complete lines has been saved. -/
theorem mem_of_find?_foldl_insert {key : ℤ} {cmd : Command}
    (h : (saves.foldl (fun m e => m.insert e.1 e.2) (.empty : StdMap ℤ Command)).find? key =
      some cmd) : (key, cmd) ∈ saves := by
  rw [StdMap.find?_foldl_insert] at h
  obtain ⟨e, he, rfl⟩ := Option.map_eq_some_iff.1 h
  obtain ⟨hmem, hkey⟩ := List.mem_filter.1 (List.mem_of_getLast? he)
  rwa [← of_decide_eq_true hkey]

/-- A line that ends in its last number counts if any digits of that are left. -/
theorem loadEntries_torn {n : ℕ} {d : List Char} (h : Storable e)
    (hd : d <+: (toString e.2.orderId).toList) (hn : (lineFront e ++ d).length ≤ n)
    (m : StdMap ℤ Command) :
    ¬IsNumeral d ∧ loadEntries n (lineFront e ++ d) m = m ∨
      IsNumeral d ∧ loadEntries n (lineFront e ++ d) m =
        m.insert e.1 { e.2 with orderId := numeralValue d } := by
  obtain ⟨r, hr⟩ := hd
  have hnum : IsNumeral (d ++ r) := hr ▸ isNumeral_toString _
  have hv : IsInt (numeralValue (d ++ r)) := by
    rw [hr, numeralValue_toString]
    exact h.orderId
  have hread := readEntry_lineFront h d
  rcases readInt_of_prefix hnum hv with ⟨hd, hint⟩ | ⟨hd, hint⟩
  · rw [hint, Option.map_none] at hread
    exact .inl ⟨hd, loadEntries_of_none hread n m⟩
  · rw [hint, Option.map_some] at hread
    rw [loadEntries_of_some hn hread, loadEntries_of_none readEntry_nil]
    exact .inr ⟨hd, rfl⟩

/-- The last line of a torn log is read back with what is left of its order id. -/
theorem EndsInOrderId.find? {e : ℤ × Command} {d : List Char} (h : EndsInOrderId saves s e d)
    (hs : ∀ e ∈ saves, Storable e) : (loadEntries s.length s .empty).find? e.1 =
      some { e.2 with orderId := numeralValue d } := by
  obtain ⟨hd, hpre, done, todo, rfl, rfl⟩ := h
  obtain ⟨hdone, htodo⟩ := List.forall_mem_append.1 hs
  have hlen := (List.suffix_append (logText done).toList (lineFront e ++ d)).length_le
  rw [loadEntries_logText hdone Nat.le.refl]
  rcases loadEntries_torn (htodo e List.mem_cons_self) hpre hlen _ with ⟨hnot, -⟩ | ⟨-, heq⟩
  · exact absurd hd hnot
  · rw [heq, StdMap.find?_insert, if_pos rfl]

/-- What is read back from a torn log has been saved, or it is that last line. -/
theorem mem_or_endsInOrderId (hs : ∀ e ∈ saves, Storable e) (h : s <+: (logText saves).toList)
    {key : ℤ} {cmd : Command} (hfind : (loadEntries s.length s .empty).find? key = some cmd) :
    (key, cmd) ∈ saves ∨ ∃ e d, EndsInOrderId saves s e d ∧
      (key, cmd) = (e.1, { e.2 with orderId := numeralValue d }) := by
  obtain ⟨done, todo, q, rfl, rfl, hq⟩ := prefix_logText_cases h
  obtain ⟨hdone, htodo⟩ := List.forall_mem_append.1 hs
  have hlen := (List.suffix_append (logText done).toList q).length_le
  rw [loadEntries_logText hdone Nat.le.refl] at hfind
  -- what is left behind the complete lines: nothing, a line without its last number, or with
  -- some digits of it
  rcases hq with rfl | ⟨e, he, hq⟩
  · rw [loadEntries_of_none readEntry_nil] at hfind
    exact .inl (List.mem_append_left _ (mem_of_find?_foldl_insert hfind))
  obtain ⟨todo, rfl⟩ := List.head?_eq_some_iff.1 he
  have he := htodo e List.mem_cons_self
  rcases hq with hfront | ⟨d, hd, rfl⟩
  · rw [loadEntries_of_none (readEntry_of_cut he hfront)] at hfind
    exact .inl (List.mem_append_left _ (mem_of_find?_foldl_insert hfind))
  rcases loadEntries_torn he hd hlen _ with ⟨-, heq⟩ | ⟨hnum, heq⟩
  · rw [heq] at hfind
    exact .inl (List.mem_append_left _ (mem_of_find?_foldl_insert hfind))
  rw [heq, StdMap.find?_insert] at hfind
  split_ifs at hfind with hkey
  · cases hfind
    subst hkey
    exact .inr ⟨e, d, ⟨hnum, hd, done, todo, rfl, rfl⟩, rfl⟩
  · exact .inl (List.mem_append_left _ (mem_of_find?_foldl_insert hfind))

/-- Only what has been saved is read back from a torn log, if and only if an order
    id that has lost its last digits is that of another command saved for the slot. -/
theorem recovery_sound_iff (hs : ∀ e ∈ saves, Storable e) (h : s <+: (savedFile saves).toList) :
    (∀ key cmd, (loadMapFromFile (String.ofList s)).find? key = some cmd → (key, cmd) ∈ saves) ↔
      ∀ e d, EndsInOrderId saves s e d →
        (e.1, { e.2 with orderId := numeralValue d }) ∈ saves := by
  have hload : loadMapFromFile (String.ofList s) = loadEntries s.length s .empty := by
    rw [loadMapFromFile, String.toList_ofList, String.length_ofList]
  rw [savedFile_eq] at h
  rw [hload]
  constructor
  · intro hsound e d htorn
    exact hsound e.1 _ (htorn.find? hs)
  · intro hcut key cmd hfind
    rcases mem_or_endsInOrderId hs h hfind with hmem | ⟨e, d, htorn, heq⟩
    · exact hmem
    · exact heq ▸ hcut e d htorn

/-- Only the end of the last line is missing. -/
theorem recovery_sound_iff_complete :
    (loadMapFromFile "1 1 110000000 000.000.000.000 7 12").find? 1 = some (orderIn 1 7 12) ∧
    ∀ key cmd,
      (loadMapFromFile (String.ofList "1 1 110000000 000.000.000.000 7 12".toList)).find? key =
        some cmd → (key, cmd) ∈ [(1, orderIn 1 7 12)] := by
  have hs : ∀ e ∈ [((1 : ℤ), orderIn 1 7 12)], Storable e :=
    List.forall_mem_singleton.2 (storable_orderIn (by decide) (by decide) (by decide) (by decide))
  refine ⟨by decide +kernel, (recovery_sound_iff hs (by decide +kernel)).2 ?_⟩
  rintro e d ⟨-, -, done, todo, hsaves, hcut⟩
  cases done with
  | nil =>
    -- all digits are left, so that the command is the one saved
    obtain ⟨rfl, -⟩ := List.cons.inj hsaves
    have hline : "1 1 110000000 000.000.000.000 7 12".toList =
      (logText []).toList ++ (lineFront (1, orderIn 1 7 12) ++ "12".toList) := by decide +kernel
    obtain rfl : "12".toList = d := List.append_cancel_left (hline.symm.trans hcut)
    decide +kernel
  | cons e' done =>
    have hnil := (List.cons.inj hsaves).2
    exact absurd hnil.symm (List.append_ne_nil_of_right_ne_nil _ (List.cons_ne_nil _ _))

/-- The order id 12 has lost its last digit. -/
theorem not_recovery_sound : ¬∀ saves s, (∀ e ∈ saves, Storable e) →
    s <+: (savedFile saves).toList → ∀ key cmd,
      (loadMapFromFile (String.ofList s)).find? key = some cmd → (key, cmd) ∈ saves := by
  intro h
  have hmem := h [(1, orderIn 1 7 12)] "1 1 110000000 000.000.000.000 7 1".toList
    (List.forall_mem_singleton.2 (storable_orderIn (by decide) (by decide) (by decide) (by decide)))
    (by decide +kernel) 1 (orderIn 1 7 1) (by decide +kernel)
  exact absurd hmem (by decide)

end LaptopPaxos
