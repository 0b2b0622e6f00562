import LaptopPaxos.Recovery
import LaptopPaxos.Replication

/-!
# Logs that are read back

What a server can rely on when it reads its log after a crash, also if the last line has been
cut (`Net.log_recovered`). The log has one line for each slot below the commit cursor
(`LaptopFactory.Durable`). The command of a line has been decided, but perhaps for an
earlier slot: it is the one with which the slots became ready.

The runs start with an empty log file. The source only appends to the file and never
truncates it, so what an earlier run of the server has left is not covered.
-/

namespace LaptopPaxos

open LaptopFactory Formatted

/-- The fields are values of `int`, and the address is the default one. -/
structure Command.Plain (v : Command) : Prop where
  ints : IsInt v.slot ∧ IsInt v.commandId ∧ IsInt v.customerId ∧ IsInt v.orderId
  address : v.IsPlain

/-- The log has the lines `saves`, one for each slot below the commit cursor, for commands
    with the property `P`. -/
structure LaptopFactory.Durable (f : LaptopFactory) (P : Command → Prop)
    (saves : List (ℤ × Command)) : Prop where
  log : f.log = savedFile saves
  numbers : saves.map Prod.fst = (List.range saves.length).map fun k : ℕ => (1 : ℤ) + k
  count : f.slotOut = 1 + saves.length
  below : ∀ t, 1 ≤ t → t < f.slotOut → t ∈ f.decisionMap
  free : f.slotOut ∉ f.decisionMap
  keys : ∀ s ∈ f.decisionMap, IsInt s
  entries : ∀ e ∈ saves, e.2.Plain ∧ e.2.slot ≤ e.1 ∧ P e.2

section

variable {f f' : LaptopFactory} {P Q : Command → Prop} {saves : List (ℤ × Command)} {v : Command}
  {key : ℤ}

/-! ### Lines -/

/-- The slots of the lines are those below the commit cursor. -/
theorem LaptopFactory.Durable.mem_keys (h : f.Durable P saves) :
    (∃ e ∈ saves, e.1 = key) ↔ 1 ≤ key ∧ key < f.slotOut := by
  have hmem : (∃ e ∈ saves, e.1 = key) ↔ key ∈ saves.map Prod.fst := List.mem_map.symm
  rw [hmem, h.numbers, h.count, List.mem_map]
  constructor
  · rintro ⟨k, hk, rfl⟩
    have hlt := List.mem_range.1 hk
    omega
  · rintro ⟨hone, hlt⟩
    exact ⟨(key - 1).toNat, List.mem_range.2 (by omega), by omega⟩

/-- The lines can be read back. -/
theorem LaptopFactory.Durable.storable (h : f.Durable P saves) : ∀ e ∈ saves, Storable e := by
  intro e he
  obtain ⟨⟨⟨hslot, hid, hcustomer, horder⟩, haddress⟩, -, -⟩ := h.entries e he
  obtain ⟨hone, hlt⟩ := h.mem_keys.1 ⟨e, he, rfl⟩
  have hword : IsWord e.2.clientIp.toList := by
    rw [haddress]
    decide +kernel
  exact ⟨h.keys _ (h.below _ hone hlt), hslot, hid, hword, hcustomer, horder⟩

theorem LaptopFactory.Durable.congr (h : f.Durable P saves) (hf : SameReplica f f')
    (hPQ : ∀ v, P v → Q v) : f'.Durable Q saves := by
  obtain ⟨hmap, hout, hlog⟩ := hf
  exact ⟨hlog.trans h.log, h.numbers, hout.trans h.count, by rw [hmap, hout]; exact h.below,
    by rw [hmap, hout]; exact h.free, by rw [hmap]; exact h.keys,
    fun e he => ⟨(h.entries e he).1, (h.entries e he).2.1, hPQ _ (h.entries e he).2.2⟩⟩

/-- A call of `Learn` writes lines for the slots that become ready. -/
theorem LaptopFactory.Durable.learn (h : f.Durable P saves) (hv : v.Plain) (hQ : Q v)
    (hPQ : ∀ v, P v → Q v) : ∃ saves', (f.learn v).Durable Q saves' := by
  obtain ⟨k, hk, hlearn⟩ := learn_spec v f
  refine ⟨saves ++ linesFrom v f.slotOut k, ?_⟩
  rw [hlearn]
  have hmem : ∀ {t}, t ∈ f.decisionMap.insert v.slot v ↔ t = v.slot ∨ t ∈ f.decisionMap :=
    StdMap.mem_insert
  have hcount := h.count
  refine ⟨?_, ?_, ?_, fun t hone ht => ?_, ?_, fun s hs => ?_, fun e he => ?_⟩
  · change f.log ++ _ = _
    rw [h.log, savedFile_eq, savedFile_eq, logText_append]
  · rw [List.map_append, h.numbers, numbers_linesFrom, List.length_append, length_linesFrom,
      List.range_add, List.map_append, List.map_map, hcount]
    refine congrArg _ (List.map_congr_left fun j _ => ?_)
    rw [Function.comp_apply]
    push_cast
    omega
  · change f.slotOut + k = _
    rw [List.length_append, length_linesFrom]
    push_cast
    omega
  · by_cases hlt : t < f.slotOut
    · exact hmem.2 (.inr (h.below t hone hlt))
    · exact StdMap.mem_of_lt_firstFree (not_lt.1 hlt) (hk ▸ ht)
  · change f.slotOut + k ∉ f.decisionMap.insert v.slot v
    rw [hk]
    exact StdMap.firstFree_not_mem _ _
  · rcases hmem.1 hs with rfl | hs
    · exact hv.ints.1
    · exact h.keys s hs
  · rcases List.mem_append.1 he with he | he
    · exact ⟨(h.entries e he).1, (h.entries e he).2.1, hPQ _ (h.entries e he).2.2⟩
    · obtain ⟨rfl, hge, hlt⟩ := mem_linesFrom.1 he
      refine ⟨hv, ?_, hQ⟩
      -- there is a line, so the commit cursor was at the slot of the command
      have hready := hmem.1 (StdMap.mem_of_lt_firstFree le_rfl (by rw [← hk]; omega))
      rw [← hready.resolve_right h.free]
      exact hge

/-! ### Reading back -/

theorem loadMapFromFile_eq (hs : ∀ e ∈ saves, Storable e) :
    loadMapFromFile (savedFile saves) = saves.foldl (fun m e => m.insert e.1 e.2) .empty := by
  have hload := @loadEntries_logText saves [] _ hs Nat.le.refl .empty
  rw [List.append_nil, loadEntries_of_none readEntry_nil, String.length_toList] at hload
  rw [savedFile_eq, loadMapFromFile, hload]

/-- The slots that are read back are those below the commit cursor. -/
theorem LaptopFactory.Durable.mem_load (h : f.Durable P saves) :
    key ∈ loadMapFromFile f.log ↔ 1 ≤ key ∧ key < f.slotOut := by
  rw [h.log, loadMapFromFile_eq h.storable, ← h.mem_keys]
  constructor
  · intro hkey
    obtain ⟨cmd, hcmd⟩ := StdMap.exists_find? hkey
    exact ⟨(key, cmd), mem_of_find?_foldl_insert hcmd, rfl⟩
  · rintro ⟨e, he, rfl⟩
    refine StdMap.mem_iff.2 ?_
    rw [StdMap.find?_foldl_insert]
    have hne : saves.filter (·.1 = e.1) ≠ [] :=
      List.ne_nil_of_mem (List.mem_filter.2 ⟨he, decide_eq_true rfl⟩)
    rw [List.getLast?_eq_some_getLast hne]
    rfl

/-- What is read back from what is left of the log is a line, but the last one may have lost
    digits of its order id. -/
theorem LaptopFactory.Durable.load (h : f.Durable P saves) {t : List Char}
    (ht : t <+: f.log.toList) {cmd : Command}
    (hfind : (loadMapFromFile (String.ofList t)).find? key = some cmd) :
    ∃ v, (key, v) ∈ saves ∧ (cmd = v ∨ ∃ d, EndsInOrderId saves t (key, v) d ∧
      cmd = { v with orderId := numeralValue d }) := by
  rw [h.log, savedFile_eq] at ht
  rw [loadMapFromFile, String.toList_ofList, String.length_ofList] at hfind
  rcases mem_or_endsInOrderId h.storable ht hfind with hmem | ⟨e, d, hend, heq⟩
  · exact ⟨cmd, hmem, .inl rfl⟩
  · obtain ⟨rfl, rfl⟩ := Prod.ext_iff.1 heq
    obtain ⟨-, -, done, todo, hsaves, -⟩ := id hend
    exact ⟨e.2, hsaves ▸ List.mem_append_right _ List.mem_cons_self, .inr ⟨d, hend, rfl⟩⟩

/-! ### On the network -/

/-- The engineers leave the decisions alone, but for those of the Commanders. -/
theorem EngineerMove.replica {o o' : ByteOrder} {role : Role} {e : ℤ} {fut : Option LaptopInfo}
    {k k' : Conn} {r : EngineerEffect} (h : EngineerMove o o' role e f fut k r k') :
    SameReplica f r.factory ∨ ∃ v : Command, v.Plain ∧ r.factory = f.learn v := by
  cases h with
  | send _ hfac | fail hfac | wake _ _ hfac | leave _ hfac => exact .inl (hfac ▸ .refl f)
  | @handle p _ _ _ hup hkind hfac =>
    have hcases := handle_cases (e := e) (f := f) hup.not_logRequest hkind
    generalize LaptopPaxos.handle e f k.engineer.pc p = x at hcases hfac
    rw [hfac]
    cases hcases with
    | order | record | free => exact .inl ⟨rfl, rfl, rfl⟩
    | @acceptor m => exact .inl (acceptorEngineer_cases f m).frame.2.1
    | @learner m _ _ hp =>
      change SameReplica f (f.learnerEngineer m) ∨ ∃ v, _ ∧ f.learnerEngineer m = f.learn v
      rw [learnerEngineer]
      split_ifs
      · refine .inr ⟨m.getCommand, ?_, rfl⟩
        subst hp
        -- what is received has been sent as `int`s
        have hplain : ∀ {m' : PaxosMsg}, m'.IsPlain → Parcel.message (.paxosMsg m) =
            .message (.paxosMsg m'.narrow) → m.getCommand.Plain := by
          rintro m' hm' heq
          cases heq
          exact ⟨⟨isInt_narrowInt _, isInt_narrowInt _, isInt_narrowInt _, isInt_narrowInt _⟩, hm'⟩
        cases role <;> cases hd : k.up.decoded.length <;> rw [hd] at hup
        case customer.succ =>
          obtain ⟨q, heq, -⟩ := hup
          cases heq
        case acceptor.succ | learner.succ =>
          obtain ⟨m', heq, hm'⟩ := hup
          exact hplain hm' heq
        all_goals cases hup
      · exact .inl (.refl f)

end

namespace Net

/-- The server `i` has decided the command for its slot. -/
def Decided (s : Net) (i : ℤ) (v : Command) : Prop :=
  (s.node i).factory.decisionMap.find? v.slot = some v

section

variable {H : Hosts} {s : Net}

/-- In every run of safe choices, the logs have lines for commands that have been decided. -/
theorem durable_of_reachBy (hs : (network H).ReachBy (Safe H) s) (i : ℤ) :
    ∃ saves, (s.node i).factory.Durable (s.Decided i) saves := by
  induction hs with
  | init hs =>
    obtain ⟨client, -, rfl⟩ := hs
    obtain ⟨m, config, hf, -⟩ := H.factory_eq i
    refine ⟨[], ?_⟩
    change (H.factory i).Durable _ []
    rw [hf]
    exact ⟨rfl, rfl, rfl, fun t hone ht => by change t < 1 at ht; omega, StdMap.not_mem_empty _,
      fun s hs => absurd hs (StdMap.not_mem_empty s), fun e he => absurd he List.not_mem_nil⟩
  | @step s s' act hs hok hst ih =>
    obtain ⟨saves, hsaves⟩ := ih
    have hmono : ∀ v, s.Decided i v → s'.Decided i v := by
      obtain ⟨L, L', hle, hL, hL'⟩ := exists_logs hs (.single hok hst)
      exact fun v hv => hL.decision_mono hL' hle hv
    have hreg := regular_of_reachable hs.reachable
    cases netStep_cases hst with
    | @engineer ℓ answers k r hk hr hu =>
      by_cases hi : i = k.server
      · subst hi
        obtain ⟨k', -, hmove⟩ := exists_move hreg hk hr hu
        rw [node_applyEngineer_self]
        change ∃ saves, r.factory.Durable _ saves
        rcases hmove.replica with hsame | ⟨v, hv, hlearn⟩
        · exact ⟨saves, hsaves.congr hsame hmono⟩
        · rw [hlearn]
          refine hsaves.learn hv ?_ hmono
          rw [Decided, node_applyEngineer_self]
          change r.factory.decisionMap.find? v.slot = some v
          rw [hlearn, learn_decisionMap, StdMap.find?_insert, if_pos rfl]
      · rw [node_applyEngineer_of_ne hi]
        exact ⟨saves, hsaves.congr (.refl _) hmono⟩
    | @scout j env answers io x hj hio hr hu =>
      by_cases hi : i = j
      · subst hi
        rw [node_applyScout_self]
        exact ⟨saves, hsaves.congr (scoutStep_cases hr).frame.2.1 hmono⟩
      · rw [node_applyScout_of_ne hi]
        exact ⟨saves, hsaves.congr (.refl _) hmono⟩
    | client =>
      rw [node_applyClient]
      exact ⟨saves, hsaves.congr (.refl _) hmono⟩

/-- In every run of safe choices, the log of a server can be read back, whole or with its end
    cut off. The slots of the whole log are those below the commit cursor. Every command
    that is read has been decided by the server, for the slot under which it is read or an
    earlier one; only the last line may have lost digits of its order id. -/
theorem log_recovered (hs : (network H).ReachBy (Safe H) s) (i : ℤ) :
    ∃ saves, (s.node i).factory.log = savedFile saves ∧
      (∀ key, key ∈ loadMapFromFile (s.node i).factory.log ↔
        1 ≤ key ∧ key < (s.node i).factory.slotOut) ∧
      ∀ t : List Char, t <+: (s.node i).factory.log.toList → ∀ key cmd,
        (loadMapFromFile (String.ofList t)).find? key = some cmd →
          1 ≤ key ∧ key < (s.node i).factory.slotOut ∧ ∃ v, s.Decided i v ∧ v.slot ≤ key ∧
            (cmd = v ∨ ∃ d, EndsInOrderId saves t (key, v) d ∧
              cmd = { v with orderId := numeralValue d }) := by
  obtain ⟨saves, hsaves⟩ := durable_of_reachBy hs i
  refine ⟨saves, hsaves.log, fun key => hsaves.mem_load, fun t ht key cmd hfind => ?_⟩
  obtain ⟨v, hmem, hcmd⟩ := hsaves.load ht hfind
  obtain ⟨hone, hlt⟩ := hsaves.mem_keys.1 ⟨_, hmem, rfl⟩
  obtain ⟨-, hle, hdecided⟩ := hsaves.entries _ hmem
  exact ⟨hone, hlt, v, hdecided, hle, hcmd⟩

/-- After the run of an order. -/
theorem log_recovered_one : ∃ s : Net, (s.node 1).factory.slotOut = 2 ∧
    1 ∈ loadMapFromFile (s.node 1).factory.log := by
  have hinit : (network OneOrder.hosts).ReachBy (Safe OneOrder.hosts) OneOrder.init :=
    .init OneOrder.init_mem
  obtain ⟨s, hs, hout⟩ := hinit.exists_of_runBy
    (P := fun s => (s.node 1).factory.slotOut = 2) OneOrder.run (by decide +kernel)
  obtain ⟨saves, -, hmem, -⟩ := log_recovered hs 1
  exact ⟨s, hout, (hmem 1).2 ⟨le_rfl, by rw [hout]; decide⟩⟩

end

end Net

end LaptopPaxos
