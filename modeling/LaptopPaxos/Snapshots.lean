import LaptopPaxos.Recovered

/-!
# Decisions that are saved and loaded

`saveMapToFile` and `loadMapFromFile` belong together: what is saved of a map is loaded as
the same map, if its lines can be read back, and they can for the decisions of a server in
every run (`Net.decisions_loaded`). Of a file that has been cut a part of the map is loaded,
perhaps with an order id that has lost its last digits.

No server calls the two. A call of `saveMapToFile` on the decisions would not link: the
header declares the function for a `map<int, Command>`, as `decisionMap` is, and the
definition is for a `map<int, const Command>`. The results are about what the definition
writes of the same entries.
-/

namespace LaptopPaxos

open LaptopFactory Formatted

section

variable {m : StdMap ℤ Command} {key : ℤ} {cmd : Command} {t : List Char}

theorem saveMapToFile_eq (m : StdMap ℤ Command) : saveMapToFile m = savedFile m.entries := rfl

theorem loadMapFromFile_saveMapToFile (hm : ∀ e ∈ m.entries, Storable e) :
    loadMapFromFile (saveMapToFile m) = m := by
  rw [saveMapToFile_eq, loadMapFromFile_eq hm, StdMap.foldl_insert_entries]

/-- What is loaded from what is left of the file. -/
theorem load_of_prefix (hm : ∀ e ∈ m.entries, Storable e) (ht : t <+: (saveMapToFile m).toList)
    (hfind : (loadMapFromFile (String.ofList t)).find? key = some cmd) :
    ∃ v, m.find? key = some v ∧ (cmd = v ∨ ∃ d, EndsInOrderId m.entries t (key, v) d ∧
      cmd = { v with orderId := numeralValue d }) := by
  rw [saveMapToFile_eq, savedFile_eq] at ht
  rw [loadMapFromFile, String.toList_ofList, String.length_ofList] at hfind
  rcases mem_or_endsInOrderId hm ht hfind with hmem | ⟨e, d, hend, heq⟩
  · exact ⟨cmd, StdMap.find?_eq_some.2 hmem, .inl rfl⟩
  · obtain ⟨rfl, rfl⟩ := Prod.ext_iff.1 heq
    obtain ⟨-, -, done, todo, hentries, -⟩ := id hend
    refine ⟨e.2, StdMap.find?_eq_some.2 ?_, .inr ⟨d, hend, rfl⟩⟩
    rw [hentries]
    exact List.mem_append_right _ List.mem_cons_self

end

/-- The decisions are those of commands made of `int`s, with the default address. -/
def LaptopFactory.PlainDecisions (f : LaptopFactory) : Prop :=
  ∀ slot v, f.decisionMap.find? slot = some v → IsInt slot ∧ v.Plain

section

variable {f f' : LaptopFactory} {v : Command}

theorem LaptopFactory.PlainDecisions.storable (h : f.PlainDecisions) :
    ∀ e ∈ f.decisionMap.entries, Storable e := by
  intro e he
  obtain ⟨hkey, ⟨hslot, hid, hcustomer, horder⟩, haddress⟩ := h e.1 e.2 (StdMap.find?_eq_some.2 he)
  have hword : IsWord e.2.clientIp.toList := by
    rw [haddress]
    decide +kernel
  exact ⟨hkey, hslot, hid, hword, hcustomer, horder⟩

theorem LaptopFactory.PlainDecisions.congr (h : f.PlainDecisions) (hf : SameReplica f f') :
    f'.PlainDecisions := by
  intro slot v hfind
  rw [hf.decisionMap] at hfind
  exact h slot v hfind

theorem LaptopFactory.PlainDecisions.learn (h : f.PlainDecisions) (hv : v.Plain) :
    (f.learn v).PlainDecisions := by
  intro slot w hfind
  rw [learn_decisionMap, StdMap.find?_insert] at hfind
  split_ifs at hfind with hslot
  · cases hfind
    exact ⟨hslot ▸ hv.ints.1, hv⟩
  · exact h slot w hfind

end

namespace Net

section

variable {H : Hosts} {s : Net}

theorem plainDecisions (hs : (network H).Reachable s) (i : ℤ) :
    (s.node i).factory.PlainDecisions := by
  induction hs with
  | init hs =>
    obtain ⟨client, -, rfl⟩ := hs
    obtain ⟨m, config, hf, -⟩ := H.factory_eq i
    change (H.factory i).PlainDecisions
    rw [hf]
    intro slot v hfind
    cases hfind
  | @step s s' act hs _ hst ih =>
    have hreg := regular_of_reachable hs
    cases netStep_cases hst with
    | @engineer ℓ answers k r hk hr hu =>
      by_cases hi : i = k.server
      · subst hi
        obtain ⟨k', -, hmove⟩ := exists_move hreg hk hr hu
        rw [node_applyEngineer_self]
        change r.factory.PlainDecisions
        rcases hmove.replica with hsame | ⟨v, hv, hlearn⟩
        · exact ih.congr hsame
        · rw [hlearn]
          exact ih.learn hv
      · rw [node_applyEngineer_of_ne hi]
        exact ih
    | @scout j env answers io x hj hio hr hu =>
      by_cases hi : i = j
      · subst hi
        rw [node_applyScout_self]
        exact ih.congr (scoutStep_cases hr).frame.2.1
      · rw [node_applyScout_of_ne hi]
        exact ih
    | client =>
      rw [node_applyClient]
      exact ih

/-- In every run, the decisions of a server that are saved are loaded as the same map. From
    what is left of the file a part of them is loaded; only the last line may have lost
    digits of its order id. -/
theorem decisions_loaded (hs : (network H).Reachable s) (i : ℤ) :
    loadMapFromFile (saveMapToFile (s.node i).factory.decisionMap) =
        (s.node i).factory.decisionMap ∧
      ∀ t : List Char, t <+: (saveMapToFile (s.node i).factory.decisionMap).toList → ∀ key cmd,
        (loadMapFromFile (String.ofList t)).find? key = some cmd →
          ∃ v, (s.node i).factory.decisionMap.find? key = some v ∧
            (cmd = v ∨ ∃ d, EndsInOrderId (s.node i).factory.decisionMap.entries t (key, v) d ∧
              cmd = { v with orderId := numeralValue d }) := by
  have hstorable := (plainDecisions hs i).storable
  exact ⟨loadMapFromFile_saveMapToFile hstorable,
    fun t ht key cmd hfind => load_of_prefix hstorable ht hfind⟩

/-- After the run of an order. -/
theorem decisions_loaded_one : ∃ s : Net,
    (loadMapFromFile (saveMapToFile (s.node 1).factory.decisionMap)).find? 1 = some OneOrder.cmd := by
  have hinit : (network OneOrder.hosts).Reachable OneOrder.init := .init OneOrder.init_mem
  obtain ⟨s, hs, hdec⟩ := hinit.exists_of_runBy
    (P := fun s => (s.node 1).factory.decisionMap.find? 1 = some OneOrder.cmd) OneOrder.run
    (by decide +kernel)
  refine ⟨s, ?_⟩
  rw [(decisions_loaded hs 1).1]
  exact hdec

end

end Net

end LaptopPaxos
