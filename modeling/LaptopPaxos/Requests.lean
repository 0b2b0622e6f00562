import LaptopPaxos.ClientRuns

/-!
# The requests of a client

Which requests a client tries to make in a whole run: the first ones of its arguments,
each once and in order. Whether there is an answer, and from which server, makes no
difference. A query or a scan that comes to its end has made them all
(`requests_complete`); only the orders are broken off.
-/

namespace LaptopPaxos

/-- The requests of the arguments of the thread. -/
def Client.allRequests (c : Client) : List CustomerRequest :=
  if c.requestType = 1 ∨ c.requestType = 3 then
    (List.range c.numOrders.toNat).map fun k : ℕ => c.customerRequest k
  else if c.requestType = 2 then [c.customerRequest 0]
  else []

/-- Write down the requests from the first connection on, the newest first. -/
def noteRequest (h : Option (List CustomerRequest)) (c : Client) (_ : ClientEnv) :
    Option (List CustomerRequest) :=
  match c.pc with
  | .identify _ => some (h.getD [])
  | .request i => h.map (c.customerRequest i :: ·)
  | _ => h

/-- The client together with the requests that it has tried to make. -/
abbrev requesting (o : ByteOrder) : Machine (Client × Option (List CustomerRequest)) ClientEnv :=
  (customer o).observe none noteRequest

/-- How many requests have been made. -/
def ClientPc.made : ClientPc → Option ℤ
  | .identify i | .header i | .config i _ | .request i => some i
  | .answer i | .reconnect i _ => some (i + 1)
  | .init | .done | .fault => none

section

variable {o : ByteOrder} {c c' : Client} {env : ClientEnv} {i : ℤ}
  {p p' : Client × Option (List CustomerRequest)} {l : List CustomerRequest}

theorem Client.SameArgs.allRequests (h : c.SameArgs c') : c'.allRequests = c.allRequests := by
  have hreq : c'.customerRequest = c.customerRequest := funext h.customerRequest
  rw [Client.allRequests, Client.allRequests, hreq, h.requestType, h.numOrders]

/-- The requests made so far are the first ones of all. -/
structure Attempts (c : Client) (l : List CustomerRequest) : Prop where
  first : l.reverse <+: c.allRequests
  made : ∀ i, c.pc.made = some i → (l.length : ℤ) = i
  single : c.requestType = 2 → ∀ i b, c.pc.index = some (i, b) → i = 0
  complete : c.requestType ≠ 1 → c.pc = .done → l.reverse = c.allRequests

theorem Client.getElem?_allRequests (h0 : 0 ≤ i) (hi : c.head i = .request i)
    (h2 : c.requestType = 2 → i = 0) : c.allRequests[i.toNat]? = some (c.customerRequest i) := by
  by_cases h : c.requestType = 1 ∨ c.requestType = 3
  · have hlt := lt_of_head h hi
    rw [allRequests, if_pos h, List.getElem?_map, List.getElem?_range (by omega)]
    change some (c.customerRequest (i.toNat : ℤ)) = _
    rw [Int.toNat_of_nonneg h0]
  · rw [head, if_neg h] at hi
    split_ifs at hi with htype
    obtain rfl := h2 htype
    rw [allRequests, if_neg h, if_pos htype]
    rfl

/-- At the head of the loop there are more requests to make, or all have been made. -/
theorem Attempts.of_head (hfirst : l.reverse <+: c.allRequests) (hl : (l.length : ℤ) = i)
    (h2 : c.requestType = 2 → i = 0) (hpc : c.pc = c.head i) : Attempts c l := by
  rcases c.head_cases i with hi | hi <;> rw [hi] at hpc
  · refine ⟨hfirst, fun j hj => ?_, fun htype j b hj => ?_, fun _ hd => ?_⟩
    · rw [hpc] at hj
      cases hj
      exact hl
    · rw [hpc] at hj
      cases hj
      exact h2 htype
    · rw [hpc] at hd
      cases hd
  · refine ⟨hfirst, by rw [hpc]; exact nofun, by rw [hpc]; exact nofun, fun h1 _ => ?_⟩
    refine hfirst.eq_of_length_le ?_
    rw [List.length_reverse, Client.allRequests]
    rw [Client.head] at hi
    split_ifs at hi ⊢
    · rw [List.length_map, List.length_range]
      omega
    · exact Nat.zero_le _

/-- The request of the turn is the next one. -/
theorem Attempts.ask (h : Attempts c l) (hc : c.Counting) (hpc : c.pc = .request i) :
    (c.customerRequest i :: l).reverse <+: c.allRequests ∧
      ((c.customerRequest i :: l).length : ℤ) = i + 1 := by
  have hl := h.made i (by rw [hpc]; rfl)
  have hget := c.getElem?_allRequests (hc.nonneg i true (by rw [hpc]; rfl))
    (hc.turn i (by rw [hpc]; rfl)) fun h2 => h.single h2 i true (by rw [hpc]; rfl)
  refine ⟨?_, by rw [List.length_cons]; push_cast; omega⟩
  obtain ⟨rest, hrest⟩ := h.first
  rw [← hrest, List.getElem?_append_right (by rw [List.length_reverse]; omega)] at hget
  rw [List.reverse_cons, ← hrest, List.prefix_append_right_inj]
  have hzero : i.toNat - l.reverse.length = 0 := by rw [List.length_reverse]; omega
  rw [hzero] at hget
  cases rest with
  | nil => cases hget
  | cons q rest =>
    cases hget
    exact List.prefix_append [_] rest

/-- After the request of a turn, or its answer. -/
theorem Attempts.answered (hc : c.Counting) (hi : c.pc.index = some (i, true))
    (hfirst : l.reverse <+: c.allRequests) (hl : (l.length : ℤ) = i + 1)
    (h2 : c.requestType = 2 → i = 0) (hs : c.SameArgs c') (hpc : c.Answered i c'.pc) :
    Attempts c' l := by
  rw [← hs.allRequests] at hfirst
  generalize hpc' : c'.pc = pc' at hpc
  cases hpc with
  | fault =>
    exact ⟨hfirst, by rw [hpc']; exact nofun, by rw [hpc']; exact nofun, by rw [hpc']; exact nofun⟩
  | refused h1 =>
    exact ⟨hfirst, by rw [hpc']; exact nofun, by rw [hpc']; exact nofun,
      fun h => absurd (hs.requestType.trans h1) h⟩
  | lost servers h1 =>
    have h1' : c'.requestType = 1 := hs.requestType.trans h1
    refine ⟨hfirst, fun j hj => ?_, fun htype => ?_, fun h => absurd h1' h⟩
    · rw [hpc'] at hj
      cases hj
      exact hl
    · rw [h1'] at htype
      cases htype
  | next htype =>
    rw [← hs.head] at hpc'
    refine .of_head hfirst hl (fun h => ?_) hpc'
    rw [hs.requestType] at h
    rw [h] at htype
    rcases htype with htype | htype <;> cases htype
  | queried h1 h3 =>
    refine ⟨hfirst, by rw [hpc']; exact nofun, by rw [hpc']; exact nofun, fun _ _ => ?_⟩
    have hturn := hc.turn i hi
    refine hfirst.eq_of_length_le ?_
    rw [Client.head, if_neg (not_or.2 ⟨h1, h3⟩)] at hturn
    split_ifs at hturn with htype
    rw [hs.allRequests, Client.allRequests, if_neg (not_or.2 ⟨h1, h3⟩), if_pos htype,
      List.length_reverse, List.length_singleton]
    omega

theorem Attempts.step (h : Attempts c l) (hc : c.Counting) (hs : c.SameArgs c') (hm : c.Moves c')
    (hpc : ∀ i, c.pc ≠ .request i) (hinit : c.pc ≠ .init) : Attempts c' l := by
  have hfirst := h.first
  rw [← hs.allRequests] at hfirst
  -- where the loop variable stays
  have hkeep : ∀ {pc}, c'.pc = pc → pc.made = c.pc.made → c'.pc ≠ .done →
      (∀ i b, pc.index = some (i, b) → ∃ b', c.pc.index = some (i, b')) → Attempts c' l := by
    intro pc hpc' hmade hdone hidx
    refine ⟨hfirst, fun i hi => h.made i ?_, fun htype i b hi => ?_, fun _ hd => absurd hd hdone⟩
    · rw [← hmade, ← hpc']
      exact hi
    · obtain ⟨b', hb⟩ := hidx i b (hpc' ▸ hi)
      exact h.single (hs.requestType ▸ htype) i b' hb
  cases hm with
  | connect hpc' => exact absurd hpc' hinit
  | refused hpc' => exact absurd hpc' hinit
  | @identify i hpc hpc' =>
    refine hkeep hpc' (by rw [hpc]; rfl) (by rw [hpc']; exact nofun) fun j b hj => ⟨b, ?_⟩
    rw [hpc]
    exact hj
  | @header i size hpc hpc' =>
    refine hkeep hpc' (by rw [hpc]; rfl) (by rw [hpc']; exact nofun) fun j b hj => ⟨b, ?_⟩
    rw [hpc]
    exact hj
  | @config i size hpc hpc' =>
    rcases hpc' with hpc' | hpc'
    · refine .of_head hfirst (h.made i (by rw [hpc]; rfl)) (fun htype => ?_)
        (hpc'.trans (hs.head i).symm)
      exact h.single (hs.requestType ▸ htype) i false (by rw [hpc]; rfl)
    · exact ⟨hfirst, by rw [hpc']; exact nofun, by rw [hpc']; exact nofun,
        by rw [hpc']; exact nofun⟩
  | @request i hpc' => exact absurd hpc' (hpc i)
  | @answered i hpc' hans =>
    have hpc'' := hpc'.resolve_left (hpc i)
    exact .answered hc (by rw [hpc'']; rfl) h.first (h.made _ (by rw [hpc'']; rfl))
      (fun htype => h.single htype i true (by rw [hpc'']; rfl)) hs hans
  | @lost i hpc hpc' =>
    refine ⟨hfirst, by rw [hpc']; exact nofun, by rw [hpc']; exact nofun, fun h1 => ?_⟩
    exact absurd (hs.requestType.trans (hc.reconnect i _ hpc)) h1
  | @failover i server servers hpc hpc' =>
    have h1 := hs.requestType.trans (hc.reconnect i _ hpc)
    refine ⟨hfirst, fun j hj => ?_, fun htype => ?_, fun h => absurd h1 h⟩
    · rw [hpc'] at hj
      cases hj
      exact h.made _ (by rw [hpc]; rfl)
    · rw [h1] at htype
      cases htype
  | @retry i server servers hpc hpc' =>
    refine hkeep hpc' (by rw [hpc]; rfl) (by rw [hpc']; exact nofun) fun j b hj => ⟨b, ?_⟩
    rw [hpc]
    exact hj

/-- The turn goes on after its request has been noted. -/
theorem Attempts.note (h : Attempts c l) (hc : c.Counting) (hs : c.SameArgs c') (hm : c.Moves c')
    (hpc : c.pc = .request i) : Attempts c' (c.customerRequest i :: l) := by
  have h2 : c.requestType = 2 → i = 0 := fun h2 => h.single h2 i true (by rw [hpc]; rfl)
  obtain ⟨hfirst, hlen⟩ := h.ask hc hpc
  cases hm with
  | @request j hpc'' hpc' =>
    cases hpc.symm.trans hpc''
    refine ⟨hs.allRequests ▸ hfirst, fun j hj => ?_, fun htype j b hj => ?_, fun _ hd => ?_⟩
    · rw [hpc'] at hj
      cases hj
      exact hlen
    · rw [hpc'] at hj
      cases hj
      exact h2 (hs.requestType ▸ htype)
    · rw [hpc'] at hd
      cases hd
  | @answered j hpc'' hans =>
    rcases hpc'' with hpc'' | hpc'' <;> cases hpc.symm.trans hpc''
    exact .answered hc (by rw [hpc]; rfl) hfirst hlen h2 hs hans
  | config hpc'' => cases hpc.symm.trans hpc''
  | _ hpc'' => cases hpc.symm.trans hpc''

theorem Attempts.start (hpc : c.pc = .identify 0) : Attempts c [] := by
  refine ⟨List.nil_prefix, fun j hj => ?_, fun _ j b hj => ?_, fun _ hd => ?_⟩
  · rw [hpc] at hj
    cases hj
    rfl
  · rw [hpc] at hj
    cases hj
    rfl
  · cases hpc.symm.trans hd

/-- The thread does not go back to its start. -/
theorem Client.Moves.ne_init (hm : c.Moves c') : c'.pc ≠ .init := by
  intro hpc'
  cases hm with
  | config _ hpc'' =>
    rcases hpc'' with hpc'' | hpc'' <;> rw [hpc''] at hpc'
    · rcases c.head_cases _ with hi | hi <;> rw [hi] at hpc' <;> cases hpc'
    · cases hpc'
  | answered _ hans =>
    rw [hpc'] at hans
    generalize hpc'' : ClientPc.init = pc' at hans
    cases hans with
    | next => rcases c.head_cases (_ + 1) with hi | hi <;> rw [hi] at hpc'' <;> cases hpc''
    | _ => cases hpc''
  | _ _ hpc'' =>
    rw [hpc''] at hpc'
    cases hpc'

/-- Before the first connection. -/
theorem Client.Moves.early (hm : c.Moves c') (hpc : c.pc = .init ∨ c.pc = .done) :
    c'.pc = .identify 0 ∨ c'.pc = .done := by
  rcases hpc with hpc | hpc
  · cases hm with
    | connect _ hpc' => exact .inl hpc'
    | refused _ hpc' => exact .inr hpc'
    | answered hpc'' => rcases hpc'' with hpc'' | hpc'' <;> cases hpc.symm.trans hpc''
    | _ hpc'' => cases hpc.symm.trans hpc''
  · cases hm with
    | answered hpc'' => rcases hpc'' with hpc'' | hpc'' <;> cases hpc.symm.trans hpc''
    | _ hpc'' => cases hpc.symm.trans hpc''

theorem noteRequest_of_request {h : Option (List CustomerRequest)} (hpc : c.pc = .request i) :
    noteRequest h c env = h.map (c.customerRequest i :: ·) := by
  rw [noteRequest, hpc]

theorem noteRequest_of_identify {h : Option (List CustomerRequest)} (hpc : c.pc = .identify i) :
    noteRequest h c env = some (h.getD []) := by
  rw [noteRequest, hpc]

theorem noteRequest_of_ne {h : Option (List CustomerRequest)} (hid : ∀ i, c.pc ≠ .identify i)
    (hreq : ∀ i, c.pc ≠ .request i) : noteRequest h c env = h := by
  rw [noteRequest]
  split
  · next i hi => exact absurd hi (hid i)
  · next i hi => exact absurd hi (hreq i)
  · rfl

/-- What holds along the runs of a client. Nothing has been noted before the first
    connection. -/
structure Asking (c : Client) (h : Option (List CustomerRequest)) : Prop where
  counting : c.Counting
  attempts : ∀ l, h = some l → Attempts c l
  start : c.pc = .init → h = none
  early : h = none → c.pc = .identify 0 ∨ c.pc = .init ∨ c.pc = .done

variable {h : Option (List CustomerRequest)}

/-- At an identification the notes begin, if they have not begun before. -/
theorem Asking.attempts_identify (ha : Asking c h) (hpc : c.pc = .identify i) :
    Attempts c (h.getD []) := by
  cases h with
  | some l => exact ha.attempts l rfl
  | none =>
    rcases ha.early rfl with hpc' | hpc' | hpc'
    · exact .start hpc'
    · cases hpc.symm.trans hpc'
    · cases hpc.symm.trans hpc'

theorem Asking.step (ha : Asking c h) (hs : c.SameArgs c') (hm : c.Moves c') :
    Asking c' (noteRequest h c env) := by
  have hc := ha.counting
  refine ⟨hc.step hs hm, fun l hl => ?_, fun hpc' => absurd hpc' hm.ne_init, fun hn => ?_⟩
  · by_cases hreq : ∃ i, c.pc = .request i
    · obtain ⟨i, hpc⟩ := hreq
      rw [noteRequest_of_request hpc] at hl
      obtain ⟨l₀, hl₀, rfl⟩ := Option.map_eq_some_iff.1 hl
      exact (ha.attempts l₀ hl₀).note hc hs hm hpc
    · rw [not_exists] at hreq
      by_cases hid : ∃ i, c.pc = .identify i
      · obtain ⟨i, hpc⟩ := hid
        rw [noteRequest_of_identify hpc] at hl
        cases hl
        exact (ha.attempts_identify hpc).step hc hs hm hreq (by rw [hpc]; exact nofun)
      · rw [noteRequest_of_ne (not_exists.1 hid) hreq] at hl
        refine (ha.attempts l hl).step hc hs hm hreq fun hpc => ?_
        cases hl.symm.trans (ha.start hpc)
  · by_cases hid : ∃ i, c.pc = .identify i
    · obtain ⟨i, hpc⟩ := hid
      rw [noteRequest_of_identify hpc] at hn
      cases hn
    · have hnone : h = none := by
        cases h with
        | none => rfl
        | some l =>
          rw [noteRequest] at hn
          split at hn <;> cases hn
      rcases ha.early hnone with hpc | hpc
      · exact absurd ⟨0, hpc⟩ hid
      · exact (hm.early hpc).imp_right .inr

theorem asking_of_reachable (h : (requesting o).Reachable p) : Asking p.1 p.2 := by
  induction h with
  | @init p hp =>
    obtain ⟨hpc, hnone⟩ := hp
    have hpc : p.1.pc = .init := hpc
    refine ⟨counting_of_reachable (o := o) (.init hpc), fun l hl => ?_, fun _ => hnone,
      fun _ => .inr (.inl hpc)⟩
    cases hl.symm.trans hnone
  | step _ _ hst ih =>
    obtain ⟨hst, hnote⟩ := Machine.step_observe.1 hst
    obtain ⟨r, hr, hr'⟩ := Option.map_eq_some_iff.1 hst
    have hs := (clientStep_cases hr).sameArgs
    have hm := (clientStep_cases hr).moves
    rw [hr'] at hs hm
    rw [hnote]
    exact ih.step hs hm

/-- The requests that a client has tried to make are the first ones of its arguments,
    each once and in order, with and without answers. When a query or a scan has come
    to its end, they are all of them. -/
theorem requests_complete (h : (requesting o).Reachable (c, some l)) :
    l.reverse <+: c.allRequests ∧
      (c.requestType ≠ 1 → c.pc = .done → l.reverse = c.allRequests) := by
  have hl := (asking_of_reachable h).attempts l rfl
  exact ⟨hl.first, hl.complete⟩

/-- A scan over two customers on a connection that breaks at once. -/
theorem requests_complete_broken : ∃ c : Client, c.requestType = 3 ∧ c.pc = .done ∧
    [(⟨1, -1, 2⟩ : CustomerRequest), ⟨0, -1, 2⟩].reverse = c.allRequests := by
  let start : Client := { server := ⟨"127.0.0.1", 8001⟩, customerId := 0, numOrders := 2, requestType := 3 }
  have hinit : (requesting .little).Reachable (start, none) := .init ⟨rfl, rfl⟩
  obtain ⟨⟨c, h⟩, hs, hpc, htype, hl⟩ := hinit.exists_of_runBy
    (P := fun p => p.1.pc = .done ∧ p.1.requestType = 3 ∧
      p.2 = some [⟨1, -1, 2⟩, ⟨0, -1, 2⟩])
    [{}, { answers := { send := [-1] } }, { answers := { recv := [[]] }, indet := 1 },
      { answers := { recv := [[]] } }, { answers := { send := [-1] } },
      { answers := { send := [-1] } }] (by decide +kernel)
  dsimp only at hpc htype hl
  subst hl
  refine ⟨c, htype, hpc, (requests_complete hs).2 (by rw [htype]; decide) hpc⟩

end

end LaptopPaxos
