import LaptopPaxos.Lib.Pipe

/-!
# What a pipe carries

A pipe as a queue of messages. The messages on their way are those that have gone out
in full (`Carries`). Behind them may be a part of a message, and messages of which
nothing has gone out: they are lost, and there are some only if the sender's end is
closed. So a receiver that waits for a whole message takes the first one of the queue
or none at all.

* `Carries.push`: a message that goes out in full is put at the end of the queue;
* `Carries.lose`: one that does not is lost;
* `Carries.head`: what comes out as a message is the first one of the queue.
-/

namespace Pipe

variable {M β : Type*} (enc : M → List β) (p : Pipe M β)

/-- The messages `ms` are on their way, whole. The part `rest` of a lost message may
    follow them. -/
def Carries (sending : Bool) (ms : List M) : Prop :=
  ∃ lost rest, p.pending = ms ++ lost ∧ p.flight = ms.flatMap enc ++ rest ∧
    (rest = [] ∨ ∃ m, lost.head? = some m ∧ rest.length < (enc m).length) ∧
    (sending = true → lost = [])

variable {enc p} {m : M} {ms : List M} {piece : List β} {sending sending' receiving : Bool}

/-- What has been decoded was sent at the same position. -/
theorem Sound.sent_of_decoded (h : Sound enc p sending receiving) {n : ℕ}
    (hm : p.decoded[n]? = some (some m)) : p.sent[n]? = some m := by
  obtain ⟨rest, hrest⟩ := h.ordered
  rw [← List.getElem?_append_left (List.getElem?_eq_some_iff.1 hm).1, hrest,
    List.getElem?_map] at hm
  obtain ⟨m', hm', heq⟩ := Option.map_eq_some_iff.1 hm
  cases heq
  exact hm'

namespace Carries

theorem new : Carries enc ({} : Pipe M β) sending [] :=
  ⟨[], [], rfl, rfl, .inl rfl, fun _ => rfl⟩

/-- The sender's end may close at any moment. -/
theorem mono (h : Carries enc p sending ms) (hs : sending' = true → sending = true) :
    Carries enc p sending' ms := by
  obtain ⟨lost, rest, hp, hf, hrest, hlost⟩ := h
  exact ⟨lost, rest, hp, hf, hrest, fun hs' => hlost (hs hs')⟩

/-- A message goes out in full. -/
theorem push (h : Carries enc p true ms) (hp : p.decoded.length ≤ p.sent.length) :
    Carries enc (p.push m (enc m)) true (ms ++ [m]) := by
  obtain ⟨lost, rest, hpend, hf, hrest, hlost⟩ := h
  obtain rfl := hlost rfl
  obtain rfl : rest = [] := hrest.resolve_right fun ⟨m, hm, _⟩ => Option.some_ne_none m hm.symm
  refine ⟨[], [], ?_, ?_, .inl rfl, fun _ => rfl⟩
  · rw [List.append_nil] at hpend ⊢
    rw [← hpend]
    exact List.drop_append_of_le_length hp
  · change p.flight ++ enc m = _
    rw [hf, List.flatMap_append, List.flatMap_singleton, List.append_nil, List.append_nil]

/-- A message does not go out in full; on a closed end nothing of it does. -/
theorem lose (h : Carries enc p sending ms) (hp : p.decoded.length ≤ p.sent.length)
    (hlt : piece.length < (enc m).length) (hclosed : sending = false → piece = []) :
    Carries enc (p.push m piece) false ms := by
  obtain ⟨lost, rest, hpend, hf, hrest, hlost⟩ := h
  have hpend' : (p.push m piece).pending = ms ++ (lost ++ [m]) := by
    rw [← List.append_assoc, ← hpend]
    exact List.drop_append_of_le_length hp
  have hflight : (p.push m piece).flight = ms.flatMap enc ++ (rest ++ piece) := by
    change p.flight ++ piece = _
    rw [hf, List.append_assoc]
  cases sending with
  | true =>
    obtain rfl := hlost rfl
    obtain rfl : rest = [] := hrest.resolve_right fun ⟨m, hm, _⟩ => Option.some_ne_none m hm.symm
    exact ⟨[m], piece, hpend', hflight, .inr ⟨m, rfl, hlt⟩, nofun⟩
  | false =>
    obtain rfl := hclosed rfl
    rw [List.append_nil] at hflight
    refine ⟨lost ++ [m], rest, hpend', hflight, hrest.imp_right ?_, nofun⟩
    rintro ⟨m', hm', hlt'⟩
    exact ⟨m', by rw [List.head?_append, hm']; rfl, hlt'⟩

/-- What comes out with the length of the next message is the first of the queue. -/
theorem head (h : Carries enc p sending ms) (hm : p.pending.head? = some m)
    (hpiece : enc m <+: p.flight) (hne : enc m ≠ []) : ∃ ms', ms = m :: ms' ∧
      Carries enc (p.pull (enc m).length (some (some m))) sending ms' := by
  obtain ⟨lost, rest, hpend, hf, hrest, hlost⟩ := h
  cases ms with
  | nil =>
    -- only a part of the lost message is there
    rw [hf, List.flatMap_nil, List.nil_append] at hpiece
    rw [hpend, List.nil_append] at hm
    rcases hrest with rfl | ⟨m', hm', hlt⟩
    · exact absurd (List.prefix_nil.1 hpiece) hne
    · obtain rfl : m = m' := Option.some.inj (hm.symm.trans hm')
      exact absurd hpiece.length_le (not_le.2 hlt)
  | cons m' ms =>
    rw [hpend] at hm
    obtain rfl : m' = m := Option.some.inj hm
    refine ⟨ms, rfl, lost, rest, ?_, ?_, hrest, hlost⟩
    · change p.sent.drop (p.decoded ++ [some m']).length = _
      rw [List.length_append, ← List.drop_drop]
      change p.pending.drop 1 = _
      rw [hpend]
      rfl
    · change p.flight.drop _ = _
      rw [hf, List.flatMap_cons, List.append_assoc, List.drop_left]

end Carries

end Pipe
