import Mathlib.Data.List.Infix

/-!
# Messages over a stream

One direction of a connection that carries a stream: the sender puts encoded
messages in, and the receiver takes pieces out whose length it must know. A
`Pipe` keeps the messages and what the receiver has made of the pieces.

A pipe is `Sound` if what has been decoded is what was sent, in this order, and
the stream begins where the next message does. The first half stays true
forever, the second as long as the receiver's end is open:

* `Sound.push`: whatever part of a message the sender gets out;
* `Sound.pull`: if the receiver takes as much as the next message is long
  (`Sound.head`) and decodes it;
* `Sound.fail`: a receiver that has taken only a part closes its end.

A receiver knows how long the next message is from the plan that the sender
`Follows`: what may be sent at which position.
-/

/-- One direction of a connection. -/
structure Pipe (M β : Type*) where
  /-- The messages given to the sender's end, the oldest first. -/
  sent : List M := []
  /-- What is on its way. -/
  flight : List β := []
  /-- What the receiver has decoded; `none` stands for no message at all. -/
  decoded : List (Option M) := []

namespace Pipe

variable {M β : Type*} (enc : M → List β) (p : Pipe M β)

/-- The messages sent and not decoded. -/
def pending : List M := p.sent.drop p.decoded.length

/-- The sender gives a message to its end, which gets out a piece of it. -/
def push (m : M) (piece : List β) : Pipe M β :=
  { p with sent := p.sent ++ [m], flight := p.flight ++ piece }

/-- The receiver takes `n` units out, and decodes something or nothing. -/
def pull (n : ℕ) (result : Option (Option M)) : Pipe M β :=
  { p with flight := p.flight.drop n, decoded := p.decoded ++ result.toList }

/-- The receiver is at the boundary of a message; the ends may be open or closed. -/
structure Sound (sending receiving : Bool) : Prop where
  ordered : p.decoded <+: p.sent.map some
  arriving : receiving = true → p.flight <+: p.pending.flatMap enc
  whole : receiving = true → sending = true → p.flight = p.pending.flatMap enc

/-- The `n`-th message is one that the plan has for the position `n`. -/
def Follows (plan : ℕ → M → Prop) : Prop := ∀ n m, p.sent[n]? = some m → plan n m

variable {enc p} {m : M} {piece : List β} {sending sending' receiving receiving' ok : Bool}

theorem head?_pending : p.pending.head? = p.sent[p.decoded.length]? := List.head?_drop

@[simp] theorem sent_push : (p.push m piece).sent = p.sent ++ [m] := rfl

@[simp] theorem decoded_push : (p.push m piece).decoded = p.decoded := rfl

@[simp] theorem sent_pull {n : ℕ} {result : Option (Option M)} : (p.pull n result).sent = p.sent :=
  rfl

@[simp] theorem decoded_pull {n : ℕ} {result : Option (Option M)} :
    (p.pull n result).decoded = p.decoded ++ result.toList := rfl

namespace Follows

variable {plan : ℕ → M → Prop}

theorem new : Follows ({} : Pipe M β) plan := by
  intro n m hm
  cases n <;> cases hm

theorem push (h : p.Follows plan) (hm : plan p.sent.length m) : (p.push m piece).Follows plan := by
  intro n m' hm'
  rw [sent_push, List.getElem?_append] at hm'
  split_ifs at hm' with hlt
  · exact h n m' hm'
  · obtain ⟨hn, heq⟩ := List.getElem?_eq_some_iff.1 hm'
    rw [List.length_singleton] at hn
    obtain rfl : n = p.sent.length := by omega
    rw [List.getElem_singleton] at heq
    exact heq ▸ hm

theorem pull (h : p.Follows plan) (n : ℕ) (result : Option (Option M)) :
    (p.pull n result).Follows plan := h

/-- What the receiver gets next is planned for the number of those decoded. -/
theorem head (h : p.Follows plan) (hm : p.pending.head? = some m) : plan p.decoded.length m :=
  h _ m (head?_pending ▸ hm)

end Follows

namespace Sound

theorem new : Sound enc ({} : Pipe M β) sending receiving :=
  ⟨List.nil_prefix, fun _ => List.nil_prefix, fun _ _ => rfl⟩

/-- An end may close at any moment. -/
theorem mono (h : Sound enc p sending receiving) (hs : sending' = true → sending = true)
    (hr : receiving' = true → receiving = true) : Sound enc p sending' receiving' :=
  ⟨h.ordered, fun hr' => h.arriving (hr hr'), fun hr' hs' => h.whole (hr hr') (hs hs')⟩

theorem length_decoded_le (h : Sound enc p sending receiving) :
    p.decoded.length ≤ p.sent.length := by
  have hle := h.ordered.length_le
  rwa [List.length_map] at hle

/-- Everything that was sent has been decoded. -/
theorem length_decoded (h : Sound enc p sending receiving) (hp : p.pending = []) :
    p.decoded.length = p.sent.length :=
  le_antisymm h.length_decoded_le (List.drop_eq_nil_iff.1 hp)

/-- While both ends are open, less than a message on its way is none. -/
theorem pending_eq_nil (h : Sound enc p true true)
    (hlt : ∀ m, p.pending.head? = some m → p.flight.length < (enc m).length) : p.pending = [] := by
  cases hp : p.pending with
  | nil => rfl
  | cons m ms =>
    have hshort := hlt m (by rw [hp]; rfl)
    rw [h.whole rfl rfl, hp, List.flatMap_cons, List.length_append] at hshort
    omega

theorem pending_push (h : Sound enc p sending receiving) :
    (p.push m piece).pending = p.pending ++ [m] :=
  List.drop_append_of_le_length h.length_decoded_le

/-- A closed end gets nothing out, and one that fails is closed. -/
theorem push (h : Sound enc p sending receiving) (hpiece : piece <+: enc m)
    (hok : ok = true → piece = enc m) (hclosed : sending = false → piece = []) :
    Sound enc (p.push m piece) (sending && ok) receiving := by
  have hflat : (p.push m piece).pending.flatMap enc = p.pending.flatMap enc ++ enc m := by
    rw [h.pending_push, List.flatMap_append, List.flatMap_singleton]
  refine ⟨?_, fun hr => ?_, fun hr hs => ?_⟩
  · rw [sent_push, List.map_append]
    exact h.ordered.trans (List.prefix_append _ _)
  · rw [hflat]
    cases sending with
    | true =>
      change p.flight ++ piece <+: _
      rw [h.whole hr rfl]
      exact (List.prefix_append_right_inj _).2 hpiece
    | false =>
      change p.flight ++ piece <+: _
      rw [hclosed rfl, List.append_nil]
      exact (h.arriving hr).trans (List.prefix_append _ _)
  · obtain ⟨hs, hok'⟩ := (Bool.and_eq_true _ _).mp hs
    rw [hflat, ← hok hok', ← h.whole hr hs]
    rfl

/-- What comes out with the length of the next message is the next message. -/
theorem head (h : Sound enc p sending true) (hpiece : piece <+: p.flight) (hne : piece ≠ [])
    (hlen : ∀ m, p.pending.head? = some m → piece.length = (enc m).length) :
    ∃ m, p.pending.head? = some m ∧ piece = enc m := by
  have hpre := hpiece.trans (h.arriving rfl)
  cases hp : p.pending with
  | nil =>
    rw [hp] at hpre
    exact absurd (List.prefix_nil.1 hpre) hne
  | cons m ms =>
    rw [hp, List.flatMap_cons] at hpre
    refine ⟨m, rfl, ?_⟩
    have heq := List.prefix_iff_eq_take.1 hpre
    rwa [hlen m (by rw [hp]; rfl), List.take_left] at heq

/-- The receiver takes the next message out and decodes it. -/
theorem pull (h : Sound enc p sending true) (hm : p.pending.head? = some m)
    (hpiece : enc m <+: p.flight) :
    Sound enc (p.pull (enc m).length (some (some m))) sending receiving := by
  obtain ⟨rest, hrest⟩ := hpiece
  have hsplit : p.pending = m :: (p.pull (enc m).length (some (some m))).pending := by
    change p.sent.drop _ = m :: p.sent.drop (p.decoded ++ [some m]).length
    rw [head?_pending] at hm
    obtain ⟨hlt, heq⟩ := List.getElem?_eq_some_iff.1 hm
    rw [List.length_append, List.length_singleton, List.drop_eq_getElem_cons hlt, heq]
  have hflight : (p.pull (enc m).length (some (some m))).flight = rest := by
    change p.flight.drop _ = _
    rw [← hrest, List.drop_left]
  have harrive := h.arriving rfl
  rw [← hrest, hsplit, List.flatMap_cons, List.prefix_append_right_inj] at harrive
  refine ⟨?_, fun _ => hflight ▸ harrive, fun _ hs => ?_⟩
  · -- the next message is the one behind those decoded
    obtain ⟨ds, hds⟩ := h.ordered
    have hget : (p.decoded ++ ds)[p.decoded.length]? = some (some m) := by
      rw [hds, List.getElem?_map, ← head?_pending, hm, Option.map_some]
    rw [List.getElem?_append_right le_rfl, Nat.sub_self] at hget
    cases ds with
    | nil => cases hget
    | cons d ds =>
      cases hget
      exact ⟨ds, (List.append_assoc _ _ _).trans hds⟩
  · have hwhole := h.whole rfl hs
    rw [← hrest, hsplit, List.flatMap_cons, List.append_cancel_left_eq] at hwhole
    rw [hflight, hwhole]

/-- The receiver has taken something out and closes its end. -/
theorem fail (h : Sound enc p sending receiving) (n : ℕ) :
    Sound enc (p.pull n none) sending false := by
  refine ⟨?_, nofun, nofun⟩
  rw [decoded_pull, Option.toList_none, List.append_nil]
  exact h.ordered

end Sound

end Pipe
