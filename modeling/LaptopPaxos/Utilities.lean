import LaptopPaxos.Lib.StdMap
import LaptopPaxos.Messages

/-!
# Utilities

The command ids, the local log and the saved map. A clock reading is an argument, as is the
contents of the file; the file can always be opened.
-/

namespace LaptopPaxos

/-- The value of a string of digits. -/
def digitsValue (s : List Char) : ℕ := s.foldl (fun n c => 10 * n + (c.toNat - '0'.toNat)) 0

/-- `std::stoi` on the digits, possibly signed, of a number. -/
def stoi : List Char → ℤ
  | '-' :: s => -(digitsValue s : ℤ)
  | s => digitsValue s

/-- An id made of the server and of the last eight digits of the clock. -/
def generateCommandID (serverID microseconds : ℤ) : ℤ :=
  let microsecondsStr := (toString microseconds).toList
  let microsecondsStr :=
    if microsecondsStr.length > 8 then microsecondsStr.drop (microsecondsStr.length - 8)
    else microsecondsStr
  (10 + serverID) * 10000000 + stoi microsecondsStr

/-- Append one line to the log: the slot and the fields of the command. -/
def saveCommandToFile (slot : ℤ) (command : Command) (file : String) : String :=
  file ++ (toString slot ++ " " ++ toString command.slot ++ " " ++ toString command.commandId ++
    " " ++ command.clientIp ++ " " ++ toString command.customerId ++ " " ++
    toString command.orderId ++ "\n")

/-- A line for each entry, in the order of the slots. What was in the file is lost. -/
def saveMapToFile (decisionMap : StdMap ℤ Command) : String :=
  decisionMap.entries.foldl (fun file pair =>
    file ++ (toString pair.1 ++ " " ++ toString pair.2.slot ++ " " ++ toString pair.2.commandId ++
      " " ++ pair.2.clientIp ++ " " ++ toString pair.2.customerId ++ " " ++
      toString pair.2.orderId ++ "\n")) ""

/-! ### Numbers in a line -/

/-- A number ends where its digits end. -/
theorem toDigits_space_inj {a b : ℕ} {r r' : List Char}
    (h : Nat.toDigits 10 a ++ ' ' :: r = Nat.toDigits 10 b ++ ' ' :: r') : a = b := by
  have htake : ∀ (n : ℕ) (s : List Char),
      (Nat.toDigits 10 n ++ ' ' :: s).takeWhile Char.isDigit = Nat.toDigits 10 n := fun n s => by
    rw [List.takeWhile_append_of_pos fun c hc =>
      Nat.isDigit_of_mem_toDigits (by decide) (by decide) hc]
    simp
  have hdig := congrArg (List.takeWhile Char.isDigit) h
  rw [htake, htake] at hdig
  rw [← Nat.ofDigitChars_ten_toDigits (n := a), hdig, Nat.ofDigitChars_ten_toDigits]

theorem toString_space_inj {a b : ℤ} (ha : 0 ≤ a) (hb : 0 ≤ b) {r r' : String}
    (h : toString a ++ (" " ++ r) = toString b ++ (" " ++ r')) : a = b := by
  obtain ⟨m, rfl⟩ := Int.eq_ofNat_of_zero_le ha
  obtain ⟨n, rfl⟩ := Int.eq_ofNat_of_zero_le hb
  have hlist := congrArg String.toList h
  have hrepr : ∀ k : ℕ, (toString (k : ℤ)).toList = Nat.toDigits 10 k := fun _ => Nat.toList_repr
  simp only [String.toList_append, hrepr] at hlist
  exact congrArg _ (toDigits_space_inj hlist)

end LaptopPaxos
