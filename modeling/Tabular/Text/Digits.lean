/-!
# Digits

The digits of numbers in bases up to sixteen.
-/

namespace Tabular.Text

/-- The digit of a number below 16, in lower case. -/
def digit (n : Nat) : Char :=
  if n < 10 then Char.ofNat (48 + n) else Char.ofNat (87 + n)

/-- The number that a digit in either case stands for. -/
def digit? (c : Char) : Option Nat :=
  if c.isDigit then some (c.toNat - 48)
  else if 'a' ≤ c ∧ c ≤ 'f' then some (c.toNat - 87)
  else if 'A' ≤ c ∧ c ≤ 'F' then some (c.toNat - 55)
  else none

/-- The number that digits in the given base stand for. -/
def number? (base : Nat) (digits : List Char) : Option Nat :=
  digits.foldlM (fun n c => (digit? c).bind fun d => if d < base then some (base * n + d) else none) 0

theorem digit?_digit : ∀ n < 16, digit? (digit n) = some n := by
  decide

theorem digit_injective {m n : Nat} (left : m < 16) (right : n < 16) (same : digit m = digit n) : m = n := by
  have read := congrArg digit? same
  rw [digit?_digit m left, digit?_digit n right] at read
  exact Option.some.inj read

end Tabular.Text
