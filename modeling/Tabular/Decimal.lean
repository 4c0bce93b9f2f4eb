/-!
# Decimal literals

Numbers written with decimal digits, a point and an exponent, and the question whether such a number is
within the range of the binary64 format.
-/

namespace Tabular

/-- The power `base ^ e` as a numerator and a denominator. -/
def powerOf (base : Nat) (e : Int) : Nat × Nat :=
  (base.pow e.toNat, base.pow (-e).toNat)

/-- The number `digits · 10 ^ exponent`. -/
structure Decimal where
  digits : Nat
  exponent : Int
deriving DecidableEq

namespace Decimal

def natOfDigits (cs : List Char) : Nat :=
  cs.foldl (fun n c => 10 * n + (c.toNat - 48)) 0

def exponent? : List Char → Option Int
  | [] => some 0
  | e :: rest =>
    if e = 'e' ∨ e = 'E' then
      match rest with
      | '+' :: digits => (magnitude? digits).map fun n => (n : Int)
      | '-' :: digits => (magnitude? digits).map fun n => -(n : Int)
      | digits => (magnitude? digits).map fun n => (n : Int)
    else none
where
  magnitude? (cs : List Char) : Option Nat :=
    if cs.isEmpty ∨ !cs.all (·.isDigit) then none else some (natOfDigits cs)

/-- The number of a literal without sign: digits with a point before, between or after them, and an
exponent. -/
def ofLiteral? (cs : List Char) : Option Decimal := do
  let whole := cs.takeWhile (·.isDigit)
  let (fraction, rest) : List Char × List Char := match cs.dropWhile (·.isDigit) with
    | '.' :: after => (after.takeWhile (·.isDigit), after.dropWhile (·.isDigit))
    | rest => ([], rest)
  if whole.isEmpty ∧ fraction.isEmpty then none
  else
    let e ← exponent? rest
    return ⟨natOfDigits (whole ++ fraction), e - fraction.length⟩

def width (n : Nat) : Nat :=
  (Nat.toDigits 10 n).length

/-- Whether a number is too large for the binary64 format: at least half a unit in the last place above
its largest member. -/
def isHuge (d : Decimal) : Bool :=
  if d.digits = 0 then false
  else
    let magnitude := (width d.digits : Int) + d.exponent
    if magnitude > 310 then true
    else if magnitude < 300 then false
    else
      let limit := Nat.pow 2 1024 - Nat.pow 2 970
      let (num, den) := powerOf 10 d.exponent
      limit * den ≤ d.digits * num

end Decimal

end Tabular
