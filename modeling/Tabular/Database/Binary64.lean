import Tabular.Decimal

/-!
# Binary64 numbers

The numbers of the binary64 format as exact fractions, rounded from decimal literals and written with
fifteen significant digits. A number beyond the format is kept as the first power of two beyond it.
-/

namespace Tabular

/-- The number `mantissa · 2 ^ exponent`. -/
structure Binary64 where
  mantissa : Int
  exponent : Int
deriving DecidableEq

/-- The quotient rounded to the nearest whole number, and to the even one of two. -/
def roundHalfEven (num den : Nat) : Nat :=
  let q := num / den
  let twice := 2 * (num % den)
  if twice < den then q
  else if den < twice then q + 1
  else if q % 2 = 0 then q else q + 1

namespace Binary64

/-- The first power of two beyond the format, which stands for infinity. -/
def infinity : Binary64 := ⟨1, 1024⟩

def isInfinite (r : Binary64) : Bool :=
  1024 ≤ r.exponent

def negate (r : Binary64) : Binary64 :=
  ⟨-r.mantissa, r.exponent⟩

def inUnits (base : Nat) (e : Int) (num den : Nat) : Nat × Nat :=
  (num * (powerOf base e).2, den * (powerOf base e).1)

/-- The member of the format nearest to a fraction. Its mantissa has at most 53 bits. -/
def ofFraction (num den : Nat) : Binary64 :=
  if num = 0 then ⟨0, 0⟩
  else
    let guess : Int := (Nat.log2 num : Int) - Nat.log2 den - 52
    let (n, d) := inUnits 2 guess num den
    let e := if Nat.log2 (n / d) < 52 then guess - 1 else guess
    let e := max e (-1074)
    let (n, d) := inUnits 2 e num den
    let m := roundHalfEven n d
    if (1024 : Int) ≤ e + Nat.log2 m then infinity else ⟨m, e⟩

def ofDecimal (d : Decimal) : Binary64 :=
  if d.digits = 0 then ⟨0, 0⟩
  else
    let magnitude := (Decimal.width d.digits : Int) + d.exponent
    if magnitude > 310 then infinity
    else if magnitude < -330 then ⟨0, 0⟩
    else ofFraction (d.digits * (powerOf 10 d.exponent).1) (powerOf 10 d.exponent).2

/-- The mantissa of a number with an exponent at most its own. -/
def mantissaAt (r : Binary64) (e : Int) : Int :=
  r.mantissa * (powerOf 2 (r.exponent - e)).1

def compare (r s : Binary64) : Ordering :=
  let e := min r.exponent s.exponent
  Ord.compare (r.mantissaAt e) (s.mantissaAt e)

def ofInt (n : Int) : Binary64 :=
  ⟨n, 0⟩

def int? (r : Binary64) : Option Int :=
  let (num, den) := powerOf 2 r.exponent
  let n := r.mantissa * num
  if n % den = 0 then some (n / den) else none

/-- The exponent of ten of a positive fraction, counted up or down from a guess that is off by little. -/
def tenExponent (num den : Nat) : Nat → Int → Int
  | 0, x => x
  | fuel + 1, x =>
    let (n, d) := inUnits 10 x num den
    if n < d then tenExponent num den fuel (x - 1)
    else if 10 * d ≤ n then tenExponent num den fuel (x + 1)
    else x

/-- The fifteen digits of a positive fraction, a half rounded up, and the exponent of ten of the first. -/
def fifteenDigits (num den : Nat) : Nat × Int :=
  let guess := ((Nat.log2 num : Int) - Nat.log2 den) * 30103 / 100000
  let x := tenExponent num den 8 guess
  let (n, d) := inUnits 10 (x - 14) num den
  let digits := (2 * n + d) / (2 * d)
  if digits = Nat.pow 10 15 then (Nat.pow 10 14, x + 1) else (digits, x)

def trimZeros (cs : List Char) : List Char :=
  match (cs.reverse.dropWhile (· == '0')).reverse with
  | [] => ['0']
  | trimmed => trimmed

/-- The text of a positive number: positional from 0.0001 up to fifteen digits before the point, and with
an exponent of at least two digits beyond. -/
def positiveText (num den : Nat) : String :=
  let (digits, x) := fifteenDigits num den
  let cs := Nat.toDigits 10 digits
  if x < -4 ∨ 14 < x then
    let sign := if x < 0 then "-" else "+"
    let e := (toString x.natAbs)
    String.ofList (cs.take 1 ++ '.' :: trimZeros (cs.drop 1)) ++ "e" ++ sign ++
      (if e.length < 2 then "0" else "") ++ e
  else if x < 0 then
    String.ofList ('0' :: '.' :: trimZeros (List.replicate (-x - 1).toNat '0' ++ cs))
  else
    String.ofList (cs.take (x.toNat + 1) ++ '.' :: trimZeros (cs.drop (x.toNat + 1)))

def text (r : Binary64) : String :=
  if r.mantissa = 0 then "0.0"
  else
    (if r.mantissa < 0 then "-" else "") ++
      if r.isInfinite then "Inf"
      else positiveText (r.mantissa.natAbs * (powerOf 2 r.exponent).1) (powerOf 2 r.exponent).2

end Binary64

end Tabular
