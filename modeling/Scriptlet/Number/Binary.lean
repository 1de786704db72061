import Scriptlet.Number.Basic

/-! Binary approximation with 53 significant bits, as in IEEE 754 double precision, and the shortest
decimal that names one. All of it is exact arithmetic on naturals. -/

namespace Scriptlet

/-- The magnitude `mantissa * 2 ^ exponent`. Unless it is zero, the mantissa has 53 bits. -/
structure Binary where
  mantissa : Nat
  exponent : Int
  deriving DecidableEq, Repr

namespace Binary

/-- A quotient to the nearest natural, a half to the even one. -/
def roundDiv (num den : Nat) : Nat :=
  let down := num / den
  let rest := num % den
  if 2 * rest < den then down
  else if den < 2 * rest then down + 1
  else down + down % 2

/-- The quotient `num / den / 2 ^ exponent`, as a numerator and a denominator. -/
def scaled (num den : Nat) (exponent : Int) : Nat × Nat :=
  match exponent with
  | .ofNat n => (num, den * Nat.pow 2 n)
  | .negSucc n => (num * Nat.pow 2 (n + 1), den)

/-- The nearest approximation of a quotient of two naturals, a half to the even mantissa. -/
def ofQuotient (num den : Nat) : Binary :=
  if num = 0 then ⟨0, 0⟩
  else
    let guess : Int := num.log2 - den.log2 - 52
    let (n, d) := scaled num den guess
    let exponent := if n < Nat.pow 2 52 * d then guess - 1 else guess
    let (n, d) := scaled num den exponent
    let mantissa := roundDiv n d
    if mantissa = Nat.pow 2 53 then ⟨Nat.pow 2 52, exponent + 1⟩ else ⟨mantissa, exponent⟩

def div (a b : Binary) : Binary :=
  let quotient := ofQuotient a.mantissa b.mantissa
  if quotient.mantissa = 0 then quotient
  else { quotient with exponent := quotient.exponent + a.exponent - b.exponent }

/-- The 64 bits of the IEEE 754 interchange format, for a value in its normal range. -/
def bits (x : Binary) (negative : Bool) : Nat :=
  (if negative then Nat.pow 2 63 else 0) +
    if x.mantissa = 0 then 0 else (x.exponent + 1075).toNat * Nat.pow 2 52 + (x.mantissa - Nat.pow 2 52)

/-- The decimal `digits * 10 ^ exponent`. -/
structure Decimal where
  digits : Nat
  exponent : Int
  deriving DecidableEq, Repr

/-- The quotient `num / den / 10 ^ exponent`, as a numerator and a denominator. -/
def scaledTen (num den : Nat) (exponent : Int) : Nat × Nat :=
  match exponent with
  | .ofNat n => (num, den * Nat.pow 10 n)
  | .negSucc n => (num * Nat.pow 10 (n + 1), den)

/-- The greatest power of ten, as an exponent, that is not above a positive quotient. The search
starts at an upper estimate. -/
def magnitude (num den : Nat) : (steps : Nat) → Int → Int
  | 0, estimate => estimate
  | steps + 1, estimate =>
    let (n, d) := scaledTen num den estimate
    if d ≤ n then estimate else magnitude num den steps (estimate - 1)

/-- The reals that round to a value, in quarters of its last place: the value itself is
`4 * mantissa`. Below a power of two the neighbour is half as far away. -/
structure Interval where
  low : Nat
  middle : Nat
  high : Nat
  closed : Bool

def interval (x : Binary) : Interval where
  low := 4 * x.mantissa - if x.mantissa = Nat.pow 2 52 then 1 else 2
  middle := 4 * x.mantissa
  high := 4 * x.mantissa + 2
  closed := x.mantissa % 2 == 0

def Interval.contains (i : Interval) (n unit : Nat) : Bool :=
  if i.closed then i.low * unit ≤ n && n ≤ i.high * unit
  else i.low * unit < n && n < i.high * unit

/-- The decimal on the grid of step `10 ^ exponent` that rounds to the value. Of the two grid points
around the value the nearer one is taken, the even one of two that are equally near. -/
def onGrid? (x : Binary) (exponent : Int) : Option Decimal :=
  let (quarter, one) := scaled 1 1 (2 - x.exponent)
  let (n, d) := scaledTen quarter one exponent
  let range := x.interval
  let down := range.middle * n / d
  let rest := range.middle * n % d
  let fits (k : Nat) : Bool := range.contains (k * d) n
  let upward := d < 2 * rest || (2 * rest == d && down % 2 == 1)
  match fits down, fits (down + 1) with
  | true, true => some ⟨if upward then down + 1 else down, exponent⟩
  | true, false => some ⟨down, exponent⟩
  | false, true => some ⟨down + 1, exponent⟩
  | false, false => none

/-- Tries grids of step `10 ^ exponent`, each finer than the one before. -/
def search (x : Binary) : (steps : Nat) → Int → Decimal
  | 0, exponent => ⟨0, exponent⟩
  | steps + 1, exponent =>
    match onGrid? x exponent with
    | some decimal => decimal
    | none => search x steps (exponent - 1)

/-- The decimal with the fewest digits among those that round to the value, and of these the
nearest. The first grid is the one whose step is the next power of ten above the value, and
seventeen digits always suffice. -/
def shortest (x : Binary) : Decimal :=
  if x.mantissa = 0 then ⟨0, 0⟩
  else
    let (n, d) := scaled x.mantissa 1 (-x.exponent)
    let estimate : Int := (n.log2 + 1 - d.log2 : Int) * 30103 / 100000 + 1
    search x 18 (magnitude n d 4 estimate + 1)

/-- A decimal in positional notation, without a point if it is whole. -/
def Decimal.positional (decimal : Decimal) : String :=
  match decimal.exponent with
  | .ofNat n => decimal.digits.repr ++ String.ofList (List.replicate n '0')
  | .negSucc n =>
    let places := n + 1
    let fraction := (decimal.digits % Nat.pow 10 places).repr
    (decimal.digits / Nat.pow 10 places).repr ++ "." ++
      String.ofList (List.replicate (places - fraction.length) '0') ++ fraction

end Binary

namespace Number

/-- The approximation of the magnitude: numerator and denominator are rounded, and so is their
quotient. -/
def approximate (n : Number) : Binary :=
  (Binary.ofQuotient n.num 1).div (Binary.ofQuotient n.denominator 1)

/-- Integers exactly, and other numbers as the shortest decimal of their approximation. -/
def text (n : Number) : String :=
  (if n.negative then "-" else "") ++
    if n.isInteger then n.num.repr else n.approximate.shortest.positional

end Number
end Scriptlet
