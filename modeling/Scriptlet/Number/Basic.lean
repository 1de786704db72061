/-! Rational numbers whose numerator and denominator fit in 64 bits. A result that does not fit is
shifted right until it does, so arithmetic is total and exact wherever the exact result fits. -/

namespace Scriptlet

/-- A sign and a magnitude `num / den`. The operations keep it in lowest terms, with zero written
as a non-negative `0 / 1`. A denominator may be left out, and then counts as one. -/
structure Number where
  num : Nat
  den : Nat
  negative : Bool
  deriving DecidableEq, Repr

namespace Number

/-- Numerators and denominators stay below this bound. -/
def bound : Nat := Nat.pow 2 64

def zero : Number := ⟨0, 1, false⟩

/-- Zero before anything has been computed: its denominator is left out. -/
def unset : Number := ⟨0, 0, false⟩

/-- The denominator that a number is read with. -/
def denominator (n : Number) : Nat := max n.den 1

instance : Inhabited Number := ⟨zero⟩

def reduce (num den : Nat) (negative : Bool) : Number :=
  ⟨num / num.gcd den, den / num.gcd den, negative⟩

/-- How far both of two numbers must be shifted for each to fit in `bits` bits. -/
def excess (bits num den : Nat) : Nat :=
  max num.log2 den.log2 - (bits - 1)

/-- Fits a magnitude in lowest terms into 64 bits. If the denominator would vanish, the magnitude
is beyond all others and saturates. -/
def squeeze (num den : Nat) (negative : Bool) : Number :=
  let shift := excess 64 num den
  if den.log2 < shift then ⟨bound - 1, 1, negative⟩
  else if num >>> shift = 0 then zero
  else reduce (num >>> shift) (den >>> shift) negative

/-- The number with the given sign and magnitude. A zero denominator counts as one. -/
def clamp (num den : Nat) (negative : Bool) : Number :=
  if num = 0 then zero
  else
    let den := max den 1
    squeeze (num / num.gcd den) (den / num.gcd den) negative

def ofInt (n : Int) : Number :=
  clamp n.natAbs 1 (n < 0)

def isZero (n : Number) : Bool := n.num == 0

def isInteger (n : Number) : Bool := n.denominator == 1

/-- Two magnitudes over their least common denominator. -/
structure Aligned where
  left : Nat
  right : Nat
  den : Nat

def align (a b : Number) : Aligned :=
  let den := a.denominator / a.denominator.gcd b.denominator * b.denominator
  ⟨a.num * (den / a.denominator), b.num * (den / b.denominator), den⟩

/-- Leaves room for the carry of a sum within 128 bits. -/
def Aligned.withRoom (parts : Aligned) : Aligned :=
  if Nat.pow 2 127 ≤ parts.left ∨ Nat.pow 2 127 ≤ parts.right then
    ⟨parts.left >>> 1, parts.right >>> 1, parts.den >>> 1⟩
  else parts

def neg (n : Number) : Number :=
  if n.isZero then n else { n with negative := !n.negative }

def add (a b : Number) : Number :=
  let parts := (align a b).withRoom
  if a.negative = b.negative then clamp (parts.left + parts.right) parts.den a.negative
  else if parts.right ≤ parts.left then clamp (parts.left - parts.right) parts.den a.negative
  else clamp (parts.right - parts.left) parts.den b.negative

def sub (a b : Number) : Number := a.add b.neg

def mul (a b : Number) : Number :=
  clamp (a.num * b.num) (a.denominator * b.denominator) (a.negative != b.negative)

/-- Nothing for a zero divisor. -/
def div? (a b : Number) : Option Number :=
  if b.isZero then none
  else some (clamp (a.num * b.denominator) (a.denominator * b.num) (a.negative != b.negative))

/-- The quotient of two integers, nothing if the second is zero. -/
def ofRatio? (num den : Int) : Option Number :=
  if den = 0 then none else (ofInt num).div? (ofInt den)

instance : Neg Number := ⟨neg⟩
instance : Add Number := ⟨add⟩
instance : Sub Number := ⟨sub⟩
instance : Mul Number := ⟨mul⟩

/-- The order of the rationals. -/
protected def compare (a b : Number) : Ordering :=
  match a.negative, b.negative with
  | true, false => .lt
  | false, true => .gt
  | true, true => compare (align a b).right (align a b).left
  | false, false => compare (align a b).left (align a b).right

instance : Ord Number := ⟨Number.compare⟩

/-- Whether two numbers denote the same rational. -/
def same (a b : Number) : Bool := a.compare b == .eq

/-- The number as `numerator/denominator`. -/
def ratio (n : Number) : String :=
  (if n.negative then "-" else "") ++ n.num.repr ++ "/" ++ n.denominator.repr

end Number
end Scriptlet
