import Scriptlet.Number.Basic
import Scriptlet.Text.Quoted

/-! Decimal literals: how one is read as a number, and the canonical spelling of one. -/

namespace Scriptlet.Number

def isDigit (c : Char) : Bool := '0' ≤ c && c ≤ '9'

/-- The natural number that a sequence of digits spells. -/
def ofDigits (digits : List Char) : Nat :=
  digits.foldl (fun n c => 10 * n + (c.toNat - '0'.toNat)) 0

/-- The two sides of a decimal point, of which at least one has a digit. A literal may lack the
point. -/
def decimalParts? (body : List Char) : Option (List Char × List Char) :=
  let whole := body.takeWhile isDigit
  match body.dropWhile isDigit with
  | [] => if whole.isEmpty then none else some (whole, [])
  | c :: fraction =>
    if c = '.' ∧ fraction.all isDigit ∧ ¬(whole.isEmpty ∧ fraction.isEmpty) then
      some (whole, fraction)
    else none

/-- The number closest to hand for a magnitude of any size: it is brought to lowest terms and then
to 128 bits before it is clamped. -/
def ofMagnitude (num den : Nat) (negative : Bool) : Number :=
  let exact := reduce num den negative
  let shift := excess 128 exact.num exact.den
  clamp (exact.num >>> shift) (exact.den >>> shift) negative

/-- Reads an optional minus sign and digits with at most one decimal point. -/
def parse? (literal : String) : Option Number :=
  let (negative, body) := match literal.toList with
    | '-' :: rest => (true, rest)
    | chars => (false, chars)
  (decimalParts? body).map fun (whole, fraction) =>
    ofMagnitude (ofDigits (whole ++ fraction)) (Nat.pow 10 fraction.length) negative

/-- What is said of a text that is no decimal literal. -/
def malformed (literal : String) : String :=
  "invalid number literal " ++ Text.quote literal

def dropTrailing (c : Char) (chars : List Char) : List Char :=
  (chars.reverse.dropWhile (· == c)).reverse

def orZero (digits : List Char) : List Char :=
  if digits.isEmpty then ['0'] else digits

/-- The canonical spelling of a literal: no separators, no redundant zeros, and a digit on each side
of the point if there is one. -/
def canonicalChars (raw : List Char) : List Char :=
  let digits := raw.filter (· != '_')
  let whole := orZero ((digits.takeWhile (· != '.')).dropWhile (· == '0'))
  match digits.dropWhile (· != '.') with
  | [] => whole
  | _ :: fraction => whole ++ '.' :: orZero (dropTrailing '0' fraction)

def canonical (raw : String) : String :=
  String.ofList (canonicalChars raw.toList)

end Scriptlet.Number
