import Scriptlet.Number.Decimal

/-! Which plain texts a YAML reader takes for something else than text: truth values, nothing,
numbers and dates, in the spellings of YAML 1.1 and 1.2. -/

namespace Scriptlet.Yaml

open Number (isDigit ofDigits)

/-- The pieces of a text between the given separators. -/
def cutAt (separator : Char) : List Char → List (List Char)
  | [] => [[]]
  | c :: rest =>
    if c = separator then [] :: cutAt separator rest
    else match cutAt separator rest with
      | [] => [[c]]
      | piece :: pieces => (c :: piece) :: pieces

/-- Words with a meaning of their own. -/
def words : List String :=
  ["true", "True", "TRUE", "false", "False", "FALSE", "", "~", "null", "Null", "NULL",
    ".nan", ".NaN", ".NAN", ".inf", ".Inf", ".INF", "+.inf", "+.Inf", "+.INF", "-.inf", "-.Inf",
    "-.INF", "y", "Y", "yes", "Yes", "YES", "on", "On", "ON", "n", "N", "no", "No", "NO", "off",
    "Off", "OFF"]

/-- A sign, or none, and what follows it. -/
def signed : List Char → Option Char × List Char
  | '+' :: rest => (some '+', rest)
  | '-' :: rest => (some '-', rest)
  | chars => (none, chars)

/-- Whether a signed magnitude fits in 64 bits: with two's complement if a sign is written, without
a sign bit otherwise. -/
def fitsWord (sign : Option Char) (magnitude : Nat) : Bool :=
  match sign with
  | none => magnitude < Nat.pow 2 64
  | some '-' => magnitude ≤ Nat.pow 2 63
  | some _ => magnitude < Nat.pow 2 63

def digitValue (c : Char) : Nat :=
  if isDigit c then c.toNat - '0'.toNat
  else if 'a' ≤ c ∧ c ≤ 'z' then c.toNat - 'a'.toNat + 10
  else if 'A' ≤ c ∧ c ≤ 'Z' then c.toNat - 'A'.toNat + 10
  else 36

/-- The natural number that digits of a base spell, if they all are such digits. -/
def naturalIn? (base : Nat) (digits : List Char) : Option Nat :=
  if digits.all (digitValue · < base) then
    some (digits.foldl (fun n c => base * n + digitValue c) 0)
  else none

/-- The base that a spelling announces, and its digits. -/
def announced : List Char → Nat × List Char
  | '0' :: c :: d :: rest =>
    if c = 'b' ∨ c = 'B' then (2, d :: rest)
    else if c = 'o' ∨ c = 'O' then (8, d :: rest)
    else if c = 'x' ∨ c = 'X' then (16, d :: rest)
    else (8, c :: d :: rest)
  | '0' :: rest => (8, rest)
  | chars => (10, chars)

/-- Integers in bases two, eight, ten and sixteen. In bases two and eight the sign may also follow
the mark of the base. -/
def isInteger (chars : List Char) : Bool :=
  let (sign, body) := signed chars
  let (base, digits) := announced body
  let direct := !body.isEmpty && (naturalIn? base digits).any (fitsWord sign)
  let inner (base : Nat) (rest : List Char) : Bool :=
    let (sign, digits) := signed rest
    sign.isSome && !digits.isEmpty && (naturalIn? base digits).any (fitsWord sign)
  direct || match chars with
    | '0' :: 'b' :: rest => inner 2 rest
    | '0' :: 'o' :: rest => inner 8 rest
    | _ => false

/-- Whether `digits * 10 ^ scale` rounds to a finite number of double precision. -/
def isFinite (digits : Nat) (scale : Int) : Bool :=
  let size : Int := digits.repr.length + scale
  if digits = 0 || size < 300 then true
  else if 310 < size then false
  else match scale with
    | .ofNat n => digits * Nat.pow 10 n < Nat.pow 2 1024 - Nat.pow 2 970
    | .negSucc n => digits < (Nat.pow 2 1024 - Nat.pow 2 970) * Nat.pow 10 (n + 1)

/-- The exponent behind a mantissa: zero if nothing follows, nothing if something else does. -/
def exponent? : List Char → Option Int
  | [] => some 0
  | c :: rest =>
    let (sign, digits) := signed rest
    if (c = 'e' ∨ c = 'E') ∧ ¬digits.isEmpty ∧ digits.all isDigit then
      some (if sign = some '-' then -(ofDigits digits : Int) else ofDigits digits)
    else none

/-- Decimals with a point, an exponent or neither. -/
def isDecimal (chars : List Char) : Bool :=
  let body := (signed chars).2
  let whole := body.takeWhile isDigit
  let (fraction, rest) := match body.dropWhile isDigit with
    | '.' :: after => (after.takeWhile isDigit, after.dropWhile isDigit)
    | after => ([], after)
  !(whole.isEmpty && fraction.isEmpty) && (exponent? rest).any fun exponent =>
    isFinite (ofDigits (whole ++ fraction)) (exponent - fraction.length)

/-- Each underscore stands between two digits. -/
def separatesDigits : (previous : Bool) → List Char → Bool
  | _, [] => true
  | previous, '_' :: rest => previous && rest.head?.any isDigit && separatesDigits false rest
  | _, c :: rest => separatesDigits (isDigit c) rest

/-- Base-sixty numbers: digits and groups of one or two digits below sixty, with colons between
them. -/
def isSexagesimal (chars : List Char) : Bool :=
  let body := (signed chars).2
  let tail := body.dropWhile (· != '.')
  let group : List Char → Bool
    | [c] => isDigit c
    | [c, d] => '0' ≤ c && c ≤ '5' && isDigit d
    | _ => false
  match cutAt ':' (body.takeWhile (· != '.')) with
  | first :: groups =>
    first.head?.any isDigit && first.all (fun c => isDigit c || c == '_') && !groups.isEmpty &&
      groups.all group && (tail.drop 1).all (fun c => isDigit c || c == '_')
  | [] => false

/-- A number of one or two digits and what follows it. -/
def shortNumber? : List Char → Option (Nat × List Char)
  | c :: d :: rest =>
    if !isDigit c then none
    else if isDigit d then some (ofDigits [c, d], rest)
    else some (ofDigits [c], d :: rest)
  | [c] => if isDigit c then some (ofDigits [c], []) else none
  | [] => none

def afterMark? (mark : Char) : List Char → Option (List Char)
  | c :: rest => if c = mark then some rest else none
  | [] => none

def daysIn (year month : Nat) : Nat :=
  if month = 2 then
    if year % 4 = 0 ∧ (year % 100 ≠ 0 ∨ year % 400 = 0) then 29 else 28
  else if month = 4 ∨ month = 6 ∨ month = 9 ∨ month = 11 then 30
  else 31

/-- A year of four digits, a month and a day, and what follows them. The day must exist. -/
def date? (chars : List Char) : Option (List Char) := do
  let year := chars.takeWhile isDigit
  guard (year.length = 4)
  let rest ← afterMark? '-' (chars.drop 4)
  let (month, rest) ← shortNumber? rest
  guard (1 ≤ month ∧ month ≤ 12)
  let rest ← afterMark? '-' rest
  let (day, rest) ← shortNumber? rest
  guard (1 ≤ day ∧ day ≤ daysIn (ofDigits year) month)
  return rest

/-- Hour, minute and second, perhaps with a fraction, and what follows them. -/
def clock? (chars : List Char) : Option (List Char) := do
  let (hour, rest) ← shortNumber? chars
  guard (hour < 24)
  let rest ← afterMark? ':' rest
  let (minute, rest) ← shortNumber? rest
  guard (minute < 60)
  let rest ← afterMark? ':' rest
  let (second, rest) ← shortNumber? rest
  guard (second < 60)
  match rest with
  | mark :: digit :: more =>
    if (mark = '.' ∨ mark = ',') ∧ isDigit digit then return more.dropWhile isDigit else return rest
  | _ => return rest

/-- A time zone: `Z`, or an offset of hours and minutes. -/
def isZone : List Char → Bool
  | ['Z'] => true
  | [sign, h, h', ':', m, m'] =>
    (sign == '+' || sign == '-') && [h, h', m, m'].all isDigit && ofDigits [h, h'] ≤ 24 &&
      ofDigits [m, m'] ≤ 60
  | _ => false

/-- Dates, and dates with a time of day. -/
def isDate (chars : List Char) : Bool :=
  match date? chars with
  | none => false
  | some [] => true
  | some (c :: rest) =>
    if c = 'T' ∨ c = 't' then (clock? rest).any isZone
    else c == ' ' && (clock? (rest.dropWhile (· == ' '))).any List.isEmpty

/-- Whether a plain text would be read as something else than text. -/
def readsOtherwise (text : String) : Bool :=
  let chars := text.toList
  let bare := chars.filter (· != '_')
  let first := chars.head?
  words.contains text || isSexagesimal chars ||
    if first.any (fun c => isDigit c || c == '+' || c == '-') then
      isDate chars || isInteger bare || isDecimal bare
    else
      first == some '.' && separatesDigits false chars && isDecimal bare

end Scriptlet.Yaml
