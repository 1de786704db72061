import Scriptlet.Proofs.NumberValue
import Mathlib.Data.List.TakeWhile

/-! Decimal literals and the rationals they denote. The canonical spelling of a literal denotes the same
rational as the literal, and it is read as that rational wherever there is a number for it. -/

namespace Scriptlet.Proofs.DecimalValue
open Number NumberInvariant NumberValue

/-- What stands on one side of the point: digits, with separators between them. -/
def IsSide (side : List Char) : Prop := ∀ c ∈ side, isDigit c = true ∨ c = '_'

/-- A literal as it may be written. It starts with a digit, and may have a point with digits or nothing
behind it. -/
structure WrittenDecimal where
  first : Char
  others : List Char
  fraction : Option (List Char)
  leading : isDigit first = true
  wholeSide : IsSide others
  fractionSide : ∀ side ∈ fraction, IsSide side

namespace WrittenDecimal

def whole (d : WrittenDecimal) : List Char := d.first :: d.others

def chars (d : WrittenDecimal) : List Char :=
  d.whole ++ match d.fraction with
    | none => []
    | some side => '.' :: side

end WrittenDecimal

def digitsOf (side : List Char) : List Char := side.filter (· != '_')

/-- Digits behind the point: tenths, hundredths and so on. -/
def behindPoint (digits : List Char) : ℚ := ofDigits digits / 10 ^ digits.length

def WrittenDecimal.rational (d : WrittenDecimal) : ℚ :=
  ofDigits (digitsOf d.whole) + behindPoint (digitsOf (d.fraction.getD []))

private theorem foldl_digits (start : Nat) (digits : List Char) :
    digits.foldl (fun n c => 10 * n + (c.toNat - '0'.toNat)) start =
      start * 10 ^ digits.length + ofDigits digits := by
  induction digits generalizing start with
  | nil => simp [ofDigits]
  | cons c rest ih =>
    rw [ofDigits, List.foldl_cons, List.foldl_cons, ih, ih (10 * 0 + _), List.length_cons]
    ring

theorem ofDigits_append (first second : List Char) :
    ofDigits (first ++ second) = ofDigits first * 10 ^ second.length + ofDigits second := by
  rw [ofDigits, List.foldl_append, foldl_digits]
  rfl

/-- A point is a division by a power of ten. -/
theorem ofDigits_point (whole fraction : List Char) :
    ((ofDigits (whole ++ fraction) : Nat) : ℚ) / ((10 ^ fraction.length : Nat) : ℚ) =
      ofDigits whole + behindPoint fraction := by
  rw [ofDigits_append, behindPoint]
  push_cast
  field_simp

theorem ofDigits_cons_zero (digits : List Char) : ofDigits ('0' :: digits) = ofDigits digits := by
  simp [ofDigits]

theorem ofDigits_dropWhile_zero (digits : List Char) :
    ofDigits (digits.dropWhile (· == '0')) = ofDigits digits := by
  induction digits with
  | nil => rfl
  | cons c rest ih =>
    rw [List.dropWhile_cons]
    split
    next zero =>
      rw [ih, eq_of_beq zero, ofDigits_cons_zero]
    · rfl

theorem ofDigits_orZero (digits : List Char) : ofDigits (orZero digits) = ofDigits digits := by
  rw [orZero]
  split
  next none =>
    rw [List.isEmpty_iff.mp none]
    rfl
  · rfl

private theorem behindPoint_append_zero (digits : List Char) : behindPoint (digits ++ ['0']) = behindPoint digits := by
  have zero : ofDigits ['0'] = 0 := rfl
  rw [behindPoint, behindPoint, ofDigits_append, zero]
  simp only [List.length_append, List.length_singleton, pow_succ, pow_zero, one_mul, Nat.add_zero, Nat.cast_mul,
    Nat.cast_ofNat]
  field_simp

theorem behindPoint_dropTrailing (digits : List Char) :
    behindPoint (dropTrailing '0' digits) = behindPoint digits := by
  induction digits using List.reverseRecOn with
  | nil => rfl
  | append_singleton front last ih =>
    rw [dropTrailing, List.reverse_append, List.reverse_singleton, List.singleton_append, List.dropWhile_cons]
    split
    next zero =>
      rw [eq_of_beq zero, behindPoint_append_zero]
      exact ih
    · simp

theorem behindPoint_orZero (digits : List Char) : behindPoint (orZero digits) = behindPoint digits := by
  rw [orZero]
  split
  next none =>
    rw [List.isEmpty_iff.mp none]
    exact behindPoint_append_zero []
  · rfl

/-- The two sides of a literal with a point between them, or the first side alone. -/
def pointed (whole : List Char) (fraction : Option (List Char)) : List Char :=
  whole ++ match fraction with
    | none => []
    | some side => '.' :: side

theorem isDigit_ne {c : Char} (digit : isDigit c = true) : c ≠ '.' ∧ c ≠ '_' ∧ c ≠ '-' := by
  refine ⟨?_, ?_, ?_⟩ <;> rintro rfl <;> cases digit

section Joined
variable {whole : List Char} {fraction : Option (List Char)}

private theorem decimalParts_pointed (front : ∀ c ∈ whole, isDigit c = true)
    (back : ∀ side ∈ fraction, ∀ c ∈ side, isDigit c = true) (filled : whole ++ fraction.getD [] ≠ []) :
    decimalParts? (pointed whole fraction) = some (whole, fraction.getD []) := by
  cases fraction with
  | none =>
    have given : whole ≠ [] := by simpa using filled
    simp only [decimalParts?, pointed, List.append_nil, List.takeWhile_eq_self_iff.mpr front,
      List.dropWhile_eq_nil_iff.mpr front, List.isEmpty_iff, if_neg given, Option.getD_none]
  | some side =>
    have point : isDigit '.' = false := rfl
    simp only [decimalParts?, pointed, List.takeWhile_append_of_pos front, List.dropWhile_append_of_pos front,
      List.takeWhile_cons, List.dropWhile_cons, point]
    have digits : side.all isDigit = true := List.all_eq_true.mpr (back side rfl)
    simpa [digits] using filled

/-- Neither a digit nor a point is a minus sign. -/
theorem pointed_unsigned (front : ∀ c ∈ whole, isDigit c = true) : ∀ rest, pointed whole fraction ≠ '-' :: rest := by
  intro rest signed
  cases whole with
  | nil => cases fraction <;> cases signed
  | cons c others =>
    cases signed
    exact (isDigit_ne (front '-' List.mem_cons_self)).2.2 rfl

theorem parse_pointed (negative : Bool) (front : ∀ c ∈ whole, isDigit c = true)
    (back : ∀ side ∈ fraction, ∀ c ∈ side, isDigit c = true) (filled : whole ++ fraction.getD [] ≠ []) :
    parse? (String.ofList ((if negative then ['-'] else []) ++ pointed whole fraction)) =
      some (ofMagnitude (ofDigits (whole ++ fraction.getD [])) (10 ^ (fraction.getD []).length) negative) := by
  have parts := decimalParts_pointed front back filled
  rw [parse?, String.toList_ofList]
  cases negative with
  | true => simp [parts]
  | false =>
    rw [if_neg Bool.false_ne_true, List.nil_append]
    split
    next signed =>
      split at signed
      next rest minus =>
        exact absurd minus (pointed_unsigned front rest)
      · cases signed
        simp [parts]

end Joined

theorem digitsOf_isDigit {side : List Char} (isSide : IsSide side) : ∀ c ∈ digitsOf side, isDigit c = true := by
  intro c member
  obtain ⟨inside, kept⟩ := List.mem_filter.mp member
  rcases isSide c inside with digit | separator
  · exact digit
  · simp [separator] at kept

theorem IsSide.pointless {side : List Char} (isSide : IsSide side) : '.' ∉ side := by
  intro point
  rcases isSide '.' point with digit | separator
  · cases digit
  · cases separator

theorem orZero_isDigit {digits : List Char} (all : ∀ c ∈ digits, isDigit c = true) :
    ∀ c ∈ orZero digits, isDigit c = true := by
  rw [orZero]
  split
  · simp [isDigit]
  · exact all

theorem orZero_ne_nil (digits : List Char) : orZero digits ≠ [] := by
  rw [orZero]
  split
  · simp
  next some =>
    simpa using some

private theorem filter_pointed (whole : List Char) (fraction : Option (List Char)) :
    (pointed whole fraction).filter (· != '_') = pointed (digitsOf whole) (fraction.map digitsOf) := by
  cases fraction <;> simp [pointed, digitsOf]

/-- Each side of the point is trimmed on its own. -/
theorem canonicalChars_pointed {whole : List Char} {fraction : Option (List Char)} (pointless : '.' ∉ whole) :
    canonicalChars (pointed whole fraction) = pointed (orZero ((digitsOf whole).dropWhile (· == '0')))
      (fraction.map fun side => orZero (dropTrailing '0' (digitsOf side))) := by
  have kept : ∀ c ∈ digitsOf whole, (c != '.') = true := by
    intro c member
    rw [bne_iff_ne]
    rintro rfl
    exact pointless (List.mem_filter.mp member).1
  rw [canonicalChars, filter_pointed]
  cases fraction with
  | none =>
    simp only [Option.map_none, pointed, List.append_nil, List.takeWhile_eq_self_iff.mpr kept,
      List.dropWhile_eq_nil_iff.mpr kept]
  | some side =>
    simp only [Option.map_some, pointed, List.takeWhile_append_of_pos kept, List.dropWhile_append_of_pos kept]
    simp

namespace WrittenDecimal
variable (d : WrittenDecimal)

theorem whole_isSide : IsSide d.whole := by
  intro c member
  rcases List.mem_cons.mp member with rfl | member
  · exact Or.inl d.leading
  · exact d.wholeSide c member

def front : List Char := orZero ((digitsOf d.whole).dropWhile (· == '0'))

def back : Option (List Char) := d.fraction.map fun side => orZero (dropTrailing '0' (digitsOf side))

private theorem front_isDigit : ∀ c ∈ d.front, isDigit c = true := by
  apply orZero_isDigit
  intro c member
  exact digitsOf_isDigit d.whole_isSide c ((List.dropWhile_sublist _).subset member)

private theorem back_isDigit : ∀ digits ∈ d.back, ∀ c ∈ digits, isDigit c = true := by
  intro digits member
  obtain ⟨side, given, rfl⟩ := Option.map_eq_some_iff.mp member
  apply orZero_isDigit
  intro c member
  apply digitsOf_isDigit (d.fractionSide side given)
  simpa using (List.dropWhile_sublist _).subset (List.mem_reverse.mp member)

/-- The literal as the canonical spelling has it. -/
def canonicalSpelling : List Char :=
  d.front ++ match d.back with
    | none => []
    | some digits => '.' :: digits

theorem filter_chars : d.chars.filter (· != '_') = pointed (digitsOf d.whole) (d.fraction.map digitsOf) :=
  filter_pointed d.whole d.fraction

theorem canonicalChars_eq : canonicalChars d.chars = d.canonicalSpelling :=
  canonicalChars_pointed d.whole_isSide.pointless

def number : Number :=
  ofMagnitude (ofDigits (d.front ++ d.back.getD [])) (10 ^ (d.back.getD []).length) false

theorem parse_canonical : parse? (String.ofList (canonicalChars d.chars)) = some d.number := by
  rw [d.canonicalChars_eq]
  exact parse_pointed false d.front_isDigit d.back_isDigit fun none => orZero_ne_nil _ (List.append_eq_nil_iff.mp none).1

private theorem front_value : ofDigits d.front = ofDigits (digitsOf d.whole) := by
  rw [front, ofDigits_orZero, ofDigits_dropWhile_zero]

private theorem back_value : behindPoint (d.back.getD []) = behindPoint (digitsOf (d.fraction.getD [])) := by
  rw [back]
  cases d.fraction with
  | none => rfl
  | some side => simp only [Option.map_some, Option.getD_some, behindPoint_orZero, behindPoint_dropTrailing]

theorem magnitude_eq :
    ((ofDigits (d.front ++ d.back.getD []) : Nat) : ℚ) / ((10 ^ (d.back.getD []).length : Nat) : ℚ) = d.rational := by
  rw [ofDigits_point, front_value, back_value, rational]

theorem number_value (fits : Fits d.rational) : value d.number = d.rational := by
  rw [← magnitude_eq] at fits ⊢
  exact ofMagnitude_value false (by positivity) fits

end WrittenDecimal

end Scriptlet.Proofs.DecimalValue
