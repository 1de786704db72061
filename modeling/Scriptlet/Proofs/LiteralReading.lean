import Scriptlet.Proofs.ExactArithmetic
import Scriptlet.Proofs.NumberWords
import Scriptlet.Proofs.TokenBlame
import Scriptlet.Proofs.TokenRendering
import Mathlib.Data.Nat.Digits.Defs

/-! Literals of any length as numbers. What is read as a number are the literals, each as the number for its rational if
there is one, and as the largest number if the rational lies beyond all numbers. The canonical spelling of a literal in
a source text is read as the literal itself, so no source text has a number in it that cannot be read. -/

namespace Scriptlet.Proofs.LiteralReading
open Number NumberInvariant NumberValue ExactArithmetic DecimalValue TokenRendering Grammar TokenBlame

/-- Digits with at most one point among them, behind a minus sign or not. -/
structure SignedLiteral where
  negative : Bool
  whole : List Char
  fraction : Option (List Char)
  wholeDigits : ∀ c ∈ whole, c.isDigit = true
  fractionDigits : ∀ side ∈ fraction, ∀ c ∈ side, c.isDigit = true
  filled : whole ++ fraction.getD [] ≠ []

/-- The natural number with the given digits, the first of which counts most. -/
def natural (digits : List Char) : Nat := Nat.ofDigits 10 (digits.map fun c => c.toNat - '0'.toNat).reverse

namespace SignedLiteral
variable (l : SignedLiteral)

def text : String := String.ofList ((if l.negative then ['-'] else []) ++ pointed l.whole l.fraction)

/-- The digits behind the point. -/
def back : List Char := l.fraction.getD []

def rational : ℚ := signed l.negative (natural l.whole + natural l.back / 10 ^ l.back.length)

end SignedLiteral

section Magnitudes
variable {num den : Nat}

/-- Only the ratio of the two sides matters, since it has one spelling in lowest terms. -/
theorem ofMagnitude_congr {otherNum otherDen : Nat} (negative : Bool) (denPos : 0 < den) (otherPos : 0 < otherDen)
    (same : (num : ℚ) / den = otherNum / otherDen) :
    ofMagnitude num den negative = ofMagnitude otherNum otherDen negative := by
  have reduced : reduce num den negative = reduce otherNum otherDen negative := by
    obtain ⟨numLowest, denLowest⟩ := lowest_terms num denPos
    obtain ⟨otherNumLowest, otherDenLowest⟩ := lowest_terms otherNum otherPos
    rw [reduce, reduce, ← numLowest, ← denLowest, ← otherNumLowest, ← otherDenLowest, same]
  rw [ofMagnitude, ofMagnitude, reduced]

private theorem num_pos_of_beyond (denPos : 0 < den) (beyond : bound * den ≤ num) : 0 < num :=
  Nat.lt_of_lt_of_le (Nat.mul_pos (by decide) denPos) beyond

private theorem log2_of_beyond (denPos : 0 < den) (beyond : bound * den ≤ num) : 64 + den.log2 ≤ num.log2 := by
  have denLe : 2 ^ den.log2 ≤ den := Nat.log2_self_le (Nat.ne_of_gt denPos)
  rw [Nat.le_log2 (Nat.ne_of_gt (num_pos_of_beyond denPos beyond)), Nat.pow_add]
  exact Nat.le_trans (Nat.mul_le_mul_left _ denLe) beyond

/-- It is still as large in lowest terms. -/
theorem beyond_div_gcd (denPos : 0 < den) (beyond : bound * den ≤ num) :
    0 < den / num.gcd den ∧ bound * (den / num.gcd den) ≤ num / num.gcd den := by
  refine ⟨Nat.div_gcd_pos_of_pos_right num denPos, ?_⟩
  rw [Nat.le_div_iff_mul_le (Nat.gcd_pos_of_pos_right num denPos), Nat.mul_assoc,
    Nat.div_mul_cancel (Nat.gcd_dvd_right num den)]
  exact beyond

private theorem squeeze_saturates (negative : Bool) (denPos : 0 < den) (beyond : bound * den ≤ num) :
    squeeze num den negative = ⟨bound - 1, 1, negative⟩ := by
  have logs := log2_of_beyond denPos beyond
  have lost : den.log2 < excess 64 num den := by
    simp only [excess]
    omega
  rw [squeeze, if_pos lost]

private theorem clamp_saturates (negative : Bool) (beyond : bound * max den 1 ≤ num) :
    clamp num den negative = ⟨bound - 1, 1, negative⟩ := by
  have denPos : 0 < max den 1 := by omega
  obtain ⟨lowestPos, lowestBeyond⟩ := beyond_div_gcd denPos beyond
  rw [clamp, if_neg (Nat.ne_of_gt (num_pos_of_beyond denPos beyond))]
  exact squeeze_saturates negative lowestPos lowestBeyond

/-- The shift to 128 bits may leave nothing of the denominator, but then it leaves a large numerator. -/
theorem shifted_beyond (denPos : 0 < den) (beyond : bound * den ≤ num) :
    bound * max (den >>> excess 128 num den) 1 ≤ num >>> excess 128 num den := by
  have logs := log2_of_beyond denPos beyond
  have room : 64 + excess 128 num den ≤ num.log2 := by
    simp only [excess]
    omega
  rw [Nat.shiftRight_eq_div_pow, Nat.shiftRight_eq_div_pow, Nat.le_div_iff_mul_le (Nat.two_pow_pos _)]
  rcases Nat.le_total (den / 2 ^ excess 128 num den) 1 with small | large
  · rw [Nat.max_eq_right small, Nat.mul_one, bound_eq, ← Nat.pow_add]
    exact (Nat.le_log2 (Nat.ne_of_gt (num_pos_of_beyond denPos beyond))).mp room
  · rw [Nat.max_eq_left large, Nat.mul_assoc]
    exact Nat.le_trans (Nat.mul_le_mul_left _ (Nat.div_mul_le_self ..)) beyond

private theorem ofMagnitude_saturates (negative : Bool) (denPos : 0 < den) (beyond : bound * den ≤ num) :
    ofMagnitude num den negative = ⟨bound - 1, 1, negative⟩ := by
  obtain ⟨lowestPos, lowestBeyond⟩ := beyond_div_gcd denPos beyond
  exact clamp_saturates negative (shifted_beyond lowestPos lowestBeyond)

end Magnitudes

theorem ofDigits_eq_natural (digits : List Char) : ofDigits digits = natural digits := by
  induction digits using List.reverseRecOn with
  | nil => rfl
  | append_singleton front c ih =>
    have single : ofDigits [c] = c.toNat - '0'.toNat := by simp [ofDigits]
    have last : natural (front ++ [c]) = c.toNat - '0'.toNat + 10 * natural front := by
      simp [natural, Nat.ofDigits_cons]
    rw [ofDigits_append, ih, single, last, List.length_singleton]
    ring

namespace SignedLiteral
variable (l : SignedLiteral)

private theorem parse_text :
    parse? l.text = some (ofMagnitude (ofDigits (l.whole ++ l.back)) (10 ^ l.back.length) l.negative) :=
  parse_pointed l.negative l.wholeDigits l.fractionDigits l.filled

private theorem rational_eq : l.rational =
    signed l.negative (((ofDigits (l.whole ++ l.back) : Nat) : ℚ) / ((10 ^ l.back.length : Nat) : ℚ)) := by
  rw [rational, ofDigits_point, behindPoint, ofDigits_eq_natural, ofDigits_eq_natural]

private theorem parse_exact (fits : Fits l.rational) : parse? l.text = some (ofRational l.rational) := by
  rw [rational_eq] at fits ⊢
  have same := ofMagnitude_value l.negative (by positivity) (signed_fits.mp fits)
  rw [l.parse_text, eq_ofRational (parse_normal l.parse_text) same]

private theorem parse_saturates (beyond : bound ≤ |l.rational|) : parse? l.text = some ⟨bound - 1, 1, l.negative⟩ := by
  rw [rational_eq, abs_signed, abs_of_nonneg (by positivity), le_div_iff₀ (by positivity)] at beyond
  rw [l.parse_text, ofMagnitude_saturates l.negative (by positivity) (by exact_mod_cast beyond)]

end SignedLiteral

private theorem pointed_of_decimalParts {body whole back : List Char}
    (parts : decimalParts? body = some (whole, back)) :
    ∃ fraction : Option (List Char), pointed whole fraction = body ∧ (∀ c ∈ whole, isDigit c = true) ∧
      (∀ side ∈ fraction, ∀ c ∈ side, isDigit c = true) ∧ whole ++ fraction.getD [] ≠ [] := by
  have front : ∀ c ∈ body.takeWhile isDigit, isDigit c = true := fun c member => List.mem_takeWhile_imp member
  have split : body.takeWhile isDigit ++ body.dropWhile isDigit = body := List.takeWhile_append_dropWhile
  rw [decimalParts?] at parts
  generalize body.takeWhile isDigit = first at front split parts
  split at parts
  next ended =>
    rw [ended] at split
    split at parts
    · cases parts
    next given =>
      cases parts
      exact ⟨none, split, front, by simp, by simpa using given⟩
  next c side behind =>
    rw [behind] at split
    split at parts
    next facts =>
      obtain ⟨rfl, digits, given⟩ := facts
      cases parts
      refine ⟨some back, split, front, ?_, by simpa using given⟩
      intro side same
      cases same
      exact List.all_eq_true.mp digits
    · cases parts

private theorem literal_of_parse {text : String} {n : Number} (read : parse? text = some n) :
    ∃ l : SignedLiteral, l.text = text := by
  have body : ∃ (negative : Bool) (body : List Char) (parts : List Char × List Char),
      text.toList = (if negative then ['-'] else []) ++ body ∧ decimalParts? body = some parts := by
    rw [parse?] at read
    split at read
    rename_i negative body signed
    obtain ⟨parts, found, _⟩ := Option.map_eq_some_iff.mp read
    split at signed
    next minus =>
      cases signed
      exact ⟨true, body, parts, minus, found⟩
    · cases signed
      exact ⟨false, _, parts, rfl, found⟩
  obtain ⟨negative, body, ⟨whole, back⟩, written, parts⟩ := body
  obtain ⟨fraction, rfl, wholeDigits, fractionDigits, filled⟩ := pointed_of_decimalParts parts
  refine ⟨⟨negative, whole, fraction, wholeDigits, fractionDigits, filled⟩, ?_⟩
  rw [SignedLiteral.text, ← written, String.ofList_toList]

private theorem parse_isSome_iff {text : String} :
    (parse? text).isSome = true ↔ ∃ l : SignedLiteral, l.text = text := by
  constructor
  · intro read
    obtain ⟨n, read⟩ := Option.isSome_iff_exists.mp read
    exact literal_of_parse read
  · rintro ⟨l, rfl⟩
    rw [l.parse_text, Option.isSome_some]

/-- The token is the number for these characters of a text: it has their canonical spelling, it can be read, and it is
read as the characters without their separators are. -/
structure NumberFrom (raw : List Char) (t : Token) : Prop where
  kind : t.kind = .number
  lexeme : t.lexeme = String.ofList (canonicalChars raw)
  readable : (parse? t.lexeme).isSome = true
  same : parse? t.lexeme = parse? (String.ofList (raw.filter (· != '_')))

private theorem parse_separated (d : WrittenDecimal) :
    parse? (String.ofList (canonicalChars d.chars)) = parse? (String.ofList (d.chars.filter (· != '_'))) := by
  have backDigits : ∀ side ∈ d.fraction.map digitsOf, ∀ c ∈ side, isDigit c = true := by
    intro side member
    obtain ⟨given, there, rfl⟩ := Option.map_eq_some_iff.mp member
    exact digitsOf_isDigit (d.fractionSide given there)
  have filled : digitsOf d.whole ++ (d.fraction.map digitsOf).getD [] ≠ [] := by
    have plain := (isDigit_ne d.leading).2.1
    simp [digitsOf, WrittenDecimal.whole, plain]
  have read := parse_pointed false (digitsOf_isDigit d.whole_isSide) backDigits filled
  have same : behindPoint ((d.fraction.map digitsOf).getD []) = behindPoint (digitsOf (d.fraction.getD [])) := by
    cases d.fraction <;> rfl
  -- The two spellings differ in zeros at the ends, which make no difference to the rational.
  rw [d.parse_canonical, d.filter_chars]
  refine Eq.trans (congrArg some ?_) read.symm
  apply ofMagnitude_congr false (by positivity) (by positivity)
  rw [d.magnitude_eq, ofDigits_point, same, WrittenDecimal.rational]

private theorem ofWord_ne_number (name : String) : TokenKind.ofWord name ≠ .number := by
  rcases ofWord_cases name with member | ⟨free, _⟩
  · exact reserved_ne_number _ member
  · simp [free]

/-- Of the scans, only that of a number finds one. -/
theorem one_number {c : Char} {rest lexeme : List Char} (found : (Scan.one c rest).found = .token .number lexeme) :
    ∃ d : WrittenDecimal, (Scan.one c rest).passed = d.chars ∧ lexeme = canonicalChars d.chars := by
  by_cases starts : Scan.startsWord c = true
  · rw [Scan.one, if_pos starts] at found
    exact absurd (Scan.Found.token.inj found).1 (ofWord_ne_number _)
  by_cases digit : isDigit c = true
  · rw [Scan.one, if_neg starts, if_pos digit] at found ⊢
    obtain ⟨d, passed, _, spelled⟩ := number_decimal digit found
    exact ⟨d, passed, spelled⟩
  rw [Scan.one, if_neg starts, if_neg digit] at found
  split at found
  · simp only [Scan.stringLiteral] at found
    split at found <;> cases found
  · exact absurd rfl (symbols_ne_number _ (symbol_mem found))

private theorem next_number {r : Reader} {t : Token} (read : r.next.1 = .ok t) (number : t.kind = .number) :
    ∃ raw, r.skipBlanks.rest = raw ++ r.next.2.rest ∧ NumberFrom raw t := by
  simp only [Reader.next] at read ⊢
  split at read
  · cases read
    cases number
  next c text remaining =>
    split at read
    next kind lexeme found =>
      cases read
      obtain rfl : kind = .number := number
      obtain ⟨d, passed, rfl⟩ := one_number found
      refine ⟨d.chars, ?_, rfl, rfl, ?_, parse_separated d⟩
      · rw [← passed, Scan.one_passed_append_rest, remaining]
      · rw [d.parse_canonical, Option.isSome_some]
    · cases read

section Errors
variable {us : List Token} {e : ParseError} {literal : String}

/-- All numbers among the tokens can be read. -/
def Readable (ts : List Token) : Prop := ∀ t ∈ ts, t.kind = .number → (parse? t.lexeme).isSome = true

private theorem readable_of_tokenize {source : String} {ts : List Token} (scanned : tokenize source = .ok ts) :
    Readable ts := by
  intro t member number
  obtain ⟨d, lexeme⟩ := decimal_of_proper (tokens_proper scanned t member) number
  have read := d.parse_canonical
  rw [← lexeme] at read
  exact Option.isSome_of_eq_some read

private theorem ne_badNumber_of_names (names : Names us e) (readable : Readable us) : e.fault ≠ .badNumber literal := by
  obtain ⟨t, member, ⟨_, unread⟩, _⟩ := names
  intro bad
  obtain ⟨number, none⟩ := unread literal bad
  have read := readable t member number
  rw [none] at read
  cases read

private theorem ne_badNumber_of_endsEarly (ends : EndsEarly e) : e.fault ≠ .badNumber literal := by
  rcases ends with rfl | rfl <;> simp [faultAt]

private theorem parse_ne_badNumber (readable : Readable us) (failed : parse us = .error e) :
    e.fault ≠ .badNumber literal := by
  by_cases filled : us = []
  · rw [(missingExpression_iff (Or.inr failed)).mpr filled]
    simp
  · rcases parse_blames filled failed with names | ⟨t, _, _, rfl⟩
    · exact ne_badNumber_of_names names readable
    · simp [Token.fault]

private theorem parseProgram_ne_badNumber (readable : Readable us) (failed : parseProgram us = .error e) :
    e.fault ≠ .badNumber literal := by
  rcases parseProgram_names failed with rfl | ends | names
  · simp
  · exact ne_badNumber_of_endsEarly ends
  · exact ne_badNumber_of_names names readable

private theorem parseFragment_ne_badNumber (readable : Readable us) (failed : parseFragment us = .error e) :
    e.fault ≠ .badNumber literal := by
  rcases parseFragment_names failed with ends | names
  · exact ne_badNumber_of_endsEarly ends
  · exact ne_badNumber_of_names names readable

end Errors

/-- A text is read as a number if and only if it is a literal. The number is the one for the rational of the literal, if
there is one, and the largest one with the sign of the literal if the rational is `2 ^ 64` or more in size. A number in
a source text is read like its digits without separators, and a reading of tokens from a source text does not fail for
a number. -/
theorem literals_read_exactly (words : NumberWords.Words) :
    (∀ text, NumberWords.parse words text = .ok (parse? text) ∧
      ((parse? text).isSome = true ↔ ∃ l : SignedLiteral, l.text = text)) ∧
    (∀ l : SignedLiteral, Fits l.rational → parse? l.text = some (ofRational l.rational)) ∧
    (∀ l : SignedLiteral, 2 ^ 64 ≤ |l.rational| → parse? l.text = some ⟨2 ^ 64 - 1, 1, l.negative⟩) ∧
    (∀ (r : Reader) (t : Token), r.next.1 = .ok t → t.kind = .number →
      ∃ raw, r.skipBlanks.rest = raw ++ r.next.2.rest ∧ NumberFrom raw t) ∧
    ∀ source ts, tokenize source = .ok ts → ∀ us ⊆ ts, ∀ e,
      parse us = .error e ∨ parseProgram us = .error e ∨ parseFragment us = .error e →
        ∀ literal, e.fault ≠ .badNumber literal := by
  refine ⟨fun text => ⟨NumberWords.parse_eq words text, parse_isSome_iff⟩, SignedLiteral.parse_exact, ?_,
    fun r t => next_number, ?_⟩
  · intro l beyond
    apply l.parse_saturates
    rw [bound_eq, Nat.cast_pow, Nat.cast_ofNat]
    exact beyond
  · intro source ts scanned us within e failed literal
    have readable : Readable us := fun t member => readable_of_tokenize scanned t (within member)
    rcases failed with failed | failed | failed
    · exact parse_ne_badNumber readable failed
    · exact parseProgram_ne_badNumber readable failed
    · exact parseFragment_ne_badNumber readable failed

def sampleHalf : SignedLiteral where
  negative := true
  whole := ['0']
  fraction := some ['5']
  wholeDigits := List.all_eq_true.mp (by decide)
  fractionDigits := by
    rintro _ ⟨⟩
    exact List.all_eq_true.mp (by decide)
  filled := List.cons_ne_nil _ _

/-- No bit of its denominator is left at 128 bits. -/
def sampleHuge : SignedLiteral where
  negative := true
  whole := '9' :: List.replicate 44 '9'
  fraction := some (List.replicate 120 '9')
  wholeDigits := List.all_eq_true.mp (by decide)
  fractionDigits := by
    rintro _ ⟨⟩
    exact List.all_eq_true.mp (by decide)
  filled := List.cons_ne_nil _ _

theorem sampleHuge_read :
    parse? "-0.5" = some ⟨1, 2, true⟩ ∧ parse? sampleHuge.text = some ⟨2 ^ 64 - 1, 1, true⟩ ∧
    (∃ l : SignedLiteral, l.text = "18446744073709551615.") ∧
    (∃ raw, " 1_000.50)".toList = [' '] ++ (raw ++ [')']) ∧ NumberFrom raw ⟨.number, "1000.5", ⟨1, 2⟩⟩) ∧
    ∃ ts e, tokenize "1_0 +" = .ok ts ∧ parseProgram ts = .error e ∧ ∀ literal, e.fault ≠ .badNumber literal := by
  obtain ⟨accepted, exactly, saturated, scanned, unfailing⟩ := literals_read_exactly NumberWords.computedWords
  refine ⟨?_, ?_, ?_, ?_, ?_⟩
  · have fits : Fits sampleHalf.rational := by decide +kernel
    have given : ofRational sampleHalf.rational = ⟨1, 2, true⟩ := by decide +kernel
    exact given ▸ exactly sampleHalf fits
  · exact saturated sampleHuge (by decide +kernel)
  · exact (accepted _).2.mp (by decide +kernel)
  · have read : (Reader.ofText " 1_000.50)").next.1 = .ok ⟨.number, "1000.5", ⟨1, 2⟩⟩ := by decide +kernel
    have left : (Reader.ofText " 1_000.50)").next.2.rest = [')'] := by decide +kernel
    have skipped : " 1_000.50)".toList = [' '] ++ (Reader.ofText " 1_000.50)").skipBlanks.rest := by decide +kernel
    obtain ⟨raw, split, made⟩ := scanned _ _ read rfl
    rw [left] at split
    exact ⟨raw, split ▸ skipped, made⟩
  · have read : tokenize "1_0 +" = .ok [⟨.number, "10", ⟨1, 1⟩⟩, ⟨.plus, "+", ⟨1, 5⟩⟩] := by decide +kernel
    have failed : ((parseProgram [⟨.number, "10", ⟨1, 1⟩⟩, ⟨.plus, "+", ⟨1, 5⟩⟩]).map fun _ => ()) =
        .error (Token.fault ⟨.plus, "+", ⟨1, 5⟩⟩ (.missingRightOperand .plus)) := by decide +kernel
    have failed := map_eq_error failed
    exact ⟨_, _, read, failed, unfailing _ _ read _ (List.Subset.refl _) _ (Or.inr (Or.inl failed))⟩

end Scriptlet.Proofs.LiteralReading
