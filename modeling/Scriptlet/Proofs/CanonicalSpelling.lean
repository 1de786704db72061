import Scriptlet.Proofs.CanonicalDecimal
import Scriptlet.Proofs.LiteralReading
import Mathlib.Data.List.DropRight

/-! The canonical spelling of a text, whether the text is a literal or not. To spell a text twice changes nothing more.
Two literals are spelled alike just if they denote the same rational and both or neither have a point, since digits
that are padded with zeros to one length are determined by their value. -/

namespace Scriptlet.Proofs.CanonicalSpelling
open Number DecimalValue CanonicalDecimal LiteralReading

/-- Digits and separators with at most one point among them. -/
structure IsLiteral (chars : List Char) : Prop where
  kinds : ∀ c ∈ chars, c.isDigit = true ∨ c = '_' ∨ c = '.'
  onePoint : chars.count '.' ≤ 1

private theorem isLiteral_iff {chars : List Char} : IsLiteral chars ↔
    chars.all (fun c => c.isDigit || c == '_' || c == '.') = true ∧ chars.count '.' ≤ 1 := by
  simp only [List.all_eq_true, Bool.or_eq_true, beq_iff_eq, or_assoc]
  exact ⟨fun literal => ⟨literal.kinds, literal.onePoint⟩, fun facts => ⟨facts.1, facts.2⟩⟩

instance (chars : List Char) : Decidable (IsLiteral chars) := decidable_of_iff _ isLiteral_iff.symm

/-- The rational that a literal denotes: the natural number of all its digits, divided by ten for each digit behind
the point. -/
def denoted (chars : List Char) : ℚ :=
  natural (chars.filter Char.isDigit) / 10 ^ ((chars.dropWhile (· != '.')).filter Char.isDigit).length

private theorem exists_pointed (chars : List Char) :
    ∃ whole fraction, '.' ∉ whole ∧ pointed whole fraction = chars := by
  have before : '.' ∉ chars.takeWhile (· != '.') := fun point => by simpa using List.mem_takeWhile_imp point
  have split : chars.takeWhile (· != '.') ++ chars.dropWhile (· != '.') = chars := List.takeWhile_append_dropWhile
  cases behind : chars.dropWhile (· != '.') with
  | nil =>
    rw [behind] at split
    exact ⟨_, none, before, split⟩
  | cons c side =>
    have stopped := List.head?_dropWhile_not (· != '.') chars
    rw [behind] at split stopped
    have point : c = '.' := by simpa using stopped
    subst point
    exact ⟨_, some side, before, split⟩

/-- What the canonical spelling makes of the digits in front of the point. -/
def trimmedFront (side : List Char) : List Char := orZero ((digitsOf side).dropWhile (· == '0'))

/-- What the canonical spelling makes of the digits behind the point. -/
def trimmedBack (side : List Char) : List Char := orZero (dropTrailing '0' (digitsOf side))

section Trimming
variable {c : Char} {side digits : List Char}

private theorem mem_orZero (member : c ∈ orZero digits) : c ∈ digits ∨ c = '0' := by
  rw [orZero] at member
  split at member
  · exact Or.inr (List.mem_singleton.mp member)
  · exact Or.inl member

private theorem mem_trimmedFront (member : c ∈ trimmedFront side) : c ∈ digitsOf side ∨ c = '0' :=
  (mem_orZero member).imp_left fun kept => (List.dropWhile_sublist _).subset kept

private theorem mem_trimmedBack (member : c ∈ trimmedBack side) : c ∈ digitsOf side ∨ c = '0' :=
  (mem_orZero member).imp_left fun kept =>
    List.mem_reverse.mp ((List.dropWhile_sublist _).subset (List.mem_reverse.mp kept))

/-- Where separators have been left out, there are none. -/
theorem digitsOf_trimmed {trimmed : List Char} (taken : ∀ c ∈ trimmed, c ∈ digitsOf side ∨ c = '0') :
    digitsOf trimmed = trimmed := by
  apply List.filter_eq_self.mpr
  intro c member
  rcases taken c member with kept | rfl
  · exact (List.mem_filter.mp kept).2
  · rfl

/-- Zeros that were put in the place of nothing are trimmed to nothing again. -/
theorem orZero_trim_again {trim : List Char → List Char} (zero : trim ['0'] = [])
    (again : trim (trim digits) = trim digits) : orZero (trim (orZero (trim digits))) = orZero (trim digits) := by
  by_cases nothing : trim digits = []
  · rw [nothing]
    exact congrArg orZero zero
  · rw [orZero_of_ne_nil nothing, again, orZero_of_ne_nil nothing]

private theorem trimmedFront_trimmedFront (side : List Char) :
    trimmedFront (trimmedFront side) = trimmedFront side := by
  rw [trimmedFront, digitsOf_trimmed fun c => mem_trimmedFront]
  exact orZero_trim_again rfl (List.dropWhile_idempotent _ _)

private theorem trimmedBack_trimmedBack (side : List Char) : trimmedBack (trimmedBack side) = trimmedBack side := by
  rw [trimmedBack, digitsOf_trimmed fun c => mem_trimmedBack]
  refine orZero_trim_again rfl ?_
  simp only [dropTrailing, List.reverse_reverse, List.dropWhile_idempotent]

private theorem point_not_mem_trimmedFront (pointless : '.' ∉ side) : '.' ∉ trimmedFront side := by
  intro point
  rcases mem_trimmedFront point with kept | zero
  · exact pointless (List.mem_filter.mp kept).1
  · cases zero

end Trimming

section Texts
variable {whole other : List Char} {fraction rest : Option (List Char)}

private theorem canonicalChars_sides (pointless : '.' ∉ whole) :
    canonicalChars (pointed whole fraction) = pointed (trimmedFront whole) (fraction.map trimmedBack) :=
  canonicalChars_pointed pointless

private theorem canonicalChars_twice (chars : List Char) :
    canonicalChars (canonicalChars chars) = canonicalChars chars := by
  obtain ⟨whole, fraction, pointless, rfl⟩ := exists_pointed chars
  have back : trimmedBack ∘ trimmedBack = trimmedBack := funext trimmedBack_trimmedBack
  rw [canonicalChars_sides pointless, canonicalChars_sides (point_not_mem_trimmedFront pointless),
    trimmedFront_trimmedFront, Option.map_map, back]

private theorem point_mem_pointed (pointless : '.' ∉ whole) :
    '.' ∈ pointed whole fraction ↔ fraction.isSome = true := by
  cases fraction <;> simp [pointed, pointless]

theorem IsLiteral.sides {chars : List Char} (literal : IsLiteral chars) : ∃ whole fraction,
    IsSide whole ∧ (∀ side ∈ fraction, IsSide side) ∧ pointed whole fraction = chars := by
  obtain ⟨whole, fraction, pointless, rfl⟩ := exists_pointed chars
  obtain ⟨kinds, onePoint⟩ := literal
  have side : ∀ side ⊆ pointed whole fraction, '.' ∉ side → IsSide side := by
    intro side within pointless c member
    rcases kinds c (within member) with digit | separator | rfl
    · exact Or.inl digit
    · exact Or.inr separator
    · exact absurd member pointless
  refine ⟨whole, fraction, side whole (List.subset_append_left _ _) pointless, ?_, rfl⟩
  rintro behind rfl
  apply side behind
  · intro c member
    exact List.mem_append_right _ (List.mem_cons_of_mem _ member)
  · apply List.count_eq_zero.mp
    simpa [pointed, List.count_eq_zero.mpr pointless] using onePoint

private theorem filter_isDigit {side : List Char} (isSide : IsSide side) :
    side.filter Char.isDigit = digitsOf side := by
  apply List.filter_congr
  intro c member
  rcases isSide c member with digit | rfl
  · rw [show c.isDigit = true from digit, Eq.comm, bne_iff_ne]
    exact (isDigit_ne digit).2.1
  · rfl

private theorem denoted_pointed (front : IsSide whole) (back : ∀ side ∈ fraction, IsSide side) :
    denoted (pointed whole fraction) = ofDigits (digitsOf whole) + behindPoint (digitsOf (fraction.getD [])) := by
  have before : ∀ c ∈ whole, (c != '.') = true := by
    intro c member
    rw [bne_iff_ne]
    rintro rfl
    exact front.pointless member
  have digits : (pointed whole fraction).filter Char.isDigit = digitsOf whole ++ digitsOf (fraction.getD []) ∧
      ((pointed whole fraction).dropWhile (· != '.')).filter Char.isDigit = digitsOf (fraction.getD []) := by
    cases fraction with
    | none => simp [pointed, filter_isDigit front, digitsOf, List.dropWhile_eq_nil_iff.mpr before]
    | some side =>
      have point : Char.isDigit '.' = false := rfl
      simp [pointed, filter_isDigit front, filter_isDigit (back side rfl), point,
        List.dropWhile_append_of_pos before]
  rw [denoted, digits.1, digits.2, ← ofDigits_eq_natural, ← ofDigits_point]
  push_cast
  rfl

private theorem isSide_trimmed {side trimmed : List Char} (isSide : IsSide side)
    (taken : ∀ c ∈ trimmed, c ∈ digitsOf side ∨ c = '0') : IsSide trimmed := by
  intro c member
  rcases taken c member with kept | rfl
  · exact Or.inl (digitsOf_isDigit isSide c kept)
  · exact Or.inl rfl

/-- The canonical spelling denotes what the literal denotes. -/
theorem denoted_canonicalChars {chars : List Char} (literal : IsLiteral chars) :
    denoted (canonicalChars chars) = denoted chars := by
  obtain ⟨whole, fraction, front, back, rfl⟩ := literal.sides
  have trimmedSides : ∀ side ∈ fraction.map trimmedBack, IsSide side := by
    intro trimmed member
    obtain ⟨side, given, rfl⟩ := Option.map_eq_some_iff.mp member
    exact isSide_trimmed (back side given) fun c => mem_trimmedBack
  have behind : behindPoint (digitsOf ((fraction.map trimmedBack).getD [])) =
      behindPoint (digitsOf (fraction.getD [])) := by
    cases fraction with
    | none => rfl
    | some side =>
      rw [Option.map_some, Option.getD_some, Option.getD_some, digitsOf_trimmed fun c => mem_trimmedBack, trimmedBack,
        behindPoint_orZero, behindPoint_dropTrailing]
  rw [canonicalChars_sides front.pointless, denoted_pointed front back,
    denoted_pointed (isSide_trimmed front fun c => mem_trimmedFront) trimmedSides, behind,
    digitsOf_trimmed fun c => mem_trimmedFront, trimmedFront, ofDigits_orZero, ofDigits_dropWhile_zero]

end Texts

/-- How much a digit counts where it stands alone. -/
def decimalDigit (c : Char) : Nat := c.toNat - '0'.toNat

private theorem isDigit_code {c : Char} (digit : isDigit c = true) : 48 ≤ c.toNat ∧ c.toNat ≤ 57 := by
  simp only [isDigit, Bool.and_eq_true, decide_eq_true_eq] at digit
  exact digit

private theorem map_decimalDigit_inj {first second : List Char} (digits : ∀ c ∈ first, isDigit c = true)
    (others : ∀ c ∈ second, isDigit c = true) (same : first.map decimalDigit = second.map decimalDigit) :
    first = second := by
  have restored : ∀ chars : List Char, (∀ c ∈ chars, isDigit c = true) →
      (chars.map decimalDigit).map (fun n => Char.ofNat (n + 48)) = chars := by
    intro chars all
    have each : ∀ c ∈ chars, ((fun n => Char.ofNat (n + 48)) ∘ decimalDigit) c = id c := by
      intro c member
      change Char.ofNat (c.toNat - 48 + 48) = c
      rw [Nat.sub_add_cancel (isDigit_code (all c member)).1, Char.ofNat_toNat]
    rw [List.map_map, List.map_congr_left each, List.map_id]
  rw [← restored first digits, same, restored second others]

section Padding
variable {first second : List Char}

private theorem eq_of_ofDigits_eq (digits : ∀ c ∈ first, isDigit c = true) (others : ∀ c ∈ second, isDigit c = true)
    (length : first.length = second.length) (same : ofDigits first = ofDigits second) : first = second := by
  have small : ∀ chars : List Char, (∀ c ∈ chars, isDigit c = true) → ∀ n ∈ (chars.map decimalDigit).reverse, n < 10 := by
    intro chars all n member
    obtain ⟨c, inside, rfl⟩ := List.mem_map.mp (List.mem_reverse.mp member)
    have code := isDigit_code (all c inside)
    rw [decimalDigit, show '0'.toNat = 48 from rfl]
    omega
  rw [ofDigits_eq_natural, ofDigits_eq_natural] at same
  have turned := Nat.ofDigits_inj_of_len_eq (by decide) (by simpa using length) (small first digits)
    (small second others) same
  exact map_decimalDigit_inj digits others (List.reverse_injective turned)

def zeros (n : Nat) : List Char := List.replicate n '0'

private theorem ofDigits_zeros_append (n : Nat) (digits : List Char) :
    ofDigits (zeros n ++ digits) = ofDigits digits := by
  induction n with
  | zero => rfl
  | succ n ih => rw [zeros, List.replicate_succ, List.cons_append, ofDigits_cons_zero, ← ih, zeros]

private theorem ofDigits_append_zeros (digits : List Char) (n : Nat) :
    ofDigits (digits ++ zeros n) = ofDigits digits * 10 ^ n := by
  have nothing := ofDigits_zeros_append n []
  rw [List.append_nil] at nothing
  rw [ofDigits_append, nothing, zeros, List.length_replicate]
  rfl

private theorem dropWhile_zeros_append (n : Nat) (digits : List Char) :
    (zeros n ++ digits).dropWhile (· == '0') = digits.dropWhile (· == '0') :=
  List.dropWhile_append_of_pos fun c member => by simp [List.eq_of_mem_replicate member]

private theorem dropTrailing_append_zeros (digits : List Char) (n : Nat) :
    dropTrailing '0' (digits ++ zeros n) = dropTrailing '0' digits := by
  rw [dropTrailing, List.reverse_append, zeros, List.reverse_replicate]
  exact congrArg List.reverse (dropWhile_zeros_append n digits.reverse)

private theorem isDigit_padded {m n : Nat} (digits : ∀ c ∈ first, isDigit c = true)
    (others : ∀ c ∈ second, isDigit c = true) :
    ∀ c ∈ (zeros m ++ first) ++ (second ++ zeros n), isDigit c = true := by
  intro c member
  simp only [List.mem_append, zeros, List.mem_replicate] at member
  rcases member with (⟨_, rfl⟩ | inside) | (inside | ⟨_, rfl⟩)
  · rfl
  · exact digits c inside
  · exact others c inside
  · rfl

end Padding

/-- Digits around a point are determined by their value, up to zeros at both ends: padded to one length on both sides
of the point, they are equal. -/
theorem trimmed_eq_of_value_eq {whole fraction other rest : List Char} (front : ∀ c ∈ whole, isDigit c = true)
    (back : ∀ c ∈ fraction, isDigit c = true) (otherFront : ∀ c ∈ other, isDigit c = true)
    (otherBack : ∀ c ∈ rest, isDigit c = true)
    (same : (ofDigits whole : ℚ) + behindPoint fraction = ofDigits other + behindPoint rest) :
    whole.dropWhile (· == '0') = other.dropWhile (· == '0') ∧ dropTrailing '0' fraction = dropTrailing '0' rest := by
  rw [← ofDigits_point, ← ofDigits_point, div_eq_div_iff (by positivity) (by positivity)] at same
  have scaled : ofDigits (whole ++ fraction) * 10 ^ rest.length = ofDigits (other ++ rest) * 10 ^ fraction.length := by
    exact_mod_cast same
  have lengths : (zeros other.length ++ whole).length = (zeros whole.length ++ other).length := by
    simp only [zeros, List.length_append, List.length_replicate]
    omega
  have equal : (zeros other.length ++ whole) ++ (fraction ++ zeros rest.length) =
      (zeros whole.length ++ other) ++ (rest ++ zeros fraction.length) := by
    apply eq_of_ofDigits_eq (isDigit_padded front back) (isDigit_padded otherFront otherBack)
    · simp only [zeros, List.length_append, List.length_replicate]
      omega
    · simp only [List.append_assoc, ofDigits_zeros_append]
      rw [← List.append_assoc, ← List.append_assoc, ofDigits_append_zeros, ofDigits_append_zeros, scaled]
  obtain ⟨wholes, fractions⟩ := List.append_inj equal lengths
  constructor
  · rw [← dropWhile_zeros_append other.length whole, wholes, dropWhile_zeros_append]
  · rw [← dropTrailing_append_zeros fraction rest.length, fractions, dropTrailing_append_zeros]

section Spelling
variable {chars others : List Char}

private theorem point_mem_canonicalChars (chars : List Char) : '.' ∈ canonicalChars chars ↔ '.' ∈ chars := by
  obtain ⟨whole, fraction, pointless, rfl⟩ := exists_pointed chars
  rw [canonicalChars_sides pointless, point_mem_pointed (point_not_mem_trimmedFront pointless),
    point_mem_pointed pointless, Option.isSome_map]

private theorem canonicalChars_isCanonical (literal : IsLiteral chars) : IsCanonical (canonicalChars chars) := by
  obtain ⟨whole, fraction, front, back, rfl⟩ := literal.sides
  have whole := isWhole_orZero (digitsOf_isDigit front)
  rw [canonicalChars_sides front.pointless]
  cases fraction with
  | none =>
    rw [Option.map_none, pointed, List.append_nil]
    exact .integer whole
  | some side => exact .pointed whole (isFraction_orZero (digitsOf_isDigit (back side rfl)))

private theorem canonicalChars_eq_of_denoted (literal : IsLiteral chars) (literal' : IsLiteral others)
    (same : denoted chars = denoted others) (points : '.' ∈ chars ↔ '.' ∈ others) :
    canonicalChars chars = canonicalChars others := by
  obtain ⟨whole, fraction, front, back, rfl⟩ := literal.sides
  obtain ⟨other, rest, front', back', rfl⟩ := literal'.sides
  rw [denoted_pointed front back, denoted_pointed front' back'] at same
  rw [point_mem_pointed front.pointless, point_mem_pointed front'.pointless] at points
  have sides : ∀ fraction : Option (List Char), (∀ side ∈ fraction, IsSide side) →
      ∀ c ∈ digitsOf (fraction.getD []), isDigit c = true := by
    intro fraction back
    cases fraction with
    | none => simp [digitsOf]
    | some side => exact digitsOf_isDigit (back side rfl)
  obtain ⟨wholes, fractions⟩ := trimmed_eq_of_value_eq (digitsOf_isDigit front) (sides fraction back)
    (digitsOf_isDigit front') (sides rest back') same
  rw [canonicalChars_sides front.pointless, canonicalChars_sides front'.pointless, trimmedFront, wholes]
  cases fraction with
  | none =>
    cases rest with
    | none => rfl
    | some => simp at points
  | some side =>
    cases rest with
    | none => simp at points
    | some behind =>
      rw [Option.map_some, Option.map_some, trimmedBack, show dropTrailing '0' (digitsOf side) = _ from fractions]
      rfl

end Spelling

/-- Canonical spellings of texts. Spelling any text twice is spelling it once. Two literals have one spelling just if
they denote the same rational and both or neither have a point. The spelling of a literal has a digit on each side of a
point, no zero in front of other digits and no zero behind others in the fraction. -/
theorem canonical_spelling_unique :
    (∀ text : String, canonical (canonical text) = canonical text) ∧
    (∀ text other : String, IsLiteral text.toList → IsLiteral other.toList →
      (canonical text = canonical other ↔
        denoted text.toList = denoted other.toList ∧ ('.' ∈ text.toList ↔ '.' ∈ other.toList))) ∧
    ∀ text : String, IsLiteral text.toList → IsCanonical (canonical text).toList := by
  refine ⟨?_, ?_, ?_⟩
  · intro text
    rw [canonical, canonical, String.toList_ofList, canonicalChars_twice]
  · intro text other literal literal'
    constructor
    · intro same
      have chars := String.ofList_injective same
      constructor
      · rw [← denoted_canonicalChars literal, chars, denoted_canonicalChars literal']
      · rw [← point_mem_canonicalChars, chars, point_mem_canonicalChars]
    · rintro ⟨same, points⟩
      exact congrArg String.ofList (canonicalChars_eq_of_denoted literal literal' same points)
  · intro text literal
    rw [canonical, String.toList_ofList]
    exact canonicalChars_isCanonical literal

theorem sampleLiterals_spelled_alike :
    IsLiteral "0_012.50".toList ∧ IsLiteral "12._5".toList ∧ canonical "0_012.50" = canonical "12._5" ∧
      denoted "0_012.50".toList = denoted "12._5".toList ∧ IsCanonical (canonical "0_012.50").toList := by
  have first : IsLiteral "0_012.50".toList := by decide +kernel
  have second : IsLiteral "12._5".toList := by decide +kernel
  have alike : canonical "0_012.50" = canonical "12._5" := by decide +kernel
  obtain ⟨_, determined, formed⟩ := canonical_spelling_unique
  exact ⟨first, second, alike, ((determined _ _ first second).mp alike).1, formed _ first⟩

end Scriptlet.Proofs.CanonicalSpelling
