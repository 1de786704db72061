import Scriptlet.Proofs.NumberInvariant
import Mathlib.Data.Rat.Lemmas
import Mathlib.Algebra.Order.Field.Rat
import Mathlib.Data.Nat.Cast.Field
import Mathlib.Tactic.FieldSimp
import Mathlib.Tactic.Linarith
import Mathlib.Tactic.Positivity
import Mathlib.Tactic.Ring

/-! The rational behind a number, and where arithmetic is exact: wherever the exact result has a
number of its own. The shift before a sum is the one step that could spoil this, and it is shown to
be taken only where the sum has no number anyway. -/

namespace Scriptlet.Proofs.NumberValue
open Number NumberInvariant

def signed (negative : Bool) (magnitude : ℚ) : ℚ := if negative then -magnitude else magnitude

/-- The rational that a number stands for. -/
def value (n : Number) : ℚ := signed n.negative (n.num / n.denominator)

/-- Both sides of the lowest terms are within the bound, so there is a number for the rational. -/
def Fits (q : ℚ) : Prop := q.num.natAbs < bound ∧ q.den < bound

instance : DecidablePred Fits := fun q => inferInstanceAs (Decidable (q.num.natAbs < bound ∧ q.den < bound))

theorem signed_fits {negative : Bool} {q : ℚ} : Fits (signed negative q) ↔ Fits q := by
  cases negative <;> simp [signed, Fits]

private theorem signed_not (negative : Bool) (q : ℚ) : signed (!negative) q = -signed negative q := by
  cases negative <;> simp [signed]

theorem signed_zero (negative : Bool) : signed negative 0 = 0 := by
  cases negative <;> simp [signed]

theorem signed_add (negative : Bool) (p q : ℚ) :
    signed negative p + signed negative q = signed negative (p + q) := by
  cases negative
  · rfl
  · exact (neg_add p q).symm

theorem signed_add_not (negative : Bool) (p q : ℚ) :
    signed negative p + signed (!negative) q = signed negative (p - q) := by
  rw [signed_not, sub_eq_add_neg, ← signed_add]
  cases negative <;> rfl

theorem abs_signed (negative : Bool) (q : ℚ) : |signed negative q| = |q| := by
  cases negative <;> simp [signed]

private theorem coprime_terms {p q : Nat} (positive : 0 < q) (lowest : p.Coprime q) :
    ((p : ℚ) / q).num = p ∧ ((p : ℚ) / q).den = q := by
  have above : (0 : ℤ) < q := by exact_mod_cast positive
  have num := Rat.num_div_eq_of_coprime (a := p) above (by simpa using lowest)
  have den := Rat.den_div_eq_of_coprime (a := p) above (by simpa using lowest)
  simp only [Int.cast_natCast] at num den
  exact ⟨num, by exact_mod_cast den⟩

theorem div_gcd_div_gcd (num : Nat) {den : Nat} (positive : 0 < den) :
    ((num / num.gcd den : Nat) : ℚ) / ((den / num.gcd den : Nat) : ℚ) = num / den := by
  have common : (num.gcd den : ℚ) ≠ 0 := by
    exact_mod_cast Nat.ne_of_gt (Nat.gcd_pos_of_pos_right num positive)
  rw [Nat.cast_div_charZero (Nat.gcd_dvd_left num den), Nat.cast_div_charZero (Nat.gcd_dvd_right num den)]
  field_simp

/-- Dividing both sides by their greatest common divisor gives the lowest terms. -/
theorem lowest_terms (num : Nat) {den : Nat} (positive : 0 < den) :
    ((num : ℚ) / den).num.natAbs = num / num.gcd den ∧ ((num : ℚ) / den).den = den / num.gcd den := by
  have common : 0 < num.gcd den := Nat.gcd_pos_of_pos_right num positive
  have denPositive : 0 < den / num.gcd den := Nat.div_gcd_pos_of_pos_right num positive
  obtain ⟨numTerm, denTerm⟩ := coprime_terms denPositive (Nat.coprime_div_gcd_div_gcd common)
  rw [div_gcd_div_gcd num positive] at numTerm denTerm
  exact ⟨by rw [numTerm, Int.natAbs_natCast], denTerm⟩

private theorem clamp_value {num den : Nat} (negative : Bool) (positive : 0 < den)
    (fits : Fits ((num : ℚ) / den)) : value (clamp num den negative) = signed negative (num / den) := by
  obtain ⟨numLowest, denLowest⟩ := lowest_terms num positive
  simp only [Fits, numLowest, denLowest] at fits
  simp only [clamp]
  split
  next none =>
    simp [value, zero, none, signed_zero]
  next some =>
    have common : 0 < num.gcd den := Nat.gcd_pos_of_pos_right num positive
    have numPositive : num / num.gcd den ≠ 0 :=
      Nat.ne_of_gt (Nat.div_gcd_pos_of_pos_left den (Nat.pos_of_ne_zero some))
    have denPositive : 0 < den / num.gcd den := Nat.div_gcd_pos_of_pos_right num positive
    rw [Nat.max_eq_left positive, squeeze_of_fits negative numPositive
      (Nat.coprime_div_gcd_div_gcd common) fits.1 fits.2]
    simp only [value, denominator, Nat.max_eq_left denPositive]
    rw [div_gcd_div_gcd num positive]

theorem value_lowest {n : Number} (valid : Valid n) :
    (value n).num.natAbs = n.num ∧ (value n).den = n.denominator := by
  obtain ⟨numLowest, denLowest⟩ := lowest_terms n.num (denominator_pos n)
  rw [valid.lowest.gcd_eq_one, Nat.div_one] at numLowest denLowest
  simp only [value, signed]
  split <;> simp [numLowest, denLowest]

theorem value_fits {n : Number} (valid : Valid n) : Fits (value n) := by
  obtain ⟨numLowest, denLowest⟩ := value_lowest valid
  exact ⟨numLowest ▸ valid.num_lt, denLowest ▸ valid.denominator_lt⟩

theorem abs_value (n : Number) : |value n| = n.num / n.denominator := by
  rw [value, abs_signed, abs_of_nonneg (by positivity)]

theorem value_eq_zero {n : Number} : value n = 0 ↔ n.num = 0 := by
  have : (n.denominator : ℚ) ≠ 0 := by exact_mod_cast Nat.ne_of_gt (denominator_pos n)
  rw [← abs_eq_zero, abs_value, div_eq_zero_iff]
  simp [this]

variable {a b : Number}

theorem align_den_eq_lcm (a b : Number) : (align a b).den = a.denominator.lcm b.denominator := by
  simp only [align]
  rw [Nat.div_mul_right_comm (Nat.gcd_dvd_left ..)]
  rfl

theorem align_den_pos (a b : Number) : 0 < (align a b).den := by
  rw [align_den_eq_lcm]
  exact Nat.lcm_pos (denominator_pos a) (denominator_pos b)

theorem align_left_eq (a b : Number) :
    (align a b).left = a.num * (a.denominator.lcm b.denominator / a.denominator) := by
  rw [← align_den_eq_lcm]
  rfl

theorem align_right_eq (a b : Number) :
    (align a b).right = b.num * (a.denominator.lcm b.denominator / b.denominator) := by
  rw [← align_den_eq_lcm]
  rfl

theorem align_swap (a b : Number) : (align a b).right = (align b a).left := by
  rw [align_right_eq, align_left_eq, Nat.lcm_comm]

private theorem scaled_eq {num den scale : Nat} (positive : 0 < den) (scalePositive : 0 < scale)
    (divides : den ∣ scale) : ((num * (scale / den) : Nat) : ℚ) / scale = num / den := by
  have denNonzero : (den : ℚ) ≠ 0 := by exact_mod_cast Nat.ne_of_gt positive
  have scaleNonzero : (scale : ℚ) ≠ 0 := by exact_mod_cast Nat.ne_of_gt scalePositive
  rw [Nat.cast_mul, Nat.cast_div_charZero divides]
  field_simp

theorem align_left_value (a b : Number) :
    ((align a b).left : ℚ) / (align a b).den = a.num / a.denominator := by
  have positive := align_den_pos a b
  rw [align_den_eq_lcm] at positive
  rw [align_left_eq, align_den_eq_lcm]
  exact scaled_eq (denominator_pos a) positive (Nat.dvd_lcm_left ..)

theorem align_right_value (a b : Number) :
    ((align a b).right : ℚ) / (align a b).den = b.num / b.denominator := by
  have positive := align_den_pos a b
  rw [align_den_eq_lcm] at positive
  rw [align_right_eq, align_den_eq_lcm]
  exact scaled_eq (denominator_pos b) positive (Nat.dvd_lcm_right ..)

private theorem lcm_div_left {p : Nat} (q : Nat) (positive : 0 < p) : p.lcm q / p = q / p.gcd q := by
  rw [Nat.lcm_eq_mul_div, Nat.mul_div_assoc p (Nat.gcd_dvd_right p q), Nat.mul_div_cancel_left _ positive]

/-- A numerator that grows past 127 bits is large itself, and so is the other denominator, which then
shares no factor with its own. -/
theorem large_parts (left : Valid a) (right : Valid b) (large : 2 ^ 127 ≤ (align a b).left) :
    2 ^ 63 ≤ a.num ∧ 2 ^ 63 ≤ b.denominator ∧ a.denominator.Coprime b.denominator := by
  have numLt := left.num_lt
  have denLt := right.denominator_lt
  rw [align_left_eq, lcm_div_left _ (denominator_pos a)] at large
  have common : 0 < a.denominator.gcd b.denominator := Nat.gcd_pos_of_pos_left _ (denominator_pos a)
  have split : b.denominator / a.denominator.gcd b.denominator * a.denominator.gcd b.denominator =
      b.denominator := Nat.div_mul_cancel (Nat.gcd_dvd_right ..)
  generalize b.denominator / a.denominator.gcd b.denominator = factor at *
  simp only [bound_eq] at numLt denLt
  have factorLe : factor ≤ b.denominator := by
    rw [← split]
    exact Nat.le_mul_of_pos_right factor common
  have numLarge : 2 ^ 63 ≤ a.num := by
    by_contra small
    have : a.num * factor ≤ (2 ^ 63 - 1) * (2 ^ 64 - 1) :=
      Nat.mul_le_mul (by omega) (by omega)
    omega
  have factorLarge : 2 ^ 63 ≤ factor := by
    by_contra small
    have : a.num * factor ≤ (2 ^ 64 - 1) * (2 ^ 63 - 1) :=
      Nat.mul_le_mul (by omega) (by omega)
    omega
  refine ⟨numLarge, Nat.le_trans factorLarge factorLe, ?_⟩
  by_contra shared
  have two : 2 ≤ a.denominator.gcd b.denominator := by
    rw [Nat.Coprime] at shared
    omega
  have : factor * 2 ≤ b.denominator := by
    rw [← split]
    exact Nat.mul_le_mul_left factor two
  omega

/-- With a denominator of 63 bits or more, what fits is small. -/
theorem Fits.abs_lt_two {q : ℚ} (fits : Fits q) (large : 2 ^ 63 ≤ q.den) : |q| < 2 := by
  rw [← Rat.num_div_den q, abs_div, Nat.abs_cast, div_lt_iff₀ (by exact_mod_cast q.den_pos)]
  have numLt : |(q.num : ℚ)| < 2 ^ 64 := by
    rw [← Int.cast_abs, Int.abs_eq_natAbs]
    exact_mod_cast fits.1
  have denGe : (2 ^ 63 : ℚ) ≤ q.den := by exact_mod_cast large
  linarith

/-- Nothing cancels in the denominator of a sum if those of the operands share no factor. -/
theorem denominators_dvd_sum (left : Valid a) (right : Valid b) (coprime : a.denominator.Coprime b.denominator) :
    a.denominator * b.denominator ∣ (value a + value b).den := by
  have leftDen := (value_lowest left).2
  have rightDen := (value_lowest right).2
  have leftDivides : a.denominator ∣ (value a + value b).den := by
    have divides := Rat.sub_den_dvd (value a + value b) (value b)
    rw [add_sub_cancel_right, leftDen, rightDen] at divides
    exact coprime.dvd_of_dvd_mul_right divides
  have rightDivides : b.denominator ∣ (value a + value b).den := by
    have divides := Rat.sub_den_dvd (value a + value b) (value a)
    rw [add_sub_cancel_left, leftDen, rightDen] at divides
    exact coprime.symm.dvd_of_dvd_mul_right divides
  exact coprime.mul_dvd_of_dvd_of_dvd leftDivides rightDivides

/-- Where the shift before a sum is taken, the sum has no number: its denominator would have to be a
multiple of both denominators, which leaves room for no more than a small sum. -/
theorem sum_not_fits (left : Valid a) (right : Valid b) (large : 2 ^ 127 ≤ (align a b).left) :
    ¬Fits (value a + value b) := by
  obtain ⟨numLarge, denLarge, coprime⟩ := large_parts left right large
  intro fits
  have productLe := Nat.le_of_dvd (value a + value b).den_pos (denominators_dvd_sum left right coprime)
  have denLe : b.denominator ≤ (value a + value b).den :=
    Nat.le_trans (Nat.le_mul_of_pos_left _ (denominator_pos a)) productLe
  have whole : a.denominator = 1 := by
    have positive := denominator_pos a
    have sumDen := fits.2
    by_contra more
    have : 2 * 2 ^ 63 ≤ a.denominator * b.denominator := Nat.mul_le_mul (by omega) denLarge
    simp only [bound_eq] at sumDen
    omega
  -- The sum and one operand are below two, but the other operand is at least `2 ^ 63`.
  have sumSmall := fits.abs_lt_two (Nat.le_trans denLarge denLe)
  have rightSmall := (value_fits right).abs_lt_two ((value_lowest right).2 ▸ denLarge)
  have leftLarge : 2 ^ 63 ≤ |value a| := by
    rw [abs_value, whole, Nat.cast_one, div_one]
    exact_mod_cast numLarge
  have apart : |value a| ≤ |value a + value b| + |value b| := by
    simpa using abs_sub (value a + value b) (value b)
  linarith

theorem withRoom_of_fits (left : Valid a) (right : Valid b) (fits : Fits (value a + value b)) :
    (align a b).withRoom = align a b := by
  rw [withRoom_eq, if_neg]
  rintro (large | large)
  · exact sum_not_fits left right large fits
  · rw [align_swap] at large
    rw [add_comm] at fits
    exact sum_not_fits right left large fits

theorem add_value (left : Valid a) (right : Valid b) (fits : Fits (value a + value b)) :
    value (a + b) = value a + value b := by
  change value (a.add b) = _
  have positive := align_den_pos a b
  have first := align_left_value a b
  have second := align_right_value a b
  simp only [Number.add, withRoom_of_fits left right fits]
  generalize align a b = parts at *
  have total : value a + value b = signed a.negative (parts.left / parts.den) +
      signed b.negative (parts.right / parts.den) := by
    simp only [value, first, second]
  rw [total] at fits ⊢
  split
  next same =>
    rw [← same, signed_add, ← add_div, ← Nat.cast_add] at fits ⊢
    exact clamp_value _ positive (signed_fits.mp fits)
  next opposite =>
    have flipped : b.negative = !a.negative := by
      cases left : a.negative <;> cases right : b.negative <;> simp_all
    split
    next le =>
      rw [flipped, signed_add_not, ← sub_div, ← Nat.cast_sub le] at fits ⊢
      exact clamp_value _ positive (signed_fits.mp fits)
    next less =>
      have back : a.negative = !b.negative := by rw [flipped, Bool.not_not]
      rw [back, add_comm, signed_add_not, ← sub_div, ← Nat.cast_sub (Nat.le_of_not_le less)] at fits ⊢
      exact clamp_value _ positive (signed_fits.mp fits)

theorem neg_value (n : Number) : value (-n) = -value n := by
  change value n.neg = _
  simp only [neg, isZero, beq_iff_eq]
  split
  next none =>
    rw [value_eq_zero.mpr none, neg_zero]
  · exact signed_not ..

theorem sub_value (left : Valid a) (right : Valid b) (fits : Fits (value a - value b)) :
    value (a - b) = value a - value b := by
  rw [sub_eq_add_neg, ← neg_value] at fits ⊢
  exact add_value left (neg_valid right) fits

private theorem signed_mul (first second : Bool) (p q : ℚ) :
    signed first p * signed second q = signed (first != second) (p * q) := by
  cases first <;> cases second <;> simp [signed]

theorem product_eq (a b : Number) : value a * value b = signed (a.negative != b.negative)
    ((a.num * b.num : Nat) / (a.denominator * b.denominator : Nat)) := by
  rw [value, value, signed_mul, div_mul_div_comm, Nat.cast_mul, Nat.cast_mul]

theorem quotient_eq (a b : Number) : value a / value b = signed (a.negative != b.negative)
    ((a.num * b.denominator : Nat) / (a.denominator * b.num : Nat)) := by
  rw [value, value, Nat.cast_mul, Nat.cast_mul, ← div_div_div_eq]
  cases a.negative <;> cases b.negative <;> simp [signed, neg_div, div_neg]

theorem mul_value (fits : Fits (value a * value b)) : value (a * b) = value a * value b := by
  rw [product_eq] at fits ⊢
  exact clamp_value _ (Nat.mul_pos (denominator_pos a) (denominator_pos b)) (signed_fits.mp fits)

theorem div_value (some : b.num ≠ 0) (fits : Fits (value a / value b)) :
    ∃ n, a.div? b = Option.some n ∧ value n = value a / value b := by
  refine ⟨_, if_neg (by simpa [isZero] using some), ?_⟩
  rw [quotient_eq] at fits ⊢
  exact clamp_value _ (Nat.mul_pos (denominator_pos a) (Nat.pos_of_ne_zero some)) (signed_fits.mp fits)

theorem ofMagnitude_value {num den : Nat} (negative : Bool) (positive : 0 < den)
    (fits : Fits ((num : ℚ) / den)) :
    value (ofMagnitude num den negative) = signed negative (num / den) := by
  obtain ⟨numLowest, denLowest⟩ := lowest_terms num positive
  have denPositive : 0 < den / num.gcd den := Nat.div_gcd_pos_of_pos_right num positive
  have word : bound ≤ 2 ^ 128 := by decide
  have unshifted : excess 128 (num / num.gcd den) (den / num.gcd den) = 0 :=
    excess_eq_zero (by decide) (Nat.lt_of_lt_of_le (numLowest ▸ fits.1) word)
      (Nat.lt_of_lt_of_le (denLowest ▸ fits.2) word)
  simp only [ofMagnitude, reduce, unshifted, Nat.shiftRight_zero]
  rw [← div_gcd_div_gcd num positive] at fits ⊢
  exact clamp_value negative denPositive fits

end Scriptlet.Proofs.NumberValue
