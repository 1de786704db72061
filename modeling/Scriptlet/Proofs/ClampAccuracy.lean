import Scriptlet.Proofs.NumberOrder

/-! How far a clamped number is from the exact one. A shift cuts both sides of a fraction, and each side loses less than
one half of itself as long as something is left of it. So the quotient is wrong by less than a factor of two, unless
the denominator would be lost, where the number saturates, or the numerator is, where it vanishes. -/

namespace Scriptlet.Proofs.ClampAccuracy
open Number NumberInvariant NumberValue

/-- The number stands for an exact magnitude above zero, with the given sign. -/
structure Approximates (n : Number) (negative : Bool) (exact : ℚ) : Prop where
  lt_twice : |value n| < 2 * exact
  half_lt : |value n| ≠ 0 → |value n| ≠ 2 ^ 64 - 1 → exact / 2 < |value n|
  vanishes : |value n| = 0 → exact < 1 / 2 ^ 63
  sign : |value n| ≠ 0 → n.negative = negative

/-- The number stands for an exact rational: zero for zero, and for any other one as its magnitude and its sign say. -/
structure StandsFor (n : Number) (exact : ℚ) : Prop where
  zero : exact = 0 → value n = 0
  nonzero : exact ≠ 0 → Approximates n (decide (exact < 0)) |exact|

section Cuts
variable {num den shift : Nat}

private theorem shiftRight_mul_le (n shift : Nat) : (n >>> shift) * 2 ^ shift ≤ n := by
  rw [Nat.shiftRight_eq_div_pow]
  exact Nat.div_mul_le_self n (2 ^ shift)

private theorem lt_shiftRight_succ_mul (n shift : Nat) : n < (n >>> shift + 1) * 2 ^ shift := by
  rw [Nat.shiftRight_eq_div_pow, Nat.mul_comm]
  exact Nat.lt_mul_div_succ n (Nat.two_pow_pos shift)

/-- What is left of a number is more than one half of it. -/
theorem lt_twice_shiftRight {n : Nat} (left : 0 < n >>> shift) : n < 2 * (n >>> shift) * 2 ^ shift :=
  Nat.lt_of_lt_of_le (lt_shiftRight_succ_mul n shift) (Nat.mul_le_mul_right _ (by omega))

/-- A quotient that is cut on both sides is below twice the quotient, here without the divisions. The other bound is
the same with the two sides exchanged. -/
theorem cut_lt_twice (numLeft : 0 < num >>> shift) (denLeft : 0 < den >>> shift) :
    (num >>> shift) * den < 2 * num * (den >>> shift) := by
  calc (num >>> shift) * den
      < (num >>> shift) * (2 * (den >>> shift) * 2 ^ shift) :=
        Nat.mul_lt_mul_of_pos_left (lt_twice_shiftRight denLeft) numLeft
    _ = 2 * ((num >>> shift) * 2 ^ shift) * (den >>> shift) := by ring
    _ ≤ 2 * num * (den >>> shift) :=
        Nat.mul_le_mul_right _ (Nat.mul_le_mul_left 2 (shiftRight_mul_le num shift))

private theorem cut_quotient_bounds (numLeft : 0 < num >>> shift) (denLeft : 0 < den >>> shift) :
    ((num >>> shift : Nat) : ℚ) / (den >>> shift : Nat) < 2 * (num / den) ∧
    (num / den : ℚ) / 2 < ((num >>> shift : Nat) : ℚ) / (den >>> shift : Nat) := by
  have upper := cut_lt_twice numLeft denLeft
  have lower := cut_lt_twice denLeft numLeft
  have denPositive : (0 : ℚ) < den := by
    exact_mod_cast Nat.lt_of_lt_of_le denLeft (Nat.shiftRight_le den shift)
  have leftPositive : (0 : ℚ) < (den >>> shift : Nat) := by exact_mod_cast denLeft
  constructor
  · rw [mul_div_assoc', div_lt_div_iff₀ leftPositive denPositive]
    exact_mod_cast upper
  · rw [div_div, div_lt_div_iff₀ (by positivity) leftPositive]
    rw [Nat.mul_comm] at lower
    have exchanged : num * (den >>> shift) < (num >>> shift) * (den * 2) := by
      calc num * (den >>> shift) < 2 * den * (num >>> shift) := lower
        _ = (num >>> shift) * (den * 2) := by ring
    exact_mod_cast exchanged

/-- Where the denominator would be lost, the magnitude is above one half of the bound. -/
theorem large_of_lost (lost : den.log2 < excess 64 num den) : 2 ^ 63 * den < num := by
  simp only [excess] at lost
  have bits : den.log2 + 64 ≤ num.log2 := by omega
  have some : num ≠ 0 := by
    rintro rfl
    simp at bits
  calc 2 ^ 63 * den < 2 ^ 63 * 2 ^ (den.log2 + 1) := Nat.mul_lt_mul_of_pos_left Nat.lt_log2_self (by decide)
    _ = 2 ^ (den.log2 + 64) := by ring
    _ ≤ num := (Nat.le_log2 some).mp bits

/-- Where nothing is left of the numerator, the denominator has all the bits. -/
theorem small_of_vanished (numPos : 0 < num) (vanished : num >>> excess 64 num den = 0) : 2 ^ 63 * num < den := by
  have short : num < 2 ^ excess 64 num den := by
    have next := lt_shiftRight_succ_mul num (excess 64 num den)
    rwa [vanished, Nat.zero_add, Nat.one_mul] at next
  have numBits : num.log2 < excess 64 num den := (Nat.log2_lt (Nat.ne_of_gt numPos)).mpr short
  have bits : 63 + excess 64 num den = den.log2 := by
    simp only [excess] at numBits ⊢
    omega
  have denSome : den ≠ 0 := by
    rintro rfl
    simp at bits
  calc 2 ^ 63 * num < 2 ^ 63 * 2 ^ excess 64 num den := Nat.mul_lt_mul_of_pos_left short (by decide)
    _ = 2 ^ den.log2 := by rw [← Nat.pow_add, bits]
    _ ≤ den := Nat.log2_self_le denSome

end Cuts

section Clamp
variable {num den : Nat} {negative : Bool}

private theorem saturated_approximates (denPos : 0 < den) (lost : den.log2 < excess 64 num den) :
    Approximates ⟨bound - 1, 1, negative⟩ negative (num / den) := by
  have magnitude : |value ⟨bound - 1, 1, negative⟩| = 2 ^ 64 - 1 := by
    rw [abs_value, denominator_eq Nat.one_pos]
    norm_num [bound_eq]
  have above : (2 ^ 63 : ℚ) < num / den := by
    rw [lt_div_iff₀ (by exact_mod_cast denPos)]
    exact_mod_cast large_of_lost lost
  refine ⟨?_, fun _ full => absurd magnitude full, fun none => ?_, fun _ => rfl⟩
  · rw [magnitude]
    linarith
  · rw [magnitude] at none
    norm_num at none

private theorem vanished_approximates (numPos : 0 < num) (vanished : num >>> excess 64 num den = 0) :
    Approximates Number.zero negative (num / den) := by
  have magnitude : |value Number.zero| = 0 := by simp [value, signed, Number.zero]
  have less := small_of_vanished numPos vanished
  have positive : (0 : ℚ) < den := by exact_mod_cast Nat.lt_of_le_of_lt (Nat.zero_le _) less
  have numPositive : (0 : ℚ) < num := by exact_mod_cast numPos
  refine ⟨?_, fun left => absurd magnitude left, fun _ => ?_, fun left => absurd magnitude left⟩
  · rw [magnitude]
    positivity
  · rw [div_lt_div_iff₀ positive (by positivity), one_mul, mul_comm]
    exact_mod_cast less

private theorem cut_approximates {shift : Nat} (numLeft : 0 < num >>> shift) (denLeft : 0 < den >>> shift) :
    Approximates (reduce (num >>> shift) (den >>> shift) negative) negative (num / den) := by
  have magnitude : |value (reduce (num >>> shift) (den >>> shift) negative)| =
      ((num >>> shift : Nat) : ℚ) / (den >>> shift : Nat) := by
    rw [abs_value, denominator_eq (Nat.div_gcd_pos_of_pos_right _ denLeft)]
    exact div_gcd_div_gcd _ denLeft
  obtain ⟨upper, lower⟩ := cut_quotient_bounds numLeft denLeft
  refine ⟨?_, fun _ _ => ?_, fun none => ?_, fun _ => rfl⟩
  · rw [magnitude]
    exact upper
  · rw [magnitude]
    exact lower
  · have left : (0 : ℚ) < (num >>> shift : Nat) := by exact_mod_cast numLeft
    have denLeft : (0 : ℚ) < (den >>> shift : Nat) := by exact_mod_cast denLeft
    rw [magnitude] at none
    exact absurd none (ne_of_gt (div_pos left denLeft))

private theorem squeeze_approximates (numPos : 0 < num) (denPos : 0 < den) :
    Approximates (squeeze num den negative) negative (num / den) := by
  simp only [squeeze]
  split
  next lost =>
    exact saturated_approximates denPos lost
  next kept =>
    split
    next vanished =>
      exact vanished_approximates numPos vanished
    next left =>
      exact cut_approximates (Nat.pos_of_ne_zero left) (shiftRight_pos denPos kept)

private theorem clamp_approximates (numPos : 0 < num) (denPos : 0 < den) :
    Approximates (clamp num den negative) negative (num / den) := by
  have reduced : Approximates (squeeze (num / num.gcd den) (den / num.gcd den) negative) negative (num / den) := by
    rw [← div_gcd_div_gcd num denPos]
    exact squeeze_approximates (Nat.div_gcd_pos_of_pos_left den numPos) (Nat.div_gcd_pos_of_pos_right num denPos)
  simpa only [clamp, if_neg (Nat.ne_of_gt numPos), Nat.max_eq_left denPos] using reduced

/-- A clamp of a numerator and a denominator stands for the signed quotient. -/
theorem clamp_standsFor {exact : ℚ} (denPos : 0 < den) (same : exact = signed negative (num / den)) :
    StandsFor (clamp num den negative) exact := by
  subst same
  by_cases none : num = 0
  · subst none
    have nothing : signed negative (((0 : Nat) : ℚ) / den) = 0 := by simp [signed_zero]
    exact ⟨fun _ => by simp [clamp, value, signed, Number.zero], fun left => absurd nothing left⟩
  · have above : (0 : ℚ) < num / den :=
      div_pos (by exact_mod_cast Nat.pos_of_ne_zero none) (by exact_mod_cast denPos)
    have sign : decide (signed negative ((num : ℚ) / den) < 0) = negative := by
      cases negative
      · simpa [signed] using le_of_lt above
      · simpa [signed] using above
    have size : |signed negative ((num : ℚ) / den)| = num / den := by rw [abs_signed, abs_of_pos above]
    refine ⟨fun zero => ?_, fun _ => ?_⟩
    · rw [← abs_eq_zero, size] at zero
      exact absurd zero (ne_of_gt above)
    · rw [sign, size]
      exact clamp_approximates (Nat.pos_of_ne_zero none) denPos

end Clamp

section Operations
variable {a b : Number}

private theorem mul_standsFor (a b : Number) : StandsFor (a * b) (value a * value b) :=
  clamp_standsFor (Nat.mul_pos (denominator_pos a) (denominator_pos b)) (product_eq a b)

private theorem div_standsFor (nonzero : b.isZero = false) :
    ∃ n, a.div? b = some n ∧ StandsFor n (value a / value b) := by
  have divisor : b.num ≠ 0 := by simpa [isZero] using nonzero
  refine ⟨_, if_neg (by simp [nonzero]), ?_⟩
  exact clamp_standsFor (Nat.mul_pos (denominator_pos a) (Nat.pos_of_ne_zero divisor)) (quotient_eq a b)

/-- A clamp is wrong by less than a factor of two, in both directions, unless it saturates or vanishes, and it vanishes
below `1 / 2 ^ 63` only; a sign is lost only with the number. The rounds of simplification on words come to the same.
So products and quotients of valid numbers, computed on words, stand for the exact ones in this sense. -/
theorem clamp_within_factor_two (words : NumberWords.Words) {num den : Nat} (numPos : 0 < num) (denPos : 0 < den)
    (negative : Bool)
    (left : Valid a) (right : Valid b) :
    (NumberWords.create words num den negative = .ok (clamp num den negative) ∧
      Approximates (clamp num den negative) negative (num / den)) ∧
    (NumberWords.mul words a b = .ok (a * b) ∧ StandsFor (a * b) (value a * value b)) ∧
    (b.isZero = false → ∃ n, NumberWords.div words a b = .ok (some n) ∧ a.div? b = some n ∧
      StandsFor n (value a / value b)) := by
  refine ⟨⟨NumberWords.create_eq words num den negative, clamp_approximates numPos denPos⟩,
    ⟨NumberWords.mul_eq words left right, mul_standsFor a b⟩, fun nonzero => ?_⟩
  obtain ⟨n, divided, stands⟩ := div_standsFor nonzero
  exact ⟨n, by rw [NumberWords.div_eq words left right, divided], divided, stands⟩

/-- A number just above one. Its product with the next number has no number. -/
def sampleTight : Number := ⟨2 ^ 64 - 1, 2 ^ 64 - 3, false⟩

def sampleOpposite : Number := ⟨2 ^ 64 - 1, 2 ^ 64 - 5, true⟩

theorem sampleTight_rounded :
    ¬Fits (value sampleTight * value sampleOpposite) ∧
    sampleTight * sampleOpposite = ⟨2 ^ 63 - 1, 2 ^ 63 - 4, true⟩ ∧
    |value (sampleTight * sampleOpposite)| < 2 * |value sampleTight * value sampleOpposite| ∧
    |value sampleTight * value sampleOpposite| / 2 < |value (sampleTight * sampleOpposite)| ∧
    clamp 1 (2 ^ 128 - 1) true = Number.zero ∧ (1 : ℚ) / (2 ^ 128 - 1 : Nat) < 1 / 2 ^ 63 := by
  have left : Valid sampleTight := Or.inr (by refine ⟨?_, ?_, ?_, ?_, ?_⟩ <;> decide +kernel)
  have right : Valid sampleOpposite := Or.inr (by refine ⟨?_, ?_, ?_, ?_, ?_⟩ <;> decide +kernel)
  obtain ⟨⟨_, tiny⟩, ⟨_, product⟩, _⟩ :=
    @clamp_within_factor_two _ _ NumberWords.computedWords 1 (2 ^ 128 - 1) (by decide) (by decide) true left right
  have near := product.nonzero (by decide +kernel)
  refine ⟨by decide +kernel, by decide +kernel, near.lt_twice, near.half_lt ?_ ?_, by decide +kernel, ?_⟩
  · decide +kernel
  · decide +kernel
  · have none : |value (clamp 1 (2 ^ 128 - 1) true)| = 0 := by decide +kernel
    simpa using tiny.vanishes none

end Operations

end Scriptlet.Proofs.ClampAccuracy
