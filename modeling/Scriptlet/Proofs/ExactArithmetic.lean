import Scriptlet.Proofs.NumberValue

/-! Results of arithmetic as numbers. A normal number is fixed by its rational, so an operation that is
exact gives the one number there is for the exact result; and the comparison of numbers is the order of
their rationals. -/

namespace Scriptlet.Proofs.ExactArithmetic
open Number NumberInvariant NumberValue

def ofRational (q : ℚ) : Number := ⟨q.num.natAbs, q.den, decide (q < 0)⟩

private theorem value_ofRational (q : ℚ) : value (ofRational q) = q := by
  have magnitude : ((q.num.natAbs : ℕ) : ℚ) / (q.den : ℕ) = |q| := by
    rw [Nat.cast_natAbs, Int.cast_abs, ← Nat.abs_cast q.den, ← abs_div, Rat.num_div_den]
  rw [value, denominator_eq (n := ofRational q) q.den_pos, ofRational, magnitude]
  by_cases below : q < 0
  · simp [signed, below, abs_of_neg below]
  · simp [signed, below, abs_of_nonneg (not_lt.mp below)]

variable {a b n : Number} {q : ℚ}

private theorem value_nonneg (plain : n.negative = false) : 0 ≤ value n := by
  rw [value, plain]
  exact div_nonneg (Nat.cast_nonneg _) (Nat.cast_nonneg _)

/-- Zero is never negative, so a sign is a sign. -/
theorem value_lt_zero (valid : Valid n) (negative : n.negative = true) : value n < 0 := by
  have some : n.num ≠ 0 := by
    intro zero
    rcases valid with rfl | normal
    · cases negative
    · have plain := (normal.zero_plain zero).2
      rw [negative] at plain
      cases plain
  apply lt_of_le_of_ne
  · rw [value, negative]
    exact neg_nonpos.mpr (div_nonneg (Nat.cast_nonneg _) (Nat.cast_nonneg _))
  · intro zero
    exact some (value_eq_zero.mp zero)

theorem negative_eq (valid : Valid n) : n.negative = decide (value n < 0) := by
  cases sign : n.negative with
  | true => exact (decide_eq_true (value_lt_zero valid sign)).symm
  | false => exact (decide_eq_false (not_lt.mpr (value_nonneg sign))).symm

/-- A number is its rational, up to a denominator that was left out. -/
theorem ofRational_value (valid : Valid n) : ofRational (value n) = { n with den := n.denominator } := by
  obtain ⟨numLowest, denLowest⟩ := value_lowest valid
  rw [ofRational, numLowest, denLowest, ← negative_eq valid]

theorem eq_ofRational (normal : Normal n) (same : value n = q) : n = ofRational q := by
  rw [← same, ofRational_value (Or.inr normal), denominator_eq normal.den_pos]

private theorem compare_div {den : Nat} (positive : 0 < den) (p q : Nat) :
    compare p q = compare ((p : ℚ) / den) (q / den) := by
  have above : (0 : ℚ) < den := by exact_mod_cast positive
  have mono : StrictMono fun p : Nat => (p : ℚ) / den := by
    intro p q less
    exact div_lt_div_of_pos_right (Nat.cast_lt.mpr less) above
  rw [← cmp_eq_compare, ← cmp_eq_compare]
  exact (mono.cmp_map_eq p q).symm

private theorem compare_neg (p q : ℚ) : compare (-p) (-q) = compare q p := by
  have anti : StrictAnti fun p : ℚ => -p := fun _ _ less => neg_lt_neg less
  rw [← cmp_eq_compare, ← cmp_eq_compare]
  exact anti.cmp_map_eq p q

theorem compare_value (left : Valid a) (right : Valid b) : a.compare b = compare (value a) (value b) := by
  have first := align_left_value a b
  have second := align_right_value a b
  have order := compare_div (align_den_pos a b)
  rw [Number.compare]
  cases leftSign : a.negative <;> cases rightSign : b.negative <;> dsimp only
  · rw [order, first, second, value, value, leftSign, rightSign]
    rfl
  · have less := lt_of_lt_of_le (value_lt_zero right rightSign) (value_nonneg leftSign)
    exact (compare_gt_iff_gt.mpr less).symm
  · have less := lt_of_lt_of_le (value_lt_zero left leftSign) (value_nonneg rightSign)
    exact (compare_lt_iff_lt.mpr less).symm
  · rw [order, first, second, value, value, leftSign, rightSign]
    exact (compare_neg _ _).symm

theorem same_iff (left : Valid a) (right : Valid b) : a.same b = true ↔ value a = value b := by
  rw [same, beq_iff_eq, compare_value left right]
  exact compare_eq_iff_eq

private theorem mul_quotient (left : Valid a) (some : value b ≠ 0) (divided : value n = value a / value b) :
    value (n * b) = value a := by
  have product : value n * value b = value a := by rw [divided, div_mul_cancel₀ _ some]
  have fits : Fits (value n * value b) := by
    rw [product]
    exact value_fits left
  rw [mul_value fits, product]

/-- Wherever the exact result of an operation fits, the operation gives the number for it. The shift
before a sum is then not taken, and a quotient multiplied by its divisor is the dividend. -/
theorem arithmetic_exact (left : Valid a) (right : Valid b) :
    (Fits (value a + value b) →
      a + b = ofRational (value a + value b) ∧ (align a b).withRoom = align a b) ∧
    (Fits (value a - value b) → a - b = ofRational (value a - value b)) ∧
    (Fits (value a * value b) → a * b = ofRational (value a * value b)) ∧
    (b.isZero = false → Fits (value a / value b) →
      a.div? b = some (ofRational (value a / value b)) ∧
      (ofRational (value a / value b) * b).same a = true ∧
      (Normal a → ofRational (value a / value b) * b = a)) := by
  refine ⟨?_, ?_, ?_, ?_⟩
  · intro fits
    exact ⟨eq_ofRational (add_normal a b) (add_value left right fits), withRoom_of_fits left right fits⟩
  · intro fits
    exact eq_ofRational (sub_normal a b) (sub_value left right fits)
  · intro fits
    exact eq_ofRational (mul_normal a b) (mul_value fits)
  · intro some fits
    have nonzero : b.num ≠ 0 := by simpa [isZero] using some
    obtain ⟨quotient, divided, exact⟩ := div_value nonzero fits
    have isQuotient := eq_ofRational (div_normal divided) exact
    subst isQuotient
    have back : value (ofRational (value a / value b) * b) = value a :=
      mul_quotient left (fun zero => nonzero (value_eq_zero.mp zero)) (value_ofRational _)
    refine ⟨divided, (same_iff (Or.inr (mul_normal _ b)) left).mpr back, ?_⟩
    intro normal
    rw [eq_ofRational (mul_normal _ b) back, ← eq_ofRational normal rfl]

def crowdedHalf : Number := ⟨2 ^ 64 - 1, 2, false⟩

def half : Number := ⟨1, 2, false⟩

/-- Both cross products of the sum are odd, and their sum has 65 bits before it is reduced. -/
theorem crowdedHalf_exact :
    crowdedHalf + half = ⟨2 ^ 63, 1, false⟩ ∧ crowdedHalf - half = ⟨2 ^ 63 - 1, 1, false⟩ ∧
    crowdedHalf * half = ⟨2 ^ 64 - 1, 4, false⟩ ∧ crowdedHalf.div? half = some ⟨2 ^ 64 - 1, 1, false⟩ ∧
    (⟨2 ^ 64 - 1, 1, false⟩ : Number) * half = crowdedHalf := by
  have left : Normal crowdedHalf := ⟨by decide, by decide, by decide, by decide, by decide⟩
  have right : Normal half := ⟨by decide, by decide, by decide, by decide, by decide⟩
  obtain ⟨sum, difference, product, quotient⟩ := arithmetic_exact (Or.inr left) (Or.inr right)
  obtain ⟨divided, _, back⟩ := quotient rfl (by decide +kernel)
  refine ⟨(sum (by decide +kernel)).1.trans (by decide +kernel), ?_, ?_, ?_, ?_⟩
  · exact (difference (by decide +kernel)).trans (by decide +kernel)
  · exact (product (by decide +kernel)).trans (by decide +kernel)
  · exact divided.trans (by decide +kernel)
  · have given : ofRational (value crowdedHalf / value half) = ⟨2 ^ 64 - 1, 1, false⟩ := by decide +kernel
    exact given ▸ back left

end Scriptlet.Proofs.ExactArithmetic
