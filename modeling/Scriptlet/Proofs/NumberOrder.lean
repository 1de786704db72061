import Scriptlet.Proofs.ExactArithmetic
import Scriptlet.Proofs.NumberWords
import Mathlib.Data.Sign.Basic

/-! The order of numbers. It is the order of the rationals behind them, and it can be computed within
128 bits. A difference may be clamped and may come out as zero, but its sign is never wrong: the shift before
it keeps the order of what it shifts, and the clamp keeps the sign. -/

namespace Scriptlet.Proofs.NumberOrder
open Number NumberInvariant NumberValue ExactArithmetic

def orderSign : Ordering → SignType
  | .lt => -1
  | .eq => 0
  | .gt => 1

/-- The comparison carried out on words of 128 bits. -/
def compareWords (words : NumberWords.Words) (a b : Number) : NumberWords.Checked Ordering :=
  match a.negative, b.negative with
  | true, false => .ok .lt
  | false, true => .ok .gt
  | true, true => do
    let parts ← NumberWords.align words a b
    return compare parts.right parts.left
  | false, false => do
    let parts ← NumberWords.align words a b
    return compare parts.left parts.right

variable {a b c : Number}

private theorem compareWords_eq (words : NumberWords.Words) (left : Valid a) (right : Valid b) :
    compareWords words a b = .ok (a.compare b) := by
  rw [compareWords, Number.compare, NumberWords.align_eq words left right]
  cases a.negative <;> cases b.negative <;> rfl

private theorem orderSign_compare (p q : ℚ) : orderSign (compare p q) = SignType.sign (p - q) := by
  rcases lt_trichotomy p q with less | rfl | greater
  · rw [compare_lt_iff_lt.mpr less, sign_neg (sub_neg.mpr less), orderSign]
  · rw [compare_eq_iff_eq.mpr rfl, sub_self, sign_zero, orderSign]
  · rw [compare_gt_iff_gt.mpr greater, sign_pos (sub_pos.mpr greater), orderSign]

theorem value_eq_iff (left : Valid a) (right : Valid b) :
    value a = value b ↔ a.negative = b.negative ∧ a.num = b.num ∧ a.denominator = b.denominator := by
  constructor
  · intro same
    obtain ⟨leftNum, leftDen⟩ := value_lowest left
    obtain ⟨rightNum, rightDen⟩ := value_lowest right
    refine ⟨?_, ?_, ?_⟩
    · rw [negative_eq left, negative_eq right, same]
    · rw [← leftNum, ← rightNum, same]
    · rw [← leftDen, ← rightDen, same]
  · rintro ⟨sign, num, den⟩
    rw [value, value, sign, num, den]

theorem clamp_negative {num den : Nat} {negative : Bool} (some : (clamp num den negative).num ≠ 0) :
    num ≠ 0 ∧ (clamp num den negative).negative = negative := by
  unfold clamp at some ⊢
  split at some
  · exact absurd rfl some
  next positive =>
    refine ⟨positive, ?_⟩
    rw [if_neg positive]
    simp only [squeeze] at some ⊢
    split at some
    next beyond =>
      rw [if_pos beyond]
    next kept =>
      rw [if_neg kept]
      split at some
      · exact absurd rfl some
      next shifted =>
        rw [if_neg shifted, reduce]

/-- The shift before a sum confuses magnitudes but never swaps them. -/
theorem lt_of_withRoom_lt {parts : Aligned} :
    (parts.withRoom.left < parts.withRoom.right → parts.left < parts.right) ∧
    (parts.withRoom.right < parts.withRoom.left → parts.right < parts.left) := by
  rw [withRoom_eq]
  split
  · simp only [Nat.shiftRight_one]
    omega
  · exact ⟨id, id⟩

private theorem withRoom_sum_ne_zero {parts : Aligned} (some : parts.withRoom.left + parts.withRoom.right ≠ 0) :
    parts.left + parts.right ≠ 0 := by
  rw [withRoom_eq] at some
  split at some
  · simp only [Nat.shiftRight_one] at some
    omega
  · exact some

/-- What a sum is, by the signs of its operands and by which of them is larger. -/
theorem add_cases (a b : Number) :
    (b.negative = a.negative ∧ a + b =
      clamp ((align a b).withRoom.left + (align a b).withRoom.right) (align a b).withRoom.den a.negative) ∨
    (b.negative = !a.negative ∧ (align a b).withRoom.right ≤ (align a b).withRoom.left ∧ a + b =
      clamp ((align a b).withRoom.left - (align a b).withRoom.right) (align a b).withRoom.den a.negative) ∨
    (a.negative = !b.negative ∧ (align a b).withRoom.left < (align a b).withRoom.right ∧ a + b =
      clamp ((align a b).withRoom.right - (align a b).withRoom.left) (align a b).withRoom.den b.negative) := by
  change (_ ∧ a.add b = _) ∨ (_ ∧ _ ∧ a.add b = _) ∨ (_ ∧ _ ∧ a.add b = _)
  by_cases same : a.negative = b.negative
  · exact Or.inl ⟨same.symm, if_pos same⟩
  · have opposite : b.negative = !a.negative := by
      cases left : a.negative <;> cases right : b.negative <;> simp_all
    by_cases le : (align a b).withRoom.right ≤ (align a b).withRoom.left
    · refine Or.inr (Or.inl ⟨opposite, le, ?_⟩)
      simp only [Number.add, if_neg same, if_pos le]
    · refine Or.inr (Or.inr ⟨by rw [opposite, Bool.not_not], Nat.lt_of_not_le le, ?_⟩)
      simp only [Number.add, if_neg same, if_neg le]

theorem add_sign (some : (a + b).num ≠ 0) :
    ∃ magnitude : ℚ, 0 < magnitude ∧ value a + value b = signed (a + b).negative magnitude := by
  have above : (0 : ℚ) < (align a b).den := by exact_mod_cast align_den_pos a b
  have total : value a + value b = signed a.negative ((align a b).left / (align a b).den) +
      signed b.negative ((align a b).right / (align a b).den) := by
    rw [align_left_value, align_right_value, value, value]
  rw [total]
  rcases add_cases a b with ⟨same, result⟩ | ⟨opposite, _, result⟩ | ⟨opposite, _, result⟩
  · rw [result] at some ⊢
    obtain ⟨shifted, sign⟩ := clamp_negative some
    have unshifted := withRoom_sum_ne_zero shifted
    refine ⟨((align a b).left + (align a b).right : Nat) / (align a b).den, ?_, ?_⟩
    · exact div_pos (by exact_mod_cast Nat.pos_of_ne_zero unshifted) above
    · rw [sign, same, signed_add, ← add_div, Nat.cast_add]
  · rw [result] at some ⊢
    obtain ⟨shifted, sign⟩ := clamp_negative some
    have less := lt_of_withRoom_lt.2 (Nat.lt_of_sub_ne_zero shifted)
    refine ⟨(align a b).left / (align a b).den - (align a b).right / (align a b).den, ?_, ?_⟩
    · exact sub_pos.mpr (div_lt_div_of_pos_right (Nat.cast_lt.mpr less) above)
    · rw [sign, opposite, signed_add_not]
  · rw [result] at some ⊢
    obtain ⟨shifted, sign⟩ := clamp_negative some
    have less := lt_of_withRoom_lt.1 (Nat.lt_of_sub_ne_zero shifted)
    refine ⟨(align a b).right / (align a b).den - (align a b).left / (align a b).den, ?_, ?_⟩
    · exact sub_pos.mpr (div_lt_div_of_pos_right (Nat.cast_lt.mpr less) above)
    · rw [sign, opposite, add_comm, signed_add_not]

private theorem compare_of_sub (left : Valid a) (right : Valid b) (some : (a - b).num ≠ 0) :
    a.compare b = if (a - b).negative then .lt else .gt := by
  obtain ⟨magnitude, positive, exact⟩ := add_sign some
  change value a + value (-b) = signed (a - b).negative magnitude at exact
  rw [neg_value, ← sub_eq_add_neg] at exact
  rw [compare_value left right]
  cases sign : (a - b).negative with
  | true =>
    rw [sign, signed, if_pos rfl] at exact
    exact compare_lt_iff_lt.mpr (by linarith)
  | false =>
    rw [sign, signed, if_neg (by simp)] at exact
    exact compare_gt_iff_gt.mpr (by linarith)

theorem sub_of_compare (left : Valid a) (right : Valid b) (same : a.compare b = .eq) : (a - b).num = 0 := by
  rw [compare_value left right, compare_eq_iff_eq] at same
  have none : value a - value b = 0 := sub_eq_zero.mpr same
  have fits : Fits (value a - value b) := by
    rw [none]
    decide
  rw [← value_eq_zero, sub_value left right fits, none]

/-- Comparison is the order of the rationals, whether or not the difference of two numbers has a number: its outcome
is the sign of the exact difference, on words it reports no fault, and it is a total order in which only numbers
that are written alike are equal. A difference is zero where the operands are equal, and one that is not zero has
the sign of the exact difference. -/
theorem compare_is_order_of_rationals (words : NumberWords.Words) (left : Valid a) (right : Valid b)
    (third : Valid c) :
    orderSign (a.compare b) = SignType.sign (value a - value b) ∧
    compareWords words a b = .ok (a.compare b) ∧
    (a.compare a = .eq ∧ b.compare a = (a.compare b).swap ∧
      (a.compare b ≠ .gt → b.compare c ≠ .gt → a.compare c ≠ .gt)) ∧
    (a.same b = true ↔ a.negative = b.negative ∧ a.num = b.num ∧ a.denominator = b.denominator) ∧
    (a.compare b = .eq → (a - b).isZero = true) ∧
    ((a - b).isZero = false → a.compare b = if (a - b).negative then .lt else .gt) := by
  refine ⟨?_, compareWords_eq words left right, ⟨?_, ?_, ?_⟩, ?_, ?_, ?_⟩
  · rw [compare_value left right]
    exact orderSign_compare _ _
  · rw [compare_value left left]
    exact compare_eq_iff_eq.mpr rfl
  · rw [compare_value left right, compare_value right left]
    exact Std.OrientedOrd.eq_swap
  · rw [compare_value left right, compare_value right third, compare_value left third, compare_le_iff_le,
      compare_le_iff_le, compare_le_iff_le]
    exact le_trans
  · rw [same_iff left right]
    exact value_eq_iff left right
  · intro same
    simpa [isZero] using sub_of_compare left right same
  · intro some
    exact compare_of_sub left right (by simpa [isZero] using some)

/-- The largest number, and the smallest above zero. Their difference is shifted and then clamped. -/
def sampleLargest : Number := ⟨bound - 1, 1, false⟩

def sampleSmallest : Number := ⟨1, bound - 1, false⟩

theorem sampleSmallest_below :
    ¬Fits (value sampleSmallest - value sampleLargest) ∧
    compareWords NumberWords.computedWords sampleSmallest sampleLargest = .ok .lt ∧
    sampleSmallest.compare sampleLargest = .lt ∧ (sampleSmallest - sampleLargest).negative = true ∧
    sampleLargest.compare sampleSmallest = .gt := by
  have smallest : Valid sampleSmallest := Or.inr (by refine ⟨?_, ?_, ?_, ?_, ?_⟩ <;> decide +kernel)
  have largest : Valid sampleLargest := Or.inr (by refine ⟨?_, ?_, ?_, ?_, ?_⟩ <;> decide +kernel)
  obtain ⟨_, onWords, ⟨_, swapped, _⟩, _, _, signs⟩ :=
    compare_is_order_of_rationals NumberWords.computedWords smallest largest (Or.inl rfl)
  have order := signs (by decide +kernel)
  have below : (sampleSmallest - sampleLargest).negative = true := by decide +kernel
  rw [below, if_pos rfl] at order
  refine ⟨by decide +kernel, onWords.trans (congrArg _ order), order, below, ?_⟩
  rw [swapped, order, Ordering.swap]

end Scriptlet.Proofs.NumberOrder
