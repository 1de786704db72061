import Scriptlet.Proofs.NumberOrder

/-! Laws of arithmetic that hold of numbers as they are, whether results are exact, cut, saturated or vanished. Every
operation clamps one signed integer over a denominator, and a clamp treats an integer and its opposite alike. So the
laws of integers carry over to numbers, and what the clamp does to their magnitudes makes no difference. -/

namespace Scriptlet.Proofs.NumberLaws
open Number NumberInvariant NumberValue ExactArithmetic NumberOrder

/-- A magnitude with a sign. -/
def withSign (negative : Bool) (n : Nat) : Int := if negative then -n else n

/-- The number for a signed numerator over a denominator. -/
def settle (num : Int) (den : Nat) : Number := clamp num.natAbs den (num < 0)

private theorem withSign_zero (negative : Bool) : withSign negative 0 = 0 := by
  cases negative <;> rfl

private theorem withSign_not (negative : Bool) (n : Nat) : withSign (!negative) n = -withSign negative n := by
  cases negative <;> simp [withSign]

private theorem withSign_add (negative : Bool) (m n : Nat) :
    withSign negative (m + n) = withSign negative m + withSign negative n := by
  cases negative
  · rfl
  · simp [withSign, Int.add_comm]

private theorem withSign_sub (negative : Bool) {m n : Nat} (le : n ≤ m) :
    withSign negative (m - n) = withSign negative m + withSign (!negative) n := by
  cases negative <;> simp [withSign] <;> omega

private theorem withSign_mul (first second : Bool) (m n : Nat) :
    withSign (first != second) (m * n) = withSign first m * withSign second n := by
  cases first <;> cases second <;> simp [withSign]

private theorem clamp_zero (den : Nat) (negative : Bool) : clamp 0 den negative = Number.zero := if_pos rfl

private theorem settle_zero (den : Nat) : settle 0 den = Number.zero := clamp_zero den _

private theorem clamp_eq_settle (num den : Nat) (negative : Bool) :
    clamp num den negative = settle (withSign negative num) den := by
  by_cases none : num = 0
  · rw [none, withSign_zero, settle_zero, clamp_zero]
  · have size : (withSign negative num).natAbs = num := by cases negative <;> simp [withSign]
    have sign : decide (withSign negative num < 0) = negative := by
      cases negative
      · simp [withSign]
      · simp only [withSign, if_true, decide_eq_true_eq]
        omega
    rw [settle, size, sign]

private theorem neg_of_ne_zero {n : Number} (some : n.num ≠ 0) : -n = { n with negative := !n.negative } :=
  if_neg (by simpa [isZero] using some)

private theorem neg_of_zero {n : Number} (none : n.num = 0) : -n = n := if_pos (by simpa [isZero] using none)

/-- A clamp hands its sign on to the number unless there is nothing left to have one. -/
theorem neg_clamp (num den : Nat) (negative : Bool) : -clamp num den negative = clamp num den (!negative) := by
  simp only [clamp, squeeze]
  split
  · exact neg_of_zero rfl
  · split
    · exact neg_of_ne_zero (by simp [bound_eq])
    · split
      · exact neg_of_zero rfl
      next left =>
        refine neg_of_ne_zero (Nat.ne_of_gt ?_)
        exact Nat.div_gcd_pos_of_pos_left _ (Nat.pos_of_ne_zero left)

private theorem neg_settle (num : Int) (den : Nat) : -settle num den = settle (-num) den := by
  by_cases none : num = 0
  · rw [none, Int.neg_zero, settle_zero]
    exact neg_of_zero rfl
  · have sign : decide (-num < 0) = !decide (num < 0) := by
      by_cases below : num < 0
      · simp [below, Int.le_of_lt below]
      · simp only [below, decide_false, Bool.not_false, decide_eq_true_eq]
        omega
    rw [settle, settle, neg_clamp, Int.natAbs_neg, sign]

variable {a b : Number}

private theorem neg_num (n : Number) : (-n).num = n.num := by
  by_cases none : n.num = 0
  · rw [neg_of_zero none]
  · rw [neg_of_ne_zero none]

private theorem neg_denominator (n : Number) : (-n).denominator = n.denominator := by
  by_cases none : n.num = 0
  · rw [neg_of_zero none]
  · rw [neg_of_ne_zero none]
    rfl

private theorem neg_twice (n : Number) : -(-n) = n := by
  by_cases none : n.num = 0
  · rw [neg_of_zero none, neg_of_zero none]
  · have some : (-n).num ≠ 0 := by rwa [neg_num]
    rw [neg_of_ne_zero some, neg_of_ne_zero none]
    simp

/-- Negation turns the sign of whatever is made of the numerator and is zero with it. -/
theorem withSign_neg {part : Nat} (n : Number) (zero : n.num = 0 → part = 0) :
    withSign (-n).negative part = -withSign n.negative part := by
  by_cases none : n.num = 0
  · rw [zero none, withSign_zero, withSign_zero, Int.neg_zero]
  · rw [neg_of_ne_zero none, withSign_not]

/-- The numerator of a sum over the common denominator, before it is clamped. -/
def total (a b : Number) : Int :=
  withSign a.negative (align a b).withRoom.left + withSign b.negative (align a b).withRoom.right

private theorem add_eq_settle (a b : Number) : a + b = settle (total a b) (align a b).withRoom.den := by
  rw [total]
  rcases add_cases a b with ⟨same, result⟩ | ⟨opposite, le, result⟩ | ⟨opposite, less, result⟩
  · rw [result, clamp_eq_settle, withSign_add, same]
  · rw [result, clamp_eq_settle, withSign_sub _ le, opposite]
  · rw [result, clamp_eq_settle, withSign_sub _ (Nat.le_of_lt less), ← opposite, Int.add_comm]

def swapped (parts : Aligned) : Aligned := ⟨parts.right, parts.left, parts.den⟩

private theorem withRoom_swapped (parts : Aligned) : (swapped parts).withRoom = swapped parts.withRoom := by
  simp only [withRoom_eq, swapped, Or.comm]
  split <;> rfl

private theorem align_swapped (a b : Number) : align b a = swapped (align a b) := by
  have den : (align b a).den = (align a b).den := by rw [align_den_eq_lcm, align_den_eq_lcm, Nat.lcm_comm]
  rw [swapped, align_swap, ← align_swap b a, ← den]

private theorem align_neg (a b : Number) : align (-a) (-b) = align a b := by
  simp only [align, neg_num, neg_denominator]

/-- Nothing comes of zero, with or without the shift. -/
theorem withRoom_left_zero (none : a.num = 0) : (align a b).withRoom.left = 0 := by
  have left : (align a b).left = 0 := by rw [align_left_eq, none, Nat.zero_mul]
  rw [withRoom_eq]
  split
  · rw [left, Nat.zero_shiftRight]
  · exact left

private theorem withRoom_right_zero (none : b.num = 0) : (align a b).withRoom.right = 0 := by
  have left := withRoom_left_zero (b := a) none
  rwa [align_swapped, withRoom_swapped] at left

private theorem sum_comm (a b : Number) : a + b = b + a := by
  rw [add_eq_settle, add_eq_settle, total, total, align_swapped, withRoom_swapped, Int.add_comm]
  rfl

private theorem neg_sum (a b : Number) : -(a + b) = -a + -b := by
  have opposite : total (-a) (-b) = -total a b := by
    rw [total, total, align_neg, withSign_neg a withRoom_left_zero, withSign_neg b withRoom_right_zero, Int.neg_add]
  rw [add_eq_settle, add_eq_settle, neg_settle, opposite, align_neg]

private theorem sub_eq_neg_sub (a b : Number) : a - b = -(b - a) := by
  change a + -b = -(b + -a)
  rw [neg_sum, neg_twice, sum_comm]

private theorem sum_neg_self (a : Number) : a + -a = Number.zero := by
  have equal : (align a (-a)).right = (align a (-a)).left := by
    rw [align_right_eq, align_left_eq, neg_num, neg_denominator]
  have shifted : (align a (-a)).withRoom.right = (align a (-a)).withRoom.left := by
    rw [withRoom_eq]
    split
    · rw [equal]
    · exact equal
  have nothing : total a (-a) = 0 := by
    rw [total, shifted, withSign_neg a withRoom_left_zero, Int.add_right_neg]
  rw [add_eq_settle, nothing, settle_zero]

/-- Nothing is lost by adding zero, since the sum is the number itself, which fits. -/
theorem sum_zero {z : Number} (valid : Valid a) (zero : z = Number.zero ∨ z = unset) :
    a + z = { a with den := a.denominator } := by
  have zeroValid : Valid z := by
    rcases zero with rfl | rfl
    · exact Or.inr zero_normal
    · exact Or.inl rfl
  have nothing : value z = 0 := by
    rw [value_eq_zero]
    rcases zero with rfl | rfl <;> rfl
  have same : value a + value z = value a := by simp [nothing]
  have fits : Fits (value a + value z) := by
    rw [same]
    exact value_fits valid
  rw [eq_ofRational (add_normal a z) (add_value valid zeroValid fits), same, ofRational_value valid]

/-- The signed numerator. -/
def numerator (n : Number) : Int := withSign n.negative n.num

private theorem numerator_neg (n : Number) : numerator (-n) = -numerator n := by
  rw [numerator, neg_num, withSign_neg n id, numerator]

private theorem mul_eq_settle (a b : Number) :
    a * b = settle (numerator a * numerator b) (a.denominator * b.denominator) := by
  rw [numerator, numerator, ← withSign_mul, ← clamp_eq_settle]
  rfl

private theorem product_comm (a b : Number) : a * b = b * a := by
  rw [mul_eq_settle, mul_eq_settle, Int.mul_comm, Nat.mul_comm]

private theorem neg_product (a b : Number) : -a * b = -(a * b) := by
  rw [mul_eq_settle, mul_eq_settle, neg_settle, numerator_neg, neg_denominator, Int.neg_mul]

private theorem div_eq_settle (a : Number) (some : b.isZero = false) :
    a.div? b = Option.some
      (settle (numerator a * withSign b.negative b.denominator) (a.denominator * b.num)) := by
  rw [numerator, ← withSign_mul, ← clamp_eq_settle]
  exact if_neg (by simp [some])

private theorem neg_isZero (n : Number) : (-n).isZero = n.isZero := by rw [isZero, neg_num, isZero]

private theorem neg_quotient (a : Number) (some : b.isZero = false) : (-a).div? b = (a.div? b).map (-·) := by
  rw [div_eq_settle _ some, div_eq_settle _ some, Option.map_some, neg_settle, numerator_neg, neg_denominator,
    Int.neg_mul]

private theorem quotient_neg (a : Number) (some : b.isZero = false) : a.div? (-b) = (a.div? b).map (-·) := by
  have nonzero : b.num ≠ 0 := by simpa [isZero] using some
  have sign : withSign (-b).negative b.denominator = -withSign b.negative b.denominator :=
    withSign_neg b fun zero => absurd zero nonzero
  rw [div_eq_settle _ (by rwa [neg_isZero]), div_eq_settle _ some, Option.map_some, neg_settle, neg_num,
    neg_denominator, sign, Int.mul_neg]

/-- The laws hold with the same numerator, denominator and sign on both sides, however the results are cut, saturated
or lost. Only where zero is added must the number be valid, and a denominator that was left out comes out as one. -/
theorem laws_survive_clamping (valid : Valid a) (b : Number) :
    a + b = b + a ∧ a * b = b * a ∧ -(a + b) = -a + -b ∧ a - b = -(b - a) ∧ -a * b = -(a * b) ∧
    (b.isZero = false → ∃ q, a.div? b = some q ∧ (-a).div? b = some (-q) ∧ a.div? (-b) = some (-q)) ∧
    a + -a = Number.zero ∧
    ∀ z, z = Number.zero ∨ z = unset → a + z = { a with den := a.denominator } := by
  refine ⟨sum_comm a b, product_comm a b, neg_sum a b, sub_eq_neg_sub a b, neg_product a b, fun some => ?_,
    sum_neg_self a, fun z => sum_zero valid⟩
  have divided := div_eq_settle a some
  exact ⟨_, divided, by rw [neg_quotient a some, divided]; rfl, by rw [quotient_neg a some, divided]; rfl⟩

/-- The sum of the largest and the smallest number is cut, and their quotient saturates. -/
theorem sampleLargest_lawful :
    ¬Fits (value sampleLargest + value sampleSmallest) ∧ ¬Fits (value sampleLargest / value sampleSmallest) ∧
    sampleLargest + sampleSmallest = sampleSmallest + sampleLargest ∧
    -(sampleLargest + sampleSmallest) = -sampleLargest + -sampleSmallest ∧
    sampleLargest - sampleSmallest = -(sampleSmallest - sampleLargest) ∧
    (-sampleLargest).div? sampleSmallest = sampleLargest.div? (-sampleSmallest) ∧
    sampleLargest + -sampleLargest = Number.zero ∧ sampleLargest + unset = sampleLargest := by
  have valid : Valid sampleLargest := Or.inr (by refine ⟨?_, ?_, ?_, ?_, ?_⟩ <;> decide +kernel)
  obtain ⟨sum, _, opposite, difference, _, quotient, nothing, zero⟩ := laws_survive_clamping valid sampleSmallest
  obtain ⟨q, _, front, back⟩ := quotient (by decide +kernel)
  exact ⟨by decide +kernel, by decide +kernel, sum, opposite, difference, front.trans back.symm, nothing,
    zero unset (Or.inr rfl)⟩

end Scriptlet.Proofs.NumberLaws
