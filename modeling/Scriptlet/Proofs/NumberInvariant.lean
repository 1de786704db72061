import Scriptlet.Number.Decimal
import Mathlib.Data.Nat.GCD.Basic
import Mathlib.Data.Nat.Log
import Mathlib.Tactic.Ring

/-! The form that arithmetic leaves its results in: both sides of the fraction below 64 bits, lowest
terms, and one spelling of zero. Every operation ends in a clamp, so the clamp carries the proof. -/

namespace Scriptlet.Proofs.NumberInvariant
open Number

theorem bound_eq : bound = 2 ^ 64 := rfl

theorem withRoom_eq (parts : Aligned) : parts.withRoom =
    if 2 ^ 127 ≤ parts.left ∨ 2 ^ 127 ≤ parts.right then ⟨parts.left >>> 1, parts.right >>> 1, parts.den >>> 1⟩
    else parts := rfl

/-- A number in lowest terms that fits, with zero written as `0 / 1`. -/
structure Normal (n : Number) : Prop where
  num_lt : n.num < bound
  den_pos : 0 < n.den
  den_lt : n.den < bound
  lowest : n.num.Coprime n.den
  zero_plain : n.num = 0 → n.den = 1 ∧ n.negative = false

/-- Normal, except that zero may still lack its denominator. -/
def Valid (n : Number) : Prop := n = unset ∨ Normal n

theorem zero_normal : Normal zero := by
  refine ⟨?_, ?_, ?_, ?_, fun _ => ⟨rfl, rfl⟩⟩ <;> decide

theorem denominator_eq {n : Number} (set : 0 < n.den) : n.denominator = n.den :=
  Nat.max_eq_left set

theorem Valid.num_lt {n : Number} (valid : Valid n) : n.num < bound := by
  rcases valid with rfl | normal
  · decide
  · exact normal.num_lt

theorem denominator_pos (n : Number) : 0 < n.denominator := Nat.lt_of_lt_of_le Nat.one_pos (Nat.le_max_right ..)

theorem Valid.denominator_lt {n : Number} (valid : Valid n) : n.denominator < bound := by
  rcases valid with rfl | normal
  · decide
  · rw [denominator_eq normal.den_pos]
    exact normal.den_lt

/-- A number without a denominator is zero, and zero is in lowest terms over one. -/
theorem Valid.lowest {n : Number} (valid : Valid n) : n.num.Coprime n.denominator := by
  rcases valid with rfl | normal
  · decide
  · rw [denominator_eq normal.den_pos]
    exact normal.lowest

theorem excess_comm (bits num den : Nat) : excess bits num den = excess bits den num := by
  simp only [excess, Nat.max_comm]

/-- Nothing is shifted if both sides fit already. -/
theorem excess_eq_zero {bits num den : Nat} (some : 0 < bits) (left : num < 2 ^ bits)
    (right : den < 2 ^ bits) : excess bits num den = 0 := by
  have logs : ∀ n, n < 2 ^ bits → n.log2 ≤ bits - 1 := by
    intro n small
    by_cases zero : n = 0
    · simp [zero]
    · have := (Nat.log2_lt zero).mpr small
      omega
  have := logs num left
  have := logs den right
  simp only [excess]
  omega

theorem shiftRight_excess_lt {bits : Nat} (some : 0 < bits) (num den : Nat) :
    num >>> excess bits num den < 2 ^ bits := by
  rw [Nat.shiftRight_eq_div_pow, Nat.div_lt_iff_lt_mul (Nat.two_pow_pos _), ← Nat.pow_add]
  have enough : num.log2 + 1 ≤ bits + excess bits num den := by
    simp only [excess]
    omega
  exact Nat.lt_of_lt_of_le Nat.lt_log2_self (Nat.pow_le_pow_right Nat.two_pos enough)

/-- A shift that keeps the leading bit of a denominator keeps it positive. -/
theorem shiftRight_pos {den shift : Nat} (positive : 0 < den) (kept : ¬den.log2 < shift) :
    0 < den >>> shift := by
  rw [Nat.shiftRight_eq_div_pow]
  apply Nat.div_pos _ (Nat.two_pow_pos _)
  exact (Nat.le_log2 (Nat.ne_of_gt positive)).mp (Nat.le_of_not_lt kept)

private theorem reduce_normal {num den : Nat} (negative : Bool) (numPos : 0 < num) (numLt : num < bound)
    (denPos : 0 < den) (denLt : den < bound) : Normal (reduce num den negative) := by
  have common : 0 < num.gcd den := Nat.gcd_pos_of_pos_left den numPos
  have some : 0 < num / num.gcd den := Nat.div_gcd_pos_of_pos_left den numPos
  refine ⟨?_, ?_, ?_, Nat.coprime_div_gcd_div_gcd common, ?_⟩
  · exact Nat.lt_of_le_of_lt (Nat.div_le_self ..) numLt
  · exact Nat.div_gcd_pos_of_pos_right num denPos
  · exact Nat.lt_of_le_of_lt (Nat.div_le_self ..) denLt
  · intro zero
    exact absurd zero (Nat.ne_of_gt some)

/-- In lowest terms already, and within 64 bits: squeezing changes nothing. -/
theorem squeeze_of_fits {num den : Nat} (negative : Bool) (some : num ≠ 0) (lowest : num.Coprime den)
    (numLt : num < bound) (denLt : den < bound) : squeeze num den negative = ⟨num, den, negative⟩ := by
  have unshifted : excess 64 num den = 0 := excess_eq_zero (by decide) numLt denLt
  simp [squeeze, unshifted, some, reduce, lowest.gcd_eq_one]

private theorem squeeze_normal {num den : Nat} (negative : Bool) (denPos : 0 < den) :
    Normal (squeeze num den negative) := by
  simp only [squeeze]
  split
  · refine ⟨?_, Nat.one_pos, ?_, Nat.coprime_one_right _, ?_⟩
    · simp [bound_eq]
    · simp [bound_eq]
    · intro zero
      simp [bound_eq] at zero
  next kept =>
    split
    · exact zero_normal
    next some =>
      have denLt : den >>> excess 64 num den < bound := by
        rw [excess_comm]
        exact shiftRight_excess_lt (by decide) den num
      exact reduce_normal negative (Nat.pos_of_ne_zero some) (shiftRight_excess_lt (by decide) num den)
        (shiftRight_pos denPos kept) denLt

private theorem clamp_normal (num den : Nat) (negative : Bool) : Normal (clamp num den negative) := by
  simp only [clamp]
  split
  · exact zero_normal
  next some =>
    apply squeeze_normal
    have positive : 0 < max den 1 := Nat.lt_of_lt_of_le Nat.one_pos (Nat.le_max_right ..)
    exact Nat.div_gcd_pos_of_pos_right num positive

theorem ofInt_normal (n : Int) : Normal (ofInt n) := clamp_normal ..

theorem add_normal (a b : Number) : Normal (a + b) := by
  change Normal (a.add b)
  simp only [add]
  repeat' split
  all_goals exact clamp_normal ..

theorem sub_normal (a b : Number) : Normal (a - b) := add_normal a b.neg

theorem mul_normal (a b : Number) : Normal (a * b) := clamp_normal ..

theorem div_normal {a b n : Number} (divided : a.div? b = some n) : Normal n := by
  simp only [div?] at divided
  split at divided
  · cases divided
  · cases divided
    exact clamp_normal ..

theorem ofRatio_normal {num den : Int} {n : Number} (divided : ofRatio? num den = some n) :
    Normal n := by
  simp only [ofRatio?] at divided
  split at divided
  · cases divided
  · exact div_normal divided

theorem parse_normal {literal : String} {n : Number} (read : parse? literal = some n) : Normal n := by
  simp only [parse?] at read
  obtain ⟨parts, _, rfl⟩ := Option.map_eq_some_iff.mp read
  exact clamp_normal ..

theorem neg_normal {n : Number} (normal : Normal n) : Normal (-n) := by
  change Normal n.neg
  simp only [neg, isZero, beq_iff_eq]
  split
  · exact normal
  next some =>
    exact ⟨normal.num_lt, normal.den_pos, normal.den_lt, normal.lowest, fun zero => absurd zero some⟩

theorem neg_valid {n : Number} (valid : Valid n) : Valid (-n) := by
  rcases valid with rfl | normal
  · exact Or.inl rfl
  · exact Or.inr (neg_normal normal)

end Scriptlet.Proofs.NumberInvariant
