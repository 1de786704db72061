import Scriptlet.Proofs.NumberInvariant
import Scriptlet.Proofs.Outcomes
import Mathlib.Data.Nat.BinaryRec

/-! Arithmetic carried out on words of 128 bits, one operation at a time. Of the operations it is only assumed that they
are exact, except that they report a result that is no word, a difference below zero and a division by zero. The
computations follow the same steps as the ones on unbounded numbers, loops included, and are shown to report nothing and
to give the same results. -/

namespace Scriptlet.Proofs.NumberWords
open Number NumberInvariant

inductive Fault where
  | overflow
  | underflow
  | divisionByZero
  deriving DecidableEq, Repr

abbrev Checked := Except Fault

def wordBound : Nat := 2 ^ 128

/-- The operations on words, and what is known of them: what they give, and what they report instead. -/
structure Words where
  word : Nat → Checked Nat
  plus : Nat → Nat → Checked Nat
  minus : Nat → Nat → Checked Nat
  times : Nat → Nat → Checked Nat
  dividedBy : Nat → Nat → Checked Nat
  rest : Nat → Nat → Checked Nat
  word_exact : ∀ n, n < wordBound → word n = .ok n
  word_overflow : ∀ n, wordBound ≤ n → word n = .error .overflow
  plus_exact : ∀ x y, x + y < wordBound → plus x y = .ok (x + y)
  plus_overflow : ∀ x y, wordBound ≤ x + y → plus x y = .error .overflow
  minus_exact : ∀ x y, y ≤ x → minus x y = .ok (x - y)
  minus_underflow : ∀ x y, x < y → minus x y = .error .underflow
  times_exact : ∀ x y, x * y < wordBound → times x y = .ok (x * y)
  times_overflow : ∀ x y, wordBound ≤ x * y → times x y = .error .overflow
  dividedBy_exact : ∀ x y, 0 < y → dividedBy x y = .ok (x / y)
  dividedBy_zero : ∀ x, dividedBy x 0 = .error .divisionByZero
  rest_exact : ∀ x y, 0 < y → rest x y = .ok (x % y)
  rest_zero : ∀ x, rest x 0 = .error .divisionByZero

section Computed

def word (n : Nat) : Checked Nat := if n < wordBound then .ok n else .error .overflow

def plus (x y : Nat) : Checked Nat := word (x + y)

def minus (x y : Nat) : Checked Nat := if y ≤ x then .ok (x - y) else .error .underflow

def times (x y : Nat) : Checked Nat := word (x * y)

def dividedBy (x y : Nat) : Checked Nat := if y = 0 then .error .divisionByZero else .ok (x / y)

def rest (x y : Nat) : Checked Nat := if y = 0 then .error .divisionByZero else .ok (x % y)

private theorem word_of_lt (n : Nat) (fits : n < wordBound) : word n = .ok n := if_pos fits

private theorem word_of_le (n : Nat) (large : wordBound ≤ n) :
    word n = .error .overflow := if_neg (Nat.not_lt.mpr large)

/-- Words computed on natural numbers, with a check of each result. -/
def computedWords : Words where
  word := word
  plus := plus
  minus := minus
  times := times
  dividedBy := dividedBy
  rest := rest
  word_exact := word_of_lt
  word_overflow := word_of_le
  plus_exact x y := word_of_lt (x + y)
  plus_overflow x y := word_of_le (x + y)
  minus_exact _ _ le := if_pos le
  minus_underflow _ _ less := if_neg (Nat.not_le.mpr less)
  times_exact x y := word_of_lt (x * y)
  times_overflow x y := word_of_le (x * y)
  dividedBy_exact _ _ positive := if_neg (Nat.ne_of_gt positive)
  dividedBy_zero _ := if_pos rfl
  rest_exact _ _ positive := if_neg (Nat.ne_of_gt positive)
  rest_zero _ := if_pos rfl

end Computed

variable (words : Words)

variable {words} in
private theorem rest_lt {x y r : Nat} (divided : words.rest x y = .ok r) : r < y := by
  rcases Nat.eq_zero_or_pos y with rfl | positive
  · cases (words.rest_zero x).symm.trans divided
  · cases (words.rest_exact x y positive).symm.trans divided
    exact Nat.mod_lt x positive

/-- Euclid's loop: the pair moves on to the divisor and the rest until nothing is left. -/
def euclid (x y : Nat) : Checked Nat :=
  if y = 0 then .ok x
  else match _divided : words.rest x y with
    | .error fault => .error fault
    | .ok r => euclid y r
termination_by y
decreasing_by exact rest_lt _divided

def divisor (x y : Nat) : Checked Nat := if x < y then euclid words y x else euclid words x y

/-- Halves both sides until they fit in 64 bits. There is no result if the denominator has come down
to one before that. -/
def halve (num den : Nat) : Option (Nat × Nat) :=
  if num < bound ∧ den < bound then some (num, den)
  else if den = 1 then none
  else halve (num >>> 1) (den >>> 1)
termination_by num + den
decreasing_by
  simp only [bound_eq, Nat.shiftRight_one] at *
  omega

inductive Round where
  | done (n : Number)
  | again (num den : Nat)

def round (num den : Nat) (negative : Bool) : Checked Round :=
  if num = 0 then .ok (.done zero)
  else do
    let common ← divisor words num den
    let num ← words.dividedBy num common
    let den ← words.dividedBy den common
    if num < bound ∧ den < bound then return .done ⟨num, den, negative⟩
    match halve num den with
    | none => return .done ⟨bound - 1, 1, negative⟩
    | some (num, den) => return .again num den

private theorem halve_le {num den : Nat} {halves : Nat × Nat} (halved : halve num den = some halves) :
    halves.1 + halves.2 ≤ num + den := by
  fun_induction halve num den with
  | case1 => cases halved; exact Nat.le_refl _
  | case2 => cases halved
  | case3 num den _ _ ih =>
    have := ih halved
    simp only [Nat.shiftRight_one] at this
    omega

private theorem halve_lt {num den : Nat} {halves : Nat × Nat} (large : ¬(num < bound ∧ den < bound))
    (halved : halve num den = some halves) : halves.1 + halves.2 < num + den := by
  rw [halve, if_neg large] at halved
  split at halved
  · cases halved
  · have := halve_le halved
    simp only [bound_eq, Nat.shiftRight_one] at this large
    omega

variable {words} in
private theorem dividedBy_le {x y q : Nat} (divided : words.dividedBy x y = .ok q) : q ≤ x := by
  rcases Nat.eq_zero_or_pos y with rfl | positive
  · cases (words.dividedBy_zero x).symm.trans divided
  · cases (words.dividedBy_exact x y positive).symm.trans divided
    exact Nat.div_le_self x y

variable {words} in
/-- Another round starts from a smaller pair. -/
theorem round_again_lt {num den nextNum nextDen : Nat} {negative : Bool}
    (again : round words num den negative = .ok (.again nextNum nextDen)) : nextNum + nextDen < num + den := by
  simp only [round] at again
  split at again
  · cases again
  · obtain ⟨common, _, again⟩ := bind_eq_ok again
    obtain ⟨left, leftOver, again⟩ := bind_eq_ok again
    obtain ⟨right, rightOver, again⟩ := bind_eq_ok again
    have leftLe := dividedBy_le leftOver
    have rightLe := dividedBy_le rightOver
    split at again
    · cases again
    next large =>
      split at again
      · cases again
      next halved =>
        cases again
        have := halve_lt large halved
        omega

/-- Brings a fraction to lowest terms within 64 bits, round after round. -/
def simplify (num den : Nat) (negative : Bool) : Checked Number :=
  match _rounded : round words num den negative with
  | .error fault => .error fault
  | .ok (.done n) => .ok n
  | .ok (.again nextNum nextDen) => simplify nextNum nextDen negative
termination_by num + den
decreasing_by exact round_again_lt _rounded

def create (num den : Nat) (negative : Bool) : Checked Number := simplify words num (max den 1) negative

private theorem euclid_eq (x y : Nat) : euclid words x y = .ok (x.gcd y) := by
  fun_induction euclid words x y with
  | case1 x => simp
  | case2 x y given fault divided =>
    cases (words.rest_exact x y (Nat.pos_of_ne_zero given)).symm.trans divided
  | case3 x y given r divided ih =>
    cases (words.rest_exact x y (Nat.pos_of_ne_zero given)).symm.trans divided
    rw [ih, Nat.gcd_comm y, ← Nat.gcd_rec, Nat.gcd_comm]

private theorem divisor_eq (x y : Nat) : divisor words x y = .ok (x.gcd y) := by
  simp only [divisor]
  split
  · rw [euclid_eq, Nat.gcd_comm]
  · exact euclid_eq words x y

private theorem log2_shiftRight_one (n : Nat) : (n >>> 1).log2 = n.log2 - 1 := by
  by_cases small : n >>> 1 = 0
  · have : n.log2 < 1 := by
      by_cases zero : n = 0
      · simp [zero]
      · rw [Nat.log2_lt zero]
        simp only [Nat.shiftRight_one] at small
        omega
    simp only [small, Nat.log2_zero]
    omega
  · rw [Nat.log2_eq_succ_log2_shiftRight small]
    rfl

/-- Halving one bit at a time comes to the same as one shift by the excess. -/
theorem halve_eq {num den : Nat} (positive : 0 < den) :
    halve num den = if den.log2 < excess 64 num den then none
      else some (num >>> excess 64 num den, den >>> excess 64 num den) := by
  fun_induction halve num den with
  | case1 num den fits => simp [excess_eq_zero (by decide) fits.1 fits.2]
  | case2 num large =>
    -- Only the numerator is too large, and the denominator has no bit to lose.
    have numLarge : 2 ^ 64 ≤ num := by
      simp only [bound_eq] at large
      omega
    have bits : 64 ≤ num.log2 := (Nat.le_log2 (by omega)).mpr numLarge
    rw [if_pos]
    simp only [excess]
    have := Nat.le_max_left num.log2 (Nat.log2 1)
    have : Nat.log2 1 = 0 := by decide
    omega
  | case3 num den large more ih =>
    have bits : 64 ≤ max num.log2 den.log2 := by
      simp only [bound_eq, not_and_or, Nat.not_lt] at large
      rcases large with side | side
      · exact Nat.le_trans ((Nat.le_log2 (by omega)).mpr side) (Nat.le_max_left ..)
      · exact Nat.le_trans ((Nat.le_log2 (by omega)).mpr side) (Nat.le_max_right ..)
    have halfPositive : 0 < den >>> 1 := by
      simp only [Nat.shiftRight_one]
      omega
    have denBits : 0 < den.log2 := (Nat.le_log2 (by omega)).mpr (by omega)
    have step : excess 64 num den = 1 + excess 64 (num >>> 1) (den >>> 1) := by
      simp only [excess, log2_shiftRight_one]
      omega
    rw [ih halfPositive, step, log2_shiftRight_one, Nat.shiftRight_add, Nat.shiftRight_add]
    split <;> split
    all_goals first | rfl | omega

private theorem round_eq {num : Nat} (den : Nat) (negative : Bool) (some : num ≠ 0) :
    round words num den negative =
      if num / num.gcd den < bound ∧ den / num.gcd den < bound then .ok (.done (reduce num den negative))
      else match halve (num / num.gcd den) (den / num.gcd den) with
        | none => .ok (.done ⟨bound - 1, 1, negative⟩)
        | Option.some (num, den) => .ok (.again num den) := by
  have common : 0 < num.gcd den := Nat.gcd_pos_of_pos_left den (Nat.pos_of_ne_zero some)
  simp only [round, if_neg some, divisor_eq, words.dividedBy_exact _ _ common, bind, Except.bind]
  split
  · rfl
  · split <;> rfl

variable {words} in
private theorem simplify_of_done {num den : Nat} {negative : Bool} {n : Number}
    (rounded : round words num den negative = .ok (.done n)) : simplify words num den negative = .ok n := by
  rw [simplify]
  split
  next seen => cases rounded.symm.trans seen
  next seen =>
    cases rounded.symm.trans seen
    rfl
  next seen => cases rounded.symm.trans seen

variable {words} in
private theorem simplify_of_again {num den nextNum nextDen : Nat} {negative : Bool}
    (rounded : round words num den negative = .ok (.again nextNum nextDen)) :
    simplify words num den negative = simplify words nextNum nextDen negative := by
  rw [simplify]
  split
  next seen => cases rounded.symm.trans seen
  next seen => cases rounded.symm.trans seen
  next seen =>
    cases rounded.symm.trans seen
    rfl

/-- A fraction that fits takes one round. -/
theorem simplify_of_fits {num den : Nat} (negative : Bool) (numLt : num < bound) (denLt : den < bound) :
    simplify words num den negative = .ok (if num = 0 then zero else reduce num den negative) := by
  apply simplify_of_done
  by_cases none : num = 0
  · simp only [round, if_pos none]
  · have fits : num / num.gcd den < bound ∧ den / num.gcd den < bound :=
      ⟨Nat.lt_of_le_of_lt (Nat.div_le_self ..) numLt, Nat.lt_of_le_of_lt (Nat.div_le_self ..) denLt⟩
    rw [round_eq words den negative none, if_pos fits, if_neg none]

/-- The rounds of simplification end in what the clamp gives at once. -/
theorem simplify_eq {num den : Nat} (negative : Bool) (positive : 0 < den) :
    simplify words num den negative = .ok (clamp num den negative) := by
  by_cases none : num = 0
  · rw [simplify_of_done (n := zero) (by simp only [round, if_pos none])]
    simp only [clamp, if_pos none]
  · have common : 0 < num.gcd den := Nat.gcd_pos_of_pos_left den (Nat.pos_of_ne_zero none)
    have some : num / num.gcd den ≠ 0 :=
      Nat.ne_of_gt (Nat.div_gcd_pos_of_pos_left den (Nat.pos_of_ne_zero none))
    have denPositive : 0 < den / num.gcd den := Nat.div_gcd_pos_of_pos_right num positive
    simp only [clamp, if_neg none, Nat.max_eq_left positive]
    by_cases fits : num / num.gcd den < bound ∧ den / num.gcd den < bound
    · rw [simplify_of_done (n := reduce num den negative) (by rw [round_eq words den negative none, if_pos fits]),
        squeeze_of_fits negative some (Nat.coprime_div_gcd_div_gcd common) fits.1 fits.2]
      rfl
    · have rounded := round_eq words den negative none
      rw [if_neg fits, halve_eq denPositive] at rounded
      generalize num / num.gcd den = p at *
      generalize den / num.gcd den = q at *
      simp only [squeeze]
      split at rounded
      next saturated =>
        split at saturated
        next gone =>
          rw [simplify_of_done rounded, if_pos gone]
        · cases saturated
      next halvedNum halvedDen halved =>
        split at halved
        · cases halved
        next kept =>
          cases halved
          have numLt : p >>> excess 64 p q < bound := shiftRight_excess_lt (by decide) p q
          have denLt : q >>> excess 64 p q < bound := by
            rw [excess_comm]
            exact shiftRight_excess_lt (by decide) q p
          rw [simplify_of_again rounded, simplify_of_fits words negative numLt denLt, if_neg kept]

theorem create_eq (num den : Nat) (negative : Bool) :
    create words num den negative = .ok (clamp num den negative) := by
  have positive : 0 < max den 1 := Nat.lt_of_lt_of_le Nat.one_pos (Nat.le_max_right ..)
  rw [create, simplify_eq words negative positive]
  simp [clamp]

def align (a b : Number) : Checked Aligned := do
  let common ← divisor words a.denominator b.denominator
  let den ← words.times (← words.dividedBy a.denominator common) b.denominator
  let left ← words.times a.num (← words.dividedBy den a.denominator)
  let right ← words.times b.num (← words.dividedBy den b.denominator)
  return ⟨left, right, den⟩

def add (a b : Number) : Checked Number := do
  let parts := (← align words a b).withRoom
  if a.negative = b.negative then create words (← words.plus parts.left parts.right) parts.den a.negative
  else if parts.right ≤ parts.left then create words (← words.minus parts.left parts.right) parts.den a.negative
  else create words (← words.minus parts.right parts.left) parts.den b.negative

def mul (a b : Number) : Checked Number := do
  create words (← words.times a.num b.num) (← words.times a.denominator b.denominator) (a.negative != b.negative)

def div (a b : Number) : Checked (Option Number) :=
  if b.isZero then .ok none
  else do
    let n ← create words (← words.times a.num b.denominator) (← words.times a.denominator b.num)
      (a.negative != b.negative)
    return some n

def ofInt (n : Int64) : Checked Number := do
  create words (← words.word n.toInt.natAbs) 1 (n.toInt < 0)

def ofRatio (num den : Int64) : Checked (Option Number) :=
  if den.toInt = 0 then .ok none
  else do div words (← ofInt words num) (← ofInt words den)

/-- Halves both sides of an unbounded fraction until each is a word. -/
def shorten (num den : Nat) : Nat × Nat :=
  if num < wordBound ∧ den < wordBound then (num, den)
  else shorten (num >>> 1) (den >>> 1)
termination_by num + den
decreasing_by
  simp only [wordBound, Nat.shiftRight_one] at *
  omega

/-- A literal is read without bounds up to lowest terms, and goes on as words from there. -/
def ofMagnitude (num den : Nat) (negative : Bool) : Checked Number := do
  let exact := reduce num den negative
  let (num, den) := shorten exact.num exact.den
  create words (← words.word num) (← words.word den) negative

def parse (literal : String) : Checked (Option Number) :=
  let (negative, body) := match literal.toList with
    | '-' :: rest => (true, rest)
    | chars => (false, chars)
  match decimalParts? body with
  | none => .ok none
  | some (whole, fraction) =>
    return some (← ofMagnitude words (ofDigits (whole ++ fraction)) (10 ^ fraction.length) negative)

private theorem mul_lt_wordBound {x y : Nat} (left : x < bound) (right : y < bound) : x * y < wordBound := by
  calc x * y < bound * bound := Nat.mul_lt_mul'' left right
    _ = wordBound := by decide

private theorem times_eq {x y : Nat} (left : x < bound) (right : y < bound) : words.times x y = .ok (x * y) :=
  words.times_exact x y (mul_lt_wordBound left right)

/-- The factors by which the numerators grow are no larger than the denominators. -/
theorem factor_lt {p q : Nat} (positive : 0 < p) (fits : q < bound) : p / p.gcd q * q / p < bound := by
  have le : p / p.gcd q * q ≤ p * q := Nat.mul_le_mul_right q (Nat.div_le_self ..)
  calc p / p.gcd q * q / p ≤ p * q / p := Nat.div_le_div_right le
    _ = q := Nat.mul_div_cancel_left q positive
    _ < bound := fits

private theorem other_factor_lt {p q : Nat} (positive : 0 < q) (fits : p < bound) :
    p / p.gcd q * q / q < bound := by
  rw [Nat.mul_div_cancel _ positive]
  exact Nat.lt_of_le_of_lt (Nat.div_le_self ..) fits

variable {a b : Number}

theorem align_eq (left : Valid a) (right : Valid b) : align words a b = .ok (Number.align a b) := by
  have common : 0 < a.denominator.gcd b.denominator := Nat.gcd_pos_of_pos_left _ (denominator_pos a)
  have part : a.denominator / a.denominator.gcd b.denominator < bound :=
    Nat.lt_of_le_of_lt (Nat.div_le_self ..) left.denominator_lt
  simp only [align, divisor_eq, bind, Except.bind, words.dividedBy_exact _ _ common,
    times_eq words part right.denominator_lt, words.dividedBy_exact _ _ (denominator_pos a),
    words.dividedBy_exact _ _ (denominator_pos b),
    times_eq words left.num_lt (factor_lt (denominator_pos a) right.denominator_lt),
    times_eq words right.num_lt (other_factor_lt (denominator_pos b) left.denominator_lt)]
  rfl

private theorem align_lt (left : Valid a) (right : Valid b) :
    (Number.align a b).left < wordBound ∧ (Number.align a b).right < wordBound :=
  ⟨mul_lt_wordBound left.num_lt (factor_lt (denominator_pos a) right.denominator_lt),
    mul_lt_wordBound right.num_lt (other_factor_lt (denominator_pos b) left.denominator_lt)⟩

/-- The shift before a sum is what keeps the carry within a word. -/
theorem withRoom_lt {parts : Aligned} (fits : parts.left < wordBound ∧ parts.right < wordBound) :
    parts.withRoom.left + parts.withRoom.right < wordBound := by
  simp only [wordBound] at fits ⊢
  simp only [withRoom_eq]
  split
  · simp only [Nat.shiftRight_one]
    omega
  · omega

private theorem add_eq (left : Valid a) (right : Valid b) : add words a b = .ok (a + b) := by
  have room := withRoom_lt (align_lt left right)
  change add words a b = .ok (Number.add a b)
  simp only [add, align_eq words left right, bind, Except.bind, Number.add]
  split
  · rw [words.plus_exact _ _ room]
    exact create_eq ..
  · split
    next le =>
      rw [words.minus_exact _ _ le]
      exact create_eq ..
    next less =>
      rw [words.minus_exact _ _ (Nat.le_of_not_le less)]
      exact create_eq ..

theorem mul_eq (left : Valid a) (right : Valid b) : mul words a b = .ok (a * b) := by
  simp only [mul, times_eq words left.num_lt right.num_lt, times_eq words left.denominator_lt right.denominator_lt,
    bind, Except.bind]
  exact create_eq ..

theorem div_eq (left : Valid a) (right : Valid b) : div words a b = .ok (a.div? b) := by
  simp only [div, div?]
  split
  · rfl
  · simp only [times_eq words left.num_lt right.denominator_lt, times_eq words left.denominator_lt right.num_lt,
      create_eq, bind, Except.bind]
    rfl

private theorem ofInt_eq (n : Int64) : ofInt words n = .ok (Number.ofInt n.toInt) := by
  have lower := n.le_toInt
  have upper := n.toInt_lt
  have fits : n.toInt.natAbs < wordBound := by
    simp only [wordBound]
    omega
  simp only [ofInt, words.word_exact _ fits, bind, Except.bind]
  exact create_eq ..

private theorem ofRatio_eq (num den : Int64) : ofRatio words num den = .ok (ofRatio? num.toInt den.toInt) := by
  simp only [ofRatio, ofRatio?]
  split
  · rfl
  · simp only [ofInt_eq, bind, Except.bind]
    exact div_eq words (Or.inr (ofInt_normal _)) (Or.inr (ofInt_normal _))

private theorem shorten_eq (num den : Nat) :
    shorten num den = (num >>> excess 128 num den, den >>> excess 128 num den) := by
  fun_induction shorten num den with
  | case1 num den fits => simp [excess_eq_zero (by decide) fits.1 fits.2]
  | case2 num den large ih =>
    have bits : 128 ≤ max num.log2 den.log2 := by
      simp only [wordBound, not_and_or, Nat.not_lt] at large
      rcases large with side | side
      · exact Nat.le_trans ((Nat.le_log2 (by omega)).mpr side) (Nat.le_max_left ..)
      · exact Nat.le_trans ((Nat.le_log2 (by omega)).mpr side) (Nat.le_max_right ..)
    have step : excess 128 num den = 1 + excess 128 (num >>> 1) (den >>> 1) := by
      simp only [excess, log2_shiftRight_one]
      omega
    rw [ih, step, Nat.shiftRight_add, Nat.shiftRight_add]

private theorem ofMagnitude_eq (num den : Nat) (negative : Bool) :
    ofMagnitude words num den negative = .ok (Number.ofMagnitude num den negative) := by
  simp only [ofMagnitude, Number.ofMagnitude, shorten_eq]
  generalize (reduce num den negative).num = p
  generalize (reduce num den negative).den = q
  have left : p >>> excess 128 p q < wordBound := shiftRight_excess_lt (by decide) p q
  have right : q >>> excess 128 p q < wordBound := by
    rw [excess_comm]
    exact shiftRight_excess_lt (by decide) q p
  simp only [words.word_exact _ left, words.word_exact _ right, bind, Except.bind]
  exact create_eq ..

theorem parse_eq (literal : String) : parse words literal = .ok (parse? literal) := by
  simp only [parse, parse?]
  generalize decimalParts? _ = parts
  cases parts with
  | none => rfl
  | some parts =>
    simp only [ofMagnitude_eq, bind, Except.bind]
    rfl

/-- How a number was come by: from nothing, an integer, a ratio or a literal, and from there by
arithmetic. -/
inductive Calculation where
  | unset
  | integer (n : Int64)
  | ratio (num den : Int64)
  | literal (text : String)
  | sum (a b : Calculation)
  | difference (a b : Calculation)
  | product (a b : Calculation)
  | quotient (a b : Calculation)
  | negation (a : Calculation)

namespace Calculation

/-- The number that a calculation comes to. There is none if a literal is malformed or a divisor
zero. -/
def result : Calculation → Option Number
  | unset => some Number.unset
  | integer n => some (Number.ofInt n.toInt)
  | ratio num den => ofRatio? num.toInt den.toInt
  | literal text => parse? text
  | sum a b => do return (← a.result) + (← b.result)
  | difference a b => do return (← a.result) - (← b.result)
  | product a b => do return (← a.result) * (← b.result)
  | quotient a b => do (← a.result).div? (← b.result)
  | negation a => do return -(← a.result)

/-- Applies an operation on words to two results, if both are there. -/
def both (a b : Checked (Option Number)) (operation : Number → Number → Checked (Option Number)) :
    Checked (Option Number) := do
  match ← a, ← b with
  | some left, some right => operation left right
  | _, _ => return none

/-- The same calculation with every operation carried out on words. Negation needs none of them. -/
def onWords : Calculation → Checked (Option Number)
  | unset => .ok (some Number.unset)
  | integer n => do return some (← ofInt words n)
  | ratio num den => ofRatio words num den
  | literal text => parse words text
  | sum a b => both a.onWords b.onWords fun left right => do return some (← add words left right)
  | difference a b => both a.onWords b.onWords fun left right => do return some (← add words left (-right))
  | product a b => both a.onWords b.onWords fun left right => do return some (← mul words left right)
  | quotient a b => both a.onWords b.onWords (div words)
  | negation a => do return (← a.onWords).map Number.neg

/-- What holds of the results of two calculations holds of what an operation makes of them. -/
theorem both_eq {a b : Calculation} {operation : Number → Number → Checked (Option Number)}
    {apply : Number → Number → Option Number}
    (left : a.onWords words = .ok a.result) (right : b.onWords words = .ok b.result)
    (agree : ∀ m n, a.result = some m → b.result = some n → operation m n = .ok (apply m n)) :
    both (a.onWords words) (b.onWords words) operation = .ok (a.result.bind fun m => b.result.bind (apply m)) := by
  simp only [both, left, right, bind, Except.bind]
  cases first : a.result with
  | none => rfl
  | some m =>
    cases second : b.result with
    | none => rfl
    | some n => exact agree m n first second

/-- The results of all calculations are valid, whatever was rounded or saturated on the way. -/
theorem result_valid (c : Calculation) : ∀ n, c.result = some n → Valid n := by
  induction c with
  | unset => rintro n ⟨⟩; exact Or.inl rfl
  | integer n => rintro m ⟨⟩; exact Or.inr (ofInt_normal _)
  | ratio num den => exact fun n divided => Or.inr (ofRatio_normal divided)
  | literal text => exact fun n read => Or.inr (parse_normal read)
  | sum a b _ _ =>
    intro n found
    obtain ⟨l, _, found⟩ := Option.bind_eq_some_iff.mp found
    obtain ⟨r, _, found⟩ := Option.bind_eq_some_iff.mp found
    cases found
    exact Or.inr (add_normal l r)
  | difference a b _ _ =>
    intro n found
    obtain ⟨l, _, found⟩ := Option.bind_eq_some_iff.mp found
    obtain ⟨r, _, found⟩ := Option.bind_eq_some_iff.mp found
    cases found
    exact Or.inr (sub_normal l r)
  | product a b _ _ =>
    intro n found
    obtain ⟨l, _, found⟩ := Option.bind_eq_some_iff.mp found
    obtain ⟨r, _, found⟩ := Option.bind_eq_some_iff.mp found
    cases found
    exact Or.inr (mul_normal l r)
  | quotient a b _ _ =>
    intro n found
    obtain ⟨l, _, found⟩ := Option.bind_eq_some_iff.mp found
    obtain ⟨r, _, found⟩ := Option.bind_eq_some_iff.mp found
    exact Or.inr (div_normal found)
  | negation a ih =>
    intro n found
    obtain ⟨m, inner, found⟩ := Option.bind_eq_some_iff.mp found
    cases found
    exact neg_valid (ih m inner)

/-- Carried out on words, a calculation reports nothing and comes to the same number. -/
theorem onWords_eq_result (c : Calculation) : c.onWords words = .ok c.result := by
  induction c with
  | unset => rfl
  | integer n => simp [onWords, result, ofInt_eq, bind, Except.bind, pure, Except.pure]
  | ratio num den => exact ofRatio_eq words num den
  | literal text => exact parse_eq words text
  | sum a b left right =>
    refine both_eq words left right fun m n first second => ?_
    rw [add_eq words (a.result_valid m first) (b.result_valid n second)]
    rfl
  | difference a b left right =>
    refine both_eq words left right fun m n first second => ?_
    rw [add_eq words (a.result_valid m first) (neg_valid (b.result_valid n second))]
    rfl
  | product a b left right =>
    refine both_eq words left right fun m n first second => ?_
    rw [mul_eq words (a.result_valid m first) (b.result_valid n second)]
    rfl
  | quotient a b left right =>
    refine both_eq words left right fun m n first second => ?_
    exact div_eq words (a.result_valid m first) (b.result_valid n second)
  | negation a ih =>
    simp only [onWords, ih, bind, Except.bind, result]
    cases a.result <;> rfl

end Calculation

/-- Every number that can be calculated fits in 64 bits on both sides and is in lowest terms with one
spelling of zero, and no operation on words that the calculation is made of overflows, underflows or
divides by zero. -/
theorem calculation_fits_words (words : Words) (c : Calculation) :
    c.onWords words = .ok c.result ∧
    ∀ n, c.result = some n → n = unset ∨
      (n.num < 2 ^ 64 ∧ 1 ≤ n.den ∧ n.den < 2 ^ 64 ∧ n.num.gcd n.den = 1 ∧
        (n.num = 0 → n.den = 1 ∧ n.negative = false)) := by
  refine ⟨c.onWords_eq_result words, fun n found => ?_⟩
  rcases c.result_valid n found with rfl | normal
  · exact Or.inl rfl
  · exact Or.inr ⟨normal.num_lt, normal.den_pos, normal.den_lt, normal.lowest, normal.zero_plain⟩

/-- Two fractions whose sum goes through the shift before it and has to be rounded. -/
def crowdedSum : Calculation :=
  .sum (.quotient (.literal "18446744073709551615") (.literal "18446744073709551614"))
    (.quotient (.literal "18446744073709551614") (.literal "18446744073709551613"))

theorem crowdedSum_fits_words :
    ∃ n, crowdedSum.result = some n ∧ crowdedSum.onWords computedWords = .ok (some n) ∧
      n.num < 2 ^ 64 ∧ 1 ≤ n.den ∧ n.den < 2 ^ 64 ∧ n.num.gcd n.den = 1 := by
  have result : crowdedSum.result = some ⟨18446744073709551615, 9223372036854775807, false⟩ := by decide +kernel
  obtain ⟨onWords, form⟩ := calculation_fits_words computedWords crowdedSum
  rcases form _ result with none | ⟨num, positive, den, lowest, _⟩
  · cases none
  · exact ⟨_, result, onWords.trans (congrArg _ result), num, positive, den, lowest⟩

end Scriptlet.Proofs.NumberWords
