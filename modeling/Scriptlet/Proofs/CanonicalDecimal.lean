import Scriptlet.Proofs.DecimalValue

/-! Canonical decimal literals, described apart from the function that makes them: digits only, no
redundant zeros, and a digit on each side of a point. Canonical spellings are of this form, and what is
of this form is its own canonical spelling. -/

namespace Scriptlet.Proofs.CanonicalDecimal
open Number DecimalValue

structure IsWhole (digits : List Char) : Prop where
  all : ∀ c ∈ digits, c.isDigit = true
  ne_nil : digits ≠ []
  leading : digits.head? = some '0' → digits = ['0']

structure IsFraction (digits : List Char) : Prop where
  all : ∀ c ∈ digits, c.isDigit = true
  ne_nil : digits ≠ []
  trailing : digits.getLast? = some '0' → digits = ['0']

inductive IsCanonical : List Char → Prop where
  | integer {whole : List Char} (front : IsWhole whole) : IsCanonical whole
  | pointed {whole fraction : List Char} (front : IsWhole whole) (back : IsFraction fraction) :
      IsCanonical (whole ++ '.' :: fraction)

theorem orZero_of_ne_nil {digits : List Char} (some : digits ≠ []) : orZero digits = digits := by
  rw [orZero, if_neg (by simpa using some)]

private theorem head_dropWhile_zero (digits : List Char) : (digits.dropWhile (· == '0')).head? ≠ some '0' := by
  intro front
  have stopped := List.head?_dropWhile_not (· == '0') digits
  simp [front] at stopped

private theorem getLast_dropTrailing (digits : List Char) : (dropTrailing '0' digits).getLast? ≠ some '0' := by
  rw [dropTrailing, List.getLast?_reverse]
  exact head_dropWhile_zero digits.reverse

theorem isWhole_orZero {digits : List Char} (all : ∀ c ∈ digits, isDigit c = true) :
    IsWhole (orZero (digits.dropWhile (· == '0'))) := by
  refine ⟨orZero_isDigit ?_, orZero_ne_nil _, ?_⟩
  · intro c member
    exact all c ((List.dropWhile_sublist _).subset member)
  · intro front
    by_cases none : digits.dropWhile (· == '0') = []
    · rw [none]
      rfl
    · rw [orZero_of_ne_nil none] at front
      exact absurd front (head_dropWhile_zero digits)

theorem isFraction_orZero {digits : List Char} (all : ∀ c ∈ digits, isDigit c = true) :
    IsFraction (orZero (dropTrailing '0' digits)) := by
  refine ⟨orZero_isDigit ?_, orZero_ne_nil _, ?_⟩
  · intro c member
    have kept := (List.dropWhile_sublist _).subset (List.mem_reverse.mp member)
    exact all c (List.mem_reverse.mp kept)
  · intro final
    by_cases none : dropTrailing '0' digits = []
    · rw [none]
      rfl
    · rw [orZero_of_ne_nil none] at final
      exact absurd final (getLast_dropTrailing digits)

theorem IsWhole.orZero_eq {digits : List Char} (whole : IsWhole digits) :
    orZero (digits.dropWhile (· == '0')) = digits := by
  obtain ⟨c, rest, rfl⟩ := List.exists_cons_of_ne_nil whole.ne_nil
  by_cases zero : c = '0'
  · subst zero
    cases whole.leading rfl
    rfl
  · have kept : (c :: rest).dropWhile (· == '0') = c :: rest :=
      List.dropWhile_cons_of_neg (by simpa using zero)
    rw [kept, orZero_of_ne_nil (List.cons_ne_nil c rest)]

theorem IsFraction.orZero_eq {digits : List Char} (fraction : IsFraction digits) :
    orZero (dropTrailing '0' digits) = digits := by
  obtain ⟨front, last, rfl⟩ := digits.eq_nil_or_concat'.resolve_left fraction.ne_nil
  by_cases zero : last = '0'
  · subst zero
    have alone := fraction.trailing (by simp)
    rw [alone]
    rfl
  · have kept : dropTrailing '0' (front ++ [last]) = front ++ [last] := by
      simp [dropTrailing, zero]
    rw [kept, orZero_of_ne_nil (by simp)]

private theorem digitsOf_eq {digits : List Char} (all : ∀ c ∈ digits, isDigit c = true) : digitsOf digits = digits := by
  apply List.filter_eq_self.mpr
  intro c member
  simpa using (isDigit_ne (all c member)).2.1

theorem canonicalSpelling_isCanonical (d : WrittenDecimal) : IsCanonical d.canonicalSpelling := by
  have front : IsWhole d.front := isWhole_orZero (digitsOf_isDigit d.whole_isSide)
  rw [WrittenDecimal.canonicalSpelling, WrittenDecimal.back]
  cases given : d.fraction with
  | none =>
    rw [Option.map_none, List.append_nil]
    exact .integer front
  | some side => exact .pointed front (isFraction_orZero (digitsOf_isDigit (d.fractionSide side given)))

private theorem isSide_of_all {digits : List Char} (all : ∀ c ∈ digits, isDigit c = true) : IsSide digits :=
  fun c member => Or.inl (all c member)

theorem IsCanonical.decimal {chars : List Char} (canonical : IsCanonical chars) :
    ∃ d : WrittenDecimal, d.chars = chars ∧ d.canonicalSpelling = chars := by
  cases canonical with
  | integer front =>
    obtain ⟨first, others, rfl⟩ := List.exists_cons_of_ne_nil front.ne_nil
    obtain ⟨leading, rest⟩ := List.forall_mem_cons.mp front.all
    refine ⟨⟨first, others, none, leading, isSide_of_all rest, by simp⟩,
      by simp [WrittenDecimal.chars, WrittenDecimal.whole], ?_⟩
    simp [WrittenDecimal.canonicalSpelling, WrittenDecimal.front, WrittenDecimal.back, WrittenDecimal.whole,
      digitsOf_eq front.all,
      front.orZero_eq]
  | @pointed _ fraction front back =>
    obtain ⟨first, others, rfl⟩ := List.exists_cons_of_ne_nil front.ne_nil
    obtain ⟨leading, rest⟩ := List.forall_mem_cons.mp front.all
    have side : ∀ given ∈ some fraction, IsSide given := by
      intro given same
      cases Option.mem_some_iff.mp same
      exact isSide_of_all back.all
    refine ⟨⟨first, others, some fraction, leading, isSide_of_all rest, side⟩, rfl, ?_⟩
    simp [WrittenDecimal.canonicalSpelling, WrittenDecimal.front, WrittenDecimal.back, WrittenDecimal.whole,
      digitsOf_eq front.all,
      front.orZero_eq, digitsOf_eq back.all, back.orZero_eq]

end Scriptlet.Proofs.CanonicalDecimal
