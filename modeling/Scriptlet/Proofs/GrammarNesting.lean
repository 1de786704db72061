import Scriptlet.Grammar.Shape

/-! Properly nested brackets. Whatever looks for a token outside all brackets, or for the partner of a
bracket, passes a nested stretch of tokens as a whole. -/

namespace Scriptlet.Proofs.GrammarNesting
open Grammar

/-- A kind of bracket and the kind that closes it. -/
def IsPair (opening closing : TokenKind) : Prop :=
  opening = .openParen ∧ closing = .closeParen ∨ opening = .openBrace ∧ closing = .closeBrace

def IsBracket (kind : TokenKind) : Prop :=
  kind = .openParen ∨ kind = .closeParen ∨ kind = .openBrace ∨ kind = .closeBrace

instance (kind : TokenKind) : Decidable (IsBracket kind) :=
  inferInstanceAs (Decidable (_ ∨ _))

theorem parens_pair : IsPair .openParen .closeParen := Or.inl ⟨rfl, rfl⟩

theorem braces_pair : IsPair .openBrace .closeBrace := Or.inr ⟨rfl, rfl⟩

/-- Brackets come in pairs of one kind, and pairs do not cross. -/
inductive Nested : List Token → Prop where
  | nil : Nested []
  | plain {t : Token} {rest : List Token} (outside : ¬IsBracket t.kind) (after : Nested rest) :
      Nested (t :: rest)
  | bracket {first last : Token} {inner rest : List Token} (pair : IsPair first.kind last.kind)
      (inside : Nested inner) (after : Nested rest) : Nested (first :: (inner ++ last :: rest))

theorem Nested.append {first second : List Token} (before : Nested first) (after : Nested second) :
    Nested (first ++ second) := by
  induction before with
  | nil => exact after
  | plain outside _ ih => exact .plain outside ih
  | bracket pair inside _ _ ih => simpa using Nested.bracket pair inside ih

theorem Nested.single {t : Token} (outside : ¬IsBracket t.kind) : Nested [t] := .plain outside .nil

theorem Nested.cons {t : Token} {rest : List Token} {kind : TokenKind} (after : Nested rest) (first : t.kind = kind)
    (outside : ¬IsBracket kind) : Nested (t :: rest) := .plain (first ▸ outside) after

theorem Nested.wrap {first last : Token} {inner : List Token} (pair : IsPair first.kind last.kind)
    (inside : Nested inner) : Nested (first :: (inner ++ [last])) := .bracket pair inside .nil

/-- Something nested may be put in anywhere. -/
theorem Nested.insert {before middle rest : List Token} (whole : Nested (before ++ rest)) (inside : Nested middle) :
    Nested (before ++ (middle ++ rest)) := by
  generalize joined : before ++ rest = ts at whole
  induction whole generalizing before rest with
  | nil =>
    obtain ⟨rfl, rfl⟩ := List.append_eq_nil_iff.mp joined
    exact inside.append .nil
  | plain outside after ih =>
    cases before with
    | nil =>
      cases joined
      exact inside.append (.plain outside after)
    | cons _ before =>
      cases joined
      exact .plain outside (ih rfl)
  | @bracket first last inner others pair within after ihWithin ihAfter =>
    cases before with
    | nil =>
      cases joined
      exact inside.append (.bracket pair within after)
    | cons _ before =>
      obtain ⟨rfl, onward⟩ := List.cons.inj joined
      -- The place is within the brackets, just in front of the closing one, or behind it.
      rcases List.append_eq_append_iff.mp onward with ⟨back, rfl, rfl⟩ | ⟨front, rfl, split⟩
      · have both := Nested.bracket pair (ihWithin rfl) after
        simpa using both
      · cases front with
        | nil =>
          cases split
          have both := Nested.bracket pair (within.append inside) after
          simpa using both
        | cons _ front =>
          cases split
          have both := Nested.bracket pair within (ihAfter rfl)
          simpa using both

/-- Of two pairs of brackets either both ends agree or neither token of one is in the other. -/
theorem pair_cases {opening closing first last : TokenKind} (wanted : IsPair opening closing)
    (found : IsPair first last) :
    (first = opening ∧ last = closing ∧ opening ≠ closing) ∨
    (first ≠ opening ∧ first ≠ closing ∧ last ≠ opening ∧ last ≠ closing) := by
  rcases wanted with ⟨rfl, rfl⟩ | ⟨rfl, rfl⟩ <;> rcases found with ⟨rfl, rfl⟩ | ⟨rfl, rfl⟩ <;> simp

private theorem ne_of_pair {opening closing kind : TokenKind} (pair : IsPair opening closing)
    (outside : ¬IsBracket kind) : kind ≠ opening ∧ kind ≠ closing := by
  simp only [IsBracket, not_or] at outside
  rcases pair with ⟨rfl, rfl⟩ | ⟨rfl, rfl⟩
  · exact ⟨outside.1, outside.2.1⟩
  · exact ⟨outside.2.2.1, outside.2.2.2⟩

section Closing
variable {opening closing : TokenKind} {t : Token} {rest : List Token}

private theorem closing_skip (depth : Nat) (opens : t.kind ≠ opening) (closes : t.kind ≠ closing) :
    closing? opening closing depth (t :: rest) = (closing? opening closing depth rest).map (· + 1) := by
  rw [closing?, if_neg opens, if_neg closes]

private theorem closing_open (depth : Nat) (opens : t.kind = opening) :
    closing? opening closing depth (t :: rest) =
      (closing? opening closing (depth + 1) rest).map (· + 1) := by
  rw [closing?, if_pos opens]

private theorem closing_inner (depth : Nat) (different : opening ≠ closing) (closes : t.kind = closing) :
    closing? opening closing (depth + 2) (t :: rest) =
      (closing? opening closing (depth + 1) rest).map (· + 1) := by
  rw [closing?, if_neg (closes ▸ different.symm), if_pos closes, if_neg (by omega)]
  rfl

private theorem closing_last (different : opening ≠ closing) (closes : t.kind = closing) :
    closing? opening closing 1 (t :: rest) = some 1 := by
  rw [closing?, if_neg (closes ▸ different.symm), if_pos closes, if_pos rfl]

/-- The search for a closing bracket passes what is nested. -/
theorem closing_nested {ts : List Token} (pair : IsPair opening closing) (nested : Nested ts)
    (depth : Nat) (rest : List Token) :
    closing? opening closing (depth + 1) (ts ++ rest) =
      (closing? opening closing (depth + 1) rest).map (· + ts.length) := by
  induction nested generalizing depth rest with
  | nil => simp
  | @plain t after outside _ ih =>
    have ends := ne_of_pair pair outside
    rw [List.cons_append, closing_skip _ ends.1 ends.2, ih, Option.map_map]
    rfl
  | @bracket first last inner after found _ _ inside beyond =>
    simp only [List.cons_append, List.append_assoc]
    have total : (· + 1) ∘ (· + inner.length) ∘ (· + 1) ∘ (· + after.length) =
        (· + (first :: (inner ++ last :: after)).length) := by
      funext n
      simp only [Function.comp, List.length_cons, List.length_append]
      omega
    rcases pair_cases pair found with ⟨opens, closes, different⟩ | ⟨opens, closes, opensLast, closesLast⟩
    · rw [closing_open _ opens, inside, closing_inner _ different closes, beyond]
      simp only [Option.map_map, total]
    · rw [closing_skip _ opens closes, inside, closing_skip _ opensLast closesLast, beyond]
      simp only [Option.map_map, total]

/-- Read from its end, a nested stretch is passed by the search for an opening bracket. -/
theorem opening_nested {ts : List Token} (pair : IsPair opening closing) (nested : Nested ts)
    (depth : Nat) (rest : List Token) :
    closing? closing opening (depth + 1) (ts.reverse ++ rest) =
      (closing? closing opening (depth + 1) rest).map (· + ts.length) := by
  induction nested generalizing depth rest with
  | nil => simp
  | @plain t after outside _ ih =>
    have ends := ne_of_pair pair outside
    rw [List.reverse_cons, List.append_assoc, List.singleton_append, ih,
      closing_skip _ ends.2 ends.1, Option.map_map]
    congr 1
    funext n
    simp only [Function.comp, List.length_cons]
    omega
  | @bracket first last inner after found _ _ inside beyond =>
    simp only [List.reverse_cons, List.reverse_append, List.append_assoc, List.cons_append,
      List.nil_append]
    have total : (· + after.length) ∘ (· + 1) ∘ (· + inner.length) ∘ (· + 1) =
        (· + (first :: (inner ++ last :: after)).length) := by
      funext n
      simp only [Function.comp, List.length_cons, List.length_append]
      omega
    rcases pair_cases pair found with ⟨opens, closes, different⟩ | ⟨opens, closes, opensLast, closesLast⟩
    · rw [beyond, closing_open _ closes, inside, closing_inner _ different.symm opens]
      simp only [Option.map_map, total]
    · rw [beyond, closing_skip _ closesLast opensLast, inside, closing_skip _ closes opens]
      simp only [Option.map_map, total]

theorem closing_whole {first last : Token} {inner : List Token} (pair : IsPair opening closing)
    (opens : first.kind = opening) (closes : last.kind = closing) (nested : Nested inner)
    (rest : List Token) :
    closing? opening closing 0 (first :: (inner ++ last :: rest)) = some (inner.length + 2) := by
  have different : opening ≠ closing := by
    rcases pair with ⟨rfl, rfl⟩ | ⟨rfl, rfl⟩ <;> simp
  rw [closing_open 0 opens, closing_nested pair nested 0, closing_last different closes]
  simp only [Option.map_some, Option.some.injEq]
  omega

theorem opening_whole {first last : Token} {inner : List Token} (pair : IsPair opening closing)
    (opens : first.kind = opening) (closes : last.kind = closing) (nested : Nested inner)
    (before : List Token) :
    closing? closing opening 0 (last :: (inner.reverse ++ first :: before)) = some (inner.length + 2) := by
  have different : closing ≠ opening := by
    rcases pair with ⟨rfl, rfl⟩ | ⟨rfl, rfl⟩ <;> simp
  rw [closing_open 0 closes, opening_nested pair nested 0, closing_last different opens]
  simp only [Option.map_some, Option.some.injEq]
  omega

end Closing

theorem bracketStep_plain {opening closing kind : TokenKind} (pair : IsPair opening closing)
    (outside : ¬IsBracket kind) : bracketStep opening closing kind = 0 := by
  have ends := ne_of_pair pair outside
  rw [bracketStep, if_neg ends.1, if_neg ends.2]

/-- A pair of brackets raises one of the two depths and lowers it again. -/
theorem bracketStep_pair {first last : TokenKind} (pair : IsPair first last) :
    bracketStep .openParen .closeParen last = -bracketStep .openParen .closeParen first ∧
    bracketStep .openBrace .closeBrace last = -bracketStep .openBrace .closeBrace first ∧
    0 ≤ bracketStep .openParen .closeParen first ∧ 0 ≤ bracketStep .openBrace .closeBrace first ∧
    bracketStep .openParen .closeParen first + bracketStep .openBrace .closeBrace first = 1 := by
  rcases pair with ⟨rfl, rfl⟩ | ⟨rfl, rfl⟩ <;> decide

private theorem not_comma_of_bracket {opening closing : TokenKind} (pair : IsPair opening closing) :
    opening ≠ .comma ∧ closing ≠ .comma := by
  rcases pair with ⟨rfl, rfl⟩ | ⟨rfl, rfl⟩ <;> simp

private theorem cutArguments_nested {ts : List Token} (nested : Nested ts) (last : Token) {depth : Int}
    (inside : 0 < depth) (held rest : List Token) :
    cutArguments last depth held (ts ++ rest) = cutArguments last depth (ts.reverse ++ held) rest := by
  induction nested generalizing depth held rest with
  | nil => rfl
  | @plain t after outside _ ih =>
    rw [List.cons_append, cutArguments, if_neg (by omega), bracketStep_plain parens_pair outside,
      bracketStep_plain braces_pair outside]
    simp only [Int.add_zero]
    rw [ih inside]
    simp
  | @bracket first close inner after pair _ _ within beyond =>
    obtain ⟨parens, braces, _, _, one⟩ := bracketStep_pair pair
    have opened : cutArguments last depth held (first :: (inner ++ close :: (after ++ rest))) =
        cutArguments last (depth + 1) (first :: held) (inner ++ close :: (after ++ rest)) := by
      rw [cutArguments, if_neg (by omega)]
      simp only [one]
    have closed : cutArguments last (depth + 1) (inner.reverse ++ first :: held) (close :: (after ++ rest)) =
        cutArguments last depth (close :: (inner.reverse ++ first :: held)) (after ++ rest) := by
      rw [cutArguments, if_neg (by omega)]
      simp only [parens, braces]
      congr 1
      omega
    simp only [List.cons_append, List.append_assoc]
    rw [opened, within (by omega), closed, beyond inside]
    simp

/-- An argument in parentheses is held as a whole, with all commas inside it. -/
theorem cutArguments_wrapped {first close : Token} {inner : List Token}
    (pair : IsPair first.kind close.kind) (nested : Nested inner) (last : Token) (held rest : List Token) :
    cutArguments last 0 held (first :: (inner ++ close :: rest)) =
      cutArguments last 0 ((first :: (inner ++ [close])).reverse ++ held) rest := by
  obtain ⟨parens, braces, _, _, one⟩ := bracketStep_pair pair
  obtain ⟨firstComma, closeComma⟩ := not_comma_of_bracket pair
  rw [cutArguments, if_neg (by simp [firstComma])]
  simp only [one, Int.zero_add]
  rw [cutArguments_nested nested last (by decide), cutArguments, if_neg (by simp [closeComma])]
  simp only [parens, braces]
  rw [show (1 : Int) + (-bracketStep .openParen .closeParen first.kind +
    -bracketStep .openBrace .closeBrace first.kind) = 0 by omega]
  simp

theorem Split.push_push (first second : List Token) (split : Split) :
    (split.push second).push first = split.push (first ++ second) := by
  simp [Split.push]

section Outside
variable {wanted : Option Token → Token → Bool}

private theorem split_inside {t : Token} {parens braces : Int} (inside : 0 < parens ∨ 0 < braces)
    (previous : Option Token) (rest : List Token) :
    splitOutside? wanted previous parens braces (t :: rest) =
      (splitOutside? wanted (some t) (parens + bracketStep .openParen .closeParen t.kind)
        (braces + bracketStep .openBrace .closeBrace t.kind) rest).map (·.push [t]) := by
  have within : (decide (parens ≤ 0) && decide (braces ≤ 0)) = false := by
    simp only [Bool.and_eq_false_iff, decide_eq_false_iff_not]
    omega
  rw [splitOutside?]
  simp [within, passLength?]

private theorem split_nested {ts : List Token} (nested : Nested ts) {parens braces : Int}
    (inside : 0 < parens ∨ 0 < braces) (previous : Option Token) (rest : List Token) :
    splitOutside? wanted previous parens braces (ts ++ rest) =
      (splitOutside? wanted (ts.getLast?.or previous) parens braces rest).map (·.push ts) := by
  induction nested generalizing parens braces previous rest with
  | nil =>
    simp only [List.nil_append, List.getLast?_nil, Option.none_or]
    exact Option.map_id'.symm
  | @plain t after outside _ ih =>
    rw [List.cons_append, split_inside inside, bracketStep_plain parens_pair outside,
      bracketStep_plain braces_pair outside]
    simp only [Int.add_zero]
    rw [ih inside, Option.map_map]
    simp [Function.comp_def, Split.push_push, List.getLast?_cons, Option.or_some]
  | @bracket first close inner after pair _ _ within beyond =>
    obtain ⟨closeParens, closeBraces, firstParens, firstBraces, one⟩ := bracketStep_pair pair
    simp only [List.cons_append, List.append_assoc]
    rw [split_inside inside, within (by omega), split_inside (by omega), closeParens, closeBraces]
    simp only [Int.add_neg_cancel_right]
    rw [beyond inside]
    simp [Function.comp_def, Split.push_push, List.getLast?_cons, Option.or_some]

end Outside

/-- A stretch of tokens without `if` and `while` outside brackets, and those of its tokens that a
search outside all brackets comes to: the ones outside, and the first of each outermost pair. -/
inductive Outer : List Token → List Token → Prop where
  | nil : Outer [] []
  | plain {t : Token} {rest outer : List Token} (outside : ¬IsBracket t.kind)
      (word : t.kind ≠ .ifWord ∧ t.kind ≠ .whileWord) (after : Outer rest outer) :
      Outer (t :: rest) (t :: outer)
  | bracket {first last : Token} {inner rest outer : List Token} (pair : IsPair first.kind last.kind)
      (inside : Nested inner) (after : Outer rest outer) :
      Outer (first :: (inner ++ last :: rest)) (first :: outer)

theorem Outer.append {first second outerFirst outerSecond : List Token} (before : Outer first outerFirst)
    (after : Outer second outerSecond) : Outer (first ++ second) (outerFirst ++ outerSecond) := by
  induction before with
  | nil => exact after
  | plain outside word _ ih => exact .plain outside word ih
  | bracket pair inside _ ih => simpa using Outer.bracket pair inside ih

theorem Outer.single {t : Token} (outside : ¬IsBracket t.kind)
    (word : t.kind ≠ .ifWord ∧ t.kind ≠ .whileWord) : Outer [t] [t] := .plain outside word .nil

theorem Outer.wrap {first last : Token} {inner : List Token} (pair : IsPair first.kind last.kind)
    (inside : Nested inner) : Outer (first :: (inner ++ [last])) [first] := .bracket pair inside .nil

private theorem passLength_word {t : Token} (word : t.kind ≠ .ifWord ∧ t.kind ≠ .whileWord) (outside : Bool)
    (previous : Option Token) (rest : List Token) : passLength? outside previous t rest = none := by
  have none : constructLength? t rest = none := by
    simp only [constructLength?]
    split
    next found =>
      exact absurd found word.1
    next found =>
      exact absurd found word.2
    · rfl
  simp [passLength?, none]

private theorem split_outside {wanted : Option Token → Token → Bool} {t : Token} {previous : Option Token}
    (word : t.kind ≠ .ifWord ∧ t.kind ≠ .whileWord) (unwanted : wanted previous t = false)
    (rest : List Token) :
    splitOutside? wanted previous 0 0 (t :: rest) =
      (splitOutside? wanted (some t) (bracketStep .openParen .closeParen t.kind)
        (bracketStep .openBrace .closeBrace t.kind) rest).map (·.push [t]) := by
  rw [splitOutside?]
  simp [unwanted, passLength_word word]

/-- The search outside all brackets passes a stretch in which it comes to nothing that is wanted. -/
theorem split_outer {wanted : Option Token → Token → Bool} {ts outer : List Token}
    (passed : Outer ts outer) (unwanted : ∀ previous, ∀ t ∈ outer, wanted previous t = false)
    (previous : Option Token) (rest : List Token) :
    splitOutside? wanted previous 0 0 (ts ++ rest) =
      (splitOutside? wanted (ts.getLast?.or previous) 0 0 rest).map (·.push ts) := by
  induction passed generalizing previous with
  | nil =>
    simp only [List.nil_append, List.getLast?_nil, Option.none_or]
    exact Option.map_id'.symm
  | @plain t after outer outside word _ ih =>
    rw [List.cons_append, split_outside word (unwanted previous t List.mem_cons_self),
      bracketStep_plain parens_pair outside, bracketStep_plain braces_pair outside,
      ih (fun previous t member => unwanted previous t (List.mem_cons_of_mem _ member))]
    simp [Function.comp_def, Split.push_push, List.getLast?_cons, Option.or_some]
  | @bracket first close inner after outer pair nested _ ih =>
    obtain ⟨closeParens, closeBraces, firstParens, firstBraces, one⟩ := bracketStep_pair pair
    have word : first.kind ≠ .ifWord ∧ first.kind ≠ .whileWord := by
      rcases pair with ⟨opens, _⟩ | ⟨opens, _⟩ <;> simp [opens]
    simp only [List.cons_append, List.append_assoc]
    rw [split_outside word (unwanted previous first List.mem_cons_self),
      split_nested nested (by omega), split_inside (by omega), closeParens, closeBraces]
    simp only [Int.add_right_neg]
    rw [ih (fun previous t member => unwanted previous t (List.mem_cons_of_mem _ member))]
    simp [Function.comp_def, Split.push_push, List.getLast?_cons, Option.or_some]

theorem split_none {wanted : Option Token → Token → Bool} {ts outer : List Token}
    (passed : Outer ts outer) (unwanted : ∀ previous, ∀ t ∈ outer, wanted previous t = false) :
    splitOutside? wanted none 0 0 ts = none := by
  have whole := split_outer passed unwanted none []
  rw [List.append_nil] at whole
  rw [whole]
  simp [splitOutside?]

theorem split_found {wanted : Option Token → Token → Bool} {before outer : List Token} {t : Token}
    (passed : Outer before outer) (unwanted : ∀ previous, ∀ t ∈ outer, wanted previous t = false)
    (found : wanted before.getLast? t = true) (rest : List Token) :
    splitOutside? wanted none 0 0 (before ++ t :: rest) = some ⟨before, t, rest⟩ := by
  rw [split_outer passed unwanted, Option.or_none, splitOutside?]
  simp [found, Split.push]

end Scriptlet.Proofs.GrammarNesting
