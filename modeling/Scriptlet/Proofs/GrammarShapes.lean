import Scriptlet.Proofs.GrammarSegments

/-! Which rule a statement falls under. The rules that look for an operator see only the tokens
outside all brackets, so a statement is described by the kinds of those. -/

namespace Scriptlet.Proofs.GrammarShapes
open Grammar GrammarNesting GrammarSegments

inductive Wrapped : List Token → List Token → Prop where
  | intro {first last : Token} {inner : List Token} (opens : first.kind = .openParen)
      (closes : last.kind = .closeParen) (nested : Nested inner) :
      Wrapped (first :: (inner ++ [last])) inner

inductive Braced : Token → List Token → List Token → Prop where
  | intro {first last : Token} {inner : List Token} (opens : first.kind = .openBrace)
      (closes : last.kind = .closeBrace) (nested : Nested inner) :
      Braced first (first :: (inner ++ [last])) inner

/-- A search outside all brackets comes to tokens of the given kinds only, and to no `if` or
`while`. -/
def Only (kinds : List TokenKind) (ts : List Token) : Prop :=
  ∃ outer, Outer ts outer ∧ ∀ t ∈ outer, t.kind ∈ kinds

theorem Only.append {kinds more : List TokenKind} {first second : List Token} (before : Only kinds first)
    (after : Only more second) : Only (kinds ++ more) (first ++ second) := by
  obtain ⟨outer, passed, kept⟩ := before
  obtain ⟨outerSecond, passedSecond, keptSecond⟩ := after
  refine ⟨outer ++ outerSecond, passed.append passedSecond, fun t member => ?_⟩
  rcases List.mem_append.mp member with found | found
  · exact List.mem_append_left _ (kept t found)
  · exact List.mem_append_right _ (keptSecond t found)

theorem Only.mono {kinds more : List TokenKind} {ts : List Token} (only : Only kinds ts) (wider : kinds ⊆ more) :
    Only more ts := by
  obtain ⟨outer, passed, kept⟩ := only
  exact ⟨outer, passed, fun t member => wider (kept t member)⟩

theorem only_single {t : Token} (outside : ¬IsBracket t.kind)
    (word : t.kind ≠ .ifWord ∧ t.kind ≠ .whileWord) : Only [t.kind] [t] :=
  ⟨[t], .single outside word, by simp⟩

theorem Wrapped.only {ts inner : List Token} (wrapped : Wrapped ts inner) : Only [.openParen] ts := by
  obtain ⟨opens, closes, nested⟩ := wrapped
  exact ⟨_, .wrap (Or.inl ⟨opens, closes⟩) nested, by simp [opens]⟩

theorem Wrapped.ne_nil {ts inner : List Token} (wrapped : Wrapped ts inner) : ts ≠ [] := by
  obtain ⟨⟩ := wrapped
  simp

variable {t : Token} {rest : List Token} {kinds seen : List TokenKind}

private theorem splitAt_none (only : Only seen rest) (apart : ∀ kind ∈ seen, kind ∉ kinds) :
    splitAt? kinds rest = none := by
  obtain ⟨outer, passed, kept⟩ := only
  apply split_none passed
  intro _ t member
  simpa using apart t.kind (kept t member)

private theorem splitAt_found {before : List Token} (only : Only seen before) (apart : ∀ kind ∈ seen, kind ∉ kinds)
    (wanted : t.kind ∈ kinds) : splitAt? kinds (before ++ t :: rest) = some ⟨before, t, rest⟩ := by
  obtain ⟨outer, passed, kept⟩ := only
  apply split_found passed _ (by simpa using wanted)
  intro _ t member
  simpa using apart t.kind (kept t member)

private theorem assignmentRule_none (only : Only seen (t :: rest)) (apart : ∀ kind ∈ seen, kind ∉ assignmentKinds) :
    assignmentRule t rest = .ok none := by
  simp only [assignmentRule, splitAt_none only apart]

private theorem operatorRule_none (only : Only seen (t :: rest)) (apart : ∀ kind ∈ seen, kind ∉ kinds) :
    operatorRule kinds t rest = .ok none := by
  simp only [operatorRule, splitAt_none only apart]

private theorem additiveRule_none (only : Only seen (t :: rest)) (apart : ∀ kind ∈ seen, isSign kind = false) :
    additiveRule t rest = .ok none := by
  obtain ⟨outer, passed, kept⟩ := only
  simp only [additiveRule]
  rw [split_none passed]
  intro _ t member
  simp [apart t.kind (kept t member)]

private theorem notRule_none (only : Only seen (t :: rest)) (apart : .notWord ∉ seen) :
    notRule t rest = .ok none := by
  rw [notRule, splitAt_none only]
  intro kind member found
  cases List.mem_singleton.mp found
  exact apart member

private theorem firstShape_skip {rule : Rule} {others : List Rule} (skipped : rule t rest = .ok none) :
    firstShape t rest (rule :: others) = firstShape t rest others := by
  simp only [firstShape, skipped]

private theorem firstShape_take {rule : Rule} {others : List Rule} {found : Shape}
    (taken : rule t rest = .ok (some found)) : firstShape t rest (rule :: others) = .ok found := by
  simp only [firstShape, taken]

def comparisonKinds : List TokenKind :=
  [.equal, .notEqual, .greater, .greaterEqual, .less, .lessEqual]

/-- The rules that look for an operator, and the two that are left if there is none. -/
def lateRules : List Rule :=
  [assignmentRule, operatorRule comparisonKinds, additiveRule, operatorRule [.star, .slash],
    operatorRule [.orWord], operatorRule [.andWord], notRule, callRule, memberRule]

/-- Kinds that decide the rule when they come first. -/
def decides : TokenKind → Bool
  | .openBrace | .returnWord | .ifWord | .whileWord | .minus => true
  | _ => false

/-- With a first token that decides nothing, and no group, the rules from the one for single tokens on
decide. -/
theorem shape_undecided (group : groupRule t rest = .ok none) (undecided : decides t.kind = false) :
    shape (t :: rest) = firstShape t rest (leafRule :: lateRules) := by
  have brace : t.kind ≠ .openBrace := by intro found; simp [found, decides] at undecided
  have ret : t.kind ≠ .returnWord := by intro found; simp [found, decides] at undecided
  have branch : t.kind ≠ .ifWord := by intro found; simp [found, decides] at undecided
  have loop : t.kind ≠ .whileWord := by intro found; simp [found, decides] at undecided
  have minus : t.kind ≠ .minus := by intro found; simp [found, decides] at undecided
  rw [shape, rules, firstShape_skip group, firstShape_skip (by simp [blockRule, brace]),
    firstShape_skip (by simp [returnRule, ret]), firstShape_skip (by simp [branchRule, branch]),
    firstShape_skip (by simp [loopRule, loop]), firstShape_skip (by simp [negationRule, minus])]
  rfl

private theorem shape_late (group : groupRule t rest = .ok none) (undecided : decides t.kind = false)
    (more : rest ≠ []) : shape (t :: rest) = firstShape t rest lateRules := by
  have several : rest.isEmpty = false := by simpa using more
  rw [shape_undecided group undecided, firstShape_skip (by simp [leafRule, several])]

theorem groupRule_none (kind : t.kind ≠ .openParen) : groupRule t rest = .ok none := by
  simp [groupRule, kind]

/-- Parentheses with something behind them are no group. -/
theorem groupRule_more {last : Token} {inner more : List Token} (opens : t.kind = .openParen)
    (closes : last.kind = .closeParen) (nested : Nested inner) (some : more ≠ []) :
    groupRule t (inner ++ last :: more) = .ok none := by
  have positive : 0 < more.length := List.length_pos_iff.mpr some
  simp only [groupRule, if_pos opens, closing_whole parens_pair opens closes nested]
  rw [if_pos]
  simp only [List.length_cons, List.length_append]
  omega

/-- Nothing outside brackets is an operator, so what remains is a call or a member. -/
theorem firstShape_no_operator (only : Only seen (t :: rest))
    (plain : ∀ kind ∈ seen, kind ∈ [TokenKind.openParen, .ident, .dot]) :
    firstShape t rest lateRules = firstShape t rest [callRule, memberRule] := by
  have apart (kinds : List TokenKind) (none : ∀ kind ∈ [TokenKind.openParen, .ident, .dot], kind ∉ kinds) :
      ∀ kind ∈ seen, kind ∉ kinds := fun kind member => none kind (plain kind member)
  have signs : ∀ kind ∈ [TokenKind.openParen, .ident, .dot], isSign kind = false := by decide
  rw [lateRules, firstShape_skip (assignmentRule_none only (apart _ (by decide))),
    firstShape_skip (operatorRule_none only (apart _ (by decide))),
    firstShape_skip (additiveRule_none only fun kind member => signs kind (plain kind member)),
    firstShape_skip (operatorRule_none only (apart _ (by decide))),
    firstShape_skip (operatorRule_none only (apart _ (by decide))),
    firstShape_skip (operatorRule_none only (apart _ (by decide))),
    firstShape_skip (notRule_none only fun member => by simpa using plain _ member)]

theorem shape_group {inner ts : List Token} (wrapped : Wrapped ts inner) (some : inner ≠ []) :
    shape ts = .ok (.group inner) := by
  obtain ⟨opens, closes, nested⟩ := wrapped
  have positive : 0 < inner.length := List.length_pos_iff.mpr some
  rw [shape, rules]
  apply firstShape_take
  simp only [groupRule, if_pos opens, closing_whole parens_pair opens closes nested]
  rw [if_neg (by simp), if_neg (by omega)]
  simp

theorem shape_block {first : Token} {inner ts : List Token} (braced : Braced first ts inner) :
    shape ts = .ok (.block first.position (statements inner)) := by
  obtain ⟨opens, closes, nested⟩ := braced
  rw [shape, rules, firstShape_skip (groupRule_none (by simp [opens]))]
  apply firstShape_take
  simp only [blockRule, if_pos opens, blockLength_whole opens closes nested]
  rw [if_neg (by simp)]
  simp

theorem shape_return (word : t.kind = .returnWord) (some : rest ≠ []) :
    shape (t :: rest) = .ok (.ret t.position rest) := by
  have several : rest.isEmpty = false := by simpa using some
  rw [shape, rules, firstShape_skip (groupRule_none (by simp [word])),
    firstShape_skip (by simp [blockRule, word]), firstShape_take]
  simp [returnRule, word, several]

theorem shape_bare_return (word : t.kind = .returnWord) :
    shape [t] = .ok (.leaf (.ret t.position (.const t.position .empty))) := by
  rw [shape, rules, firstShape_skip (groupRule_none (by simp [word])),
    firstShape_skip (by simp [blockRule, word]), firstShape_take]
  simp [returnRule, word]

/-- Nothing before the rule for `if` applies to an `if`. -/
private theorem shape_branch_rule (word : t.kind = .ifWord) :
    shape (t :: rest) = firstShape t rest (rules.drop 3) := by
  rw [shape, rules, firstShape_skip (groupRule_none (by simp [word])),
    firstShape_skip (by simp [blockRule, word]), firstShape_skip (by simp [returnRule, word])]
  rfl

theorem shape_branch {condition action : List Token} (word : t.kind = .ifWord)
    (lengths : branchLengths t (condition ++ action) = .ok ⟨condition.length, action.length, none⟩) :
    shape (t :: (condition ++ action)) = .ok (.branch t.position condition action none) := by
  rw [shape_branch_rule word]
  apply firstShape_take
  have total : 1 + condition.length + action.length + 0 = (t :: (condition ++ action)).length := by
    simp only [List.length_cons, List.length_append]
    omega
  simp only [branchRule, if_pos word, lengths, BranchLengths.total, ne_eq, total, not_true, ↓reduceIte]
  simp

theorem shape_branch_else {condition action otherwise : List Token} {opposite : Token}
    (word : t.kind = .ifWord)
    (lengths : branchLengths t (condition ++ (action ++ opposite :: otherwise)) =
      .ok ⟨condition.length, action.length, some otherwise.length⟩) :
    shape (t :: (condition ++ (action ++ opposite :: otherwise))) =
      .ok (.branch t.position condition action (some otherwise)) := by
  rw [shape_branch_rule word]
  apply firstShape_take
  have total : 1 + condition.length + action.length + (1 + otherwise.length) =
      (t :: (condition ++ (action ++ opposite :: otherwise))).length := by
    simp only [List.length_cons, List.length_append]
    omega
  simp only [branchRule, if_pos word, lengths, BranchLengths.total, ne_eq, total, not_true, ↓reduceIte]
  simp

theorem shape_loop {condition action : List Token} (word : t.kind = .whileWord)
    (lengths : loopLengths t (condition ++ action) = .ok ⟨condition.length, action.length⟩) :
    shape (t :: (condition ++ action)) = .ok (.loop t.position condition action) := by
  rw [shape, rules, firstShape_skip (groupRule_none (by simp [word])),
    firstShape_skip (by simp [blockRule, word]), firstShape_skip (by simp [returnRule, word]),
    firstShape_skip (by simp [branchRule, word])]
  apply firstShape_take
  have total : 1 + condition.length + action.length = (t :: (condition ++ action)).length := by
    simp only [List.length_cons, List.length_append]
    omega
  simp only [loopRule, if_pos word, lengths, LoopLengths.total, ne_eq, total, not_true, ↓reduceIte]
  simp

theorem shape_negation (sign : t.kind = .minus) (some : rest ≠ []) :
    shape (t :: rest) = .ok (.unary t "__negate" rest) := by
  have several : rest.isEmpty = false := by simpa using some
  rw [shape, rules, firstShape_skip (groupRule_none (by simp [sign])),
    firstShape_skip (by simp [blockRule, sign]), firstShape_skip (by simp [returnRule, sign]),
    firstShape_skip (by simp [branchRule, sign]), firstShape_skip (by simp [loopRule, sign]), firstShape_take]
  simp [negationRule, sign, several]

/-- A token alone is what the rule for single tokens makes of it. -/
theorem shape_leaf {found : Shape} (group : t.kind ≠ .openParen) (undecided : decides t.kind = false)
    (taken : leafRule t [] = .ok (some found)) : shape [t] = .ok found := by
  rw [shape_undecided (groupRule_none group) undecided, firstShape_take taken]

private theorem splitAt_assignment {operator : Token} (value : List Token) (name : t.kind = .ident)
    (assigns : operator.kind ∈ assignmentKinds) :
    splitAt? assignmentKinds (t :: operator :: value) = some ⟨[t], operator, value⟩ := by
  have only : Only [.ident] [t] := name ▸ only_single (by simp [name, IsBracket]) (by simp [name])
  exact splitAt_found only (by decide) assigns

theorem shape_assign {operator : Token} {value : List Token} (name : t.kind = .ident)
    (assigns : operator.kind = .assign) (some : value ≠ []) :
    shape (t :: operator :: value) = .ok (.assign t value) := by
  have several : value.isEmpty = false := by simpa using some
  have member : operator.kind ∈ assignmentKinds := by simp [assigns, assignmentKinds]
  have found := splitAt_assignment value name member
  rw [shape_late (groupRule_none (by simp [name])) (by simp [name, decides]) (by simp), lateRules,
    firstShape_take]
  simp [assignmentRule, found, name, several, assigns, updateFunction?]

theorem updates_assigns {kind : TokenKind} {function : String} (known : updateFunction? kind = some function) :
    kind ∈ assignmentKinds := by
  unfold updateFunction? at known
  split at known
  case h_5 => cases known
  all_goals decide

theorem shape_update {operator : Token} {function : String} {value : List Token} (name : t.kind = .ident)
    (known : updateFunction? operator.kind = some function) (more : value ≠ []) :
    shape (t :: operator :: value) = .ok (.update t operator function value) := by
  have several : value.isEmpty = false := by simpa using more
  have found := splitAt_assignment value name (updates_assigns known)
  rw [shape_late (groupRule_none (by simp [name])) (by simp [name, decides]) (by simp), lateRules,
    firstShape_take]
  simp [assignmentRule, found, name, several, known]

theorem shape_not {operand inner : List Token} (word : t.kind = .notWord) (wrapped : Wrapped operand inner) :
    shape (t :: operand) = .ok (.unary t "__not" operand) := by
  have several : operand.isEmpty = false := by simpa using wrapped.ne_nil
  have first : Only [.notWord] [t] := word ▸ only_single (by simp [word, IsBracket]) (by simp [word])
  have only : Only [.notWord, .openParen] (t :: operand) := first.append wrapped.only
  have front : Only [] [] := ⟨[], .nil, by simp⟩
  have found : splitAt? [.notWord] (t :: operand) = some ⟨[], t, operand⟩ :=
    splitAt_found front (by simp) (by simp [word])
  rw [shape_late (groupRule_none (by simp [word])) (by simp [word, decides]) wrapped.ne_nil, lateRules,
    firstShape_skip (assignmentRule_none only (by decide)),
    firstShape_skip (operatorRule_none only (by decide)),
    firstShape_skip (additiveRule_none only (by decide)),
    firstShape_skip (operatorRule_none only (by decide)),
    firstShape_skip (operatorRule_none only (by decide)),
    firstShape_skip (operatorRule_none only (by decide)), firstShape_take]
  simp [notRule, found, several]

def additiveKinds : List TokenKind := [.plus, .minus]

/-- The kinds of binary operators, level by level. -/
def binaryKinds : List TokenKind :=
  comparisonKinds ++ (additiveKinds ++ ([.star, .slash] ++ ([.orWord] ++ [.andWord])))

/-- How tightly a binary operator binds. -/
def level : TokenKind → Nat
  | .plus | .minus => 1
  | .star | .slash => 2
  | .orWord => 3
  | .andWord => 4
  | _ => 0

/-- The kinds of tokens with which a plain operand starts. -/
def operandKinds : List TokenKind := [.openParen, .ident, .number, .string]

/-- What stands outside brackets where no operator binds less tightly than the bound. -/
def kindsFrom (bound : Nat) : List TokenKind := operandKinds ++ binaryKinds.filter (bound ≤ level ·)

private theorem kindsFrom_subset {lower upper : Nat} (below : lower ≤ upper) : kindsFrom upper ⊆ kindsFrom lower := by
  intro kind member
  simp only [kindsFrom, List.mem_append, List.mem_filter, decide_eq_true_eq] at member ⊢
  exact member.imp_right fun found => ⟨found.1, Nat.le_trans below found.2⟩

/-- Tokens that can stand beside an operator: outside brackets there are plain operands and operators
from the given level on, and they begin and end with an operand. -/
structure Side (bound : Nat) (ts : List Token) : Prop where
  only : Only (kindsFrom bound) ts
  first : ∃ t, ts.head? = some t ∧ t.kind ∈ operandKinds
  last : ∃ t, ts.getLast? = some t ∧ endsOperand t.kind = true

theorem Side.ne_nil {bound : Nat} {ts : List Token} (side : Side bound ts) : ts ≠ [] := by
  rintro rfl
  obtain ⟨_, front, _⟩ := side.first
  simp at front

theorem Side.weaken {lower upper : Nat} {ts : List Token} (side : Side upper ts) (below : lower ≤ upper) :
    Side lower ts :=
  ⟨side.only.mono (kindsFrom_subset below), side.first, side.last⟩

theorem Side.join {bound : Nat} {operator : Token} {left right : List Token} (lhs : Side bound left)
    (rhs : Side bound right) (binary : operator.kind ∈ binaryKinds) (above : bound ≤ level operator.kind) :
    Side bound (left ++ operator :: right) := by
  have plain : ∀ kind ∈ binaryKinds, ¬IsBracket kind ∧ kind ≠ .ifWord ∧ kind ≠ .whileWord := by decide
  have middle := only_single (plain _ binary).1 (plain _ binary).2
  have self : operator.kind ∈ kindsFrom bound := by simp [kindsFrom, binary, above]
  obtain ⟨first, front, starts⟩ := lhs.first
  obtain ⟨last, back, ends⟩ := rhs.last
  refine ⟨(lhs.only.append (middle.append rhs.only)).mono (by simp [self]), ⟨first, ?_, starts⟩, last, ?_, ends⟩
  · simp [List.head?_append, front]
  · simp [List.getLast?_append, List.getLast?_cons, back]

theorem Wrapped.side {ts inner : List Token} (wrapped : Wrapped ts inner) (bound : Nat) : Side bound ts := by
  have only : Only (kindsFrom bound) ts := wrapped.only.mono (by simp [kindsFrom, operandKinds])
  obtain @⟨first, last, _, opens, closes, _⟩ := wrapped
  exact ⟨only, ⟨first, rfl, by simp [opens, operandKinds]⟩,
    last, by simp [List.getLast?_cons], by simp [closes, endsOperand]⟩

section Binary
variable {operator : Token} {left right : List Token} {bound : Nat}

private theorem operatorRule_take (cut : t :: rest = left ++ operator :: right) (lhs : Side bound left)
    (rhs : right ≠ []) (apart : ∀ kind ∈ kindsFrom bound, kind ∉ kinds) (wanted : operator.kind ∈ kinds) :
    operatorRule kinds t rest =
      .ok (some (.binary operator (operatorFunction operator.kind) left right)) := by
  have found : splitAt? kinds (left ++ operator :: right) = some ⟨left, operator, right⟩ :=
    splitAt_found lhs.only apart wanted
  simp [operatorRule, cut, found, binaryShape, lhs.ne_nil, rhs]

/-- Behind the end of an operand a sign is binary. -/
theorem additiveRule_take (cut : t :: rest = left ++ operator :: right) (lhs : Side bound left)
    (rhs : ∃ t, right.head? = some t ∧ t.kind ∈ operandKinds)
    (apart : ∀ kind ∈ kindsFrom bound, isSign kind = false) (sign : isSign operator.kind = true) :
    additiveRule t rest = .ok (some (.binary operator (operatorFunction operator.kind) left right)) := by
  obtain ⟨last, ends, closes⟩ := lhs.last
  obtain ⟨next, front, operand⟩ := rhs
  obtain ⟨outer, passed, kept⟩ := lhs.only
  have unsigned : ∀ kind ∈ operandKinds, isSign kind = false := by decide
  have some : right ≠ [] := by
    rintro rfl
    simp at front
  simp only [additiveRule, cut]
  rw [split_found passed (fun _ t member => by simp [apart _ (kept t member)]) (by simp [sign, ends, closes])]
  simp [front, unsigned _ operand, binaryShape, lhs.ne_nil, some]

/-- What begins with a plain operand and goes on is no group, and its first token decides nothing. -/
theorem shape_beside (lhs : Side bound left) (more : right ≠ []) :
    ∃ t rest, left ++ right = t :: rest ∧ shape (t :: rest) = firstShape t rest lateRules := by
  obtain ⟨t, front, operand⟩ := lhs.first
  obtain ⟨_, passed, _⟩ := lhs.only
  have undecided : ∀ kind ∈ operandKinds, decides kind = false := by decide
  cases passed with
  | nil => simp at front
  | @plain first rest _ outside _ _ =>
    cases front
    refine ⟨t, rest ++ right, rfl, shape_late (groupRule_none ?_) (undecided _ operand) (by simp [more])⟩
    intro opens
    exact outside (Or.inl opens)
  | @bracket first last inner rest _ pair inside _ =>
    cases front
    rcases pair with ⟨opens, closes⟩ | ⟨opens, _⟩
    · refine ⟨t, inner ++ last :: (rest ++ right), by simp, ?_⟩
      exact shape_late (groupRule_more opens closes inside (by simp [more])) (undecided _ operand) (by simp)
    · simp [opens, operandKinds] at operand

/-- An operator splits where all operators on its left bind tighter and none on its right binds less
tightly. -/
theorem shape_binary (lhs : Side (level operator.kind + 1) left) (rhs : Side (level operator.kind) right)
    (binary : operator.kind ∈ binaryKinds) :
    shape (left ++ operator :: right) =
      .ok (.binary operator (operatorFunction operator.kind) left right) := by
  obtain ⟨t, rest, cut, late⟩ := shape_beside lhs (List.cons_ne_nil operator right)
  have whole := (lhs.weaken (Nat.le_succ _)).join rhs binary (Nat.le_refl _)
  have only : Only (kindsFrom (level operator.kind)) (t :: rest) := cut ▸ whole.only
  have signed : ∀ kind ∈ additiveKinds, isSign kind = true := by decide
  have assigns : ∀ kind ∈ kindsFrom 0, kind ∉ assignmentKinds := by decide
  rw [cut, late, lateRules,
    firstShape_skip (assignmentRule_none (only.mono (kindsFrom_subset (Nat.zero_le _))) assigns)]
  simp only [binaryKinds, List.mem_append] at binary
  have levels :
      (∀ kind ∈ comparisonKinds, level kind = 0) ∧ (∀ kind ∈ additiveKinds, level kind = 1) ∧
      (∀ kind ∈ [TokenKind.star, .slash], level kind = 2) ∧ (∀ kind ∈ [TokenKind.orWord], level kind = 3) ∧
      (∀ kind ∈ [TokenKind.andWord], level kind = 4) := by decide
  rcases binary with member | member | member | member | member
  · rw [levels.1 _ member] at only lhs
    rw [firstShape_take (operatorRule_take cut.symm lhs rhs.ne_nil (by decide) member)]
  · rw [levels.2.1 _ member] at only lhs
    rw [firstShape_skip (operatorRule_none only (by decide)),
      firstShape_take (additiveRule_take cut.symm lhs rhs.first (by decide) (signed _ member))]
  · rw [levels.2.2.1 _ member] at only lhs
    rw [firstShape_skip (operatorRule_none only (by decide)),
      firstShape_skip (additiveRule_none only (by decide)),
      firstShape_take (operatorRule_take cut.symm lhs rhs.ne_nil (by decide) member)]
  · rw [levels.2.2.2.1 _ member] at only lhs
    rw [firstShape_skip (operatorRule_none only (by decide)),
      firstShape_skip (additiveRule_none only (by decide)),
      firstShape_skip (operatorRule_none only (by decide)),
      firstShape_take (operatorRule_take cut.symm lhs rhs.ne_nil (by decide) member)]
  · rw [levels.2.2.2.2 _ member] at only lhs
    rw [firstShape_skip (operatorRule_none only (by decide)),
      firstShape_skip (additiveRule_none only (by decide)),
      firstShape_skip (operatorRule_none only (by decide)),
      firstShape_skip (operatorRule_none only (by decide)),
      firstShape_take (operatorRule_take cut.symm lhs rhs.ne_nil (by decide) member)]

end Binary

section Call
variable {callee inner : List Token} {first last : Token}

private theorem callRule_take (cut : t :: rest = callee ++ first :: (inner ++ [last])) (opens : first.kind = .openParen)
    (closes : last.kind = .closeParen) (nested : Nested inner) (some : callee ≠ []) :
    callRule t rest = .ok (Option.some (.call t.position callee (arguments first inner))) := by
  have backwards : (t :: rest).reverse = last :: (inner.reverse ++ first :: callee.reverse) := by
    simp [cut]
  have beyond : (inner.reverse ++ first :: callee.reverse).drop (inner.length + 1) = callee.reverse := by
    rw [← List.length_reverse, ← List.drop_drop, List.drop_left, List.drop_one, List.tail_cons]
  have paren : (inner.reverse ++ first :: callee.reverse)[inner.length]? = Option.some first := by
    rw [List.getElem?_append_right (by simp)]
    simp
  have between : (inner.reverse ++ first :: callee.reverse).take inner.length = inner.reverse := by
    rw [← List.length_reverse, List.take_left]
  simp only [callRule, backwards, if_pos closes, opening_whole parens_pair opens closes nested,
    Nat.add_succ_sub_one, Nat.add_sub_cancel, beyond, paren, between, List.reverse_reverse,
    Option.getD_some]
  rw [if_neg (by simpa using some)]

theorem shape_call_named {name : Token} (named : name.kind = .ident) (opens : first.kind = .openParen)
    (closes : last.kind = .closeParen) (nested : Nested inner) :
    shape (name :: first :: (inner ++ [last])) =
      .ok (.call name.position [name] (arguments first inner)) := by
  have wrapped : Wrapped (first :: (inner ++ [last])) inner := ⟨opens, closes, nested⟩
  have single : Only [.ident] [name] :=
    named ▸ only_single (by simp [named, IsBracket]) (by simp [named])
  have only : Only [.ident, .openParen] (name :: first :: (inner ++ [last])) := single.append wrapped.only
  rw [shape_late (groupRule_none (by simp [named])) (by simp [named, decides]) (by simp),
    firstShape_no_operator only (by simp)]
  have cut : name :: first :: (inner ++ [last]) = [name] ++ first :: (inner ++ [last]) := rfl
  exact firstShape_take (callRule_take cut opens closes nested (by simp))

theorem shape_call_wrapped {function : List Token} (wrapped : Wrapped callee function)
    (opens : first.kind = .openParen) (closes : last.kind = .closeParen) (nested : Nested inner) :
    ∃ position, shape (callee ++ first :: (inner ++ [last])) =
      .ok (.call position callee (arguments first inner)) := by
  have given : Wrapped (first :: (inner ++ [last])) inner := ⟨opens, closes, nested⟩
  have only : Only [.openParen, .openParen] (callee ++ first :: (inner ++ [last])) :=
    wrapped.only.append given.only
  obtain @⟨head, tail, _, headOpens, tailCloses, headNested⟩ := wrapped
  refine ⟨head.position, ?_⟩
  rw [List.cons_append, List.append_assoc, List.singleton_append] at only ⊢
  rw [shape_late (groupRule_more headOpens tailCloses headNested (by simp)) (by simp [headOpens, decides])
      (by simp), firstShape_no_operator only (by simp)]
  have cut : head :: (function ++ tail :: first :: (inner ++ [last])) =
      (head :: (function ++ [tail])) ++ first :: (inner ++ [last]) := by simp
  exact firstShape_take (callRule_take cut opens closes nested (by simp))

theorem shape_member {base : List Token} {dot name : Token} (wrapped : Wrapped base inner)
    (dotted : dot.kind = .dot) (named : name.kind = .ident) :
    shape (base ++ [dot, name]) = .ok (.member dot base name.lexeme) := by
  have dotOnly : Only [.dot] [dot] := dotted ▸ only_single (by simp [dotted, IsBracket]) (by simp [dotted])
  have nameOnly : Only [.ident] [name] := named ▸ only_single (by simp [named, IsBracket]) (by simp [named])
  have only : Only [.openParen, .dot, .ident] (base ++ [dot, name]) :=
    wrapped.only.append (dotOnly.append nameOnly)
  obtain @⟨head, tail, _, opens, closes, nested⟩ := wrapped
  rw [List.cons_append, List.append_assoc, List.singleton_append] at only ⊢
  rw [shape_late (groupRule_more opens closes nested (by simp)) (by simp [opens, decides]) (by simp),
    firstShape_no_operator only (by simp), firstShape_skip (by simp [callRule, named]), firstShape_take]
  simp [memberRule, named, dotted]

end Call

end Scriptlet.Proofs.GrammarShapes
