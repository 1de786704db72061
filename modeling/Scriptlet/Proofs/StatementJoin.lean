import Scriptlet.Proofs.DeclarationPlacement
import Scriptlet.Proofs.StatementScan

/-! Statements one behind the other. The scan for the end of a statement looks at one token behind it, and at the
end of the tokens it stops like in front of a new statement. So two token lists that can be read are read one after
the other when they are joined, as long as the first word of the second list cannot go on with the statement in
front of it. -/

namespace Scriptlet.Proofs.StatementJoin
open Grammar GrammarNesting GrammarSegments GrammarReading ConcreteSyntax DeclarationPlacement StatementScan

def balance (ts : List Token) : Int :=
  ts.foldr (fun t later => bracketStep .openParen .closeParen t.kind + later) 0

@[simp] theorem balance_nil : balance [] = 0 := rfl

@[simp] theorem balance_cons (t : Token) (ts : List Token) :
    balance (t :: ts) = bracketStep .openParen .closeParen t.kind + balance ts := rfl

@[simp] theorem balance_append (first second : List Token) :
    balance (first ++ second) = balance first + balance second := by
  induction first with
  | nil => simp
  | cons t ts ih => simp only [List.cons_append, balance_cons, ih, Int.add_assoc]

private theorem balance_nested {ts : List Token} (nested : Nested ts) : balance ts = 0 := by
  induction nested with
  | nil => rfl
  | plain outside _ ih => simp [bracketStep_plain parens_pair outside, ih]
  | bracket pair _ _ inside later =>
    have step := (bracketStep_pair pair).1
    simp only [balance_cons, balance_append, inside, later]
    omega

/-- How many parentheses are open where a task starts. -/
def depth : Task → Int
  | .whole => 0
  | .inside _ parens => parens
  | .behind parens _ => parens

private theorem step_ordinary {kind : TokenKind} (ordinary : isOrdinary kind = true) :
    bracketStep .openParen .closeParen kind = 0 := by
  cases kind <;> first | rfl | cases ordinary

/-- No task closes a parenthesis that was open before, and one that ends before the tokens do has closed all. -/
theorem takes_balance {task : Task} {ts rest : List Token} (takes : Takes task ts rest) :
    0 ≤ depth task + balance ts ∧ (rest ≠ [] → depth task + balance ts = 0) := by
  induction takes with
  | branch kind first second alone ihFirst ihSecond =>
    have closed := ihFirst.2 (by simp [second.ne_nil])
    simp only [depth, balance_cons, balance_append, kind, bracketStep, reduceCtorEq, ↓reduceIte] at closed ihSecond ⊢
    refine ⟨by omega, fun more => ?_⟩
    have done := ihSecond.2 more
    omega
  | choice kind first second turns third ihFirst ihSecond ihThird =>
    have closed := ihFirst.2 (by simp)
    have closedToo := ihSecond.2 (by simp)
    simp only [depth, balance_cons, balance_append, kind, turns, bracketStep, reduceCtorEq, ↓reduceIte]
      at closed closedToo ihThird ⊢
    refine ⟨by omega, fun more => ?_⟩
    have done := ihThird.2 more
    omega
  | loop kind first second ihFirst ihSecond =>
    have closed := ihFirst.2 (by simp [second.ne_nil])
    simp only [depth, balance_cons, balance_append, kind, bracketStep, reduceCtorEq, ↓reduceIte] at closed ihSecond ⊢
    refine ⟨by omega, fun more => ?_⟩
    have done := ihSecond.2 more
    omega
  | stop kind alone => simp [depth, kind, bracketStep]
  | ret kind given after ih => simpa [depth, kind, bracketStep] using ih
  | plain kind after ih => exact ih
  | ended => simp [depth]
  | closed kind => simp [depth]
  | @construct started parens word last inner ts rest kind first after ihFirst ihAfter =>
    simp only [depth, balance_cons, balance_append, balance_nil] at ihFirst ihAfter ⊢
    by_cases more : ts ++ rest = []
    · obtain ⟨rfl, rfl⟩ := List.append_eq_nil_iff.mp more
      simp only [balance_nil] at ihAfter ⊢
      exact ⟨by omega, fun more => absurd rfl more⟩
    · have closed := ihFirst.2 more
      refine ⟨by omega, fun more => ?_⟩
      have done := ihAfter.2 more
      omega
  | block opens closes nested after ih =>
    simp only [depth, balance_cons, balance_append, balance_nested nested, opens, closes, bracketStep, reduceCtorEq,
      ↓reduceIte] at ih ⊢
    refine ⟨by omega, fun more => ?_⟩
    have done := ih.2 more
    omega
  | opens kind after ih =>
    simp only [depth, balance_cons, kind, bracketStep, ↓reduceIte] at ih ⊢
    refine ⟨by omega, fun more => ?_⟩
    have done := ih.2 more
    omega
  | closes kind after ih =>
    simp only [depth, balance_cons, kind, bracketStep, reduceCtorEq, ↓reduceIte] at ih ⊢
    refine ⟨by omega, fun more => ?_⟩
    have done := ih.2 more
    omega
  | comma kind after ih => simpa [depth, kind, bracketStep] using ih
  | ordinary kind after ih => simpa [depth, step_ordinary kind] using ih
  | boundary ends =>
    simp only [isBoundary, Bool.and_eq_true, beq_iff_eq] at ends
    simp [depth, ends.1.1]
  | onward goes after ih => exact ih

private theorem head_append {first second : List Token} (ts : List Token) (same : first.head? = second.head?) :
    (ts ++ first).head? = (ts ++ second).head? := by
  cases ts with
  | nil => exact same
  | cons => rfl

private theorem isBoundary_head {first second : List Token} (same : first.head? = second.head?) (parens : Nat)
    (last : Token) :
    isBoundary parens last first = isBoundary parens last second := by
  rw [isBoundary, isBoundary, same]

private theorem takes_before {task : Task} {ts first second : List Token} (takes : Takes task ts first)
    (same : first.head? = second.head?) : Takes task ts second := by
  induction takes generalizing second with
  | branch kind _ _ alone ihFirst ihSecond =>
    exact .branch kind (ihFirst (head_append _ same)) (ihSecond same) (by rwa [← same])
  | choice kind _ _ turns _ ihFirst ihSecond ihThird =>
    exact .choice kind (ihFirst (head_append _ rfl)) (ihSecond rfl) turns (ihThird same)
  | loop kind _ _ ihFirst ihSecond => exact .loop kind (ihFirst (head_append _ same)) (ihSecond same)
  | stop kind alone => exact .stop kind (by rwa [← same])
  | ret kind given _ ih => exact .ret kind (by rwa [← head_append _ same]) (ih same)
  | plain kind _ ih => exact .plain kind (ih same)
  | ended =>
    obtain rfl := List.head?_eq_none_iff.mp same.symm
    exact .ended
  | closed kind =>
    obtain ⟨rest, rfl⟩ := List.head?_eq_some_iff.mp same.symm
    exact .closed kind
  | construct kind _ _ ihFirst ihAfter => exact .construct kind (ihFirst (head_append _ same)) (ihAfter same)
  | block opens closes nested _ ih => exact .block opens closes nested (ih same)
  | opens kind _ ih => exact .opens kind (ih same)
  | closes kind _ ih => exact .closes kind (ih same)
  | comma kind _ ih => exact .comma kind (ih same)
  | ordinary kind _ ih => exact .ordinary kind (ih same)
  | boundary ends => exact .boundary (by rwa [← isBoundary_head same])
  | onward goes _ ih => exact .onward (by rwa [← isBoundary_head (head_append _ same)]) (ih same)

/-- A statement starts here, one that cannot belong to what is in front of it. -/
def StartsAnew (ts : List Token) : Prop := ∃ t ∈ ts.head?, startsStatement t.kind = true ∧ t.kind ≠ .elseWord

/-- An expression can end here. -/
def CanEnd (ts : List Token) : Prop := ∃ t ∈ ts.getLast?, endsExpression t.kind = true

/-- The tokens that a task has seen when it is done, as far as their last one goes. -/
def lastSeen : Task → List Token → List Token
  | .behind _ last, ts => last :: ts
  | _, ts => ts

theorem CanEnd.suffix {front ts : List Token} (ends : CanEnd (front ++ ts)) (some : ts ≠ []) : CanEnd ts := by
  rwa [CanEnd, List.getLast?_append_of_ne_nil front some] at ends

private theorem canEnd_single {t : Token} : CanEnd [t] ↔ endsExpression t.kind = true := by simp [CanEnd]

theorem CanEnd.later {t : Token} {ts : List Token} (ends : CanEnd (t :: ts)) (plain : endsExpression t.kind = false) :
    CanEnd ts := by
  apply @CanEnd.suffix [t] ts ends
  rintro rfl
  rw [canEnd_single, plain] at ends
  cases ends

private theorem head_before {ts first second : List Token} (some : ts ≠ []) :
    (ts ++ first).head? = (ts ++ second).head? := by
  cases ts with
  | nil => exact absurd rfl some
  | cons => rfl

private theorem takes_extended {task : Task} {ts more : List Token} (takes : Takes task ts [])
    (starts : StartsAnew more)
    (closed : depth task + balance ts = 0) (ends : CanEnd (lastSeen task ts)) : Takes task ts more := by
  generalize nothing : [] = rest at takes
  induction takes with
  | @branch word condition action rest kind first second alone ihFirst ihSecond =>
    subst nothing
    have level := (takes_balance first).2 (by simp [second.ne_nil])
    have behind : CanEnd action := @CanEnd.suffix (word :: condition) action ends second.ne_nil
    simp only [depth, balance_cons, balance_append, kind, bracketStep, reduceCtorEq, ↓reduceIte] at closed level
    refine .branch kind (takes_before first (head_before second.ne_nil)) (ihSecond ?_ behind rfl) ?_
    · simp only [depth]
      omega
    · obtain ⟨t, front, _, other⟩ := starts
      intro next member
      cases Option.mem_unique front member
      exact other
  | @choice word opposite condition action otherwise rest kind first second turns third ihFirst ihSecond ihThird =>
    subst nothing
    have level := (takes_balance first).2 (by simp)
    have levelToo := (takes_balance second).2 (by simp)
    have behind : CanEnd otherwise :=
      @CanEnd.suffix (word :: (condition ++ (action ++ [opposite]))) otherwise (by simpa [lastSeen] using ends) third.ne_nil
    simp only [depth, balance_cons, balance_append, kind, turns, bracketStep, reduceCtorEq, ↓reduceIte]
      at closed level levelToo
    refine .choice kind (takes_before first (head_append _ rfl)) (takes_before second rfl) turns (ihThird ?_ behind rfl)
    simp only [depth]
    omega
  | @loop word condition action rest kind first second ihFirst ihSecond =>
    subst nothing
    have level := (takes_balance first).2 (by simp [second.ne_nil])
    have behind : CanEnd action := @CanEnd.suffix (word :: condition) action ends second.ne_nil
    simp only [depth, balance_cons, balance_append, kind, bracketStep, reduceCtorEq, ↓reduceIte] at closed level
    refine .loop kind (takes_before first (head_before second.ne_nil)) (ihSecond ?_ behind rfl)
    simp only [depth]
    omega
  | stop kind alone =>
    have ends := canEnd_single.mp ends
    simp [kind, endsExpression] at ends
  | @ret word value rest kind given after ih =>
    subst nothing
    have some : value ≠ [] := by
      intro empty
      subst empty
      simp at given
    have behind : CanEnd value := @CanEnd.suffix [word] value ends some
    refine .ret kind ?_ (ih ?_ behind rfl)
    · rwa [head_before some] at given
    · simpa [depth, kind, bracketStep] using closed
  | plain kind after ih => exact .plain kind (ih closed ends nothing)
  | ended =>
    obtain ⟨t, final, _⟩ := ends
    cases final
  | closed kind => cases nothing
  | @construct started parens word last inner ts rest kind first after ihFirst ihAfter =>
    subst nothing
    have level := takes_balance first
    have behind : CanEnd (last :: ts) := @CanEnd.suffix (word :: inner) (last :: ts) ends (by simp)
    simp only [depth, balance_cons, balance_append, balance_nil, List.append_nil] at closed level
    cases ts with
    | nil =>
      -- The construct is the last thing of all. It leaves no parenthesis open, and none was open before.
      have enclosed := takes_balance after
      simp only [depth, balance_nil] at enclosed closed
      refine .construct kind (ihFirst ?_ ?_ rfl) (ihAfter ?_ behind rfl)
      · simp only [depth, balance_cons, balance_append, balance_nil]
        omega
      · exact ends
      · simp only [depth, balance_nil]
        omega
    | cons next ts =>
      have enclosed := level.2 (by simp)
      refine .construct kind (takes_before first rfl) (ihAfter ?_ behind rfl)
      simp only [depth, balance_cons] at closed ⊢
      omega
  | @block started parens brace last inner ts rest opens closes nested after ih =>
    have behind : CanEnd (last :: ts) := @CanEnd.suffix (brace :: inner) (last :: ts) ends (by simp)
    simp only [depth, balance_cons, balance_append, balance_nested nested, opens, closes, bracketStep, reduceCtorEq,
      ↓reduceIte] at closed
    refine .block opens closes nested (ih ?_ behind nothing)
    simp only [depth]
    omega
  | opens kind after ih =>
    refine .opens kind (ih ?_ (ends.later (by rw [kind]; rfl)) nothing)
    simp only [depth, balance_cons, kind, bracketStep, ↓reduceIte] at closed ⊢
    omega
  | closes kind after ih =>
    refine .closes kind (ih ?_ ends nothing)
    simp only [depth, balance_cons, kind, bracketStep, reduceCtorEq, ↓reduceIte] at closed ⊢
    omega
  | comma kind after ih =>
    refine .comma kind (ih ?_ (ends.later (by rw [kind]; rfl)) nothing)
    simpa [depth, kind, bracketStep] using closed
  | ordinary kind after ih =>
    refine .ordinary kind (ih ?_ ends nothing)
    simpa [depth, step_ordinary kind] using closed
  | boundary ends =>
    subst nothing
    simp [isBoundary] at ends
  | @onward parens last ts rest goes after ih =>
    subst nothing
    cases ts with
    | nil =>
      have ends := canEnd_single.mp ends
      obtain ⟨next, front, starts, _⟩ := starts
      have none : parens = 0 := by
        simp only [depth, balance_nil] at closed
        omega
      exact .boundary (by simp [isBoundary, none, ends, Option.mem_def.mp front, starts])
    | cons t ts => exact .onward goes (ih closed (@CanEnd.suffix [last] (t :: ts) ends (by simp)) rfl)

private theorem statements_take {t : Token} {ts rest : List Token} (takes : Takes .whole (t :: ts) rest) :
    statements (t :: (ts ++ rest)) = (statements rest).push (t :: ts) := by
  have length := takes.measured
  rw [Task.measure, List.cons_append, List.length_cons] at length
  rw [statements, length]
  simp

/-- The statements of two lists that are joined, if the first list leaves nothing open. -/
theorem statements_joined {ts more : List Token} (braced : BracesNested ts) (complete : (statements ts).trailing = none)
    (closed : balance ts = 0) (ends : ts = [] ∨ CanEnd ts) (starts : StartsAnew more) :
    statements (ts ++ more) = ⟨(statements ts).pieces ++ (statements more).pieces, (statements more).trailing⟩ := by
  fun_induction statements ts with
  | case1 => rfl
  | case2 => cases complete
  | case3 t rest n found ih =>
    obtain ⟨front, after, whole, rfl, takes⟩ := takes_of_segment braced found
    obtain ⟨first, front, rfl⟩ := List.exists_cons_of_ne_nil takes.ne_nil
    rw [List.cons_append] at whole
    obtain ⟨rfl, rfl⟩ := List.cons.inj whole
    simp only [List.length_cons, Nat.add_one_sub_one, List.drop_left] at ih complete ⊢
    have ends := ends.resolve_left (by simp)
    rw [List.cons_append, List.append_assoc]
    by_cases last : after = []
    · subst last
      rw [List.append_nil] at closed ends
      rw [List.nil_append, statements_take (takes_extended takes starts (by simpa [depth] using closed) ends)]
      simp [statements, Pieces.push]
    · have level := (takes_balance takes).2 last
      have left : balance after = 0 := by
        rw [← List.cons_append, balance_append] at closed
        simp only [depth] at level
        omega
      have later := ih (@BracesNested.suffix (t :: front) after braced) complete left
        (Or.inr (@CanEnd.suffix (t :: front) after ends last))
      have head : after.head? = (after ++ more).head? := by
        simpa using @head_before after [] more last
      rw [statements_take (takes_before takes head), later]
      simp [Pieces.push]

/-- The kinds that a phrase can start with. The last three can also go on with the statement in front of it. -/
def CanOpen (kind : TokenKind) : Prop :=
  startsStatement kind = true ∧ kind ≠ .elseWord ∨ kind ∈ [.openParen, .minus, .notWord]

private theorem leaf_both {kind : TokenKind} (leaf : kind ∈ leafKinds) :
    startsStatement kind = true ∧ kind ≠ .elseWord ∧ endsExpression kind = true := by
  have all : ∀ kind ∈ leafKinds, startsStatement kind = true ∧ kind ≠ .elseWord ∧ endsExpression kind = true := by
    decide
  exact all kind leaf

private theorem head_front {t : Token} {front : List Token} (first : t ∈ front.head?) (rest : List Token) :
    t ∈ (front ++ rest).head? := by
  rw [List.head?_append, Option.mem_def.mp first]
  rfl

private theorem last_behind {t : Token} {ts : List Token} (final : t ∈ ts.getLast?) (front : List Token) :
    t ∈ (front ++ ts).getLast? := by
  rw [List.getLast?_append, Option.mem_def.mp final]
  rfl

private theorem phrase_first (phrase : Phrase) : ∃ t ∈ phrase.tokens.head?, CanOpen t.kind := by
  cases phrase with
  | name t named => exact ⟨t, rfl, Or.inl (by simp [named, startsStatement])⟩
  | constant t value meant =>
    obtain ⟨starts, other, _⟩ := leaf_both (literal_kind meant).1
    exact ⟨t, rfl, Or.inl ⟨starts, other⟩⟩
  | group first inner last opens closes => exact ⟨first, rfl, Or.inr (by simp [opens])⟩
  | block first body last opens closes => exact ⟨first, rfl, Or.inl (by simp [opens, startsStatement])⟩
  | stop word returns => exact ⟨word, rfl, Or.inl (by simp [returns, startsStatement])⟩
  | ret word value returns => exact ⟨word, rfl, Or.inl (by simp [returns, startsStatement])⟩
  | branch word condition action branches => exact ⟨word, rfl, Or.inl (by simp [branches, startsStatement])⟩
  | choice word condition action opposite otherwise branches turns =>
    exact ⟨word, rfl, Or.inl (by simp [branches, startsStatement])⟩
  | loop word condition action loops => exact ⟨word, rfl, Or.inl (by simp [loops, startsStatement])⟩
  | unary operator function operand known =>
    refine ⟨operator, rfl, Or.inr ?_⟩
    rw [GrammarCuts.unaryFunction?.eq_def] at known
    split at known
    next minus =>
      simp [minus]
    next word =>
      simp [word]
    · cases known
  | binary left operator right known =>
    obtain ⟨t, first, opens⟩ := phrase_first left
    exact ⟨t, head_front first _, opens⟩
  | assign target operator value named assigns => exact ⟨target, rfl, Or.inl (by simp [named, startsStatement])⟩
  | update target operator function value named known =>
    exact ⟨target, rfl, Or.inl (by simp [named, startsStatement])⟩
  | invoke callee first last opens closes =>
    obtain ⟨t, first, opens⟩ := phrase_first callee
    exact ⟨t, head_front first _, opens⟩
  | call callee first inputs last opens closes =>
    obtain ⟨t, first, opens⟩ := phrase_first callee
    exact ⟨t, head_front first _, opens⟩
  | member base dot field dotted named =>
    obtain ⟨t, first, opens⟩ := phrase_first base
    exact ⟨t, head_front first _, opens⟩

/-- A phrase ends an expression, unless it ends in a bare `return`. -/
theorem phrase_last (phrase : Phrase) : ∃ t ∈ phrase.tokens.getLast?,
    endsExpression t.kind = true ∨ t.kind = .returnWord := by
  cases phrase with
  | name t named => exact ⟨t, rfl, Or.inl (by simp [named, endsExpression])⟩
  | constant t value meant => exact ⟨t, rfl, Or.inl (leaf_both (literal_kind meant).1).2.2⟩
  | group first inner last opens closes =>
    exact ⟨last, last_behind rfl (first :: inner.tokens), Or.inl (by simp [closes, endsExpression])⟩
  | block first body last opens closes =>
    exact ⟨last, last_behind rfl (first :: body.tokens), Or.inl (by simp [closes, endsExpression])⟩
  | stop word returns => exact ⟨word, rfl, Or.inr returns⟩
  | ret word value returns =>
    obtain ⟨t, final, ends⟩ := phrase_last value
    exact ⟨t, last_behind final [word], ends⟩
  | branch word condition action branches =>
    obtain ⟨t, final, ends⟩ := phrase_last action
    exact ⟨t, last_behind final (word :: condition.tokens), ends⟩
  | choice word condition action opposite otherwise branches turns =>
    obtain ⟨t, final, ends⟩ := phrase_last otherwise
    refine ⟨t, ?_, ends⟩
    simpa [Phrase.tokens] using last_behind final (word :: (condition.tokens ++ (action.tokens ++ [opposite])))
  | loop word condition action loops =>
    obtain ⟨t, final, ends⟩ := phrase_last action
    exact ⟨t, last_behind final (word :: condition.tokens), ends⟩
  | unary operator function operand known =>
    obtain ⟨t, final, ends⟩ := phrase_last operand
    exact ⟨t, last_behind final [operator], ends⟩
  | binary left operator right known =>
    obtain ⟨t, final, ends⟩ := phrase_last right
    refine ⟨t, ?_, ends⟩
    simpa [Phrase.tokens] using last_behind final (left.tokens ++ [operator])
  | assign target operator value named assigns =>
    obtain ⟨t, final, ends⟩ := phrase_last value
    exact ⟨t, last_behind final [target, operator], ends⟩
  | update target operator function value named known =>
    obtain ⟨t, final, ends⟩ := phrase_last value
    exact ⟨t, last_behind final [target, operator], ends⟩
  | invoke callee first last opens closes =>
    exact ⟨last, last_behind rfl callee.tokens, Or.inl (by simp [closes, endsExpression])⟩
  | call callee first inputs last opens closes =>
    have final := @last_behind last [last] rfl (callee.tokens ++ first :: inputs.tokens)
    exact ⟨last, by simpa [Phrase.tokens] using final, Or.inl (by simp [closes, endsExpression])⟩
  | member base dot field dotted named =>
    exact ⟨field, last_behind rfl base.tokens, Or.inl (by simp [named, endsExpression])⟩

private theorem body_last (body : Body) : body.tokens = [] ∨ ∃ t ∈ body.tokens.getLast?,
    endsExpression t.kind = true ∨ t.kind = .returnWord := by
  cases body with
  | nil => exact Or.inl rfl
  | cons first others =>
    right
    rcases body_last others with empty | ⟨t, final, ends⟩
    · rw [Body.tokens, empty, List.append_nil]
      exact phrase_last first
    · exact ⟨t, last_behind final _, ends⟩

section Reading
variable {ts more : List Token} {nodes others : List Node}

/-- The pieces of what was read. -/
theorem pieces_of_statements (read : parseStatements ts = .ok nodes) :
    (statements ts).trailing = none ∧ (statements ts).pieces.mapM parse = .ok nodes := by
  rw [parseStatements, build_eq] at read
  obtain ⟨found, parsed, ended⟩ := bind_eq_ok read
  split at ended
  · cases ended
  next complete =>
    cases ended
    exact ⟨complete, parsed⟩

/-- What can be read is read the same with more statements behind it. A `return` at the end would take the first
of them as its value, and some first tokens would go on with the last statement. -/
theorem parseStatements_joined (read : parseStatements ts = .ok nodes) (readMore : parseStatements more = .ok others)
    (valued : ∀ t ∈ ts.getLast?, t.kind ≠ .returnWord) (some : others ≠ [])
    (free : ∀ t ∈ more.head?, t.kind ∉ [.openParen, .minus, .notWord]) :
    parseStatements (ts ++ more) = .ok (nodes ++ others) := by
  obtain ⟨complete, parsed⟩ := pieces_of_statements read
  obtain ⟨completeMore, parsedMore⟩ := pieces_of_statements readMore
  obtain ⟨body, rfl, rfl⟩ := writtenBody_of_parse read
  have ends : body.tokens = [] ∨ CanEnd body.tokens := by
    rcases body_last body with empty | ⟨t, final, ends | returns⟩
    · exact Or.inl empty
    · exact Or.inr ⟨t, final, ends⟩
    · exact absurd returns (valued t final)
  have starts : StartsAnew more := by
    obtain ⟨body, rfl, rfl⟩ := writtenBody_of_parse readMore
    cases body with
    | nil => exact absurd rfl some
    | cons first others =>
      obtain ⟨t, front, opens⟩ := phrase_first first
      have front := head_front front others.tokens
      exact ⟨t, front, opens.resolve_right (free t front)⟩
  have nested := body.nested
  rw [parseStatements, statements_joined (bracesNested_of_nested nested) complete (balance_nested nested) ends starts,
    build_eq, List.mapM_append, parsed, parsedMore, completeMore]
  rfl

end Reading

section Fragments
variable {ts more : List Token} {nodes : List Node} {program others : Program}

theorem statements_of_bare (bare : ∀ t ∈ ts, t.kind ≠ .funcWord) (read : parseFragment ts = .ok program) :
    program.functions = [] ∧ parseStatements ts = .ok program.statements := by
  obtain ⟨rest, hoisted, parsed⟩ := statements_of_fragment read
  rw [hoist_nothing bare] at hoisted
  obtain ⟨none, rfl⟩ := Prod.mk.inj (Except.ok.inj hoisted)
  exact ⟨none.symm, parsed⟩

/-- Where the first token stands. -/
def start (ts : List Token) : Position := (ts.head?.map Token.position).getD {}

theorem fragment_of_bare (bare : ∀ t ∈ ts, t.kind ≠ .funcWord) (read : parseStatements ts = .ok nodes) :
    parseFragment ts = .ok ⟨[], start ts, nodes⟩ := by
  rw [parseFragment, hoist_nothing bare]
  cases ts with
  | nil =>
    rw [parseStatements, statements] at read
    cases read
    rfl
  | cons t rest =>
    simp only [bind, Except.bind, read]
    rfl

/-- Two fragments without declarations, one behind the other, are read as the statements of the first and then
those of the second, each with its places. -/
theorem fragments_read_in_order (bare : ∀ t ∈ ts, t.kind ≠ .funcWord) (bareMore : ∀ t ∈ more, t.kind ≠ .funcWord)
    (read : parseFragment ts = .ok program) (readMore : parseFragment more = .ok others)
    (valued : ∀ t ∈ ts.getLast?, t.kind ≠ .returnWord)
    (free : ∀ t ∈ more.head?, t.kind ∉ [.openParen, .minus, .notWord]) :
    parseFragment (ts ++ more) = .ok ⟨[], start (ts ++ more), program.statements ++ others.statements⟩ := by
  have parsed := (statements_of_bare bare read).2
  have parsedMore := (statements_of_bare bareMore readMore).2
  apply fragment_of_bare (List.forall_mem_append.mpr ⟨bare, bareMore⟩)
  by_cases none : others.statements = []
  · -- Only no tokens at all are read as no statements.
    obtain ⟨body, rfl, nothing⟩ := writtenBody_of_parse parsedMore
    cases body with
    | nil => simpa [none, Body.tokens] using parsed
    | cons => simp [none, Body.nodes] at nothing
  · exact parseStatements_joined parsed parsedMore valued none free

/-- An `if` that an `else` could still follow, and behind it a statement that starts like its action. -/
def sampleFragments : List Token × List Token :=
  ([⟨.ifWord, "if", ⟨1, 1⟩⟩, ⟨.ident, "a", ⟨1, 4⟩⟩, ⟨.ident, "f", ⟨1, 6⟩⟩, ⟨.openParen, "(", ⟨1, 7⟩⟩,
    ⟨.closeParen, ")", ⟨1, 8⟩⟩],
   [⟨.ident, "b", ⟨2, 1⟩⟩, ⟨.plus, "+", ⟨2, 3⟩⟩, ⟨.number, "1", ⟨2, 5⟩⟩, ⟨.ident, "c", ⟨2, 7⟩⟩])

theorem sampleFragments_read_in_order : ∃ program others : Program,
    parseFragment sampleFragments.1 = .ok program ∧ parseFragment sampleFragments.2 = .ok others ∧
    program.statements.length = 1 ∧ others.statements.length = 2 ∧
    parseFragment (sampleFragments.1 ++ sampleFragments.2) =
      .ok ⟨[], ⟨1, 1⟩, program.statements ++ others.statements⟩ := by
  have ran : (parseFragment sampleFragments.1).toOption.bind (fun program =>
      (parseFragment sampleFragments.2).toOption.map fun others =>
        decide (program.statements.length = 1 ∧ others.statements.length = 2)) = some true := by
    decide +kernel
  obtain ⟨program, read, ran⟩ := Option.bind_eq_some_iff.mp ran
  obtain ⟨others, readMore, shown⟩ := Option.map_eq_some_iff.mp ran
  obtain ⟨one, two⟩ := of_decide_eq_true shown
  have read := ok_of_toOption read
  have readMore := ok_of_toOption readMore
  exact ⟨program, others, read, readMore, one, two,
    fragments_read_in_order (by decide) (by decide) read readMore (by decide) (by decide)⟩

end Fragments

end Scriptlet.Proofs.StatementJoin
